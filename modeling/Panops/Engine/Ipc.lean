import Panops.Storage.Port

/-!
# Errors on the wire
-/

namespace Panops
namespace Engine

inductive IpcError where
  | inputNotFound (path : String)
  | invalidInput (message : String)
  | providerUnavailable (message : String)
  | internal (message : String)
  | cancelled
  /-- Only read, never sent: a kind this version does not know. -/
  | unknown
deriving DecidableEq

open Storage in
/-- `IpcError::from`: what is wrong inside the storage stays opaque. -/
def IpcError.ofStorageError : StorageError → IpcError
  | .notFound id kind => .inputNotFound (kind ++ "/" ++ id)
  | .alreadyExists _ kind => .invalidInput (kind ++ " already exists")
  | .uniqueConflict kind field _ => .invalidInput (kind ++ "." ++ field ++ " already in use")
  | .sql _ => .internal "storage error"

end Engine
end Panops
