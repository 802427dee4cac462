import Panops.Json
import Panops.Lib.Dialogue
import Panops.Lib.Machine

namespace Panops

open Lib.Machine Lib.Dialogue

structure LlmRequest where
  system : Option String
  user : String
  schema : Option Value
  temperature : Single
  maxTokens : Nat

inductive LlmResponse where
  | text (s : String)
  | json (v : Value)

inductive LlmError where
  | network (message : String)
  | invalidSchema (expected got : String)
  | emptyResponse
  | provider (message : String)
  | cancelled
deriving DecidableEq

def LlmError.display : LlmError → String
  | network message => "network: " ++ message
  | invalidSchema expected got => "invalid schema: expected " ++ expected ++ ", got " ++ got
  | emptyResponse => "empty response"
  | provider message => "provider: " ++ message
  | cancelled => "cancelled"

/-- What `complete` returned. -/
abbrev Answer := Except LlmError LlmResponse

/-- One thread's conversation with the provider. -/
abbrev LlmLog := Log LlmRequest Answer

/-- A provider as one thread meets it: any answer to any request, whatever was
said before. -/
abbrev LlmProvider := Oracle LlmRequest Answer

def complete (llm : LlmProvider) (log : LlmLog) (req : LlmRequest) : Answer × LlmLog :=
  ask llm log req

end Panops
