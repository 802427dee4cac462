import Panops.Capture.Server
import Panops.Mac.Sidecar

/-!
# Replies of the capture sidecar

What the sidecar writes of an answer, and what `ScreenCaptureKitCapture` takes it for.
-/

namespace Panops
namespace Capture

open Lib.Serde
open Mac (RpcError RpcResponse)

/-! ## Writing -/

def encodeReply : CaptureReply → Value
  | .started startedAtMs => .object [("started_at_ms", ofU64 startedAtMs)]
  | .stopped result =>
    .object (writeOptional "system_audio_path" .string result.systemAudioPath ++
      (writeOptional "mic_audio_path" .string result.micAudioPath ++
        [("screenshot_paths", ofStrings result.screenshotPaths),
          ("duration_ms", ofU64 result.durationMs)]))

def encodeError (e : JsonRpcError) : Value :=
  .object [("code", ofInt e.code), ("message", .string e.message)]

/-- `JsonRpcResponse.encode(to:)`: the id is there also when there is none. -/
def encodeResponse (response : JsonRpcResponse) : Value :=
  let id := (response.id.map ofU64).getD .null
  match response.outcome with
  | .ok reply => .object [("jsonrpc", .string "2.0"), ("id", id), ("result", encodeReply reply)]
  | .error e => .object [("jsonrpc", .string "2.0"), ("id", id), ("error", encodeError e)]

/-! ## Reading -/

def readRpcError : Value → Option RpcError :=
  readStruct ["code", "message"] fun f => do
    let code ← (f "code").bind asI32
    let message ← (f "message").bind Value.asStr
    some ⟨code, message⟩

/-- Any version is read, it is looked at next. -/
def readRpcResponse {ρ : Type} (readResult : Value → Option ρ) : Value → Option (RpcResponse ρ) :=
  readStruct ["jsonrpc", "id", "result", "error"] fun f => do
    let jsonrpc ← (f "jsonrpc").bind Value.asStr
    let id ← readOptional asU64 (f "id")
    let result ← readOptional readResult (f "result")
    let error ← readOptional readRpcError (f "error")
    some ⟨jsonrpc, id, result, error⟩

/-- `StartedResult` -/
def readStarted : Value → Option UInt64 :=
  readStruct ["started_at_ms"] fun f => (f "started_at_ms").bind asU64

/-- `StopResult` -/
def readStopped : Value → Option StoppedResult :=
  readStruct ["system_audio_path", "mic_audio_path", "screenshot_paths", "duration_ms"] fun f => do
    let systemAudioPath ← readOptional Value.asStr (f "system_audio_path")
    let micAudioPath ← readOptional Value.asStr (f "mic_audio_path")
    let screenshotPaths ← readOr asStrings [] (f "screenshot_paths")
    let durationMs ← readOr asU64 0 (f "duration_ms")
    some ⟨systemAudioPath, micAudioPath, screenshotPaths, durationMs⟩

/-! ## What was written is read -/

theorem readStarted_encode (startedAtMs : UInt64) :
    readStarted (encodeReply (.started startedAtMs)) = some startedAtMs := by
  rw [encodeReply, readStarted, readStruct_object]
  exact asU64_ofU64 startedAtMs

theorem readStopped_encode (result : StoppedResult) :
    readStopped (encodeReply (.stopped result)) = some result := by
  have hother : ∀ (a : Option String) {name other : String}, other ≠ name →
      (writeOptional name Value.string a).lookup other = none :=
    fun a _ _ hne => lookup_writeOptional_of_ne hne Value.string a
  have hpath : ∀ (name : String) (a : Option String),
      readOptional Value.asStr ((writeOptional name Value.string a).lookup name) = some a :=
    fun name a => readOptional_lookup_writeOptional asStr_string (fun _ => nofun) a
  rw [encodeReply, readStopped, readStruct_object]
  simp [List.lookup_append, List.lookup_cons, hother, hpath, readOr, asStrings_ofStrings,
    asU64_ofU64]

theorem readRpcError_encode {e : JsonRpcError} (hcode : asI32 (ofInt e.code) = some e.code) :
    readRpcError (encodeError e) = some ⟨e.code, e.message⟩ := by
  rw [encodeError, readRpcError, readStruct_object]
  simp [List.lookup_cons, hcode, asStr_string]

section Response

variable {ρ : Type} {readResult : Value → Option ρ} (id : UInt64)

theorem readRpcResponse_reply {reply : CaptureReply} {r : ρ}
    (hresult : readResult (encodeReply reply) = some r) :
    readRpcResponse readResult (encodeResponse ⟨some id, .ok reply⟩) =
      some ⟨"2.0", some id, some r, none⟩ := by
  have hid : readOptional asU64 (some (ofU64 id)) = some (some id) :=
    readOptional_some (asU64_ofU64 id) nofun
  have hreply : readOptional readResult (some (encodeReply reply)) = some (some r) := by
    apply readOptional_some hresult
    cases reply with
    | started | stopped => nofun
  rw [encodeResponse, readRpcResponse, readStruct_object]
  simp [List.lookup_cons, asStr_string, hid, hreply, readOptional_none]

theorem readRpcResponse_error {e : JsonRpcError} (hcode : asI32 (ofInt e.code) = some e.code) :
    readRpcResponse readResult (encodeResponse ⟨some id, .error e⟩) =
      some ⟨"2.0", some id, none, some ⟨e.code, e.message⟩⟩ := by
  have hid : readOptional asU64 (some (ofU64 id)) = some (some id) :=
    readOptional_some (asU64_ofU64 id) nofun
  have herror : readOptional readRpcError (some (encodeError e)) =
      some (some ⟨e.code, e.message⟩) := readOptional_some (readRpcError_encode hcode) nofun
  rw [encodeResponse, readRpcResponse, readStruct_object]
  simp [List.lookup_cons, asStr_string, hid, herror, readOptional_none]

end Response

end Capture
end Panops
