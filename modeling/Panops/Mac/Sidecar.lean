import Panops.Audio.RecursiveAsr
import Panops.Lib.Lines
import Panops.Lib.Text
import Panops.Llm

/-!
# Requests to a sidecar

`ScreenCaptureKitCapture::call`, `WhisperKitAsr::send_request` and
`FoundationLlm::send_request`: one line of JSON to a child process, one line back.
The process is spawned on demand and kept for the next request, and dropped after
an error that may have left its output out of step.
-/

namespace Panops
namespace Mac

open Lib.Lines Lib.Text

def MAX_RESPONSE_BYTES : Nat := 16 * 1024 * 1024

/-! ## Reading a response -/

/-- `read_response_line`: like `read_until`, over a pipe that does not block and
with the limit looked at after each piece. -/
def readResponseLine (buf buffered : List UInt8) :
    List Arrival → Except ReadError (List UInt8) × BufReader
  | [] =>
    let line := upToNewline buffered
    (.ok (buf ++ line), ⟨buffered.drop line.length, []⟩)
  | arrival :: rest =>
    let line := upToNewline buffered
    let buf := buf ++ line
    if buffered ≠ [] ∧ (MAX_RESPONSE_BYTES ≤ buf.length ∨ buf.getLast? = some newline) then
      (.ok buf, ⟨buffered.drop line.length, arrival :: rest⟩)
    else
      match arrival with
      | .bytes first more => readResponseLine buf (first :: more) rest
      | .interrupted => readResponseLine buf [] rest
      | .wouldBlock none => readResponseLine buf [] rest
      | .wouldBlock (some e) => (.error e, ⟨[], rest⟩)
      | .failed e => (.error e, ⟨[], rest⟩)

theorem readResponseLine_ok {buf buffered out : List UInt8} {arrivals : List Arrival}
    {r : BufReader} (hbuf : newline ∉ buf)
    (h : readResponseLine buf buffered arrivals = (.ok out, r)) :
    Took (buf ++ (BufReader.mk buffered arrivals).content) out r := by
  have hhere : ∀ (buf buffered : List UInt8) arrivals, newline ∉ buf →
      Took (buf ++ (BufReader.mk buffered arrivals).content) (buf ++ upToNewline buffered)
        ⟨buffered.drop (upToNewline buffered).length, arrivals⟩ := by
    intro buf buffered arrivals hbuf
    exact took_upToNewline hbuf _ _ _ ⟨[], (List.append_nil _).symm⟩
  induction arrivals generalizing buf buffered with
  | nil =>
    simp only [readResponseLine, Prod.mk.injEq, Except.ok.injEq] at h
    obtain ⟨rfl, rfl⟩ := h
    exact hhere buf buffered [] hbuf
  | cons arrival rest ih =>
    simp only [readResponseLine] at h
    split at h
    · simp only [Prod.mk.injEq, Except.ok.injEq] at h
      obtain ⟨rfl, rfl⟩ := h
      exact hhere buf buffered (arrival :: rest) hbuf
    · rename_i hmore
      have hnone : newline ∉ buffered := by
        intro hmem
        refine hmore ⟨List.ne_nil_of_mem hmem, Or.inr ?_⟩
        obtain ⟨body, -, hline⟩ := isLine_upToNewline hmem
        simp [hline]
      have hbuf' : newline ∉ buf ++ buffered := by simp [hbuf, hnone]
      rw [upToNewline_of_not_mem hnone] at h
      cases arrival with
      | bytes first more =>
        have htook := ih hbuf' h
        simpa [Took, BufReader.content, Arrival.content] using htook
      | interrupted =>
        have htook := ih hbuf' h
        simpa [Took, BufReader.content, Arrival.content] using htook
      | wouldBlock wait =>
        cases wait with
        | none =>
          have htook := ih hbuf' h
          simpa [Took, BufReader.content, Arrival.content] using htook
        | some e => cases h
      | failed e => cases h

/-! ## Requests and responses -/

structure RpcError where
  code : Int
  message : String

/-- A response as it was sent; its version is looked at next. -/
structure RpcResponse (ρ : Type) where
  jsonrpc : String
  id : Option UInt64
  result : Option ρ
  error : Option RpcError

/-- What the adapters meet: what each process they spawn writes, the text of
Rust's error for bytes that are not UTF-8, `serde_json::from_str`, and the line and
column that it adds to the error of a field's own check. -/
structure World (α ρ : Type) where
  out : Nat → List Arrival
  utf8Error : List UInt8 → String
  fromStr : α → String → Except String (RpcResponse ρ)
  errorPosition : String → Option (Nat × Nat)

/-- A request and what happens to it outside the adapter. -/
structure Request (α : Type) where
  args : α
  spawn : Except String Unit
  setNonblocking : Except String Unit
  write : Except String Unit

/-- What the three adapters do differently. -/
structure Protocol (α ρ ε : Type) where
  failed : String → ε
  spawnFailed : String → ε
  /-- Whether the pipe is made nonblocking, and the error when that fails. -/
  setupFailed : Option ε
  /-- The checks on the arguments while the request is put together. -/
  encode : α → Except ε Unit
  read : BufReader → Except ReadError (List UInt8) × BufReader
  readFailed : α → ReadError → ε
  sidecarError : Int → ε
  took : ∀ {r r' : BufReader} {out : List UInt8}, read r = (.ok out, r') → Took r.content out r'

/-- The process in the slot.  Which of those spawned it is and how many requests
were written to it are not in the source. -/
structure SidecarState where
  process : Nat
  sent : Nat
  stdout : BufReader

/-- An adapter.  The number of processes spawned is not in the source. -/
structure Adapter where
  state : Option SidecarState
  nextId : UInt64
  spawned : Nat

def Adapter.new : Adapter := ⟨none, 1, 0⟩

def Adapter.clear (a : Adapter) : Adapter := { a with state := none }

variable {α ρ ε : Type}

def ensureSpawned (p : Protocol α ρ ε) (w : World α ρ) (req : Request α) (a : Adapter) :
    Except ε SidecarState × Adapter :=
  match a.state with
  | some s => (.ok s, a)
  | none =>
    match req.spawn with
    | .error e => (.error (p.spawnFailed e), a)
    | .ok () =>
      let s : SidecarState := ⟨a.spawned, 0, ⟨[], w.out a.spawned⟩⟩
      let a' := { a with spawned := a.spawned + 1 }
      match p.setupFailed, req.setNonblocking with
      | some e, .error _ => (.error e, a')
      | _, _ => (.ok s, { a' with state := some s })

def ioText : ReadError → String
  | .timedOut => "sidecar response timed out"
  | .other message => message

def trimEnd (s : String) : String := String.ofList (s.toList.reverse.dropWhile isWhiteSpace).reverse

def utf8 (bytes : List UInt8) : Option String := String.fromUTF8? ⟨bytes.toArray⟩

/-- An error of `serde_json` as it is shown. -/
def positioned (message : String) : Option (Nat × Nat) → String
  | none => message
  | some (line, column) => s!"{message} at line {line} column {column}"

/-- `serde_json::from_str` with the check of the version. -/
def decode (w : World α ρ) (args : α) (line : String) : Except String (RpcResponse ρ) :=
  match w.fromStr args (trimEnd line) with
  | .error e => .error e
  | .ok resp =>
    if resp.jsonrpc ≠ "2.0" then
      .error (positioned s!"unsupported jsonrpc version: {resp.jsonrpc}"
        (w.errorPosition (trimEnd line)))
    else .ok resp

/-- The bytes read for request `id`: its result, and whether the slot is kept. -/
def respond (p : Protocol α ρ ε) (w : World α ρ) (args : α) (id : UInt64) (buf : List UInt8) :
    Except ε ρ × Bool :=
  if buf.length = 0 then (.error (p.failed "sidecar exited before responding"), false)
  else if buf.getLast? ≠ some newline then
    if MAX_RESPONSE_BYTES ≤ buf.length then
      (.error (p.failed s!"sidecar response exceeded {MAX_RESPONSE_BYTES} bytes without newline"),
        false)
    else
      (.error (p.failed s!"sidecar response truncated at {buf.length} bytes (EOF mid-line)"), false)
  else
    match utf8 buf with
    | none => (.error (p.failed s!"response not utf-8: {w.utf8Error buf}"), true)
    | some line =>
      match decode w args line with
      | .error e => (.error (p.failed s!"decode: {e}"), false)
      | .ok resp =>
        match resp.id with
        | none =>
          let detail :=
            match resp.error with
            | some e => s!" (sidecar code {e.code})"
            | none => ""
          (.error (p.failed s!"sidecar returned null id{detail}"), false)
        | some rid =>
          if rid ≠ id then
            (.error (p.failed s!"JSON-RPC id mismatch: expected {id}, got {rid}"), false)
          else
            match resp.error with
            | some e => (.error (p.sidecarError e.code), true)
            | none =>
              match resp.result with
              | some r => (.ok r, true)
              | none => (.error (p.failed "response missing result"), true)

/-- One request. -/
def call (p : Protocol α ρ ε) (w : World α ρ) (a : Adapter) (req : Request α) :
    Except ε ρ × Adapter :=
  match ensureSpawned p w req a with
  | (.error e, a) => (.error e, a)
  | (.ok s, a) =>
    let id := a.nextId
    let a := { a with nextId := id + 1 }
    match p.encode req.args with
    | .error e => (.error e, a)
    | .ok () =>
      match req.write with
      | .error e => (.error (p.failed s!"stdio write: {e}"), a.clear)
      | .ok () =>
        match p.read s.stdout with
        | (.error e, _) => (.error (p.readFailed req.args e), a.clear)
        | (.ok buf, stdout) =>
          match respond p w req.args id buf with
          | (r, true) => (r, { a with state := some { s with sent := s.sent + 1, stdout } })
          | (r, false) => (r, a.clear)

/-- The adapter after a number of requests. -/
def run (p : Protocol α ρ ε) (w : World α ρ) (reqs : List (Request α)) : Adapter :=
  reqs.foldl (fun a req => (call p w a req).2) Adapter.new

/-! ## The three adapters -/

inductive CaptureError where
  | permissionDenied (message : String)
  | capture (message : String)
  | io (message : String)
  | sidecar (message : String)
  | sessionNotFound (message : String)
  | invalidConfig (message : String)
deriving DecidableEq

def mapSidecarError (code : Int) : CaptureError :=
  if code = -32001 then .permissionDenied "screen recording"
  else if code = -32002 then .permissionDenied "microphone"
  else if code = -32004 then .sessionNotFound "sidecar reported unknown session"
  else .sidecar s!"sidecar error (code {code})"

/-- A read that is done when it has a line, `MAX_RESPONSE_BYTES` or the end. -/
def readBlocking (r : BufReader) : Except ReadError (List UInt8) × BufReader :=
  readUntil MAX_RESPONSE_BYTES [] r.buffered r.arrivals

/-- `ScreenCaptureKitCapture::call`, for a method. -/
def screenCaptureKit : Protocol String ρ CaptureError where
  failed := .sidecar
  spawnFailed e := .sidecar s!"sidecar spawn: {e}"
  setupFailed := none
  encode _ := .ok ()
  read := readBlocking
  readFailed _ e := .sidecar s!"stdio read: {ioText e}"
  sidecarError := mapSidecarError
  took h := readUntil_ok (by simp) h

structure TranscribeParams where
  /-- The bytes of the path. -/
  audio : List UInt8
  sampleRate : UInt32
  languageHint : Option String

/-- `WhisperKitAsr::send_request`. -/
def whisperKit : Protocol TranscribeParams ρ AsrError where
  failed := .transcription
  spawnFailed e := .model s!"sidecar spawn: {e}"
  setupFailed := none
  encode params :=
    match utf8 params.audio with
    | none => .error (.invalidAudio "temp WAV path is not utf-8")
    | some _ => .ok ()
  read := readBlocking
  readFailed _ e := .transcription s!"stdio read: {ioText e}"
  sidecarError code := .transcription s!"sidecar error (code {code})"
  took h := readUntil_ok (by simp) h

/-- The seconds that a response is waited for. -/
def responseTimeout (method : String) : Nat :=
  if method = "probe" ∨ method = "llm.probe" then 5 else 120

/-- `FoundationLlm::send_request`, for a method. -/
def foundationLlm : Protocol String ρ LlmError where
  failed := .provider
  spawnFailed _ := .provider "sidecar spawn failed"
  setupFailed := some (.provider "sidecar setup failed")
  encode _ := .ok ()
  read r := readResponseLine [] r.buffered r.arrivals
  readFailed method e :=
    match e with
    | .timedOut => .provider s!"sidecar response timed out after {responseTimeout method}s"
    | .other message => .provider s!"stdio read: {message}"
  sidecarError code :=
    if code = -32001 ∨ code = -32602 then
      .invalidSchema "valid JSON Schema convertible to FoundationModels"
        s!"sidecar error (code {code})"
    else if code = -32002 then .emptyResponse
    else .provider s!"sidecar error (code {code})"
  took h := readResponseLine_ok (by simp) h

end Mac
end Panops
