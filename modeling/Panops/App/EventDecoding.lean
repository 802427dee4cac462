import Panops.App.Models
import Panops.Lib.Codable
import Panops.Protocol.Events

/-!
# Engine events in the app

The app decodes with `IpcEvent` what the engine writes for its `Event`.  The reason of an
error is read from `message`; the engine writes that of an input that is not found as its
`path`.
-/

namespace Panops
namespace App

open Engine (IpcError)
open Lib.Codable Lib.Serde
open Protocol (Event JobDoneEvent JobErrorEvent writeEvent writeIpcError)

/-! ## Decoding -/

def decodeJobDoneResult (v : Value) : Option JobDoneResult := do
  let c ← container v
  let primaryFile ← decode Value.asStr c "primary_file"
  let assets ← decode asStrings c "assets"
  let meetingId ← decode Value.asStr c "meeting_id"
  some { primaryFile, assets, meetingId }

def decodeJobErrorPayload (v : Value) : Option JobErrorPayload := do
  let c ← container v
  let kind ← decode Value.asStr c "kind"
  let message ← decodeIfPresent Value.asStr c "message"
  some { kind, message := message.getD "" }

def decodeJobProgressEvent (v : Value) : Option JobProgressEvent := do
  let c ← container v
  let jobId ← decode Value.asStr c "job_id"
  let stage ← decode Value.asStr c "stage"
  let current ← decodeIfPresent asInt c "current"
  let total ← decodeIfPresent asInt c "total"
  let message ← decodeIfPresent Value.asStr c "message"
  some { jobId, stage, current, total, message }

/-- `IpcEvent.init(from:)` -/
def decodeIpcEvent (v : Value) : Option IpcEvent := do
  let c ← container v
  let type ← decode Value.asStr c "type"
  match type with
  | "job.done" =>
    let jobId ← decode Value.asStr c "job_id"
    let result ← decode decodeJobDoneResult c "result"
    some (.jobDone jobId result)
  | "job.error" =>
    let jobId ← decode Value.asStr c "job_id"
    let error ← decode decodeJobErrorPayload c "error"
    some (.jobError jobId error)
  | "job.progress" => (decodeJobProgressEvent v).map .jobProgress
  | type => some (.unknown type)

/-! ## What an event says -/

/-- The tag of an error on the wire. -/
def kindOf : IpcError → String
  | .inputNotFound _ => "input_not_found"
  | .invalidInput _ => "invalid_input"
  | .providerUnavailable _ => "provider_unavailable"
  | .internal _ => "internal"
  | .cancelled => "cancelled"
  | .unknown => "unknown"

/-- The text an error carries; empty for those without one. -/
def reasonOf : IpcError → String
  | .inputNotFound path => path
  | .invalidInput message => message
  | .providerUnavailable message => message
  | .internal message => message
  | .cancelled => ""
  | .unknown => ""

def doneResult (r : Protocol.NotesGenerateResult) : JobDoneResult where
  primaryFile := r.primaryFile
  assets := r.assets
  meetingId := r.meetingId

def errorPayload (e : IpcError) : JobErrorPayload where
  kind := kindOf e
  message := reasonOf e

def progressEvent (e : Protocol.JobProgressEvent) : JobProgressEvent where
  jobId := e.jobId
  stage := e.stage
  current := e.current.map fun n => (n.toNat : Int)
  total := e.total.map fun n => (n.toNat : Int)
  message := e.message

/-- What a known event says. -/
def said : Event → Option IpcEvent
  | .jobDone e => some (.jobDone e.jobId (doneResult e.result))
  | .jobError e => some (.jobError e.jobId (errorPayload e.error))
  | .jobProgress e => some (.jobProgress (progressEvent e))
  | .unknown _ => none

/-! ## What the app makes of it -/

theorem decodeJobDoneResult_write (r : Protocol.NotesGenerateResult) :
    decodeJobDoneResult (Protocol.writeNotesGenerateResult r) = some (doneResult r) := by
  rw [Protocol.writeNotesGenerateResult, decodeJobDoneResult]
  simp [container, Value.asObject, decode_cons_self, decode_cons_of_ne, asStr_string,
    asStrings_ofStrings, doneResult]

/-- The message that is read; there is none where the engine writes a path. -/
def messageOf (e : IpcError) : String :=
  match e with
  | .inputNotFound _ => ""
  | e => reasonOf e

theorem decodeJobErrorPayload_write (e : IpcError) :
    decodeJobErrorPayload (writeIpcError e) =
      some { kind := kindOf e, message := messageOf e } := by
  cases e with
  | inputNotFound | invalidInput | providerUnavailable | internal | cancelled | unknown => rfl

theorem messageOf_eq_reasonOf_iff (e : IpcError) :
    messageOf e = reasonOf e ↔ ∀ path, e = .inputNotFound path → path = "" := by
  cases e with
  | inputNotFound path =>
    constructor
    · intro h path' hpath
      rw [← IpcError.inputNotFound.inj hpath]
      exact h.symm
    · intro h
      exact (h path rfl).symm
  | invalidInput | providerUnavailable | internal | cancelled | unknown =>
    exact ⟨fun _ path hpath => (nomatch hpath), fun _ => rfl⟩

theorem decodeJobProgressEvent_write (e : Protocol.JobProgressEvent) (tag : Value) :
    decodeJobProgressEvent (.object (("type", tag) :: e.members)) = some (progressEvent e) := by
  have hcurrent := readOptional_writeOptional asInt_ofU32 (fun _ => nofun) "current" e.current
  have htotal := readOptional_writeOptional asInt_ofU32 (fun _ => nofun) "total" e.total
  have hmessage : readOptional Value.asStr ((writeOptional "message" Value.string
      e.message).lookup "message") = some e.message :=
    readOptional_lookup_writeOptional asStr_string (fun _ => nofun) e.message
  have hother : ∀ {α : Type} (write : α → Value) (a : Option α) {name other : String},
      other ≠ name → (writeOptional name write a).lookup other = none :=
    fun write a _ _ hne => lookup_writeOptional_of_ne hne write a
  rw [Protocol.JobProgressEvent.members, decodeJobProgressEvent]
  simp [container, Value.asObject, decode_cons_self, decode_cons_of_ne, asStr_string,
    decodeIfPresent, List.lookup_cons, List.lookup_append, hother, hcurrent, htotal, hmessage,
    progressEvent]

theorem decode_jobDone (e : JobDoneEvent) :
    decodeIpcEvent (writeEvent (.jobDone e)) =
      some (.jobDone e.jobId (doneResult e.result)) := by
  rw [writeEvent, JobDoneEvent.members, decodeIpcEvent]
  simp [container, Value.asObject, decode_cons_self, decode_cons_of_ne, asStr_string,
    decodeJobDoneResult_write]

theorem decode_jobError (e : JobErrorEvent) :
    decodeIpcEvent (writeEvent (.jobError e)) =
      some (.jobError e.jobId { kind := kindOf e.error, message := messageOf e.error }) := by
  rw [writeEvent, JobErrorEvent.members, decodeIpcEvent]
  simp [container, Value.asObject, decode_cons_self, decode_cons_of_ne, asStr_string,
    decodeJobErrorPayload_write]

theorem decode_jobProgress (e : Protocol.JobProgressEvent) :
    decodeIpcEvent (writeEvent (.jobProgress e)) = some (.jobProgress (progressEvent e)) := by
  have hwhole := decodeJobProgressEvent_write e (.string "job.progress")
  rw [writeEvent, decodeIpcEvent]
  simp [container, Value.asObject, decode_cons_self, asStr_string, hwhole]

theorem decode_jobError_iff (e : JobErrorEvent) :
    decodeIpcEvent (writeEvent (.jobError e)) = some (.jobError e.jobId (errorPayload e.error)) ↔
      ∀ path, e.error = .inputNotFound path → path = "" := by
  rw [decode_jobError, errorPayload, ← messageOf_eq_reasonOf_iff]
  simp

/-- A known event arrives as what it says, just when it does not tell of an input with a
path that is not there. -/
theorem decode_writeEvent (e : Event) :
    (∀ event, said e = some event → decodeIpcEvent (writeEvent e) = some event) ↔
      ∀ jobId path, e = .jobError ⟨jobId, .inputNotFound path⟩ → path = "" := by
  cases e with
  | jobDone e =>
    refine iff_of_true (fun event hevent => ?_) nofun
    rw [← Option.some.inj hevent]
    exact decode_jobDone e
  | jobError e =>
    constructor
    · rintro h jobId path ⟨⟩
      exact (decode_jobError_iff _).mp (h _ rfl) path rfl
    · intro h event hevent
      rw [← Option.some.inj hevent, decode_jobError_iff]
      intro path hpath
      obtain ⟨jobId, error⟩ := e
      exact h jobId path (congrArg (fun error => Event.jobError ⟨jobId, error⟩) hpath)
  | jobProgress e =>
    refine iff_of_true (fun event hevent => ?_) nofun
    rw [← Option.some.inj hevent]
    exact decode_jobProgress e
  | unknown v => exact iff_of_true nofun nofun

/-- A meeting that is not there: the app is told that something was not found, and not
what. -/
theorem lost_path :
    ¬decodeIpcEvent (writeEvent (.jobError ⟨"j", .inputNotFound "meeting/abc"⟩)) =
      some (.jobError "j" (errorPayload (.inputNotFound "meeting/abc"))) := by
  rw [decode_jobError]
  simp [messageOf, errorPayload, reasonOf]

end App
end Panops
