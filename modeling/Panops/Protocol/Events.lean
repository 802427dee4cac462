import Panops.Engine.Ipc
import Panops.Lib.Serde

/-!
# Events on the wire

`Event` and `IpcError` as JSON values.  An event of a type this version does not know
is kept whole, an error of such a kind is only known to be one.
-/

namespace Panops
namespace Protocol

open Lib.Serde
open Engine (IpcError)

structure NotesGenerateResult where
  primaryFile : String
  assets : List String
  meetingId : String
  transcriptTxtPath : Option String
deriving DecidableEq

structure JobDoneEvent where
  jobId : String
  result : NotesGenerateResult
deriving DecidableEq

structure JobErrorEvent where
  jobId : String
  error : IpcError
deriving DecidableEq

structure JobProgressEvent where
  jobId : String
  stage : String
  current : Option UInt32
  total : Option UInt32
  message : Option String
deriving DecidableEq

inductive Event where
  | jobDone (e : JobDoneEvent)
  | jobError (e : JobErrorEvent)
  | jobProgress (e : JobProgressEvent)
  | unknown (v : Value)

/-! ## Writing -/

def writeIpcError : IpcError → Value
  | .inputNotFound path =>
    .object [("kind", .string "input_not_found"), ("path", .string path)]
  | .invalidInput message =>
    .object [("kind", .string "invalid_input"), ("message", .string message)]
  | .providerUnavailable message =>
    .object [("kind", .string "provider_unavailable"), ("message", .string message)]
  | .internal message => .object [("kind", .string "internal"), ("message", .string message)]
  | .cancelled => .object [("kind", .string "cancelled")]
  | .unknown => .object [("kind", .string "unknown")]

def writeNotesGenerateResult (r : NotesGenerateResult) : Value :=
  .object
    (("primary_file", .string r.primaryFile) :: ("assets", ofStrings r.assets) ::
      ("meeting_id", .string r.meetingId) ::
      writeOptional "transcript_txt_path" .string r.transcriptTxtPath)

def JobDoneEvent.members (e : JobDoneEvent) : List (String × Value) :=
  [("job_id", .string e.jobId), ("result", writeNotesGenerateResult e.result)]

def JobErrorEvent.members (e : JobErrorEvent) : List (String × Value) :=
  [("job_id", .string e.jobId), ("error", writeIpcError e.error)]

def JobProgressEvent.members (e : JobProgressEvent) : List (String × Value) :=
  ("job_id", .string e.jobId) :: ("stage", .string e.stage) ::
    (writeOptional "current" ofU32 e.current ++
      (writeOptional "total" ofU32 e.total ++ writeOptional "message" .string e.message))

/-- The tag comes first; what is not known is written as it is. -/
def writeEvent : Event → Value
  | .jobDone e => .object (("type", .string "job.done") :: e.members)
  | .jobError e => .object (("type", .string "job.error") :: e.members)
  | .jobProgress e => .object (("type", .string "job.progress") :: e.members)
  | .unknown v => v

/-! ## Reading -/

def readIpcError (v : Value) : Option IpcError := do
  let tagged ← untag "kind" v
  match tagged.1 with
  | "input_not_found" =>
    readStruct ["path"] (fun f => ((f "path").bind Value.asStr).map .inputNotFound) tagged.2
  | "invalid_input" =>
    readStruct ["message"] (fun f => ((f "message").bind Value.asStr).map .invalidInput) tagged.2
  | "provider_unavailable" =>
    readStruct ["message"] (fun f => ((f "message").bind Value.asStr).map .providerUnavailable)
      tagged.2
  | "internal" =>
    readStruct ["message"] (fun f => ((f "message").bind Value.asStr).map .internal) tagged.2
  | "cancelled" => readUnit .cancelled tagged.2
  | _ => readUnit .unknown tagged.2

def readNotesGenerateResult : Value → Option NotesGenerateResult :=
  readStruct ["primary_file", "assets", "meeting_id", "transcript_txt_path"] fun f => do
    let primaryFile ← (f "primary_file").bind Value.asStr
    let assets ← (f "assets").bind asStrings
    let meetingId ← (f "meeting_id").bind Value.asStr
    let transcriptTxtPath ← readOptional Value.asStr (f "transcript_txt_path")
    some ⟨primaryFile, assets, meetingId, transcriptTxtPath⟩

def readJobDoneEvent : Value → Option JobDoneEvent :=
  readStruct ["job_id", "result"] fun f => do
    let jobId ← (f "job_id").bind Value.asStr
    let result ← (f "result").bind readNotesGenerateResult
    some ⟨jobId, result⟩

def readJobErrorEvent : Value → Option JobErrorEvent :=
  readStruct ["job_id", "error"] fun f => do
    let jobId ← (f "job_id").bind Value.asStr
    let error ← (f "error").bind readIpcError
    some ⟨jobId, error⟩

def readJobProgressEvent : Value → Option JobProgressEvent :=
  readStruct ["job_id", "stage", "current", "total", "message"] fun f => do
    let jobId ← (f "job_id").bind Value.asStr
    let stage ← (f "stage").bind Value.asStr
    let current ← readOptional asU32 (f "current")
    let total ← readOptional asU32 (f "total")
    let message ← readOptional Value.asStr (f "message")
    some ⟨jobId, stage, current, total, message⟩

def readEventOf (v : Value) (typeStr : String) : Option Event :=
  match typeStr with
  | "job.done" => (readJobDoneEvent v).map .jobDone
  | "job.error" => (readJobErrorEvent v).map .jobError
  | "job.progress" => (readJobProgressEvent v).map .jobProgress
  | _ => some (.unknown v)

/-- `Event::deserialize`: no event without a type that is a string. -/
def readEvent (v : Value) : Option Event := do
  let typeStr ← v.getStr "type"
  readEventOf v typeStr

def knownTypes : List String := ["job.done", "job.error", "job.progress"]

def knownKinds : List String :=
  ["input_not_found", "invalid_input", "provider_unavailable", "internal", "cancelled"]

/-! ## Reading what was written -/

theorem readIpcError_write (e : IpcError) : readIpcError (writeIpcError e) = some e := by
  cases e with
  | inputNotFound | invalidInput | providerUnavailable | internal | cancelled | unknown => rfl

/-- An object with a kind this version does not know is still an error. -/
theorem readIpcError_of_unknown {members : List (String × Value)} {kind : String}
    (hkind : members.lookup "kind" = some (.string kind)) (h : kind ∉ knownKinds) :
    readIpcError (.object members) = some .unknown := by
  have htag : untag "kind" (.object members) =
      some (kind, .object (members.filter (·.1 ≠ "kind"))) := by
    rw [untag, hkind]
    rfl
  rw [readIpcError, htag, Option.bind_eq_bind, Option.bind_some]
  simp only
  split
  · exact absurd (by decide) h
  · exact absurd (by decide) h
  · exact absurd (by decide) h
  · exact absurd (by decide) h
  · exact absurd (by decide) h
  · rfl

theorem readNotesGenerateResult_write (r : NotesGenerateResult) :
    readNotesGenerateResult (writeNotesGenerateResult r) = some r := by
  have hpath : readOptional Value.asStr ((writeOptional "transcript_txt_path" Value.string
      r.transcriptTxtPath).lookup "transcript_txt_path") = some r.transcriptTxtPath :=
    readOptional_lookup_writeOptional asStr_string (fun _ => nofun) r.transcriptTxtPath
  rw [readNotesGenerateResult, writeNotesGenerateResult, readStruct_object]
  simp [List.lookup_cons, hpath, asStr_string, asStrings_ofStrings]

theorem readJobDoneEvent_write (e : JobDoneEvent) (tag : Value) :
    readJobDoneEvent (.object (("type", tag) :: e.members)) = some e := by
  rw [readJobDoneEvent, JobDoneEvent.members, readStruct_object]
  simp [List.lookup_cons, asStr_string, readNotesGenerateResult_write]

theorem readJobErrorEvent_write (e : JobErrorEvent) (tag : Value) :
    readJobErrorEvent (.object (("type", tag) :: e.members)) = some e := by
  rw [readJobErrorEvent, JobErrorEvent.members, readStruct_object]
  simp [List.lookup_cons, asStr_string, readIpcError_write]

theorem readJobProgressEvent_write (e : JobProgressEvent) (tag : Value) :
    readJobProgressEvent (.object (("type", tag) :: e.members)) = some e := by
  have hnumber : ∀ (name : String) (n : Option UInt32),
      readOptional asU32 ((writeOptional name ofU32 n).lookup name) = some n :=
    fun _ n => readOptional_lookup_writeOptional asU32_ofU32 (fun _ => nofun) n
  have hcurrent := hnumber "current" e.current
  have htotal := hnumber "total" e.total
  have hmessage : readOptional Value.asStr ((writeOptional "message" Value.string
      e.message).lookup "message") = some e.message :=
    readOptional_lookup_writeOptional asStr_string (fun _ => nofun) e.message
  have hother : ∀ {α : Type} (write : α → Value) (a : Option α) {name other : String},
      other ≠ name → (writeOptional name write a).lookup other = none :=
    fun write a _ _ hne => lookup_writeOptional_of_ne hne write a
  rw [readJobProgressEvent, JobProgressEvent.members, readStruct_object]
  simp [List.lookup_cons, List.lookup_append, asStr_string, hother, hcurrent, htotal, hmessage]

/-! ## The classes of events -/

section Classes

variable {v : Value} {e : Event} {kind : String}

theorem readEvent_of_type (h : v.get "type" = some (.string kind)) :
    readEvent v = readEventOf v kind := by
  have hstr : v.getStr "type" = some kind := by
    rw [Value.getStr, h]
    rfl
  rw [readEvent, hstr, Option.bind_eq_bind, Option.bind_some]

theorem readEvent_unknown (h : v.get "type" = some (.string kind)) (hkind : kind ∉ knownTypes) :
    readEvent v = some (.unknown v) := by
  rw [readEvent_of_type h]
  unfold readEventOf
  split
  · exact absurd (by decide) hkind
  · exact absurd (by decide) hkind
  · exact absurd (by decide) hkind
  · rfl

/-- There is a type, and it decides what is read. -/
theorem readEvent_cases (h : readEvent v = some e) :
    ∃ kind, v.get "type" = some (.string kind) ∧
      ((kind ∉ knownTypes ∧ e = .unknown v) ∨
        (kind = "job.done" ∧ ∃ done, e = .jobDone done) ∨
        (kind = "job.error" ∧ ∃ error, e = .jobError error) ∨
        (kind = "job.progress" ∧ ∃ progress, e = .jobProgress progress)) := by
  obtain ⟨kind, hkind, -⟩ := Option.bind_eq_some_iff.mp h
  have htype : v.get "type" = some (.string kind) := by
    obtain ⟨w, hw, hstr⟩ := Option.bind_eq_some_iff.mp hkind
    cases w with
    | string s =>
      obtain rfl : s = kind := Option.some.inj hstr
      exact hw
    | null | bool | number | array | object => cases hstr
  refine ⟨kind, htype, ?_⟩
  by_cases hknown : kind ∈ knownTypes
  · rw [readEvent_of_type htype] at h
    simp only [knownTypes, List.mem_cons, List.not_mem_nil, or_false] at hknown
    rcases hknown with rfl | rfl | rfl
    · obtain ⟨done, -, rfl⟩ := Option.map_eq_some_iff.mp h
      exact .inr (.inl ⟨rfl, done, rfl⟩)
    · obtain ⟨error, -, rfl⟩ := Option.map_eq_some_iff.mp h
      exact .inr (.inr (.inl ⟨rfl, error, rfl⟩))
    · obtain ⟨progress, -, rfl⟩ := Option.map_eq_some_iff.mp h
      exact .inr (.inr (.inr ⟨rfl, progress, rfl⟩))
  · rw [readEvent_unknown htype hknown] at h
    exact .inl ⟨hknown, (Option.some.inj h).symm⟩

theorem readEvent_write_jobDone (done : JobDoneEvent) :
    readEvent (writeEvent (.jobDone done)) = some (.jobDone done) := by
  have htype := @readEvent_of_type (writeEvent (.jobDone done)) "job.done" rfl
  have hread := readJobDoneEvent_write done (.string "job.done")
  rw [htype, writeEvent]
  show (readJobDoneEvent _).map _ = _
  rw [hread, Option.map_some]

theorem readEvent_write_jobError (error : JobErrorEvent) :
    readEvent (writeEvent (.jobError error)) = some (.jobError error) := by
  have htype := @readEvent_of_type (writeEvent (.jobError error)) "job.error" rfl
  have hread := readJobErrorEvent_write error (.string "job.error")
  rw [htype, writeEvent]
  show (readJobErrorEvent _).map _ = _
  rw [hread, Option.map_some]

theorem readEvent_write_jobProgress (progress : JobProgressEvent) :
    readEvent (writeEvent (.jobProgress progress)) = some (.jobProgress progress) := by
  have htype := @readEvent_of_type (writeEvent (.jobProgress progress)) "job.progress" rfl
  have hread := readJobProgressEvent_write progress (.string "job.progress")
  rw [htype, writeEvent]
  show (readJobProgressEvent _).map _ = _
  rw [hread, Option.map_some]

end Classes

/-- Unknown are exactly the values with a type that is not one of the three, and they
are kept whole; whatever is read is read again when it is written; and the kinds of
errors that are not known become one that stays. -/
theorem event_wire (v : Value) :
    (∀ w, readEvent v = some (.unknown w) ↔
      w = v ∧ ∃ kind, v.get "type" = some (.string kind) ∧ kind ∉ knownTypes) ∧
      writeEvent (.unknown v) = v ∧
      (∀ e, readEvent v = some e → readEvent (writeEvent e) = some e) ∧
      (∀ kind, v.get "kind" = some (.string kind) → kind ∉ knownKinds →
        readIpcError v = some .unknown) ∧
      readIpcError (writeIpcError .unknown) = some .unknown := by
  refine ⟨fun w => ⟨fun h => ?_, ?_⟩, rfl, fun e h => ?_, fun kind hkind hunknown => ?_, rfl⟩
  · obtain ⟨kind, hkind, ⟨hunknown, heq⟩ | ⟨-, done, heq⟩ | ⟨-, error, heq⟩ | ⟨-, progress, heq⟩⟩ :=
      readEvent_cases h
    · exact ⟨Event.unknown.inj heq, kind, hkind, hunknown⟩
    · cases heq
    · cases heq
    · cases heq
  · rintro ⟨rfl, kind, hkind, hunknown⟩
    exact readEvent_unknown hkind hunknown
  · obtain ⟨kind, -, ⟨-, rfl⟩ | ⟨-, done, rfl⟩ | ⟨-, error, rfl⟩ | ⟨-, progress, rfl⟩⟩ :=
      readEvent_cases h
    · exact h
    · exact readEvent_write_jobDone done
    · exact readEvent_write_jobError error
    · exact readEvent_write_jobProgress progress
  · cases v with
    | object members => exact readIpcError_of_unknown hkind hunknown
    | null | bool | number | string | array => cases hkind

/-- A type of a later version with the fields of a known one. -/
def paused : Value :=
  .object [("type", .string "job.paused"), ("job_id", .number "3"), ("stage", .string "asr")]

theorem event_wire_paused : readEvent paused = some (.unknown paused) :=
  ((event_wire paused).1 paused).mpr ⟨rfl, "job.paused", rfl, by decide⟩

end Protocol
end Panops
