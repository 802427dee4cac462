import Mathlib.Logic.Function.Basic
import Panops.Engine.Ipc
import Panops.Lib.Transitions

/-!
# Recordings

What the engine, the capture adapter and the sidecar keep of a recording, and the
steps in which `recording.start` and `recording.stop` change it.
-/

namespace Panops
namespace Engine

open Lib.Transitions

structure CaptureSession where
  meetingId : String
  recordVideo : Bool
deriving DecidableEq

structure StopResult where
  systemAudioPath : Option String
  micAudioPath : Option String
  screenshotPaths : List String
  durationMs : Nat
deriving DecidableEq

/-! ## The sidecar -/

/-- The process of the sidecar as the adapter has it in its slot. -/
inductive Sidecar where
  | absent
  /-- Ended, and the adapter does not know yet. -/
  | exited
  | running (current : Option String)
deriving DecidableEq

/-- The meeting that is recorded. -/
def Sidecar.live : Sidecar → Option String
  | .running current => current
  | _ => none

/-- What becomes of a call to the sidecar. -/
inductive Outcome (ρ : Type) where
  | answered (result : ρ)
  /-- The capture itself fails. -/
  | refused (e : IpcError)
  /-- It is done, and the answer is of no use; the process is kept. -/
  | unanswered (e : IpcError)
  /-- Reading or writing fails; the process is given up. -/
  | broken (e : IpcError)
  | spawnFails (e : IpcError)
deriving DecidableEq

def alreadyRunning : IpcError := .internal "sidecar error (code -32000)"

def unknownSession : IpcError := .inputNotFound "session/sidecar reported unknown session"

/-- `capture.start`.  None when the outcome is not possible here. -/
def captureStart (id : String) (outcome : Outcome Unit) (sidecar : Sidecar) :
    Option (Except IpcError Unit × Sidecar) :=
  match outcome, sidecar with
  | .spawnFails e, .absent => some (.error e, .absent)
  | .spawnFails _, _ => none
  | .broken e, _ => some (.error e, .absent)
  | _, .exited => none
  | outcome, sidecar =>
    match sidecar.live, outcome with
    | some other, .answered () => some (.error alreadyRunning, .running (some other))
    | some other, .unanswered e => some (.error e, .running (some other))
    | none, .answered () => some (.ok (), .running (some id))
    | none, .refused e => some (.error e, .running none)
    | none, .unanswered e => some (.error e, .running (some id))
    | _, _ => none

/-- `capture.stop`.  The session is over also when its recorder fails to stop. -/
def captureStop (id : String) (outcome : Outcome StopResult) (sidecar : Sidecar) :
    Option (Except IpcError StopResult × Sidecar) :=
  match outcome, sidecar with
  | .spawnFails e, .absent => some (.error e, .absent)
  | .spawnFails _, _ => none
  | .broken e, _ => some (.error e, .absent)
  | _, .exited => none
  | outcome, sidecar =>
    if sidecar.live = some id then
      match outcome with
      | .answered result => some (.ok result, .running none)
      | .refused e => some (.error e, .running none)
      | .unanswered e => some (.error e, .running none)
      | _ => none
    else
      match outcome with
      | .answered _ => some (.error unknownSession, .running sidecar.live)
      | .unanswered e => some (.error e, .running sidecar.live)
      | _ => none

/-! ## Requests -/

inductive RecordingRequest where
  | start (id : String) (autoGenerateNotes recordVideo : Bool)
  | stop (id : String)
deriving DecidableEq

/-- How far a request is. -/
inductive Stage where
  | ready
  /-- `recording.start`: the sidecar records, the adapter has the session, the engine
  has the session. -/
  | started
  | registered
  | stored
  /-- `recording.stop`: the choice and then the session are taken, the adapter's map
  is locked, the sidecar has stopped. -/
  | tookChoice (autoGenerateNotes : Bool)
  | tookSession (autoGenerateNotes : Bool) (session : CaptureSession)
  | locked (autoGenerateNotes : Bool) (session : CaptureSession)
  | stopped (autoGenerateNotes : Bool) (session : CaptureSession) (result : StopResult)
  | accepted
  | finished (autoGenerateNotes : Bool) (result : StopResult)
  | failed (e : IpcError)
deriving DecidableEq

/-- The maps of the engine, the map of the adapter with its lock, and the sidecar. -/
structure Recorder (ι : Type) where
  sessions : String → Option CaptureSession
  autoNotes : String → Option Bool
  adapter : String → Bool
  lock : Option ι
  sidecar : Sidecar
  stage : ι → Stage

inductive RecordingStep where
  /-- The meeting is not registered or its directory does not pass. -/
  | refuse (e : IpcError)
  | startCapture (outcome : Outcome Unit)
  | stopCapture (outcome : Outcome StopResult)
  /-- The adapter forgets the session; `extracted` are the screenshots of the video. -/
  | finish (extracted : List String)
  | next

inductive RecordingEvent (ι : Type) where
  | request (i : ι) (step : RecordingStep)
  | sidecarExits

variable {ι : Type} [DecidableEq ι]

def sessionNotFound (id : String) : IpcError := .inputNotFound ("session/" ++ id)

/-- The screenshots of a video are taken from it afterwards. -/
def stopReply (session : CaptureSession) (result : StopResult) (extracted : List String) :
    StopResult :=
  { result with
    screenshotPaths := if session.recordVideo then extracted else result.screenshotPaths }

def recorderStep (requests : ι → RecordingRequest) (s : Recorder ι) :
    RecordingEvent ι → Option (Recorder ι)
  | .sidecarExits =>
    match s.sidecar with
    | .running _ => some { s with sidecar := .exited }
    | _ => none
  | .request i step =>
    match requests i, s.stage i, step with
    | .start .., .ready, .refuse e => some { s with stage := Function.update s.stage i (.failed e) }
    | .start id _ _, .ready, .startCapture outcome =>
      match captureStart id outcome s.sidecar with
      | none => none
      | some (.error e, sidecar) =>
        some { s with sidecar := sidecar, stage := Function.update s.stage i (.failed e) }
      | some (.ok (), sidecar) =>
        some { s with sidecar := sidecar, stage := Function.update s.stage i .started }
    | .start id _ _, .started, .next =>
      if s.lock = none then
        some { s with
          adapter := Function.update s.adapter id true
          stage := Function.update s.stage i .registered }
      else none
    | .start id _ recordVideo, .registered, .next =>
      some { s with
        sessions := Function.update s.sessions id (some ⟨id, recordVideo⟩)
        stage := Function.update s.stage i .stored }
    | .start id autoGenerateNotes _, .stored, .next =>
      some { s with
        autoNotes := Function.update s.autoNotes id (some autoGenerateNotes)
        stage := Function.update s.stage i .accepted }
    | .stop id, .ready, .next =>
      some { s with
        autoNotes := Function.update s.autoNotes id none
        stage := Function.update s.stage i (.tookChoice ((s.autoNotes id).getD false)) }
    | .stop id, .tookChoice autoGenerateNotes, .next =>
      match s.sessions id with
      | none => some { s with stage := Function.update s.stage i (.failed (sessionNotFound id)) }
      | some session =>
        some { s with
          sessions := Function.update s.sessions id none
          stage := Function.update s.stage i (.tookSession autoGenerateNotes session) }
    | .stop _, .tookSession autoGenerateNotes session, .next =>
      if s.lock = none then
        if s.adapter session.meetingId then
          some { s with
            lock := some i
            stage := Function.update s.stage i (.locked autoGenerateNotes session) }
        else
          some { s with
            stage := Function.update s.stage i (.failed (sessionNotFound session.meetingId)) }
      else none
    | .stop _, .locked autoGenerateNotes session, .stopCapture outcome =>
      match captureStop session.meetingId outcome s.sidecar with
      | none => none
      | some (.error e, sidecar) =>
        some { s with
          sidecar := sidecar
          lock := none
          stage := Function.update s.stage i (.failed e) }
      | some (.ok result, sidecar) =>
        some { s with
          sidecar := sidecar
          stage := Function.update s.stage i (.stopped autoGenerateNotes session result) }
    | .stop _, .stopped autoGenerateNotes session result, .finish extracted =>
      some { s with
        adapter := Function.update s.adapter session.meetingId false
        lock := none
        stage := Function.update s.stage i
          (.finished autoGenerateNotes (stopReply session result extracted)) }
    | _, _, _ => none

def Recorder.start : Recorder ι where
  sessions _ := none
  autoNotes _ := none
  adapter _ := false
  lock := none
  sidecar := .absent
  stage _ := .ready

/-! ## What a step can do -/

/-- One constructor for each way of taking a step. -/
inductive Moves (requests : ι → RecordingRequest) (s : Recorder ι) :
    RecordingEvent ι → Recorder ι → Prop
  | exits {current : Option String} :
      s.sidecar = .running current →
      Moves requests s .sidecarExits { s with sidecar := .exited }
  | refuse {i : ι} {id : String} {autoGenerateNotes recordVideo : Bool} {e : IpcError} :
      requests i = .start id autoGenerateNotes recordVideo → s.stage i = .ready →
      Moves requests s (.request i (.refuse e))
        { s with stage := Function.update s.stage i (.failed e) }
  | notStarted {i : ι} {id : String} {autoGenerateNotes recordVideo : Bool}
      {outcome : Outcome Unit} {e : IpcError} {sidecar : Sidecar} :
      requests i = .start id autoGenerateNotes recordVideo → s.stage i = .ready →
      captureStart id outcome s.sidecar = some (.error e, sidecar) →
      Moves requests s (.request i (.startCapture outcome))
        { s with sidecar := sidecar, stage := Function.update s.stage i (.failed e) }
  | started {i : ι} {id : String} {autoGenerateNotes recordVideo : Bool}
      {outcome : Outcome Unit} {sidecar : Sidecar} :
      requests i = .start id autoGenerateNotes recordVideo → s.stage i = .ready →
      captureStart id outcome s.sidecar = some (.ok (), sidecar) →
      Moves requests s (.request i (.startCapture outcome))
        { s with sidecar := sidecar, stage := Function.update s.stage i .started }
  | registered {i : ι} {id : String} {autoGenerateNotes recordVideo : Bool} :
      requests i = .start id autoGenerateNotes recordVideo → s.stage i = .started →
      s.lock = none →
      Moves requests s (.request i .next)
        { s with
          adapter := Function.update s.adapter id true
          stage := Function.update s.stage i .registered }
  | stored {i : ι} {id : String} {autoGenerateNotes recordVideo : Bool} :
      requests i = .start id autoGenerateNotes recordVideo → s.stage i = .registered →
      Moves requests s (.request i .next)
        { s with
          sessions := Function.update s.sessions id (some ⟨id, recordVideo⟩)
          stage := Function.update s.stage i .stored }
  | accepted {i : ι} {id : String} {autoGenerateNotes recordVideo : Bool} :
      requests i = .start id autoGenerateNotes recordVideo → s.stage i = .stored →
      Moves requests s (.request i .next)
        { s with
          autoNotes := Function.update s.autoNotes id (some autoGenerateNotes)
          stage := Function.update s.stage i .accepted }
  | tookChoice {i : ι} {id : String} :
      requests i = .stop id → s.stage i = .ready →
      Moves requests s (.request i .next)
        { s with
          autoNotes := Function.update s.autoNotes id none
          stage := Function.update s.stage i (.tookChoice ((s.autoNotes id).getD false)) }
  | noSession {i : ι} {id : String} {autoGenerateNotes : Bool} :
      requests i = .stop id → s.stage i = .tookChoice autoGenerateNotes → s.sessions id = none →
      Moves requests s (.request i .next)
        { s with stage := Function.update s.stage i (.failed (sessionNotFound id)) }
  | tookSession {i : ι} {id : String} {autoGenerateNotes : Bool} {session : CaptureSession} :
      requests i = .stop id → s.stage i = .tookChoice autoGenerateNotes →
      s.sessions id = some session →
      Moves requests s (.request i .next)
        { s with
          sessions := Function.update s.sessions id none
          stage := Function.update s.stage i (.tookSession autoGenerateNotes session) }
  | locked {i : ι} {id : String} {autoGenerateNotes : Bool} {session : CaptureSession} :
      requests i = .stop id → s.stage i = .tookSession autoGenerateNotes session →
      s.lock = none → s.adapter session.meetingId = true →
      Moves requests s (.request i .next)
        { s with
          lock := some i
          stage := Function.update s.stage i (.locked autoGenerateNotes session) }
  | notRegistered {i : ι} {id : String} {autoGenerateNotes : Bool} {session : CaptureSession} :
      requests i = .stop id → s.stage i = .tookSession autoGenerateNotes session →
      s.lock = none → s.adapter session.meetingId = false →
      Moves requests s (.request i .next)
        { s with
          stage := Function.update s.stage i (.failed (sessionNotFound session.meetingId)) }
  | notStopped {i : ι} {id : String} {autoGenerateNotes : Bool} {session : CaptureSession}
      {outcome : Outcome StopResult} {e : IpcError} {sidecar : Sidecar} :
      requests i = .stop id → s.stage i = .locked autoGenerateNotes session →
      captureStop session.meetingId outcome s.sidecar = some (.error e, sidecar) →
      Moves requests s (.request i (.stopCapture outcome))
        { s with
          sidecar := sidecar
          lock := none
          stage := Function.update s.stage i (.failed e) }
  | stopped {i : ι} {id : String} {autoGenerateNotes : Bool} {session : CaptureSession}
      {outcome : Outcome StopResult} {result : StopResult} {sidecar : Sidecar} :
      requests i = .stop id → s.stage i = .locked autoGenerateNotes session →
      captureStop session.meetingId outcome s.sidecar = some (.ok result, sidecar) →
      Moves requests s (.request i (.stopCapture outcome))
        { s with
          sidecar := sidecar
          stage := Function.update s.stage i (.stopped autoGenerateNotes session result) }
  | finished {i : ι} {id : String} {autoGenerateNotes : Bool} {session : CaptureSession}
      {result : StopResult} {extracted : List String} :
      requests i = .stop id → s.stage i = .stopped autoGenerateNotes session result →
      Moves requests s (.request i (.finish extracted))
        { s with
          adapter := Function.update s.adapter session.meetingId false
          lock := none
          stage := Function.update s.stage i
            (.finished autoGenerateNotes (stopReply session result extracted)) }

theorem moves_of_recorderStep {requests : ι → RecordingRequest} {s s' : Recorder ι}
    {event : RecordingEvent ι} (h : recorderStep requests s event = some s') :
    Moves requests s event s' := by
  unfold recorderStep at h
  split at h
  · split at h
    · next hsidecar =>
      obtain rfl := Option.some.inj h
      exact .exits hsidecar
    · cases h
  · next i step =>
    split at h
    · next hrequest hstage =>
      obtain rfl := Option.some.inj h
      exact .refuse hrequest hstage
    · next hrequest hstage =>
      split at h
      · cases h
      · next hcall =>
        obtain rfl := Option.some.inj h
        exact .notStarted hrequest hstage hcall
      · next hcall =>
        obtain rfl := Option.some.inj h
        exact .started hrequest hstage hcall
    · next hrequest hstage =>
      split at h
      · next hlock =>
        obtain rfl := Option.some.inj h
        exact .registered hrequest hstage hlock
      · cases h
    · next hrequest hstage =>
      obtain rfl := Option.some.inj h
      exact .stored hrequest hstage
    · next hrequest hstage =>
      obtain rfl := Option.some.inj h
      exact .accepted hrequest hstage
    · next hrequest hstage =>
      obtain rfl := Option.some.inj h
      exact .tookChoice hrequest hstage
    · next hrequest hstage =>
      split at h
      · next hsession =>
        obtain rfl := Option.some.inj h
        exact .noSession hrequest hstage hsession
      · next hsession =>
        obtain rfl := Option.some.inj h
        exact .tookSession hrequest hstage hsession
    · next hrequest hstage =>
      split at h
      · next hlock =>
        split at h
        · next hadapter =>
          obtain rfl := Option.some.inj h
          exact .locked hrequest hstage hlock hadapter
        · next hadapter =>
          obtain rfl := Option.some.inj h
          exact .notRegistered hrequest hstage hlock (by simpa using hadapter)
      · cases h
    · next hrequest hstage =>
      split at h
      · cases h
      · next hcall =>
        obtain rfl := Option.some.inj h
        exact .notStopped hrequest hstage hcall
      · next hcall =>
        obtain rfl := Option.some.inj h
        exact .stopped hrequest hstage hcall
    · next hrequest hstage =>
      obtain rfl := Option.some.inj h
      exact .finished hrequest hstage
    · cases h

/-! ## The stage of one request -/

section Restage

variable (s : Recorder ι) (j : ι) (stage : Stage)

end Restage

def RecordingRequest.id : RecordingRequest → String
  | .start id _ _ => id
  | .stop id => id

section Stop

variable {requests : ι → RecordingRequest} {id : String} {j : ι} {s s' : Recorder ι}

end Stop

/-- One recording of `m`, and two stops of it. -/
def startAndStops : Fin 3 → RecordingRequest
  | 0 => .start "m" true false
  | _ => .stop "m"

def startM : List (RecordingEvent (Fin 3)) :=
  [.request 0 (.startCapture (.answered ())), .request 0 .next, .request 0 .next, .request 0 .next]

def wav : StopResult := ⟨some "system.wav", none, [], 1000⟩

def goodStop : List (RecordingEvent (Fin 3)) :=
  [.request 2 .next, .request 2 .next, .request 2 .next,
    .request 2 (.stopCapture (.answered wav)), .request 2 (.finish [])]

end Engine
end Panops
