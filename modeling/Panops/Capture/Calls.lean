import Panops.Capture.Replies
import Panops.Engine.Recording
import Panops.Lib.Simulation

/-!
# Calls to the capture sidecar

`ScreenCaptureKitCapture` with the process that it has in its slot, against the sidecar
that the recordings of the engine are stated over.
-/

namespace Panops
namespace Capture

open Engine (IpcError Outcome Sidecar StopResult)
open Lib.Serde Lib.Transitions
open Mac (CaptureError RpcResponse)

variable {τ : Type}

/-! ## The adapter -/

/-- `IpcError::from` -/
def ofCaptureError : CaptureError → IpcError
  | .permissionDenied message => .invalidInput ("permission denied: " ++ message)
  | .capture message => .internal message
  | .io _ => .internal "capture io error"
  | .sidecar message => .internal message
  | .sessionNotFound id => .inputNotFound ("session/" ++ id)
  | .invalidConfig message => .invalidInput message

/-- What a response comes to, and whether the slot is kept. -/
def paired {ρ : Type} (id : UInt64) (resp : RpcResponse ρ) : Except CaptureError ρ × Bool :=
  match resp.id with
  | none =>
    let detail :=
      match resp.error with
      | some e => s!" (sidecar code {e.code})"
      | none => ""
    (.error (.sidecar s!"sidecar returned null id{detail}"), false)
  | some rid =>
    if rid ≠ id then
      (.error (.sidecar s!"JSON-RPC id mismatch: expected {id}, got {rid}"), false)
    else
      match resp.error with
      | some e => (.error (Mac.mapSidecarError e.code), true)
      | none =>
        match resp.result with
        | some r => (.ok r, true)
        | none => (.error (.sidecar "response missing result"), true)

/-- The process in the slot. -/
inductive Process where
  | absent
  /-- Ended, and the adapter does not know yet. -/
  | exited
  | running (current : Option CaptureSession)

def Process.current : Process → Option CaptureSession
  | .running current => current
  | _ => none

/-- What fails between the adapter and the process: it cannot be spawned, or it does not
take the request or ends before it has answered. -/
inductive Fault where
  | spawn (e : String)
  | lost (text : String)

/-- A call, with the text for a response that is none. -/
def exchange {ρ : Type} (h : Host τ) (notDecoded : String) (id : UInt64) (c : Circumstances)
    (fault : Option Fault) (method : String) (params : Value) (readResult : Value → Option ρ)
    (process : Process) : Option (Except CaptureError ρ × Process) :=
  match fault, process with
  | some (.spawn e), .absent => some (.error (.sidecar s!"sidecar spawn: {e}"), .absent)
  | some (.spawn _), _ => none
  | some (.lost text), _ => some (.error (.sidecar text), .absent)
  | none, .exited => none
  | none, process =>
    let handled := handleMessage h id.toNat c process.current
      (some (Mac.captureRequest id method params))
    match handled.2.filterMap Act.response with
    | [response] =>
      match readRpcResponse readResult (encodeResponse response) with
      | none => some (.error (.sidecar s!"decode: {notDecoded}"), .absent)
      | some resp =>
        some ((paired id resp).1,
          if (paired id resp).2 then .running handled.1 else .absent)
    | _ => none

/-! ## Runs of calls -/

/-- `start_capture`, `stop_capture`, and the end of the process. -/
inductive CallEvent (τ : Type) where
  | start (meetingId meetingDir : String) (config : Mac.CaptureConfig τ) (fault : Option Fault)
    (c : Circumstances)
  | stop (meetingId : String) (fault : Option Fault) (c : Circumstances)
  | exits

/-- What the engine gets. -/
inductive CallReply where
  | start (reply : Except IpcError Unit)
  | stop (reply : Except IpcError StopResult)

structure Caller where
  nextId : UInt64
  process : Process
  /-- The meetings in the map of sessions. -/
  sessions : String → Bool
  replies : List CallReply

def toStopResult (result : StoppedResult) : StopResult where
  systemAudioPath := result.systemAudioPath
  micAudioPath := result.micAudioPath
  screenshotPaths := result.screenshotPaths
  durationMs := result.durationMs.toNat

def startReply (result : Except CaptureError UInt64) : CallReply :=
  .start ((result.mapError ofCaptureError).map fun _ => ())

def stopReply (result : Except CaptureError StoppedResult) : CallReply :=
  .stop ((result.mapError ofCaptureError).map toStopResult)

/-- An id is used up when there is a process to send it to. -/
def Caller.answered (s : Caller) (fault : Option Fault) (reply : CallReply) (process : Process) :
    Caller :=
  { s with
    nextId :=
      match fault with
      | some (.spawn _) => s.nextId
      | _ => s.nextId + 1
    process := process
    replies := s.replies ++ [reply] }

/-- The map changes only after a call that succeeds: a start inserts its session, and a stop
removes it. -/
def keep {ε ρ : Type} (sessions : String → Bool) (meetingId : String) (present : Bool) :
    Except ε ρ → String → Bool
  | .ok _ => Function.update sessions meetingId present
  | .error _ => sessions

def callStep (h : Host τ) (notDecoded : String) (s : Caller) : CallEvent τ → Option Caller
  | .start meetingId meetingDir config fault c =>
    (exchange h notDecoded s.nextId c fault "capture.start"
      (Mac.captureStartParams h.single meetingId meetingDir config) readStarted s.process).map
        fun r => { s.answered fault (startReply r.1) r.2 with
          sessions := keep s.sessions meetingId true r.1 }
  | .stop meetingId fault c =>
    if s.sessions meetingId then
      (exchange h notDecoded s.nextId c fault "capture.stop" (Mac.captureStopParams meetingId)
        readStopped s.process).map
          fun r => { s.answered fault (stopReply r.1) r.2 with
            sessions := keep s.sessions meetingId false r.1 }
    -- The sidecar is not asked.
    else some { s with replies := s.replies ++ [stopReply (.error (.sessionNotFound meetingId))] }
  | .exits =>
    match s.process with
    | .running _ => some { s with process := .exited }
    | _ => none

/-! ## The sidecar of the engine's model -/

inductive SidecarEvent where
  | start (meetingId : String) (outcome : Outcome Unit)
  | stop (meetingId : String) (outcome : Outcome StopResult)
  | exits

/-- The sidecar with the adapter's map, as the recordings of the engine have them. -/
structure Outside where
  sidecar : Sidecar
  sessions : String → Bool
  replies : List CallReply

def sidecarStep (s : Outside) : SidecarEvent → Option Outside
  | .start meetingId outcome =>
    (Engine.captureStart meetingId outcome s.sidecar).map fun r =>
      ⟨r.2, keep s.sessions meetingId true r.1, s.replies ++ [.start r.1]⟩
  | .stop meetingId outcome =>
    if s.sessions meetingId then
      (Engine.captureStop meetingId outcome s.sidecar).map fun r =>
        ⟨r.2, keep s.sessions meetingId false r.1, s.replies ++ [.stop r.1]⟩
    else
      some { s with replies := s.replies ++ [.stop (.error (Engine.sessionNotFound meetingId))] }
  | .exits =>
    match s.sidecar with
    | .running _ => some { s with sidecar := .exited }
    | _ => none

def SameCall : CallEvent τ → SidecarEvent → Prop
  | .start meetingId .., .start meetingId' _ => meetingId = meetingId'
  | .stop meetingId .., .stop meetingId' _ => meetingId = meetingId'
  | .exits, .exits => True
  | _, _ => False

def Process.outside : Process → Sidecar
  | .absent => .absent
  | .exited => .exited
  | .running current => .running (current.map (·.meetingId))

/-- What the engine sees of the adapter and the process. -/
def Caller.outside (s : Caller) : Outside := ⟨s.process.outside, s.sessions, s.replies⟩

/-- The map depends on whether the call succeeds, not on what it brings. -/
theorem keep_reply {ρ ρ' : Type} (sessions : String → Bool) (meetingId : String) (present : Bool)
    (result : Except CaptureError ρ) (read : ρ → ρ') :
    keep sessions meetingId present ((result.mapError ofCaptureError).map read) =
      keep sessions meetingId present result := by
  cases result with
  | ok | error => rfl

/-! ## One call -/

section Exchange

variable {h : Host τ} {notDecoded : String} {id : UInt64} {c : Circumstances} {process : Process}

theorem asI32_failureCode (failure : CaptureFailure) :
    asI32 (ofInt (failureCode failure).code) = some (failureCode failure).code := by
  have hcodes : ∀ code ∈ [-32000, -32001, -32002, -32602], asI32 (ofInt code) = some code := by
    decide
  apply hcodes
  cases failure with
  | permissionDenied what =>
    rw [failureCode]
    split <;> simp
  | noDisplay | invalidParams | other => simp [failureCode]

/-- Without a fault a process that has not ended answers, or one that is spawned. -/
theorem exchange_none {ρ : Type} {method : String} {params : Value}
    {readResult : Value → Option ρ} {current next : Option CaptureSession} {acts : List Act}
    {response : JsonRpcResponse} (hprocess : process ≠ .exited)
    (hcurrent : process.current = current)
    (hhandled : handleMessage h id.toNat c current
      (some (Mac.captureRequest id method params)) = (next, acts))
    (hresponse : acts.filterMap Act.response = [response]) :
    exchange h notDecoded id c none method params readResult process =
      match readRpcResponse readResult (encodeResponse response) with
      | none => some (.error (.sidecar s!"decode: {notDecoded}"), .absent)
      | some resp =>
        some ((paired id resp).1, if (paired id resp).2 then .running next else .absent) := by
  subst hcurrent
  cases process with
  | exited => exact absurd rfl hprocess
  | absent | running =>
    unfold exchange
    dsimp only
    rw [hhandled, hresponse]

/-- An error that is sent is mapped by its code. -/
theorem exchange_error {ρ : Type} {method : String} {params : Value}
    {readResult : Value → Option ρ} {current next : Option CaptureSession}
    {acts : List Act} {e : JsonRpcError} (hprocess : process ≠ .exited)
    (hcurrent : process.current = current)
    (hhandled : handleMessage h id.toNat c current
      (some (Mac.captureRequest id method params)) = (next, acts))
    (hresponse : acts.filterMap Act.response = [⟨some id, .error e⟩])
    (hcode : asI32 (ofInt e.code) = some e.code) :
    exchange h notDecoded id c none method params readResult process =
      some (.error (Mac.mapSidecarError e.code), .running next) := by
  rw [exchange_none hprocess hcurrent hhandled hresponse, readRpcResponse_error id hcode]
  simp [paired]

theorem exchange_reply {ρ : Type} {method : String} {params : Value}
    {readResult : Value → Option ρ} {current next : Option CaptureSession}
    {acts : List Act} {reply : CaptureReply} {r : ρ} (hprocess : process ≠ .exited)
    (hcurrent : process.current = current)
    (hhandled : handleMessage h id.toNat c current
      (some (Mac.captureRequest id method params)) = (next, acts))
    (hresponse : acts.filterMap Act.response = [⟨some id, .ok reply⟩])
    (hresult : readResult (encodeReply reply) = some r) :
    exchange h notDecoded id c none method params readResult process =
      some (.ok r, .running next) := by
  rw [exchange_none hprocess hcurrent hhandled hresponse, readRpcResponse_reply id hresult]
  simp [paired]

theorem handleMessage_start (n : Nat) (current : Option CaptureSession)
    (meetingId meetingDir : String) (config : Mac.CaptureConfig τ) :
    handleMessage h n c current (some (Mac.captureRequest id "capture.start"
        (Mac.captureStartParams h.single meetingId meetingDir config))) =
      captureStart h n c current (some id) (askedParams meetingId meetingDir config) := by
  rw [handleMessage, Option.bind_some,
    decodeJsonRpcRequest_write h.single id "capture.start" (decodeCaptureParams_write _ _ _ _)]
  rfl

theorem handleMessage_stop (n : Nat) (current : Option CaptureSession) (meetingId : String) :
    handleMessage h n c current (some (Mac.captureRequest id "capture.stop"
        (Mac.captureStopParams meetingId))) =
      captureStop h c current (some id)
        ⟨some meetingId, none, none, none, none, none, none, none, none, none, none⟩ := by
  rw [handleMessage, Option.bind_some,
    decodeJsonRpcRequest_write h.single id "capture.stop" (decodeCaptureParams_stop _ _)]
  rfl

theorem filterMap_emitError (id : Option UInt64) (e : JsonRpcError) :
    (emitError h id e).filterMap Act.response = [⟨id, .error e⟩] := by
  rw [emitError_eq]
  rfl

/-- A reply, or the error that is sent instead of one that cannot be encoded. -/
theorem filterMap_emit (id : Option UInt64) (reply : CaptureReply) :
    (emit h id reply).filterMap Act.response = [⟨id, .ok reply⟩] ∨
      (emit h id reply).filterMap Act.response =
        [⟨id, .error ⟨-32603, "response send failed"⟩⟩] := by
  unfold emit
  split
  · exact .inl rfl
  · exact .inr (filterMap_emitError id _)

/-! ### Starting -/

theorem captureStart_idle {sidecar : Sidecar} (hlive : sidecar.live = none)
    (hexited : sidecar ≠ .exited) (meetingId : String) :
    Engine.captureStart meetingId (.answered ()) sidecar =
        some (.ok (), .running (some meetingId)) ∧
      (∀ e, Engine.captureStart meetingId (.refused e) sidecar = some (.error e, .running none)) ∧
      ∀ e, Engine.captureStart meetingId (.unanswered e) sidecar =
        some (.error e, .running (some meetingId)) := by
  cases sidecar with
  | absent => exact ⟨rfl, fun _ => rfl, fun _ => rfl⟩
  | exited => exact absurd rfl hexited
  | running current =>
    rw [show current = none from hlive]
    exact ⟨rfl, fun _ => rfl, fun _ => rfl⟩

theorem outside_idle {process : Process} (hprocess : process ≠ .exited)
    (hcurrent : process.current = none) :
    process.outside.live = none ∧ process.outside ≠ .exited := by
  cases process with
  | absent => exact ⟨rfl, fun h => by cases h⟩
  | exited => exact absurd rfl hprocess
  | running current =>
    rw [show current = none from hcurrent]
    exact ⟨rfl, fun h => by cases h⟩

theorem outside_live {process : Process} {session : CaptureSession}
    (hcurrent : process.current = some session) :
    process.outside = .running (some session.meetingId) := by
  cases process with
  | absent | exited => cases hcurrent
  | running current =>
    rw [show current = some session from hcurrent]
    rfl

/-- The error that stands for a reply that cannot be encoded. -/
def notSent : IpcError := ofCaptureError (Mac.mapSidecarError (-32603))

theorem exchange_start (hprocess : process ≠ .exited) (meetingId meetingDir : String)
    (config : Mac.CaptureConfig τ) :
    ∃ result next outcome,
      exchange h notDecoded id c none "capture.start"
        (Mac.captureStartParams h.single meetingId meetingDir config) readStarted process =
          some (result, .running next) ∧
      Engine.captureStart meetingId outcome process.outside =
        some ((result.mapError ofCaptureError).map fun _ => (),
          (Process.running next).outside) := by
  have hhandled := fun current =>
    @handleMessage_start _ h id c id.toNat current meetingId meetingDir config
  cases hcurrent : process.current with
  | some session =>
    refine ⟨_, _, .answered (), exchange_error hprocess hcurrent (hhandled (some session))
      (filterMap_emitError (some id) ⟨-32000, "capture already running"⟩) (by decide), ?_⟩
    rw [outside_live hcurrent]
    rfl
  | none =>
    have hidle := outside_idle hprocess hcurrent
    obtain ⟨hanswered, hrefused, hunanswered⟩ := captureStart_idle hidle.1 hidle.2 meetingId
    have hhandled := hhandled none
    rw [captureStart, show (askedParams meetingId meetingDir config).meetingId = some meetingId
      from rfl] at hhandled
    cases hopen : openCapture c (askedParams meetingId meetingDir config) with
    | error failure =>
      rw [hopen] at hhandled
      exact ⟨_, _, _, exchange_error hprocess hcurrent hhandled (filterMap_emitError _ _)
        (asI32_failureCode failure), hrefused _⟩
    | ok opened =>
      rw [hopen] at hhandled
      cases filterMap_emit (h := h) (some id) (.started opened.2) with
      | inl hreply =>
        exact ⟨_, _, _, exchange_reply hprocess hcurrent hhandled hreply
          (readStarted_encode opened.2), hanswered⟩
      | inr herror =>
        exact ⟨_, _, _, exchange_error hprocess hcurrent hhandled herror (by decide),
          hunanswered notSent⟩

/-! ### Stopping -/

theorem captureStop_live {sidecar : Sidecar} {meetingId : String}
    (hsidecar : sidecar = .running (some meetingId)) :
    (∀ result, Engine.captureStop meetingId (.answered result) sidecar =
        some (.ok result, .running none)) ∧
      (∀ e, Engine.captureStop meetingId (.refused e) sidecar = some (.error e, .running none)) ∧
      ∀ e, Engine.captureStop meetingId (.unanswered e) sidecar =
        some (.error e, .running none) := by
  subst hsidecar
  refine ⟨fun _ => ?_, fun _ => ?_, fun _ => ?_⟩ <;> exact if_pos rfl

theorem captureStop_other {sidecar : Sidecar} {meetingId : String} (hexited : sidecar ≠ .exited)
    (hlive : sidecar.live ≠ some meetingId) (result : StopResult) :
    Engine.captureStop meetingId (.answered result) sidecar =
      some (.error Engine.unknownSession, .running sidecar.live) := by
  cases sidecar with
  | exited => exact absurd rfl hexited
  | absent => rfl
  | running current =>
    have hne : ¬ current = some meetingId := hlive
    simp [Engine.captureStop, Sidecar.live, hne]

theorem outside_ne_exited (hprocess : process ≠ .exited) : process.outside ≠ .exited := by
  cases process with
  | exited => exact absurd rfl hprocess
  | absent | running => exact fun h => by cases h

theorem live_outside (process : Process) :
    process.outside.live = process.current.map (·.meetingId) := by
  cases process with
  | absent | exited | running => rfl

theorem captureStop_of_eq {session : CaptureSession} {meetingId : String}
    (hid : session.meetingId = meetingId) {params : CaptureParams τ}
    (hparams : params.meetingId = some meetingId) :
    captureStop h c (some session) (some id) params =
      match c.stops with
      | .error failure => (none, .stopped session :: emitError h (some id) (failureCode failure))
      | .ok (kept, durationMs) =>
        (none, .stopped session ::
          emit h (some id) (.stopped (stoppedResult session kept durationMs))) := by
  cases hstops : c.stops with
  | error | ok => simp only [captureStop, hparams, if_pos hid, hstops]

theorem captureStop_of_ne {current : Option CaptureSession} {meetingId : String}
    (hne : current.map (·.meetingId) ≠ some meetingId) {params : CaptureParams τ}
    (hparams : params.meetingId = some meetingId) :
    captureStop h c current (some id) params =
      (current, emitError h (some id) ⟨-32004, "session not found"⟩) := by
  unfold captureStop
  cases current with
  | none => simp only [hparams]
  | some session =>
    have hid : ¬ session.meetingId = meetingId := fun hid => hne (congrArg some hid)
    simp only [hparams, if_neg hid]

theorem exchange_stop (hprocess : process ≠ .exited) (meetingId : String) :
    ∃ result next outcome,
      exchange h notDecoded id c none "capture.stop" (Mac.captureStopParams meetingId) readStopped
          process = some (result, .running next) ∧
      Engine.captureStop meetingId outcome process.outside =
        some ((result.mapError ofCaptureError).map toStopResult,
          (Process.running next).outside) := by
  have hhandled := @handleMessage_stop _ h id c id.toNat process.current meetingId
  by_cases hlive : process.current.map (·.meetingId) = some meetingId
  · obtain ⟨session, hcurrent, hid⟩ := Option.map_eq_some_iff.mp hlive
    have houtside := outside_live hcurrent
    rw [hid] at houtside
    obtain ⟨hanswered, hrefused, hunanswered⟩ := captureStop_live houtside
    rw [hcurrent, captureStop_of_eq hid rfl] at hhandled
    cases hstops : c.stops with
    | error failure =>
      rw [hstops] at hhandled
      exact ⟨_, _, _, exchange_error hprocess hcurrent hhandled (filterMap_emitError _ _)
        (asI32_failureCode failure), hrefused _⟩
    | ok stopped =>
      rw [hstops] at hhandled
      cases filterMap_emit (h := h) (some id)
          (.stopped (stoppedResult session stopped.1 stopped.2)) with
      | inl hreply =>
        exact ⟨_, _, _, exchange_reply hprocess hcurrent hhandled hreply (readStopped_encode _),
          hanswered _⟩
      | inr herror =>
        exact ⟨_, _, _, exchange_error hprocess hcurrent hhandled herror (by decide),
          hunanswered notSent⟩
  · rw [captureStop_of_ne hlive rfl] at hhandled
    refine ⟨_, _, .answered ⟨none, none, [], 0⟩, exchange_error hprocess rfl hhandled
      (filterMap_emitError _ _) (by decide), ?_⟩
    rw [← live_outside] at hlive
    rw [captureStop_other (outside_ne_exited hprocess) hlive, live_outside]
    rfl

end Exchange

/-! ## Every run -/

/-- A fault, or an exchange with a process that has not ended. -/
theorem exchange_cases {ρ : Type} {h : Host τ} {notDecoded : String} {id : UInt64}
    {c : Circumstances} {fault : Option Fault} {method : String} {params : Value}
    {readResult : Value → Option ρ} {process : Process} {r : Except CaptureError ρ × Process}
    (hexchange : exchange h notDecoded id c fault method params readResult process = some r) :
    (∃ e : String, process = .absent ∧ r = (.error (.sidecar s!"sidecar spawn: {e}"), .absent)) ∨
      (∃ text, r = (.error (.sidecar text), .absent)) ∨ fault = none ∧ process ≠ .exited := by
  cases fault with
  | none =>
    refine .inr (.inr ⟨rfl, ?_⟩)
    rintro rfl
    cases hexchange
  | some fault =>
    cases fault with
    | lost text =>
      cases hexchange
      exact .inr (.inl ⟨text, rfl⟩)
    | spawn e =>
      cases process with
      | absent =>
        cases hexchange
        exact .inl ⟨e, rfl, rfl⟩
      | exited | running => cases hexchange

theorem callStep_simulated {h : Host τ} {notDecoded : String} (s : Caller) (t : Outside)
    (event : CallEvent τ) (s' : Caller) (hR : t = s.outside)
    (hstep : callStep h notDecoded s event = some s') :
    ∃ event' t', SameCall event event' ∧ sidecarStep t event' = some t' ∧ t' = s'.outside := by
  subst hR
  cases event with
  | exits =>
    unfold callStep at hstep
    cases hprocess : s.process with
    | absent | exited => simp [hprocess] at hstep
    | running current =>
      simp only [hprocess, Option.some.injEq] at hstep
      subst hstep
      refine ⟨.exits, _, trivial, ?_, rfl⟩
      rw [sidecarStep, Caller.outside, hprocess]
      rfl
  | start meetingId meetingDir config fault c =>
    obtain ⟨r, hexchange, rfl⟩ := Option.map_eq_some_iff.mp hstep
    suffices houtcome : ∃ outcome, Engine.captureStart meetingId outcome s.process.outside =
        some ((r.1.mapError ofCaptureError).map fun _ => (), r.2.outside) by
      obtain ⟨outcome, hcall⟩ := houtcome
      refine ⟨.start meetingId outcome, _, rfl, ?_, rfl⟩
      rw [sidecarStep, Caller.outside, hcall, Option.map_some, keep_reply]
      rfl
    rcases exchange_cases hexchange with ⟨e, habsent, rfl⟩ | ⟨text, rfl⟩ | ⟨rfl, hprocess⟩
    · rw [habsent]
      exact ⟨.spawnFails _, rfl⟩
    · refine ⟨.broken (.internal text), ?_⟩
      cases s.process.outside with
      | absent | exited | running => rfl
    · obtain ⟨result, next, outcome, hresult, hcall⟩ :=
        @exchange_start _ h notDecoded s.nextId c _ hprocess meetingId meetingDir config
      rw [hresult] at hexchange
      cases hexchange
      exact ⟨outcome, hcall⟩
  | stop meetingId fault c =>
    by_cases hknown : s.sessions meetingId = true
    · rw [callStep, if_pos hknown] at hstep
      obtain ⟨r, hexchange, rfl⟩ := Option.map_eq_some_iff.mp hstep
      suffices houtcome : ∃ outcome, Engine.captureStop meetingId outcome s.process.outside =
          some ((r.1.mapError ofCaptureError).map toStopResult, r.2.outside) by
        obtain ⟨outcome, hcall⟩ := houtcome
        refine ⟨.stop meetingId outcome, _, rfl, ?_, rfl⟩
        rw [sidecarStep, Caller.outside, if_pos hknown, hcall, Option.map_some, keep_reply]
        rfl
      rcases exchange_cases hexchange with ⟨e, habsent, rfl⟩ | ⟨text, rfl⟩ | ⟨rfl, hprocess⟩
      · rw [habsent]
        exact ⟨.spawnFails _, rfl⟩
      · refine ⟨.broken (.internal text), ?_⟩
        cases s.process.outside with
        | absent | exited | running => rfl
      · obtain ⟨result, next, outcome, hresult, hcall⟩ :=
          @exchange_stop _ h notDecoded s.nextId c _ hprocess meetingId
        rw [hresult] at hexchange
        cases hexchange
        exact ⟨outcome, hcall⟩
    · -- An unknown session is refused on both sides, whatever the outcome would be.
      rw [callStep, if_neg hknown] at hstep
      obtain rfl := Option.some.inj hstep
      refine ⟨.stop meetingId (.answered ⟨none, none, [], 0⟩), _, rfl, ?_, rfl⟩
      rw [sidecarStep, Caller.outside, if_neg hknown]
      rfl

/-- No process yet. -/
def Caller.new : Caller := ⟨1, .absent, fun _ => false, []⟩

/-- What the engine sees of the adapter and the real sidecar in a run, the sidecar that its
recordings are stated over does for some outcomes of the same calls. -/
theorem calls_refine (h : Host τ) (notDecoded : String) (events : List (CallEvent τ)) (s : Caller)
    (hrun : run (callStep h notDecoded) Caller.new events = some s) :
    ∃ events', List.Forall₂ SameCall events events' ∧
      run sidecarStep Caller.new.outside events' = some s.outside := by
  obtain ⟨events', t, hsame, hrun', ht⟩ :=
    run_simulated (R := fun s t => t = Caller.outside s) callStep_simulated rfl hrun
  exact ⟨events', hsame, ht ▸ hrun'⟩

def unitCodec : Codec Unit := ⟨fun _ => .bool true, fun _ => some (), fun _ => rfl, fun _ => nofun⟩

def oneHost : Host Unit := ⟨fun _ => none, unitCodec, fun _ => true, fun _ _ => rfl⟩

def oneDisplay : SCShareableContent := ⟨[⟨1, 1920, 1080⟩], [], by decide⟩

def atWork : Circumstances := ⟨.ok (), .ok oneDisplay, .ok 7, .ok (["1.jpg"], 5)⟩

def plain : Mac.CaptureConfig Unit := ⟨.micOnly, false, 500, (), .display 0, none, none⟩

/-- A recording that is stopped twice, the second time without a request, and the process
ends. -/
def oneRecording : List (CallEvent Unit) :=
  [.start "m" "/d" plain none atWork, .stop "m" none atWork, .stop "m" none atWork, .exits]

theorem calls_refine_one :
    ∃ s, run (callStep oneHost "") Caller.new oneRecording = some s ∧ s.nextId = 3 ∧
      ∃ events', List.Forall₂ SameCall oneRecording events' ∧
        run sidecarStep Caller.new.outside events' = some s.outside :=
  ⟨_, rfl, rfl, calls_refine oneHost "" _ _ rfl⟩

end Capture
end Panops
