import Mathlib.Logic.Function.Basic
import Panops.Lib.Transitions

/-!
# The active recording

`LiveRecordingController` holds the recording that the engine has accepted, and the view
model the meeting that is being recorded.  The two are written by the starts and stops of
the New Recording sheet, the record bars and the recording screens.
-/

namespace Panops
namespace App
namespace ActiveRecording

open Lib.Transitions

/-- Where a start or a stop is suspended, with the bar or screen that it has been called
from. -/
inductive Await (ν : Type) where
  | ready
  | creating
  | startingNew (meetingId : String)
  | startingBar (view : ν) (meetingId : String)
  /-- On the way to `onRecordingStarted`. -/
  | startedBar (view : ν) (meetingId : String)
  | stopping (view : ν)
  /-- On the way to `onRecordingStopped`. -/
  | stopped (view : ν)
  | closing (view : ν) (meetingId : String)
  /-- Only refreshing what is shown, or deleting a meeting that has not been recorded. -/
  | refreshing (view : Option ν)
  | finished
deriving DecidableEq

/-- The engine names a recording by its meeting. -/
structure Session (ι ν : Type) where
  isRecording : Bool
  recordingId : Option String
  activeRecordingMeetingId : Option String
  isStartingNewRecording : Bool
  /-- The `isBusy` of the record bars and the `isStopping` of the recording screens. -/
  isBusy : ν → Bool
  await : ι → Await ν

inductive Event (ι ν : Type) where
  | startNewRecording (i : ι)
  | toggleRecording (i : ι) (bar : ν) (meetingId : String)
  | stop (i : ι) (screen : ν)
  /-- An answer to `meeting.start`, none for an error. -/
  | created (i : ι) (meetingId : Option String)
  /-- An answer to `recording.start`. -/
  | started (i : ι) (ok : Bool)
  | activated (i : ι)
  /-- An answer to `recording.stop`: whether its artifact paths are valid, none for an
  error. -/
  | recordingStopped (i : ι) (valid : Option Bool)
  | finish (i : ι)
  /-- An answer to `meeting.stop`. -/
  | closed (i : ι) (ok : Bool)
  | refreshed (i : ι)

variable {ι ν : Type} [DecidableEq ι] [DecidableEq ν]

namespace Session

def suspend (i : ι) (await : Await ν) (s : Session ι ν) : Session ι ν :=
  { s with await := Function.update s.await i await }

/-- A call returns to its bar or screen. -/
def release (i : ι) (view : ν) (s : Session ι ν) : Session ι ν :=
  { s with isBusy := Function.update s.isBusy view false }.suspend i .finished

/-- `LiveRecordingController.start` up to the request. -/
def controllerStart (s : Session ι ν) : Session ι ν :=
  { s with isRecording := true, recordingId := none }

/-- `LiveRecordingController.stop` up to the request.  With no recording it returns at
once. -/
def controllerStop (i : ι) (view : ν) (s : Session ι ν) : Session ι ν :=
  match s.recordingId with
  | none => s.suspend i (.stopped view)
  | some _ => s.suspend i (.stopping view)

/-- The end of `startNewRecording`. -/
def activateNew (i : ι) (meetingId : String) (s : Session ι ν) : Session ι ν :=
  { s with activeRecordingMeetingId := some meetingId }.suspend i (.refreshing none)

end Session

def step (s : Session ι ν) : Event ι ν → Option (Session ι ν)
  | .startNewRecording i =>
    match s.await i with
    | .ready =>
      if s.isStartingNewRecording then some (s.suspend i .finished)
      else some ({ s with isStartingNewRecording := true }.suspend i .creating)
    | _ => none
  | .toggleRecording i bar meetingId =>
    match s.await i with
    | .ready =>
      if s.isBusy bar then some (s.suspend i .finished)
      else
        let s := { s with isBusy := Function.update s.isBusy bar true }
        if s.isRecording then some (s.controllerStop i bar)
        else some (s.controllerStart.suspend i (.startingBar bar meetingId))
    | _ => none
  | .stop i screen =>
    match s.await i with
    | .ready =>
      if s.isBusy screen then some (s.suspend i .finished)
      else some ({ s with isBusy := Function.update s.isBusy screen true }.controllerStop i screen)
    | _ => none
  | .created i meetingId =>
    match s.await i with
    | .creating =>
      match meetingId with
      | none => some ({ s with isStartingNewRecording := false }.suspend i .finished)
      | some meetingId =>
        -- The controller returns at once when it is recording, and the caller goes on.
        if s.isRecording then some (s.activateNew i meetingId)
        else some (s.controllerStart.suspend i (.startingNew meetingId))
    | _ => none
  | .started i ok =>
    match s.await i with
    | .startingNew meetingId =>
      if ok then some ({ s with recordingId := some meetingId }.activateNew i meetingId)
      else some ({ s with isRecording := false, recordingId := none }.suspend i (.refreshing none))
    | .startingBar bar meetingId =>
      if ok then
        some ({ s with recordingId := some meetingId }.suspend i (.startedBar bar meetingId))
      else some ({ s with isRecording := false, recordingId := none }.release i bar)
    | _ => none
  | .activated i =>
    match s.await i with
    | .startedBar bar meetingId =>
      some ({ s with activeRecordingMeetingId := some meetingId }.release i bar)
    | _ => none
  | .recordingStopped i valid =>
    match s.await i with
    | .stopping view =>
      match valid with
      | none => some (s.release i view)
      | some true =>
        some ({ s with recordingId := none, isRecording := false }.suspend i (.stopped view))
      | some false => some ({ s with recordingId := none, isRecording := false }.release i view)
    | _ => none
  | .finish i =>
    match s.await i with
    | .stopped view =>
      match s.activeRecordingMeetingId with
      | none => some (s.release i view)
      | some meetingId => some (s.suspend i (.closing view meetingId))
    | _ => none
  | .closed i ok =>
    match s.await i with
    | .closing view meetingId =>
      if ok then
        if s.activeRecordingMeetingId = some meetingId then
          some ({ s with activeRecordingMeetingId := none }.suspend i (.refreshing (some view)))
        else some (s.suspend i (.refreshing (some view)))
      else some (s.release i view)
    | _ => none
  | .refreshed i =>
    match s.await i with
    | .refreshing none => some ({ s with isStartingNewRecording := false }.suspend i .finished)
    | .refreshing (some view) => some (s.release i view)
    | _ => none

def start : Session ι ν where
  isRecording := false
  recordingId := none
  activeRecordingMeetingId := none
  isStartingNewRecording := false
  isBusy _ := false
  await _ := .ready

/-! ## Agreement -/

def Quiet (s : Session ι ν) : Prop :=
  ∀ i, s.await i = .ready ∨ s.await i = .finished

def Await.Starting : Await ν → Prop
  | .startingNew _ | .startingBar _ _ => True
  | _ => False

/-- A start that will make the meeting the active one. -/
def Await.Activates (meetingId : String) : Await ν → Prop
  | .startedBar _ m => m = meetingId
  | _ => False

/-- A stop that will close the meeting, when it is still the active one. -/
def Await.Closes (meetingId : String) : Await ν → Prop
  | .stopped _ => True
  | .closing _ m => m = meetingId
  | _ => False

/-- A start that will hold the meeting's recording when it is accepted. -/
def Await.Starts (meetingId : String) : Await ν → Prop
  | .startingNew m | .startingBar _ m => m = meetingId
  | _ => False

/-- What the calls do to one another and which requests fail.  `meeting.start` answers while
the controller is idle.  No start of a meeting is accepted between a stop and the close that
the stop is on its way to.  `recording.stop` succeeds outside a start and after
`onRecordingStarted`, with valid paths, and `meeting.stop` does not fail for the active
meeting. -/
def Orderly (s : Session ι ν) : Event ι ν → Prop
  | .created i (some _) => s.await i = .creating → s.isRecording = false
  | .started i true => ∀ meetingId, (s.await i).Starts meetingId →
      ∀ j, ¬ (s.await j).Closes meetingId
  | .recordingStopped _ (some valid) =>
    valid = true ∧ ∀ j, ¬ (s.await j).Starting ∧ ∀ meetingId, ¬ (s.await j).Activates meetingId
  | .closed i false => ∀ view meetingId, s.await i = .closing view meetingId →
      s.activeRecordingMeetingId ≠ some meetingId
  | _ => True

/-- Where the two differ, a call in flight will make them agree, and none will make them
differ: a recording that is held is not going to be closed, and a meeting that is going to be
active is recorded. -/
structure RecordingInv (s : Session ι ν) : Prop where
  held : ∀ id, s.recordingId = some id →
    s.activeRecordingMeetingId = some id ∨ ∃ j, (s.await j).Activates id
  idle : s.recordingId = none → ∀ meetingId, s.activeRecordingMeetingId = some meetingId →
    ∃ j, (s.await j).Closes meetingId
  notRecording : s.isRecording = false → s.recordingId = none
  starting : ∀ i, (s.await i).Starting → s.isRecording = true ∧ s.recordingId = none
  unique : ∀ i j, (s.await i).Starting → (s.await j).Starting → i = j
  notClosing : ∀ id, s.recordingId = some id → ∀ j, ¬ (s.await j).Closes id
  activating : ∀ j id, (s.await j).Activates id → s.recordingId = some id

section Inv

variable {s s' : Session ι ν} {i : ι}

omit [DecidableEq ν] in
theorem await_suspend {await : Await ν} (k : ι) :
    (s.suspend i await).await k = if k = i then await else s.await k :=
  Function.update_apply ..

omit [DecidableEq ν] in
/-- A task that goes on in the same sense as before. -/
theorem exists_suspend_of_imp {P : Await ν → Prop} {await : Await ν}
    (hi : P (s.await i) → P await) (h : ∃ j, P (s.await j)) :
    ∃ j, P ((s.suspend i await).await j) := by
  obtain ⟨j, hj⟩ := h
  refine ⟨j, ?_⟩
  rw [await_suspend]
  split
  · next hsame =>
    subst hsame
    exact hi hj
  · exact hj

omit [DecidableEq ν] in
/-- What the others and the task itself are not going to do. -/
theorem forall_suspend {P : Await ν → Prop} {await : Await ν} (hi : P await)
    (h : ∀ j, P (s.await j)) (j : ι) : P ((s.suspend i await).await j) := by
  rw [await_suspend]
  split
  · exact hi
  · exact h j

omit [DecidableEq ν] in
/-- A task that still makes its meeting active, or closes the active meeting, if it did. -/
theorem RecordingInv.suspend (h : RecordingInv s) {await : Await ν}
    (hactivates : ∀ id, (s.await i).Activates id ↔ await.Activates id)
    (hcloses : ∀ id, s.activeRecordingMeetingId = some id → (s.await i).Closes id →
      await.Closes id)
    (hheld : ∀ id, s.recordingId = some id → ¬ await.Closes id)
    (hstarting : ¬ await.Starting) : RecordingInv (s.suspend i await) where
  held id hid := (h.held id hid).imp_right fun hcoming =>
    exists_suspend_of_imp (hactivates id).mp hcoming
  idle hnone id hid := exists_suspend_of_imp (hcloses id hid) (h.idle hnone id hid)
  notRecording := h.notRecording
  starting k hk := by
    rw [await_suspend] at hk
    split at hk
    · exact absurd hk hstarting
    · exact h.starting k hk
  unique k l hk hl := by
    rw [await_suspend] at hk hl
    split at hk
    · exact absurd hk hstarting
    · split at hl
      · exact absurd hl hstarting
      · exact h.unique k l hk hl
  notClosing id hid :=
    forall_suspend (P := fun await => ¬ await.Closes id) (hheld id hid) (h.notClosing id hid)
  activating j id hj := by
    rw [await_suspend] at hj
    split at hj
    · exact h.activating i id ((hactivates id).mpr hj)
    · exact h.activating j id hj

/-- A task that has nothing more to do. -/
theorem RecordingInv.release (h : RecordingInv s) {view : ν}
    (hactivates : ∀ id, ¬ (s.await i).Activates id)
    (hcloses : ∀ id, s.activeRecordingMeetingId = some id → ¬ (s.await i).Closes id) :
    RecordingInv (s.release i view) := by
  have hfree : RecordingInv { s with isBusy := Function.update s.isBusy view false } :=
    ⟨h.held, h.idle, h.notRecording, h.starting, h.unique, h.notClosing, h.activating⟩
  exact hfree.suspend (fun id => iff_of_false (hactivates id) not_false)
    (fun id hactive hid => absurd hid (hcloses id hactive)) (fun _ _ => not_false) not_false

theorem RecordingInv.refreshed_step (h : RecordingInv s) (hnext : step s (.refreshed i) = some s') :
    RecordingInv s' := by
  simp only [step] at hnext
  split at hnext
  · next hrefreshing =>
    obtain rfl := Option.some.inj hnext
    have hflag : RecordingInv { s with isStartingNewRecording := false } :=
      ⟨h.held, h.idle, h.notRecording, h.starting, h.unique, h.notClosing, h.activating⟩
    exact hflag.suspend (by simp [hrefreshing, Await.Activates])
      (by simp [hrefreshing, Await.Closes]) (fun _ _ => not_false) not_false
  · next view hrefreshing =>
    obtain rfl := Option.some.inj hnext
    exact h.release (by simp [hrefreshing, Await.Activates])
      (by simp [hrefreshing, Await.Closes])
  · cases hnext

omit [DecidableEq ι] [DecidableEq ν] in
/-- No meeting is going to be active when no recording is held. -/
theorem RecordingInv.not_activates (h : RecordingInv s) (hnone : s.recordingId = none) (j : ι)
    (id : String) : ¬ (s.await j).Activates id := by
  intro hj
  have hid := h.activating j id hj
  rw [hnone] at hid
  cases hid

omit [DecidableEq ν] in
/-- A controller that is not recording starts. -/
theorem RecordingInv.controllerStart (h : RecordingInv s) (hrecording : s.isRecording = false)
    {await : Await ν} (hi : ∀ id, ¬ (s.await i).Closes id)
    (hawait : ∀ id, ¬ await.Activates id) :
    RecordingInv (s.controllerStart.suspend i await) := by
  have hnone := h.notRecording hrecording
  have hothers : ∀ k, ¬ (s.await k).Starting := by
    intro k hk
    rw [(h.starting k hk).1] at hrecording
    cases hrecording
  have hsame : ∀ k, (((s.controllerStart).suspend i await).await k).Starting → k = i := by
    intro k hk
    rw [await_suspend] at hk
    split at hk
    · next hsame => exact hsame
    · exact absurd hk (hothers k)
  constructor
  case held => exact fun id hid => by cases hid
  case idle =>
    intro _ id hid
    exact exists_suspend_of_imp (s := s.controllerStart) (fun hcloses => absurd hcloses (hi id))
      (h.idle hnone id hid)
  case notRecording => exact fun hnot => by cases hnot
  case starting => exact fun k _ => ⟨rfl, rfl⟩
  case unique => exact fun k l hk hl => (hsame k hk).trans (hsame l hl).symm
  case notClosing => exact fun id hid => by cases hid
  case activating =>
    intro k id hk
    exact absurd hk (forall_suspend (s := s.controllerStart)
      (P := fun await => ¬ await.Activates id) (hawait id) (h.not_activates hnone · id) k)

omit [DecidableEq ν] in
theorem RecordingInv.controllerStop (h : RecordingInv s) {view : ν} (hready : s.await i = .ready) :
    RecordingInv (s.controllerStop i view) := by
  have hactivates : ∀ id, ¬ (s.await i).Activates id := by simp [hready, Await.Activates]
  have hcloses : ∀ id, ¬ (s.await i).Closes id := by simp [hready, Await.Closes]
  unfold Session.controllerStop
  split
  · next hnone =>
    have hheld : ∀ id, s.recordingId = some id → ¬ (Await.stopped view).Closes id := by
      intro id hid
      rw [hnone] at hid
      cases hid
    exact h.suspend (fun id => iff_of_false (hactivates id) not_false) (fun _ _ _ => trivial)
      hheld not_false
  · exact h.suspend (fun id => iff_of_false (hactivates id) not_false)
      (fun id _ hid => absurd hid (hcloses id)) (fun _ _ => not_false) not_false

omit [DecidableEq ν] in
/-- A start returns, the only one. -/
theorem RecordingInv.not_starting (h : RecordingInv s) (hi : (s.await i).Starting)
    {await : Await ν} (hawait : ¬ await.Starting) (k : ι) :
    ¬ ((s.suspend i await).await k).Starting := by
  rw [await_suspend]
  split
  · exact hawait
  · next hne => exact fun hk => hne (h.unique k i hk hi)

omit [DecidableEq ν] in
/-- `recording.start` fails. -/
theorem RecordingInv.rejected (h : RecordingInv s) (hi : (s.await i).Starting)
    {await : Await ν} (hawait : ¬ await.Starting) (hactivates : ∀ id, ¬ await.Activates id) :
    RecordingInv ({ s with isRecording := false, recordingId := none }.suspend i await) := by
  have hnone := (h.starting i hi).2
  have hnot (k : ι) := h.not_starting hi hawait k
  constructor
  case held => exact fun id hid => by cases hid
  case idle =>
    intro _ id hid
    refine exists_suspend_of_imp (s := { s with isRecording := false, recordingId := none })
      (fun hcloses => ?_) (h.idle hnone id hid)
    have hcloses' : (s.await i).Closes id := hcloses
    cases hawaiting : s.await i <;> simp [hawaiting, Await.Starting, Await.Closes] at hi hcloses'
  case notRecording => exact fun _ => rfl
  case starting => exact fun k hk => absurd hk (hnot k)
  case unique => exact fun k _ hk _ => absurd hk (hnot k)
  case notClosing => exact fun id hid => by cases hid
  case activating =>
    intro k id hk
    exact absurd hk (forall_suspend (s := { s with isRecording := false, recordingId := none })
      (P := fun await => ¬ await.Activates id) (hactivates id) (h.not_activates hnone · id) k)

omit [DecidableEq ν] in
/-- A recording is accepted, and its meeting is active or is going to be. -/
theorem RecordingInv.accepts (h : RecordingInv s) {meetingId : String}
    (hi : (s.await i).Starting) (hclosing : ∀ j, ¬ (s.await j).Closes meetingId)
    {active : Option String} {await : Await ν} (hstarted : ¬ await.Starting)
    (hcloses : ¬ await.Closes meetingId) (hactivates : ∀ id, await.Activates id → meetingId = id)
    (hheld : active = some meetingId ∨ await.Activates meetingId) :
    RecordingInv ({ s with
      recordingId := some meetingId, activeRecordingMeetingId := active }.suspend i await) := by
  have hnot (k : ι) := h.not_starting hi hstarted k
  have hnone := (h.starting i hi).2
  constructor
  case held =>
    intro id hid
    obtain rfl := Option.some.inj hid
    refine hheld.imp_right fun hcoming => ⟨i, ?_⟩
    rw [await_suspend, if_pos rfl]
    exact hcoming
  case idle => exact fun hnone => by cases hnone
  case notRecording =>
    intro hrecording
    have hrecording' : s.isRecording = false := hrecording
    rw [(h.starting i hi).1] at hrecording'
    cases hrecording'
  case starting => exact fun k hk => absurd hk (hnot k)
  case unique => exact fun k _ hk _ => absurd hk (hnot k)
  case notClosing =>
    intro id hid
    obtain rfl := Option.some.inj hid
    exact forall_suspend (s := { s with recordingId := _, activeRecordingMeetingId := _ })
      (P := fun await => ¬ await.Closes meetingId) hcloses hclosing
  case activating =>
    intro k id hk
    rw [await_suspend] at hk
    split at hk
    · exact congrArg some (hactivates id hk)
    · exact absurd hk (h.not_activates hnone k id)

omit [DecidableEq ν] in
/-- The recording of a record bar is accepted, and its meeting is going to be active. -/
theorem RecordingInv.accepted (h : RecordingInv s) {bar : ν} {meetingId : String}
    (hi : s.await i = .startingBar bar meetingId) (hok : Orderly s (.started i true)) :
    RecordingInv
      ({ s with recordingId := some meetingId }.suspend i (.startedBar bar meetingId)) := by
  have hstarting : (s.await i).Starting := by simp [hi, Await.Starting]
  have hclosing : ∀ j, ¬ (s.await j).Closes meetingId :=
    hok meetingId (by simp [hi, Await.Starts])
  exact h.accepts hstarting hclosing not_false not_false
    (fun _ hid => hid) (Or.inr rfl)

omit [DecidableEq ν] in
/-- The recording of a new meeting is accepted, and the meeting is active. -/
theorem RecordingInv.acceptedNew (h : RecordingInv s) {meetingId : String}
    (hi : s.await i = .startingNew meetingId) (hok : Orderly s (.started i true)) :
    RecordingInv ({ s with recordingId := some meetingId }.activateNew i meetingId) := by
  have hstarting : (s.await i).Starting := by simp [hi, Await.Starting]
  have hclosing : ∀ j, ¬ (s.await j).Closes meetingId :=
    hok meetingId (by simp [hi, Await.Starts])
  exact h.accepts hstarting hclosing not_false not_false (fun _ hid => hid.elim) (Or.inl rfl)

/-- The meeting of a record bar becomes active.  It is recorded until then. -/
theorem RecordingInv.activated (h : RecordingInv s) {bar : ν} {meetingId : String}
    (hi : s.await i = .startedBar bar meetingId) :
    RecordingInv ({ s with activeRecordingMeetingId := some meetingId }.release i bar) := by
  have hrecorded : s.recordingId = some meetingId :=
    h.activating i meetingId (by simp [hi, Await.Activates])
  have hfinished (P : Await ν → Prop) (hnot : ¬ P .finished) (k : ι)
      (hk : P (({ s with activeRecordingMeetingId := some meetingId }.release i bar).await k)) :
      P (s.await k) := by
    change P ((Session.suspend i _ _).await k) at hk
    rw [await_suspend] at hk
    split at hk
    · exact absurd hk hnot
    · exact hk
  constructor
  case held => exact fun id hid => Or.inl (hrecorded.symm.trans hid)
  case idle =>
    intro hnone
    cases hrecorded.symm.trans hnone
  case notRecording => exact h.notRecording
  case starting => exact fun k hk => h.starting k (hfinished Await.Starting not_false k hk)
  case unique =>
    exact fun k l hk hl => h.unique k l (hfinished Await.Starting not_false k hk)
      (hfinished Await.Starting not_false l hl)
  case notClosing =>
    exact fun id hid k hk => h.notClosing id hid k (hfinished (Await.Closes id) not_false k hk)
  case activating =>
    exact fun k id hk => h.activating k id (hfinished (Await.Activates id) not_false k hk)

omit [DecidableEq ν] in
/-- `recording.stop` succeeds, and the meeting that is active is going to be closed. -/
theorem RecordingInv.stopped {view : ν} {valid : Bool}
    (hok : Orderly s (.recordingStopped i (some valid))) :
    RecordingInv ({ s with recordingId := none, isRecording := false }.suspend i
      (.stopped view)) := by
  have hstarting : ∀ k, ¬ (({ s with recordingId := none, isRecording := false }.suspend i
      (.stopped view)).await k).Starting :=
    forall_suspend (P := fun await => ¬ await.Starting) not_false fun k => (hok.2 k).1
  constructor
  case held => exact fun id hid => by cases hid
  case idle =>
    intro _ id _
    refine ⟨i, ?_⟩
    rw [await_suspend, if_pos rfl]
    trivial
  case notRecording => exact fun _ => rfl
  case starting => exact fun k hk => absurd hk (hstarting k)
  case unique => exact fun k _ hk _ => absurd hk (hstarting k)
  case notClosing => exact fun id hid => by cases hid
  case activating =>
    intro k id hk
    rw [await_suspend] at hk
    split at hk
    · exact absurd hk not_false
    · exact absurd hk ((hok.2 k).2 id)

omit [DecidableEq ν] in
/-- `meeting.stop` succeeds for the active meeting, which is not recorded. -/
theorem RecordingInv.closed (h : RecordingInv s) {view : ν} {meetingId : String}
    (hi : s.await i = .closing view meetingId)
    (hactive : s.activeRecordingMeetingId = some meetingId) :
    RecordingInv
      ({ s with activeRecordingMeetingId := none }.suspend i (.refreshing (some view))) := by
  have hnot (k : ι) (hk : (({ s with activeRecordingMeetingId := none }.suspend i
      (.refreshing (some view))).await k).Starting) : (s.await k).Starting := by
    rw [await_suspend] at hk
    split at hk
    · exact absurd hk not_false
    · exact hk
  constructor
  case held =>
    intro id hid
    have hcoming : ∃ j, (s.await j).Activates id := by
      refine (h.held id hid).resolve_left fun hsame => ?_
      rw [hactive] at hsame
      exact h.notClosing id hid i (by simpa [hi, Await.Closes] using hsame)
    refine Or.inr (exists_suspend_of_imp (s := { s with activeRecordingMeetingId := none })
      (fun hactivates => ?_) hcoming)
    have hactivates' : (s.await i).Activates id := hactivates
    simp [hi, Await.Activates] at hactivates'
  case idle => exact fun _ id hid => by cases hid
  case notRecording => exact h.notRecording
  case starting => exact fun k hk => h.starting k (hnot k hk)
  case unique => exact fun k l hk hl => h.unique k l (hnot k hk) (hnot l hl)
  case notClosing =>
    intro id hid
    exact forall_suspend (s := { s with activeRecordingMeetingId := none })
      (P := fun await => ¬ await.Closes id) not_false (h.notClosing id hid)
  case activating =>
    intro k id hk
    rw [await_suspend] at hk
    split at hk
    · exact absurd hk not_false
    · exact h.activating k id hk

theorem RecordingInv.startNewRecording_step (h : RecordingInv s)
    (hnext : step s (.startNewRecording i) = some s') : RecordingInv s' := by
  simp only [step] at hnext
  split at hnext
  · next hready =>
    split at hnext <;> obtain rfl := Option.some.inj hnext
    · exact h.suspend (by simp [hready, Await.Activates]) (by simp [hready, Await.Closes])
        (fun _ _ => not_false) not_false
    · have hflag : RecordingInv { s with isStartingNewRecording := true } :=
        ⟨h.held, h.idle, h.notRecording, h.starting, h.unique, h.notClosing, h.activating⟩
      exact hflag.suspend (by simp [hready, Await.Activates]) (by simp [hready, Await.Closes])
        (fun _ _ => not_false) not_false
  · cases hnext

theorem RecordingInv.toggleRecording_step (h : RecordingInv s) {bar : ν} {meetingId : String}
    (hnext : step s (.toggleRecording i bar meetingId) = some s') : RecordingInv s' := by
  simp only [step] at hnext
  split at hnext
  · next hready =>
    have hbusy : RecordingInv { s with isBusy := Function.update s.isBusy bar true } :=
      ⟨h.held, h.idle, h.notRecording, h.starting, h.unique, h.notClosing, h.activating⟩
    split at hnext
    · obtain rfl := Option.some.inj hnext
      exact h.suspend (by simp [hready, Await.Activates]) (by simp [hready, Await.Closes])
        (fun _ _ => not_false) not_false
    · split at hnext <;> obtain rfl := Option.some.inj hnext
      · exact hbusy.controllerStop hready
      · next hrecording =>
        exact hbusy.controllerStart (by simpa using hrecording) (by simp [hready, Await.Closes])
          fun _ => not_false
  · cases hnext

theorem RecordingInv.stop_step (h : RecordingInv s) {screen : ν}
    (hnext : step s (.stop i screen) = some s') : RecordingInv s' := by
  simp only [step] at hnext
  split at hnext
  · next hready =>
    have hbusy : RecordingInv { s with isBusy := Function.update s.isBusy screen true } :=
      ⟨h.held, h.idle, h.notRecording, h.starting, h.unique, h.notClosing, h.activating⟩
    split at hnext <;> obtain rfl := Option.some.inj hnext
    · exact h.suspend (by simp [hready, Await.Activates]) (by simp [hready, Await.Closes])
        (fun _ _ => not_false) not_false
    · exact hbusy.controllerStop hready
  · cases hnext

theorem RecordingInv.created_step (h : RecordingInv s) {meetingId : Option String}
    (hok : Orderly s (.created i meetingId)) (hnext : step s (.created i meetingId) = some s') :
    RecordingInv s' := by
  simp only [step] at hnext
  split at hnext
  · next hcreating =>
    split at hnext
    · obtain rfl := Option.some.inj hnext
      have hflag : RecordingInv { s with isStartingNewRecording := false } :=
        ⟨h.held, h.idle, h.notRecording, h.starting, h.unique, h.notClosing, h.activating⟩
      exact hflag.suspend (by simp [hcreating, Await.Activates])
        (by simp [hcreating, Await.Closes]) (fun _ _ => not_false) not_false
    · next meetingId =>
      have hrecording : s.isRecording = false := hok hcreating
      rw [if_neg (by simp [hrecording])] at hnext
      obtain rfl := Option.some.inj hnext
      exact h.controllerStart hrecording (by simp [hcreating, Await.Closes]) fun _ => not_false
  · cases hnext

theorem RecordingInv.started_step (h : RecordingInv s) {ok : Bool} (hok : Orderly s (.started i ok))
    (hnext : step s (.started i ok) = some s') : RecordingInv s' := by
  simp only [step] at hnext
  split at hnext
  · next meetingId hstarting =>
    split at hnext <;> obtain rfl := Option.some.inj hnext
    · next hok' =>
      subst hok'
      exact h.acceptedNew hstarting hok
    · exact h.rejected (by simp [hstarting, Await.Starting]) not_false fun _ => not_false
  · next bar meetingId hstarting =>
    split at hnext <;> obtain rfl := Option.some.inj hnext
    · next hok' =>
      subst hok'
      exact h.accepted hstarting hok
    · have hbusy : RecordingInv { s with isBusy := Function.update s.isBusy bar false } :=
        ⟨h.held, h.idle, h.notRecording, h.starting, h.unique, h.notClosing, h.activating⟩
      exact hbusy.rejected (by simp [hstarting, Await.Starting]) not_false fun _ => not_false
  · cases hnext

theorem RecordingInv.activated_step (h : RecordingInv s) (hnext : step s (.activated i) = some s') :
    RecordingInv s' := by
  simp only [step] at hnext
  split at hnext
  · next bar meetingId hstarted =>
    obtain rfl := Option.some.inj hnext
    exact h.activated hstarted
  · cases hnext

theorem RecordingInv.recordingStopped_step (h : RecordingInv s) {valid : Option Bool}
    (hok : Orderly s (.recordingStopped i valid))
    (hnext : step s (.recordingStopped i valid) = some s') : RecordingInv s' := by
  simp only [step] at hnext
  split at hnext
  · next view hstopping =>
    split at hnext <;> obtain rfl := Option.some.inj hnext
    · exact h.release (by simp [hstopping, Await.Activates]) (by simp [hstopping, Await.Closes])
    · exact .stopped hok
    · cases hok.1
  · cases hnext

theorem RecordingInv.finish_step (h : RecordingInv s) (hnext : step s (.finish i) = some s') :
    RecordingInv s' := by
  simp only [step] at hnext
  split at hnext
  · next view hstopped =>
    split at hnext <;> obtain rfl := Option.some.inj hnext
    · next hnone =>
      refine h.release (by simp [hstopped, Await.Activates]) fun id hid => ?_
      rw [hnone] at hid
      cases hid
    · next meetingId hactive =>
      have hstopping : ∀ id, (s.await i).Closes id := by simp [hstopped, Await.Closes]
      refine h.suspend (by simp [hstopped, Await.Activates]) (fun id hid _ => ?_)
        (fun id hid => absurd (hstopping id) (h.notClosing id hid i)) not_false
      rw [hactive] at hid
      exact Option.some.inj hid
  · cases hnext

theorem RecordingInv.closed_step (h : RecordingInv s) {ok : Bool} (hok : Orderly s (.closed i ok))
    (hnext : step s (.closed i ok) = some s') : RecordingInv s' := by
  simp only [step] at hnext
  split at hnext
  · next view meetingId hclosing =>
    have hactivates : ∀ id, ¬ (s.await i).Activates id := by simp [hclosing, Await.Activates]
    cases ok with
    | true =>
      simp only [if_true] at hnext
      split at hnext <;> obtain rfl := Option.some.inj hnext
      · next hactive => exact h.closed hclosing hactive
      · next hother =>
        refine h.suspend (fun id => iff_of_false (hactivates id) not_false)
          (fun id hid hcloses => ?_) (fun _ _ => not_false) not_false
        rw [hclosing] at hcloses
        exact absurd (hid.trans (congrArg some hcloses.symm)) hother
    | false =>
      obtain rfl := Option.some.inj hnext
      refine h.release hactivates fun id hid hcloses => ?_
      rw [hclosing] at hcloses
      exact hok view meetingId hclosing (hid.trans (congrArg some hcloses.symm))
  · cases hnext

theorem recordingInv_step (h : RecordingInv s) {event : Event ι ν} (hok : Orderly s event)
    (hnext : step s event = some s') : RecordingInv s' := by
  cases event with
  | startNewRecording i => exact h.startNewRecording_step hnext
  | toggleRecording i bar meetingId => exact h.toggleRecording_step hnext
  | stop i screen => exact h.stop_step hnext
  | created i meetingId => exact h.created_step hok hnext
  | started i ok => exact h.started_step hok hnext
  | activated i => exact h.activated_step hnext
  | recordingStopped i valid => exact h.recordingStopped_step hok hnext
  | finish i => exact h.finish_step hnext
  | closed i ok => exact h.closed_step hok hnext
  | refreshed i => exact h.refreshed_step hnext

/-- When nothing is in flight the active meeting is the one that is recorded, as long as
`meeting.start` answers an idle controller, no start is accepted in the middle of a stop nor
a stop in the middle of a start, and what has been stopped can be closed. -/
theorem active_recording {events : List (Event ι ν)} (horderly : Meets step Orderly start events)
    (hrun : run step start events = some s) (hquiet : Quiet s) :
    s.activeRecordingMeetingId = s.recordingId := by
  have hstart : RecordingInv (start : Session ι ν) := by
    constructor <;> simp [start, Await.Starting, Await.Closes, Await.Activates]
  have h : RecordingInv s := run_invariant_of_meets
    (fun _ _ _ hI hok hnext => recordingInv_step hI hok hnext) hstart horderly hrun
  have hactivates : ∀ id, ¬ ∃ j, (s.await j).Activates id := by
    rintro id ⟨j, hj⟩
    rcases hquiet j with hready | hfinished
    · simp [hready, Await.Activates] at hj
    · simp [hfinished, Await.Activates] at hj
  have hcloses : ∀ id, ¬ ∃ j, (s.await j).Closes id := by
    rintro id ⟨j, hj⟩
    rcases hquiet j with hready | hfinished
    · simp [hready, Await.Closes] at hj
    · simp [hfinished, Await.Closes] at hj
  cases hrecording : s.recordingId with
  | some id => exact (h.held id hrecording).resolve_right (hactivates id)
  | none =>
    cases hactive : s.activeRecordingMeetingId with
    | none => rfl
    | some id => exact absurd (h.idle hrecording id hactive) (hcloses id)

end Inv

/-! ## A stop that throws -/

/-- A recording is started from the sheet and stopped on its screen. -/
def recorded (valid : Bool) : List (Event (Fin 2) Unit) :=
  [.startNewRecording 0, .created 0 (some "m"), .started 0 true, .refreshed 0, .stop 1 (),
    .recordingStopped 1 (some valid)]

/-- An artifact path is refused, and the meeting is never closed. -/
theorem not_active_recording : ∃ s, run step start (recorded false) = some s ∧ Quiet s ∧
    s.activeRecordingMeetingId = some "m" ∧ s.recordingId = none := by
  have hvalues : (run step start (recorded false)).map
      (fun s => (s.activeRecordingMeetingId, s.recordingId, s.await 0, s.await 1)) =
        some (some "m", none, .finished, .finished) := by
    decide +kernel
  obtain ⟨s, hs, hs'⟩ := Option.map_eq_some_iff.mp hvalues
  simp only [Prod.mk.injEq] at hs'
  obtain ⟨hactive, hrecording, hzero, hone⟩ := hs'
  refine ⟨s, hs, fun i => Or.inr ?_, hactive, hrecording⟩
  match i with
  | 0 => exact hzero
  | 1 => exact hone

theorem active_recording_closed : ∃ s,
    run step start (recorded true ++ [.finish 1, .closed 1 true, .refreshed 1]) = some s ∧
      s.activeRecordingMeetingId = s.recordingId := by
  have hvalues : (run step start (recorded true ++ [.finish 1, .closed 1 true,
      .refreshed 1])).map (fun s => (s.await 0, s.await 1)) = some (.finished, .finished) := by
    decide +kernel
  obtain ⟨s, hs, hs'⟩ := Option.map_eq_some_iff.mp hvalues
  simp only [Prod.mk.injEq] at hs'
  have horderly : Meets step Orderly start
      (recorded true ++ [.finish 1, .closed 1 true, .refreshed 1]) := by
    simp [recorded, Meets, step, start, Orderly, Session.suspend, Session.release,
      Session.controllerStart, Session.controllerStop, Session.activateNew, Await.Starts,
      Await.Closes, Await.Starting, Await.Activates]
  have hquiet : Quiet s := by
    exact Fin.forall_fin_two.mpr ⟨Or.inr hs'.1, Or.inr hs'.2⟩
  exact ⟨s, hs, active_recording horderly hs hquiet⟩

end ActiveRecording
end App
end Panops
