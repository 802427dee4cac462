import Mathlib.Logic.Function.Basic
import Panops.Lib.Transitions

/-!
# The meeting in the detail pane

`selectedMeeting` is written by loads, renames, and the end and the start of
recordings, each of which waits for the engine while the selection may change.
-/

namespace Panops
namespace App
namespace DetailPane

open Lib.Transitions

structure Meeting where
  id : String
  title : String
deriving DecidableEq

inductive Call where
  | loadSelectedMeeting
  | renameMeeting (id : String)
  | finishLiveRecording (meetingId : String)
  | startNewRecording
  | deleteMeeting (id : String)
deriving DecidableEq

/-- Where a call is suspended. -/
inductive Await where
  | ready
  | getting (id : String)
  | renaming (id : String)
  | stopping (meetingId : String)
  | refreshing (stoppedMeeting : Meeting)
  | creating
  | startingRecording (meetingId : String)
  | refreshingNew
  | deleting (id : String)
  | finished
deriving DecidableEq

structure Pane (ι : Type) where
  selectedMeetingId : Option String
  selectedMeeting : Option Meeting
  /-- The selection has changed and no load has begun since. -/
  changed : Bool
  await : ι → Await
  /-- Not in the source: the last answer to a load of the meeting that was selected when
  it came, and whether it was a meeting. -/
  lastLoad : Option (String × Bool)

inductive Event (ι : Type) where
  | select (id : Option String)
  | startNewGenerationFlow
  | begin (i : ι)
  /-- An answer to `meeting.get`, `meeting.rename` or `meeting.stop`, none for an error. -/
  | answered (i : ι) (answer : Option Meeting)
  | created (i : ι) (meetingId : Option String)
  | recordingStarted (i : ι) (ok : Bool)
  | deleted (i : ι) (ok : Bool)
  /-- The `refreshMeetings` of a call returns. -/
  | refreshed (i : ι)

variable {ι : Type} [DecidableEq ι]

namespace Pane

def suspend (i : ι) (await : Await) (s : Pane ι) : Pane ι :=
  { s with await := Function.update s.await i await }

def setSelectedMeetingId (id : Option String) (s : Pane ι) : Pane ι :=
  { s with selectedMeetingId := id, changed := s.changed || s.selectedMeetingId != id }

/-- Up to the request. -/
def loadSelectedMeeting (i : ι) (s : Pane ι) : Pane ι :=
  match s.selectedMeetingId with
  | none => { s with selectedMeeting := none, changed := false }.suspend i .finished
  | some id => { s with changed := false }.suspend i (.getting id)

/-- From the answer on. -/
def loaded (i : ι) (id : String) (answer : Option Meeting) (s : Pane ι) : Pane ι :=
  let s := { s with
    lastLoad := if s.selectedMeetingId = some id then some (id, answer.isSome) else s.lastLoad }
  match answer with
  | some meeting =>
    if s.selectedMeetingId = some id then
      { s with selectedMeeting := some meeting }.suspend i .finished
    else s.suspend i .finished
  | none => { s with selectedMeeting := none }.suspend i .finished

end Pane

/-- The engine answers with the meeting that it has been asked for. -/
def step (calls : ι → Call) (s : Pane ι) : Event ι → Option (Pane ι)
  | .select id => some (s.setSelectedMeetingId id)
  | .startNewGenerationFlow => some { s.setSelectedMeetingId none with selectedMeeting := none }
  | .begin i =>
    match s.await i with
    | .ready =>
      match calls i with
      | .loadSelectedMeeting => some (s.loadSelectedMeeting i)
      | .renameMeeting id => some (s.suspend i (.renaming id))
      | .finishLiveRecording meetingId => some (s.suspend i (.stopping meetingId))
      | .startNewRecording => some (s.suspend i .creating)
      | .deleteMeeting id => some (s.suspend i (.deleting id))
    | _ => none
  | .answered i answer =>
    match s.await i with
    | .getting id =>
      if ∀ meeting ∈ answer, meeting.id = id then some (s.loaded i id answer) else none
    | .renaming id =>
      match answer with
      | some updated =>
        if updated.id = id then
          if s.selectedMeeting.map Meeting.id = some id then
            some ({ s with selectedMeeting := some updated }.suspend i .finished)
          else some (s.suspend i .finished)
        else none
      | none => some (s.suspend i .finished)
    | .stopping meetingId =>
      match answer with
      | some stoppedMeeting =>
        if stoppedMeeting.id = meetingId then some (s.suspend i (.refreshing stoppedMeeting))
        else none
      | none => some (s.suspend i .finished)
    | _ => none
  | .created i meetingId =>
    match s.await i with
    | .creating =>
      match meetingId with
      | some meetingId => some (s.suspend i (.startingRecording meetingId))
      | none => some (s.suspend i .finished)
    | _ => none
  | .recordingStarted i ok =>
    match s.await i with
    | .startingRecording meetingId =>
      if ok then
        some ({ s.setSelectedMeetingId (some meetingId) with selectedMeeting := none }.suspend i
          .refreshingNew)
      else some (s.suspend i .finished)
    | _ => none
  | .deleted i ok =>
    match s.await i with
    | .deleting id =>
      if ok ∧ s.selectedMeetingId = some id then
        some ({ s.setSelectedMeetingId none with selectedMeeting := none }.suspend i .finished)
      else some (s.suspend i .finished)
    | _ => none
  | .refreshed i =>
    match s.await i with
    | .refreshing stoppedMeeting =>
      if s.selectedMeetingId = some stoppedMeeting.id then
        some ({ s with selectedMeeting := some stoppedMeeting }.suspend i .finished)
      else some (s.suspend i .finished)
    | .refreshingNew => some (s.loadSelectedMeeting i)
    | _ => none

def start : Pane ι where
  selectedMeetingId := none
  selectedMeeting := none
  changed := false
  await _ := .ready
  lastLoad := none

/-! ## What is shown -/

/-- Nothing waits for the engine, and no load is to come. -/
def Quiet (s : Pane ι) : Prop :=
  s.changed = false ∧ ∀ i, s.await i = .ready ∨ s.await i = .finished

/-- The selected meeting is shown, unless its last load has failed. -/
structure ShowsSelected (s : Pane ι) : Prop where
  belongs : ∀ meeting, s.selectedMeeting = some meeting → s.selectedMeetingId = some meeting.id
  missing : s.selectedMeeting = none → ∀ id, s.selectedMeetingId = some id →
    s.lastLoad = some (id, false)

/-- A call that will load the selection, as long as it stays. -/
def Await.Loads (selectedMeetingId : Option String) : Await → Prop
  | .getting id => selectedMeetingId = some id
  | .refreshingNew => True
  | _ => False

/-- The selection is still to be loaded. -/
def Loading (s : Pane ι) : Prop :=
  s.changed = true ∨ ∃ i, (s.await i).Loads s.selectedMeetingId

/-- A load that fails is of the selected meeting, unless nothing is shown, nothing is
selected, or the selection is still to be loaded. -/
def Wanted (s : Pane ι) : Event ι → Prop
  | .answered i none => ∀ id, s.await i = .getting id →
      s.selectedMeetingId = some id ∨ s.selectedMeetingId = none ∨ s.selectedMeeting = none ∨
        Loading s
  | _ => True

/-- What is shown is the selection or is going to be replaced. -/
structure PaneInv (s : Pane ι) : Prop where
  belongs : ∀ meeting, s.selectedMeeting = some meeting →
    s.selectedMeetingId = some meeting.id ∨ Loading s
  missing : s.selectedMeeting = none → ∀ id, s.selectedMeetingId = some id →
    s.lastLoad = some (id, false) ∨ Loading s

section Inv

variable {calls : ι → Call} {s s' : Pane ι} {i : ι}

theorem await_suspend {await : Await} (k : ι) :
    (s.suspend i await).await k = if k = i then await else s.await k :=
  Function.update_apply ..

/-- A call that goes on leaves a load of the selection to the others. -/
theorem Loading.suspend (h : Loading s) (hi : ¬ (s.await i).Loads s.selectedMeetingId)
    {await : Await} : Loading (s.suspend i await) := by
  rcases h with hchanged | ⟨k, hk⟩
  · exact Or.inl hchanged
  · refine Or.inr ⟨k, ?_⟩
    rw [await_suspend, if_neg]
    · exact hk
    · intro hsame
      subst hsame
      exact hi hk

theorem PaneInv.suspend (h : PaneInv s) (hi : ¬ (s.await i).Loads s.selectedMeetingId)
    {await : Await} : PaneInv (s.suspend i await) where
  belongs meeting hmeeting := (h.belongs meeting hmeeting).imp_right fun hl => hl.suspend hi
  missing hnone id hid := (h.missing hnone id hid).imp_right fun hl => hl.suspend hi

omit [DecidableEq ι] in
/-- A new selection is to be loaded. -/
theorem loading_setSelectedMeetingId {id : Option String} (h : s.selectedMeetingId ≠ id) :
    Loading (s.setSelectedMeetingId id) := by
  refine Or.inl ?_
  show (s.changed || s.selectedMeetingId != id) = true
  simp [h]

omit [DecidableEq ι] in
theorem setSelectedMeetingId_self : s.setSelectedMeetingId s.selectedMeetingId = s := by
  simp [Pane.setSelectedMeetingId]

omit [DecidableEq ι] in
theorem paneInv_of_loading (h : Loading s) : PaneInv s :=
  ⟨fun _ _ => Or.inr h, fun _ _ _ => Or.inr h⟩

omit [DecidableEq ι] in
theorem PaneInv.setSelectedMeetingId (h : PaneInv s) (id : Option String) :
    PaneInv (s.setSelectedMeetingId id) := by
  by_cases hsame : s.selectedMeetingId = id
  · rw [← hsame, setSelectedMeetingId_self]
    exact h
  · exact paneInv_of_loading (loading_setSelectedMeetingId hsame)

omit [DecidableEq ι] in
/-- Nothing is selected, and nothing is shown. -/
theorem paneInv_of_none (hselected : s.selectedMeetingId = none) (hnone : s.selectedMeeting = none) :
    PaneInv s where
  belongs meeting hmeeting := by
    rw [hnone] at hmeeting
    cases hmeeting
  missing _ id hid := by
    rw [hselected] at hid
    cases hid

/-- A load of the selection begins, whatever is shown. -/
theorem paneInv_load : PaneInv (s.loadSelectedMeeting i) := by
  unfold Pane.loadSelectedMeeting
  split
  · next hselected => exact paneInv_of_none hselected rfl
  · next id hselected =>
    refine paneInv_of_loading (Or.inr ⟨i, ?_⟩)
    rw [await_suspend, if_pos rfl]
    exact hselected

/-- A meeting is shown that is selected. -/
theorem paneInv_shown {meeting : Meeting} (hselected : s.selectedMeetingId = some meeting.id)
    {await : Await} : PaneInv ({ s with selectedMeeting := some meeting }.suspend i await) where
  belongs other hother := by
    obtain rfl := Option.some.inj hother
    exact Or.inl hselected
  missing hnone := by cases hnone

/-- The meeting that is shown has another title. -/
theorem PaneInv.renamed (h : PaneInv s) (hi : ¬ (s.await i).Loads s.selectedMeetingId)
    {updated : Meeting} (hshown : s.selectedMeeting.map Meeting.id = some updated.id)
    {await : Await} : PaneInv ({ s with selectedMeeting := some updated }.suspend i await) where
  belongs other hother := by
    obtain rfl := Option.some.inj hother
    obtain ⟨before, hbefore, hsame⟩ := Option.map_eq_some_iff.mp hshown
    rw [← hsame]
    exact ((h.suspend hi).belongs before hbefore)
  missing hnone := by cases hnone

/-- An answer to a load. -/
theorem PaneInv.loaded (h : PaneInv s) {id : String} (hi : s.await i = .getting id)
    {answer : Option Meeting} (hid : ∀ meeting ∈ answer, meeting.id = id)
    (hwanted : Wanted s (.answered i answer)) : PaneInv (s.loaded i id answer) := by
  unfold Pane.loaded
  by_cases hselected : s.selectedMeetingId = some id
  · cases answer with
    | some meeting =>
      have hmeeting : meeting.id = id := hid meeting rfl
      simp only [if_pos hselected]
      exact paneInv_shown (s := { s with lastLoad := some (id, true) }) (hmeeting ▸ hselected)
    | none =>
      simp only [if_pos hselected]
      refine ⟨fun meeting hmeeting => (by cases hmeeting), fun _ other hother => Or.inl ?_⟩
      have hsame : some id = some other := hselected.symm.trans hother
      cases hsame
      rfl
  · have hnot : ¬ (s.await i).Loads s.selectedMeetingId := by
      rw [hi]
      exact hselected
    cases answer with
    | some meeting =>
      simp only [if_neg hselected]
      exact h.suspend hnot
    | none =>
      simp only [if_neg hselected]
      refine ⟨fun meeting hmeeting => (by cases hmeeting), fun _ other hother => ?_⟩
      rcases hwanted id hi with hsame | hnone | hnone | hloading
      · exact absurd hsame hselected
      · rw [show s.selectedMeetingId = some other from hother] at hnone
        cases hnone
      · exact (h.suspend hnot).missing hnone other hother
      · exact Or.inr (hloading.suspend hnot)

theorem paneInv_step (h : PaneInv s) {event : Event ι} (hok : Wanted s event)
    (hnext : step calls s event = some s') : PaneInv s' := by
  cases event with
  | select id =>
    obtain rfl := Option.some.inj hnext
    exact h.setSelectedMeetingId id
  | startNewGenerationFlow =>
    obtain rfl := Option.some.inj hnext
    exact paneInv_of_none rfl rfl
  | begin i =>
    simp only [step] at hnext
    split at hnext
    · next hready =>
      have hnot : ¬ (s.await i).Loads s.selectedMeetingId := by simp [hready, Await.Loads]
      split at hnext <;> obtain rfl := Option.some.inj hnext
      · exact paneInv_load
      all_goals exact h.suspend hnot
    · cases hnext
  | answered i answer =>
    simp only [step] at hnext
    split at hnext
    · next id hgetting =>
      split at hnext
      · next hid =>
        obtain rfl := Option.some.inj hnext
        exact h.loaded hgetting hid hok
      · cases hnext
    · next id hrenaming =>
      have hnot : ¬ (s.await i).Loads s.selectedMeetingId := by simp [hrenaming, Await.Loads]
      split at hnext
      · next updated =>
        split at hnext
        · next hupdated =>
          split at hnext <;> obtain rfl := Option.some.inj hnext
          · next hshown =>
            exact h.renamed hnot (hupdated ▸ hshown)
          · exact h.suspend hnot
        · cases hnext
      · obtain rfl := Option.some.inj hnext
        exact h.suspend hnot
    · next meetingId hstopping =>
      have hnot : ¬ (s.await i).Loads s.selectedMeetingId := by simp [hstopping, Await.Loads]
      split at hnext
      · split at hnext
        · obtain rfl := Option.some.inj hnext
          exact h.suspend hnot
        · cases hnext
      · obtain rfl := Option.some.inj hnext
        exact h.suspend hnot
    · cases hnext
  | created i meetingId =>
    simp only [step] at hnext
    split at hnext
    · next hcreating =>
      split at hnext <;> obtain rfl := Option.some.inj hnext <;> exact h.suspend (by simp [hcreating, Await.Loads])
    · cases hnext
  | recordingStarted i ok =>
    simp only [step] at hnext
    split at hnext
    · next meetingId hstarting =>
      split at hnext <;> obtain rfl := Option.some.inj hnext
      · refine paneInv_of_loading (Or.inr ⟨i, ?_⟩)
        rw [await_suspend, if_pos rfl]
        trivial
      · exact h.suspend (by simp [hstarting, Await.Loads])
    · cases hnext
  | deleted i ok =>
    simp only [step] at hnext
    split at hnext
    · next id hdeleting =>
      split at hnext <;> obtain rfl := Option.some.inj hnext
      · exact paneInv_of_none rfl rfl
      · exact h.suspend (by simp [hdeleting, Await.Loads])
    · cases hnext
  | refreshed i =>
    simp only [step] at hnext
    split at hnext
    · next stoppedMeeting hrefreshing =>
      split at hnext <;> obtain rfl := Option.some.inj hnext
      · next hselected => exact paneInv_shown hselected
      · exact h.suspend (by simp [hrefreshing, Await.Loads])
    · obtain rfl := Option.some.inj hnext
      exact paneInv_load
    · cases hnext

omit [DecidableEq ι] in
theorem not_loading_of_quiet (h : Quiet s) : ¬ Loading s := by
  intro hloading
  rcases hloading with hchanged | ⟨i, hi⟩
  · rw [h.1] at hchanged
    cases hchanged
  · rcases h.2 i with hready | hfinished
    · rw [hready] at hi
      exact hi
    · rw [hfinished] at hi
      exact hi

/-- When nothing is in flight the selected meeting is shown or its last load has failed,
as long as no load of another meeting has failed while a meeting was shown that nothing
would bring back. -/
theorem shows_selected {events : List (Event ι)} (hwanted : Meets (step calls) Wanted start events)
    (hrun : run (step calls) start events = some s) (hquiet : Quiet s) : ShowsSelected s := by
  have hstart : PaneInv (start : Pane ι) := paneInv_of_none rfl rfl
  have h : PaneInv s := run_invariant_of_meets
    (fun _ _ _ hI hok hnext => paneInv_step hI hok hnext) hstart hwanted hrun
  have hnot := not_loading_of_quiet hquiet
  constructor
  case belongs => exact fun meeting hmeeting => (h.belongs meeting hmeeting).resolve_right hnot
  case missing => exact fun hnone id hid => (h.missing hnone id hid).resolve_right hnot

end Inv

/-! ## A slow answer -/

def twoLoads (_ : Fin 2) : Call := .loadSelectedMeeting

/-- `a` is selected and then `b`, which answers first. -/
def overtaken : List (Event (Fin 2)) :=
  [.select (some "a"), .begin 0, .select (some "b"), .begin 1, .answered 1 (some ⟨"b", "B"⟩)]

/-- The load of `a` fails, and `b` is no longer shown. -/
theorem emptied_by_older :
    (run (step twoLoads) start (overtaken ++ [.answered 0 none])).map
      (fun s => (s.selectedMeetingId, s.selectedMeeting, s.lastLoad)) =
        some (some "b", none, some ("b", true)) ∧
    (run (step twoLoads) start (overtaken ++ [.answered 0 none])).map
      (fun s => (s.changed, s.await 0, s.await 1)) = some (false, .finished, .finished) :=
  ⟨by decide +kernel, by decide +kernel⟩

theorem shows_selected_overtaken : ∃ s,
    run (step twoLoads) start (overtaken ++ [.answered 0 (some ⟨"a", "A"⟩)]) = some s ∧
      s.selectedMeeting = some ⟨"b", "B"⟩ ∧ ShowsSelected s := by
  have hvalues : (run (step twoLoads) start (overtaken ++ [.answered 0 (some ⟨"a", "A"⟩)])).map
      (fun s => (s.selectedMeeting, s.changed, s.await 0, s.await 1)) =
        some (some ⟨"b", "B"⟩, false, .finished, .finished) := by
    decide +kernel
  obtain ⟨s, hs, hs'⟩ := Option.map_eq_some_iff.mp hvalues
  simp only [Prod.mk.injEq] at hs'
  obtain ⟨hmeeting, hchanged, hzero, hone⟩ := hs'
  have hwanted : Meets (step twoLoads) Wanted start
      (overtaken ++ [.answered 0 (some ⟨"a", "A"⟩)]) := by
    have hall : Meets (step twoLoads) (fun _ event => ∀ s, Wanted s event) start
        (overtaken ++ [.answered 0 (some ⟨"a", "A"⟩)]) := by
      apply meets_of_mem
      intro event hevent s
      simp only [overtaken, List.mem_append, List.mem_cons, List.not_mem_nil, or_false] at hevent
      rcases hevent with (rfl | rfl | rfl | rfl | rfl) | rfl <;> trivial
    exact hall.mono fun s event h => h s
  have hquiet : Quiet s := by
    refine ⟨hchanged, fun i => Or.inr ?_⟩
    match i with
    | 0 => exact hzero
    | 1 => exact hone
  exact ⟨s, hs, hmeeting, shows_selected hwanted hs hquiet⟩

end DetailPane
end App
end Panops
