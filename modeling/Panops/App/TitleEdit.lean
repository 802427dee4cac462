import Mathlib.Logic.Function.Basic
import Panops.Lib.Text
import Panops.Lib.Transitions

/-!
# The title field

`MeetingDetailView` keeps its title state while the selection moves from one meeting
to the next, and a rename that returns writes to it.
-/

namespace Panops
namespace App
namespace TitleEdit

open Lib.Transitions

structure Meeting where
  id : String
  title : String
  /-- Not in the source: the renames of the meeting stored when the engine has answered. -/
  version : Nat
deriving DecidableEq

/-- `trimmingCharacters(in: .whitespacesAndNewlines)` -/
def trimmed (title : String) : String :=
  String.ofList (Lib.Text.trim title.toList)

/-- A `MeetingDetailView`, by the number of views before it. -/
structure TitleView where
  number : Nat
  meeting : Meeting
  editedTitle : String
  lastSavedTitle : String
  /-- Not in the source: the field holds what the user has typed and not saved. -/
  edited : Bool
deriving DecidableEq

/-- The title state when a meeting appears in the view. -/
def TitleView.showing (number : Nat) (meeting : Meeting) : TitleView where
  number := number
  meeting := meeting
  editedTitle := meeting.title
  lastSavedTitle := meeting.title
  edited := false

/-- Where a load or the task of a commit is suspended.  The tasks name the view that they
write to. -/
inductive Await where
  | ready
  | getting (id : String)
  | got (meeting : Option Meeting)
  | committed (number : Nat) (id title : String)
  | renaming (number : Nat) (id title : String)
  | renamed (number : Nat) (updated : Option Meeting)
  | refreshing (number : Nat) (updated : Meeting)
  | finished
deriving DecidableEq

structure Session (ι : Type) where
  /-- The titles of the engine. -/
  stored : String → String
  selectedMeetingId : Option String
  selectedMeeting : Option Meeting
  isRecording : Bool
  view : Option TitleView
  mounted : Nat
  isSaving : Bool
  await : ι → Await
  /-- Not in the source: the texts typed, each with the meeting displayed. -/
  typed : List (String × String)
  /-- Not in the source: the `meeting.rename` requests so far. -/
  requests : List (String × String)
  /-- Not in the source: how many renames of each meeting the engine has stored. -/
  renames : String → Nat

inductive Event (ι : Type) where
  | select (id : Option String)
  | startNewGenerationFlow
  | recordingScreen (shown : Bool)
  | loadSelectedMeeting (i : ι)
  /-- The engine answers a `meeting.get`. -/
  | read (i : ι) (ok : Bool)
  | loaded (i : ι)
  | type (title : String)
  /-- Return, the loss of focus, or Retry. -/
  | commit (i : ι)
  | begin (i : ι)
  /-- The engine answers a `meeting.rename`. -/
  | process (i : ι) (ok : Bool)
  | answered (i : ι)
  /-- A rename fails in the connection, before the engine has it or after. -/
  | lost (i : ι)
  /-- The `refreshMeetings` of a rename returns, and its task writes to the view. -/
  | returned (i : ι)
  /-- A save of something else, which has the same status. -/
  | otherSave (isSaving : Bool)

variable {ι : Type} [DecidableEq ι]

namespace Session

def suspend (i : ι) (await : Await) (s : Session ι) : Session ι :=
  { s with await := Function.update s.await i await }

/-- The meeting in the detail pane, which the recording screen replaces. -/
def displayed (s : Session ι) : Option Meeting :=
  if s.isRecording then none else s.selectedMeeting

/-- The view follows the selection. -/
def present (s : Session ι) : Session ι :=
  match s.displayed with
  | none => { s with view := none }
  | some meeting =>
    match s.view with
    | none =>
      { s with view := some (.showing s.mounted meeting), mounted := s.mounted + 1 }
    | some view =>
      if view.meeting.id = meeting.id then
        { s with view := some { view with meeting := meeting } }
      else { s with view := some (.showing view.number meeting) }

def commitTitleIfChanged (i : ι) (s : Session ι) : Session ι :=
  match s.view with
  | none => s
  | some view =>
    if trimmed view.editedTitle ≠ view.lastSavedTitle ∧ s.isSaving = false then
      s.suspend i (.committed view.number view.meeting.id (trimmed view.editedTitle))
    else s

/-- The end of the task of a commit. -/
def saved (number : Nat) (updated : Meeting) (s : Session ι) : Session ι :=
  { s with view := s.view.map fun view =>
      if view.number = number then
        { view with lastSavedTitle := updated.title, editedTitle := updated.title, edited := false }
      else view }

end Session

def step (s : Session ι) : Event ι → Option (Session ι)
  | .select id => some { s with selectedMeetingId := id }
  | .startNewGenerationFlow =>
    some { s with selectedMeetingId := none, selectedMeeting := none }.present
  | .recordingScreen shown => some { s with isRecording := shown }.present
  | .loadSelectedMeeting i =>
    match s.await i with
    | .ready =>
      match s.selectedMeetingId with
      | none => some ({ s with selectedMeeting := none }.present.suspend i .finished)
      | some id => some ({ s with isSaving := false }.suspend i (.getting id))
    | _ => none
  | .read i ok =>
    match s.await i with
    | .getting id =>
      some (s.suspend i (.got (if ok then some ⟨id, s.stored id, s.renames id⟩ else none)))
    | _ => none
  | .loaded i =>
    match s.await i with
    | .got (some meeting) =>
      if s.selectedMeetingId = some meeting.id then
        some ({ s with selectedMeeting := some meeting }.present.suspend i .finished)
      else some (s.suspend i .finished)
    | .got none => some ({ s with selectedMeeting := none }.present.suspend i .finished)
    | _ => none
  | .type title =>
    match s.view with
    | none => none
    | some view =>
      if s.isSaving then none
      else some { s with
        view := some { view with editedTitle := title, edited := true }
        typed := (view.meeting.id, title) :: s.typed }
  | .commit i =>
    match s.await i with
    | .ready => some (s.commitTitleIfChanged i)
    | _ => none
  | .begin i =>
    match s.await i with
    | .committed number id title =>
      some ({ s with isSaving := true, requests := (id, title) :: s.requests }.suspend i
        (.renaming number id title))
    | _ => none
  | .process i ok =>
    match s.await i with
    | .renaming number id title =>
      if ok then
        some ({ s with
          stored := Function.update s.stored id title
          renames := Function.update s.renames id (s.renames id + 1)
        }.suspend i (.renamed number (some ⟨id, title, s.renames id + 1⟩)))
      else some (s.suspend i (.renamed number none))
    | _ => none
  | .answered i =>
    match s.await i with
    | .renamed number (some updated) =>
      if s.selectedMeeting.map Meeting.id = some updated.id then
        some ({ s with selectedMeeting := some updated, isSaving := false }.present.suspend i
          (.refreshing number updated))
      else some ({ s with isSaving := false }.suspend i (.refreshing number updated))
    | .renamed _ none => some ({ s with isSaving := false }.suspend i .finished)
    | _ => none
  | .lost i =>
    match s.await i with
    | .renaming .. => some ({ s with isSaving := false }.suspend i .finished)
    | .renamed .. => some ({ s with isSaving := false }.suspend i .finished)
    | _ => none
  | .returned i =>
    match s.await i with
    | .refreshing number updated => some ((s.saved number updated).suspend i .finished)
    | _ => none
  | .otherSave isSaving => some { s with isSaving := isSaving }

def start (stored : String → String) : Session ι where
  stored := stored
  selectedMeetingId := none
  selectedMeeting := none
  isRecording := false
  view := none
  mounted := 0
  isSaving := false
  await _ := .ready
  typed := []
  requests := []
  renames _ := 0

/-! ## Whose title it is -/

/-- A title that was typed while the meeting was displayed. -/
def Typed (s : Session ι) (id title : String) : Prop :=
  ∃ text, (id, text) ∈ s.typed ∧ trimmed text = title

/-- From the commit of a title to the end of its task. -/
def Await.Renaming : Await → Prop
  | .committed .. | .renaming .. | .renamed .. | .refreshing .. => True
  | _ => False

/-- Every request has a title typed for its meeting.  The field has the stored title or an
unsaved edit of the displayed meeting. -/
structure TitleStays (s : Session ι) : Prop where
  requests : ∀ request ∈ s.requests, Typed s request.1 request.2
  field : (∀ i, ¬ (s.await i).Renaming) → ∀ view, s.view = some view →
    view.editedTitle = s.stored view.meeting.id ∨
      (view.edited = true ∧ (view.meeting.id, view.editedTitle) ∈ s.typed)

/-- A task that will write the title of the meeting to the view. -/
def Await.Returns (number : Nat) (meeting : Meeting) : Await → Prop
  | .renamed n (some updated) => n = number ∧ updated = meeting
  | .refreshing n updated => n = number ∧ updated = meeting
  | _ => False

/-- A task that holds a meeting as the engine has answered it. -/
def Await.Holds (meeting : Meeting) : Await → Prop
  | .got (some m) => m = meeting
  | .renamed _ (some updated) => updated = meeting
  | .refreshing _ updated => updated = meeting
  | _ => False

/-- No rename of the meeting has been stored since the engine has answered. -/
def Current (s : Session ι) (meeting : Meeting) : Prop :=
  meeting.version = s.renames meeting.id

/-- The rename of the meeting that was stored last is still to return to the view, and its
task is not one of those left out. -/
def Coming (s : Session ι) (left : ι → Prop) (number : Nat) (id : String) : Prop :=
  ∃ i, ¬ left i ∧ ∃ updated, (s.await i).Returns number updated ∧ updated.id = id ∧
    Current s updated

/-- A meeting that comes into the view has not been renamed since it was read, unless the
rename is still to return to the view. -/
def Opens (s : Session ι) (meeting : Meeting) : Prop :=
  (∀ view, s.view = some view → view.meeting.id ≠ meeting.id) →
    Current s meeting ∨
      ∃ view, s.view = some view ∧ Coming s (fun _ => False) view.number meeting.id

/-- The order of renames and of meetings in the view.  A title that is committed has been
typed or needs no trimming.  A rename that returns is of the meeting that its view displays
and was stored last, or that one is still to return.  No rename is stored while another view
displays its meeting, nor is the answer of the last one lost, unless the field has an unsaved
edit.  A meeting that comes into the view is not overtaken by a rename. -/
def Orderly (s : Session ι) : Event ι → Prop
  | .commit _ => ∀ view, s.view = some view →
      view.edited = true ∨ trimmed view.lastSavedTitle = view.lastSavedTitle
  | .returned i => ∀ number updated, s.await i = .refreshing number updated →
      ∀ view, s.view = some view → view.number = number →
        (updated.id = view.meeting.id ∧ Current s updated) ∨
          Coming s (· = i) number view.meeting.id
  | .process i true => ∀ number id title, s.await i = .renaming number id title →
      ∀ view, s.view = some view → view.meeting.id = id →
        view.number = number ∨ view.edited = true
  | .lost i => ∀ number updated, s.await i = .renamed number (some updated) →
      ∀ view, s.view = some view → view.number = number → view.meeting.id = updated.id →
        view.edited = true ∨ ¬ Current s updated
  | .loaded i => ∀ meeting, s.await i = .got (some meeting) →
      s.selectedMeetingId = some meeting.id → s.isRecording = false → Opens s meeting
  | .recordingScreen false => ∀ meeting, s.selectedMeeting = some meeting → Opens s meeting
  | _ => True

def Follows (s : Session ι) : Prop :=
  s.view.map TitleView.meeting = s.displayed

/-- A meeting that has not been renamed since has the stored title. -/
def Answered (s : Session ι) (meeting : Meeting) : Prop :=
  meeting.version ≤ s.renames meeting.id ∧
    (Current s meeting → meeting.title = s.stored meeting.id)

/-- A field that is not right is going to be. -/
structure TitleInv (s : Session ι) : Prop where
  field : ∀ view, s.view = some view →
    view.edited = true ∨ view.editedTitle = s.stored view.meeting.id ∨
      Coming s (fun _ => False) view.number view.meeting.id
  lastSaved : ∀ view, s.view = some view → view.edited = false →
    view.editedTitle = view.lastSavedTitle
  typed : ∀ view, s.view = some view → view.edited = true →
    (view.meeting.id, view.editedTitle) ∈ s.typed
  committed : ∀ i number id title, s.await i = .committed number id title → Typed s id title
  requests : ∀ request ∈ s.requests, Typed s request.1 request.2
  selected : ∀ meeting, s.selectedMeeting = some meeting → Answered s meeting
  held : ∀ i meeting, (s.await i).Holds meeting → Answered s meeting

section Inv

variable {s s' : Session ι} {i : ι}

theorem await_suspend {await : Await} (k : ι) :
    (s.suspend i await).await k = if k = i then await else s.await k :=
  Function.update_apply ..

/-- What the others bring, they bring when a task goes on. -/
theorem Coming.suspend {left : ι → Prop} {number : Nat} {id : String} (h : Coming s left number id)
    (hi : left i ∨ ∀ updated, (s.await i).Returns number updated → updated.id = id →
      ¬ Current s updated) {await : Await} :
    Coming (s.suspend i await) (fun _ => False) number id := by
  obtain ⟨k, hk, updated, hreturns, hid, hcurrent⟩ := h
  have hne : k ≠ i := by
    intro hsame
    subst hsame
    exact hi.elim hk fun hnot => hnot updated hreturns hid hcurrent
  refine ⟨k, not_false, updated, ?_, hid, hcurrent⟩
  rw [await_suspend, if_neg hne]
  exact hreturns

omit [DecidableEq ι] in
theorem Typed.mono {id title : String} (h : Typed s id title)
    (hmono : ∀ entry ∈ s.typed, entry ∈ s'.typed) : Typed s' id title := by
  obtain ⟨text, htext, htrim⟩ := h
  exact ⟨text, hmono _ htext, htrim⟩

/-- A task that brings nothing to the view goes on. -/
theorem TitleInv.suspend (h : TitleInv s) {await : Await}
    (hi : ∀ number updated, ¬ (s.await i).Returns number updated)
    (hcommitted : ∀ number id title, await = .committed number id title → Typed s id title)
    (hholds : ∀ meeting, await.Holds meeting → Answered s meeting) :
    TitleInv (s.suspend i await) where
  field view hview := (h.field view hview).imp_right fun hfield =>
    hfield.imp_right fun hcoming =>
      hcoming.suspend (Or.inr fun updated hreturns => absurd hreturns (hi _ updated))
  lastSaved := h.lastSaved
  typed := h.typed
  committed k number id title hk := by
    rw [await_suspend] at hk
    split at hk
    · exact hcommitted number id title hk
    · exact h.committed k number id title hk
  requests := h.requests
  selected := h.selected
  held k meeting hk := by
    rw [await_suspend] at hk
    split at hk
    · exact hholds meeting hk
    · exact h.held k meeting hk

/-! ## What the view displays -/

omit [DecidableEq ι] in
/-- A meeting that comes into the view. -/
theorem TitleInv.showing (h : TitleInv s) {number mounted : Nat} {meeting : Meeting}
    (hanswered : Answered s meeting)
    (hcurrent : Current s meeting ∨ Coming s (fun _ => False) number meeting.id) :
    TitleInv { s with view := some (.showing number meeting), mounted := mounted } where
  field view hview := by
    obtain rfl := Option.some.inj hview
    exact Or.inr (hcurrent.imp_left hanswered.2)
  lastSaved view hview _ := by
    obtain rfl := Option.some.inj hview
    rfl
  typed view hview hedited := by
    obtain rfl := Option.some.inj hview
    cases hedited
  committed := h.committed
  requests := h.requests
  selected := h.selected
  held := h.held

omit [DecidableEq ι] in
/-- The meeting in the view is answered again, and the field stays. -/
theorem TitleInv.patch (h : TitleInv s) {view : TitleView} (hview : s.view = some view)
    {meeting : Meeting} (hsame : view.meeting.id = meeting.id) :
    TitleInv { s with view := some { view with meeting := meeting } } where
  field other hother := by
    obtain rfl := Option.some.inj hother
    have hfield := h.field view hview
    rw [hsame] at hfield
    exact hfield
  lastSaved other hother := by
    obtain rfl := Option.some.inj hother
    exact h.lastSaved view hview
  typed other hother := by
    obtain rfl := Option.some.inj hother
    have htyped := h.typed view hview
    rw [hsame] at htyped
    exact htyped
  committed := h.committed
  requests := h.requests
  selected := h.selected
  held := h.held

omit [DecidableEq ι] in
theorem follows_present : Follows s.present := by
  unfold Session.present Follows
  split
  · next hnone => exact hnone.symm
  · next meeting hmeeting =>
    split
    · exact hmeeting.symm
    · next view _ =>
      split <;> exact hmeeting.symm

omit [DecidableEq ι] in
theorem displayed_eq {meeting : Meeting} (hdisplayed : s.displayed = some meeting) :
    s.isRecording = false ∧ s.selectedMeeting = some meeting := by
  unfold Session.displayed at hdisplayed
  split at hdisplayed
  · cases hdisplayed
  · next hrecording => exact ⟨by simpa using hrecording, hdisplayed⟩

omit [DecidableEq ι] in
theorem TitleInv.present (h : TitleInv s)
    (hopens : ∀ meeting, s.displayed = some meeting → Opens s meeting) : TitleInv s.present := by
  unfold Session.present
  split
  · refine ⟨?_, ?_, ?_, h.committed, h.requests, h.selected, h.held⟩ <;>
      · intro view hview
        cases hview
  · next meeting hmeeting =>
    have hopen := hopens meeting hmeeting
    have hanswered := h.selected meeting (displayed_eq hmeeting).2
    split
    · next hnone =>
      have hnot : ¬ ∃ view, s.view = some view ∧
          Coming s (fun _ => False) view.number meeting.id := by
        rintro ⟨view, hview, -⟩
        rw [hnone] at hview
        cases hview
      refine h.showing hanswered (Or.inl ((hopen fun view hview => ?_).resolve_right hnot))
      rw [hnone] at hview
      cases hview
    · next view hview =>
      split
      · next hsame => exact h.patch hview hsame
      · next hother =>
        refine h.showing hanswered ((hopen ?_).imp_right ?_)
        · intro shown hshown
          rw [hview] at hshown
          obtain rfl := Option.some.inj hshown
          exact hother
        · rintro ⟨shown, hshown, hcoming⟩
          rw [hview] at hshown
          obtain rfl := Option.some.inj hshown
          exact hcoming

omit [DecidableEq ι] in
theorem Follows.view_eq (h : Follows s) (hrecording : s.isRecording = false) {id : String}
    (hselected : s.selectedMeeting.map Meeting.id = some id) :
    ∃ view, s.view = some view ∧ view.meeting.id = id := by
  obtain ⟨meeting, hmeeting, hid⟩ := Option.map_eq_some_iff.mp hselected
  have hdisplayed : s.view.map TitleView.meeting = some meeting := by
    rw [show s.view.map TitleView.meeting = s.displayed from h, Session.displayed, hrecording]
    exact hmeeting
  obtain ⟨view, hview, rfl⟩ := Option.map_eq_some_iff.mp hdisplayed
  exact ⟨view, hview, hid⟩

omit [DecidableEq ι] in
/-- The view is left empty. -/
theorem TitleInv.present_none (h : TitleInv s) :
    TitleInv { s with selectedMeeting := none }.present := by
  refine TitleInv.present
    ⟨h.field, h.lastSaved, h.typed, h.committed, h.requests, ?_, h.held⟩
    fun meeting hmeeting => ?_
  · intro meeting hmeeting
    cases hmeeting
  · cases (displayed_eq hmeeting).2

omit [DecidableEq ι] in
theorem await_present : s.present.await = s.await := by
  unfold Session.present
  split
  · rfl
  · split
    · rfl
    · split <;> rfl

/-! ## Each step -/

theorem TitleInv.loadSelectedMeeting (h : TitleInv s) (hfollows : Follows s)
    (hnext : step s (.loadSelectedMeeting i) = some s') : TitleInv s' ∧ Follows s' := by
  simp only [step] at hnext
  split at hnext
  · next hready =>
    split at hnext <;> obtain rfl := Option.some.inj hnext
    · refine ⟨h.present_none.suspend ?_ nofun nofun, follows_present⟩
      simp [await_present, hready, Await.Returns]
    · have hidle : TitleInv { s with isSaving := false } :=
        ⟨h.field, h.lastSaved, h.typed, h.committed, h.requests, h.selected, h.held⟩
      exact ⟨hidle.suspend (by simp [hready, Await.Returns]) nofun nofun, hfollows⟩
  · cases hnext

theorem TitleInv.read (h : TitleInv s) (hfollows : Follows s) {ok : Bool}
    (hnext : step s (.read i ok) = some s') : TitleInv s' ∧ Follows s' := by
  simp only [step] at hnext
  split at hnext
  · next id hgetting =>
    obtain rfl := Option.some.inj hnext
    refine ⟨h.suspend (by simp [hgetting, Await.Returns]) nofun fun meeting hholds => ?_, hfollows⟩
    cases ok with
    | true =>
      obtain rfl : (⟨id, s.stored id, s.renames id⟩ : Meeting) = meeting := hholds
      exact ⟨Nat.le_refl _, fun _ => rfl⟩
    | false => cases hholds
  · cases hnext

theorem TitleInv.loaded (h : TitleInv s) (hfollows : Follows s) (hok : Orderly s (.loaded i))
    (hnext : step s (.loaded i) = some s') : TitleInv s' ∧ Follows s' := by
  simp only [step] at hnext
  split at hnext
  · next meeting hgot =>
    have hheld : Answered s meeting := h.held i meeting (by rw [hgot]; rfl)
    split at hnext <;> obtain rfl := Option.some.inj hnext
    · next hselected =>
      have hpresent : TitleInv { s with selectedMeeting := some meeting }.present := by
        refine TitleInv.present ⟨h.field, h.lastSaved, h.typed, h.committed, h.requests, ?_, h.held⟩
          fun other hother => ?_
        · intro other hother
          obtain rfl := Option.some.inj hother
          exact hheld
        · obtain ⟨hrecording, hsame⟩ := displayed_eq hother
          obtain rfl := Option.some.inj hsame
          exact hok meeting hgot hselected hrecording
      refine ⟨hpresent.suspend ?_ nofun nofun, follows_present⟩
      simp [await_present, hgot, Await.Returns]
    · exact ⟨h.suspend (by simp [hgot, Await.Returns]) nofun nofun, hfollows⟩
  · next hgot =>
    obtain rfl := Option.some.inj hnext
    refine ⟨h.present_none.suspend ?_ nofun nofun, follows_present⟩
    simp [await_present, hgot, Await.Returns]
  · cases hnext

omit [DecidableEq ι] in
theorem TitleInv.type (h : TitleInv s) {view : TitleView} {title : String} :
    TitleInv { s with
      view := some { view with editedTitle := title, edited := true }
      typed := (view.meeting.id, title) :: s.typed } where
  field other hother := by
    obtain rfl := Option.some.inj hother
    exact Or.inl rfl
  lastSaved other hother hnot := by
    obtain rfl := Option.some.inj hother
    cases hnot
  typed other hother _ := by
    obtain rfl := Option.some.inj hother
    exact List.mem_cons_self
  committed k number id title' hk :=
    (h.committed k number id title' hk).mono fun _ hentry => List.mem_cons_of_mem _ hentry
  requests request hrequest :=
    (h.requests request hrequest).mono fun _ hentry => List.mem_cons_of_mem _ hentry
  selected := h.selected
  held := h.held

theorem TitleInv.commit (h : TitleInv s) (hready : s.await i = .ready)
    (hok : Orderly s (.commit i)) : TitleInv (s.commitTitleIfChanged i) := by
  unfold Session.commitTitleIfChanged
  split
  · exact h
  · next view hview =>
    split
    · next hchanged =>
      refine h.suspend (by simp [hready, Await.Returns])
        (fun number id title hcommitted => ?_) nofun
      simp only [Await.committed.injEq] at hcommitted
      obtain ⟨-, rfl, rfl⟩ := hcommitted
      -- A title that is not typed is the last one saved.
      by_cases hedited : view.edited = true
      · exact ⟨view.editedTitle, h.typed view hview hedited, rfl⟩
      · have hlast := h.lastSaved view hview (by simpa using hedited)
        have htrim := (hok view hview).resolve_left hedited
        rw [hlast] at hchanged
        exact absurd htrim hchanged.1
    · exact h

theorem Follows.commit (h : Follows s) : Follows (s.commitTitleIfChanged i) := by
  unfold Session.commitTitleIfChanged
  split
  · exact h
  · split <;> exact h

theorem TitleInv.begin (h : TitleInv s) {number : Nat} {id title : String}
    (hi : s.await i = .committed number id title) :
    TitleInv ({ s with isSaving := true, requests := (id, title) :: s.requests }.suspend i
      (.renaming number id title)) := by
  have hrequest : TitleInv { s with isSaving := true, requests := (id, title) :: s.requests } := by
    refine ⟨h.field, h.lastSaved, h.typed, h.committed, fun request hrequest => ?_, h.selected,
      h.held⟩
    rcases List.mem_cons.mp hrequest with rfl | hrequest
    · exact h.committed i number id title hi
    · exact h.requests request hrequest
  exact hrequest.suspend (by simp [hi, Await.Returns]) nofun nofun

omit [DecidableEq ι] in
/-- A rename makes what was answered before old, and leaves the other meetings alone. -/
theorem Answered.renamed {meeting : Meeting} (h : Answered s meeting)
    {id title : String} : Answered { s with
      stored := Function.update s.stored id title
      renames := Function.update s.renames id (s.renames id + 1) } meeting := by
  by_cases hid : meeting.id = id
  · subst hid
    have hlt : meeting.version < s.renames meeting.id + 1 := Nat.lt_succ_of_le h.1
    refine ⟨?_, fun hcurrent => ?_⟩
    · show meeting.version ≤ Function.update s.renames meeting.id _ meeting.id
      rw [Function.update_self]
      exact Nat.le_of_lt hlt
    · have hsame : meeting.version = Function.update s.renames meeting.id
        (s.renames meeting.id + 1) meeting.id := hcurrent
      rw [Function.update_self] at hsame
      exact absurd hsame (Nat.ne_of_lt hlt)
  · unfold Answered Current
    show meeting.version ≤ Function.update s.renames id _ meeting.id ∧
      (meeting.version = Function.update s.renames id _ meeting.id →
        meeting.title = Function.update s.stored id title meeting.id)
    rw [Function.update_of_ne hid, Function.update_of_ne hid]
    exact h

theorem TitleInv.process (h : TitleInv s) {number : Nat} {id title : String}
    (hi : s.await i = .renaming number id title) (hok : Orderly s (.process i true)) :
    TitleInv ({ s with
      stored := Function.update s.stored id title
      renames := Function.update s.renames id (s.renames id + 1)
    }.suspend i (.renamed number (some ⟨id, title, s.renames id + 1⟩))) where
  field view hview := by
    by_cases hid : view.meeting.id = id
    · rcases hok number id title hi view hview hid with hsame | hedited
      · refine Or.inr (Or.inr ⟨i, not_false, ⟨id, title, s.renames id + 1⟩, ?_, hid.symm, ?_⟩)
        · rw [await_suspend, if_pos rfl]
          exact ⟨hsame.symm, rfl⟩
        · exact (Function.update_self id (s.renames id + 1) s.renames).symm
      · exact Or.inl hedited
    · have hstored : Function.update s.stored id title view.meeting.id = s.stored view.meeting.id :=
        Function.update_of_ne hid ..
      refine (h.field view hview).imp_right fun hfield => ?_
      rcases hfield with htitle | ⟨k, -, updated, hreturns, hmeeting, hcurrent⟩
      · exact Or.inl (htitle.trans hstored.symm)
      · have hne : updated.id ≠ id := by rwa [hmeeting]
        have hcurrent' : updated.version =
            Function.update s.renames id (s.renames id + 1) updated.id := by
          rw [Function.update_of_ne hne]
          exact hcurrent
        have hcoming : Coming { s with
            stored := Function.update s.stored id title
            renames := Function.update s.renames id (s.renames id + 1) }
              (fun _ => False) view.number view.meeting.id :=
          ⟨k, not_false, updated, hreturns, hmeeting, hcurrent'⟩
        refine Or.inr (hcoming.suspend (Or.inr fun other hother _ => ?_))
        have hother' : (s.await i).Returns view.number other := hother
        simp [hi, Await.Returns] at hother'
  lastSaved := h.lastSaved
  typed := h.typed
  committed k n id' title' hk := by
    rw [await_suspend] at hk
    split at hk
    · cases hk
    · exact h.committed k n id' title' hk
  requests := h.requests
  selected meeting hmeeting := (h.selected meeting hmeeting).renamed
  held k meeting hk := by
    rw [await_suspend] at hk
    split at hk
    · obtain rfl : (⟨id, title, s.renames id + 1⟩ : Meeting) = meeting := hk
      refine ⟨?_, fun _ => ?_⟩
      · exact Nat.le_of_eq (Function.update_self id (s.renames id + 1) s.renames).symm
      · exact (Function.update_self id title s.stored).symm
    · exact (h.held k meeting hk).renamed

/-- The answer of a rename reaches the app. -/
theorem TitleInv.refreshing (h : TitleInv s) {number : Nat} {updated : Meeting}
    (hi : s.await i = .renamed number (some updated)) :
    TitleInv (s.suspend i (.refreshing number updated)) where
  field view hview := (h.field view hview).imp_right fun hfield =>
    hfield.imp_right fun ⟨k, _, meeting, hreturns, hid, hcurrent⟩ => by
      refine ⟨k, not_false, meeting, ?_, hid, hcurrent⟩
      rw [await_suspend]
      split
      · next hsame =>
        rw [hsame, hi] at hreturns
        exact hreturns
      · exact hreturns
  lastSaved := h.lastSaved
  typed := h.typed
  committed k n id title hk := by
    rw [await_suspend] at hk
    split at hk
    · cases hk
    · exact h.committed k n id title hk
  requests := h.requests
  selected := h.selected
  held k meeting hk := by
    rw [await_suspend] at hk
    split at hk
    · exact h.held i meeting (by rw [hi]; exact hk)
    · exact h.held k meeting hk

theorem TitleInv.answered (h : TitleInv s) (hfollows : Follows s)
    (hnext : step s (.answered i) = some s') : TitleInv s' ∧ Follows s' := by
  have hidle : TitleInv { s with isSaving := false } :=
    ⟨h.field, h.lastSaved, h.typed, h.committed, h.requests, h.selected, h.held⟩
  simp only [step] at hnext
  split at hnext
  · next number updated hrenamed =>
    have hheld : Answered s updated := h.held i updated (by rw [hrenamed]; rfl)
    split at hnext <;> obtain rfl := Option.some.inj hnext
    · next hselected =>
      have hpresent : TitleInv
          { s with selectedMeeting := some updated, isSaving := false }.present := by
        refine TitleInv.present ⟨h.field, h.lastSaved, h.typed, h.committed, h.requests, ?_, h.held⟩
          fun other hother => ?_
        · intro other hother
          obtain rfl := Option.some.inj hother
          exact hheld
        · -- The meeting is in the view already.
          obtain ⟨hrecording, hsame⟩ := displayed_eq hother
          obtain rfl := Option.some.inj hsame
          obtain ⟨view, hview, hid⟩ := hfollows.view_eq hrecording hselected
          exact fun hnot => absurd hid (hnot view hview)
      refine ⟨hpresent.refreshing ?_, follows_present⟩
      rw [await_present]
      exact hrenamed
    · exact ⟨hidle.refreshing hrenamed, hfollows⟩
  · next hrenamed =>
    obtain rfl := Option.some.inj hnext
    exact ⟨hidle.suspend (by simp [hrenamed, Await.Returns]) nofun nofun, hfollows⟩
  · cases hnext

/-- A rename fails, and an answer that is lost is not missed by the field. -/
theorem TitleInv.lost (h : TitleInv s)
    (hok : ∀ view, s.view = some view → ∀ updated, (s.await i).Returns view.number updated →
      updated.id = view.meeting.id → view.edited = true ∨ ¬ Current s updated) :
    TitleInv (s.suspend i .finished) where
  field view hview := by
    by_cases hedited : view.edited = true
    · exact Or.inl hedited
    · refine (h.field view hview).imp_right fun hfield => hfield.imp_right fun hcoming => ?_
      refine hcoming.suspend (Or.inr fun updated hreturns hid => ?_)
      exact (hok view hview updated hreturns hid).resolve_left hedited
  lastSaved := h.lastSaved
  typed := h.typed
  committed k n id title hk := by
    rw [await_suspend] at hk
    split at hk
    · cases hk
    · exact h.committed k n id title hk
  requests := h.requests
  selected := h.selected
  held k meeting hk := by
    rw [await_suspend] at hk
    split at hk
    · cases hk
    · exact h.held k meeting hk

theorem TitleInv.lost_step (h : TitleInv s) (hfollows : Follows s) (hok : Orderly s (.lost i))
    (hnext : step s (.lost i) = some s') : TitleInv s' ∧ Follows s' := by
  have hidle : TitleInv { s with isSaving := false } :=
    ⟨h.field, h.lastSaved, h.typed, h.committed, h.requests, h.selected, h.held⟩
  simp only [step] at hnext
  split at hnext
  · next number id title hrenaming =>
    obtain rfl := Option.some.inj hnext
    exact ⟨hidle.suspend (by simp [hrenaming, Await.Returns]) nofun nofun, hfollows⟩
  · next number answer hrenamed =>
    obtain rfl := Option.some.inj hnext
    refine ⟨hidle.lost fun view hview updated hreturns hid => ?_, hfollows⟩
    have hreturns' : (s.await i).Returns view.number updated := hreturns
    rw [hrenamed] at hreturns'
    cases answer with
    | none => cases hreturns'
    | some meeting =>
      obtain ⟨hnumber, rfl⟩ := hreturns'
      exact hok number meeting hrenamed view hview hnumber.symm hid.symm
  · cases hnext

theorem TitleInv.returned (h : TitleInv s) {number : Nat} {updated : Meeting}
    (hi : s.await i = .refreshing number updated) (hok : Orderly s (.returned i)) :
    TitleInv ((s.saved number updated).suspend i .finished) := by
  have hview : ∀ view, ((s.saved number updated).suspend i .finished).view = some view →
      ∃ before, s.view = some before ∧ view.meeting = before.meeting ∧
        view.number = before.number ∧
        (view = before ∧ before.number ≠ number ∨
          before.number = number ∧ view.editedTitle = updated.title ∧
            view.lastSavedTitle = updated.title ∧ view.edited = false) := by
    intro view hview
    obtain ⟨before, hbefore, rfl⟩ := Option.map_eq_some_iff.mp hview
    refine ⟨before, hbefore, ?_⟩
    by_cases hnumber : before.number = number
    · simp [hnumber]
    · simp [hnumber]
  have hanswered : Answered s updated := h.held i updated (by rw [hi]; rfl)
  constructor
  case field =>
    intro view hshown
    obtain ⟨before, hbefore, hmeeting, hnumber, ⟨rfl, hne⟩ | ⟨hsame, htitle, -, -⟩⟩ :=
      hview view hshown
    · refine (h.field view hbefore).imp_right fun hfield => hfield.imp_right fun hcoming => ?_
      refine Coming.suspend (s := s.saved number updated) hcoming
        (Or.inr fun other hreturns _ => ?_)
      have hreturns' : (s.await i).Returns view.number other := hreturns
      rw [hi] at hreturns'
      exact absurd hreturns'.1.symm hne
    · refine Or.inr ?_
      rw [htitle, hmeeting, hnumber]
      rcases hok number updated hi before hbefore hsame with ⟨hid, hcurrent⟩ | hcoming
      · refine Or.inl ?_
        rw [← hid]
        exact hanswered.2 hcurrent
      · rw [← hsame] at hcoming
        exact Or.inr (Coming.suspend (s := s.saved number updated) hcoming (Or.inl rfl))
  case lastSaved =>
    intro view hshown hedited
    obtain ⟨before, hbefore, -, -, ⟨rfl, -⟩ | ⟨-, htitle, hlast, -⟩⟩ := hview view hshown
    · exact h.lastSaved view hbefore hedited
    · rw [htitle, hlast]
  case typed =>
    intro view hshown hedited
    obtain ⟨before, hbefore, -, -, ⟨rfl, -⟩ | ⟨-, -, -, hnot⟩⟩ := hview view hshown
    · exact h.typed view hbefore hedited
    · rw [hnot] at hedited
      cases hedited
  case committed =>
    intro k n id title hk
    rw [await_suspend] at hk
    split at hk
    · cases hk
    · exact h.committed k n id title hk
  case requests => exact h.requests
  case selected => exact h.selected
  case held =>
    intro k meeting hk
    rw [await_suspend] at hk
    split at hk
    · cases hk
    · exact h.held k meeting hk

omit [DecidableEq ι] in
theorem Follows.saved (h : Follows s) {number : Nat} {updated : Meeting} :
    Follows (s.saved number updated) := by
  show (s.view.map _).map TitleView.meeting = s.displayed
  rw [Option.map_map, ← show s.view.map TitleView.meeting = s.displayed from h]
  refine congrArg (fun f => s.view.map f) (funext fun view => ?_)
  simp only [Function.comp_apply]
  split <;> rfl

theorem titleInv_step (h : TitleInv s) (hfollows : Follows s) {event : Event ι}
    (hok : Orderly s event) (hnext : step s event = some s') : TitleInv s' ∧ Follows s' := by
  cases event with
  | select id =>
    obtain rfl := Option.some.inj hnext
    exact ⟨⟨h.field, h.lastSaved, h.typed, h.committed, h.requests, h.selected, h.held⟩, hfollows⟩
  | startNewGenerationFlow =>
    obtain rfl := Option.some.inj hnext
    have hselect : TitleInv { s with selectedMeetingId := none } :=
      ⟨h.field, h.lastSaved, h.typed, h.committed, h.requests, h.selected, h.held⟩
    exact ⟨hselect.present_none, follows_present⟩
  | recordingScreen shown =>
    obtain rfl := Option.some.inj hnext
    refine ⟨TitleInv.present
      ⟨h.field, h.lastSaved, h.typed, h.committed, h.requests, h.selected, h.held⟩ ?_,
      follows_present⟩
    intro meeting hmeeting
    obtain ⟨hshown, hselected⟩ := displayed_eq hmeeting
    obtain rfl : shown = false := hshown
    exact hok meeting hselected
  | loadSelectedMeeting i => exact h.loadSelectedMeeting hfollows hnext
  | read i ok => exact h.read hfollows hnext
  | loaded i => exact h.loaded hfollows hok hnext
  | type title =>
    simp only [step] at hnext
    split at hnext
    · cases hnext
    · next view hview =>
      split at hnext
      · cases hnext
      · obtain rfl := Option.some.inj hnext
        refine ⟨h.type, ?_⟩
        have hdisplayed : s.view.map TitleView.meeting = s.displayed := hfollows
        rw [hview] at hdisplayed
        exact hdisplayed
  | commit i =>
    simp only [step] at hnext
    split at hnext
    · next hready =>
      obtain rfl := Option.some.inj hnext
      exact ⟨h.commit hready hok, hfollows.commit⟩
    · cases hnext
  | begin i =>
    simp only [step] at hnext
    split at hnext
    · next number id title hcommitted =>
      obtain rfl := Option.some.inj hnext
      exact ⟨h.begin hcommitted, hfollows⟩
    · cases hnext
  | process i ok =>
    simp only [step] at hnext
    split at hnext
    · next number id title hrenaming =>
      split at hnext <;> obtain rfl := Option.some.inj hnext
      · next htrue =>
        subst htrue
        exact ⟨h.process hrenaming hok, hfollows⟩
      · exact ⟨h.suspend (by simp [hrenaming, Await.Returns]) nofun nofun, hfollows⟩
    · cases hnext
  | answered i => exact h.answered hfollows hnext
  | lost i => exact h.lost_step hfollows hok hnext
  | returned i =>
    simp only [step] at hnext
    split at hnext
    · next number updated hrefreshing =>
      obtain rfl := Option.some.inj hnext
      exact ⟨h.returned hrefreshing hok, hfollows.saved⟩
    · cases hnext
  | otherSave isSaving =>
    obtain rfl := Option.some.inj hnext
    exact ⟨⟨h.field, h.lastSaved, h.typed, h.committed, h.requests, h.selected, h.held⟩, hfollows⟩

omit [DecidableEq ι] in
theorem TitleInv.titleStays (h : TitleInv s) : TitleStays s where
  requests := h.requests
  field hidle view hview := by
    by_cases hedited : view.edited = true
    · exact Or.inr ⟨hedited, h.typed view hview hedited⟩
    · rcases (h.field view hview).resolve_left hedited with htitle | ⟨i, -, updated, hreturns, -⟩
      · exact Or.inl htitle
      · refine absurd ?_ (hidle i)
        cases hawait : s.await i <;> simp [hawait, Await.Returns, Await.Renaming] at hreturns ⊢

/-- Titles stay with their meetings in every state, as long as a rename returns while its
meeting is displayed and after the renames stored before it, no view opens with a title that
has been renamed since, and what is committed is what was typed. -/
theorem title_stays {stored : String → String} {events : List (Event ι)}
    (horderly : Meets step Orderly (start stored) events)
    (hrun : run step (start stored) events = some s) : TitleStays s := by
  have hstart : TitleInv (start stored : Session ι) ∧ Follows (start stored : Session ι) := by
    refine ⟨⟨?_, ?_, ?_, ?_, ?_, ?_, ?_⟩, rfl⟩ <;> simp [start, Await.Holds]
  have h : TitleInv s ∧ Follows s := run_invariant_of_meets
    (I := fun s => TitleInv s ∧ Follows s)
    (fun _ _ _ hI hok hnext => titleInv_step hI.1 hI.2 hok hnext) hstart horderly hrun
  exact h.1.titleStays

end Inv

/-! ## A slow rename -/

def titles (id : String) : String :=
  if id = "a" then "Standup" else "Review"

/-- `a` is displayed and its title is committed. -/
def committed : List (Event (Fin 3)) :=
  [.select (some "a"), .loadSelectedMeeting 0, .read 0 true, .loaded 0, .type "Weekly",
    .commit 1, .begin 1, .process 1 true, .answered 1]

/-- `b` is displayed when the rename of `a` returns. -/
theorem not_title_stays : ∃ s,
    run step (start titles) (committed ++ [.select (some "b"), .loadSelectedMeeting 2,
      .read 2 true, .loaded 2, .returned 1]) = some s ∧ ¬ TitleStays s := by
  have hvalues : (run step (start titles) (committed ++ [.select (some "b"),
      .loadSelectedMeeting 2, .read 2 true, .loaded 2, .returned 1])).map
      (fun s => (s.view, s.stored "b", s.await 0, s.await 1, s.await 2)) =
        some (some ⟨0, ⟨"b", "Review", 0⟩, "Weekly", "Weekly", false⟩, "Review", .finished,
          .finished, .finished) := by
    decide +kernel
  obtain ⟨s, hs, hs'⟩ := Option.map_eq_some_iff.mp hvalues
  simp only [Prod.mk.injEq] at hs'
  obtain ⟨hview, hstored, hzero, hone, htwo⟩ := hs'
  refine ⟨s, hs, fun hstays => ?_⟩
  have hidle : ∀ i, ¬ (s.await i).Renaming := by
    intro i
    match i with
    | 0 => simp [hzero, Await.Renaming]
    | 1 => simp [hone, Await.Renaming]
    | 2 => simp [htwo, Await.Renaming]
  rcases hstays.field hidle _ hview with htitle | ⟨hedited, -⟩
  · rw [hstored] at htitle
    exact absurd htitle (by decide)
  · cases hedited

theorem title_stays_displayed : ∃ s,
    run step (start titles) (committed ++ [.returned 1]) = some s ∧
      s.requests = [("a", "Weekly")] ∧ TitleStays s := by
  have hvalues : (run step (start titles) (committed ++ [.returned 1])).map
      (fun s => s.requests) = some [("a", "Weekly")] := by
    decide +kernel
  obtain ⟨s, hs, hrequests⟩ := Option.map_eq_some_iff.mp hvalues
  have htrim : trimmed "Weekly" = "Weekly" := by decide +kernel
  have horderly : Meets step Orderly (start titles) (committed ++ [.returned 1]) := by
    simp [committed, htrim, Meets, step, start, Orderly, Opens, Current, Session.present,
      Session.displayed, Session.suspend, Session.commitTitleIfChanged, TitleView.showing, titles]
  exact ⟨s, hs, hrequests, title_stays horderly hs⟩

end TitleEdit
end App
end Panops
