import Mathlib.Logic.Function.Basic
import Panops.Lib.Transitions

/-!
# Editing the notes

A `NotesView` holds the text that the user edits and hands it to `saveNotes` when the
editor is left or the view goes.  The law is that the latest text of a meeting is always
somewhere: in the editor, in a save, in the engine, or in `lastNotesAttempt`.
-/

namespace Panops
namespace App
namespace NotesEditing

open Lib.Transitions

/-- A view, by the number of views before it. -/
structure NotesView where
  number : Nat
  meetingId : String
  markdownFallback : Option String
  editing : Bool
  editorBuffer : String
  overriddenMarkdown : Option String
  bufferLoaded : Bool
  isSaving : Bool
deriving DecidableEq

namespace NotesView

def appearing (number : Nat) (meetingId : String) (markdownFallback : Option String) :
    NotesView where
  number := number
  meetingId := meetingId
  markdownFallback := markdownFallback
  editing := false
  editorBuffer := ""
  overriddenMarkdown := none
  bufferLoaded := false
  isSaving := false

def renderedMarkdown (view : NotesView) : Option String :=
  view.overriddenMarkdown <|> view.markdownFallback

/-- Edit mode is entered. -/
def enter (view : NotesView) : NotesView :=
  if view.bufferLoaded then { view with editing := true }
  else { view with
    editing := true
    editorBuffer := view.renderedMarkdown.getD ""
    bufferLoaded := true }

/-- The buffer is not what is rendered. -/
def Edited (view : NotesView) : Prop :=
  view.bufferLoaded = true ∧ view.editorBuffer ≠ view.renderedMarkdown.getD ""

/-- The guards of `commitIfDirty`. -/
def dirty (view : NotesView) : Bool :=
  view.bufferLoaded && !view.isSaving && view.editorBuffer != view.renderedMarkdown.getD ""

/-- The end of the task of a commit. -/
def saved (ok : Bool) (markdown : String) (view : NotesView) : NotesView :=
  if ok then { view with isSaving := false, overriddenMarkdown := some markdown }
  else { view with isSaving := false, editing := true }

section Saved

variable (ok : Bool) (markdown : String) (view : NotesView)

@[simp]
theorem saved_number : (view.saved ok markdown).number = view.number := by
  cases ok <;> rfl

@[simp]
theorem saved_meetingId : (view.saved ok markdown).meetingId = view.meetingId := by
  cases ok <;> rfl

@[simp]
theorem saved_editorBuffer : (view.saved ok markdown).editorBuffer = view.editorBuffer := by
  cases ok <;> rfl

@[simp]
theorem saved_bufferLoaded : (view.saved ok markdown).bufferLoaded = view.bufferLoaded := by
  cases ok <;> rfl

/-- Only a text that has been stored is rendered from then on. -/
theorem edited_saved (hedited : view.Edited) (hnewer : ok = true → view.editorBuffer ≠ markdown) :
    (view.saved ok markdown).Edited := by
  cases ok with
  | true => exact ⟨hedited.1, hnewer rfl⟩
  | false => exact hedited

end Saved

end NotesView

/-- Where a save is suspended.  The task of a commit names its view, a retry has none. -/
inductive Await where
  | ready
  | committed (number : Nat) (meetingId markdown : String)
  | saving (number : Option Nat) (meetingId markdown : String)
  | processed (number : Option Nat) (meetingId markdown : String) (ok : Bool)
  | finished
deriving DecidableEq

namespace Await

def number : Await → Option Nat
  | committed number _ _ => some number
  | saving number _ _ => number
  | processed number _ _ _ => number
  | _ => none

/-- What is being saved, and for which meeting. -/
def attempt : Await → Option (String × String)
  | committed _ meetingId markdown => some (meetingId, markdown)
  | saving _ meetingId markdown => some (meetingId, markdown)
  | processed _ meetingId markdown _ => some (meetingId, markdown)
  | _ => none

end Await

structure Session (ι : Type) where
  /-- The `notes.md` of each meeting. -/
  stored : String → Option String
  view : Option NotesView
  mounted : Nat
  lastNotesAttempt : Option (String × String)
  await : ι → Await
  /-- Not in the source: the latest text typed for each meeting. -/
  latest : String → Option String
  /-- Not in the source: the last save of `lastNotesAttempt` that has returned has failed. -/
  failed : Bool

inductive Event (ι : Type) where
  | appear (meetingId : String) (markdownFallback : Option String)
  | edit
  | type (text : String)
  | done (i : ι)
  | disappear (i : ι)
  | retry (i : ι)
  | begin (i : ι)
  /-- The engine answers a `notes.save`. -/
  | process (i : ι) (ok : Bool)
  /-- The answer of the engine is lost. -/
  | lost (i : ι)
  | returned (i : ι)

variable {ι : Type} [DecidableEq ι]

namespace Session

def suspend (i : ι) (await : Await) (s : Session ι) : Session ι :=
  { s with await := Function.update s.await i await }

def commitIfDirty (i : ι) (s : Session ι) : Session ι :=
  match s.view with
  | none => s
  | some view =>
    if view.dirty then
      { s with view := some { view with isSaving := true } }.suspend i
        (.committed view.number view.meetingId view.editorBuffer)
    else s

/-- A save returns to the task that has called it. -/
def saved (number : Option Nat) (ok : Bool) (markdown : String) (s : Session ι) : Session ι :=
  { s with view := s.view.map fun (view : NotesView) =>
      if number = some view.number then view.saved ok markdown else view }

end Session

/-- The markdown that a view appears with has been read before, whatever the engine has
stored since. -/
def step (s : Session ι) : Event ι → Option (Session ι)
  | .appear meetingId markdownFallback =>
    match s.view with
    | none => some { s with
        view := some (.appearing s.mounted meetingId markdownFallback), mounted := s.mounted + 1 }
    | some _ => none
  | .edit =>
    match s.view with
    | some view => if view.editing then none else some { s with view := some view.enter }
    | none => none
  | .type text =>
    match s.view with
    | some view =>
      if view.editing then
        some { s with
          view := some { view with editorBuffer := text }
          latest := Function.update s.latest view.meetingId (some text) }
      else none
    | none => none
  | .done i =>
    match s.view, s.await i with
    | some view, .ready =>
      if view.editing then
        some ({ s with view := some { view with editing := false } }.commitIfDirty i)
      else none
    | _, _ => none
  | .disappear i =>
    match s.view, s.await i with
    | some _, .ready => some { s.commitIfDirty i with view := none }
    | _, _ => none
  | .retry i =>
    match s.await i with
    | .ready =>
      match s.lastNotesAttempt with
      | none => some (s.suspend i .finished)
      | some attempt => some (s.suspend i (.saving none attempt.1 attempt.2))
    | _ => none
  | .begin i =>
    match s.await i with
    | .committed number meetingId markdown =>
      some ({ s with lastNotesAttempt := some (meetingId, markdown), failed := false }.suspend i
        (.saving (some number) meetingId markdown))
    | _ => none
  | .process i ok =>
    match s.await i with
    | .saving number meetingId markdown =>
      some ({ s with
        stored := if ok then Function.update s.stored meetingId (some markdown) else s.stored
      }.suspend i (.processed number meetingId markdown ok))
    | _ => none
  | .lost i =>
    match s.await i with
    | .processed number meetingId markdown _ =>
      some (s.suspend i (.processed number meetingId markdown false))
    | _ => none
  | .returned i =>
    match s.await i with
    | .processed number meetingId markdown ok =>
      some ({ s.saved number ok markdown with
        failed := if s.lastNotesAttempt = some (meetingId, markdown) then !ok else s.failed
      }.suspend i .finished)
    | _ => none

def start (stored : String → Option String) : Session ι where
  stored := stored
  view := none
  mounted := 0
  lastNotesAttempt := none
  await _ := .ready
  latest _ := none
  failed := false

/-! ## Where a text is -/

/-- The buffer of the live view, which shows it as soon as edit mode is entered. -/
def InEditor (s : Session ι) (meetingId text : String) : Prop :=
  ∃ view, s.view = some view ∧ view.meetingId = meetingId ∧ view.bufferLoaded = true ∧
    view.editorBuffer = text

def InFlight (s : Session ι) (meetingId text : String) : Prop :=
  ∃ i, (s.await i).attempt = some (meetingId, text)

/-- The latest text of every meeting is somewhere. -/
def Kept (s : Session ι) : Prop :=
  ∀ meetingId text, s.latest meetingId = some text →
    InEditor s meetingId text ∨ InFlight s meetingId text ∨
      s.stored meetingId = some text ∨ s.lastNotesAttempt = some (meetingId, text)

/-- No save of the meeting has been committed or retried without having returned. -/
def Idle (s : Session ι) (meetingId : String) : Prop :=
  ∀ text, ¬ InFlight s meetingId text

/-- The schedule of saves, and what the user does meanwhile.  Two saves of one meeting do not
overlap.  A view does not go while it is saving a text that has been typed over.  A rendered
text is not typed back unless it is stored and no save of its meeting is on the way.  A retry
is of the latest text, or of one that has been typed over in a view that can still save.  No
save of another meeting begins after one that has failed, and none fails when another has
begun and its view is gone. -/
def Orderly (s : Session ι) : Event ι → Prop
  | .type text => ∀ view, s.view = some view → text = view.renderedMarkdown.getD "" →
      s.stored view.meetingId = some text ∧ Idle s view.meetingId
  | .done _ => ∀ view, s.view = some view → view.dirty = true → Idle s view.meetingId
  | .disappear _ => ∀ view, s.view = some view →
      (view.dirty = true → Idle s view.meetingId) ∧
        (view.isSaving = true → InFlight s view.meetingId view.editorBuffer)
  | .retry _ => ∀ meetingId markdown, s.lastNotesAttempt = some (meetingId, markdown) →
      Idle s meetingId ∧ (s.latest meetingId = some markdown ∨
        ∃ view, s.view = some view ∧ view.meetingId = meetingId ∧ view.dirty = true)
  | .begin i => ∀ number meetingId markdown, s.await i = .committed number meetingId markdown →
      s.failed = true → ∀ attempt, s.lastNotesAttempt = some attempt → attempt.1 = meetingId
  | .returned i => ∀ number meetingId markdown,
      s.await i = .processed number meetingId markdown false →
        s.lastNotesAttempt = some (meetingId, markdown) ∨
          ∃ view, s.view = some view ∧ number = some view.number
  | _ => True

/-- The live view of the meeting has something to save. -/
def Unsaved (s : Session ι) (meetingId : String) : Prop :=
  ∃ view, s.view = some view ∧ view.meetingId = meetingId ∧ view.Edited

/-- The latest text is where no orderly step drops it, and what is on its way to the engine is
the latest or has been typed over in a view that will save. -/
structure EditInv (s : Session ι) : Prop where
  kept : ∀ meetingId text, s.latest meetingId = some text →
    Unsaved s meetingId ∨ InFlight s meetingId text ∨ s.stored meetingId = some text ∨
      (s.lastNotesAttempt = some (meetingId, text) ∧ s.failed = true)
  single : ∀ i j meetingId text other, (s.await i).attempt = some (meetingId, text) →
    (s.await j).attempt = some (meetingId, other) → i = j
  stored : ∀ i number meetingId markdown, s.await i = .processed number meetingId markdown true →
    s.stored meetingId = some markdown
  newest : ∀ i meetingId markdown, (s.await i).attempt = some (meetingId, markdown) →
    s.latest meetingId = some markdown ∨ Unsaved s meetingId
  typed : ∀ view, s.view = some view → view.Edited →
    s.latest view.meetingId = some view.editorBuffer
  saving : ∀ view, s.view = some view → ∀ i, (s.await i).number = some view.number →
    view.Edited ∧ view.isSaving = true ∧
      ∃ markdown, (s.await i).attempt = some (view.meetingId, markdown)
  editing : ∀ view, s.view = some view → view.editing = true → view.bufferLoaded = true
  mounted : ∀ view, s.view = some view → view.number < s.mounted
  tasks : ∀ i number, (s.await i).number = some number → number < s.mounted

section Inv

variable {s s' : Session ι} {i : ι}

omit [DecidableEq ι] in
theorem EditInv.kept_everywhere (h : EditInv s) : Kept s := by
  intro meetingId text hlatest
  rcases h.kept meetingId text hlatest with
    ⟨view, hview, rfl, hedited⟩ | hflight | hstored | hattempt
  · have hsame := h.typed view hview hedited
    rw [hlatest] at hsame
    exact Or.inl ⟨view, hview, rfl, hedited.1, (Option.some.inj hsame).symm⟩
  · exact Or.inr (Or.inl hflight)
  · exact Or.inr (Or.inr (Or.inl hstored))
  · exact Or.inr (Or.inr (Or.inr hattempt.1))

theorem NotesView.dirty_iff {view : NotesView} :
    view.dirty = true ↔ view.Edited ∧ view.isSaving = false := by
  simp only [NotesView.dirty, NotesView.Edited, Bool.and_eq_true, Bool.not_eq_true', bne_iff_ne]
  exact and_right_comm

theorem await_suspend {await : Await} (k : ι) :
    (s.suspend i await).await k = if k = i then await else s.await k :=
  Function.update_apply ..

/-! ## Each step -/

/-- A save goes on with the same text. -/
theorem attempt_suspend {await : Await} (hattempt : await.attempt = (s.await i).attempt) (k : ι) :
    ((s.suspend i await).await k).attempt = (s.await k).attempt := by
  rw [await_suspend]
  split
  · next hsame => rw [hattempt, hsame]
  · rfl

theorem EditInv.proceed (h : EditInv s) {await : Await}
    (hattempt : await.attempt = (s.await i).attempt) (hnumber : await.number = (s.await i).number)
    (hstored : ∀ number meetingId markdown, await = .processed number meetingId markdown true →
      s.stored meetingId = some markdown) : EditInv (s.suspend i await) := by
  have hattempts := attempt_suspend (s := s) hattempt
  have hnumbers (k : ι) : ((s.suspend i await).await k).number = (s.await k).number := by
    rw [await_suspend]
    split
    · next hsame => rw [hnumber, hsame]
    · rfl
  constructor
  case kept =>
    intro meetingId text hlatest
    refine (h.kept meetingId text hlatest).imp_right fun hplace => hplace.imp_left ?_
    rintro ⟨k, hk⟩
    exact ⟨k, (hattempts k).trans hk⟩
  case single =>
    intro j k meetingId text other hj hk
    rw [hattempts] at hj hk
    exact h.single j k meetingId text other hj hk
  case stored =>
    intro k number meetingId markdown hk
    rw [await_suspend] at hk
    split at hk
    · exact hstored number meetingId markdown hk
    · exact h.stored k number meetingId markdown hk
  case newest =>
    intro k meetingId markdown hk
    rw [hattempts] at hk
    exact h.newest k meetingId markdown hk
  case typed => exact h.typed
  case saving =>
    intro view hview k hk
    rw [hnumbers] at hk
    rw [hattempts]
    exact h.saving view hview k hk
  case editing => exact h.editing
  case mounted => exact h.mounted
  case tasks =>
    intro k number hk
    rw [hnumbers] at hk
    exact h.tasks k number hk

omit [DecidableEq ι] in
/-- The live view changes, and has the same to save. -/
theorem EditInv.change (h : EditInv s) {view after : NotesView} (hview : s.view = some view)
    (hnumber : after.number = view.number) (hmeeting : after.meetingId = view.meetingId)
    (hsaving : after.isSaving = view.isSaving) (hedited : after.Edited ↔ view.Edited)
    (hbuffer : view.Edited → after.editorBuffer = view.editorBuffer)
    (hediting : after.editing = true → after.bufferLoaded = true) :
    EditInv { s with view := some after } := by
  have hunsaved (meetingId : String) (hunsaved : Unsaved s meetingId) :
      Unsaved { s with view := some after } meetingId := by
    obtain ⟨other, hother, hin, hwas⟩ := hunsaved
    rw [hview] at hother
    obtain rfl := Option.some.inj hother
    exact ⟨after, rfl, hmeeting.trans hin, hedited.mpr hwas⟩
  constructor
  case kept =>
    intro meetingId text hlatest
    exact (h.kept meetingId text hlatest).imp_left (hunsaved meetingId)
  case single => exact h.single
  case stored => exact h.stored
  case newest =>
    intro k meetingId markdown hk
    exact (h.newest k meetingId markdown hk).imp_right (hunsaved meetingId)
  case typed =>
    intro other hother his
    obtain rfl := Option.some.inj hother
    have hwas := hedited.mp his
    rw [hmeeting, hbuffer hwas]
    exact h.typed view hview hwas
  case saving =>
    intro other hother k hk
    obtain rfl := Option.some.inj hother
    rw [hnumber] at hk
    obtain ⟨hwas, hsaves, hattempt⟩ := h.saving view hview k hk
    rw [hmeeting]
    exact ⟨hedited.mpr hwas, hsaving.trans hsaves, hattempt⟩
  case editing =>
    intro other hother hedits
    obtain rfl := Option.some.inj hother
    exact hediting hedits
  case mounted =>
    intro other hother
    obtain rfl := Option.some.inj hother
    rw [hnumber]
    exact h.mounted view hview
  case tasks => exact h.tasks

omit [DecidableEq ι] in
theorem EditInv.appear (h : EditInv s) (hnone : s.view = none) {meetingId : String}
    {markdownFallback : Option String} : EditInv { s with
      view := some (.appearing s.mounted meetingId markdownFallback)
      mounted := s.mounted + 1 } := by
  have hunsaved (meeting : String) : ¬ Unsaved s meeting := by
    rintro ⟨view, hview, -⟩
    rw [hnone] at hview
    cases hview
  have hclean : ¬ (NotesView.appearing s.mounted meetingId markdownFallback).Edited := by
    simp [NotesView.Edited, NotesView.appearing]
  constructor
  case kept =>
    intro meeting text hlatest
    exact Or.inr ((h.kept meeting text hlatest).resolve_left (hunsaved meeting))
  case single => exact h.single
  case stored => exact h.stored
  case newest =>
    intro k meeting markdown hk
    exact Or.inl ((h.newest k meeting markdown hk).resolve_right (hunsaved meeting))
  case typed =>
    intro view hview hedited
    obtain rfl := Option.some.inj hview
    exact absurd hedited hclean
  case saving =>
    intro view hview k hk
    obtain rfl := Option.some.inj hview
    exact absurd (h.tasks k _ hk) (Nat.lt_irrefl _)
  case editing =>
    intro view hview hedits
    obtain rfl := Option.some.inj hview
    cases hedits
  case mounted =>
    intro view hview
    obtain rfl := Option.some.inj hview
    exact Nat.lt_succ_self _
  case tasks => exact fun k number hk => Nat.lt_succ_of_lt (h.tasks k number hk)

omit [DecidableEq ι] in
theorem EditInv.edit (h : EditInv s) {view : NotesView} (hview : s.view = some view) :
    EditInv { s with view := some view.enter } := by
  by_cases hloaded : view.bufferLoaded = true
  · have henter : view.enter = { view with editing := true } := if_pos hloaded
    rw [henter]
    exact h.change hview rfl rfl rfl Iff.rfl (fun _ => rfl) fun _ => hloaded
  · have henter : view.enter = { view with
        editing := true, editorBuffer := view.renderedMarkdown.getD "", bufferLoaded := true } :=
      if_neg hloaded
    rw [henter]
    -- The buffer is what is rendered, and nothing has been typed into the one before it.
    have hafter : ¬ NotesView.Edited { view with
        editing := true, editorBuffer := view.renderedMarkdown.getD "", bufferLoaded := true } :=
      fun hedited => hedited.2 rfl
    have hbefore : ¬ view.Edited := fun hedited => hloaded hedited.1
    exact h.change hview rfl rfl rfl (iff_of_false hafter hbefore)
      (fun hedited => absurd hedited hbefore) fun _ => rfl

omit [DecidableEq ι] in
/-- What is typed is in the editor, where it is to be saved unless it is stored already. -/
theorem EditInv.type (h : EditInv s) {view : NotesView} (hview : s.view = some view)
    (hediting : view.editing = true) {text : String} (hok : Orderly s (.type text)) :
    EditInv { s with
      view := some { view with editorBuffer := text }
      latest := Function.update s.latest view.meetingId (some text) } := by
  have hloaded := h.editing view hview hediting
  have hmine (meetingId : String) (hunsaved : Unsaved s meetingId) :
      view.meetingId = meetingId := by
    obtain ⟨other, hother, hin, -⟩ := hunsaved
    rw [hview] at hother
    obtain rfl := Option.some.inj hother
    exact hin
  have hedited (hnot : text ≠ view.renderedMarkdown.getD "") :
      NotesView.Edited { view with editorBuffer := text } := ⟨hloaded, hnot⟩
  -- With a save on the way the rendered text is not typed back.
  have hbusy {k : ι} {markdown : String}
      (hk : (s.await k).attempt = some (view.meetingId, markdown)) :
      text ≠ view.renderedMarkdown.getD "" :=
    fun hsame => (hok view hview hsame).2 markdown ⟨k, hk⟩
  constructor
  case kept =>
    intro meetingId other hlatest
    by_cases hmeeting : meetingId = view.meetingId
    · subst hmeeting
      have hsame : Function.update s.latest view.meetingId (some text) view.meetingId =
          some other := hlatest
      rw [Function.update_self] at hsame
      obtain rfl := Option.some.inj hsame
      by_cases hrendered : text = view.renderedMarkdown.getD ""
      · exact Or.inr (Or.inr (Or.inl (hok view hview hrendered).1))
      · exact Or.inl ⟨_, rfl, rfl, hedited hrendered⟩
    · have hbefore : Function.update s.latest view.meetingId (some text) meetingId =
          some other := hlatest
      rw [Function.update_of_ne hmeeting] at hbefore
      refine Or.inr ((h.kept meetingId other hbefore).resolve_left fun hunsaved => ?_)
      exact hmeeting (hmine meetingId hunsaved).symm
  case single => exact h.single
  case stored => exact h.stored
  case newest =>
    intro k meetingId markdown hk
    by_cases hmeeting : meetingId = view.meetingId
    · subst hmeeting
      exact Or.inr ⟨_, rfl, rfl, hedited (hbusy hk)⟩
    · refine Or.inl ?_
      show Function.update s.latest view.meetingId (some text) meetingId = some markdown
      rw [Function.update_of_ne hmeeting]
      refine (h.newest k meetingId markdown hk).resolve_right fun hunsaved => ?_
      exact hmeeting (hmine meetingId hunsaved).symm
  case typed =>
    intro other hother _
    obtain rfl := Option.some.inj hother
    exact Function.update_self ..
  case saving =>
    intro other hother k hk
    obtain rfl := Option.some.inj hother
    obtain ⟨-, hsaves, markdown, hattempt⟩ := h.saving view hview k hk
    exact ⟨hedited (hbusy hattempt), hsaves, markdown, hattempt⟩
  case editing =>
    intro other hother _
    obtain rfl := Option.some.inj hother
    exact hloaded
  case mounted =>
    intro other hother
    obtain rfl := Option.some.inj hother
    exact h.mounted view hview
  case tasks => exact h.tasks

/-- A save is started of a meeting that has none on the way, and of the latest text unless the
live view has a newer one. -/
theorem EditInv.launch (h : EditInv s) (hready : s.await i = .ready) {await : Await}
    {meetingId markdown : String} (hattempt : await.attempt = some (meetingId, markdown))
    (hidle : Idle s meetingId) (hnewest : s.latest meetingId = some markdown ∨ Unsaved s meetingId)
    (hprocessed : ∀ number meeting text, await ≠ .processed number meeting text true)
    (hsaving : ∀ view, s.view = some view → await.number = some view.number →
      view.Edited ∧ view.isSaving = true ∧ view.meetingId = meetingId)
    (hnumber : ∀ number, await.number = some number → number < s.mounted) :
    EditInv (s.suspend i await) := by
  have hothers (k : ι) (text : String) (hk : (s.await k).attempt = some (meetingId, text)) :
      False := hidle text ⟨k, hk⟩
  constructor
  case kept =>
    intro meeting text hlatest
    refine (h.kept meeting text hlatest).imp_right fun hplace => hplace.imp_left ?_
    rintro ⟨k, hk⟩
    refine ⟨k, ?_⟩
    rw [await_suspend, if_neg, hk]
    rintro rfl
    simp [hready, Await.attempt] at hk
  case single =>
    intro j k meeting text other hj hk
    rw [await_suspend] at hj hk
    split at hj <;> split at hk
    · next hjsame hksame => exact hjsame.trans hksame.symm
    · rw [hattempt] at hj
      obtain ⟨rfl, -⟩ := Prod.mk.inj (Option.some.inj hj)
      exact (hothers k other hk).elim
    · rw [hattempt] at hk
      obtain ⟨rfl, -⟩ := Prod.mk.inj (Option.some.inj hk)
      exact (hothers j text hj).elim
    · exact h.single j k meeting text other hj hk
  case stored =>
    intro k number meeting text hk
    rw [await_suspend] at hk
    split at hk
    · exact absurd hk (hprocessed number meeting text)
    · exact h.stored k number meeting text hk
  case newest =>
    intro k meeting text hk
    rw [await_suspend] at hk
    split at hk
    · rw [hattempt] at hk
      obtain ⟨rfl, rfl⟩ := Prod.mk.inj (Option.some.inj hk)
      exact hnewest
    · exact h.newest k meeting text hk
  case typed => exact h.typed
  case saving =>
    intro view hview k hk
    rw [await_suspend] at hk ⊢
    split at hk
    · next hsame =>
      obtain ⟨hedited, hsaves, rfl⟩ := hsaving view hview hk
      rw [if_pos hsame]
      exact ⟨hedited, hsaves, markdown, hattempt⟩
    · next hne =>
      rw [if_neg hne]
      exact h.saving view hview k hk
  case editing => exact h.editing
  case mounted => exact h.mounted
  case tasks =>
    intro k number hk
    rw [await_suspend] at hk
    split at hk
    · exact hnumber number hk
    · exact h.tasks k number hk

theorem commitIfDirty_of_dirty {view : NotesView} (hview : s.view = some view)
    (hdirty : view.dirty = true) :
    s.commitIfDirty i = { s with view := some { view with isSaving := true } }.suspend i
      (.committed view.number view.meetingId view.editorBuffer) := by
  simp only [Session.commitIfDirty, hview, hdirty, if_true]

theorem commitIfDirty_of_clean {view : NotesView} (hview : s.view = some view)
    (hclean : view.dirty ≠ true) : s.commitIfDirty i = s := by
  simp only [Session.commitIfDirty, hview, hclean, Bool.false_eq_true, if_false]

omit [DecidableEq ι] in
/-- The live view is marked as saving, and no task of its own is. -/
theorem EditInv.mark (h : EditInv s) {view : NotesView} (hview : s.view = some view)
    (hidle : view.isSaving = false) :
    EditInv { s with view := some { view with isSaving := true } } := by
  have hnone (k : ι) (hk : (s.await k).number = some view.number) : False := by
    have hsaves := (h.saving view hview k hk).2.1
    rw [hidle] at hsaves
    cases hsaves
  have hunsaved (meetingId : String) (hunsaved : Unsaved s meetingId) :
      Unsaved { s with view := some { view with isSaving := true } } meetingId := by
    obtain ⟨other, hother, hin, hwas⟩ := hunsaved
    rw [hview] at hother
    obtain rfl := Option.some.inj hother
    exact ⟨_, rfl, hin, hwas⟩
  constructor
  case kept =>
    intro meetingId text hlatest
    exact (h.kept meetingId text hlatest).imp_left (hunsaved meetingId)
  case single => exact h.single
  case stored => exact h.stored
  case newest =>
    intro k meetingId markdown hk
    exact (h.newest k meetingId markdown hk).imp_right (hunsaved meetingId)
  case typed =>
    intro other hother hedited
    obtain rfl := Option.some.inj hother
    exact h.typed view hview hedited
  case saving =>
    intro other hother k hk
    obtain rfl := Option.some.inj hother
    exact (hnone k hk).elim
  case editing =>
    intro other hother hedits
    obtain rfl := Option.some.inj hother
    exact h.editing view hview hedits
  case mounted =>
    intro other hother
    obtain rfl := Option.some.inj hother
    exact h.mounted view hview
  case tasks => exact h.tasks

theorem EditInv.commit (h : EditInv s) (hready : s.await i = .ready) {view : NotesView}
    (hview : s.view = some view) (hidle : view.dirty = true → Idle s view.meetingId) :
    EditInv (s.commitIfDirty i) := by
  by_cases hdirty : view.dirty = true
  · rw [commitIfDirty_of_dirty hview hdirty]
    obtain ⟨hedited, hnot⟩ := NotesView.dirty_iff.mp hdirty
    refine (h.mark hview hnot).launch (s := { s with view := _ }) hready rfl (hidle hdirty)
      (Or.inl (h.typed view hview hedited)) nofun ?_ ?_
    · intro other hother _
      obtain rfl := Option.some.inj hother
      exact ⟨hedited, rfl, rfl⟩
    · intro number hnumber
      obtain rfl := Option.some.inj hnumber
      exact h.mounted view hview
  · rw [commitIfDirty_of_clean hview hdirty]
    exact h

omit [DecidableEq ι] in
/-- A view goes with nothing that is not being saved. -/
theorem EditInv.leave (h : EditInv s) {view : NotesView} (hview : s.view = some view)
    (hsaved : view.Edited → InFlight s view.meetingId view.editorBuffer) :
    EditInv { s with view := none } := by
  constructor
  case kept =>
    intro meetingId text hlatest
    rcases h.kept meetingId text hlatest with ⟨other, hother, rfl, hedited⟩ | hplace
    · rw [hview] at hother
      obtain rfl := Option.some.inj hother
      have hsame := h.typed view hview hedited
      rw [show s.latest view.meetingId = some text from hlatest] at hsame
      obtain rfl := Option.some.inj hsame
      exact Or.inr (Or.inl (hsaved hedited))
    · exact Or.inr hplace
  case single => exact h.single
  case stored => exact h.stored
  case newest =>
    intro k meetingId markdown hk
    rcases h.newest k meetingId markdown hk with hlatest | ⟨other, hother, rfl, hedited⟩
    · exact Or.inl hlatest
    · rw [hview] at hother
      obtain rfl := Option.some.inj hother
      -- The only save of the meeting is that of the buffer, the latest text.
      obtain ⟨j, hj⟩ := hsaved hedited
      obtain rfl := h.single k j view.meetingId markdown view.editorBuffer hk hj
      rw [hk] at hj
      obtain ⟨-, rfl⟩ := Prod.mk.inj (Option.some.inj hj)
      exact Or.inl (h.typed view hview hedited)
  case typed =>
    intro other hother
    cases hother
  case saving =>
    intro other hother
    cases hother
  case editing =>
    intro other hother
    cases hother
  case mounted =>
    intro other hother
    cases hother
  case tasks => exact h.tasks

theorem EditInv.disappear (h : EditInv s) (hready : s.await i = .ready) {view : NotesView}
    (hview : s.view = some view) (hok : Orderly s (.disappear i)) :
    EditInv { s.commitIfDirty i with view := none } := by
  obtain ⟨hidle, hsaving⟩ := hok view hview
  have hcommit := h.commit hready hview hidle
  by_cases hdirty : view.dirty = true
  · rw [commitIfDirty_of_dirty hview hdirty] at hcommit ⊢
    refine hcommit.leave rfl fun _ => ⟨i, ?_⟩
    rw [await_suspend, if_pos rfl]
    rfl
  · rw [commitIfDirty_of_clean hview hdirty] at hcommit ⊢
    refine hcommit.leave hview fun hedited => hsaving ?_
    rw [NotesView.dirty_iff, not_and, Bool.not_eq_false] at hdirty
    exact hdirty hedited

/-- The task of a commit begins, and its text replaces the last attempt. -/
theorem EditInv.begin (h : EditInv s) {number : Nat} {meetingId markdown : String}
    (hi : s.await i = .committed number meetingId markdown) (hok : Orderly s (.begin i)) :
    EditInv ({ s with lastNotesAttempt := some (meetingId, markdown), failed := false }.suspend i
      (.saving (some number) meetingId markdown)) := by
  have hattempt : (s.await i).attempt = some (meetingId, markdown) := by
    rw [hi]
    rfl
  have hreplaced :
      EditInv { s with lastNotesAttempt := some (meetingId, markdown), failed := false } := by
    refine ⟨?_, h.single, h.stored, h.newest, h.typed, h.saving, h.editing, h.mounted, h.tasks⟩
    intro meeting text hlatest
    rcases h.kept meeting text hlatest with hunsaved | hflight | hstored | ⟨hlast, hfailed⟩
    · exact Or.inl hunsaved
    · exact Or.inr (Or.inl hflight)
    · exact Or.inr (Or.inr (Or.inl hstored))
    · obtain rfl : meeting = meetingId := hok number meetingId markdown hi hfailed _ hlast
      rcases h.newest i meeting markdown hattempt with hnewest | hunsaved
      · have hsame : s.latest meeting = some text := hlatest
        rw [hnewest] at hsame
        obtain rfl := Option.some.inj hsame
        exact Or.inr (Or.inl ⟨i, hattempt⟩)
      · exact Or.inl hunsaved
  refine hreplaced.proceed ?_ ?_ nofun
  · show _ = (s.await i).attempt
    rw [hi]
    rfl
  · show _ = (s.await i).number
    rw [hi]
    rfl

theorem EditInv.retry (h : EditInv s) (hready : s.await i = .ready) {meetingId markdown : String}
    (hlast : s.lastNotesAttempt = some (meetingId, markdown)) (hok : Orderly s (.retry i)) :
    EditInv (s.suspend i (.saving none meetingId markdown)) := by
  obtain ⟨hidle, hlatest⟩ := hok meetingId markdown hlast
  refine h.launch hready rfl hidle (hlatest.imp_right ?_) nofun ?_ ?_
  · rintro ⟨view, hview, hmeeting, hdirty⟩
    exact ⟨view, hview, hmeeting, (NotesView.dirty_iff.mp hdirty).1⟩
  · intro view hview hnumber
    cases hnumber
  · intro number hnumber
    cases hnumber

/-- The engine stores the text of a save, the only one of its meeting. -/
theorem EditInv.process (h : EditInv s) {number : Option Nat} {meetingId markdown : String}
    (hi : s.await i = .saving number meetingId markdown) :
    EditInv ({ s with stored := Function.update s.stored meetingId (some markdown) }.suspend i
      (.processed number meetingId markdown true)) := by
  have hattempt : (s.await i).attempt = some (meetingId, markdown) := by
    rw [hi]
    rfl
  have hstored :
      EditInv { s with stored := Function.update s.stored meetingId (some markdown) } := by
    refine ⟨?_, h.single, ?_, h.newest, h.typed, h.saving, h.editing, h.mounted, h.tasks⟩
    · intro meeting text hlatest
      by_cases hmeeting : meeting = meetingId
      · subst hmeeting
        rcases h.newest i meeting markdown hattempt with hnewest | hunsaved
        · have hsame : s.latest meeting = some text := hlatest
          rw [hnewest] at hsame
          refine Or.inr (Or.inr (Or.inl ?_))
          show Function.update s.stored meeting (some markdown) meeting = some text
          rw [Function.update_self, hsame]
        · exact Or.inl hunsaved
      · refine (h.kept meeting text hlatest).imp_right fun hplace => hplace.imp_right fun hrest =>
          hrest.imp_left fun hwas => ?_
        show Function.update s.stored meetingId (some markdown) meeting = some text
        rw [Function.update_of_ne hmeeting, hwas]
    · intro k number' meeting text hk
      have hmeeting : meeting ≠ meetingId := by
        rintro rfl
        have hwas : (s.await k).attempt = some (meeting, text) := by
          rw [show s.await k = _ from hk]
          rfl
        obtain rfl := h.single k i meeting text markdown hwas hattempt
        rw [show s.await k = _ from hk] at hi
        cases hi
      show Function.update s.stored meetingId (some markdown) meeting = some text
      rw [Function.update_of_ne hmeeting]
      exact h.stored k number' meeting text hk
  refine hstored.proceed ?_ ?_ ?_
  · show _ = (s.await i).attempt
    rw [hi]
    rfl
  · show _ = (s.await i).number
    rw [hi]
    rfl
  · intro number' meeting text hsame
    cases hsame
    exact Function.update_self ..

omit [DecidableEq ι] in
theorem saved_view {number : Option Nat} {ok : Bool} {markdown : String} {after : NotesView}
    (hafter : (s.saved number ok markdown).view = some after) :
    ∃ view, s.view = some view ∧
      if number = some view.number then after = view.saved ok markdown else after = view := by
  obtain ⟨view, hview, rfl⟩ := Option.map_eq_some_iff.mp hafter
  refine ⟨view, hview, ?_⟩
  split <;> rfl

omit [DecidableEq ι] in
theorem view_saved {number : Option Nat} {ok : Bool} {markdown : String} {view : NotesView}
    (hview : s.view = some view) : (s.saved number ok markdown).view =
      some (if number = some view.number then view.saved ok markdown else view) :=
  congrArg (Option.map _) hview

omit [DecidableEq ι] in
/-- A view to which a save returns has something newer to save, or its text is stored. -/
theorem EditInv.unsaved_saved (h : EditInv s) {number : Option Nat} {meetingId markdown : String}
    {ok : Bool} (hi : s.await i = .processed number meetingId markdown ok) {meeting : String}
    (hunsaved : Unsaved s meeting) : Unsaved (s.saved number ok markdown) meeting ∨
      (meeting = meetingId ∧ s.latest meeting = some markdown ∧ ok = true) := by
  obtain ⟨view, hview, rfl, hedited⟩ := hunsaved
  by_cases hown : number = some view.number
  · by_cases hsaved : ok = true ∧ view.editorBuffer = markdown
    · obtain ⟨hok, hsame⟩ := hsaved
      have hmine : (s.await i).number = some view.number := by rw [hi, ← hown]; rfl
      obtain ⟨-, -, text, hattempt⟩ := h.saving view hview i hmine
      rw [hi] at hattempt
      obtain ⟨hmeeting, -⟩ := Prod.mk.inj (Option.some.inj hattempt)
      exact Or.inr ⟨hmeeting.symm, hsame ▸ h.typed view hview hedited, hok⟩
    · refine Or.inl ⟨_, view_saved hview, ?_⟩
      rw [if_pos hown]
      exact ⟨view.saved_meetingId ok markdown,
        view.edited_saved ok markdown hedited fun hok hsame => hsaved ⟨hok, hsame⟩⟩
  · refine Or.inl ⟨_, view_saved hview, ?_⟩
    rw [if_neg hown]
    exact ⟨rfl, hedited⟩

omit [DecidableEq ι] in
theorem EditInv.stored_of_ok (h : EditInv s) {number : Option Nat} {meetingId markdown : String}
    {ok : Bool} (hi : s.await i = .processed number meetingId markdown ok) (hok : ok = true) :
    s.stored meetingId = some markdown := by
  subst hok
  exact h.stored i number meetingId markdown hi

omit [DecidableEq ι] in
theorem EditInv.unsaved_or_stored (h : EditInv s) {number : Option Nat}
    {meetingId markdown meeting text : String} {ok : Bool}
    (hi : s.await i = .processed number meetingId markdown ok)
    (hlatest : s.latest meeting = some text) (hunsaved : Unsaved s meeting) :
    Unsaved (s.saved number ok markdown) meeting ∨ s.stored meeting = some text := by
  refine (h.unsaved_saved hi hunsaved).imp_right ?_
  rintro ⟨rfl, hsame, hok⟩
  rw [hlatest] at hsame
  exact hsame ▸ h.stored_of_ok hi hok

/-- The latest text is in the view, on the way with another save, stored, or held for a
retry. -/
theorem EditInv.kept_returned (h : EditInv s) {number : Option Nat}
    {meetingId markdown meeting text : String} {ok : Bool}
    (hi : s.await i = .processed number meetingId markdown ok) (hok : Orderly s (.returned i))
    (hlatest : s.latest meeting = some text) :
    Unsaved (s.saved number ok markdown) meeting ∨
      (∃ k, k ≠ i ∧ (s.await k).attempt = some (meeting, text)) ∨
      s.stored meeting = some text ∨
      (s.lastNotesAttempt = some (meeting, text) ∧
        (if s.lastNotesAttempt = some (meetingId, markdown) then !ok else s.failed) = true) := by
  have hattempt : (s.await i).attempt = some (meetingId, markdown) := by
    rw [hi]
    rfl
  rcases h.kept meeting text hlatest with hunsaved | ⟨k, hk⟩ | hwas | ⟨hlast, hfailed⟩
  · exact (h.unsaved_or_stored hi hlatest hunsaved).imp_right fun hwas => Or.inr (Or.inl hwas)
  · by_cases hsame : k = i
    · subst hsame
      rw [hattempt] at hk
      obtain ⟨rfl, rfl⟩ := Prod.mk.inj (Option.some.inj hk)
      cases ok with
      | true => exact Or.inr (Or.inr (Or.inl (h.stored_of_ok hi rfl)))
      | false =>
        rcases hok number meetingId markdown hi with hlast | ⟨view, hview, hown⟩
        · exact Or.inr (Or.inr (Or.inr ⟨hlast, if_pos hlast⟩))
        · -- its own view is still there and has the text
          have hmine : (s.await k).number = some view.number := by rw [hi, ← hown]; rfl
          obtain ⟨hedited, -, other, hother⟩ := h.saving view hview k hmine
          rw [hattempt] at hother
          obtain ⟨hmeeting, -⟩ := Prod.mk.inj (Option.some.inj hother)
          have hwas := h.unsaved_or_stored hi hlatest ⟨view, hview, hmeeting.symm, hedited⟩
          exact hwas.imp_right fun hwas => Or.inr (Or.inl hwas)
    · exact Or.inr (Or.inl ⟨k, hsame, hk⟩)
  · exact Or.inr (Or.inr (Or.inl hwas))
  · by_cases hsame : (meeting, text) = (meetingId, markdown)
    · obtain ⟨rfl, rfl⟩ := Prod.mk.inj hsame
      cases ok with
      | true => exact Or.inr (Or.inr (Or.inl (h.stored_of_ok hi rfl)))
      | false => exact Or.inr (Or.inr (Or.inr ⟨hlast, if_pos hlast⟩))
    · refine Or.inr (Or.inr (Or.inr ⟨hlast, ?_⟩))
      rw [hlast, if_neg (fun heq => hsame (Option.some.inj heq)), hfailed]

/-- A save returns.  Its text is stored, or it is held for a retry or by its view. -/
theorem EditInv.returned (h : EditInv s) {number : Option Nat} {meetingId markdown : String}
    {ok : Bool} (hi : s.await i = .processed number meetingId markdown ok)
    (hok : Orderly s (.returned i)) : EditInv ({ s.saved number ok markdown with
      failed := if s.lastNotesAttempt = some (meetingId, markdown) then !ok else s.failed
    }.suspend i .finished) := by
  have hattempt : (s.await i).attempt = some (meetingId, markdown) := by
    rw [hi]
    rfl
  -- Every other save is still on the way.
  have hother {k : ι} {meeting text : String}
      (hk : (({ s.saved number ok markdown with
        failed := if s.lastNotesAttempt = some (meetingId, markdown) then !ok else s.failed
      }.suspend i .finished).await k).attempt = some (meeting, text)) :
      k ≠ i ∧ (s.await k).attempt = some (meeting, text) := by
    rw [await_suspend] at hk
    split at hk
    · cases hk
    · next hne => exact ⟨hne, hk⟩
  -- the save comes from the view when it carries its number
  have hmine {view : NotesView} (hown : number = some view.number) :
      (s.await i).number = some view.number := by
    rw [hi, ← hown]
    rfl
  constructor
  case kept =>
    intro meeting text hlatest
    refine (h.kept_returned hi hok hlatest).imp_right (Or.imp_left ?_)
    rintro ⟨k, hne, hk⟩
    refine ⟨k, ?_⟩
    rw [await_suspend, if_neg hne]
    exact hk
  case single =>
    intro j k meeting text other hj hk
    exact h.single j k meeting text other (hother hj).2 (hother hk).2
  case stored =>
    intro k number' meeting text hk
    rw [await_suspend] at hk
    split at hk
    · cases hk
    · exact h.stored k number' meeting text hk
  case newest =>
    intro k meeting text hk
    obtain ⟨hne, hwas⟩ := hother hk
    refine (h.newest k meeting text hwas).imp_right fun hunsaved => ?_
    refine (h.unsaved_saved hi hunsaved).resolve_right ?_
    rintro ⟨rfl, -, -⟩
    exact hne (h.single k i meeting text markdown hwas hattempt)
  case typed =>
    intro after hafter hedited
    obtain ⟨view, hview, hsame⟩ := saved_view hafter
    split at hsame
    · next hown =>
      subst hsame
      rw [NotesView.saved_meetingId, NotesView.saved_editorBuffer]
      exact h.typed view hview (h.saving view hview i (hmine hown)).1
    · subst hsame
      exact h.typed after hview hedited
  case saving =>
    intro after hafter k hk
    obtain ⟨view, hview, hsame⟩ := saved_view hafter
    have hnumber : after.number = view.number := by
      split at hsame <;> subst hsame
      · exact NotesView.saved_number ok markdown view
      · rfl
    rw [await_suspend] at hk ⊢
    split at hk
    · cases hk
    · next hne =>
      rw [if_neg hne]
      rw [hnumber] at hk
      obtain ⟨hedited, hsaves, text, htext⟩ := h.saving view hview k hk
      split at hsame
      · next hown =>
        -- A view has one save at a time.
        obtain ⟨-, -, other, hother'⟩ := h.saving view hview i (hmine hown)
        exact absurd (h.single k i view.meetingId text other htext hother') hne
      · subst hsame
        exact ⟨hedited, hsaves, text, htext⟩
  case editing =>
    intro after hafter hedits
    obtain ⟨view, hview, hsame⟩ := saved_view hafter
    split at hsame
    · next hown =>
      subst hsame
      rw [NotesView.saved_bufferLoaded]
      exact (h.saving view hview i (hmine hown)).1.1
    · subst hsame
      exact h.editing after hview hedits
  case mounted =>
    intro after hafter
    obtain ⟨view, hview, hsame⟩ := saved_view hafter
    split at hsame <;> subst hsame
    · rw [NotesView.saved_number]
      exact h.mounted view hview
    · exact h.mounted after hview
  case tasks =>
    intro k number' hk
    rw [await_suspend] at hk
    split at hk
    · cases hk
    · exact h.tasks k number' hk

theorem editInv_step (h : EditInv s) {event : Event ι} (hok : Orderly s event)
    (hnext : step s event = some s') : EditInv s' := by
  cases event with
  | appear meetingId markdownFallback =>
    simp only [step] at hnext
    split at hnext
    · next hnone =>
      obtain rfl := Option.some.inj hnext
      exact h.appear hnone
    · cases hnext
  | edit =>
    simp only [step] at hnext
    split at hnext
    · next view hview =>
      split at hnext
      · cases hnext
      · obtain rfl := Option.some.inj hnext
        exact h.edit hview
    · cases hnext
  | type text =>
    simp only [step] at hnext
    split at hnext
    · next view hview =>
      split at hnext
      · next hediting =>
        obtain rfl := Option.some.inj hnext
        exact h.type hview hediting hok
      · cases hnext
    · cases hnext
  | done i =>
    simp only [step] at hnext
    split at hnext
    · next view hview hready =>
      split at hnext
      · obtain rfl := Option.some.inj hnext
        have hleft : EditInv { s with view := some { view with editing := false } } :=
          h.change hview rfl rfl rfl Iff.rfl (fun _ => rfl) nofun
        exact hleft.commit hready rfl (hok view hview)
      · cases hnext
    · cases hnext
  | disappear i =>
    simp only [step] at hnext
    split at hnext
    · next view hview hready =>
      obtain rfl := Option.some.inj hnext
      exact h.disappear hready hview hok
    · cases hnext
  | retry i =>
    simp only [step] at hnext
    split at hnext
    · next hready =>
      split at hnext <;> obtain rfl := Option.some.inj hnext
      · refine h.proceed ?_ ?_ nofun <;> rw [hready] <;> rfl
      · next attempt hlast => exact h.retry hready hlast hok
    · cases hnext
  | begin i =>
    simp only [step] at hnext
    split at hnext
    · next number meetingId markdown hcommitted =>
      obtain rfl := Option.some.inj hnext
      exact h.begin hcommitted hok
    · cases hnext
  | process i ok =>
    simp only [step] at hnext
    split at hnext
    · next number meetingId markdown hsaving =>
      obtain rfl := Option.some.inj hnext
      cases ok with
      | true => exact h.process hsaving
      | false => refine h.proceed ?_ ?_ nofun <;> rw [hsaving] <;> rfl
    · cases hnext
  | lost i =>
    simp only [step] at hnext
    split at hnext
    · next number meetingId markdown ok hprocessed =>
      obtain rfl := Option.some.inj hnext
      refine h.proceed ?_ ?_ nofun <;> rw [hprocessed] <;> rfl
    · cases hnext
  | returned i =>
    simp only [step] at hnext
    split at hnext
    · next number meetingId markdown ok hprocessed =>
      obtain rfl := Option.some.inj hnext
      exact h.returned hprocessed hok
    · cases hnext

/-- The latest text of every meeting is kept in every state, as long as saves of one meeting
do not overlap, no view goes in the middle of an older save, and no save begins or goes
between one that fails and its retry. -/
theorem edits_kept {stored : String → Option String} {events : List (Event ι)}
    (horderly : Meets step Orderly (start stored) events)
    (hrun : run step (start stored) events = some s) : Kept s := by
  have hstart : EditInv (start stored : Session ι) := by
    constructor <;> simp [start, Await.number, Await.attempt]
  have h : EditInv s := run_invariant_of_meets
    (fun _ _ _ hI hok hnext => editInv_step hI hok hnext) hstart horderly hrun
  exact h.kept_everywhere

end Inv

/-! ## An edit during a save -/

/-- The notes are edited and saved, and edited again before the save returns. -/
def edited : List (Event (Fin 2)) :=
  [.appear "m" (some "notes"), .edit, .type "first", .done 0, .begin 0, .edit, .type "second"]

/-- The view goes while it is saving, and its newer text with it. -/
theorem not_kept : ∃ s,
    run step (start fun _ => some "notes") (edited ++ [.disappear 1]) = some s ∧ ¬ Kept s := by
  have hvalues : (run step (start fun _ => some "notes") (edited ++ [.disappear 1])).map
      (fun s => (s.view, s.lastNotesAttempt, s.stored "m", s.latest "m")) =
        some (none, some ("m", "first"), some "notes", some "second") ∧
      (run step (start fun _ => some "notes") (edited ++ [.disappear 1])).map
        (fun s => (s.await 0, s.await 1)) = some (.saving (some 0) "m" "first", .ready) :=
    ⟨by decide +kernel, by decide +kernel⟩
  obtain ⟨s, hs, hs'⟩ := Option.map_eq_some_iff.mp hvalues.1
  rw [hs] at hvalues
  simp only [Option.map_some, Option.some.injEq, Prod.mk.injEq] at hs' hvalues
  obtain ⟨hview, hattempt, hstored, hlatest⟩ := hs'
  obtain ⟨-, hzero, hone⟩ := hvalues
  refine ⟨s, hs, fun hkept => ?_⟩
  rcases hkept "m" "second" hlatest with ⟨view, hin, -⟩ | ⟨i, hi⟩ | hsaved | htry
  · rw [hview] at hin
    cases hin
  · match i with
    | 0 => simp [hzero, Await.attempt] at hi
    | 1 => simp [hone, Await.attempt] at hi
  · simp [hstored] at hsaved
  · simp [hattempt] at htry

/-- The save returns first, and the view saves the newer text as it goes.  That save fails. -/
theorem edits_kept_returned : ∃ s,
    run step (start fun _ => some "notes") (edited ++ [.process 0 true, .returned 0,
      .disappear 1, .begin 1, .process 1 false, .returned 1]) = some s ∧
      s.latest "m" = some "second" ∧ Kept s := by
  have hvalues : (run step (start fun _ => some "notes") (edited ++ [.process 0 true,
      .returned 0, .disappear 1, .begin 1, .process 1 false, .returned 1])).map
        (fun s => s.latest "m") = some (some "second") := by
    decide +kernel
  obtain ⟨s, hs, hlatest⟩ := Option.map_eq_some_iff.mp hvalues
  have horderly : Meets step Orderly (start fun _ => some "notes") (edited ++ [.process 0 true,
      .returned 0, .disappear 1, .begin 1, .process 1 false, .returned 1]) := by
    simp [edited, Meets, step, start, Orderly, Idle, InFlight, NotesView.appearing,
      NotesView.enter, NotesView.dirty, NotesView.renderedMarkdown, NotesView.saved,
      Session.suspend, Session.commitIfDirty, Session.saved, Await.attempt]
  exact ⟨s, hs, hlatest, edits_kept horderly hs⟩

end NotesEditing
end App
end Panops
