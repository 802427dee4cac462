import Mathlib.Logic.Function.Basic
import Panops.Lib.Transitions

/-!
# The list of meetings in the sidebar

Calls of `refreshMeetings` and `applySidebarSelection` overlap: each is suspended in a
`meeting.list` request, and the answers come in any order.
-/

namespace Panops
namespace App
namespace Sidebar

open Lib.Transitions

/-- What the smart views read of a summary. -/
structure MeetingSummary where
  id : String
  startedAt : String
  durationMs : Nat
  endedAt : Option String
  hasNotes : Bool
  spaceId : Option String
deriving DecidableEq

inductive SmartView where
  | inbox
  | all
  | needsNotes
  | thisWeek
deriving DecidableEq

inductive SidebarSelection where
  | smart (view : SmartView)
  | space (id : String)
  | project (id : String)
  | tag (id : String)
deriving DecidableEq

structure MeetingListParams where
  spaceId : Option String
  projectId : Option String
  tagId : Option String
deriving DecidableEq

/-- Of the request that a selection other than a smart view makes. -/
def SidebarSelection.params : SidebarSelection → Option MeetingListParams
  | .smart _ => none
  | .space id => some ⟨some id, none, none⟩
  | .project id => some ⟨none, some id, none⟩
  | .tag id => some ⟨none, none, some id⟩

/-- What the rest of the view model and the clock make of a meeting. -/
structure Ambient where
  needsNotes : MeetingSummary → Bool
  isInCurrentWeek : MeetingSummary → Bool

def meetingsForSmartView (ambient : Ambient) (allMeetings : List MeetingSummary) :
    SmartView → List MeetingSummary
  | .all => allMeetings
  | .inbox => allMeetings.filter fun meeting => meeting.spaceId = none
  | .needsNotes => allMeetings.filter ambient.needsNotes
  | .thisWeek => allMeetings.filter ambient.isInCurrentWeek

inductive Call where
  | refreshMeetings (maxAttempts : Nat)
  | applySidebarSelection
deriving DecidableEq

/-- Where a call is suspended.  A request has its number among the requests of its
kind; only the token is in the source. -/
inductive Await where
  | ready
  | listing (attempt number : Nat)
  | sleeping (attempt : Nat)
  | filtering (params : MeetingListParams) (token : UInt64) (number : Nat)
  | finished
deriving DecidableEq

structure MeetingLists (ι : Type) where
  sidebarSelection : SidebarSelection
  allMeetings : List MeetingSummary
  meetings : List MeetingSummary
  loadGeneration : UInt64
  await : ι → Await
  /- Not in the source: how many unfiltered requests have been issued, and the last
  issued one of those that have been answered, with its answer. -/
  issued : Nat
  listed : Option (Nat × List MeetingSummary)
  /- How often the selection has been applied, which one and with what ambient the last
  time, the answer to the request of that time, and whether it has changed since. -/
  applied : Nat
  appliedSelection : SidebarSelection
  ambient : Ambient
  answer : Option (MeetingListParams × Option (List MeetingSummary))
  changed : Bool

inductive Event (ι : Type) where
  | select (selection : SidebarSelection)
  | begin (i : ι) (ambient : Ambient)
  /-- An answer to an unfiltered request, none for an error. -/
  | listed (i : ι) (answer : Option (List MeetingSummary)) (ambient : Ambient)
  | awake (i : ι)
  | filtered (i : ι) (answer : Option (List MeetingSummary))

variable {ι : Type} [DecidableEq ι]

namespace MeetingLists

def suspend (i : ι) (await : Await) (s : MeetingLists ι) : MeetingLists ι :=
  { s with await := Function.update s.await i await }

/-- Up to the request. -/
def loadFilteredMeetings (i : ι) (params : MeetingListParams) (s : MeetingLists ι) :
    MeetingLists ι :=
  s.suspend i (.filtering params s.loadGeneration s.applied)

/-- Up to its first suspension. -/
def applySidebarSelection (i : ι) (ambient : Ambient) (s : MeetingLists ι) : MeetingLists ι :=
  let s := { s with
    loadGeneration := s.loadGeneration + 1
    applied := s.applied + 1
    appliedSelection := s.sidebarSelection
    ambient := ambient
    answer := none
    changed := false }
  match s.sidebarSelection with
  | .smart view =>
    { s with meetings := meetingsForSmartView ambient s.allMeetings view }.suspend i .finished
  | .space id => s.loadFilteredMeetings i ⟨some id, none, none⟩
  | .project id => s.loadFilteredMeetings i ⟨none, some id, none⟩
  | .tag id => s.loadFilteredMeetings i ⟨none, none, some id⟩

/-- An answer to the unfiltered request with the number. -/
def setAllMeetings (number : Nat) (answer : List MeetingSummary) (s : MeetingLists ι) :
    MeetingLists ι :=
  { s with
    allMeetings := answer
    listed :=
      match s.listed with
      | none => some (number, answer)
      | some (before, old) =>
        if before < number then some (number, answer) else some (before, old) }

end MeetingLists

def step (calls : ι → Call) (s : MeetingLists ι) : Event ι → Option (MeetingLists ι)
  | .select selection => some { s with sidebarSelection := selection, changed := true }
  | .begin i ambient =>
    match calls i, s.await i with
    | .refreshMeetings _, .ready =>
      some ({ s with issued := s.issued + 1 }.suspend i (.listing 1 s.issued))
    | .applySidebarSelection, .ready => some (s.applySidebarSelection i ambient)
    | _, _ => none
  | .listed i answer ambient =>
    match calls i, s.await i with
    | .refreshMeetings maxAttempts, .listing attempt number =>
      match answer with
      | some answer => some ((s.setAllMeetings number answer).applySidebarSelection i ambient)
      | none =>
        if attempt < maxAttempts then some (s.suspend i (.sleeping attempt))
        else some (s.suspend i .finished)
    | _, _ => none
  | .awake i =>
    match s.await i with
    | .sleeping attempt =>
      some ({ s with issued := s.issued + 1 }.suspend i (.listing (attempt + 1) s.issued))
    | _ => none
  | .filtered i answer =>
    match s.await i with
    | .filtering params token number =>
      let s := { s with answer := if number = s.applied then some (params, answer) else s.answer }
      if token = s.loadGeneration then
        some ({ s with meetings := answer.getD [] }.suspend i .finished)
      else some (s.suspend i .finished)
    | _ => none

def start (ambient : Ambient) : MeetingLists ι where
  sidebarSelection := .smart .all
  allMeetings := []
  meetings := []
  loadGeneration := 0
  await _ := .ready
  issued := 0
  listed := none
  applied := 0
  appliedSelection := .smart .all
  ambient := ambient
  answer := none
  changed := false

/-! ## What is displayed -/

/-- Unfiltered requests are answered in the order in which they are issued, and no
answer is as many selections late as there are tokens. -/
def Orderly (s : MeetingLists ι) : Event ι → Prop
  | .listed i (some _) _ => ∀ attempt number, s.await i = .listing attempt number →
      ∀ before old, s.listed = some (before, old) → before < number
  | .filtered i _ => ∀ params token number, s.await i = .filtering params token number →
      s.applied < number + UInt64.size
  | _ => True

/-- `meetings` is for the current selection. -/
structure Displays (s : MeetingLists ι) : Prop where
  smart : ∀ view, s.sidebarSelection = .smart view →
    s.meetings = meetingsForSmartView s.ambient s.allMeetings view
  filter : ∀ params, s.sidebarSelection.params = some params →
    ∃ answer, s.answer = some (params, answer) ∧ s.meetings = answer.getD []

structure ListsInv (s : MeetingLists ι) : Prop where
  all : s.allMeetings = (s.listed.map Prod.snd).getD []
  generation : s.loadGeneration = UInt64.ofNat s.applied
  token : ∀ i params token number, s.await i = .filtering params token number →
    token = UInt64.ofNat number ∧ number ≤ s.applied
  pending : ∀ i params token, s.await i = .filtering params token s.applied →
    s.appliedSelection.params = some params
  smart : ∀ view, s.appliedSelection = .smart view →
    s.meetings = meetingsForSmartView s.ambient s.allMeetings view
  filter : ∀ params, s.appliedSelection.params = some params →
    (∃ answer, s.answer = some (params, answer) ∧ s.meetings = answer.getD []) ∨
      ∃ i token, s.await i = .filtering params token s.applied
  unchanged : s.changed = false → s.appliedSelection = s.sidebarSelection

section Inv

variable {calls : ι → Call} {s s' : MeetingLists ι} {i : ι}

theorem eq_of_token_eq {number applied : Nat} (hle : number ≤ applied)
    (hlt : applied < number + UInt64.size) (h : UInt64.ofNat number = UInt64.ofNat applied) :
    number = applied := by
  have hmod := congrArg UInt64.toNat h
  simp only [UInt64.toNat_ofNat', UInt64.size] at hmod hlt
  omega

omit [DecidableEq ι] in
theorem ListsInv.token_ne (h : ListsInv s) {params : MeetingListParams} {token : UInt64}
    {number : Nat} (hi : s.await i = .filtering params token number) (hlate : number ≠ s.applied)
    (hlt : s.applied < number + UInt64.size) : token ≠ s.loadGeneration := by
  intro hsame
  obtain ⟨htoken, hle⟩ := h.token i params token number hi
  rw [htoken, h.generation] at hsame
  exact hlate (eq_of_token_eq hle hlt hsame)

omit [DecidableEq ι] in
theorem listsInv_start {ambient : Ambient} : ListsInv (start ambient : MeetingLists ι) where
  all := rfl
  generation := rfl
  token := by simp [start]
  pending := by simp [start]
  smart view hview := by
    cases hview
    rfl
  filter params hparams := by cases hparams
  unchanged _ := rfl

theorem await_suspend {await : Await} (k : ι) :
    (s.suspend i await).await k = if k = i then await else s.await k :=
  Function.update_apply ..

/-- What waits is what has waited before, or the new request. -/
theorem filtering_of_load {params params' : MeetingListParams} {k : ι} {token : UInt64}
    {number : Nat}
    (h : (s.loadFilteredMeetings i params).await k = .filtering params' token number) :
    params' = params ∧ token = s.loadGeneration ∧ number = s.applied ∨
      s.await k = .filtering params' token number := by
  unfold MeetingLists.loadFilteredMeetings at h
  rw [await_suspend] at h
  split at h
  · injection h with hparams htoken hnumber
    exact Or.inl ⟨hparams.symm, htoken.symm, hnumber.symm⟩
  · exact Or.inr h

/-- The request of a selection that has just been applied. -/
theorem ListsInv.loads {params : MeetingListParams}
    (hall : s.allMeetings = (s.listed.map Prod.snd).getD [])
    (hgeneration : s.loadGeneration = UInt64.ofNat s.applied)
    (htoken : ∀ i params token number, s.await i = .filtering params token number →
      token = UInt64.ofNat number ∧ number < s.applied)
    (hparams : s.appliedSelection.params = some params)
    (hunchanged : s.appliedSelection = s.sidebarSelection) :
    ListsInv (s.loadFilteredMeetings i params) where
  all := hall
  generation := hgeneration
  token k params' token number hk := by
    show token = UInt64.ofNat number ∧ number ≤ s.applied
    rcases filtering_of_load hk with ⟨-, rfl, rfl⟩ | hold
    · exact ⟨hgeneration, Nat.le_refl _⟩
    · obtain ⟨htok, hlt⟩ := htoken k params' token number hold
      exact ⟨htok, Nat.le_of_lt hlt⟩
  pending k params' token hk := by
    rcases filtering_of_load hk with ⟨rfl, -, -⟩ | hold
    · exact hparams
    · exact absurd (htoken k params' token _ hold).2 (Nat.lt_irrefl _)
  smart view hview := by
    replace hview : s.appliedSelection = .smart view := hview
    rw [hview] at hparams
    cases hparams
  filter params' hsome := by
    have hsame : params = params' := Option.some.inj (hparams.symm.trans hsome)
    subst hsame
    exact Or.inr ⟨i, _, Function.update_self ..⟩
  unchanged _ := hunchanged

/-- The selection is applied: what was displayed before does not matter. -/
theorem listsInv_apply (ambient : Ambient)
    (hall : s.allMeetings = (s.listed.map Prod.snd).getD [])
    (hgeneration : s.loadGeneration = UInt64.ofNat s.applied)
    (htoken : ∀ i params token number, s.await i = .filtering params token number →
      token = UInt64.ofNat number ∧ number ≤ s.applied) :
    ListsInv (s.applySidebarSelection i ambient) := by
  have hnext : s.loadGeneration + 1 = UInt64.ofNat (s.applied + 1) := by
    rw [hgeneration, UInt64.ofNat_add]
    rfl
  have hearlier : ∀ i params token number, s.await i = .filtering params token number →
      token = UInt64.ofNat number ∧ number < s.applied + 1 := by
    intro k params token number hk
    obtain ⟨htok, hle⟩ := htoken k params token number hk
    exact ⟨htok, Nat.lt_succ_of_le hle⟩
  unfold MeetingLists.applySidebarSelection
  cases hselection : s.sidebarSelection with
  | smart view =>
    constructor
    case all => exact hall
    case generation => exact hnext
    case unchanged => exact fun _ => rfl
    case token =>
      intro k params token number hk
      rw [await_suspend] at hk
      split at hk
      · cases hk
      · obtain ⟨htok, hlt⟩ := hearlier k params token number hk
        exact ⟨htok, Nat.le_of_lt hlt⟩
    case pending =>
      intro k params token hk
      rw [await_suspend] at hk
      split at hk
      · cases hk
      · exact absurd (hearlier k params token _ hk).2 (Nat.lt_irrefl _)
    case smart =>
      intro view' hview
      replace hview : SidebarSelection.smart view = .smart view' := hview
      cases hview
      rfl
    case filter => exact fun params hparams => nomatch hparams
  | _ => exact ListsInv.loads hall hnext hearlier rfl rfl

/-- A call that does not wait for a filtered answer goes on to something else. -/
theorem ListsInv.suspend (h : ListsInv s) {await : Await}
    (hi : ∀ params token number, s.await i ≠ .filtering params token number)
    (hawait : ∀ params token number, await ≠ .filtering params token number) :
    ListsInv (s.suspend i await) := by
  have hfiltering : ∀ k params token number, (s.suspend i await).await k =
      .filtering params token number ↔ s.await k = .filtering params token number := by
    intro k params token number
    rw [await_suspend]
    split
    · next hk =>
      subst hk
      simp [hi, hawait]
    · rfl
  constructor
  case all => exact h.all
  case generation => exact h.generation
  case smart => exact h.smart
  case unchanged => exact h.unchanged
  case token =>
    intro k params token number hk
    exact h.token k params token number ((hfiltering ..).mp hk)
  case pending =>
    intro k params token hk
    exact h.pending k params token ((hfiltering ..).mp hk)
  case filter =>
    intro params hparams
    rcases h.filter params hparams with hanswer | ⟨k, token, hk⟩
    · exact Or.inl hanswer
    · exact Or.inr ⟨k, token, (hfiltering ..).mpr hk⟩

/-- An answer to a request of an earlier selection changes nothing. -/
theorem ListsInv.late (h : ListsInv s) {params : MeetingListParams} {token : UInt64} {number : Nat}
    (hi : s.await i = .filtering params token number) (hlate : number ≠ s.applied) :
    ListsInv (s.suspend i .finished) := by
  have hold : ∀ k params token number, (s.suspend i .finished).await k =
      .filtering params token number → s.await k = .filtering params token number := by
    intro k params token number hk
    rw [await_suspend] at hk
    split at hk
    · cases hk
    · exact hk
  constructor
  case all => exact h.all
  case generation => exact h.generation
  case smart => exact h.smart
  case unchanged => exact h.unchanged
  case token =>
    intro k params token number hk
    exact h.token k params token number (hold k params token number hk)
  case pending =>
    intro k params token hk
    exact h.pending k params token (hold k params token s.applied hk)
  case filter =>
    intro params' hparams
    rcases h.filter params' hparams with hanswer | ⟨k, token', hk⟩
    · exact Or.inl hanswer
    · refine Or.inr ⟨k, token', ?_⟩
      rw [await_suspend, if_neg]
      · exact hk
      · intro hsame
        subst hsame
        rw [hi] at hk
        exact hlate (Await.filtering.inj hk).2.2

/-- The answer to the request of the last selection is displayed. -/
theorem ListsInv.shown (h : ListsInv s) {params : MeetingListParams} {token : UInt64}
    (hi : s.await i = .filtering params token s.applied) (answer : Option (List MeetingSummary)) :
    ListsInv ({ s with
      answer := some (params, answer)
      meetings := answer.getD [] }.suspend i .finished) := by
  have hparams : s.appliedSelection.params = some params := h.pending i params token hi
  constructor
  case all => exact h.all
  case generation => exact h.generation
  case unchanged => exact h.unchanged
  case token =>
    intro k params' token' number hk
    rw [await_suspend] at hk
    split at hk
    · cases hk
    · exact h.token k params' token' number hk
  case pending =>
    intro k params' token' hk
    rw [await_suspend] at hk
    split at hk
    · cases hk
    · exact h.pending k params' token' hk
  case smart =>
    intro view hview
    replace hview : s.appliedSelection = .smart view := hview
    rw [hview] at hparams
    cases hparams
  case filter =>
    intro params' hsome
    have hsame : params = params' := Option.some.inj (hparams.symm.trans hsome)
    subst hsame
    exact Or.inl ⟨answer, rfl, rfl⟩

theorem listsInv_step (h : ListsInv s) {event : Event ι} (hok : Orderly s event)
    (hnext : step calls s event = some s') : ListsInv s' := by
  cases event with
  | select selection =>
    obtain rfl := Option.some.inj hnext
    refine ⟨h.all, h.generation, h.token, h.pending, h.smart, h.filter, fun hunchanged => ?_⟩
    cases hunchanged
  | begin i ambient =>
    simp only [step] at hnext
    split at hnext
    · next hcall hready =>
      obtain rfl := Option.some.inj hnext
      have hissued : ListsInv { s with issued := s.issued + 1 } :=
        ⟨h.all, h.generation, h.token, h.pending, h.smart, h.filter, h.unchanged⟩
      exact hissued.suspend (by simp [hready]) (by simp)
    · obtain rfl := Option.some.inj hnext
      exact listsInv_apply ambient h.all h.generation h.token
    · cases hnext
  | listed i answer ambient =>
    simp only [step] at hnext
    split at hnext
    · next maxAttempts attempt number hcall hlisting =>
      cases answer with
      | some answer =>
        obtain rfl := Option.some.inj hnext
        refine listsInv_apply ambient ?_ h.generation h.token
        have hlater := hok attempt number hlisting
        unfold MeetingLists.setAllMeetings
        cases hlisted : s.listed with
        | none => rfl
        | some listed =>
          obtain ⟨before, old⟩ := listed
          simp [hlater before old hlisted]
      | none =>
        simp only at hnext
        split at hnext <;>
          · obtain rfl := Option.some.inj hnext
            exact h.suspend (by simp [hlisting]) (by simp)
    · cases hnext
  | awake i =>
    simp only [step] at hnext
    split at hnext
    · next attempt hsleeping =>
      obtain rfl := Option.some.inj hnext
      have hissued : ListsInv { s with issued := s.issued + 1 } :=
        ⟨h.all, h.generation, h.token, h.pending, h.smart, h.filter, h.unchanged⟩
      exact hissued.suspend (by simp [hsleeping]) (by simp)
    · cases hnext
  | filtered i answer =>
    simp only [step] at hnext
    split at hnext
    · next params token number hfiltering =>
      have hlt := hok params token number hfiltering
      by_cases hnumber : number = s.applied
      · have htoken := (h.token i params token number hfiltering).1
        subst hnumber
        rw [if_pos rfl, if_pos (htoken.trans h.generation.symm)] at hnext
        obtain rfl := Option.some.inj hnext
        exact h.shown hfiltering answer
      · rw [if_neg hnumber, if_neg (h.token_ne hfiltering hnumber hlt)] at hnext
        obtain rfl := Option.some.inj hnext
        exact h.late hfiltering hnumber
    · cases hnext

/-- As long as unfiltered requests are answered in order, the answer to the latest one
is kept, the answer for the current selection is displayed, and an answer to an older
request of a selection is dropped. -/
theorem latest_selection {ambient : Ambient} {events : List (Event ι)}
    (horderly : Meets (step calls) Orderly (start ambient) events)
    (hrun : run (step calls) (start ambient) events = some s) :
    s.allMeetings = (s.listed.map Prod.snd).getD [] ∧
      (s.changed = false →
        (∀ i params token number, s.await i ≠ .filtering params token number) → Displays s) ∧
      ∀ i params token number answer s', s.await i = .filtering params token number →
        number ≠ s.applied → Orderly s (.filtered i answer) →
        step calls s (.filtered i answer) = some s' →
        s'.meetings = s.meetings ∧ s'.allMeetings = s.allMeetings := by
  have h : ListsInv s := run_invariant_of_meets
    (fun _ _ _ hI hok hnext => listsInv_step hI hok hnext) listsInv_start horderly hrun
  refine ⟨h.all, ?_, ?_⟩
  · intro hunchanged hquiet
    have hselection := h.unchanged hunchanged
    constructor
    case smart => exact fun view hview => h.smart view (hselection.trans hview)
    case filter =>
      intro params hparams
      rcases h.filter params (by rw [hselection, hparams]) with hanswer | ⟨i, token, hi⟩
      · exact hanswer
      · exact absurd hi (hquiet i params token s.applied)
  · intro i params token number answer s' hi hlate hok hnext
    have hother := h.token_ne hi hlate (hok params token number hi)
    simp only [step, hi, if_neg hother] at hnext
    obtain rfl := Option.some.inj hnext
    exact ⟨rfl, rfl⟩

end Inv

/-! ## Two refreshes -/

def noWeek : Ambient := ⟨fun _ => false, fun _ => false⟩

def meetingNamed (id : String) : MeetingSummary := ⟨id, "", 0, none, false, none⟩

def refreshes (_ : Fin 2) : Call := .refreshMeetings 1

/-- The second request is answered first. -/
def crossed : List (Event (Fin 2)) :=
  [.begin 0 noWeek, .begin 1 noWeek,
    .listed 1 (some [meetingNamed "a", meetingNamed "b"]) noWeek,
    .listed 0 (some [meetingNamed "a"]) noWeek]

/-- The answer to the first request replaces that to the second, in what is kept and in
what is displayed, and no request is left that would bring it back. -/
theorem overwritten_by_older :
    (run (step refreshes) (start noWeek) crossed).map
      (fun s => (s.allMeetings, s.meetings, s.listed)) =
        some ([meetingNamed "a"], [meetingNamed "a"],
          some (1, [meetingNamed "a", meetingNamed "b"])) ∧
    (run (step refreshes) (start noWeek) crossed).map
      (fun s => (s.await 0, s.await 1, s.changed)) = some (.finished, .finished, false) :=
  ⟨by decide +kernel, by decide +kernel⟩

def refreshThenSelect : Fin 2 → Call
  | 0 => .refreshMeetings 1
  | 1 => .applySidebarSelection

def inOrder : List (Event (Fin 2)) :=
  [.begin 0 noWeek, .listed 0 (some [meetingNamed "a", meetingNamed "b"]) noWeek,
    .select (.tag "t"), .begin 1 noWeek, .filtered 1 (some [meetingNamed "b"])]

theorem latest_selection_inOrder : ∃ s,
    run (step refreshThenSelect) (start noWeek) inOrder = some s ∧
    s.allMeetings = (s.listed.map Prod.snd).getD [] ∧ s.meetings = [meetingNamed "b"] ∧
    Displays s := by
  have hvalues : (run (step refreshThenSelect) (start noWeek) inOrder).map
      (fun s => (s.meetings, s.changed, s.await 0, s.await 1)) =
        some ([meetingNamed "b"], false, .finished, .finished) := by
    decide +kernel
  obtain ⟨s, hs, hs'⟩ := Option.map_eq_some_iff.mp hvalues
  simp only [Prod.mk.injEq] at hs'
  obtain ⟨hmeetings, hchanged, hzero, hone⟩ := hs'
  have horderly : Meets (step refreshThenSelect) Orderly (start noWeek) inOrder := by
    simp [Meets, inOrder, Orderly, step, start, refreshThenSelect, MeetingLists.suspend,
      MeetingLists.applySidebarSelection, MeetingLists.setAllMeetings,
      MeetingLists.loadFilteredMeetings, UInt64.size]
  have hlatest := latest_selection horderly hs
  refine ⟨s, hs, hlatest.1, hmeetings, hlatest.2.1 hchanged ?_⟩
  refine Fin.forall_fin_two.mpr ⟨fun params token number hi => ?_, fun params token number hi => ?_⟩
  · simp [hzero] at hi
  · simp [hone] at hi

end Sidebar
end App
end Panops
