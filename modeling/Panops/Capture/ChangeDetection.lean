import Panops.Capture.Screenshots
import Panops.Lib.Machine

/-!
# What the change detector keeps

The frames that `ChangeDetector` is asked about, one after the other, with its state
before and after each of them.
-/

namespace Panops
namespace Capture

open Lib.Machine

variable {V : Type}

/-- `cosineDistance(vector, prev) < threshold`. -/
def nearBelow (distance : V → V → Single) (threshold : Single) (vector prev : V) : Bool :=
  (distance vector prev).lt threshold

/-- One call of `shouldKeep`. -/
structure Look (V : Type) where
  atMs : Nat
  featurePrint : Option V
  state : ChangeDetector V
  keep : Bool
  next : ChangeDetector V

/-- The calls for a sequence of frames. -/
def looks (near : V → V → Bool) (c : ChangeDetector V) : List (Nat × Option V) → List (Look V)
  | [] => []
  | (nowMs, featurePrint) :: rest =>
    let result := c.shouldKeep near nowMs featurePrint
    ⟨nowMs, featurePrint, c, result.1, result.2⟩ :: looks near result.2 rest

/-- The print, when it is asked for and succeeds. -/
def Look.printed (l : Look V) : Option (Nat × V) :=
  if l.state.tooSoon l.atMs then none else l.featurePrint.map fun v => (l.atMs, v)

/-- The frame, when it is kept. -/
def Look.kept (l : Look V) : Option (Nat × V) :=
  if l.keep then l.featurePrint.map fun v => (l.atMs, v) else none

def lastPrinted (ls : List (Look V)) : Option (Nat × V) := (ls.filterMap Look.printed).getLast?

def lastKept (ls : List (Look V)) : Option (Nat × V) := (ls.filterMap Look.kept).getLast?

/-! ## One call -/

section Call

variable {near : V → V → Bool} {c : ChangeDetector V} {nowMs : Nat} {featurePrint : Option V}

theorem shouldKeep_of_tooSoon (h : c.tooSoon nowMs = true) :
    c.shouldKeep near nowMs featurePrint = (false, c) := by
  unfold ChangeDetector.shouldKeep
  rw [if_pos h]

theorem shouldKeep_none : c.shouldKeep near nowMs none = (false, c) := by
  unfold ChangeDetector.shouldKeep
  split
  · rfl
  · rfl

/-- A print that is taken sets the clock, and is compared with the last one kept. -/
theorem shouldKeep_some {v : V} (h : c.tooSoon nowMs = false) :
    ((∃ prev, c.lastKeptVector = some prev ∧ near v prev = true) ∧
        c.shouldKeep near nowMs (some v) = (false, { c with lastSampleMs := some nowMs })) ∨
      ((∀ prev, c.lastKeptVector = some prev → near v prev = false) ∧
        c.shouldKeep near nowMs (some v) =
          (true, ⟨c.intervalMs, some nowMs, some v⟩)) := by
  rw [ChangeDetector.shouldKeep, if_neg (by rw [h]; exact Bool.false_ne_true)]
  cases hprev : c.lastKeptVector with
  | none => exact .inr ⟨fun prev hsome => (nomatch hsome), rfl⟩
  | some prev =>
    cases hnear : near v prev with
    | true => exact .inl ⟨⟨prev, rfl, hnear⟩, by simp [hnear]⟩
    | false =>
      refine .inr ⟨fun other hsome => ?_, by simp [hnear]⟩
      obtain rfl := Option.some.inj hsome
      exact hnear

theorem tooSoon_eq_false_iff : c.tooSoon nowMs = false ↔
    ∀ last, c.lastSampleMs = some last → last ≤ nowMs → last + c.intervalMs ≤ nowMs := by
  rw [ChangeDetector.tooSoon]
  cases c.lastSampleMs with
  | none => simp
  | some last =>
    simp only [Bool.and_eq_false_iff, decide_eq_false_iff_not, Option.some.injEq, forall_eq']
    omega

end Call

/-! ## The state is the history -/

section History

variable {near : V → V → Bool} {intervalMs : Nat} {before : List (Look V)} {c : ChangeDetector V}

structure History (intervalMs : Nat) (before : List (Look V)) (c : ChangeDetector V) : Prop where
  intervalMs : c.intervalMs = intervalMs
  sample : c.lastSampleMs = (lastPrinted before).map Prod.fst
  vector : c.lastKeptVector = (lastKept before).map Prod.snd

theorem getLast?_filterMap_concat {α β : Type} (f : α → Option β) (xs : List α) (x : α) :
    ((xs ++ [x]).filterMap f).getLast? = (f x).or (xs.filterMap f).getLast? := by
  rw [List.filterMap_append]
  cases hx : f x with
  | none => simp [hx]
  | some y => simp [hx]

/-- One more call: the last print and the last frame kept are its own, if it has any. -/
theorem History.snoc {l : Look V} (hinterval : l.next.intervalMs = intervalMs)
    (hsample : l.next.lastSampleMs = (l.printed.or (lastPrinted before)).map Prod.fst)
    (hvector : l.next.lastKeptVector = (l.kept.or (lastKept before)).map Prod.snd) :
    History intervalMs (before ++ [l]) l.next where
  intervalMs := hinterval
  sample := by rw [hsample, lastPrinted, lastPrinted, getLast?_filterMap_concat]
  vector := by rw [hvector, lastKept, lastKept, getLast?_filterMap_concat]

theorem History.step (h : History intervalMs before c) (nowMs : Nat) (featurePrint : Option V) :
    History intervalMs
      (before ++ [⟨nowMs, featurePrint, c, (c.shouldKeep near nowMs featurePrint).1,
        (c.shouldKeep near nowMs featurePrint).2⟩])
      (c.shouldKeep near nowMs featurePrint).2 := by
  cases hsoon : c.tooSoon nowMs with
  | true =>
    rw [shouldKeep_of_tooSoon hsoon]
    refine History.snoc h.intervalMs ?_ ?_
    · rw [Look.printed, if_pos hsoon]
      exact h.sample
    · rw [Look.kept, if_neg Bool.false_ne_true]
      exact h.vector
  | false =>
    have hnot : ¬ c.tooSoon nowMs = true := by rw [hsoon]; exact Bool.false_ne_true
    cases featurePrint with
    | none =>
      rw [shouldKeep_none]
      refine History.snoc h.intervalMs ?_ ?_
      · rw [Look.printed, if_neg hnot]
        exact h.sample
      · rw [Look.kept, if_neg Bool.false_ne_true]
        exact h.vector
    | some v =>
      rcases @shouldKeep_some V near c nowMs v hsoon with ⟨-, hstep⟩ | ⟨-, hstep⟩
      · rw [hstep]
        refine History.snoc h.intervalMs ?_ ?_
        · rw [Look.printed, if_neg hnot]
          rfl
        · rw [Look.kept, if_neg Bool.false_ne_true]
          exact h.vector
      · rw [hstep]
        refine History.snoc h.intervalMs ?_ ?_
        · rw [Look.printed, if_neg hnot]
          rfl
        · rw [Look.kept, if_pos rfl]
          rfl

/-- At each call the state is what the calls before it have left. -/
theorem History.of_looks {frames : List (Nat × Option V)} {l : Look V} {mid rest : List (Look V)}
    (h : History intervalMs before c) (hlooks : looks near c frames = mid ++ l :: rest) :
    History intervalMs (before ++ mid) l.state ∧
      l.state.shouldKeep near l.atMs l.featurePrint = (l.keep, l.next) := by
  induction frames generalizing before c mid with
  | nil =>
    rw [looks] at hlooks
    exact absurd (congrArg List.length hlooks) (by simp)
  | cons frame frames ih =>
    obtain ⟨nowMs, featurePrint⟩ := frame
    cases mid with
    | nil =>
      obtain ⟨rfl, -⟩ := List.cons.inj hlooks
      rw [List.append_nil]
      exact ⟨h, rfl⟩
    | cons first mid =>
      obtain ⟨rfl, hrest⟩ := List.cons.inj hlooks
      have hnext := ih (h.step nowMs featurePrint) hrest
      rwa [List.append_assoc, List.singleton_append] at hnext

theorem history_new (intervalMs : Nat) :
    History (max intervalMs 1) ([] : List (Look V)) (.new intervalMs) := ⟨rfl, rfl, rfl⟩

theorem map_atMs_looks (near : V → V → Bool) (c : ChangeDetector V)
    (frames : List (Nat × Option V)) : (looks near c frames).map Look.atMs = frames.map Prod.fst := by
  induction frames generalizing c with
  | nil => rfl
  | cons frame frames ih =>
    rw [looks, List.map_cons, ih, List.map_cons]

end History

/-! ## What is kept -/

section Kept

variable {near : V → V → Bool} {intervalMs : Nat} {frames : List (Nat × Option V)}
  {before after : List (Look V)} {l : Look V}

theorem lastPrinted_mem {p : Nat × V} (h : lastPrinted before = some p) :
    ∃ k ∈ before, k.atMs = p.1 := by
  obtain ⟨k, hk, hprinted⟩ := List.mem_filterMap.mp (List.mem_of_getLast? h)
  rw [Look.printed] at hprinted
  split at hprinted
  · cases hprinted
  · obtain ⟨v, -, rfl⟩ := Option.map_eq_some_iff.mp hprinted
    exact ⟨k, hk, rfl⟩

/-- What a frame is compared with: the interval from the last print, and the last frame
that was kept. -/
theorem keep_cases (h : History intervalMs before l.state)
    (hstep : l.state.shouldKeep near l.atMs l.featurePrint = (l.keep, l.next))
    (hle : ∀ k ∈ before, k.atMs ≤ l.atMs) {v : V} (hv : l.featurePrint = some v) :
    (l.keep = false ∧ l.next = l.state ∧
        ∃ p, lastPrinted before = some p ∧ l.atMs - p.1 < intervalMs) ∨
      (l.printed = some (l.atMs, v) ∧
        (∀ p, lastPrinted before = some p → p.1 + intervalMs ≤ l.atMs) ∧
        (l.keep = true ↔ ∀ k, lastKept before = some k → near v k.2 = false)) := by
  have hclock : ∀ p, lastPrinted before = some p →
      l.state.lastSampleMs = some p.1 ∧ p.1 ≤ l.atMs := by
    intro p hp
    obtain ⟨k, hk, hat⟩ := lastPrinted_mem hp
    exact ⟨by rw [h.sample, hp]; rfl, by rw [← hat]; exact hle k hk⟩
  rw [hv] at hstep
  cases hsoon : l.state.tooSoon l.atMs with
  | true =>
    rw [shouldKeep_of_tooSoon hsoon, Prod.mk.injEq] at hstep
    refine .inl ⟨hstep.1.symm, hstep.2.symm, ?_⟩
    cases hprinted : lastPrinted before with
    | none =>
      rw [ChangeDetector.tooSoon, h.sample, hprinted] at hsoon
      cases hsoon
    | some p =>
      obtain ⟨hsample, -⟩ := hclock p hprinted
      rw [ChangeDetector.tooSoon, hsample] at hsoon
      simp only [Bool.and_eq_true, decide_eq_true_eq, h.intervalMs] at hsoon
      exact ⟨p, rfl, hsoon.2⟩
  | false =>
    have hnot : ¬ l.state.tooSoon l.atMs = true := by rw [hsoon]; exact Bool.false_ne_true
    refine .inr ⟨?_, fun p hp => ?_, ?_⟩
    · rw [Look.printed, if_neg hnot, hv]
      rfl
    · obtain ⟨hsample, hpast⟩ := hclock p hp
      have hinterval := tooSoon_eq_false_iff.mp hsoon p.1 hsample hpast
      rwa [h.intervalMs] at hinterval
    · rcases @shouldKeep_some V near l.state l.atMs v hsoon with
        ⟨⟨prev, hprev, hnear⟩, hresult⟩ | ⟨hfar, hresult⟩
      · rw [hresult, Prod.mk.injEq] at hstep
        rw [h.vector] at hprev
        obtain ⟨k, hk, rfl⟩ := Option.map_eq_some_iff.mp hprev
        rw [← hstep.1]
        exact ⟨fun hfalse => absurd hfalse Bool.false_ne_true, fun hall => by
          rw [hall k hk] at hnear
          exact absurd hnear Bool.false_ne_true⟩
      · rw [hresult, Prod.mk.injEq] at hstep
        rw [← hstep.1]
        refine ⟨fun _ k hk => hfar k.2 ?_, fun _ => rfl⟩
        rw [h.vector, hk]
        rfl

/-- A call on the way: its history, its result, and the frames before it. -/
theorem call_of_looks (htimes : frames.Pairwise fun a b => a.1 ≤ b.1)
    (hlooks : looks near (.new intervalMs) frames = before ++ l :: after) :
    History (max intervalMs 1) before l.state ∧
      l.state.shouldKeep near l.atMs l.featurePrint = (l.keep, l.next) ∧
      (∀ k ∈ before, k.atMs ≤ l.atMs) ∧ before.Pairwise fun j k => j.atMs ≤ k.atMs := by
  obtain ⟨hhistory, hstep⟩ := (history_new intervalMs).of_looks hlooks
  have hpairwise : (before ++ l :: after).Pairwise fun j k => j.atMs ≤ k.atMs := by
    rw [← hlooks, ← List.pairwise_map, map_atMs_looks, List.pairwise_map]
    exact htimes
  obtain ⟨hbefore, -, hacross⟩ := List.pairwise_append.mp hpairwise
  exact ⟨hhistory, hstep, fun k hk => hacross k hk l List.mem_cons_self, hbefore⟩

/-- The last print is at or after every print. -/
theorem le_lastPrinted (htimes : before.Pairwise fun j k => j.atMs ≤ k.atMs) {k : Look V}
    (hk : k ∈ before) {v : V} (hprinted : k.printed = some (k.atMs, v)) :
    ∃ p, lastPrinted before = some p ∧ k.atMs ≤ p.1 := by
  induction before using List.reverseRecOn with
  | nil => cases hk
  | append_singleton before last ih =>
    rw [lastPrinted, getLast?_filterMap_concat]
    obtain ⟨hbefore, -, hacross⟩ := List.pairwise_append.mp htimes
    rw [List.mem_append, List.mem_singleton] at hk
    cases hlast : last.printed with
    | some p =>
      have hat : p.1 = last.atMs := by
        rw [Look.printed] at hlast
        split at hlast
        · cases hlast
        · obtain ⟨w, -, rfl⟩ := Option.map_eq_some_iff.mp hlast
          rfl
      refine ⟨p, rfl, ?_⟩
      rw [hat]
      rcases hk with hk | rfl
      · exact hacross k hk last List.mem_cons_self
      · exact Nat.le_refl _
    | none =>
      rcases hk with hk | rfl
      · exact ih hbefore hk
      · rw [hlast] at hprinted
        cases hprinted

theorem printed_of_keep (htimes : frames.Pairwise fun a b => a.1 ≤ b.1)
    (hlooks : looks near (.new intervalMs) frames = before ++ l :: after) (hkeep : l.keep = true) :
    ∃ v, l.featurePrint = some v ∧ l.printed = some (l.atMs, v) ∧
      (∀ p, lastPrinted before = some p → p.1 + max intervalMs 1 ≤ l.atMs) ∧
      ∀ k, lastKept before = some k → near v k.2 = false := by
  obtain ⟨hhistory, hstep, hle, -⟩ := call_of_looks htimes hlooks
  cases hv : l.featurePrint with
  | none =>
    rw [hv, shouldKeep_none, Prod.mk.injEq, hkeep] at hstep
    cases hstep.1
  | some v =>
    rcases keep_cases hhistory hstep hle hv with ⟨hfalse, -⟩ | ⟨hprinted, hinterval, hiff⟩
    · rw [hkeep] at hfalse
      cases hfalse
    · exact ⟨v, rfl, hprinted, hinterval, hiff.mp hkeep⟩

end Kept

/-- Over every sequence of frames whose times do not go back. -/
theorem changeDetector_spec (distance : V → V → Single) (threshold : Single) (intervalMs : Nat)
    (frames : List (Nat × Option V)) (htimes : frames.Pairwise fun a b => a.1 ≤ b.1)
    (before : List (Look V)) (l : Look V) (after : List (Look V))
    (hlooks : looks (nearBelow distance threshold) (.new intervalMs) frames =
      before ++ l :: after) :
    (l.keep = true →
      (∀ k ∈ before, k.keep = true → k.atMs + max intervalMs 1 ≤ l.atMs) ∧
        ∃ v, l.featurePrint = some v ∧
          ∀ k, lastKept before = some k → ¬ (distance v k.2).lt threshold = true) ∧
      ((∀ k ∈ before, k.featurePrint = none) → l.featurePrint ≠ none → l.keep = true) ∧
      (l.featurePrint = none → l.keep = false ∧ l.next = l.state) ∧
      (∀ v, l.featurePrint = some v → l.keep = false →
        (∃ p, lastPrinted before = some p ∧ l.atMs - p.1 < max intervalMs 1) ∨
          ∃ k, lastKept before = some k ∧ (distance v k.2).lt threshold = true) := by
  obtain ⟨hhistory, hstep, hle, hpairwise⟩ := call_of_looks htimes hlooks
  refine ⟨fun hkeep => ?_, fun hnone hsome => ?_, fun hnone => ?_, fun v hv hskip => ?_⟩
  · obtain ⟨v, hv, -, hinterval, hfar⟩ := printed_of_keep htimes hlooks hkeep
    refine ⟨fun k hk hkept => ?_, v, hv, fun k hk => ?_⟩
    · obtain ⟨front, back, rfl⟩ := List.append_of_mem hk
      rw [List.append_assoc, List.cons_append] at hlooks
      obtain ⟨w, -, hprinted, -⟩ := printed_of_keep htimes hlooks hkept
      obtain ⟨p, hp, hpast⟩ := le_lastPrinted hpairwise hk hprinted
      have hfromLast := hinterval p hp
      omega
    · rw [← nearBelow, hfar k hk]
      exact Bool.false_ne_true
  · -- without a print there is nothing to compare with
    cases hv : l.featurePrint with
    | none => exact absurd hv hsome
    | some v =>
      have hprinted : lastPrinted before = none := by
        cases hlast : lastPrinted before with
        | none => rfl
        | some p =>
          obtain ⟨k, hk, hkprinted⟩ := List.mem_filterMap.mp (List.mem_of_getLast? hlast)
          rw [Look.printed, hnone k hk] at hkprinted
          split at hkprinted <;> cases hkprinted
      have hkept : lastKept before = none := by
        cases hlast : lastKept before with
        | none => rfl
        | some p =>
          obtain ⟨k, hk, hkkept⟩ := List.mem_filterMap.mp (List.mem_of_getLast? hlast)
          rw [Look.kept, hnone k hk] at hkkept
          split at hkkept <;> cases hkkept
      rcases keep_cases hhistory hstep hle hv with ⟨-, -, p, hp, -⟩ | ⟨-, -, hiff⟩
      · rw [hprinted] at hp
        cases hp
      · refine hiff.mpr fun k hk => ?_
        rw [hkept] at hk
        cases hk
  · rw [hnone, shouldKeep_none, Prod.mk.injEq] at hstep
    exact ⟨hstep.1.symm, hstep.2.symm⟩
  · rcases keep_cases hhistory hstep hle hv with ⟨-, -, p, hp, hwithin⟩ | ⟨-, -, hiff⟩
    · exact .inl ⟨p, hp, hwithin⟩
    · refine .inr ?_
      by_contra hno
      have hkeep : l.keep = true := by
        refine hiff.mpr fun k hk => ?_
        rw [← Bool.not_eq_true]
        exact fun hnear => hno ⟨k, hk, hnear⟩
      rw [hskip] at hkeep
      cases hkeep

/-- Prints are alike or far from each other. -/
def distinct (a b : Nat) : Single := if a = b then .finite 0 else .finite 1

/-- A frame without a print, one that is kept, and one right after it. -/
def shownFrames : List (Nat × Option Nat) := [(0, none), (5, some 1), (9, some 2)]

def shownLooks : List (Look Nat) :=
  [⟨0, none, .new 10, false, .new 10⟩, ⟨5, some 1, .new 10, true, ⟨10, some 5, some 1⟩⟩]

theorem changeDetector_spec_shownFrames :
    (∃ p, lastPrinted shownLooks = some p ∧ 9 - p.1 < max 10 1) ∨
      ∃ k, lastKept shownLooks = some k ∧ (distinct 2 k.2).lt (.finite (3 / 20)) = true :=
  (changeDetector_spec distinct (.finite (3 / 20)) 10 shownFrames (by decide) shownLooks
    ⟨9, some 2, ⟨10, some 5, some 1⟩, false, ⟨10, some 5, some 1⟩⟩ [] rfl).2.2.2 2 rfl rfl

end Capture
end Panops
