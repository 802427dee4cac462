import Mathlib.Data.List.Forall2
import Mathlib.Data.Set.Insert
import Mathlib.Order.MinMax

/-!
# Intervals pushed apart

A list of half-open intervals is made free of overlaps by moving every start behind the
end before it.  What is taken from an interval was covered already, as long as the
starts do not go down.
-/

namespace Panops
namespace Lib
namespace Pushing

variable {τ : Type} [LinearOrder τ]

/-- What is left of an interval behind `prev`; empty, at its start, when nothing is. -/
def push (prev : τ) (raw : τ × τ) : τ × τ :=
  (max raw.1 prev, max (max raw.1 prev) raw.2)

def pushAll : τ → List (τ × τ) → List (τ × τ)
  | _, [] => []
  | prev, raw :: raws => push prev raw :: pushAll (push prev raw).2 raws

/-- The end of the last interval. -/
def lastEnd : τ → List (τ × τ) → τ
  | prev, [] => prev
  | prev, raw :: raws => lastEnd (push prev raw).2 raws

def interval (x : τ × τ) : Set τ := {t | x.1 ≤ t ∧ t < x.2}

/-- The union of the intervals. -/
def union (xs : List (τ × τ)) : Set τ := {t | ∃ x ∈ xs, t ∈ interval x}

variable {prev lo : τ} {raw x : τ × τ} {raws : List (τ × τ)} {known : Set τ}

theorem pushAll_append (prev : τ) (xs ys : List (τ × τ)) :
    pushAll prev (xs ++ ys) = pushAll prev xs ++ pushAll (lastEnd prev xs) ys := by
  induction xs generalizing prev with
  | nil => rfl
  | cons x xs ih => exact congrArg (push prev x :: ·) (ih (push prev x).2)

theorem lastEnd_append (prev : τ) (xs ys : List (τ × τ)) :
    lastEnd prev (xs ++ ys) = lastEnd (lastEnd prev xs) ys := by
  induction xs generalizing prev with
  | nil => rfl
  | cons x xs ih => exact ih (push prev x).2

/-! ## Order -/

theorem push_ordered (prev : τ) (raw : τ × τ) : (push prev raw).1 ≤ (push prev raw).2 :=
  le_max_left _ _

theorem le_push (prev : τ) (raw : τ × τ) : prev ≤ (push prev raw).1 :=
  le_max_right _ _

theorem le_push_end (prev : τ) (raw : τ × τ) : prev ≤ (push prev raw).2 :=
  le_trans (le_push prev raw) (push_ordered prev raw)

/-- An interval that is not empty lies inside what it was. -/
theorem push_inside (prev : τ) (raw : τ × τ) :
    (push prev raw).1 = (push prev raw).2 ∨
      raw.1 ≤ (push prev raw).1 ∧ (push prev raw).2 ≤ raw.2 := by
  rcases le_total raw.2 (max raw.1 prev) with h | h
  · exact Or.inl (max_eq_left h).symm
  · refine Or.inr ⟨le_max_left _ _, ?_⟩
    rw [push, max_eq_right h]

theorem le_of_mem_pushAll (hx : x ∈ pushAll prev raws) : prev ≤ x.1 := by
  induction raws generalizing prev with
  | nil => simp [pushAll] at hx
  | cons raw raws ih =>
    rcases List.mem_cons.mp hx with rfl | hx
    · exact le_push prev raw
    · exact le_trans (le_push_end prev raw) (ih hx)

/-- Every interval begins behind the ends of all before it. -/
theorem pairwise_pushAll (prev : τ) (raws : List (τ × τ)) :
    (pushAll prev raws).Pairwise fun x y => x.2 ≤ y.1 := by
  induction raws generalizing prev with
  | nil => exact List.Pairwise.nil
  | cons raw raws ih =>
    exact List.pairwise_cons.mpr ⟨fun y hy => le_of_mem_pushAll hy, ih _⟩

theorem ordered_of_mem_pushAll (hx : x ∈ pushAll prev raws) : x.1 ≤ x.2 := by
  induction raws generalizing prev with
  | nil => simp [pushAll] at hx
  | cons raw raws ih =>
    rcases List.mem_cons.mp hx with rfl | hx
    · exact push_ordered prev raw
    · exact ih hx

theorem le_lastEnd (prev : τ) (raws : List (τ × τ)) : prev ≤ lastEnd prev raws := by
  induction raws generalizing prev with
  | nil => exact le_refl prev
  | cons raw raws ih => exact le_trans (le_push_end prev raw) (ih _)

theorem le_lastEnd_of_mem (hx : x ∈ pushAll prev raws) : x.2 ≤ lastEnd prev raws := by
  induction raws generalizing prev with
  | nil => simp [pushAll] at hx
  | cons raw raws ih =>
    rcases List.mem_cons.mp hx with rfl | hx
    · exact le_lastEnd _ raws
    · exact ih hx

theorem forall₂_pushAll_inside (prev : τ) (raws : List (τ × τ)) :
    List.Forall₂ (fun raw x => x.1 = x.2 ∨ raw.1 ≤ x.1 ∧ x.2 ≤ raw.2) raws
      (pushAll prev raws) := by
  induction raws generalizing prev with
  | nil => exact .nil
  | cons raw raws ih => exact .cons (push_inside prev raw) (ih _)

/-! ## Coverage -/

theorem union_cons (x : τ × τ) (xs : List (τ × τ)) : union (x :: xs) = interval x ∪ union xs := by
  ext t
  simp [union]

/-- `known` covers what lies between `lo` and the running end. -/
def CoversFrom (lo prev : τ) (known : Set τ) : Prop :=
  ∀ t, lo ≤ t → t < prev → t ∈ known

/-- What a push takes away is known. -/
theorem union_push (h : CoversFrom lo prev known) (hlo : lo ≤ raw.1) :
    known ∪ interval (push prev raw) = known ∪ interval raw := by
  ext t
  constructor
  · rintro (ht | ⟨hstart, hend⟩)
    · exact Or.inl ht
    · rcases push_inside prev raw with hempty | hinside
      · rw [hempty] at hstart
        exact absurd hend (not_lt.mpr hstart)
      · exact Or.inr ⟨le_trans hinside.1 hstart, lt_of_lt_of_le hend hinside.2⟩
  · rintro (ht | ⟨hstart, hend⟩)
    · exact Or.inl ht
    · rcases lt_or_ge t prev with hbefore | hbehind
      · exact Or.inl (h t (le_trans hlo hstart) hbefore)
      · exact Or.inr ⟨max_le hstart hbehind, lt_of_lt_of_le hend (le_max_right _ _)⟩

/-- The running end stays covered from the start that was pushed last. -/
theorem CoversFrom.push (h : CoversFrom lo prev known) (hlo : lo ≤ raw.1) :
    CoversFrom raw.1 (push prev raw).2 (known ∪ interval raw) := by
  intro t hstart hend
  rcases lt_or_ge t prev with hbefore | hbehind
  · exact Or.inl (h t (le_trans hlo hstart) hbefore)
  · refine Or.inr ⟨hstart, ?_⟩
    rcases lt_max_iff.mp hend with hpushed | hraw
    · exact absurd hpushed (not_lt.mpr (max_le hstart hbehind))
    · exact hraw

theorem union_pushAll (h : CoversFrom lo prev known) (hlo : ∀ raw ∈ raws, lo ≤ raw.1)
    (hsorted : raws.Pairwise fun a b => a.1 ≤ b.1) :
    known ∪ union (pushAll prev raws) = known ∪ union raws := by
  induction raws generalizing prev lo known with
  | nil => rfl
  | cons raw raws ih =>
    obtain ⟨hfirst, hrest⟩ := List.pairwise_cons.mp hsorted
    have hraw := hlo raw (List.mem_cons_self ..)
    have hnext := ih (h.push hraw) hfirst hrest
    calc known ∪ union (pushAll prev (raw :: raws))
        = known ∪ interval (Pushing.push prev raw) ∪ union (pushAll _ raws) := by
          rw [pushAll, union_cons, Set.union_assoc]
      _ = known ∪ interval raw ∪ union (pushAll _ raws) := by rw [union_push h hraw]
      _ = known ∪ interval raw ∪ union raws := hnext
      _ = known ∪ union (raw :: raws) := by rw [union_cons, Set.union_assoc]

/-- From the least point on, intervals with starts in order lose nothing. -/
theorem union_pushAll_bot [OrderBot τ] (hsorted : raws.Pairwise fun a b => a.1 ≤ b.1) :
    union (pushAll ⊥ raws) = union raws := by
  have hnone : CoversFrom (⊥ : τ) ⊥ ∅ := fun t _ ht => absurd ht not_lt_bot
  simpa using union_pushAll hnone (fun raw _ => bot_le) hsorted

end Pushing
end Lib
end Panops
