import Mathlib.Data.List.Basic

/-!
# Searching from a position

The first place from a position on at which a pattern stands, up to a relation
between characters.
-/

namespace Panops
namespace Lib
namespace Search

variable {α : Type}

def startsWith (same : α → α → Bool) : List α → List α → Bool
  | [], _ => true
  | _ :: _, [] => false
  | p :: pat, c :: s => same p c && startsWith same pat s

/-- `s` begins at position `pos` of the text. -/
def search (same : α → α → Bool) (pat : List α) : Nat → List α → Option Nat
  | pos, [] => if startsWith same pat [] then some pos else none
  | pos, c :: s =>
    if startsWith same pat (c :: s) then some pos else search same pat (pos + 1) s

/-- Where a piece of the text begins, and where what is behind it begins. -/
structure Span where
  lower : Nat
  upper : Nat
deriving DecidableEq

def rangeOf (same : α → α → Bool) (pat text : List α) (start : Nat) : Option Span :=
  (search same pat start (text.drop start)).map fun lower => ⟨lower, lower + pat.length⟩

def slice (text : List α) (lower upper : Nat) : List α := (text.take upper).drop lower

variable {same : α → α → Bool} {pat text s : List α} {start pos lower : Nat} {r : Span}

theorem length_le_of_startsWith (h : startsWith same pat s = true) : pat.length ≤ s.length := by
  induction pat generalizing s with
  | nil => exact Nat.zero_le _
  | cons p pat ih =>
    cases s with
    | nil => cases h
    | cons c s =>
      have hrest := ih (Bool.and_eq_true_iff.mp h).2
      simp only [List.length_cons]
      omega

theorem search_bounds (h : search same pat pos s = some lower) :
    pos ≤ lower ∧ lower + pat.length ≤ pos + s.length := by
  induction s generalizing pos with
  | nil =>
    unfold search at h
    split at h
    · next hstart =>
      have hlength := length_le_of_startsWith hstart
      obtain rfl := Option.some.inj h
      rw [List.length_nil] at hlength ⊢
      omega
    · cases h
  | cons c s ih =>
    unfold search at h
    split at h
    · next hstart =>
      have hlength := length_le_of_startsWith hstart
      obtain rfl := Option.some.inj h
      omega
    · have hrest := ih h
      rw [List.length_cons]
      omega

theorem rangeOf_bounds (h : rangeOf same pat text start = some r) (hstart : start ≤ text.length) :
    start ≤ r.lower ∧ r.upper = r.lower + pat.length ∧ r.upper ≤ text.length := by
  obtain ⟨lower, hlower, rfl⟩ := Option.map_eq_some_iff.mp h
  have hbounds := search_bounds hlower
  rw [List.length_drop] at hbounds
  show start ≤ lower ∧ lower + pat.length = lower + pat.length ∧ lower + pat.length ≤ text.length
  omega

end Search
end Lib
end Panops
