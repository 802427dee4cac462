import Mathlib.Data.List.Basic

/-!
# The first occurrence of a pattern

Where a pattern is found in a buffer that grows.
-/

namespace Panops
namespace Lib
namespace Occurrences

variable {α : Type} [DecidableEq α] {pat : List α}

/-- `buffer.range(of: pattern)`, by its lower bound. -/
def rangeOf (pat : List α) : List α → Option Nat
  | [] => none
  | a :: l => if pat.isPrefixOf (a :: l) then some 0 else (rangeOf pat l).map (· + 1)

theorem rangeOf_cons_here {a : α} {l : List α} (h : pat <+: a :: l) :
    rangeOf pat (a :: l) = some 0 := by
  rw [rangeOf, if_pos (List.isPrefixOf_iff_prefix.mpr h)]

theorem rangeOf_cons_later {a : α} {l : List α} (h : ¬ pat <+: a :: l) :
    rangeOf pat (a :: l) = (rangeOf pat l).map (· + 1) := by
  rw [rangeOf, if_neg (mt List.isPrefixOf_iff_prefix.mp h)]

/-- What is found lies in the buffer. -/
theorem add_length_le_of_rangeOf {l : List α} {i : Nat} (h : rangeOf pat l = some i) :
    i + pat.length ≤ l.length := by
  induction l generalizing i with
  | nil => cases h
  | cons a l ih =>
    by_cases hhere : pat <+: a :: l
    · rw [rangeOf_cons_here hhere] at h
      obtain rfl := Option.some.inj h
      have hlength := hhere.length_le
      omega
    · rw [rangeOf_cons_later hhere] at h
      obtain ⟨j, hj, rfl⟩ := Option.map_eq_some_iff.mp h
      have hlength := ih hj
      rw [List.length_cons]
      omega

/-- It stays the first when more comes. -/
theorem rangeOf_append {l : List α} {i : Nat} (h : rangeOf pat l = some i) (more : List α) :
    rangeOf pat (l ++ more) = some i := by
  induction l generalizing i with
  | nil => cases h
  | cons a l ih =>
    by_cases hhere : pat <+: a :: l
    · rw [rangeOf_cons_here hhere] at h
      rw [← h]
      exact rangeOf_cons_here (hhere.trans (List.prefix_append (a :: l) more))
    · have hlength := add_length_le_of_rangeOf h
      rw [rangeOf_cons_later hhere] at h
      obtain ⟨j, hj, rfl⟩ := Option.map_eq_some_iff.mp h
      have hnot : ¬ pat <+: a :: (l ++ more) := by
        intro hlonger
        apply hhere
        exact List.prefix_of_prefix_length_le hlonger (List.prefix_append (a :: l) more) (by omega)
      rw [List.cons_append, rangeOf_cons_later hnot, ih hj]
      rfl

/-- It is not found before it is there as a whole. -/
theorem rangeOf_take_eq_none {l : List α} {i n : Nat} (h : rangeOf pat l = some i)
    (hn : n < i + pat.length) : rangeOf pat (l.take n) = none := by
  cases hfound : rangeOf pat (l.take n) with
  | none => rfl
  | some j =>
    have hlength := add_length_le_of_rangeOf hfound
    have hall := rangeOf_append hfound (l.drop n)
    rw [List.take_append_drop, h] at hall
    obtain rfl := Option.some.inj hall
    have htake := List.length_take_le n l
    omega

/-- What does not start the pattern is passed over. -/
theorem rangeOf_append_of_not_mem {first : α} {rest front : List α} (hfront : first ∉ front)
    (l : List α) : rangeOf (first :: rest) (front ++ l) =
      (rangeOf (first :: rest) l).map (· + front.length) := by
  induction front with
  | nil => cases hl : rangeOf (first :: rest) l <;> simp [hl]
  | cons a front ih =>
    have hne : first ≠ a := fun heq => hfront (heq ▸ List.mem_cons_self)
    have hnot : ¬ first :: rest <+: a :: (front ++ l) := fun h => hne (List.cons_prefix_cons.mp h).1
    rw [List.cons_append, rangeOf_cons_later hnot,
      ih fun hmem => hfront (List.mem_cons_of_mem a hmem), Option.map_map]
    rfl

end Occurrences
end Lib
end Panops
