import Mathlib.Data.List.Induction
import Mathlib.Data.List.Nodup

/-!
# Numbering by first appearance

Keys get the numbers 0, 1, 2, … in the order in which they are first met.
-/

namespace Panops
namespace Lib
namespace Numbering

variable {κ : Type} [DecidableEq κ]

/-- The keys met so far, each once, in the order of their first appearance. -/
def meet (seen : List κ) (k : κ) : List κ := if k ∈ seen then seen else seen ++ [k]

def firsts (ks : List κ) : List κ := ks.foldl meet []

variable {ks seen : List κ} {k : κ}

theorem firsts_concat (ks : List κ) (k : κ) : firsts (ks ++ [k]) = meet (firsts ks) k := by
  rw [firsts, List.foldl_append]
  rfl

theorem mem_meet {k' : κ} : k' ∈ meet seen k ↔ k' ∈ seen ∨ k' = k := by
  unfold meet
  split
  · next hk =>
    constructor
    · exact Or.inl
    · rintro (h | rfl)
      · exact h
      · exact hk
  · simp

theorem nodup_meet (h : seen.Nodup) : (meet seen k).Nodup := by
  unfold meet
  split
  · exact h
  · next hk =>
    rw [← List.concat_eq_append]
    exact h.concat hk

theorem mem_firsts : k ∈ firsts ks ↔ k ∈ ks := by
  induction ks using List.reverseRecOn with
  | nil => exact Iff.rfl
  | append_singleton ks k' ih => rw [firsts_concat, mem_meet, ih, List.mem_append,
      List.mem_singleton]

theorem nodup_firsts (ks : List κ) : (firsts ks).Nodup := by
  induction ks using List.reverseRecOn with
  | nil => exact List.nodup_nil
  | append_singleton ks k ih =>
    rw [firsts_concat]
    exact nodup_meet ih

/-- A key keeps its number while others are met. -/
theorem idxOf_meet {k' : κ} (h : k ∈ seen) : (meet seen k').idxOf k = seen.idxOf k := by
  unfold meet
  split
  · rfl
  · exact List.idxOf_append_of_mem h

/-- When a key is met, all keys of smaller numbers have been met before it. -/
theorem exists_before {i j : Nat} (hi : ks[i]? = some k) (hj : j < (firsts ks).idxOf k) :
    ∃ i' < i, ∃ k', ks[i']? = some k' ∧ (firsts ks).idxOf k' = j := by
  induction ks using List.reverseRecOn generalizing i k with
  | nil => cases hi
  | append_singleton ks k₀ ih =>
    rw [firsts_concat] at hj ⊢
    have hold : ∀ {i : Nat} {k : κ}, ks[i]? = some k → j < (firsts ks).idxOf k →
        ∃ i' < i, ∃ k', (ks ++ [k₀])[i']? = some k' ∧ (meet (firsts ks) k₀).idxOf k' = j := by
      intro i k hi hj
      obtain ⟨i', hlt, k', hk', hidx⟩ := ih hi hj
      have hmem : k' ∈ firsts ks := mem_firsts.mpr (List.mem_of_getElem? hk')
      have hlen : i' < ks.length := (List.getElem?_eq_some_iff.mp hk').1
      exact ⟨i', hlt, k', by rw [List.getElem?_append_left hlen, hk'],
        by rw [idxOf_meet hmem, hidx]⟩
    rcases Nat.lt_or_ge i ks.length with hlen | hlen
    · rw [List.getElem?_append_left hlen] at hi
      have hmem : k ∈ firsts ks := mem_firsts.mpr (List.mem_of_getElem? hi)
      rw [idxOf_meet hmem] at hj
      exact hold hi hj
    · rw [List.getElem?_append_right hlen] at hi
      obtain ⟨hzero, rfl⟩ : i - ks.length = 0 ∧ k₀ = k := by
        obtain ⟨hlt, heq⟩ := List.getElem?_eq_some_iff.mp hi
        rw [List.length_singleton, Nat.lt_one_iff] at hlt
        refine ⟨hlt, ?_⟩
        simpa [hlt] using heq
      by_cases hmem : k₀ ∈ firsts ks
      · -- the key is not new: look where it was met first
        obtain ⟨i₀, hi₀⟩ := List.mem_iff_getElem?.mp (mem_firsts.mp hmem)
        rw [idxOf_meet hmem] at hj
        obtain ⟨i', hlt, hrest⟩ := hold hi₀ hj
        have hlen₀ := (List.getElem?_eq_some_iff.mp hi₀).1
        exact ⟨i', by omega, hrest⟩
      · rw [meet, if_neg hmem] at hj ⊢
        have hlast : (firsts ks ++ [k₀]).idxOf k₀ = (firsts ks).length := by
          rw [List.idxOf_append_of_notMem hmem, List.idxOf_cons_self, Nat.add_zero]
        rw [hlast] at hj
        have hget : (firsts ks)[j]? = some (firsts ks)[j] := List.getElem?_eq_getElem hj
        have hin := mem_firsts.mp (List.mem_of_getElem? hget)
        obtain ⟨i', hi'⟩ := List.mem_iff_getElem?.mp hin
        have hlen' := (List.getElem?_eq_some_iff.mp hi').1
        refine ⟨i', by omega, _, by rw [List.getElem?_append_left hlen', hi'], ?_⟩
        rw [List.idxOf_append_of_mem (List.mem_of_getElem? hget)]
        exact (nodup_firsts ks).idxOf_getElem j hj

end Numbering
end Lib
end Panops
