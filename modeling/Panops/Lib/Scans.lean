import Mathlib.Data.List.Induction
import Mathlib.Order.Lattice

/-!
# The first greatest element

What a loop that keeps the best element so far, and lets a later one replace it only
when it is strictly better, finds at its end.
-/

namespace Panops
namespace Lib
namespace Scans

variable {α β K : Type} [LinearOrder K]

/-- At `k` stands an element with the greatest key, and none before it has that
key. -/
structure FirstMax (key : α → K) (xs : List α) (k : Nat) (x : α) : Prop where
  here : xs[k]? = some x
  greatest : ∀ y ∈ xs, key y ≤ key x
  first : ∀ j y, j < k → xs[j]? = some y → key y < key x

variable {key : α → K} {xs : List α} {k j : Nat} {x y : α}

theorem FirstMax.mem (h : FirstMax key xs k x) : x ∈ xs := List.mem_of_getElem? h.here

theorem FirstMax.lt_length (h : FirstMax key xs k x) : k < xs.length := by
  by_contra hk
  have hnone := List.getElem?_eq_none (Nat.le_of_not_lt hk)
  rw [h.here] at hnone
  cases hnone

/-- There is one such place. -/
theorem FirstMax.unique (h : FirstMax key xs k x) (h' : FirstMax key xs j y) : k = j ∧ x = y := by
  have hkj : k = j := by
    rcases Nat.lt_trichotomy k j with hlt | heq | hlt
    · exact absurd (h'.first k x hlt h.here) (not_lt_of_ge (h.greatest y h'.mem))
    · exact heq
    · exact absurd (h.first j y hlt h'.here) (not_lt_of_ge (h'.greatest x h.mem))
  subst hkj
  exact ⟨rfl, Option.some.inj (h.here.symm.trans h'.here)⟩

/-- A new element that is not better leaves the best one in its place. -/
theorem FirstMax.concat (h : FirstMax key xs k x) (hle : key y ≤ key x) :
    FirstMax key (xs ++ [y]) k x where
  here := by
    rw [List.getElem?_append_left h.lt_length]
    exact h.here
  greatest z hz := by
    rcases List.mem_append.mp hz with hz | hz
    · exact h.greatest z hz
    · rw [List.mem_singleton.mp hz]
      exact hle
  first i z hi hz := by
    rw [List.getElem?_append_left (Nat.lt_trans hi h.lt_length)] at hz
    exact h.first i z hi hz

/-- A new element that is better than all others takes the place. -/
theorem firstMax_concat (h : ∀ x ∈ xs, key x < key y) :
    FirstMax key (xs ++ [y]) xs.length y where
  here := by simp
  greatest z hz := by
    rcases List.mem_append.mp hz with hz | hz
    · exact le_of_lt (h z hz)
    · rw [List.mem_singleton.mp hz]
  first i z hi hz := by
    rw [List.getElem?_append_left hi] at hz
    exact h z (List.mem_of_getElem? hz)

theorem FirstMax.concat_of_lt (h : FirstMax key xs k x) (hlt : key x < key y) :
    FirstMax key (xs ++ [y]) xs.length y :=
  firstMax_concat fun z hz => lt_of_le_of_lt (h.greatest z hz) hlt

/-- Where all keys are the same it is the first element. -/
theorem firstMax_of_const {c : K} (hne : xs ≠ []) (h : ∀ x ∈ xs, key x = c) :
    ∃ x, FirstMax key xs 0 x := by
  cases xs with
  | nil => exact absurd rfl hne
  | cons x rest =>
    refine ⟨x, ⟨rfl, fun y hy => ?_, fun i y hi => absurd hi (Nat.not_lt_zero i)⟩⟩
    rw [h y hy, h x List.mem_cons_self]

theorem FirstMax.map {f : β → α} {ys : List β} {y : β}
    (h : FirstMax (fun y => key (f y)) ys k y) : FirstMax key (ys.map f) k (f y) where
  here := by
    rw [List.getElem?_map, h.here]
    rfl
  greatest z hz := by
    obtain ⟨y', hy', rfl⟩ := List.mem_map.mp hz
    exact h.greatest y' hy'
  first i z hi hz := by
    rw [List.getElem?_map] at hz
    obtain ⟨y', hy', rfl⟩ := Option.map_eq_some_iff.mp hz
    exact h.first i y' hi hy'

theorem FirstMax.of_map {f : β → α} {ys : List β} (h : FirstMax key (ys.map f) k x) :
    ∃ y, f y = x ∧ FirstMax (fun y => key (f y)) ys k y := by
  have hhere := h.here
  rw [List.getElem?_map] at hhere
  obtain ⟨y, hy, rfl⟩ := Option.map_eq_some_iff.mp hhere
  refine ⟨y, rfl, hy, fun z hz => h.greatest (f z) (List.mem_map_of_mem hz), ?_⟩
  intro i z hi hz
  refine h.first i (f z) hi ?_
  rw [List.getElem?_map, hz]
  rfl

end Scans
end Lib
end Panops
