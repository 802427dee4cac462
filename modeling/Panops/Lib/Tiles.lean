import Panops.Lib.Runs

/-!
# Tilings of an interval

When the list that is split into runs is `0, …, n - 1`, a run is an interval and
the split is known from the positions where it cuts.  `Tiles cutAt n lo gs`
says that the intervals `gs` cover `lo, …, n - 1` and are cut exactly at the
positions of `cutAt`.
-/

namespace Panops
namespace Lib

open Runs

inductive Tiles (cutAt : Nat → Prop) (n : Nat) : Nat → List (List Nat) → Prop
  | nil : Tiles cutAt n n []
  | cons {lo hi : Nat} {gs : List (List Nat)} :
      lo < hi → (∀ k, lo < k → k < hi → ¬ cutAt k) → (hi = n ∨ hi < n ∧ cutAt hi) →
      Tiles cutAt n hi gs → Tiles cutAt n lo (List.range' lo (hi - lo) :: gs)

namespace Tiles

variable {cutAt : Nat → Prop} {n : Nat}

/-- One tile covers everything that is left. -/
theorem single {lo : Nat} (hlo : lo < n) (hinside : ∀ k, lo < k → k < n → ¬ cutAt k) :
    Tiles cutAt n lo [List.range' lo (n - lo)] :=
  .cons hlo hinside (Or.inl rfl) .nil

theorem range'_append_self {lo i : Nat} (h : lo ≤ i) :
    List.range' lo (i - lo) ++ [i] = List.range' lo (i + 1 - lo) := by
  rw [show i + 1 - lo = i - lo + 1 by omega, List.range'_concat]
  congr 2
  omega

/-! ## Runs of an interval -/

section

variable {cut : List Nat → Nat → Bool} {P : List Nat → Prop}
  (hsingle : ∀ i, P [i])
  (hjoin : ∀ run i, P run → cut run i = false → P (run ++ [i]))
  (hagree : ∀ lo i, lo < i → i < n → (lo = 0 ∨ cutAt lo) →
    (∀ k, lo < k → k < i → ¬ cutAt k) → P (List.range' lo (i - lo)) →
    (cut (List.range' lo (i - lo)) i = true ↔ cutAt i))

include hsingle hjoin hagree

theorem of_runsFrom {m : Nat} : ∀ lo i : Nat, i + m = n → lo < i → (lo = 0 ∨ cutAt lo) →
    (∀ k, lo < k → k < i → ¬ cutAt k) → P (List.range' lo (i - lo)) →
    Tiles cutAt n lo (runsFrom cut (List.range' lo (i - lo)) (List.range' i m)) := by
  induction m with
  | zero =>
    intro lo i hn hlo _ hinside _
    obtain rfl : i = n := by omega
    exact single hlo hinside
  | succ m ih =>
    intro lo i hn hlo hopens hinside hP
    rw [List.range'_succ]
    have hiff := hagree lo i hlo (by omega) hopens hinside hP
    cases h : cut (List.range' lo (i - lo)) i with
    | true =>
      have hcut : cutAt i := hiff.mp h
      rw [runsFrom_cons_of_cut h]
      refine .cons hlo hinside (Or.inr ⟨by omega, hcut⟩) ?_
      have hnext := ih i (i + 1) (by omega) (by omega) (Or.inr hcut)
        (fun k hk hk' => by omega) (by simpa using hsingle i)
      simpa using hnext
    | false =>
      rw [runsFrom_cons_of_not_cut h, range'_append_self (Nat.le_of_lt hlo)]
      refine ih lo (i + 1) (by omega) (by omega) hopens ?_ ?_
      · intro k hk hk'
        by_cases hki : k = i
        · subst hki
          exact fun hcut => by simp [hiff.mpr hcut] at h
        · exact hinside k hk (by omega)
      · rw [← range'_append_self (Nat.le_of_lt hlo)]
        exact hjoin _ _ hP h

/-- A split whose test agrees with `cutAt` on the runs that occur cuts exactly
at the positions of `cutAt`. -/
theorem of_runs : Tiles cutAt n 0 (runs cut (List.range n)) := by
  cases n with
  | zero => exact .nil
  | succ m =>
    have hfrom := of_runsFrom hsingle hjoin hagree 0 1 (Nat.add_comm 1 m)
      (by omega) (Or.inl rfl) (fun k hk hk' => by omega) (by simpa using hsingle 0)
    rw [List.range_eq_range', List.range'_succ]
    exact hfrom

end

/-! ## Absorbing short tiles -/

/-- The cuts that survive when the tiles `short` rejects are joined to the tile
before. -/
def Kept (cutAt : Nat → Prop) (n : Nat) (short : List Nat → Bool) (k : Nat) : Prop :=
  cutAt k ∧ ∃ hi, k < hi ∧ (∀ i, k < i → i < hi → ¬ cutAt i) ∧ (hi = n ∨ hi < n ∧ cutAt hi) ∧
    short (List.range' k (hi - k)) = false

/-- A position has at most one tile that starts there. -/
theorem hi_unique {lo hi hi' : Nat} (h : lo < hi) (hinside : ∀ k, lo < k → k < hi → ¬ cutAt k)
    (hcloses : hi = n ∨ hi < n ∧ cutAt hi) (h' : lo < hi')
    (hinside' : ∀ k, lo < k → k < hi' → ¬ cutAt k) (hcloses' : hi' = n ∨ hi' < n ∧ cutAt hi') :
    hi = hi' := by
  rcases Nat.lt_trichotomy hi hi' with hlt | heq | hlt
  · have hcut : cutAt hi := by
      rcases hcloses with rfl | hcloses
      · omega
      · exact hcloses.2
    exact absurd hcut (hinside' hi h hlt)
  · exact heq
  · have hcut : cutAt hi' := by
      rcases hcloses' with rfl | hcloses'
      · omega
      · exact hcloses'.2
    exact absurd hcut (hinside hi' h' hlt)

theorem map_flatten_runsFrom {short : List Nat → Bool} {i : Nat} {gs : List (List Nat)}
    (h : Tiles cutAt n i gs) :
    ∀ {lo : Nat} {run : List (List Nat)}, lo < i → run.flatten = List.range' lo (i - lo) →
      (i = n ∨ i < n ∧ cutAt i) → (∀ k, lo < k → k < i → ¬ Kept cutAt n short k) →
      Tiles (Kept cutAt n short) n lo
        ((runsFrom (fun _ g => !short g) run gs).map List.flatten) := by
  induction h with
  | nil =>
    intro lo run hlo hrun _ hinside
    rw [runsFrom_nil, List.map_cons, List.map_nil, hrun]
    exact single hlo hinside
  | @cons i hi gs hlt hins hcloses _ ih =>
    intro lo run hlo hrun hopens hinside
    have hcut : cutAt i := by
      rcases hopens with rfl | hopens
      · omega
      · exact hopens.2
    cases hshort : short (List.range' i (hi - i)) with
    | true =>
      rw [runsFrom_cons_of_not_cut (by simp [hshort])]
      refine ih (by omega) ?_ hcloses ?_
      · have happend : List.range' lo (i - lo) ++ List.range' i (hi - i) =
            List.range' lo (hi - lo) := by
          have := List.range'_append_1 (s := lo) (m := i - lo) (n := hi - i)
          rw [show lo + (i - lo) = i by omega, show i - lo + (hi - i) = hi - lo by omega] at this
          exact this
        simp [hrun, happend]
      · intro k hk hk' hkept
        obtain ⟨hcutk, hi', hlt', hins', hcloses', hlong⟩ := hkept
        rcases Nat.lt_trichotomy k i with hki | hki | hki
        · exact hinside k hk hki ⟨hcutk, hi', hlt', hins', hcloses', hlong⟩
        · subst hki
          obtain rfl := hi_unique hlt hins hcloses hlt' hins' hcloses'
          simp [hshort] at hlong
        · exact hins k hki hk' hcutk
    | false =>
      rw [runsFrom_cons_of_cut (by simp [hshort]), List.map_cons, hrun]
      have hkept : Kept cutAt n short i := ⟨hcut, hi, hlt, hins, hcloses, hshort⟩
      refine .cons hlo hinside (Or.inr ⟨by omega, hkept⟩) ?_
      exact ih hlt (by simp) hcloses fun k hk hk' hkept' => hins k hk hk' hkept'.1

/-- Absorbing keeps a tiling and removes the cuts in front of short tiles. -/
theorem absorb (short : List Nat → Bool) {gs : List (List Nat)} (h : Tiles cutAt n 0 gs) :
    Tiles (Kept cutAt n short) n 0 (Runs.absorb short gs) := by
  cases h with
  | nil => exact .nil
  | cons hlt hinside hcloses hrest =>
    exact map_flatten_runsFrom hrest hlt (by simp) hcloses
      fun k hk hk' hkept => hinside k hk hk' hkept.1

/-! ## Reading a tiling -/

theorem mem_bounds {lo : Nat} {gs : List (List Nat)} (h : Tiles cutAt n lo gs) :
    ∀ g ∈ gs, ∀ j ∈ g, g.headD 0 ≤ j ∧ j < n := by
  induction h with
  | nil => simp
  | @cons lo hi gs hlt _ hcloses _ ih =>
    intro g hg j hj
    rcases List.mem_cons.mp hg with rfl | hg
    · have hj' := List.mem_range'_1.mp hj
      rw [show hi - lo = hi - lo - 1 + 1 by omega, List.range'_succ, List.headD_cons]
      omega
    · exact ih g hg j hj

/-- `j` lies in a tile that ends with `l`. -/
theorem exists_mem_getLast_iff {lo : Nat} {gs : List (List Nat)} (h : Tiles cutAt n lo gs)
    {j l : Nat} :
    (∃ g ∈ gs, j ∈ g ∧ g.getLast? = some l) ↔
      lo ≤ j ∧ j ≤ l ∧ l < n ∧ (l + 1 = n ∨ cutAt (l + 1)) ∧
        ∀ k, j < k → k ≤ l → ¬ cutAt k := by
  induction h with
  | nil =>
    simp only [List.not_mem_nil, false_and, exists_false, false_iff]
    omega
  | @cons lo hi gs hlt hinside hcloses _ ih =>
    have hlast : (List.range' lo (hi - lo)).getLast? = some (hi - 1) := by
      rw [show hi - lo = hi - 1 - lo + 1 by omega, List.range'_concat]
      simp
      omega
    constructor
    · intro hmem
      obtain ⟨g, hg, hj, hl⟩ := hmem
      rcases List.mem_cons.mp hg with rfl | hg
      · obtain rfl : hi - 1 = l := by simpa [hlast] using hl
        have hrange := List.mem_range'_1.mp hj
        refine ⟨by omega, by omega, by omega, ?_, fun k hk hk' => hinside k (by omega) (by omega)⟩
        rw [Nat.sub_add_cancel (by omega)]
        exact hcloses.imp id And.right
      · obtain ⟨hlo, hrest⟩ := ih.mp ⟨g, hg, hj, hl⟩
        exact ⟨by omega, hrest⟩
    · intro hspec
      obtain ⟨hlo, hjl, hln, hend, hins⟩ := hspec
      by_cases hj : j < hi
      · -- the tile that holds `j` ends at the first cut after it
        have hl : l = hi - 1 := by
          have hnot : ¬ hi ≤ l := fun hle => by
            rcases hcloses with rfl | hcloses
            · omega
            · exact hins hi hj hle hcloses.2
          by_cases heq : l = hi - 1
          · exact heq
          · rcases hend with hend | hend
            · omega
            · exact absurd hend (hinside (l + 1) (by omega) (by omega))
        subst hl
        exact ⟨_, List.mem_cons_self, List.mem_range'_1.mpr (by omega), hlast⟩
      · obtain ⟨g, hg, hmem⟩ := ih.mpr ⟨by omega, hjl, hln, hend, hins⟩
        exact ⟨g, List.mem_cons_of_mem _ hg, hmem⟩

/-- Every tile but the first starts at a cut, and has no cut inside. -/
theorem head_of_mem {lo : Nat} {gs : List (List Nat)} (h : Tiles cutAt n lo gs)
    (hlo : lo = n ∨ cutAt lo) :
    ∀ g ∈ gs, ∃ k hi, k < hi ∧ hi ≤ n ∧ g = List.range' k (hi - k) ∧ cutAt k ∧
      (hi = n ∨ cutAt hi) := by
  induction h with
  | nil => simp
  | @cons lo hi gs hlt hinside hcloses _ ih =>
    intro g hg
    have hend : hi = n ∨ cutAt hi := hcloses.imp id And.right
    rcases List.mem_cons.mp hg with rfl | hg
    · rcases hlo with rfl | hlo
      · omega
      · exact ⟨lo, hi, hlt, by omega, rfl, hlo, hend⟩
    · exact ih hend g hg

theorem head_of_mem_tail {lo : Nat} {gs : List (List Nat)} (h : Tiles cutAt n lo gs) :
    ∀ g ∈ gs.tail, ∃ k hi, k < hi ∧ hi ≤ n ∧ g = List.range' k (hi - k) ∧ cutAt k ∧
      (hi = n ∨ cutAt hi) := by
  cases h with
  | nil => simp
  | cons _ _ hcloses hrest => exact head_of_mem hrest (hcloses.imp id And.right)

end Tiles
end Lib
end Panops
