import Mathlib.Data.List.Sort
import Mathlib.Data.Prod.Lex

/-!
# Sorting by a key

A list sorted by a key that tells its members apart does not depend on the order
it was given in, nor on whether it was filtered before.
-/

namespace Panops
namespace Lib
namespace Sorting

variable {α β K K' : Type} [LinearOrder K] [LinearOrder K'] {r : α → α → Prop}
  {s : β → β → Prop} {k : α → K} {l : β → K'} {xs ys : List α}

theorem total_of_key (hle : ∀ a b, r a b ↔ k a ≤ k b) : Std.Total r :=
  ⟨fun a b => (le_total (k a) (k b)).imp (hle a b).mpr (hle b a).mpr⟩

theorem trans_of_key (hle : ∀ a b, r a b ↔ k a ≤ k b) : IsTrans α r :=
  ⟨fun a b c hab hbc => (hle a c).mpr (le_trans ((hle a b).mp hab) ((hle b c).mp hbc))⟩

theorem antisymm_of_key (hle : ∀ a b, r a b ↔ k a ≤ k b) {a b : α}
    (hkey : k a = k b → a = b) (hab : r a b) (hba : r b a) : a = b :=
  hkey (le_antisymm ((hle a b).mp hab) ((hle b a).mp hba))

variable [DecidableRel r] [DecidableRel s]

theorem pairwise_insertionSort (hle : ∀ a b, r a b ↔ k a ≤ k b) (xs : List α) :
    (xs.insertionSort r).Pairwise r := by
  have htotal := total_of_key hle
  have htrans := trans_of_key hle
  exact List.pairwise_insertionSort r xs

/-- The order of the input does not matter. -/
theorem insertionSort_perm (hle : ∀ a b, r a b ↔ k a ≤ k b) (hperm : xs.Perm ys)
    (hkey : ∀ a ∈ xs, ∀ b ∈ xs, k a = k b → a = b) :
    xs.insertionSort r = ys.insertionSort r := by
  have hsorted : (xs.insertionSort r).Perm (ys.insertionSort r) :=
    (List.perm_insertionSort r xs).trans (hperm.trans (List.perm_insertionSort r ys).symm)
  refine List.Perm.eq_of_pairwise (fun a b ha hb => ?_) (pairwise_insertionSort hle xs)
    (pairwise_insertionSort hle ys) hsorted
  have ha' : a ∈ xs := (List.mem_insertionSort r).mp ha
  have hb' : b ∈ xs := hperm.mem_iff.mpr ((List.mem_insertionSort r).mp hb)
  exact antisymm_of_key hle (hkey a ha' b hb')

theorem filter_insertionSort (hle : ∀ a b, r a b ↔ k a ≤ k b) (p : α → Bool)
    (hkey : ∀ a ∈ xs.filter p, ∀ b ∈ xs.filter p, k a = k b → a = b) :
    (xs.insertionSort r).filter p = (xs.filter p).insertionSort r := by
  have hperm : ((xs.insertionSort r).filter p).Perm ((xs.filter p).insertionSort r) :=
    ((List.perm_insertionSort r xs).filter p).trans
      (List.perm_insertionSort r (xs.filter p)).symm
  refine List.Perm.eq_of_pairwise (fun a b ha hb => ?_)
    ((pairwise_insertionSort hle xs).filter p) (pairwise_insertionSort hle _) hperm
  have hb' : b ∈ xs.filter p := (List.mem_insertionSort r).mp hb
  have ha' : a ∈ xs.filter p := (List.mem_insertionSort r).mp (hperm.mem_iff.mp ha)
  exact antisymm_of_key hle (hkey a ha' b hb')

/-- Elements that need not be moved keep their order. -/
theorem filter_insertionSort_of_pairwise {p : α → Bool} (h : (xs.filter p).Pairwise r) :
    (xs.insertionSort r).filter p = xs.filter p := by
  have hsub : (xs.filter p).Sublist ((xs.insertionSort r).filter p) := by
    have hkept := (List.sublist_insertionSort h List.filter_sublist).filter p
    simpa only [List.filter_filter, Bool.and_self] using hkept
  exact (hsub.eq_of_length ((List.perm_insertionSort r xs).filter p).length_eq.symm).symm

/-- Rows that stand for values, in whatever order, are sorted like the values if
their keys compare like those of the values. -/
theorem map_insertionSort_perm (hle : ∀ a b, r a b ↔ k a ≤ k b)
    (hle' : ∀ a b, s a b ↔ l a ≤ l b) {f : α → β} {rows : List β}
    (hperm : rows.Perm (xs.map f))
    (hkey : ∀ a ∈ xs, ∀ b ∈ xs, k a = k b → a = b)
    (hmono : ∀ a ∈ xs, ∀ b ∈ xs, k a ≤ k b ↔ l (f a) ≤ l (f b)) :
    rows.insertionSort s = (xs.insertionSort r).map f := by
  rw [List.map_insertionSort r s f xs fun a ha b hb =>
    (hle a b).trans ((hmono a ha b hb).trans (hle' _ _).symm)]
  refine insertionSort_perm hle' hperm fun a ha b hb heq => ?_
  obtain ⟨x, hx, rfl⟩ := List.mem_map.mp (hperm.mem_iff.mp ha)
  obtain ⟨y, hy, rfl⟩ := List.mem_map.mp (hperm.mem_iff.mp hb)
  rw [hkey x hx y hy (le_antisymm ((hmono x hx y hy).mpr heq.le) ((hmono y hy x hx).mpr heq.ge))]

/-- A first key and, where it does not decide, a second. -/
theorem lex_le_iff {L : Type} [LinearOrder L] (f : α → K) (g : α → L) (a b : α) :
    (f a < f b ∨ f a = f b ∧ g a ≤ g b) ↔ toLex (f a, g a) ≤ toLex (f b, g b) :=
  (Prod.Lex.toLex_le_toLex (x := (f a, g a)) (y := (f b, g b))).symm

theorem perm_eq_of_length_le_one {xs ys : List α} (hperm : xs.Perm ys) (h : ys.length ≤ 1) :
    xs = ys := by
  match ys, h with
  | [], _ => exact hperm.eq_nil
  | [y], _ => exact hperm.eq_singleton
  | _ :: _ :: _, h => simp at h

/-- A search with at most one hit does not depend on the order. -/
theorem find?_perm {p : α → Bool} {xs ys : List α} (hperm : xs.Perm ys)
    (hone : ∀ a ∈ xs, ∀ b ∈ xs, p a = true → p b = true → a = b) : xs.find? p = ys.find? p := by
  cases hx : xs.find? p with
  | none =>
    rw [List.find?_eq_none] at hx
    exact (List.find?_eq_none.mpr fun a ha => hx a (hperm.mem_iff.mpr ha)).symm
  | some a =>
    have ha := List.mem_of_find?_eq_some hx
    have hpa := List.find?_some hx
    cases hy : ys.find? p with
    | none =>
      rw [List.find?_eq_none] at hy
      exact absurd hpa (hy a (hperm.mem_iff.mp ha))
    | some b =>
      have hb := hperm.mem_iff.mpr (List.mem_of_find?_eq_some hy)
      rw [hone a ha b hb hpa (List.find?_some hy)]

/-! ## Stability -/

/-- `ys` is `xs` by increasing keys, those with the same key in the order they had. -/
structure Stable (k : α → K) (xs ys : List α) : Prop where
  sorted : ys.Pairwise fun a b => k a ≤ k b
  ties : ∀ t, (ys.filter fun a => k a = t) = xs.filter fun a => k a = t

theorem Stable.mem_iff (h : Stable k xs ys) {a : α} : a ∈ ys ↔ a ∈ xs := by
  have hmem : ∀ zs : List α, a ∈ zs ↔ a ∈ zs.filter fun b => k b = k a := fun zs => by simp
  rw [hmem ys, hmem xs, h.ties]

theorem filter_eq_of_filter_cons_eq {x : α} (hcons : ∀ t, ((x :: ys).filter fun a => k a = t) =
    (x :: xs).filter fun a => k a = t) (t : K) :
    (ys.filter fun a => k a = t) = xs.filter fun a => k a = t := by
  have ht := hcons t
  rw [List.filter_cons, List.filter_cons] at ht
  split at ht
  · exact (List.cons.inj ht).2
  · exact ht

/-- There is one such list. -/
theorem Stable.unique {zs : List α} (hy : Stable k xs ys) (hz : Stable k xs zs) : ys = zs := by
  have hties : ∀ t, (ys.filter fun a => k a = t) = zs.filter fun a => k a = t := fun t =>
    (hy.ties t).trans (hz.ties t).symm
  have hsy := hy.sorted
  have hsz := hz.sorted
  clear hy hz
  induction ys generalizing zs with
  | nil =>
    cases zs with
    | nil => rfl
    | cons z zs =>
      have hz := hties (k z)
      rw [List.filter_cons_of_pos (by simp)] at hz
      cases hz
  | cons y ys ih =>
    cases zs with
    | nil =>
      have hy := hties (k y)
      rw [List.filter_cons_of_pos (by simp)] at hy
      cases hy
    | cons z zs =>
      -- each of the heads is in the other list, so they have the same key
      have hin : ∀ (as bs : List α), (∀ t, (as.filter fun a => k a = t) =
          bs.filter fun a => k a = t) → ∀ a ∈ as, a ∈ bs := fun as bs h a ha => by
        have hmem : a ∈ as.filter fun b => k b = k a := List.mem_filter.mpr ⟨ha, by simp⟩
        rw [h] at hmem
        exact List.mem_of_mem_filter hmem
      have hle : k y ≤ k z := by
        rcases List.mem_cons.mp (hin _ _ (fun t => (hties t).symm) z List.mem_cons_self) with rfl | h
        · exact le_refl _
        · exact List.rel_of_pairwise_cons hsy h
      have hge : k z ≤ k y := by
        rcases List.mem_cons.mp (hin _ _ hties y List.mem_cons_self) with rfl | h
        · exact le_refl _
        · exact List.rel_of_pairwise_cons hsz h
      have hkey := le_antisymm hle hge
      have hheads := hties (k y)
      rw [List.filter_cons_of_pos (by simp), List.filter_cons_of_pos (by simp [hkey])] at hheads
      obtain ⟨rfl, -⟩ := List.cons.inj hheads
      rw [ih (filter_eq_of_filter_cons_eq hties) hsy.of_cons hsz.of_cons]

theorem stable_insertionSort (hle : ∀ a b, r a b ↔ k a ≤ k b) (xs : List α) :
    Stable k xs (xs.insertionSort r) where
  sorted := (pairwise_insertionSort hle xs).imp fun h => (hle _ _).mp h
  ties t := by
    refine filter_insertionSort_of_pairwise (List.pairwise_of_forall_mem_list ?_)
    intro a ha b hb
    have hat : k a = t := by simpa using (List.mem_filter.mp ha).2
    have hbt : k b = t := by simpa using (List.mem_filter.mp hb).2
    rw [hle, hat, hbt]

/-- Members that are met in another order, but those with the same key by their numbers. -/
theorem filter_eq_of_perm {n : α → K'} (hperm : ys.Perm xs)
    (hxs : xs.Pairwise fun a b => n a < n b) (hys : ys.Pairwise fun a b => k a = k b → n a < n b)
    (t : K) : (ys.filter fun a => k a = t) = xs.filter fun a => k a = t := by
  have hties : (ys.filter fun a => k a = t).Pairwise fun a b => n a < n b := by
    refine (hys.filter _).imp_of_mem fun {a b} ha hb hlt => hlt ?_
    have hat : k a = t := by simpa using (List.mem_filter.mp ha).2
    have hbt : k b = t := by simpa using (List.mem_filter.mp hb).2
    rw [hat, hbt]
  exact List.Perm.eq_of_pairwise (fun a b _ _ hab hba => absurd hab (lt_asymm hba)) hties
    (hxs.filter _) (hperm.filter _)

theorem pairwise_of_filter {R : α → α → Prop}
    (h : ∀ t, (ys.filter fun a => k a = t).Pairwise R) :
    ys.Pairwise fun a b => k a = k b → R a b := by
  induction ys with
  | nil => exact List.Pairwise.nil
  | cons y ys ih =>
    refine List.pairwise_cons.mpr ⟨fun b hb hkey => ?_, ih fun t => ?_⟩
    · have hy := h (k y)
      rw [List.filter_cons_of_pos (by simp)] at hy
      exact List.rel_of_pairwise_cons hy (List.mem_filter.mpr ⟨hb, by simp [hkey]⟩)
    · have hsub : (ys.filter fun a => k a = t).Sublist ((y :: ys).filter fun a => k a = t) :=
        (List.sublist_cons_self y ys).filter _
      exact (h t).sublist hsub

theorem Stable.of_filter_eq {zs : List α} (h : Stable k ys zs)
    (hties : ∀ t, (ys.filter fun a => k a = t) = xs.filter fun a => k a = t) : Stable k xs zs :=
  ⟨h.sorted, fun t => (h.ties t).trans (hties t)⟩

/-- What does not change the keys keeps this. -/
theorem Stable.map {f : α → α} (hf : ∀ a, k (f a) = k a) (h : Stable k xs ys) :
    Stable k (xs.map f) (ys.map f) where
  sorted := by
    rw [List.pairwise_map]
    exact h.sorted.imp fun hab => by rw [hf, hf]; exact hab
  ties t := by
    have hmap : ∀ zs : List α, ((zs.map f).filter fun a => k a = t) =
        (zs.filter fun a => k a = t).map f := fun zs => by
      rw [List.filter_map]
      simp only [Function.comp_def, hf]
    rw [hmap, hmap, h.ties]

end Sorting
end Lib
end Panops
