import Mathlib.Data.List.Induction
import Mathlib.Data.Rat.Floor
import Mathlib.Tactic.NormNum

/-!
# Machine numbers and hash maps

The parts of a Rust standard library that are not Lean's own: the widths of the
unsigned integers, the single-precision numbers a `u64` ratio can reach, and a
hash map, whose iteration order is a parameter because the language leaves it
open.
-/

namespace Panops
namespace Lib
namespace Machine

def u32Max : Nat := 2 ^ 32 - 1

def u64Max : Nat := 2 ^ 64 - 1

/-- Addition of two `u64` in a release build. -/
def wrappingAdd (a b : Nat) : Nat := (a + b) % 2 ^ 64

/-- Subtraction of two `u64` in a release build. -/
def wrappingSub (a b : Nat) : Nat := (a + (2 ^ 64 - b)) % 2 ^ 64

def absDiff (a b : Nat) : Nat := max a b - min a b

theorem wrappingSub_of_le {a b : Nat} (hab : b ≤ a) (ha : a < 2 ^ 64) :
    wrappingSub a b = a - b := by
  unfold wrappingSub
  omega

/-! ## Single precision

A finite single is kept as the rational it denotes.  `roundSingle` rounds a
non-negative rational in the normal range to the nearest one, ties to even. -/

inductive Single where
  | nan
  | negInf
  | posInf
  | finite (value : ℚ)
deriving DecidableEq

/-- The IEEE comparison `a < b`, false whenever one side is not a number. -/
def Single.lt : Single → Single → Bool
  | .nan, _ | _, .nan => false
  | .negInf, .negInf => false
  | .negInf, _ => true
  | _, .negInf => false
  | .posInf, _ => false
  | _, .posInf => true
  | .finite a, .finite b => a < b

/-- The exponent `e` with `2 ^ e ≤ q < 2 ^ (e + 1)`. -/
def exponent (q : ℚ) : ℤ :=
  let e : ℤ := (Nat.log2 q.num.natAbs : ℤ) - Nat.log2 q.den
  if q < 2 ^ e then e - 1 else e

def roundHalfEven (q : ℚ) : ℤ :=
  let m := ⌊q⌋
  if q - m < 1 / 2 then m
  else if 1 / 2 < q - m then m + 1
  else if m % 2 = 0 then m else m + 1

def roundSingle (q : ℚ) : ℚ :=
  if q = 0 then 0
  else
    let ulp : ℚ := 2 ^ (exponent q - 23)
    roundHalfEven (q / ulp) * ulp

@[simp] theorem roundSingle_zero : roundSingle 0 = 0 := by simp [roundSingle]

theorem roundHalfEven_nonneg {q : ℚ} (h : 0 ≤ q) : 0 ≤ roundHalfEven q := by
  have hm : 0 ≤ ⌊q⌋ := Int.floor_nonneg.mpr h
  simp only [roundHalfEven]
  split_ifs <;> omega

theorem roundSingle_nonneg {q : ℚ} (h : 0 ≤ q) : 0 ≤ roundSingle q := by
  unfold roundSingle
  split_ifs with h0
  · exact le_refl 0
  · have hulp : (0 : ℚ) < 2 ^ (exponent q - 23) := zpow_pos (by norm_num) _
    have hround : 0 ≤ roundHalfEven (q / 2 ^ (exponent q - 23)) :=
      roundHalfEven_nonneg (div_nonneg h hulp.le)
    exact mul_nonneg (by exact_mod_cast hround) hulp.le

/-- `a as f32 / b as f32` for two `u64`. -/
def ratioSingle (a b : Nat) : Single :=
  .finite (roundSingle (roundSingle a / roundSingle b))

theorem ratioSingle_zero_left (b : Nat) : ratioSingle 0 b = .finite 0 := by
  simp [ratioSingle]

theorem ratioSingle_nonneg (a b : Nat) : ∃ q, 0 ≤ q ∧ ratioSingle a b = .finite q :=
  ⟨_, roundSingle_nonneg (div_nonneg (roundSingle_nonneg (Nat.cast_nonneg a))
    (roundSingle_nonneg (Nat.cast_nonneg b))), rfl⟩

/-- A non-negative finite number is below `t` only when zero is. -/
theorem Single.zero_lt_of_lt {q : ℚ} (hq : 0 ≤ q) {t : Single}
    (h : Single.lt (.finite q) t = true) : Single.lt (.finite 0) t = true := by
  cases t with
  | nan => simp [Single.lt] at h
  | negInf => simp [Single.lt] at h
  | posInf => rfl
  | finite v =>
    have hqv : q < v := by simpa [Single.lt] using h
    simpa [Single.lt] using lt_of_le_of_lt hq hqv

/-! ## Hash maps

A map is its list of entries.  `HashOrder` gives the order in which the `n`-th
map of a run is iterated: any permutation, and not the same one each time. -/

structure HashOrder (κ ν : Type) where
  iter : Nat → List (κ × ν) → List (κ × ν)
  perm : ∀ n entries, (iter n entries).Perm entries

/-- Iteration in insertion order. -/
def HashOrder.insertion (κ ν : Type) : HashOrder κ ν where
  iter := fun _ entries => entries
  perm := fun _ entries => List.Perm.refl entries

variable {κ ν α : Type}

/-- `map.entry(k).or_default()` followed by an update of the value. -/
def entryUpdate [DecidableEq κ] (k : κ) (default : ν) (update : ν → ν) :
    List (κ × ν) → List (κ × ν)
  | [] => [(k, update default)]
  | (k', v) :: rest =>
    if k' = k then (k', update v) :: rest else (k', v) :: entryUpdate k default update rest

theorem mem_keys_entryUpdate [DecidableEq κ] {k : κ} {default : ν} {update : ν → ν}
    {entries : List (κ × ν)} {k' : κ} :
    k' ∈ (entryUpdate k default update entries).map Prod.fst ↔
      k' = k ∨ k' ∈ entries.map Prod.fst := by
  induction entries with
  | nil => simp [entryUpdate]
  | cons e rest ih =>
    obtain ⟨k₀, v⟩ := e
    by_cases h : k₀ = k
    · subst h
      simp [entryUpdate]
    · simp only [entryUpdate, h, if_false, List.map_cons, List.mem_cons, ih]
      constructor
      · rintro (hk | hk | hk)
        · exact Or.inr (Or.inl hk)
        · exact Or.inl hk
        · exact Or.inr (Or.inr hk)
      · rintro (hk | hk | hk)
        · exact Or.inr (Or.inl hk)
        · exact Or.inl hk
        · exact Or.inr (Or.inr hk)

/-- Changing the value of one key keeps the keys apart. -/
theorem nodup_keys_entryUpdate [DecidableEq κ] (k : κ) (default : ν) (update : ν → ν)
    {entries : List (κ × ν)} (h : (entries.map Prod.fst).Nodup) :
    ((entryUpdate k default update entries).map Prod.fst).Nodup := by
  induction entries with
  | nil => simp [entryUpdate]
  | cons e rest ih =>
    obtain ⟨k₀, v⟩ := e
    rw [List.map_cons, List.nodup_cons] at h
    unfold entryUpdate
    split
    · rw [List.map_cons, List.nodup_cons]
      exact h
    · next hne =>
      rw [List.map_cons, List.nodup_cons, mem_keys_entryUpdate]
      exact ⟨fun hmem => hmem.elim hne h.1, ih h.2⟩

/-- What is under a key after an update: under the others what was there, under
this one the new value. -/
theorem mem_entryUpdate [DecidableEq κ] {k : κ} {default : ν} {update : ν → ν}
    {entries : List (κ × ν)} (hnodup : (entries.map Prod.fst).Nodup) {k' : κ} {v : ν}
    (h : (k', v) ∈ entryUpdate k default update entries) :
    (k' ≠ k ∧ (k', v) ∈ entries) ∨
      k' = k ∧ ((∃ old, (k, old) ∈ entries ∧ v = update old) ∨
        k ∉ entries.map Prod.fst ∧ v = update default) := by
  induction entries with
  | nil =>
    obtain ⟨rfl, rfl⟩ : k' = k ∧ v = update default := by simpa [entryUpdate] using h
    exact Or.inr ⟨rfl, Or.inr ⟨List.not_mem_nil, rfl⟩⟩
  | cons e rest ih =>
    obtain ⟨k₀, w⟩ := e
    rw [List.map_cons, List.nodup_cons] at hnodup
    unfold entryUpdate at h
    split at h
    · next heq =>
      subst heq
      rcases List.mem_cons.mp h with hhere | hrest
      · obtain ⟨rfl, rfl⟩ := Prod.mk.inj hhere
        exact Or.inr ⟨rfl, Or.inl ⟨w, List.mem_cons_self, rfl⟩⟩
      · have hne : k' ≠ k₀ := fun hk => hnodup.1 (List.mem_map.mpr ⟨(k', v), hrest, hk⟩)
        exact Or.inl ⟨hne, List.mem_cons_of_mem _ hrest⟩
    · next hne =>
      rcases List.mem_cons.mp h with hhere | hrest
      · obtain ⟨rfl, rfl⟩ := Prod.mk.inj hhere
        exact Or.inl ⟨hne, List.mem_cons_self⟩
      · rcases ih hnodup.2 hrest with ⟨hk, hmem⟩ | ⟨hk, ⟨old, hold, hv⟩ | ⟨hnone, hv⟩⟩
        · exact Or.inl ⟨hk, List.mem_cons_of_mem _ hmem⟩
        · exact Or.inr ⟨hk, Or.inl ⟨old, List.mem_cons_of_mem _ hold, hv⟩⟩
        · refine Or.inr ⟨hk, Or.inr ⟨?_, hv⟩⟩
          rw [List.map_cons, List.mem_cons]
          exact fun hmem => hmem.elim (fun heq => hne heq.symm) hnone

theorem lookup_entryUpdate [DecidableEq κ] (k k' : κ) (default : ν) (update : ν → ν)
    (entries : List (κ × ν)) :
    (entryUpdate k default update entries).lookup k' =
      if k' = k then some (update ((entries.lookup k).getD default)) else entries.lookup k' := by
  have hlookup : ∀ (a : κ) (v : ν) (rest : List (κ × ν)) (b : κ),
      ((a, v) :: rest).lookup b = if b = a then some v else rest.lookup b := by
    intro a v rest b
    rw [List.lookup_cons]
    by_cases h : b = a
    · simp [h]
    · rw [if_neg h, beq_eq_false_iff_ne.mpr h]
  induction entries with
  | nil =>
    rw [entryUpdate, hlookup]
    rfl
  | cons e rest ih =>
    obtain ⟨k₀, v⟩ := e
    rw [entryUpdate]
    by_cases hk : k₀ = k
    · subst hk
      rw [if_pos rfl, hlookup, hlookup, hlookup, if_pos rfl]
      by_cases h : k' = k₀
      · simp [h]
      · simp [h]
    · rw [if_neg hk, hlookup, ih, hlookup, hlookup, if_neg (Ne.symm hk)]
      by_cases h : k' = k₀
      · subst h
        rw [if_pos rfl, if_neg hk, if_pos rfl]
      · rw [if_neg h, if_neg h]

/-! ### Counting -/

/-- `*map.entry(k).or_insert(0) += 1` for each of the keys. -/
def tally [DecidableEq κ] (keys : List κ) : List (κ × Nat) :=
  keys.foldl (fun counts k => entryUpdate k 0 (· + 1) counts) []

theorem tally_concat [DecidableEq κ] (keys : List κ) (k : κ) :
    tally (keys ++ [k]) = entryUpdate k 0 (· + 1) (tally keys) := by
  rw [tally, List.foldl_append]
  rfl

theorem mem_keys_tally [DecidableEq κ] {keys : List κ} {k : κ} :
    k ∈ (tally keys).map Prod.fst ↔ k ∈ keys := by
  induction keys using List.reverseRecOn with
  | nil => simp [tally]
  | append_singleton keys k' ih =>
    rw [tally_concat, mem_keys_entryUpdate, ih, List.mem_append, List.mem_singleton, or_comm]

theorem nodup_keys_tally [DecidableEq κ] (keys : List κ) : ((tally keys).map Prod.fst).Nodup := by
  induction keys using List.reverseRecOn with
  | nil => exact List.nodup_nil
  | append_singleton keys k ih =>
    rw [tally_concat]
    exact nodup_keys_entryUpdate k 0 (· + 1) ih

/-- The number under a key is how often the key came. -/
theorem eq_count_of_mem_tally [DecidableEq κ] {keys : List κ} {k : κ} {n : Nat}
    (h : (k, n) ∈ tally keys) : n = keys.count k := by
  induction keys using List.reverseRecOn generalizing n with
  | nil => exact absurd h List.not_mem_nil
  | append_singleton keys k' ih =>
    rw [tally_concat] at h
    rw [List.count_append, List.count_singleton]
    rcases mem_entryUpdate (nodup_keys_tally keys) h with ⟨hne, hmem⟩ | ⟨rfl, hnew⟩
    · rw [ih hmem, if_neg (by simpa using hne.symm), Nat.add_zero]
    · rw [if_pos (beq_self_eq_true k)]
      rcases hnew with ⟨old, hold, rfl⟩ | ⟨hnone, rfl⟩
      · rw [ih hold]
      · rw [mem_keys_tally] at hnone
        rw [List.count_eq_zero_of_not_mem hnone]

theorem mem_tally_of_mem [DecidableEq κ] {keys : List κ} {k : κ} (h : k ∈ keys) :
    (k, keys.count k) ∈ tally keys := by
  obtain ⟨⟨k', n⟩, hmem, rfl⟩ := List.mem_map.mp (mem_keys_tally.mpr h)
  rw [← eq_count_of_mem_tally hmem]
  exact hmem

/-! ### The greatest value -/

/-- `Iterator::max_by_key`: the last of the greatest elements. -/
def maxByKey (key : α → Nat) : List α → Option α
  | [] => none
  | x :: xs => some (xs.foldl (fun best y => if key best ≤ key y then y else best) x)

theorem maxByKey_eq_none_iff {key : α → Nat} {xs : List α} :
    maxByKey key xs = none ↔ xs = [] := by
  cases xs <;> simp [maxByKey]

theorem mem_of_maxByKey {key : α → Nat} {xs : List α} {x : α} (h : maxByKey key xs = some x) :
    x ∈ xs := by
  cases xs with
  | nil => simp [maxByKey] at h
  | cons y ys =>
    have hfold : ∀ (ys : List α) (b : α),
        ys.foldl (fun best y => if key best ≤ key y then y else best) b ∈ b :: ys := by
      intro ys
      induction ys with
      | nil => intro b; simp
      | cons z zs ih =>
        intro b
        rw [List.foldl_cons]
        rcases List.mem_cons.mp (ih (if key b ≤ key z then z else b)) with heq | hmem
        · rw [heq]
          split_ifs <;> simp
        · exact List.mem_cons_of_mem b (List.mem_cons_of_mem z hmem)
    obtain rfl : _ = x := Option.some.inj h
    exact hfold ys y

theorem le_of_maxByKey {key : α → Nat} {xs : List α} {x : α} (h : maxByKey key xs = some x) :
    ∀ y ∈ xs, key y ≤ key x := by
  cases xs with
  | nil => simp [maxByKey] at h
  | cons y ys =>
    have hfold : ∀ (ys : List α) (b : α), ∀ y ∈ b :: ys,
        key y ≤ key (ys.foldl (fun best y => if key best ≤ key y then y else best) b) := by
      intro ys
      induction ys with
      | nil => simp
      | cons z zs ih =>
        intro b
        have hnext := ih (if key b ≤ key z then z else b)
        have hbest := hnext _ List.mem_cons_self
        rw [List.foldl_cons]
        intro y hy
        rcases List.mem_cons.mp hy with rfl | hy
        · refine Nat.le_trans ?_ hbest
          split <;> omega
        · rcases List.mem_cons.mp hy with rfl | hy
          · refine Nat.le_trans ?_ hbest
            split <;> omega
          · exact hnext y (List.mem_cons_of_mem _ hy)
    obtain rfl : _ = x := Option.some.inj h
    exact hfold ys y

/-- The last element is the greatest when no other has a greater key. -/
theorem maxByKey_concat {key : α → Nat} {xs : List α} {x : α} (h : ∀ y ∈ xs, key y ≤ key x) :
    maxByKey key (xs ++ [x]) = some x := by
  cases xs with
  | nil => rfl
  | cons y ys =>
    have hbest : maxByKey key (y :: ys) =
        some (ys.foldl (fun best y => if key best ≤ key y then y else best) y) := rfl
    rw [List.cons_append, maxByKey, List.foldl_append, List.foldl_cons, List.foldl_nil,
      if_pos (h _ (mem_of_maxByKey hbest))]

/-- Some order of the map comes to this entry last. -/
theorem exists_order_last {entries : List (κ × ν)} [DecidableEq (κ × ν)] {e : κ × ν}
    (h : e ∈ entries) : ∃ (order : HashOrder κ ν) (front : List (κ × ν)),
      order.iter 0 entries = front ++ [e] ∧ ∀ e' ∈ front, e' ∈ entries := by
  have hmoved : (entries.erase e ++ [e]).Perm entries :=
    List.perm_append_singleton e (entries.erase e) |>.trans (List.perm_cons_erase h).symm
  refine ⟨⟨fun _ es => if es = entries then entries.erase e ++ [e] else es, fun _ es => ?_⟩,
    entries.erase e, if_pos rfl, fun e' he' => List.mem_of_mem_erase he'⟩
  by_cases hes : es = entries
  · rw [if_pos hes, hes]
    exact hmoved
  · rw [if_neg hes]

/-- The key a map's greatest value belongs to is one of the map's keys, in
whatever order the map is iterated. -/
theorem mem_keys_of_maxByKey (order : HashOrder κ Nat) (n : Nat) {entries : List (κ × Nat)}
    {k : κ} (h : (maxByKey Prod.snd (order.iter n entries)).map Prod.fst = some k) :
    k ∈ entries.map Prod.fst := by
  obtain ⟨e, he, rfl⟩ := Option.map_eq_some_iff.mp h
  exact List.mem_map_of_mem ((order.perm n entries).mem_iff.mp (mem_of_maxByKey he))

theorem maxByKey_iter_eq_none_iff (order : HashOrder κ Nat) (n : Nat)
    {entries : List (κ × Nat)} :
    (maxByKey Prod.snd (order.iter n entries)).map Prod.fst = none ↔ entries = [] := by
  rw [Option.map_eq_none_iff, maxByKey_eq_none_iff]
  exact ⟨fun h => List.Perm.nil_eq (h ▸ (order.perm n entries)) |>.symm,
    fun h => List.Perm.eq_nil (h ▸ order.perm n entries)⟩

end Machine
end Lib
end Panops
