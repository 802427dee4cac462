import Mathlib.Data.List.Forall2
import Mathlib.Logic.Equiv.Basic
import Panops.Lib.HashMap

/-!
# Tables that mirror a hash map

The rows of a table stand one for one for the values of a hash map, under keys
that a renaming takes to theirs.  What is done to a key on one side and to the
renamed key on the other keeps this.
-/

namespace Panops
namespace Lib

variable {κ α β : Type} [DecidableEq κ]

/-- `σ` renames keys, `idOf` and `keyOf` are the keys that a value and a row
have of themselves, `R` says that a row stands for a value. -/
structure Mirrors (σ : κ → κ) (idOf : α → κ) (keyOf : β → κ) (R : α → β → Prop)
    (m : HashMap κ α) (rows : List β) : Prop where
  rows : List.Forall₂ R m.values rows
  keys : ∀ e ∈ m.entries, e.1 = idOf e.2
  injective : Function.Injective σ
  keyOf : ∀ a b, R a b → keyOf b = σ (idOf a)

namespace Mirrors

variable {σ : κ → κ} {idOf : α → κ} {keyOf : β → κ} {R : α → β → Prop} {m : HashMap κ α}
  {rows : List β} {k : κ}

omit [DecidableEq κ] in
/-- The rows, entry by entry. -/
theorem forall₂_entries (h : Mirrors σ idOf keyOf R m rows) :
    List.Forall₂ (fun e b => R e.2 b) m.entries rows :=
  List.forall₂_map_left_iff.mp h.rows

omit [DecidableEq κ] in
theorem of_entries (hrows : List.Forall₂ (fun e b => R e.2 b) m.entries rows)
    (hkeys : ∀ e ∈ m.entries, e.1 = idOf e.2) (hσ : Function.Injective σ)
    (hkeyOf : ∀ a b, R a b → keyOf b = σ (idOf a)) : Mirrors σ idOf keyOf R m rows :=
  ⟨List.forall₂_map_left_iff.mpr hrows, hkeys, hσ, hkeyOf⟩

omit [DecidableEq κ] in
/-- The two sides entry by entry, with the keys that correspond. -/
theorem forall₂_keys (h : Mirrors σ idOf keyOf R m rows) :
    List.Forall₂ (fun e b => R e.2 b ∧ e.1 = idOf e.2 ∧ keyOf b = σ e.1) m.entries rows := by
  have hboth : ∀ (entries : List (κ × α)) (rows : List β),
      (∀ e ∈ entries, e.1 = idOf e.2) → List.Forall₂ (fun e b => R e.2 b) entries rows →
      List.Forall₂ (fun e b => R e.2 b ∧ e.1 = idOf e.2 ∧ keyOf b = σ e.1) entries rows := by
    intro entries rows hkeys hrows
    induction hrows with
    | nil => exact List.Forall₂.nil
    | cons hR _ ih =>
      have hkey := hkeys _ List.mem_cons_self
      refine List.Forall₂.cons ⟨hR, hkey, ?_⟩ (ih fun e he => hkeys e (List.mem_cons_of_mem _ he))
      rw [hkey]
      exact h.keyOf _ _ hR
  exact hboth m.entries rows h.keys h.forall₂_entries

theorem any_eq (h : Mirrors σ idOf keyOf R m rows) (k : κ) :
    rows.any (keyOf · == σ k) = m.containsKey k := by
  have hany : ∀ (entries : List (κ × α)) (rows : List β),
      List.Forall₂ (fun e b => R e.2 b ∧ e.1 = idOf e.2 ∧ keyOf b = σ e.1) entries rows →
      rows.any (keyOf · == σ k) = entries.any (·.1 == k) := by
    intro entries rows hrows
    induction hrows with
    | nil => rfl
    | cons hentry _ ih =>
      rw [List.any_cons, List.any_cons, ih, hentry.2.2]
      congr 1
      rw [Bool.eq_iff_iff, beq_iff_eq, beq_iff_eq]
      exact h.injective.eq_iff
  exact hany m.entries rows h.forall₂_keys

/-- What is found under a key and under its image. -/
theorem find_cases (h : Mirrors σ idOf keyOf R m rows) (k : κ) :
    (m.get k = none ∧ rows.find? (keyOf · == σ k) = none) ∨
      ∃ a b, m.get k = some a ∧ rows.find? (keyOf · == σ k) = some b ∧ R a b ∧ idOf a = k := by
  have hfind : ∀ (entries : List (κ × α)) (rows : List β),
      List.Forall₂ (fun e b => R e.2 b ∧ e.1 = idOf e.2 ∧ keyOf b = σ e.1) entries rows →
      (entries.find? (·.1 == k) = none ∧ rows.find? (keyOf · == σ k) = none) ∨
        ∃ e b, entries.find? (·.1 == k) = some e ∧ rows.find? (keyOf · == σ k) = some b ∧
          R e.2 b ∧ idOf e.2 = k := by
    intro entries rows hrows
    induction hrows with
    | nil => exact Or.inl ⟨rfl, rfl⟩
    | @cons e b _ _ hentry _ ih =>
      by_cases hk : e.1 = k
      · refine Or.inr ⟨e, b, List.find?_cons_of_pos (by simpa using hk),
          List.find?_cons_of_pos ?_, hentry.1, hentry.2.1.symm.trans hk⟩
        rw [hentry.2.2, hk]
        exact beq_self_eq_true _
      · have hrow : ¬ (keyOf b == σ k) = true := by
          rw [hentry.2.2, beq_iff_eq]
          exact fun heq => hk (h.injective heq)
        rw [List.find?_cons_of_neg (by simpa using hk),
          List.find?_cons_of_neg (p := fun b => keyOf b == σ k) hrow]
        exact ih
  unfold HashMap.get
  rcases hfind m.entries rows h.forall₂_keys with ⟨hm, hrows⟩ | ⟨e, b, hm, hrows, hR, hid⟩
  · exact Or.inl ⟨by rw [hm]; rfl, hrows⟩
  · exact Or.inr ⟨e.2, b, by rw [hm]; rfl, hrows, hR, hid⟩

/-! ## Changes -/

theorem insert (h : Mirrors σ idOf keyOf R m rows) {a : α} {b : β}
    (hk : m.containsKey k = false) (hR : R a b) (hid : idOf a = k) :
    Mirrors σ idOf keyOf R (m.insert k a) (rows ++ [b]) := by
  refine of_entries ?_ ?_ h.injective h.keyOf
  · rw [HashMap.entries_insert_of_not a hk]
    exact List.rel_append h.forall₂_entries (List.Forall₂.cons hR List.Forall₂.nil)
  · intro e he
    rw [HashMap.entries_insert_of_not a hk] at he
    rcases List.mem_append.mp he with he | he
    · exact h.keys e he
    · rw [List.mem_singleton.mp he]
      exact hid.symm

theorem alter (h : Mirrors σ idOf keyOf R m rows) {f : α → α} {g : β → β}
    (hfg : ∀ a b, R a b → R (f a) (g b)) (hid : ∀ a, idOf (f a) = idOf a) :
    Mirrors σ idOf keyOf R (m.alter k f)
      (rows.map fun b => if keyOf b = σ k then g b else b) := by
  refine of_entries ?_ ?_ h.injective h.keyOf
  · rw [HashMap.entries_alter, List.forall₂_map_left_iff, List.forall₂_map_right_iff]
    refine h.forall₂_keys.imp fun e b hentry => ?_
    by_cases hk : e.1 = k
    · rw [if_pos hk, if_pos (hentry.2.2.trans (congrArg σ hk))]
      exact hfg _ _ hentry.1
    · have hrow : keyOf b ≠ σ k := by
        rw [hentry.2.2]
        exact fun heq => hk (h.injective heq)
      rw [if_neg hk, if_neg hrow]
      exact hentry.1
  · intro e he
    obtain ⟨old, hold, rfl⟩ := List.mem_map.mp he
    split
    · rw [hid]
      exact h.keys old hold
    · exact h.keys old hold

omit [DecidableEq κ] in
theorem retain (h : Mirrors σ idOf keyOf R m rows) {keep : κ → α → Bool} {keepRow : β → Bool}
    (hkeep : ∀ e ∈ m.entries, ∀ b, R e.2 b → keyOf b = σ e.1 → keep e.1 e.2 = keepRow b) :
    Mirrors σ idOf keyOf R (m.retain keep) (rows.filter keepRow) := by
  refine of_entries ?_ (fun e he => h.keys e (List.mem_filter.mp he).1) h.injective h.keyOf
  have hfilter : ∀ (entries : List (κ × α)) (rows : List β),
      (∀ e ∈ entries, ∀ b, R e.2 b → keyOf b = σ e.1 → keep e.1 e.2 = keepRow b) →
      List.Forall₂ (fun e b => R e.2 b ∧ e.1 = idOf e.2 ∧ keyOf b = σ e.1) entries rows →
      List.Forall₂ (fun e b => R e.2 b) (entries.filter fun e => keep e.1 e.2)
        (rows.filter keepRow) := by
    intro entries rows hkeep hrows
    induction hrows with
    | nil => exact List.Forall₂.nil
    | @cons e b _ _ hentry _ ih =>
      have hsame := hkeep e List.mem_cons_self b hentry.1 hentry.2.2
      have hrest := ih fun e he => hkeep e (List.mem_cons_of_mem _ he)
      rw [List.filter_cons, List.filter_cons, hsame]
      split
      · exact List.Forall₂.cons hentry.1 hrest
      · exact hrest
  exact hfilter m.entries rows hkeep h.forall₂_keys

theorem remove (h : Mirrors σ idOf keyOf R m rows) (k : κ) :
    Mirrors σ idOf keyOf R (m.remove k) (rows.filter (keyOf · != σ k)) := by
  refine h.retain fun e _ b _ hkey => ?_
  rw [hkey, Bool.eq_iff_iff, bne_iff_ne, bne_iff_ne]
  exact h.injective.ne_iff.symm

omit [DecidableEq κ] in
/-- The rows changed together with what they stand for. -/
theorem map_rows (h : Mirrors σ idOf keyOf R m rows) {R' : α → β → Prop} {g : β → β}
    (hg : ∀ e ∈ m.entries, ∀ b, R e.2 b → R' e.2 (g b))
    (hkeyOf : ∀ a b, R' a b → keyOf b = σ (idOf a)) :
    Mirrors σ idOf keyOf R' m (rows.map g) := by
  refine of_entries ?_ h.keys h.injective hkeyOf
  have hmap : ∀ (entries : List (κ × α)) (rows : List β),
      (∀ e ∈ entries, ∀ b, R e.2 b → R' e.2 (g b)) →
      List.Forall₂ (fun e b => R e.2 b) entries rows →
      List.Forall₂ (fun e b => R' e.2 b) entries (rows.map g) := by
    intro entries rows hg hrows
    induction hrows with
    | nil => exact List.Forall₂.nil
    | cons hentry _ ih =>
      exact List.Forall₂.cons (hg _ List.mem_cons_self _ hentry)
        (ih fun e he => hg e (List.mem_cons_of_mem _ he))
  exact hmap m.entries rows hg h.forall₂_entries

omit [DecidableEq κ] in
/-- The same rows, read in another way. -/
theorem congr_rows (h : Mirrors σ idOf keyOf R m rows) {R' : α → β → Prop}
    (hR : ∀ e ∈ m.entries, ∀ b, R e.2 b → R' e.2 b)
    (hkeyOf : ∀ a b, R' a b → keyOf b = σ (idOf a)) : Mirrors σ idOf keyOf R' m rows := by
  have h' := h.map_rows (g := id) hR hkeyOf
  rwa [List.map_id] at h'

omit [DecidableEq κ] in
theorem of_empty (hσ : Function.Injective σ) (hkeyOf : ∀ a b, R a b → keyOf b = σ (idOf a)) :
    Mirrors σ idOf keyOf R HashMap.empty [] :=
  ⟨List.Forall₂.nil, fun _ he => absurd he List.not_mem_nil, hσ, hkeyOf⟩

end Mirrors

/-- A renaming that takes some keys to others, each to one of its own. -/
theorem exists_perm_of_nodup {pairs : List (κ × κ)} (hfst : (pairs.map Prod.fst).Nodup)
    (hsnd : (pairs.map Prod.snd).Nodup) : ∃ σ : Equiv.Perm κ, ∀ p ∈ pairs, σ p.1 = p.2 := by
  induction pairs with
  | nil => exact ⟨Equiv.refl κ, fun _ hp => absurd hp List.not_mem_nil⟩
  | cons q rest ih =>
    rw [List.map_cons, List.nodup_cons] at hfst hsnd
    obtain ⟨σ, hσ⟩ := ih hfst.2 hsnd.2
    refine ⟨σ.trans (Equiv.swap (σ q.1) q.2), fun p hp => ?_⟩
    rcases List.mem_cons.mp hp with rfl | hp
    · exact Equiv.swap_apply_left _ _
    · -- the swap leaves the keys that are already placed
      have hne : p.2 ≠ q.2 := fun h => hsnd.1 (h ▸ List.mem_map_of_mem hp)
      have hne' : p.2 ≠ σ q.1 := fun h => by
        rw [← hσ p hp] at h
        exact hfst.1 (σ.injective h ▸ List.mem_map_of_mem hp)
      rw [Equiv.trans_apply, hσ p hp, Equiv.swap_apply_of_ne_of_ne hne' hne]

/-- Rows that stand for values by a function. -/
theorem forall₂_eq_iff {f : α → β} {xs : List α} {ys : List β} :
    List.Forall₂ (fun a b => b = f a) xs ys ↔ ys = xs.map f := by
  constructor
  · intro h
    induction h with
    | nil => rfl
    | cons hab _ ih => rw [List.map_cons, hab, ih]
  · intro h
    subst h
    rw [List.forall₂_map_right_iff, List.forall₂_same]
    exact fun _ _ => rfl

end Lib
end Panops
