import Mathlib.Data.List.Nodup

/-!
# Hash maps

A finite map as its entries, one for each key.  A new entry goes to the end; the
order in which a program meets the entries is not this one but a parameter of
the program.
-/

namespace Panops
namespace Lib

structure HashMap (κ ν : Type) where
  entries : List (κ × ν)
  nodup : (entries.map Prod.fst).Nodup

namespace HashMap

variable {κ ν : Type} [DecidableEq κ]

def empty : HashMap κ ν := ⟨[], List.nodup_nil⟩

def values (m : HashMap κ ν) : List ν := m.entries.map Prod.snd

def get (m : HashMap κ ν) (k : κ) : Option ν := (m.entries.find? (·.1 == k)).map Prod.snd

def containsKey (m : HashMap κ ν) (k : κ) : Bool := m.entries.any (·.1 == k)

/-- The value under a key, changed in its place. -/
def alter (m : HashMap κ ν) (k : κ) (f : ν → ν) : HashMap κ ν where
  entries := m.entries.map fun e => if e.1 = k then (e.1, f e.2) else e
  nodup := by
    have hkeys : (m.entries.map fun e => if e.1 = k then (e.1, f e.2) else e).map Prod.fst =
        m.entries.map Prod.fst := by
      rw [List.map_map]
      refine List.map_congr_left fun e _ => ?_
      simp only [Function.comp_apply]
      split <;> rfl
    rw [hkeys]
    exact m.nodup

theorem containsKey_iff {m : HashMap κ ν} {k : κ} :
    m.containsKey k = true ↔ k ∈ m.entries.map Prod.fst := by
  simp [containsKey]

/-- An entry for a key that has none. -/
def push (m : HashMap κ ν) (k : κ) (v : ν) (h : m.containsKey k = false) : HashMap κ ν where
  entries := m.entries ++ [(k, v)]
  nodup := by
    rw [List.map_append, List.map_singleton]
    refine List.Nodup.append m.nodup (List.nodup_singleton k) ?_
    intro key hkey hk
    rw [List.mem_singleton.mp hk] at hkey
    rw [containsKey_iff.mpr hkey] at h
    cases h

def insert (m : HashMap κ ν) (k : κ) (v : ν) : HashMap κ ν :=
  match h : m.containsKey k with
  | true => m.alter k fun _ => v
  | false => m.push k v h

def retain (m : HashMap κ ν) (keep : κ → ν → Bool) : HashMap κ ν where
  entries := m.entries.filter fun e => keep e.1 e.2
  nodup := (List.filter_sublist.map Prod.fst).nodup m.nodup

def remove (m : HashMap κ ν) (k : κ) : HashMap κ ν := m.retain fun key _ => key != k

def mapValues (m : HashMap κ ν) (f : ν → ν) : HashMap κ ν where
  entries := m.entries.map fun e => (e.1, f e.2)
  nodup := by
    rw [List.map_map]
    exact m.nodup

/-- The keys removed one after the other. -/
def removeAll (m : HashMap κ ν) (keys : List κ) : HashMap κ ν := keys.foldl remove m

variable {m : HashMap κ ν} {k key : κ} {v : ν}

/-! ## Entries -/

theorem entries_insert_of_not (v : ν) (h : m.containsKey k = false) :
    (m.insert k v).entries = m.entries ++ [(k, v)] := by
  unfold insert
  split
  · next htrue =>
    rw [htrue] at h
    cases h
  · rfl

theorem entries_alter (f : ν → ν) :
    (m.alter k f).entries = m.entries.map fun e => if e.1 = k then (e.1, f e.2) else e :=
  rfl

theorem entries_remove : (m.remove k).entries = m.entries.filter (·.1 != k) := rfl

theorem mem_entries_of_get (h : m.get k = some v) : (k, v) ∈ m.entries := by
  obtain ⟨e, he, rfl⟩ := Option.map_eq_some_iff.mp h
  have hk : e.1 = k := by simpa using List.find?_some he
  have hmem := List.mem_of_find?_eq_some he
  rw [← hk]
  exact hmem

theorem get_of_mem_entries (h : (k, v) ∈ m.entries) : m.get k = some v := by
  have hfind : ∀ entries : List (κ × ν), (entries.map Prod.fst).Nodup → (k, v) ∈ entries →
      entries.find? (·.1 == k) = some (k, v) := by
    intro entries
    induction entries with
    | nil => exact fun _ h => absurd h List.not_mem_nil
    | cons e rest ih =>
      intro hnodup hmem
      rw [List.map_cons, List.nodup_cons] at hnodup
      rcases List.mem_cons.mp hmem with rfl | hrest
      · exact List.find?_cons_of_pos (beq_self_eq_true _)
      · have hne : e.1 ≠ k := fun he => hnodup.1 (he ▸ List.mem_map_of_mem hrest)
        rw [List.find?_cons_of_neg (by simpa using hne)]
        exact ih hnodup.2 hrest
  rw [get, hfind m.entries m.nodup h]
  rfl

theorem get_eq_some_iff : m.get k = some v ↔ (k, v) ∈ m.entries :=
  ⟨mem_entries_of_get, get_of_mem_entries⟩

theorem get_eq_none_iff : m.get k = none ↔ m.containsKey k = false := by
  simp [get, containsKey]

theorem containsKey_of_get (h : m.get k = some v) : m.containsKey k = true :=
  containsKey_iff.mpr (List.mem_map_of_mem (mem_entries_of_get h))

theorem get_isSome : (m.get k).isSome = m.containsKey k := by
  cases h : m.get k with
  | none => exact (get_eq_none_iff.mp h).symm
  | some v => exact (containsKey_of_get h).symm

/-! ## Reading after a change -/

@[simp] theorem containsKey_empty : (empty : HashMap κ ν).containsKey k = false := rfl

@[simp] theorem get_empty : (empty : HashMap κ ν).get k = none := rfl

@[simp] theorem containsKey_alter (f : ν → ν) :
    (m.alter k f).containsKey key = m.containsKey key := by
  simp only [containsKey, alter, List.any_map]
  congr 1
  funext e
  simp only [Function.comp_apply]
  split <;> rfl

theorem mem_entries_alter {f : ν → ν} :
    (key, v) ∈ (m.alter k f).entries ↔
      ∃ old, (key, old) ∈ m.entries ∧ v = if key = k then f old else old := by
  rw [entries_alter, List.mem_map]
  constructor
  · intro h
    obtain ⟨e, he, heq⟩ := h
    split at heq
    · next hk =>
      obtain ⟨rfl, rfl⟩ := Prod.mk.inj heq
      exact ⟨e.2, he, by rw [if_pos hk]⟩
    · next hk =>
      subst heq
      exact ⟨v, he, by rw [if_neg hk]⟩
  · intro h
    obtain ⟨old, hold, rfl⟩ := h
    refine ⟨(key, old), hold, ?_⟩
    split <;> rfl

theorem mem_entries_insert :
    (key, v) ∈ (m.insert k value).entries ↔
      (key = k ∧ v = value) ∨ (key ≠ k ∧ (key, v) ∈ m.entries) := by
  cases hk : m.containsKey k with
  | true =>
    have hinsert : m.insert k value = m.alter k fun _ => value := by
      unfold insert
      split
      · rfl
      · next hfalse => exact absurd (hfalse.symm.trans hk) Bool.false_ne_true
    rw [hinsert, mem_entries_alter]
    constructor
    · intro h
      obtain ⟨old, hold, hv⟩ := h
      by_cases hkey : key = k
      · rw [if_pos hkey] at hv
        exact Or.inl ⟨hkey, hv⟩
      · rw [if_neg hkey] at hv
        exact Or.inr ⟨hkey, hv ▸ hold⟩
    · intro h
      rcases h with ⟨rfl, rfl⟩ | ⟨hkey, hmem⟩
      · obtain ⟨e, he, rfl⟩ := List.mem_map.mp (containsKey_iff.mp hk)
        exact ⟨e.2, he, (if_pos rfl).symm⟩
      · exact ⟨v, hmem, (if_neg hkey).symm⟩
  | false =>
    rw [entries_insert_of_not value hk, List.mem_append, List.mem_singleton, Prod.mk.injEq]
    constructor
    · intro h
      rcases h with hmem | heq
      · refine Or.inr ⟨fun hkey => ?_, hmem⟩
        rw [hkey] at hmem
        rw [containsKey_iff.mpr (List.mem_map_of_mem hmem)] at hk
        cases hk
      · exact Or.inl heq
    · intro h
      rcases h with heq | ⟨_, hmem⟩
      · exact Or.inr heq
      · exact Or.inl hmem

theorem get_insert (k key : κ) (value : ν) :
    (m.insert k value).get key = if key = k then some value else m.get key := by
  split
  · next hkey => exact get_eq_some_iff.mpr (mem_entries_insert.mpr (Or.inl ⟨hkey, rfl⟩))
  · next hkey =>
    refine Option.ext fun v => ?_
    rw [get_eq_some_iff, get_eq_some_iff, mem_entries_insert]
    simp [hkey]

theorem get_alter (f : ν → ν) (key : κ) :
    (m.alter k f).get key = if key = k then (m.get key).map f else m.get key := by
  refine Option.ext fun v => ?_
  rw [get_eq_some_iff, mem_entries_alter]
  constructor
  · intro h
    obtain ⟨old, hold, rfl⟩ := h
    rw [get_of_mem_entries hold]
    split <;> rfl
  · intro h
    split at h
    · next hkey =>
      obtain ⟨old, hold, rfl⟩ := Option.map_eq_some_iff.mp h
      exact ⟨old, mem_entries_of_get hold, (if_pos hkey).symm⟩
    · next hkey => exact ⟨v, mem_entries_of_get h, (if_neg hkey).symm⟩

theorem get_mapValues (f : ν → ν) (key : κ) : (m.mapValues f).get key = (m.get key).map f := by
  simp only [get, mapValues, List.find?_map, Option.map_map]
  rfl

theorem get_retain (keep : κ → ν → Bool) (key : κ) :
    (m.retain keep).get key = (m.get key).filter (keep key) := by
  refine Option.ext fun v => ?_
  rw [get_eq_some_iff, Option.filter_eq_some_iff, get_eq_some_iff]
  exact List.mem_filter

theorem containsKey_retain (keep : κ → ν → Bool) (key : κ) :
    (m.retain keep).containsKey key = (m.get key).any (keep key) := by
  rw [← get_isSome, get_retain]
  cases m.get key with
  | none => rfl
  | some v => cases h : keep key v <;> simp [h]

theorem get_remove (k key : κ) : (m.remove k).get key = if key = k then none else m.get key := by
  rw [remove, get_retain]
  by_cases hkey : key = k
  · simp [hkey]
  · have hne : (key != k) = true := by simpa using hkey
    rw [if_neg hkey]
    cases m.get key with
    | none => rfl
    | some v => simp [hne]

theorem get_removeAll (keys : List κ) (key : κ) :
    (m.removeAll keys).get key = if key ∈ keys then none else m.get key := by
  induction keys generalizing m with
  | nil => rfl
  | cons k rest ih =>
    show ((m.remove k).removeAll rest).get key = _
    rw [ih, get_remove]
    by_cases hrest : key ∈ rest
    · simp [hrest]
    · by_cases hkey : key = k
      · simp [hkey]
      · simp [hrest, hkey]

theorem removeAll_eq_retain (m : HashMap κ ν) (keys : List κ) :
    m.removeAll keys = m.retain fun key _ => decide (key ∉ keys) := by
  have hentries : (m.removeAll keys).entries = m.entries.filter fun e => decide (e.1 ∉ keys) := by
    induction keys generalizing m with
    | nil => exact (List.filter_eq_self.mpr fun _ _ => by simp).symm
    | cons k rest ih =>
      show ((m.remove k).removeAll rest).entries = _
      rw [ih, entries_remove, List.filter_filter]
      refine List.filter_congr fun e _ => ?_
      by_cases hk : e.1 = k <;> simp [hk]
  cases h : m.removeAll keys with
  | mk entries nodup =>
    rw [h] at hentries
    subst hentries
    rfl

end HashMap
end Lib
end Panops
