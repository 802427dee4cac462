import Mathlib.Data.List.Forall2

/-!
# Merge trees

Summaries of summaries: a tree whose leaves are the inputs in order and whose
inner nodes were each obtained from the roots of their parts.
-/

namespace Panops
namespace Lib

inductive MergeTree (α : Type) where
  | leaf (value : α)
  | node (value : α) (parts : List (MergeTree α))

namespace MergeTree

variable {α : Type}

def root : MergeTree α → α
  | leaf value => value
  | node value _ => value

mutual
def leaves : MergeTree α → List α
  | leaf value => [value]
  | node _ parts => leavesAll parts

def leavesAll : List (MergeTree α) → List α
  | [] => []
  | t :: ts => t.leaves ++ leavesAll ts
end

mutual
/-- Every inner node joins at least two parts, by `joins`. -/
def Valid (joins : List α → α → Prop) : MergeTree α → Prop
  | leaf _ => True
  | node value parts =>
    2 ≤ parts.length ∧ joins (parts.map root) value ∧ ValidAll joins parts

def ValidAll (joins : List α → α → Prop) : List (MergeTree α) → Prop
  | [] => True
  | t :: ts => t.Valid joins ∧ ValidAll joins ts
end

theorem leavesAll_eq_flatMap (ts : List (MergeTree α)) : leavesAll ts = ts.flatMap leaves := by
  induction ts with
  | nil => rfl
  | cons t ts ih => rw [leavesAll, ih, List.flatMap_cons]

theorem validAll_iff {joins : List α → α → Prop} {ts : List (MergeTree α)} :
    ValidAll joins ts ↔ ∀ t ∈ ts, t.Valid joins := by
  induction ts with
  | nil => simp [ValidAll]
  | cons t ts ih => simp [ValidAll, ih]

mutual
theorem Valid.mono {joins joins' : List α → α → Prop}
    (h : ∀ vs v, joins vs v → joins' vs v) :
    ∀ t : MergeTree α, t.Valid joins → t.Valid joins'
  | leaf _, _ => trivial
  | node value parts, ht => by
    obtain ⟨hlen, hjoin, hparts⟩ := ht
    exact ⟨hlen, h _ _ hjoin, ValidAll.mono h parts hparts⟩

theorem ValidAll.mono {joins joins' : List α → α → Prop}
    (h : ∀ vs v, joins vs v → joins' vs v) :
    ∀ ts : List (MergeTree α), ValidAll joins ts → ValidAll joins' ts
  | [], _ => trivial
  | t :: ts, hts => ⟨Valid.mono h t hts.1, ValidAll.mono h ts hts.2⟩
end

/-- The trees of one round: `values` are the roots of `trees`, and each batch of
values becomes one tree. -/
theorem exists_joined {joins : List α → α → Prop} :
    ∀ {batches : List (List α)} {joined : List α} {trees : List (MergeTree α)},
      List.Forall₂ (fun batch v => batch = [v] ∨ 2 ≤ batch.length ∧ joins batch v)
        batches joined →
      trees.map root = batches.flatten → ValidAll joins trees →
      ∃ trees', trees'.map root = joined ∧ leavesAll trees' = leavesAll trees ∧
        ValidAll joins trees' := by
  intro batches joined trees hbatches
  induction hbatches generalizing trees with
  | nil =>
    intro hroots _
    obtain rfl : trees = [] := by simpa using hroots
    exact ⟨[], rfl, rfl, trivial⟩
  | @cons batch v batches joined hbatch _ ih =>
    intro hroots hvalid
    -- the trees whose roots are this batch, and the others
    have hsplit : trees = trees.take batch.length ++ trees.drop batch.length :=
      (List.take_append_drop _ _).symm
    have hhead : (trees.take batch.length).map root = batch := by
      rw [List.map_take, hroots, List.flatten_cons, List.take_left]
    have htail : (trees.drop batch.length).map root = batches.flatten := by
      rw [List.map_drop, hroots, List.flatten_cons, List.drop_left]
    have hvalidHead : ValidAll joins (trees.take batch.length) :=
      validAll_iff.mpr fun t ht => validAll_iff.mp hvalid t (List.mem_of_mem_take ht)
    have hvalidTail : ValidAll joins (trees.drop batch.length) :=
      validAll_iff.mpr fun t ht => validAll_iff.mp hvalid t (List.mem_of_mem_drop ht)
    obtain ⟨rest, hrestRoots, hrestLeaves, hrestValid⟩ := ih htail hvalidTail
    have hleaves : leavesAll trees =
        leavesAll (trees.take batch.length) ++ leavesAll (trees.drop batch.length) := by
      rw [leavesAll_eq_flatMap, leavesAll_eq_flatMap, leavesAll_eq_flatMap,
        ← List.flatMap_append, List.take_append_drop]
    rcases hbatch with rfl | ⟨hlen, hjoin⟩
    · obtain ⟨t, ht⟩ : ∃ t, trees.take 1 = [t] := by
        have h1 : (trees.take 1).length = 1 := by
          have := congrArg List.length hhead
          simpa using this
        exact List.length_eq_one_iff.mp h1
      have hroot : t.root = v := by simpa [ht] using hhead
      refine ⟨t :: rest, by rw [List.map_cons, hroot, hrestRoots], ?_, ?_⟩
      · rw [hleaves, leavesAll, hrestLeaves]
        simp [ht, leavesAll]
      · have : ValidAll joins (trees.take 1) := hvalidHead
        rw [ht] at this
        exact ⟨this.1, hrestValid⟩
    · refine ⟨node v (trees.take batch.length) :: rest, ?_, ?_, ?_, hrestValid⟩
      · rw [List.map_cons, hrestRoots]; rfl
      · rw [hleaves, leavesAll, hrestLeaves]; rfl
      · refine ⟨?_, by rw [hhead]; exact hjoin, hvalidHead⟩
        have := congrArg List.length hhead
        rw [List.length_map] at this
        omega

end MergeTree
end Lib
end Panops
