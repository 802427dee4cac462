import Panops.Lib.EditDistance
import Panops.Lib.Grid
import Panops.Lib.Loops

/-!
# The word error rate's distance

The distance behind the word error rate fills a table with one row for each place of the
first word sequence and one column for each place of the second.  A cell holds the
distance of the two fronts that end there, and the cells a turn reads are filled before
it.
-/

namespace Panops
namespace Audio

open Lib.EditDistance Lib.Grid Lib.Loops

/-- `vec![vec![0; columns + 1]; rows + 1]` with its first column and row numbered. -/
def firstTable (rows columns : Nat) : List (List Nat) :=
  let dp := List.replicate (rows + 1) (List.replicate (columns + 1) 0)
  let dp := dp.mapIdx fun i row => row.set 0 i
  dp.modify 0 fun row => row.mapIdx fun j _ => j

/-- The body of the inner loop. -/
def fillCell (a b : List String) (i j : Nat) (dp : List (List Nat)) :
    Option (List (List Nat)) := do
  let x ← a[i - 1]?
  let y ← b[j - 1]?
  let cost := if x != y then 1 else 0
  let above ← cell dp (i - 1) j
  let before ← cell dp i (j - 1)
  let diagonal ← cell dp (i - 1) (j - 1)
  setCell dp i j (min (min (above + 1) (before + 1)) (diagonal + cost))

def fillRow (a b : List String) (i : Nat) (dp : List (List Nat)) : Option (List (List Nat)) :=
  forUpTo (fillCell a b i) b.length dp

/-- `none` stands for an index outside of a table or a sequence. -/
def levenshtein (a b : List String) : Option Nat := do
  let dp ← forUpTo (fillRow a b) a.length (firstTable a.length b.length)
  cell dp a.length b.length

variable {a b : List String} {dp : List (List Nat)} {i j : Nat}

/-! ## The table as it is filled -/

/-- The distance of the fronts that end at a cell. -/
def frontDistance (a b : List String) (i j : Nat) : Nat := distance (a.take i) (b.take j)

/-- The table has all its cells, and those of the first row and column, of the rows up to
`i` and of the next row up to column `j` hold their distance. -/
structure Filled (a b : List String) (i j : Nat) (dp : List (List Nat)) : Prop where
  isSome : ∀ i' j', i' ≤ a.length → j' ≤ b.length → (cell dp i' j').isSome
  known : ∀ i' j', i' ≤ a.length → j' ≤ b.length →
    i' = 0 ∨ j' = 0 ∨ i' ≤ i ∨ i' = i + 1 ∧ j' ≤ j → cell dp i' j' = some (frontDistance a b i' j')

theorem cell_firstTable {rows columns : Nat} (hi : i ≤ rows) (hj : j ≤ columns) :
    cell (firstTable rows columns) i j = some (if i = 0 then j else if j = 0 then i else 0) := by
  have hrow : i < rows + 1 := by omega
  have hcolumn : j < columns + 1 := by omega
  rw [firstTable, cell_modify]
  by_cases h : i = 0
  · subst h
    simp [List.getElem?_mapIdx, hcolumn]
  · have hne : ¬0 = i := fun h' => h h'.symm
    rw [if_neg hne, if_neg h]
    by_cases h' : j = 0
    · subst h'
      simp [cell, hrow]
    · have hne' : ¬0 = j := fun h'' => h' h''.symm
      simp [cell, hrow, hcolumn, h', hne']

theorem filled_firstTable (a b : List String) :
    Filled a b 0 0 (firstTable a.length b.length) where
  isSome i' j' hi hj := by rw [cell_firstTable hi hj]; rfl
  known i' j' hi hj h := by
    rw [cell_firstTable hi hj, frontDistance]
    by_cases hi0 : i' = 0
    · subst hi0
      rw [if_pos rfl, List.take_zero, distance_nil_left, List.length_take, Nat.min_eq_left hj]
    · have hj0 : j' = 0 := by omega
      subst hj0
      rw [if_neg hi0, if_pos rfl, List.take_zero, distance_nil_right, List.length_take,
        Nat.min_eq_left hi]

/-- A filled row is the start of the next. -/
theorem Filled.nextRow (h : Filled a b i b.length dp) : Filled a b (i + 1) 0 dp where
  isSome := h.isSome
  known i' j' hi hj hcell := h.known i' j' hi hj (by omega)

theorem frontDistance_succ {x y : String} (hx : a[i]? = some x) (hy : b[j]? = some y) :
    frontDistance a b (i + 1) (j + 1) =
      min (min (frontDistance a b i (j + 1) + 1) (frontDistance a b (i + 1) j + 1))
        (frontDistance a b i j + cost x y) := by
  have ha : a.take (i + 1) = a.take i ++ [x] := by rw [List.take_add_one, hx]; rfl
  have hb : b.take (j + 1) = b.take j ++ [y] := by rw [List.take_add_one, hy]; rfl
  simp only [frontDistance, ha, hb, distance_concat]

/-- One turn of the inner loop fills the next cell. -/
theorem filled_fillCell (hi : i < a.length) (hj : j < b.length) (h : Filled a b i j dp) :
    ∃ dp', fillCell a b (i + 1) (j + 1) dp = some dp' ∧ Filled a b i (j + 1) dp' := by
  have hx : a[i]? = some a[i] := List.getElem?_eq_getElem hi
  have hy : b[j]? = some b[j] := List.getElem?_eq_getElem hj
  have habove := h.known i (j + 1) (by omega) (by omega) (by omega)
  have hbefore := h.known (i + 1) j (by omega) (by omega) (by omega)
  have hdiagonal := h.known i j (by omega) (by omega) (by omega)
  have hcost : (if a[i] != b[j] then 1 else 0) = cost a[i] b[j] := by
    by_cases hab : a[i] = b[j] <;> simp [cost, hab]
  obtain ⟨dp', hset, hcells⟩ := setCell_of_isSome
    (h.isSome (i + 1) (j + 1) (by omega) (by omega)) (frontDistance a b (i + 1) (j + 1))
  refine ⟨dp', ?_, fun i' j' hi' hj' => ?_, fun i' j' hi' hj' hcell => ?_⟩
  · rw [frontDistance_succ hx hy] at hset
    simp only [fillCell, Nat.add_sub_cancel, hx, hy, habove, hbefore, hdiagonal, hcost,
      Option.bind_eq_bind, Option.bind_some]
    exact hset
  · rw [hcells]
    split
    · rfl
    · exact h.isSome i' j' hi' hj'
  · rw [hcells]
    split
    · next hhere => rw [← hhere.1, ← hhere.2]
    · next helse => exact h.known i' j' hi' hj' (by omega)

theorem filled_fillRow (hi : i < a.length) (h : Filled a b i 0 dp) :
    ∃ dp', fillRow a b (i + 1) dp = some dp' ∧ Filled a b (i + 1) 0 dp' := by
  obtain ⟨dp', hrow, hfilled⟩ := forUpTo_rule b.length (fun j => Filled a b i j)
    (fun j dp hj hdp => filled_fillCell hi hj hdp) h
  exact ⟨dp', hrow, hfilled.nextRow⟩

/-- The last cell of the filled table is the distance of the whole sequences. -/
theorem levenshtein_eq_distance (a b : List String) : levenshtein a b = some (distance a b) := by
  obtain ⟨dp, hloop, hfilled⟩ := forUpTo_rule a.length (fun i => Filled a b i 0)
    (fun i dp hi hdp => filled_fillRow hi hdp) (filled_firstTable a b)
  have hlast := hfilled.known a.length b.length (by omega) (by omega) (by omega)
  rw [frontDistance, List.take_length, List.take_length] at hlast
  rw [levenshtein, hloop]
  exact hlast

/-! ## What the distance is -/

/-- No index of `levenshtein` fails, and what it returns is the least number of
insertions, deletions and substitutions, which is a distance. -/
theorem levenshtein_isEditDistance :
    (∀ a b : List String, levenshtein a b = some (distance a b) ∧
      IsLeast {n | Edits n a b} (distance a b)) ∧
    (∀ a b : List String, levenshtein a b = levenshtein b a) ∧
    (∀ a b : List String, levenshtein a b = some 0 ↔ a = b) ∧
    ∀ a b c : List String, ∃ ab bc ac, levenshtein a b = some ab ∧ levenshtein b c = some bc ∧
      levenshtein a c = some ac ∧ ac ≤ ab + bc := by
  refine ⟨fun a b => ⟨levenshtein_eq_distance a b, isLeast_distance a b⟩, fun a b => ?_,
    fun a b => ?_, fun a b c => ?_⟩
  · rw [levenshtein_eq_distance, levenshtein_eq_distance, distance_comm]
  · rw [levenshtein_eq_distance, Option.some_inj]
    exact distance_eq_zero_iff
  · exact ⟨_, _, _, levenshtein_eq_distance a b, levenshtein_eq_distance b c,
      levenshtein_eq_distance a c, distance_triangle a b c⟩

example : levenshtein ["the", "quick", "brown", "fox"] ["the", "brown", "dog"] = some 2 := by
  decide

end Audio
end Panops
