import Mathlib.Data.Nat.Notation

/-!
# Tables of rows

A table kept as a list of rows.  Reading or writing outside of it fails; a write inside
changes that cell and no other.
-/

namespace Panops
namespace Lib
namespace Grid

variable {α : Type}

def cell (rows : List (List α)) (i j : Nat) : Option α :=
  rows[i]?.bind fun row => row[j]?

def setCell (rows : List (List α)) (i j : Nat) (x : α) : Option (List (List α)) :=
  (cell rows i j).map fun _ => rows.modify i fun row => row.set j x

variable {rows : List (List α)} {i j : Nat}

theorem cell_modify (f : List α → List α) (i i' j' : Nat) :
    cell (rows.modify i f) i' j' =
      if i = i' then rows[i']?.bind fun row => (f row)[j']? else cell rows i' j' := by
  rw [cell, List.getElem?_modify]
  by_cases hi : i = i'
  · subst hi
    rw [if_pos rfl]
    cases rows[i]? with
    | none => rfl
    | some row => simp
  · rw [if_neg hi]
    cases hrow : rows[i']? with
    | none => simp [cell, hrow]
    | some row => simp [hi, cell, hrow]

/-- A write to a cell that is there. -/
theorem setCell_of_isSome (h : (cell rows i j).isSome) (x : α) :
    ∃ rows', setCell rows i j x = some rows' ∧
      ∀ i' j', cell rows' i' j' = if i = i' ∧ j = j' then some x else cell rows i' j' := by
  obtain ⟨y, hy⟩ := Option.isSome_iff_exists.mp h
  refine ⟨rows.modify i fun row => row.set j x, by rw [setCell, hy]; rfl, fun i' j' => ?_⟩
  rw [cell_modify]
  by_cases hi : i = i'
  · subst hi
    cases hrow : rows[i]? with
    | none => simp [cell, hrow] at hy
    | some row =>
      have hj : row[j]? = some y := by simpa [cell, hrow] using hy
      obtain ⟨hlt, -⟩ := List.getElem?_eq_some_iff.mp hj
      rw [if_pos rfl, Option.bind_some, List.getElem?_set]
      by_cases hjj : j = j'
      · rw [if_pos hjj, if_pos hlt, if_pos ⟨rfl, hjj⟩]
      · rw [if_neg hjj, if_neg fun hboth => hjj hboth.2, cell, hrow, Option.bind_some]
  · rw [if_neg hi, if_neg fun hboth => hi hboth.1]

end Grid
end Lib
end Panops
