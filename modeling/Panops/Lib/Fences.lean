import Mathlib.Data.List.Basic

/-!
# Marked lines that come in pairs

A text by lines, some of which carry a mark.  A mark opens a block, the same mark
closes it, and other marks in between mean nothing.  A text that is cut in the middle
of a line outside every block, with no mark on what is left of the line, is marked
afterwards as before.
-/

namespace Panops
namespace Lib
namespace Fences

/-! ## Lines -/

section Lines

variable {α : Type} [DecidableEq α] {sep : α}

/-- The line a position is on, counting from 0. -/
def lineNumber (sep : α) (text : List α) (pos : Nat) : Nat := (text.take pos).count sep

theorem lineNumber_mono (text : List α) {p q : Nat} (h : p ≤ q) :
    lineNumber sep text p ≤ lineNumber sep text q := by
  have hsub : (text.take p).Sublist (text.take q) :=
    (List.take_prefix_take_left h).sublist
  exact hsub.count_le sep

/-- What is left of the line at a position. -/
def restOfLine (sep : α) (text : List α) (pos : Nat) : List α :=
  (text.drop pos).takeWhile (· ≠ sep)

theorem splitOn_cases (sep : α) (text : List α) :
    (sep ∉ text ∧ text.splitOn sep = [text]) ∨
      ∃ line rest, text = line ++ sep :: rest ∧ sep ∉ line ∧
        text.splitOn sep = line :: rest.splitOn sep := by
  by_cases hmem : sep ∈ text
  · obtain ⟨line, rest, rfl, hline⟩ := List.eq_append_cons_of_mem hmem
    exact .inr ⟨line, rest, rfl, hline, List.splitOn_append_cons_self_of_not_mem hline rest⟩
  · exact .inl ⟨hmem, List.splitOn_eq_singleton hmem⟩

theorem takeWhile_line {line : List α} (h : sep ∉ line) (rest : List α) :
    (line ++ sep :: rest).takeWhile (· ≠ sep) = line := by
  have hall : ∀ a ∈ line, decide (a ≠ sep) = true := fun a ha =>
    decide_eq_true fun heq => h (heq ▸ ha)
  rw [List.takeWhile_append_of_pos hall, List.takeWhile_cons_of_neg (by simp), List.append_nil]

theorem head?_splitOn (text : List α) :
    (text.splitOn sep).head? = some (text.takeWhile (· ≠ sep)) := by
  rcases splitOn_cases sep text with ⟨hmem, hlines⟩ | ⟨line, rest, rfl, hline, hlines⟩
  · have hall : ∀ a ∈ text, decide (a ≠ sep) = true := fun a ha =>
      decide_eq_true fun heq => hmem (heq ▸ ha)
    have hwhile : (text ++ []).takeWhile (· ≠ sep) = text ++ [].takeWhile (· ≠ sep) :=
      List.takeWhile_append_of_pos hall
    rw [List.takeWhile_nil, List.append_nil] at hwhile
    rw [hlines, hwhile]
    rfl
  · rw [hlines, takeWhile_line hline]
    rfl

/-- The line that is cut is the last of the front and the first of the rest. -/
theorem splitOn_append (front rest : List α) :
    ∃ before cut after, front.splitOn sep = before ++ [cut] ∧
      rest.splitOn sep = rest.takeWhile (· ≠ sep) :: after ∧
      (front ++ rest).splitOn sep = before ++ (cut ++ rest.takeWhile (· ≠ sep)) :: after ∧
      before.length = front.count sep := by
  induction front with
  | nil =>
    have hhead := @head?_splitOn α _ sep rest
    cases hlines : rest.splitOn sep with
    | nil => exact absurd hlines (List.splitOn_ne_nil sep rest)
    | cons line after =>
      rw [hlines] at hhead
      obtain rfl : line = rest.takeWhile (· ≠ sep) := Option.some.inj hhead
      exact ⟨[], [], after, rfl, rfl, hlines, rfl⟩
  | cons c front ih =>
    obtain ⟨before, cut, after, hfront, hrest, hall, hlength⟩ := ih
    by_cases hc : c = sep
    · subst hc
      refine ⟨[] :: before, cut, after, ?_, hrest, ?_, ?_⟩
      · rw [List.splitOn_cons_eq_if_modifyHead, hfront]
        simp
      · rw [List.cons_append, List.splitOn_cons_eq_if_modifyHead, hall]
        simp
      · rw [List.count_cons_self, List.length_cons, hlength]
    · have hbeq : (c == sep) = false := beq_eq_false_iff_ne.mpr hc
      rw [List.count_cons_of_ne (Ne.symm (Ne.symm hc))]
      rw [List.splitOn_cons_eq_if_modifyHead, List.cons_append,
        List.splitOn_cons_eq_if_modifyHead, hfront, hall, hbeq]
      cases before with
      | nil => exact ⟨[], c :: cut, after, rfl, hrest, rfl, hlength⟩
      | cons line before => exact ⟨(c :: line) :: before, cut, after, rfl, hrest, rfl, hlength⟩

end Lines

/-! ## Blocks between marks -/

section Marks

variable {M : Type} [DecidableEq M]

/-- What is open after a line. -/
def next : Option M → Option M → Option M
  | none, mark => mark
  | some o, mark => if mark = some o then none else some o

/-- The line belongs to a block, as its first, its last or one in between. -/
def covered (o mark : Option M) : Bool := o.isSome || mark.isSome

def coverage : Option M → List (Option M) → List Bool
  | _, [] => []
  | o, mark :: marks => covered o mark :: coverage (next o mark) marks

theorem coverage_append (o : Option M) (front rest : List (Option M)) :
    coverage o (front ++ rest) = coverage o front ++ coverage (front.foldl next o) rest := by
  induction front generalizing o with
  | nil => rfl
  | cons mark front ih =>
    rw [List.cons_append, coverage, ih, coverage, List.cons_append]
    rfl

theorem length_coverage (o : Option M) (marks : List (Option M)) :
    (coverage o marks).length = marks.length := by
  induction marks generalizing o with
  | nil => rfl
  | cons mark marks ih => rw [coverage, List.length_cons, ih, List.length_cons]

omit [DecidableEq M] in
theorem covered_eq_false_iff {o mark : Option M} : covered o mark = false ↔
    o = none ∧ mark = none := by
  cases o <;> cases mark <;> simp [covered]

/-- Nothing is open around a line outside every block, nor after it. -/
theorem coverage_of_uncovered {before after : List (Option M)} {mark : Option M}
    (h : (coverage none (before ++ mark :: after))[before.length]? = some false) :
    mark = none ∧ before.foldl next none = none := by
  rw [coverage_append, List.getElem?_append_right (Nat.le_of_eq (length_coverage _ _)),
    length_coverage, Nat.sub_self, coverage] at h
  have hline := covered_eq_false_iff.mp (Option.some.inj h)
  exact ⟨hline.2, hline.1⟩

end Marks

/-! ## Cutting a text -/

section Cuts

variable {α M : Type} [DecidableEq α] [DecidableEq M] {sep : α} {mark : List α → Option M}
variable {text : List α} {p q : Nat}

/-- For each line whether it belongs to a block. -/
def blocks (sep : α) (mark : List α → Option M) (text : List α) : List Bool :=
  coverage none ((text.splitOn sep).map mark)

/-- The position stands on a line outside every block. -/
def Outside (sep : α) (mark : List α → Option M) (text : List α) (p : Nat) : Prop :=
  (blocks sep mark text)[lineNumber sep text p]? = some false

/-- The position stands on such a line, and what is left of it has no mark. -/
def Clear (sep : α) (mark : List α → Option M) (text : List α) (p : Nat) : Prop :=
  Outside sep mark text p ∧ mark (restOfLine sep text p) = none

/-- The lines around a position outside every block: nothing is open there, and the line
has no mark. -/
theorem Outside.cut (h : Outside sep mark text p) :
    ∃ before cut after, before.length = lineNumber sep text p ∧
      (text.take p).splitOn sep = before ++ [cut] ∧
      (text.drop p).splitOn sep = restOfLine sep text p :: after ∧
      blocks sep mark text =
        coverage none (before.map mark) ++ false :: coverage none (after.map mark) ∧
      (before.map mark).foldl next none = none ∧ mark (cut ++ restOfLine sep text p) = none := by
  obtain ⟨before, cut, after, hfront, hdrop, hall, hlength⟩ :=
    @splitOn_append α _ sep (text.take p) (text.drop p)
  rw [List.take_append_drop] at hall
  have hline : lineNumber sep text p = (before.map mark).length := by
    rw [List.length_map, hlength]
    rfl
  have hcut : (text.splitOn sep).map mark = before.map mark ++
      mark (cut ++ restOfLine sep text p) :: after.map mark := by
    rw [hall, List.map_append, List.map_cons]
    rfl
  rw [Outside, blocks, hcut, hline] at h
  obtain ⟨hmark, hopen⟩ := coverage_of_uncovered h
  refine ⟨before, cut, after, hlength, hfront, hdrop, ?_, hopen, hmark⟩
  rw [blocks, hcut, coverage_append, hopen, hmark]
  rfl

/-- Behind a clear position the blocks are those of the text itself. -/
theorem blocks_drop (h : p = 0 ∨ Clear sep mark text p) :
    ∃ front, front.length = lineNumber sep text p ∧
      blocks sep mark text = front ++ blocks sep mark (text.drop p) := by
  rcases h with rfl | ⟨houtside, hrest⟩
  · exact ⟨[], rfl, rfl⟩
  · obtain ⟨before, cut, after, hlength, -, hdrop, hblocks, -, -⟩ := houtside.cut
    refine ⟨coverage none (before.map mark), ?_, ?_⟩
    · rw [length_coverage, List.length_map, hlength]
    · have hpiece : blocks sep mark (text.drop p) = false :: coverage none (after.map mark) := by
        rw [blocks, hdrop, List.map_cons, hrest]
        rfl
      rw [hblocks, hpiece]

/-- Up to a position outside every block they are those of the text, when part of a
line without a mark has none. -/
theorem blocks_take (hmark : ∀ front rest : List α, mark (front ++ rest) = none → mark front = none)
    (h : text.length ≤ p ∨ Outside sep mark text p) :
    ∃ rest, blocks sep mark text = blocks sep mark (text.take p) ++ rest := by
  rcases h with hlength | houtside
  · exact ⟨[], by rw [List.take_of_length_le hlength, List.append_nil]⟩
  · obtain ⟨before, cut, after, -, hfront, -, hblocks, hopen, hwhole⟩ := houtside.cut
    refine ⟨coverage none (after.map mark), ?_⟩
    have hpiece : blocks sep mark (text.take p) = coverage none (before.map mark) ++ [false] := by
      rw [blocks, hfront, List.map_append, coverage_append, hopen, List.map_singleton,
        hmark _ _ hwhole]
      rfl
    rw [hblocks, hpiece, List.append_assoc]
    rfl

theorem lineNumber_add (text : List α) (h : p ≤ q) :
    lineNumber sep text q = lineNumber sep text p + lineNumber sep (text.drop p) (q - p) := by
  have htake : text.take q = text.take p ++ (text.drop p).take (q - p) := by
    rw [← List.take_add, Nat.add_sub_cancel' h]
  rw [lineNumber, htake, List.count_append]
  rfl

/-- A piece cut out between a clear position and one outside every block. -/
theorem blocks_slice
    (hmark : ∀ front rest : List α, mark (front ++ rest) = none → mark front = none)
    (hp : p = 0 ∨ Clear sep mark text p) (hq : text.length ≤ q ∨ Outside sep mark text q)
    (hle : p ≤ q) {j : Nat} {c : Bool}
    (h : (blocks sep mark ((text.take q).drop p))[j]? = some c) :
    (blocks sep mark text)[lineNumber sep text p + j]? = some c := by
  obtain ⟨front, hfront, hall⟩ := blocks_drop hp
  have hend : (text.drop p).length ≤ q - p ∨ Outside sep mark (text.drop p) (q - p) := by
    rcases hq with hlength | houtside
    · refine .inl ?_
      rw [List.length_drop]
      omega
    · refine .inr ?_
      rw [Outside, hall, lineNumber_add text hle, ← hfront,
        List.getElem?_append_right (Nat.le_add_right _ _), Nat.add_sub_cancel_left] at houtside
      exact houtside
  obtain ⟨rest, hpiece⟩ := blocks_take hmark hend
  have hslice : (text.take q).drop p = (text.drop p).take (q - p) := List.drop_take
  rw [hslice] at h
  have hj : j < (blocks sep mark ((text.drop p).take (q - p))).length :=
    (List.getElem?_eq_some_iff.mp h).1
  rw [hall, hpiece, ← hfront, List.getElem?_append_right (Nat.le_add_right _ _),
    Nat.add_sub_cancel_left, List.getElem?_append_left hj]
  exact h

end Cuts

end Fences
end Lib
end Panops
