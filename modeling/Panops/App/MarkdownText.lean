import Panops.Lib.TextLines

/-!
# The app's view of `notes.md`

`Markdown.stripFrontmatter`: what is displayed of a text that may begin with a block
between two `---` lines.
-/

namespace Panops
namespace Markdown

open Lib.Text

/-- `CharacterSet.whitespaces`: the space separators and the tab. -/
def isSpace (c : Char) : Bool :=
  let n := c.toNat
  n == 9 || n == 0x20 || n == 0xA0 || n == 0x1680 || (0x2000 ≤ n && n ≤ 0x200A) ||
    n == 0x202F || n == 0x205F || n == 0x3000

def fence : List Char := ['-', '-', '-']

def isFence (line : List Char) : Bool := trimOf isSpace line == fence

def stripFrontmatter (source : String) : String :=
  match (unifyBreaks source.toList).splitOn '\n' with
  | [] => source
  | first :: rest =>
    if isFence first then
      -- The first fence after line 0 closes the block.
      match rest.dropWhile fun line => !isFence line with
      | _ :: body => String.ofList (trim (['\n'].intercalate body))
      | [] => source
    else source

theorem isFence_fence : isFence fence = true := by decide

/-- A line with something else on it than dashes is no fence. -/
theorem isFence_of_mem {line : List Char} {c : Char} (hc : c ∈ line) (hspace : isSpace c = false)
    (hdash : c ≠ '-') : isFence line = false := by
  by_contra hne
  have heq : trimOf isSpace line = fence := by
    simpa [isFence] using hne
  have hmem := mem_trimOf hc hspace
  rw [heq] at hmem
  simp [fence, hdash] at hmem

variable {inner : List (List Char)}

/-- The lines of a text that begins with a fence and these lines. -/
theorem splitOn_unifyBreaks (hline : ∀ l ∈ inner, '\n' ∉ l ∧ '\r' ∉ l) (rest : List Char) :
    (unifyBreaks (unlines (fence :: inner) ++ rest)).splitOn '\n' =
      fence :: inner ++ (unifyBreaks rest).splitOn '\n' := by
  have hfence : '\n' ∉ fence ∧ '\r' ∉ fence := by decide
  have hall : ∀ l ∈ fence :: inner, '\n' ∉ l ∧ '\r' ∉ l := by
    intro l hl
    rcases List.mem_cons.mp hl with rfl | hl
    · exact hfence
    · exact hline l hl
  have hreturn : '\r' ∉ unlines (fence :: inner) := by
    intro hmem
    obtain ⟨l, hl, hmem⟩ := List.mem_flatMap.mp hmem
    rcases List.mem_append.mp hmem with hmem | hmem
    · exact (hall l hl).2 hmem
    · exact absurd (List.mem_singleton.mp hmem) (by decide)
  rw [unifyBreaks_append hreturn, splitOn_unlines fun l hl => (hall l hl).1]

variable (hline : ∀ l ∈ inner, '\n' ∉ l ∧ '\r' ∉ l) (hinner : ∀ l ∈ inner, isFence l = false)

include hline hinner

/-- A block that is closed is taken away, whatever comes after it. -/
theorem stripFrontmatter_closed {source : String} {rest : List Char}
    (h : source.toList = unlines (fence :: inner) ++ (unlines [fence] ++ rest)) :
    stripFrontmatter source = String.ofList (trim (unifyBreaks rest)) := by
  have hlines : (unifyBreaks source.toList).splitOn '\n' =
      fence :: (inner ++ fence :: (unifyBreaks rest).splitOn '\n') := by
    have hclose := @splitOn_unifyBreaks [] (by simp) rest
    rw [h, splitOn_unifyBreaks hline, hclose]
    rfl
  have hskip : ∀ l ∈ inner, (!isFence l) = true := fun l hl => by rw [hinner l hl]; rfl
  have hdrop : (inner ++ fence :: (unifyBreaks rest).splitOn '\n').dropWhile
      (fun line => !isFence line) = fence :: (unifyBreaks rest).splitOn '\n' := by
    rw [List.dropWhile_append_of_pos hskip, List.dropWhile_cons_of_neg (by decide)]
  rw [stripFrontmatter, hlines]
  simp only [isFence_fence, if_true, hdrop, List.intercalate_splitOn]

/-- A block that is not closed is displayed with everything else. -/
theorem stripFrontmatter_open {source : String} (h : source.toList = unlines (fence :: inner)) :
    stripFrontmatter source = source := by
  have hlines : (unifyBreaks source.toList).splitOn '\n' = fence :: (inner ++ [[]]) := by
    have := splitOn_unifyBreaks hline []
    rw [List.append_nil] at this
    rw [h, this]
    rfl
  have hskip : ∀ l ∈ inner ++ [[]], (!isFence l) = true := by
    intro l hl
    rcases List.mem_append.mp hl with hl | hl
    · rw [hinner l hl]
      rfl
    · rw [List.mem_singleton.mp hl]
      decide
  have hdrop : (inner ++ [[]]).dropWhile (fun line => !isFence line) = [] :=
    dropWhile_eq_nil hskip
  rw [stripFrontmatter, hlines]
  simp only [isFence_fence, if_true, hdrop]

end Markdown
end Panops
