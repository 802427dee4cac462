import Panops.App.MarkdownBlocks
import Panops.Lib.Loops

/-!
# Container tags

`Markdown.nextContainerTag`: the next `<callout>`, `<details>` or `<table>` that does not
open inside fenced code, up to its closing tag, and the block it becomes.  Every loop
here goes on behind what it found, so a turn for each character is enough.
-/

namespace Panops
namespace Markdown

open Lib.Text
open Lib.Search
open Lib.Loops

inductive Container where
  | callout
  | details
  | table
deriving DecidableEq

def Container.name : Container → List Char
  | .callout => "callout".toList
  | .details => "details".toList
  | .table => "table".toList

def containerNames : List Container := [.callout, .details, .table]

structure ContainerMatch where
  range : Span
  block : Option MarkdownBlock
deriving DecidableEq

/-- Turns enough for a loop over a text. -/
def turns (text : List Char) : Nat := text.length + 1

/-- A search for exactly these characters. -/
def find (pat text : List Char) (start : Nat) : Option Span :=
  rangeOf (fun c d => decide (c = d)) pat text start

section Scanner

variable (letters : Letters)

/-- A search without regard to case. -/
def findNoCase (pat text : List Char) (start : Nat) : Option Span :=
  rangeOf letters.same pat text start

/-! ## What is in a container -/

def parseIconAttr (openTag : List Char) : Option String :=
  let icons := ["icon=\"".toList, "icon='".toList].filterMap fun quote => do
    let start ← find quote openTag 0
    let close := if ['"'].isSuffixOf quote then "\"".toList else "'".toList
    let stop ← find close openTag start.upper
    let icon := trimOf isSpace (slice openTag start.upper stop.lower)
    return if icon.isEmpty then none else some (String.ofList icon)
  icons.head?.join

def parseDetails (inner : List Char) : String × String :=
  let summary := do
    let opening ← findNoCase letters "<summary".toList inner 0
    let openEnd ← find ['>'] inner opening.upper
    let close ← findNoCase letters "</summary>".toList inner openEnd.upper
    return (openEnd, close)
  match summary with
  | none => ("", String.ofList (trim inner))
  | some (openEnd, close) =>
    (String.ofList (trim (inlineText letters (slice inner openEnd.upper close.lower)).toList),
      String.ofList (trim (inner.drop close.upper)))

/-- `td` or `th` at the beginning, in any case. -/
def cellName (rest : List Char) : Option (List Char) :=
  ["td".toList, "th".toList].find? fun name => name.isPrefixOf (rest.map letters.lower)

structure CellState where
  search : Nat
  cells : List String
deriving DecidableEq

def cellStep (rowInner : List Char) (st : CellState) : Option (Turn CellState (List String)) :=
  match find ['<'] rowInner st.search with
  | none => some (.done st.cells)
  | some lt =>
    match cellName letters (rowInner.drop lt.upper) with
    | none => some (.again { st with search := lt.upper })
    | some name =>
      let cell := do
        let gt ← find ['>'] rowInner lt.upper
        let close ← findNoCase letters ("</".toList ++ name ++ ['>']) rowInner gt.upper
        return (gt, close)
      match cell with
      | none => some (.done st.cells)
      | some (gt, close) =>
        let text := trim (inlineText letters (slice rowInner gt.upper close.lower)).toList
        some (.again ⟨close.upper, st.cells ++ [String.ofList text]⟩)

def parseCells (rowInner : List Char) : Option (List String) :=
  runWhile (cellStep letters rowInner) (turns rowInner) ⟨0, []⟩

structure RowState where
  search : Nat
  rows : List (List String)
deriving DecidableEq

def rowStep (inner : List Char) (st : RowState) : Option (Turn RowState (List (List String))) :=
  let row := do
    let opening ← findNoCase letters "<tr".toList inner st.search
    let gt ← find ['>'] inner opening.upper
    let close ← findNoCase letters "</tr>".toList inner gt.upper
    return (gt, close)
  match row with
  | none => some (.done st.rows)
  | some (gt, close) =>
    match parseCells letters (slice inner gt.upper close.lower) with
    | none => none
    | some cells =>
      some (.again ⟨close.upper, if cells.isEmpty then st.rows else st.rows ++ [cells]⟩)

def parseTableRows (inner : List Char) : Option (List (List String)) :=
  runWhile (rowStep letters inner) (turns inner) ⟨0, []⟩

def makeContainerBlock (name : Container) (openTag inner : List Char) : Option MarkdownBlock :=
  match name with
  | .callout => some (.callout (parseIconAttr openTag) (String.ofList (trim inner)))
  | .details =>
    let parts := parseDetails letters inner
    some (.disclosure parts.1 parts.2)
  | .table => (parseTableRows letters inner).map .table

/-! ## Finding the next container -/

/-- Behind the name: a blank, a `>` or a `/`. -/
def boundaryOk (text : List Char) (after : Nat) : Bool :=
  text[after]?.any fun c => " \t\r\n>/".toList.contains c

def openStep (text : List Char) (fenced : List Span) (name : Container) (searchStart : Nat) :
    Option (Turn Nat (Option Span)) :=
  match findNoCase letters ('<' :: name.name) text searchStart with
  | none => some (.done none)
  | some openMark =>
    if boundaryOk text openMark.upper && !inFence fenced openMark.lower then
      some (.done (some openMark))
    else some (.again openMark.upper)

def findOpen (text : List Char) (fenced : List Span) (start : Nat) (name : Container) :
    Option (Option Span) :=
  runWhile (openStep letters text fenced name) (turns text) start

structure Opening where
  mark : Span
  name : Container
deriving DecidableEq

/-- The earlier of two openings. -/
def better (best : Option Opening) (name : Container) (found : Option Span) : Option Opening :=
  match found, best with
  | none, _ => best
  | some mark, none => some ⟨mark, name⟩
  | some mark, some b => if mark.lower < b.mark.lower then some ⟨mark, name⟩ else best

def bestOpening (text : List Char) (fenced : List Span) (start : Nat) :
    List Container → Option Opening → Option (Option Opening)
  | [], best => some best
  | name :: names, best =>
    match findOpen letters text fenced start name with
    | none => none
    | some found => bestOpening text fenced start names (better best name found)

/-- From an opening to its closing tag; without one only the opening tag is taken. -/
def containerAt (text : List Char) (chosen : Opening) : Option ContainerMatch :=
  match find ['>'] text chosen.mark.upper with
  | none => some ⟨chosen.mark, none⟩
  | some openEnd =>
    let openTag := slice text chosen.mark.lower openEnd.upper
    match findNoCase letters ("</".toList ++ chosen.name.name ++ ['>']) text openEnd.upper with
    | none => some ⟨⟨chosen.mark.lower, openEnd.upper⟩, none⟩
    | some close =>
      (makeContainerBlock letters chosen.name openTag
        (slice text openEnd.upper close.lower)).map fun block =>
          ⟨⟨chosen.mark.lower, close.upper⟩, some block⟩

def nextContainerTag (text : List Char) (fenced : List Span) (start : Nat) :
    Option (Option ContainerMatch) :=
  match bestOpening letters text fenced start containerNames none with
  | none => none
  | some none => some none
  | some (some chosen) => (containerAt letters text chosen).map some

end Scanner

/-! ## The loops end -/

section Ends

variable {letters : Letters} {text inner rowInner openTag pat : List Char} {fenced : List Span}
variable {start : Nat} {name : Container} {range : Span}

theorem find_bounds (h : find pat text start = some range) (hstart : start ≤ text.length) :
    start ≤ range.lower ∧ range.upper = range.lower + pat.length ∧ range.upper ≤ text.length :=
  rangeOf_bounds h hstart

theorem findNoCase_bounds (h : findNoCase letters pat text start = some range)
    (hstart : start ≤ text.length) :
    start ≤ range.lower ∧ range.upper = range.lower + pat.length ∧ range.upper ≤ text.length :=
  rangeOf_bounds h hstart

/-- Every turn goes on behind the `<` it found. -/
theorem cellStep_decreases : Decreases (cellStep letters rowInner)
    (fun st => rowInner.length - st.search) (fun st => st.search ≤ rowInner.length) := by
  intro st hst
  unfold cellStep
  split
  · exact .inl ⟨_, rfl⟩
  · next lt hlt =>
    obtain ⟨hfrom, hupper, hlength⟩ := find_bounds hlt hst
    rw [List.length_singleton] at hupper
    split
    · refine .inr ⟨_, rfl, hlength, ?_⟩
      show rowInner.length - lt.upper < rowInner.length - st.search
      omega
    · simp only
      split
      · exact .inl ⟨_, rfl⟩
      · next gt close hcell =>
        obtain ⟨gt', hgt, hrest⟩ := Option.bind_eq_some_iff.mp hcell
        obtain ⟨close', hclose, heq⟩ := Option.bind_eq_some_iff.mp hrest
        cases heq
        have hgtBounds := find_bounds hgt hlength
        have hcloseBounds := findNoCase_bounds hclose hgtBounds.2.2
        refine .inr ⟨_, rfl, hcloseBounds.2.2, ?_⟩
        show rowInner.length - close.upper < rowInner.length - st.search
        omega

theorem exists_parseCells : ∃ cells, parseCells letters rowInner = some cells := by
  refine exists_runWhile cellStep_decreases (Nat.zero_le _) ?_
  exact Nat.lt_succ_of_le (Nat.sub_le _ _)

theorem rowStep_decreases : Decreases (rowStep letters inner)
    (fun st => inner.length - st.search) (fun st => st.search ≤ inner.length) := by
  intro st hst
  unfold rowStep
  simp only
  split
  · exact .inl ⟨_, rfl⟩
  · next gt close hrow =>
    obtain ⟨opening, hopening, hrest⟩ := Option.bind_eq_some_iff.mp hrow
    obtain ⟨gt', hgt, hrest⟩ := Option.bind_eq_some_iff.mp hrest
    obtain ⟨close', hclose, heq⟩ := Option.bind_eq_some_iff.mp hrest
    cases heq
    have hopeningBounds := findNoCase_bounds hopening hst
    have hgtBounds := find_bounds hgt hopeningBounds.2.2
    have hcloseBounds := findNoCase_bounds hclose hgtBounds.2.2
    have hpos : "<tr".toList.length = 3 := rfl
    obtain ⟨cells, hcells⟩ := @exists_parseCells letters (slice inner gt.upper close.lower)
    rw [hcells]
    refine .inr ⟨_, rfl, hcloseBounds.2.2, ?_⟩
    show inner.length - close.upper < inner.length - st.search
    omega

theorem exists_parseTableRows : ∃ rows, parseTableRows letters inner = some rows := by
  refine exists_runWhile rowStep_decreases (Nat.zero_le _) ?_
  exact Nat.lt_succ_of_le (Nat.sub_le _ _)

theorem exists_makeContainerBlock : ∃ block, makeContainerBlock letters name openTag inner =
    some block ∧ block.isContainer = true := by
  cases name with
  | callout => exact ⟨_, rfl, rfl⟩
  | details => exact ⟨_, rfl, rfl⟩
  | table =>
    obtain ⟨rows, hrows⟩ := @exists_parseTableRows letters inner
    exact ⟨.table rows, by rw [makeContainerBlock, hrows]; rfl, rfl⟩

theorem openStep_decreases : Decreases (openStep letters text fenced name)
    (fun searchStart => text.length - searchStart)
    (fun searchStart => searchStart ≤ text.length) := by
  intro searchStart hstart
  unfold openStep
  split
  · exact .inl ⟨_, rfl⟩
  · next openMark hmark =>
    obtain ⟨hfrom, hupper, hlength⟩ := findNoCase_bounds hmark hstart
    rw [List.length_cons] at hupper
    split
    · exact .inl ⟨_, rfl⟩
    · refine .inr ⟨_, rfl, hlength, ?_⟩
      show text.length - openMark.upper < text.length - searchStart
      omega

/-! ## What is found -/

/-- A place for an opening: from `start` on, and not inside fenced code. -/
structure Opens (text : List Char) (fenced : List Span) (start : Nat) (mark : Span) : Prop where
  from_start : start ≤ mark.lower
  nonempty : mark.lower < mark.upper
  within : mark.upper ≤ text.length
  outside : inFence fenced mark.lower = false

theorem findOpen_spec (hstart : start ≤ text.length) :
    ∃ found, findOpen letters text fenced start name = some found ∧
      ∀ mark, found = some mark → Opens text fenced start mark := by
  obtain ⟨found, hfound⟩ : ∃ found, findOpen letters text fenced start name = some found :=
    exists_runWhile openStep_decreases hstart (Nat.lt_succ_of_le (Nat.sub_le _ _))
  refine ⟨found, hfound, ?_⟩
  have hagain : ∀ s s', (start ≤ s ∧ s ≤ text.length) →
      openStep letters text fenced name s = some (.again s') → start ≤ s' ∧ s' ≤ text.length := by
    rintro s s' ⟨hs, hlength⟩ hstep
    unfold openStep at hstep
    split at hstep
    · cases hstep
    · next openMark hmark =>
      have hbounds := findNoCase_bounds hmark hlength
      split at hstep
      · cases hstep
      · cases hstep
        omega
  have hdone : ∀ s r, (start ≤ s ∧ s ≤ text.length) →
      openStep letters text fenced name s = some (.done r) →
      ∀ mark, r = some mark → Opens text fenced start mark := by
    rintro s r ⟨hs, hlength⟩ hstep mark rfl
    unfold openStep at hstep
    split at hstep
    · cases hstep
    · next openMark hmark =>
      obtain ⟨hfrom, hupper, hwithin⟩ := findNoCase_bounds hmark hlength
      rw [List.length_cons] at hupper
      split at hstep
      · next hcond =>
        cases hstep
        have houtside := (Bool.and_eq_true_iff.mp hcond).2
        rw [Bool.not_eq_true'] at houtside
        exact ⟨by omega, by omega, hwithin, houtside⟩
      · cases hstep
  exact runWhile_rule hagain hdone ⟨Nat.le_refl start, hstart⟩ hfound

theorem better_spec {best : Option Opening} {found : Option Span}
    (hbest : ∀ o, best = some o → Opens text fenced start o.mark)
    (hfound : ∀ mark, found = some mark → Opens text fenced start mark) :
    ∀ o, better best name found = some o → Opens text fenced start o.mark := by
  intro o ho
  unfold better at ho
  split at ho
  · exact hbest o ho
  · cases ho
    exact hfound _ rfl
  · split at ho
    · cases ho
      exact hfound _ rfl
    · exact hbest o ho

theorem bestOpening_spec (hstart : start ≤ text.length) (names : List Container) :
    ∀ best : Option Opening, (∀ o, best = some o → Opens text fenced start o.mark) →
      ∃ chosen, bestOpening letters text fenced start names best = some chosen ∧
        ∀ o, chosen = some o → Opens text fenced start o.mark := by
  induction names with
  | nil => exact fun best hbest => ⟨best, rfl, hbest⟩
  | cons name names ih =>
    intro best hbest
    obtain ⟨found, hfound, hopens⟩ := @findOpen_spec letters text fenced start name hstart
    rw [bestOpening, hfound]
    exact ih _ (better_spec hbest hopens)

/-- The piece that is cut out begins at the opening and is not empty. -/
theorem containerAt_spec {chosen : Opening} (h : Opens text fenced start chosen.mark) :
    ∃ m, containerAt letters text chosen = some m ∧ Opens text fenced start m.range ∧
      ∀ block, m.block = some block → block.isContainer = true := by
  unfold containerAt
  split
  · exact ⟨_, rfl, h, fun block hblock => by cases hblock⟩
  · next openEnd hopenEnd =>
    have hend := find_bounds hopenEnd h.within
    have hnonempty := h.nonempty
    simp only
    split
    · refine ⟨_, rfl, ⟨h.from_start, ?_, hend.2.2, h.outside⟩, fun block hblock => by cases hblock⟩
      show chosen.mark.lower < openEnd.upper
      omega
    · next close hclose =>
      have hcloseBounds := findNoCase_bounds hclose hend.2.2
      obtain ⟨block, hblock, hkind⟩ := @exists_makeContainerBlock letters
        (slice text openEnd.upper close.lower) (slice text chosen.mark.lower openEnd.upper)
        chosen.name
      rw [hblock]
      refine ⟨_, rfl, ⟨h.from_start, ?_, hcloseBounds.2.2, h.outside⟩, fun b hb => ?_⟩
      · show chosen.mark.lower < close.upper
        omega
      · cases hb
        exact hkind

theorem nextContainerTag_spec (hstart : start ≤ text.length) :
    ∃ found, nextContainerTag letters text fenced start = some found ∧
      ∀ m, found = some m → Opens text fenced start m.range ∧
        ∀ block, m.block = some block → block.isContainer = true := by
  obtain ⟨chosen, hchosen, hopens⟩ := @bestOpening_spec letters text fenced start hstart
    containerNames none (fun _ h => by cases h)
  unfold nextContainerTag
  rw [hchosen]
  cases chosen with
  | none => exact ⟨none, rfl, fun _ h => by cases h⟩
  | some o =>
    obtain ⟨m, hm, hspec⟩ := @containerAt_spec letters text fenced start o (hopens o rfl)
    refine ⟨some m, ?_, fun m' h => Option.some.inj h ▸ hspec⟩
    show (containerAt letters text o).map some = some (some m)
    rw [hm]
    rfl

end Ends

end Markdown
end Panops
