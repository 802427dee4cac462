import Panops.App.InlineMarkdown
import Panops.App.MarkdownFences
import Panops.Lib.Decimal

/-!
# Blocks of a text

`Markdown.parseTextBlocks`: headings, lists, quotes, code and paragraphs of a text
without container tags.  Each block is kept with where it was read from, which the code
does not do: the numbers of its lines, or the range of a container's tags.
-/

namespace Panops
namespace Markdown

open Lib.Text
open Lib.Fences
open Lib.Search

inductive MarkdownBlock where
  | heading (level : Nat) (text : String)
  | bullet (text : String)
  | ordered (number : Nat) (text : String)
  | paragraph (text : String)
  | code (text : String)
  | quote (text : String)
  | callout (icon : Option String) (body : String)
  | disclosure (summary body : String)
  | table (rows : List (List String))
deriving DecidableEq

namespace MarkdownBlock

def isCode : MarkdownBlock → Bool
  | code _ => true
  | _ => false

def isContainer : MarkdownBlock → Bool
  | callout _ _ => true
  | disclosure _ _ => true
  | table _ => true
  | _ => false

end MarkdownBlock

/-- Where a block was read from. -/
inductive Origin where
  | lines (numbers : List Nat)
  | tag (range : Span)
deriving DecidableEq

structure Placed where
  block : MarkdownBlock
  origin : Origin
deriving DecidableEq

/-- What the scanners ask of a character, or of two up to their case. -/
structure Letters where
  isLetter : Char → Bool
  isNumber : Char → Bool
  lower : Char → Char
  same : Char → Char → Bool

/-! ## Lines -/

section Lines

variable (letters : Letters)

def inlineText (text : List Char) : String := sanitizeInline letters.isLetter (String.ofList text)

def parseHeading (trimmed : List Char) : Option (Nat × List Char) :=
  let level := (trimmed.takeWhile (· == '#')).length
  let rest := trimmed.drop level
  let text := trimOf isSpace rest
  if 1 ≤ level ∧ level ≤ 6 ∧ rest.head? = some ' ' ∧ text ≠ [] then some (level, text) else none

/-- `Int(_:)` of a run of numbers: ASCII digits, and no more than an `Int` holds. -/
def parseInt (digits : List Char) : Option Nat :=
  if digits.all Char.isDigit ∧ Lib.Decimal.value digits < 2 ^ 63 then
    some (Lib.Decimal.value digits)
  else none

def parseOrdered (trimmed : List Char) : Option (Nat × List Char) :=
  let digits := trimmed.takeWhile letters.isNumber
  if digits.isEmpty then none
  else
    match parseInt digits, trimmed.drop digits.length with
    | some number, sep :: ' ' :: text =>
      if sep = '.' ∨ sep = ')' then some (number, trimOf isSpace text) else none
    | _, _ => none

def bulletMarkers : List (List Char) := ["- ".toList, "* ".toList, "+ ".toList]

def parseBullet (trimmed : List Char) : Option (List Char) :=
  (bulletMarkers.find? fun marker => marker.isPrefixOf trimmed).map fun marker =>
    trimOf isSpace (trimmed.drop marker.length)

/-- The block that a line is by itself. -/
def lineBlock (trimmed : List Char) : Option MarkdownBlock :=
  match parseHeading trimmed with
  | some (level, text) => some (.heading level (inlineText letters text))
  | none =>
    match parseOrdered letters trimmed with
    | some (number, text) => some (.ordered number (inlineText letters text))
    | none =>
      match parseBullet trimmed with
      | some bullet => some (.bullet (inlineText letters bullet))
      | none =>
        if trimmed.head? = some '>' then
          some (.quote (inlineText letters (trimOf isSpace (trimmed.drop 1))))
        else none

/-! ## The loop over the lines -/

/-- The lines that are still to become a block, each with its number. -/
structure TextState where
  blocks : List Placed
  paragraph : List (Nat × List Char)
  codeLines : List (Nat × List Char)
  openFence : Option (List Char)
deriving DecidableEq

def TextState.initial : TextState where
  blocks := []
  paragraph := []
  codeLines := []
  openFence := none

def flushParagraph (st : TextState) : TextState :=
  if st.paragraph.isEmpty then st
  else
    let text := trimOf isSpace
      (inlineText letters ([' '].intercalate (st.paragraph.map Prod.snd))).toList
    { st with
      blocks :=
        if text.isEmpty then st.blocks
        else st.blocks ++
          [⟨.paragraph (String.ofList text), .lines (st.paragraph.map Prod.fst)⟩]
      paragraph := [] }

def codeBlock (codeLines : List (Nat × List Char)) : Placed where
  block := .code (String.ofList (['\n'].intercalate (codeLines.map Prod.snd)))
  origin := .lines (codeLines.map Prod.fst)

/-- A line that has no fence marker and no open fence around it. -/
def plainLine (st : TextState) (number : Nat) (trimmed : List Char) : TextState :=
  if trimmed.isEmpty then flushParagraph letters st
  else
    match lineBlock letters trimmed with
    | some block =>
      let flushed := flushParagraph letters st
      { flushed with blocks := flushed.blocks ++ [⟨block, .lines [number]⟩] }
    | none => { st with paragraph := st.paragraph ++ [(number, trimmed)] }

def textLine (st : TextState) (line : List Char) (number : Nat) : TextState :=
  match st.openFence with
  | none =>
    match markerOf line with
    | some marker => { flushParagraph letters st with openFence := some marker }
    | none => plainLine letters st number (trimOf isSpace line)
  | some opened =>
    -- A marker that does not match is code.
    if markerOf line = some opened then
      { st with
        blocks := st.blocks ++ [codeBlock st.codeLines]
        codeLines := []
        openFence := none }
    else { st with codeLines := st.codeLines ++ [(number, line)] }

/-- What is left over at the end. -/
def endText (st : TextState) : TextState :=
  flushParagraph letters
    (if st.openFence ≠ none ∧ st.codeLines ≠ [] then
      { st with blocks := st.blocks ++ [codeBlock st.codeLines] }
    else st)

/-- `first` is the number of the first line. -/
def parseTextBlocks (first : Nat) (source : List Char) : List Placed :=
  let lines := (source.splitOn '\n').zipIdx first
  (endText letters
    (lines.foldl (fun st l => textLine letters st l.1 l.2) TextState.initial)).blocks

end Lines

/-! ## What becomes of a line -/

section Invariant

variable {letters : Letters} {st : TextState} {code : Nat → Prop} {number first : Nat}
variable {line trimmed : List Char} {block : MarkdownBlock} {lines : List (List Char)}

theorem lineBlock_kind (h : lineBlock letters trimmed = some block) :
    block.isCode = false ∧ block.isContainer = false := by
  unfold lineBlock at h
  split at h
  · cases h
    exact ⟨rfl, rfl⟩
  · split at h
    · cases h
      exact ⟨rfl, rfl⟩
    · split at h
      · cases h
        exact ⟨rfl, rfl⟩
      · split at h
        · cases h
          exact ⟨rfl, rfl⟩
        · cases h

/-- A block of lines, all of them code or none of them, as the block is. -/
structure Fits (code : Nat → Prop) (b : Placed) (numbers : List Nat) : Prop where
  origin : b.origin = .lines numbers
  plain : b.block.isContainer = false
  kind : ∀ k ∈ numbers, code k ↔ b.block.isCode = true

/-- The state in the loop: what is code is in code blocks or code lines, and nothing
else is. -/
structure Keeps (code : Nat → Prop) (st : TextState) : Prop where
  blocks : ∀ b ∈ st.blocks, ∃ numbers, Fits code b numbers
  paragraph : ∀ l ∈ st.paragraph, ¬ code l.1
  codeLines : ∀ l ∈ st.codeLines, code l.1

theorem keeps_initial : Keeps code TextState.initial where
  blocks := fun _ h => absurd h List.not_mem_nil
  paragraph := fun _ h => absurd h List.not_mem_nil
  codeLines := fun _ h => absurd h List.not_mem_nil

theorem openFence_flushParagraph : (flushParagraph letters st).openFence = st.openFence := by
  unfold flushParagraph
  split <;> rfl

theorem Keeps.snoc (h : Keeps code st) {b : Placed} {numbers : List Nat}
    (hb : Fits code b numbers) :
    ∀ b' ∈ st.blocks ++ [b], ∃ numbers, Fits code b' numbers := by
  intro b' hmem
  rcases List.mem_append.mp hmem with hmem | hmem
  · exact h.blocks b' hmem
  · rw [List.mem_singleton.mp hmem]
    exact ⟨numbers, hb⟩

theorem Keeps.flush (h : Keeps code st) : Keeps code (flushParagraph letters st) := by
  unfold flushParagraph
  split
  · exact h
  · refine ⟨fun b hb => ?_, fun _ hl => absurd hl List.not_mem_nil, h.codeLines⟩
    simp only at hb
    split at hb
    · exact h.blocks b hb
    · refine h.snoc ⟨rfl, rfl, fun k hk => ?_⟩ b hb
      obtain ⟨l, hl, rfl⟩ := List.mem_map.mp hk
      exact iff_of_false (h.paragraph l hl) Bool.false_ne_true

theorem Keeps.codeBlock (h : Keeps code st) :
    ∀ b ∈ st.blocks ++ [codeBlock st.codeLines], ∃ numbers, Fits code b numbers := by
  refine h.snoc ⟨rfl, rfl, fun k hk => ?_⟩
  obtain ⟨l, hl, rfl⟩ := List.mem_map.mp hk
  exact iff_of_true (h.codeLines l hl) rfl

theorem Keeps.plainLine (h : Keeps code st) (hcode : ¬ code number) :
    Keeps code (plainLine letters st number trimmed) := by
  unfold Markdown.plainLine
  split
  · exact h.flush
  · have hflush : Keeps code (flushParagraph letters st) := h.flush
    split
    · next block hblock =>
      have hkind := lineBlock_kind hblock
      refine ⟨hflush.snoc ⟨rfl, hkind.2, fun k hk => ?_⟩, hflush.paragraph, hflush.codeLines⟩
      rw [List.mem_singleton.mp hk]
      exact iff_of_false hcode (by rw [hkind.1]; decide)
    · refine ⟨h.blocks, fun l hl => ?_, h.codeLines⟩
      rcases List.mem_append.mp hl with hl | hl
      · exact h.paragraph l hl
      · rw [List.mem_singleton.mp hl]
        exact hcode

theorem openFence_plainLine : (plainLine letters st number trimmed).openFence = st.openFence := by
  unfold plainLine
  split
  · exact openFence_flushParagraph
  · split
    · exact openFence_flushParagraph
    · rfl

/-- One line, with the fences as they are looked for in the whole text. -/
theorem Keeps.textLine (h : Keeps code st)
    (hcode : covered st.openFence (markerOf line) = true ↔ code number) :
    Keeps code (textLine letters st line number) ∧
      (textLine letters st line number).openFence = next st.openFence (markerOf line) := by
  unfold Markdown.textLine
  cases hopen : st.openFence with
  | none =>
    cases hmark : markerOf line with
    | some marker => exact ⟨⟨h.flush.blocks, h.flush.paragraph, h.flush.codeLines⟩, rfl⟩
    | none =>
      rw [hopen, hmark] at hcode
      refine ⟨h.plainLine fun hno => absurd (hcode.mpr hno) (by decide), ?_⟩
      exact openFence_plainLine.trans hopen
  | some opened =>
    rw [hopen] at hcode
    have hmem : code number := hcode.mp rfl
    by_cases hmark : markerOf line = some opened
    · simp only [if_pos hmark]
      refine ⟨⟨h.codeBlock, h.paragraph, fun _ hl => absurd hl List.not_mem_nil⟩, ?_⟩
      rw [next, if_pos hmark]
    · simp only [if_neg hmark]
      refine ⟨⟨h.blocks, h.paragraph, fun l hl => ?_⟩, ?_⟩
      · rcases List.mem_append.mp hl with hl | hl
        · exact h.codeLines l hl
        · rw [List.mem_singleton.mp hl]
          exact hmem
      · rw [next, if_neg hmark]

/-- All lines, by induction; `coverage` follows the open fence. -/
theorem Keeps.fold (h : Keeps code st)
    (hcode : ∀ j c, (coverage st.openFence (lines.map markerOf))[j]? = some c →
      (c = true ↔ code (first + j))) :
    Keeps code
      ((lines.zipIdx first).foldl (fun st l => Markdown.textLine letters st l.1 l.2) st) := by
  induction lines generalizing st first with
  | nil => exact h
  | cons line lines ih =>
    have hfirst : covered st.openFence (markerOf line) = true ↔ code first := hcode 0 _ rfl
    obtain ⟨hkeeps, hopen⟩ := @Keeps.textLine letters st code first line h hfirst
    rw [List.zipIdx_cons, List.foldl_cons]
    refine ih hkeeps fun j c hj => ?_
    have hj : (coverage (next st.openFence (markerOf line)) (lines.map markerOf))[j]? = some c :=
      hopen ▸ hj
    have hlater := hcode (j + 1) c hj
    rwa [show first + (j + 1) = first + 1 + j by omega] at hlater

theorem Keeps.endText (h : Keeps code st) : Keeps code (endText letters st) := by
  unfold Markdown.endText
  split
  · exact Keeps.flush ⟨h.codeBlock, h.paragraph, h.codeLines⟩
  · exact h.flush

/-- A text whose blocks of fenced lines are `code` keeps them apart from the others. -/
theorem fits_parseTextBlocks {source : List Char}
    (hcode : ∀ j c, (blocks '\n' markerOf source)[j]? = some c → (c = true ↔ code (first + j)))
    {b : Placed} (hb : b ∈ parseTextBlocks letters first source) : ∃ numbers, Fits code b numbers :=
  (Keeps.fold keeps_initial hcode).endText.blocks b hb

end Invariant

end Markdown
end Panops
