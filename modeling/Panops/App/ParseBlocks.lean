import Panops.App.ContainerTags

/-!
# Fences and containers

`Markdown.parseBlocks`: containers are cut out of a text, and what is between them is
read on its own, fences included.  The fences found there are those of the whole text
as long as no cut ends inside a fence or right in front of a fence marker.
-/

namespace Panops
namespace Markdown

open Lib.Text
open Lib.Fences
open Lib.Search
open Lib.Loops

def normalized (source : String) : List Char := unifyBreaks source.toList

structure BlocksState where
  cursor : Nat
  blocks : List Placed
deriving DecidableEq

section Loop

variable (letters : Letters) (text : List Char)

/-- Text from a position of the whole on. -/
def textBlocksAt (start : Nat) (piece : List Char) : List Placed :=
  parseTextBlocks letters (lineNumber '\n' text start) piece

def blocksStep (st : BlocksState) : Option (Turn BlocksState (List Placed)) :=
  if st.cursor < text.length then
    match nextContainerTag letters text (fencedCodeRanges text) st.cursor with
    | none => none
    | some none =>
      some (.done (st.blocks ++ textBlocksAt letters text st.cursor (text.drop st.cursor)))
    | some (some m) =>
      let before :=
        if st.cursor < m.range.lower then
          textBlocksAt letters text st.cursor (slice text st.cursor m.range.lower)
        else []
      let cut := m.block.toList.map fun block => ⟨block, .tag m.range⟩
      some (.again ⟨m.range.upper, st.blocks ++ before ++ cut⟩)
  else some (.done st.blocks)

end Loop

def parseBlocks (letters : Letters) (source : String) : Option (List Placed) :=
  let text := normalized source
  runWhile (blocksStep letters text) (turns text) ⟨0, []⟩

/-! ## Cuts -/

/-- The places where the loop goes on. -/
inductive Reached (letters : Letters) (text : List Char) : Nat → Prop
  | start : Reached letters text 0
  | behind {cursor : Nat} {m : ContainerMatch} (h : Reached letters text cursor)
      (hcursor : cursor < text.length)
      (hm : nextContainerTag letters text (fencedCodeRanges text) cursor = some (some m)) :
      Reached letters text m.range.upper

/-- At the end of the text, or outside the fences with no fence marker on what is left
of the line. -/
def CleanCut (text : List Char) (pos : Nat) : Prop :=
  pos = text.length ∨
    (inFence (fencedCodeRanges text) pos = false ∧ markerOf (restOfLine '\n' text pos) = none)

/-- Every piece that is cut out ends that way. -/
def CleanCuts (letters : Letters) (text : List Char) : Prop :=
  ∀ pos, Reached letters text pos → pos = 0 ∨ CleanCut text pos

/-- Something of the line went into the block. -/
def Placed.holds (text : List Char) (b : Placed) (number : Nat) : Prop :=
  match b.origin with
  | .lines numbers => number ∈ numbers
  | .tag range =>
    lineNumber '\n' text range.lower ≤ number ∧ number ≤ lineNumber '\n' text (range.upper - 1)

section Runs

variable {letters : Letters} {text : List Char} {st st' : BlocksState} {bs : List Placed}
variable {b : Placed} {pos p q number : Nat}

/-! ## The loop -/

theorem blocksStep_decreases : Decreases (blocksStep letters text)
    (fun st => text.length - st.cursor) (fun st => st.cursor ≤ text.length) := by
  intro st hst
  obtain ⟨found, hfound, hspec⟩ :=
    @nextContainerTag_spec letters text (fencedCodeRanges text) st.cursor hst
  unfold blocksStep
  rw [hfound]
  split
  · cases found with
    | none => exact .inl ⟨_, rfl⟩
    | some m =>
      have hopens := (hspec m rfl).1
      have hfrom := hopens.from_start
      have hnonempty := hopens.nonempty
      refine .inr ⟨_, rfl, hopens.within, ?_⟩
      show text.length - m.range.upper < text.length - st.cursor
      omega
  · exact .inl ⟨_, rfl⟩

theorem exists_parseBlocks (letters : Letters) (source : String) :
    ∃ blocks, parseBlocks letters source = some blocks := by
  refine exists_runWhile blocksStep_decreases (Nat.zero_le _) ?_
  exact Nat.lt_succ_of_le (Nat.sub_le _ _)

/-- One turn: the text in front of a container, and the container. -/
theorem blocksStep_again (h : blocksStep letters text st = some (.again st')) :
    ∃ m, st.cursor < text.length ∧
      nextContainerTag letters text (fencedCodeRanges text) st.cursor = some (some m) ∧
      st'.cursor = m.range.upper ∧
      ∀ b ∈ st'.blocks, b ∈ st.blocks ∨
        (st.cursor < m.range.lower ∧
          b ∈ textBlocksAt letters text st.cursor (slice text st.cursor m.range.lower)) ∨
        (m.block = some b.block ∧ b.origin = .tag m.range) := by
  unfold blocksStep at h
  split at h
  · next hcursor =>
    split at h
    · cases h
    · cases h
    · next m hm =>
      cases h
      refine ⟨m, hcursor, hm, rfl, fun b hb => ?_⟩
      rcases List.mem_append.mp hb with hb | hcut
      · rcases List.mem_append.mp hb with hb | hbefore
        · exact .inl hb
        · split at hbefore
          · next hlower => exact .inr (.inl ⟨hlower, hbefore⟩)
          · cases hbefore
      · obtain ⟨block, hblock, rfl⟩ := List.mem_map.mp hcut
        exact .inr (.inr ⟨Option.mem_toList.mp hblock, rfl⟩)
  · cases h

theorem blocksStep_done (h : blocksStep letters text st = some (.done bs)) :
    ∀ b ∈ bs, b ∈ st.blocks ∨
      (st.cursor < text.length ∧
        b ∈ textBlocksAt letters text st.cursor (text.drop st.cursor)) := by
  unfold blocksStep at h
  split at h
  · next hcursor =>
    split at h
    · cases h
    · cases h
      intro b hb
      rcases List.mem_append.mp hb with hb | hb
      · exact .inl hb
      · exact .inr ⟨hcursor, hb⟩
    · cases h
  · cases h
    exact fun b hb => .inl hb

/-- A place where a piece of text may end: the end, or where a container opens. -/
def PieceEnd (text : List Char) (q : Nat) : Prop :=
  text.length ≤ q ∨ (q < text.length ∧ inFence (fencedCodeRanges text) q = false)

/-- What holds of the blocks of every piece of text and of every container. -/
theorem parseBlocks_rule {source : String} {good : Placed → Prop} {blocks : List Placed}
    (htext : ∀ p q, Reached letters (normalized source) p → p ≤ q →
      p < (normalized source).length → PieceEnd (normalized source) q →
      ∀ b ∈ textBlocksAt letters (normalized source) p (slice (normalized source) p q), good b)
    (htag : ∀ range block, Reached letters (normalized source) range.upper →
      Opens (normalized source) (fencedCodeRanges (normalized source)) 0 range →
      block.isContainer = true → good ⟨block, .tag range⟩)
    (h : parseBlocks letters source = some blocks) : ∀ b ∈ blocks, good b := by
  let inv : BlocksState → Prop := fun st =>
    st.cursor ≤ (normalized source).length ∧ Reached letters (normalized source) st.cursor ∧
      ∀ b ∈ st.blocks, good b
  have hagain : ∀ st st', inv st →
      blocksStep letters (normalized source) st = some (.again st') → inv st' := by
    rintro st st' ⟨hle, hreached, hgood⟩ hstep
    obtain ⟨m, hcursor, hm, hnext, hblocks⟩ := blocksStep_again hstep
    obtain ⟨found, hfound, hspec⟩ := @nextContainerTag_spec letters (normalized source)
      (fencedCodeRanges (normalized source)) st.cursor hle
    rw [hm] at hfound
    obtain ⟨hopens, hkind⟩ := hspec m (Option.some.inj hfound).symm
    have hafter : Reached letters (normalized source) m.range.upper := .behind hreached hcursor hm
    refine ⟨hnext ▸ hopens.within, hnext ▸ hafter, fun b hb => ?_⟩
    rcases hblocks b hb with hb | ⟨hlower, hb⟩ | ⟨hblock, horigin⟩
    · exact hgood b hb
    · have hend : m.range.lower < (normalized source).length :=
        Nat.lt_of_lt_of_le hopens.nonempty hopens.within
      exact htext _ _ hreached (Nat.le_of_lt hlower) hcursor (.inr ⟨hend, hopens.outside⟩) b hb
    · have hcut := htag m.range b.block hafter
        ⟨Nat.zero_le _, hopens.nonempty, hopens.within, hopens.outside⟩ (hkind _ hblock)
      rwa [← horigin] at hcut
  have hdone : ∀ st bs, inv st →
      blocksStep letters (normalized source) st = some (.done bs) → ∀ b ∈ bs, good b := by
    rintro st bs ⟨hle, hreached, hgood⟩ hstep b hb
    rcases blocksStep_done hstep b hb with hb | ⟨hcursor, hb⟩
    · exact hgood b hb
    · refine htext _ (normalized source).length hreached hle hcursor (.inl (Nat.le_refl _)) b ?_
      rwa [slice, List.take_length]
  exact runWhile_rule hagain hdone ⟨Nat.zero_le _, .start, fun _ hb => absurd hb List.not_mem_nil⟩ h

/-! ## Fences in the pieces -/

/-- The line is one of fenced code, its first or its last line included. -/
def OnFence (text : List Char) (number : Nat) : Prop :=
  (blocks '\n' markerOf text)[number]? = some true

theorem onFence_iff (h : pos < text.length) :
    OnFence text (lineNumber '\n' text pos) ↔ inFence (fencedCodeRanges text) pos = true := by
  rw [OnFence, blocks_eq_inFence h, Option.some.injEq]

theorem inFence_congr_line (hp : p < text.length) (hq : q < text.length)
    (h : lineNumber '\n' text p = lineNumber '\n' text q) :
    inFence (fencedCodeRanges text) p = inFence (fencedCodeRanges text) q := by
  rw [Bool.eq_iff_iff, ← onFence_iff hp, ← onFence_iff hq, h]

theorem CleanCut.clear (h : CleanCut text pos) (hpos : pos < text.length) :
    Clear '\n' markerOf text pos := by
  rcases h with rfl | ⟨houtside, hmark⟩
  · exact absurd hpos (Nat.lt_irrefl _)
  · exact ⟨(outside_iff hpos).mpr houtside, hmark⟩

theorem fits_textBlocksAt (hp : p = 0 ∨ CleanCut text p) (hpos : p < text.length) (hle : p ≤ q)
    (hq : PieceEnd text q) (hb : b ∈ textBlocksAt letters text p (slice text p q)) :
    ∃ numbers, Fits (OnFence text) b numbers := by
  have hclear : p = 0 ∨ Clear '\n' markerOf text p := hp.imp_right fun h => h.clear hpos
  have hend : text.length ≤ q ∨ Outside '\n' markerOf text q :=
    hq.imp_right fun h => (outside_iff h.1).mpr h.2
  refine fits_parseTextBlocks (fun j c hj => ?_) hb
  rw [OnFence, blocks_slice markerOf_of_append hclear hend hle hj, Option.some.injEq]

/-- Whatever the fences, text becomes blocks of lines. -/
theorem origin_textBlocksAt {piece : List Char} (hb : b ∈ textBlocksAt letters text p piece) :
    ∃ numbers, b.origin = .lines numbers := by
  let code : Nat → Prop := fun k =>
    (blocks '\n' markerOf piece)[k - lineNumber '\n' text p]? = some true
  have hcode : ∀ j c, (blocks '\n' markerOf piece)[j]? = some c →
      (c = true ↔ code (lineNumber '\n' text p + j)) := by
    intro j c hj
    show _ ↔ (blocks '\n' markerOf piece)[_]? = some true
    rw [Nat.add_sub_cancel_left, hj, Option.some.injEq]
  obtain ⟨numbers, hfits⟩ := fits_parseTextBlocks hcode hb
  exact ⟨numbers, hfits.origin⟩

theorem isCode_of_isContainer {block : MarkdownBlock} (h : block.isContainer = true) :
    block.isCode = false := by
  cases block with
  | code text => cases h
  | _ => rfl

/-! ## What becomes of a line -/

/-- A line of fenced code is in a code block or inside a container, any other line is in
no code block. -/
def Apart (text : List Char) (b : Placed) : Prop :=
  ∀ pos < text.length, b.holds text (lineNumber '\n' text pos) →
    (inFence (fencedCodeRanges text) pos = true →
      b.block.isCode = true ∨
        (b.block.isContainer = true ∧
          ∃ range, b.origin = .tag range ∧ range.lower ≤ pos ∧ pos < range.upper)) ∧
    (inFence (fencedCodeRanges text) pos = false → b.block.isCode = false)

theorem Fits.apart {numbers : List Nat} (h : Fits (OnFence text) b numbers) : Apart text b := by
  intro pos hpos hholds
  rw [Placed.holds, h.origin] at hholds
  have hkind := (onFence_iff hpos).symm.trans (h.kind _ hholds)
  refine ⟨fun hin => .inl (hkind.mp hin), fun hout => ?_⟩
  rw [← Bool.not_eq_true, ← hkind, hout]
  exact Bool.false_ne_true

/-- The lines on which a container begins and ends are not fenced. -/
theorem apart_tag {range : Span} {block : MarkdownBlock} (hclean : CleanCut text range.upper)
    (hopens : Opens text (fencedCodeRanges text) 0 range) (hkind : block.isContainer = true) :
    Apart text ⟨block, .tag range⟩ := by
  rintro pos hpos ⟨hlow, hhigh⟩
  have hupper : lineNumber '\n' text (range.upper - 1) ≤ lineNumber '\n' text range.upper :=
    lineNumber_mono text (Nat.sub_le _ _)
  refine ⟨fun hin => .inr ⟨hkind, range, rfl, ?_, ?_⟩, fun _ => isCode_of_isContainer hkind⟩
  · by_contra hlt
    have hmono : lineNumber '\n' text pos ≤ lineNumber '\n' text range.lower :=
      lineNumber_mono text (by omega)
    have hlower : range.lower < text.length := Nat.lt_of_lt_of_le hopens.nonempty hopens.within
    have hsame := inFence_congr_line hpos hlower (Nat.le_antisymm hmono hlow)
    rw [hin, hopens.outside] at hsame
    cases hsame
  · by_contra hge
    have hmono : lineNumber '\n' text range.upper ≤ lineNumber '\n' text pos :=
      lineNumber_mono text (by omega)
    rcases hclean with hend | ⟨houtside, -⟩
    · omega
    · have hsame := inFence_congr_line hpos (show range.upper < text.length by omega)
        (by omega)
      rw [hin, houtside] at hsame
      cases hsame

end Runs

/-- The loop ends on every text, and a container never begins inside fenced code.  When
every cut is clean, fenced code becomes code or stays inside its container, and nothing
else becomes code. -/
theorem parseBlocks_spec (letters : Letters) (source : String) :
    ∃ blocks, parseBlocks letters source = some blocks ∧
      (∀ b ∈ blocks, ∀ range, b.origin = .tag range →
        b.block.isContainer = true ∧
          inFence (fencedCodeRanges (normalized source)) range.lower = false) ∧
      (CleanCuts letters (normalized source) → ∀ b ∈ blocks, Apart (normalized source) b) := by
  obtain ⟨blocks, hblocks⟩ := exists_parseBlocks letters source
  refine ⟨blocks, hblocks, ?_, fun hclean => ?_⟩
  · refine parseBlocks_rule (fun p q _ _ _ _ b hb range horigin => ?_)
      (fun range block _ hopens hkind range' horigin => ?_) hblocks
    · obtain ⟨numbers, hlines⟩ := origin_textBlocksAt hb
      rw [hlines] at horigin
      cases horigin
    · cases horigin
      exact ⟨hkind, hopens.outside⟩
  · refine parseBlocks_rule (fun p q hreached hle hpos hq b hb => ?_)
      (fun range block hreached hopens hkind => ?_) hblocks
    · obtain ⟨numbers, hfits⟩ := fits_textBlocksAt (hclean p hreached) hpos hle hq hb
      exact hfits.apart
    · have hnonempty := hopens.nonempty
      refine apart_tag ((hclean _ hreached).resolve_left ?_) hopens hkind
      omega

def Letters.ascii : Letters where
  isLetter := Char.isAlpha
  isNumber := Char.isDigit
  lower := Char.toLower
  same := fun c d => c.toLower == d.toLower

theorem parseBlocks_spec_afterCallout :
    ∃ blocks, parseBlocks .ascii "a\n<callout>b</callout>\n~~~\nc\n~~~" = some blocks ∧
      ∀ b ∈ blocks, Apart (normalized "a\n<callout>b</callout>\n~~~\nc\n~~~") b := by
  obtain ⟨blocks, hblocks, -, hapart⟩ :=
    parseBlocks_spec .ascii "a\n<callout>b</callout>\n~~~\nc\n~~~"
  refine ⟨blocks, hblocks, hapart fun pos h => ?_⟩
  have hreached : pos = 0 ∨ pos = 22 := by
    induction h with
    | start => exact .inl rfl
    | behind _ _ hm ih =>
      have hfirst : nextContainerTag .ascii (normalized "a\n<callout>b</callout>\n~~~\nc\n~~~")
          (fencedCodeRanges (normalized "a\n<callout>b</callout>\n~~~\nc\n~~~")) 0 =
            some (some ⟨⟨2, 22⟩, some (.callout none "b")⟩) := by decide +kernel
      have hlast : nextContainerTag .ascii (normalized "a\n<callout>b</callout>\n~~~\nc\n~~~")
          (fencedCodeRanges (normalized "a\n<callout>b</callout>\n~~~\nc\n~~~")) 22 =
            some none := by decide +kernel
      rcases ih with rfl | rfl
      · rw [hfirst] at hm
        cases hm
        exact .inr rfl
      · rw [hlast] at hm
        cases hm
  rcases hreached with rfl | rfl
  · exact .inl rfl
  · exact .inr (.inr ⟨by decide, by decide⟩)

/-- The body of a callout is the text between its tags, fences and all: line 2 is inside
a fence, as are the lines around it, and ends up in the callout. -/
theorem fencedLine_in_callout :
    fencedCodeRanges (normalized "<callout>\n```\ncode\n```\n</callout>") = [⟨10, 23⟩] ∧
      restOfLine '\n' (normalized "<callout>\n```\ncode\n```\n</callout>") 14 = "code".toList ∧
      lineNumber '\n' (normalized "<callout>\n```\ncode\n```\n</callout>") 14 = 2 ∧
      parseBlocks .ascii "<callout>\n```\ncode\n```\n</callout>" =
        some [⟨.callout none "```\ncode\n```", .tag ⟨0, 33⟩⟩] ∧
      Placed.holds (normalized "<callout>\n```\ncode\n```\n</callout>")
        ⟨.callout none "```\ncode\n```", .tag ⟨0, 33⟩⟩ 2 := by
  refine ⟨by decide, by decide, by decide, by decide +kernel, ?_, ?_⟩
  · show lineNumber '\n' (normalized "<callout>\n```\ncode\n```\n</callout>") 0 ≤ 2
    decide
  · show 2 ≤ lineNumber '\n' (normalized "<callout>\n```\ncode\n```\n</callout>") 32
    decide

end Markdown
end Panops
