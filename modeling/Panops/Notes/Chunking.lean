import Panops.Lib.Runs
import Panops.Notes.Prompts

/-!
# Chunking of long sections

The two passes that split a section too long for one request: by estimated size
and natural boundaries, then by the size of the rendered prompt.
-/

namespace Panops

open Lib Lib.Runs

namespace Prompts

/-- The chunks closed so far, the chunk being built and its estimated size. -/
structure SplitState where
  chunks : List (List Segment)
  current : List Segment
  currentChars : Nat

def SplitState.flush (st : SplitState) : SplitState where
  chunks := st.chunks ++ [st.current]
  current := []
  currentChars := 0

/-- A pause or a change of speaker between two neighbours. -/
def isNaturalBoundary (prev seg : Segment) : Bool :=
  SPLIT_GAP_THRESHOLD_MS < seg.startMs - prev.endMs || seg.speakerId != prev.speakerId

def SplitState.flushIfOverMax (maxChars : Nat) (st : SplitState) (seg : Segment) : SplitState :=
  if maxChars < st.currentChars + segmentChars seg && !st.current.isEmpty then st.flush else st

def SplitState.flushIfOverTarget (targetChars : Nat) (st : SplitState) (seg : Segment) :
    SplitState :=
  match st.current.getLast? with
  | none => st
  | some prev =>
    if targetChars ≤ st.currentChars && isNaturalBoundary prev seg then st.flush else st

def splitStep (targetChars maxChars : Nat) (st : SplitState) (seg : Segment) : SplitState :=
  let st := (st.flushIfOverMax maxChars seg).flushIfOverTarget targetChars seg
  { st with current := st.current ++ [seg], currentChars := st.currentChars + segmentChars seg }

def splitSegmentsForChunking (segments : List Segment) (targetChars maxChars : Nat) :
    List (List Segment) :=
  if segments.isEmpty then []
  else if estimateTranscriptChars segments ≤ maxChars then [segments]
  else
    let st := segments.foldl (splitStep targetChars maxChars)
      { chunks := [], current := [], currentChars := 0 }
    if st.current.isEmpty then st.chunks else st.chunks ++ [st.current]

/-- When a chunk is closed before a segment. -/
def splitsBefore (targetChars maxChars : Nat) (chunk : List Segment) (seg : Segment) : Bool :=
  match chunk.getLast? with
  | none => false
  | some prev =>
    maxChars < estimateTranscriptChars chunk + segmentChars seg ||
      targetChars ≤ estimateTranscriptChars chunk && isNaturalBoundary prev seg

theorem estimateTranscriptChars_concat (chunk : List Segment) (seg : Segment) :
    estimateTranscriptChars (chunk ++ [seg]) = estimateTranscriptChars chunk + segmentChars seg := by
  simp [estimateTranscriptChars]

/-- The running size is the estimate of the chunk being built. -/
theorem splitStep_eq (targetChars maxChars : Nat) (out : List (List Segment))
    (chunk : List Segment) (seg : Segment) :
    splitStep targetChars maxChars
        { chunks := out, current := chunk, currentChars := estimateTranscriptChars chunk } seg =
      let next := flushStep (splitsBefore targetChars maxChars) (out, chunk) seg
      { chunks := next.1, current := next.2, currentChars := estimateTranscriptChars next.2 } := by
  have hsingle : estimateTranscriptChars [seg] = segmentChars seg := by
    simp [estimateTranscriptChars]
  cases hlast : chunk.getLast? with
  | none =>
    obtain rfl : chunk = [] := List.getLast?_eq_none_iff.mp hlast
    simp [splitStep, SplitState.flushIfOverMax, SplitState.flushIfOverTarget, flushStep,
      splitsBefore, estimateTranscriptChars]
  | some prev =>
    have hne : chunk.isEmpty = false := by
      cases chunk with
      | nil => simp at hlast
      | cons _ _ => rfl
    by_cases hmax : maxChars < estimateTranscriptChars chunk + segmentChars seg
    · simp [splitStep, SplitState.flushIfOverMax, SplitState.flushIfOverTarget, SplitState.flush,
        flushStep, splitsBefore, hlast, hne, hmax, hsingle]
    · by_cases htarget : targetChars ≤ estimateTranscriptChars chunk ∧
          isNaturalBoundary prev seg = true
      · simp [splitStep, SplitState.flushIfOverMax, SplitState.flushIfOverTarget,
          SplitState.flush, flushStep, splitsBefore, hlast, hmax, htarget, hsingle]
      · simp [splitStep, SplitState.flushIfOverMax, SplitState.flushIfOverTarget, flushStep,
          splitsBefore, hlast, hmax, htarget, estimateTranscriptChars_concat]

theorem foldl_splitStep (targetChars maxChars : Nat) (segments : List Segment)
    (out : List (List Segment)) (chunk : List Segment) :
    segments.foldl (splitStep targetChars maxChars)
        { chunks := out, current := chunk, currentChars := estimateTranscriptChars chunk } =
      let next := segments.foldl (flushStep (splitsBefore targetChars maxChars)) (out, chunk)
      { chunks := next.1, current := next.2, currentChars := estimateTranscriptChars next.2 } := by
  induction segments generalizing out chunk with
  | nil => rfl
  | cons seg segments ih => rw [List.foldl_cons, splitStep_eq, ih, List.foldl_cons]

theorem splitSegmentsForChunking_eq (segments : List Segment) (targetChars maxChars : Nat) :
    splitSegmentsForChunking segments targetChars maxChars =
      if estimateTranscriptChars segments ≤ maxChars ∧ segments ≠ [] then [segments]
      else runs (splitsBefore targetChars maxChars) segments := by
  cases segments with
  | nil => rfl
  | cons seg segments =>
    by_cases hall : estimateTranscriptChars (seg :: segments) ≤ maxChars
    · simp [splitSegmentsForChunking, hall]
    · have hloop := foldl_splitStep targetChars maxChars (seg :: segments) [] []
      have hfirst : flushStep (splitsBefore targetChars maxChars) ([], []) seg = ([], [seg]) := rfl
      rw [List.foldl_cons (f := flushStep _), hfirst, foldl_flushStep, List.nil_append] at hloop
      have hopen : (openRun (splitsBefore targetChars maxChars) [seg] segments).isEmpty = false := by
        have hsingle : ∀ s : Segment, [s].isEmpty = false := by simp
        refine openRun_invariant (P := fun run => run.isEmpty = false) hsingle ?_ (hsingle seg)
          segments
        simp
      simp only [splitSegmentsForChunking, List.isEmpty_cons, Bool.false_eq_true, if_false, hall,
        false_and]
      have hstart : estimateTranscriptChars [] = 0 := rfl
      rw [hstart] at hloop
      rw [hloop]
      simp only [hopen, Bool.false_eq_true, if_false]
      exact dropLast_append_openRun _ [seg] segments

theorem flatten_splitSegmentsForChunking (segments : List Segment) (targetChars maxChars : Nat) :
    (splitSegmentsForChunking segments targetChars maxChars).flatten = segments := by
  rw [splitSegmentsForChunking_eq]
  split
  · simp
  · exact flatten_runs _ segments

theorem ne_nil_of_mem_splitSegmentsForChunking {segments : List Segment}
    {targetChars maxChars : Nat} :
    ∀ chunk ∈ splitSegmentsForChunking segments targetChars maxChars, chunk ≠ [] := by
  rw [splitSegmentsForChunking_eq]
  split
  · next h => simpa using h.2
  · exact fun chunk hchunk => ne_nil_of_mem_runs hchunk

end Prompts

namespace Pipeline

open Prompts

/-- The size of the section prompt for these segments. -/
def renderedChars (chunk : List Segment) (dialect : MarkdownDialect) (language : String) : Nat :=
  renderedLlmRequestChars (buildSectionNarrativePrompt chunk dialect language)

/-- One turn of the loop: push, and carry the segment over if it overflows. -/
def budgetStep (dialect : MarkdownDialect) (language : String) (maxChars : Nat)
    (st : List (List Segment) × List Segment) (seg : Segment) :
    List (List Segment) × List Segment :=
  let current := st.2 ++ [seg]
  if maxChars < renderedChars current dialect language && 1 < current.length then
    (st.1 ++ [current.dropLast], [seg])
  else (st.1, current)

/-- A chunk is closed before a segment that would overflow it. -/
def overBudget (dialect : MarkdownDialect) (language : String) (maxChars : Nat)
    (chunk : List Segment) (seg : Segment) : Bool :=
  !chunk.isEmpty && maxChars < renderedChars (chunk ++ [seg]) dialect language

theorem budgetStep_eq (dialect : MarkdownDialect) (language : String) (maxChars : Nat) :
    budgetStep dialect language maxChars =
      flushStep (overBudget dialect language maxChars) := by
  funext st seg
  obtain ⟨out, chunk⟩ := st
  by_cases hover : maxChars < renderedChars (chunk ++ [seg]) dialect language
  · cases chunk with
    | nil => simp [budgetStep, flushStep, overBudget]
    | cons s chunk =>
      have hdrop : (s :: (chunk ++ [seg])).dropLast = s :: chunk := by
        rw [← List.cons_append, List.dropLast_concat]
      simp [budgetStep, flushStep, overBudget, hdrop]
  · simp [budgetStep, flushStep, overBudget, hover]

/-- The loop over a chunk: what it has pushed and what it holds at the end. -/
def budgetLoop (dialect : MarkdownDialect) (language : String) (maxChars : Nat)
    (chunk : List Segment) (out : List (List Segment)) : List (List Segment) × List Segment :=
  chunk.foldl (budgetStep dialect language maxChars) (out, [])

theorem budgetLoop_cons (dialect : MarkdownDialect) (language : String) (maxChars : Nat)
    (out : List (List Segment)) (seg : Segment) (chunk : List Segment) :
    budgetLoop dialect language maxChars (seg :: chunk) out =
      (out ++ (runsFrom (overBudget dialect language maxChars) [seg] chunk).dropLast,
        openRun (overBudget dialect language maxChars) [seg] chunk) := by
  have hfirst : flushStep (overBudget dialect language maxChars) (out, []) seg = (out, [seg]) := rfl
  rw [budgetLoop, budgetStep_eq, List.foldl_cons, hfirst, foldl_flushStep]

/-- A chunk is within the budget, or it cannot be split. -/
def Fits (dialect : MarkdownDialect) (language : String) (maxChars : Nat)
    (chunk : List Segment) : Prop :=
  chunk.length ≤ 1 ∨ renderedChars chunk dialect language ≤ maxChars

instance (dialect : MarkdownDialect) (language : String) (maxChars : Nat)
    (chunk : List Segment) : Decidable (Fits dialect language maxChars chunk) :=
  inferInstanceAs (Decidable (_ ∨ _))

variable {dialect : MarkdownDialect} {language : String} {maxChars : Nat}

theorem fits_singleton (seg : Segment) : Fits dialect language maxChars [seg] :=
  Or.inl (Nat.le_refl 1)

theorem Fits.concat {chunk : List Segment} {seg : Segment}
    (h : overBudget dialect language maxChars chunk seg = false) :
    Fits dialect language maxChars (chunk ++ [seg]) := by
  cases chunk with
  | nil => exact fits_singleton seg
  | cons s chunk =>
    simp only [overBudget, List.isEmpty_cons, Bool.not_false, Bool.true_and,
      decide_eq_false_iff_not, Nat.not_lt] at h
    exact Or.inr h

/-- The rest of a chunk that does not fit is shorter, and fits. -/
theorem rest_lt {chunk : List Segment} (hfits : ¬ Fits dialect language maxChars chunk)
    (out : List (List Segment)) :
    (budgetLoop dialect language maxChars chunk out).2.length < chunk.length ∧
      Fits dialect language maxChars (budgetLoop dialect language maxChars chunk out).2 := by
  cases chunk with
  | nil => exact absurd (Or.inl (Nat.zero_le 1)) hfits
  | cons seg chunk =>
    rw [budgetLoop_cons]
    have hopen : Fits dialect language maxChars
        (openRun (overBudget dialect language maxChars) [seg] chunk) :=
      openRun_invariant (P := Fits dialect language maxChars) fits_singleton
        (fun _ _ _ h => Fits.concat h) (fits_singleton seg) chunk
    refine ⟨?_, hopen⟩
    by_contra hlen
    have hall : [seg].length + chunk.length ≤
        (openRun (overBudget dialect language maxChars) [seg] chunk).length := by
      simpa [Nat.add_comm] using Nat.not_lt.mp hlen
    have heq := openRun_eq_of_length hall
    rw [heq] at hopen
    exact hfits hopen

def pushRenderedBudgetChunk (dialect : MarkdownDialect) (language : String) (maxChars : Nat)
    (chunk : List Segment) (out : List (List Segment)) : List (List Segment) :=
  if _h : Fits dialect language maxChars chunk then out ++ [chunk]
  else
    let st := budgetLoop dialect language maxChars chunk out
    if st.2.isEmpty then st.1
    else pushRenderedBudgetChunk dialect language maxChars st.2 st.1
termination_by chunk.length
decreasing_by exact (rest_lt _h out).1

def splitChunksToRenderedBudget (chunks : List (List Segment)) (dialect : MarkdownDialect)
    (language : String) (maxChars : Nat) : List (List Segment) :=
  chunks.foldl (fun out chunk => pushRenderedBudgetChunk dialect language maxChars chunk out) []

/-- The chunks of a section that is too long for one request. -/
def sectionChunks (segs : List Segment) (dialect : MarkdownDialect) (language : String) :
    List (List Segment) :=
  splitChunksToRenderedBudget
    (splitSegmentsForChunking segs SECTION_CHUNK_TARGET_CHARS SECTION_CHUNK_THRESHOLD_CHARS)
    dialect language SECTION_CHUNK_THRESHOLD_CHARS

/-! ## The second pass -/

/-- The pieces of one chunk. -/
def budgetPieces (dialect : MarkdownDialect) (language : String) (maxChars : Nat)
    (chunk : List Segment) : List (List Segment) :=
  if Fits dialect language maxChars chunk then [chunk]
  else runs (overBudget dialect language maxChars) chunk

theorem pushRenderedBudgetChunk_eq (chunk : List Segment) (out : List (List Segment)) :
    pushRenderedBudgetChunk dialect language maxChars chunk out =
      out ++ budgetPieces dialect language maxChars chunk := by
  rw [pushRenderedBudgetChunk, budgetPieces]
  by_cases hfits : Fits dialect language maxChars chunk
  · simp [hfits]
  · simp only [hfits, dif_neg, not_false_eq_true, if_false]
    have hrest := (rest_lt hfits out).2
    cases chunk with
    | nil => exact absurd (Or.inl (Nat.zero_le 1)) hfits
    | cons seg chunk =>
      rw [budgetLoop_cons] at hrest ⊢
      simp only at hrest ⊢
      have hne : (openRun (overBudget dialect language maxChars) [seg] chunk).isEmpty = false :=
        openRun_invariant (P := fun run => run.isEmpty = false) (by simp) (by simp) (by simp) chunk
      -- the remainder fits, so the recursive call pushes it as it is
      rw [hne, if_neg (by simp), pushRenderedBudgetChunk, dif_pos hrest, List.append_assoc,
        dropLast_append_openRun]
      rfl

theorem splitChunksToRenderedBudget_eq (chunks : List (List Segment)) :
    splitChunksToRenderedBudget chunks dialect language maxChars =
      chunks.flatMap (budgetPieces dialect language maxChars) := by
  have hloop : ∀ (chunks out : List (List Segment)),
      chunks.foldl
        (fun out chunk => pushRenderedBudgetChunk dialect language maxChars chunk out) out =
      out ++ chunks.flatMap (budgetPieces dialect language maxChars) := by
    intro chunks
    induction chunks with
    | nil => simp
    | cons chunk chunks ih =>
      intro out
      rw [List.foldl_cons, ih, pushRenderedBudgetChunk_eq, List.flatMap_cons, List.append_assoc]
  rw [splitChunksToRenderedBudget, hloop, List.nil_append]

theorem flatten_budgetPieces (chunk : List Segment) :
    (budgetPieces dialect language maxChars chunk).flatten = chunk := by
  unfold budgetPieces
  split
  · simp
  · exact flatten_runs _ chunk

theorem fits_of_mem_budgetPieces {chunk : List Segment} :
    ∀ piece ∈ budgetPieces dialect language maxChars chunk,
      Fits dialect language maxChars piece := by
  unfold budgetPieces
  split
  · next h => simpa using h
  · exact forall_mem_runs fits_singleton (fun _ _ _ h => Fits.concat h) chunk

theorem ne_nil_of_mem_budgetPieces {chunk : List Segment} (hchunk : chunk ≠ []) :
    ∀ piece ∈ budgetPieces dialect language maxChars chunk, piece ≠ [] := by
  unfold budgetPieces
  split
  · simpa using hchunk
  · exact fun piece hpiece => ne_nil_of_mem_runs hpiece

/-! ## Both passes -/

theorem sectionChunks_eq (segs : List Segment) :
    sectionChunks segs dialect language =
      (splitSegmentsForChunking segs SECTION_CHUNK_TARGET_CHARS
        SECTION_CHUNK_THRESHOLD_CHARS).flatMap
        (budgetPieces dialect language SECTION_CHUNK_THRESHOLD_CHARS) :=
  splitChunksToRenderedBudget_eq _

theorem flatten_sectionChunks (segs : List Segment) :
    (sectionChunks segs dialect language).flatten = segs := by
  have hpieces : ∀ chunks : List (List Segment),
      (chunks.flatMap (budgetPieces dialect language SECTION_CHUNK_THRESHOLD_CHARS)).flatten =
        chunks.flatten := by
    intro chunks
    induction chunks with
    | nil => rfl
    | cons chunk chunks ih =>
      rw [List.flatMap_cons, List.flatten_append, flatten_budgetPieces, ih, List.flatten_cons]
  rw [sectionChunks_eq, hpieces, flatten_splitSegmentsForChunking]

theorem ne_nil_of_mem_sectionChunks {segs chunk : List Segment}
    (h : chunk ∈ sectionChunks segs dialect language) : chunk ≠ [] := by
  rw [sectionChunks_eq] at h
  obtain ⟨first, hfirst, hchunk⟩ := List.mem_flatMap.mp h
  exact ne_nil_of_mem_budgetPieces (ne_nil_of_mem_splitSegmentsForChunking first hfirst)
    chunk hchunk

theorem sectionChunks_singleton (seg : Segment) :
    sectionChunks [seg] dialect language = [[seg]] :=
  eq_singleton_of_flatten (flatten_sectionChunks [seg]) fun _ => ne_nil_of_mem_sectionChunks

/-- The pass calls itself on what is left of a chunk that does not fit. -/
def Recurses (dialect : MarkdownDialect) (language : String) (maxChars : Nat)
    (chunk rest : List Segment) : Prop :=
  ¬ Fits dialect language maxChars chunk ∧
    ∃ out, (budgetLoop dialect language maxChars chunk out).2 = rest

/-- Chunking loses nothing and keeps the order, every chunk is one segment or
fits the threshold, and the second pass calls itself on a shorter chunk that
needs no further call. -/
theorem sectionChunks_lossless_within_budget (segs : List Segment) (dialect : MarkdownDialect)
    (language : String) :
    (∀ chunk ∈ sectionChunks segs dialect language, chunk ≠ []) ∧
    (sectionChunks segs dialect language).flatten = segs ∧
    (∀ chunk ∈ sectionChunks segs dialect language, chunk.length = 1 ∨
      renderedLlmRequestChars (buildSectionNarrativePrompt chunk dialect language) ≤
        SECTION_CHUNK_THRESHOLD_CHARS) ∧
    ∀ chunk rest, Recurses dialect language SECTION_CHUNK_THRESHOLD_CHARS chunk rest →
      rest.length < chunk.length ∧
        ∀ next, ¬ Recurses dialect language SECTION_CHUNK_THRESHOLD_CHARS rest next := by
  refine ⟨fun chunk => ne_nil_of_mem_sectionChunks, flatten_sectionChunks segs, ?_, ?_⟩
  · intro chunk hchunk
    have hpos : 0 < chunk.length := List.length_pos_iff.mpr (ne_nil_of_mem_sectionChunks hchunk)
    rw [sectionChunks_eq] at hchunk
    obtain ⟨first, _, hpiece⟩ := List.mem_flatMap.mp hchunk
    rcases fits_of_mem_budgetPieces chunk hpiece with hlen | hrendered
    · exact Or.inl (by omega)
    · exact Or.inr hrendered
  · intro chunk rest hrec
    obtain ⟨hfits, out, rfl⟩ := hrec
    obtain ⟨hlt, hrest⟩ := rest_lt hfits out
    exact ⟨hlt, fun next hnext => hnext.1 hrest⟩

end Pipeline
end Panops
