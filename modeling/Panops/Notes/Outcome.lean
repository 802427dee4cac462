import Panops.Notes.Generate
import Panops.Notes.TopicGuarantees

/-!
# The outcome of a run

When notes generation fails, and what a result is guaranteed to hold.
-/

namespace Panops

open Lib Lib.Machine Lib.Text Lib.Runs

namespace Pipeline

open Prompts Verifier TopicSegmentation ScreenshotAnchoring

variable {input : NotesInput}

/-! ## A provider of text -/

def Ambient.fixed : Ambient where
  shiftOrder := .insertion _ _
  languageOrder := .insertion _ _
  now := ⟨"2026-05-01", "2026-05-01T10:01:00+00:00"⟩

/-- A provider that always answers with text. -/
def textProvider : Provider where
  forSection := fun _ _ _ => .ok (.text "")
  frontmatter := fun _ _ => .ok (.text "")

theorem processSection_text (dialect : MarkdownDialect) {llm : LlmProvider}
    (hllm : ∀ log req, llm log req = .ok (.text "")) (timeRangeMs : Nat × Nat)
    {segs : List Segment} (hsegs : segs ≠ []) (language : String) (allowed : Finset UInt32)
    (log : LlmLog) :
    (processSection dialect llm timeRangeMs segs language allowed log).1.2 = none := by
  unfold processSection
  by_cases hfits : renderedLlmRequestChars (buildSectionNarrativePrompt segs dialect language) ≤
      SECTION_CHUNK_THRESHOLD_CHARS
  · simp only [if_pos hfits, processSingleSection, complete, Dialogue.ask, hllm]
  · simp only [if_neg hfits, processLongSection]
    cases hchunks : sectionChunks segs dialect language with
    | nil =>
      have hflat := @flatten_sectionChunks dialect language segs
      rw [hchunks, List.flatten_nil] at hflat
      exact absurd hflat.symm hsegs
    | cons chunk chunks => simp only [summarizeChunks, complete, Dialogue.ask, hllm]

/-- A first section without an error keeps a run from failing. -/
theorem not_allFailed {ambient : Ambient} {provider : Provider} {dialect : MarkdownDialect}
    (h : input.transcript ≠ [])
    (hfirst : ∀ raw ∈ topics ambient input,
      (processSection dialect (provider.forSection 0) raw.timeRangeMs (segmentsOf input raw)
        (notesLanguage ambient input) (allowedSpeakers input.transcript) []).1.2 = none) :
    ¬ AllFailed (sectionRuns ambient provider dialect input) := by
  intro hall
  have hne : topics ambient input ≠ [] := topics_ne_nil h
  obtain ⟨raw, rest, htopics⟩ := List.exists_cons_of_ne_nil hne
  have hrun : (sectionRuns ambient provider dialect input)[0]? =
      some (processSection dialect (provider.forSection 0) raw.timeRangeMs
        (segmentsOf input raw) (notesLanguage ambient input) (allowedSpeakers input.transcript)
        []) := by
    rw [sectionRuns, List.getElem?_mapIdx, htopics]
    rfl
  obtain ⟨_, _, hspec⟩ := getElem?_sectionRuns hrun
  have hflag := hspec.failure.mpr (hall _ (List.mem_of_getElem? hrun))
  have hraw : raw ∈ topics ambient input := htopics ▸ List.mem_cons_self
  rw [hfirst raw hraw] at hflag
  simp at hflag

theorem not_allFailed_textProvider (ambient : Ambient) (dialect : MarkdownDialect)
    (h : input.transcript ≠ []) :
    ¬ AllFailed (sectionRuns ambient textProvider dialect input) := by
  have hanswers : ∀ log req, textProvider.forSection 0 log req = .ok (.text "") := fun _ _ => rfl
  exact not_allFailed h fun raw hraw =>
    processSection_text dialect hanswers _ (segmentsOf_ne_nil hraw) _ _ _

theorem generate_textProvider (ambient : Ambient) (dialect : MarkdownDialect)
    (h : input.transcript ≠ []) :
    generate ambient textProvider dialect input =
      .ok (notesOf ambient textProvider dialect input) :=
  (generate_spec h).2 (not_allFailed_textProvider ambient dialect h)

/-! ## A transcript of many topics -/

/-- Half a minute of speech and more than half a minute of silence, `n` times. -/
def manyTopics (n : Nat) : List Segment :=
  (List.range n).map fun i => utterance (i * 100000) (i * 100000 + 50000)

def manyTopicsInput (n : Nat) : NotesInput where
  transcript := manyTopics n
  screenshots := []
  meetingMetadata :=
    { startedAt := ⟨"2026-05-01", "2026-05-01T10:00:00+00:00"⟩
      durationMs := n * 100000
      sourcePath := none
      languageHint := none }

theorem segAt_manyTopics {n i : Nat} (h : i < n) :
    segAt (manyTopics n) i = utterance (i * 100000) (i * 100000 + 50000) := by
  simp [segAt, manyTopics, List.getD_eq_getElem?_getD, h]

theorem length_topics_manyTopics (ambient : Ambient) (n : Nat) :
    (topics ambient (manyTopicsInput n)).length = n := by
  have hlen : (manyTopics n).length = n := by simp [manyTopics]
  have htail : ∀ i ∈ (List.range n).tail, 0 < i ∧ i < n := by
    intro i hi
    rw [List.range_eq_range', List.tail_range'] at hi
    have := List.mem_range'_1.mp hi
    omega
  have hruns : runs (opensSection ambient.shiftOrder (manyTopics n) .default) (List.range n) =
      (List.range n).map fun i => [i] := by
    apply runs_eq_map_singleton
    intro a i hi
    obtain ⟨hpos, hlt⟩ := htail i hi
    have hgap : TopicSegmentationConfig.default.topicGapMs < gapBefore (manyTopics n) i := by
      rw [gapBefore, segAt_manyTopics hlt, segAt_manyTopics (by omega)]
      simp only [utterance, TopicSegmentationConfig.default]
      omega
    simp [opensSection, hgap]
  have hlong : ∀ i, i < n → isShort (manyTopics n) .default [i] = false := by
    intro i hi
    simp [isShort, sectionOf, segAt_manyTopics hi, utterance, TopicSegmentationConfig.default]
  have hgroups : topicGroups ambient.shiftOrder (manyTopics n) .default =
      (List.range n).map fun i => [i] := by
    rw [topicGroups, hlen, hruns, absorb, runs_eq_map_singleton]
    · simp
    · intro _ g hg
      obtain ⟨i, hi, rfl⟩ := List.mem_map.mp (List.mem_of_mem_tail hg)
      simp [hlong i (List.mem_range.mp hi)]
  have hmap := segmentTopics_eq_map ambient.shiftOrder (manyTopics n) .default
  rw [hgroups] at hmap
  have htopics : topics ambient (manyTopicsInput n) =
      segmentTopics ambient.shiftOrder (manyTopics n) .default := rfl
  rw [htopics, hmap, List.length_map, List.length_map, List.length_range]

theorem exists_index_ne (ambient : Ambient) {n : Nat} (hn : 2 ^ 32 ≤ n) :
    ∃ notes, generate ambient textProvider .basic (manyTopicsInput n) = .ok notes ∧
      ∃ (i : Nat) (sec : NotesSection), notes.sections[i]? = some sec ∧ sec.index ≠ i + 1 := by
  have hne : (manyTopicsInput n).transcript ≠ [] := by
    intro hnil
    have hlen := congrArg List.length hnil
    have hmany : (manyTopicsInput n).transcript.length = n := by simp [manyTopicsInput, manyTopics]
    rw [hmany, List.length_nil] at hlen
    omega
  refine ⟨_, generate_textProvider ambient .basic hne, u32Max, ?_⟩
  have hlen : (notesOf ambient textProvider .basic (manyTopicsInput n)).sections.length =
      (topics ambient (manyTopicsInput n)).length := length_sections_notesOf
  rw [length_topics_manyTopics] at hlen
  have hlt : u32Max <
      (notesOf ambient textProvider .basic (manyTopicsInput n)).sections.length := by
    rw [hlen]
    unfold u32Max
    omega
  refine ⟨_, List.getElem?_eq_getElem hlt, ?_⟩
  obtain ⟨run, shots, _, _, hsec⟩ := getElem?_sections_notesOf (List.getElem?_eq_getElem hlt)
  rw [hsec]
  simp only [assembleSection, sectionIndex]
  split <;> omega

/-! ## The outcome -/

/-- A run fails exactly when every section's draft came from a failed call.
Otherwise there is one section a topic, numbered as far as the numbers go, that
together hold the whole transcript and every screenshot, and a section that fell
back tells its segments in order. -/
theorem generate_outcome (ambient : Ambient) (provider : Provider) (dialect : MarkdownDialect)
    (h : input.transcript ≠ []) :
    ((∃ failed total lastError, generate ambient provider dialect input =
        .error (.llmUnavailable failed total lastError)) ↔
      ∀ run ∈ sectionRuns ambient provider dialect input,
        ∃ e ∈ run.2, ∃ err, e.answer = .error err) ∧
    ((¬ ∀ run ∈ sectionRuns ambient provider dialect input,
        ∃ e ∈ run.2, ∃ err, e.answer = .error err) →
      ∃ notes, generate ambient provider dialect input = .ok notes ∧
        notes.sections.length = (topics ambient input).length ∧
        (∀ (i : Nat) (raw : RawSection) (sec : NotesSection),
          (topics ambient input)[i]? = some raw → notes.sections[i]? = some sec →
          sec.timeRangeMs = raw.timeRangeMs ∧ sec.index = min (i + 1) u32Max) ∧
        (topics ambient input).flatMap RawSection.segmentIndices =
          List.range input.transcript.length ∧
        (notes.sections.flatMap NotesSection.screenshots).Perm
          (clampScreenshots input.meetingMetadata.durationMs input.screenshots) ∧
        ∀ (i : Nat) (raw : RawSection) (run : SectionResult × LlmLog) (sec : NotesSection),
          (topics ambient input)[i]? = some raw →
          (sectionRuns ambient provider dialect input)[i]? = some run →
          notes.sections[i]? = some sec → run.1.1.origin = .fallback →
          InOrder (raw.segmentIndices.map fun j => (segAt input.transcript j).text)
            sec.narrativeMd) := by
  obtain ⟨hfails, hsucceeds⟩ := @generate_spec ambient provider dialect input h
  constructor
  · constructor
    · intro herr
      by_contra hall
      obtain ⟨failed, total, lastError, herr⟩ := herr
      rw [hsucceeds hall] at herr
      simp at herr
    · exact hfails
  · intro hall
    refine ⟨notesOf ambient provider dialect input, hsucceeds hall, length_sections_notesOf,
      ?_, flatMap_segmentTopics _ _ _, ?_, ?_⟩
    · intro i raw sec hraw hsec
      obtain ⟨run, shots, hrun, _, rfl⟩ := getElem?_sections_notesOf hsec
      obtain ⟨raw', hraw', hspec⟩ := getElem?_sectionRuns hrun
      obtain rfl : raw = raw' := Option.some.inj (hraw.symm.trans hraw')
      refine ⟨hspec.range, ?_⟩
      simp only [assembleSection, sectionIndex]
      split <;> omega
    · rw [List.flatMap_def, map_screenshots_notesOf]
      exact flatten_anchorScreenshots_perm (topics_ne_nil h) _
    · intro i raw run sec hraw hrun hsec hfallback
      obtain ⟨run', shots, hrun', _, rfl⟩ := getElem?_sections_notesOf hsec
      obtain rfl : run = run' := Option.some.inj (hrun.symm.trans hrun')
      obtain ⟨raw', hraw', hspec⟩ := getElem?_sectionRuns hrun
      obtain rfl : raw = raw' := Option.some.inj (hraw.symm.trans hraw')
      have hnarrative := hspec.transcript hfallback
      rw [segmentsOf, List.map_map] at hnarrative
      exact hnarrative

theorem generate_outcome_two_topics :
    ∃ notes, generate .fixed textProvider .basic (manyTopicsInput 2) = .ok notes ∧
      notes.sections.length = 2 ∧
      (∀ (i : Nat) (raw : RawSection) (sec : NotesSection),
        (topics .fixed (manyTopicsInput 2))[i]? = some raw → notes.sections[i]? = some sec →
        sec.timeRangeMs = raw.timeRangeMs ∧ sec.index = min (i + 1) u32Max) ∧
      (topics .fixed (manyTopicsInput 2)).flatMap RawSection.segmentIndices = [0, 1] := by
  have h : (manyTopicsInput 2).transcript ≠ [] := List.cons_ne_nil _ _
  obtain ⟨hfails, hsucceeds⟩ := generate_outcome .fixed textProvider .basic h
  have hsome : ¬ ∀ run ∈ sectionRuns .fixed textProvider .basic (manyTopicsInput 2),
      ∃ e ∈ run.2, ∃ err, e.answer = .error err := by
    intro hall
    obtain ⟨failed, total, lastError, herr⟩ := hfails.mpr hall
    rw [generate_textProvider .fixed .basic h] at herr
    cases herr
  obtain ⟨notes, hok, hlen, hsections, hindices, -⟩ := hsucceeds hsome
  rw [length_topics_manyTopics] at hlen
  exact ⟨notes, hok, hlen, hsections, hindices⟩

/-- The section after the last number there is gets that number again. -/
theorem generate_index_saturates :
    ∃ notes, generate .fixed textProvider .basic (manyTopicsInput (2 ^ 32)) = .ok notes ∧
      ∃ (i : Nat) (sec : NotesSection), notes.sections[i]? = some sec ∧ sec.index ≠ i + 1 :=
  exists_index_ne .fixed (Nat.le_refl _)

end Pipeline
end Panops
