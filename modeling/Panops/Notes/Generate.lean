import Mathlib.Data.Finset.Dedup
import Panops.Notes.ScreenshotAnchoring
import Panops.Notes.Section

/-!
# The notes pipeline

`NotesGenerator::generate`: topics, one draft a section, screenshots,
frontmatter.  The sections are processed in parallel; since none sees another's
conversation, each has a provider of its own here, and any interleaving of the
calls of one shared provider is one such family.
-/

namespace Panops

open Lib Lib.Machine Lib.Text Lib.Dialogue

namespace Pipeline

open Prompts Verifier TopicSegmentation ScreenshotAnchoring

/-- What a run does not decide itself: the iteration orders of its maps and the
time. -/
structure Ambient where
  shiftOrder : HashOrder UInt32 Nat
  languageOrder : HashOrder String Nat
  now : DateTime

structure Provider where
  forSection : Nat → LlmProvider
  frontmatter : LlmProvider

def addLanguage (counts : List (String × Nat)) (s : Segment) : List (String × Nat) :=
  match s.languageDetected with
  | some l => entryUpdate l 0 (· + 1) counts
  | none => counts

def dominantLanguage (order : HashOrder String Nat) (segments : List Segment) : String :=
  let counts := segments.foldl addLanguage []
  ((maxByKey Prod.snd (order.iter 0 counts)).map Prod.fst).getD "en"

/-- Values in the order of their first appearance. -/
def firstAppearances {α : Type} [DecidableEq α] (xs : List α) : List α :=
  xs.foldl (fun out x => if x ∈ out then out else out ++ [x]) []

def uniqueLanguages (segments : List Segment) : List String :=
  let out := firstAppearances (segments.filterMap Segment.languageDetected)
  if out.isEmpty then ["en"] else out

def collectSpeakers (segments : List Segment) : List String :=
  (firstAppearances (segments.filterMap Segment.speakerId)).map fun id => speakerLabel (some id)

def extractFrontmatter (v : Value) : String × List String :=
  ((v.getStr "title").getD "Untitled meeting", v.getMapped "tags" Value.asStr)

def allowedSpeakers (segments : List Segment) : Finset UInt32 :=
  (segments.filterMap Segment.speakerId).toFinset

/-- Timestamps past a known end of the meeting are moved to it. -/
def clampScreenshots (durationMs : Nat) (screenshots : List Screenshot) : List Screenshot :=
  if durationMs = 0 then screenshots
  else screenshots.map fun s => { s with msSinceStart := min s.msSinceStart durationMs }

theorem clampScreenshots_eq_self {durationMs : Nat} {screenshots : List Screenshot}
    (h : ∀ shot ∈ screenshots, shot.msSinceStart ≤ durationMs) :
    clampScreenshots durationMs screenshots = screenshots := by
  unfold clampScreenshots
  split
  · rfl
  · calc screenshots.map (fun s => { s with msSinceStart := min s.msSinceStart durationMs })
        = screenshots.map id := by
          refine List.map_congr_left fun shot hshot => ?_
          rw [Nat.min_eq_left (h shot hshot)]
          rfl
      _ = screenshots := List.map_id screenshots

/-- `u32::try_from(i + 1).unwrap_or(u32::MAX)`. -/
def sectionIndex (i : Nat) : Nat := if i + 1 ≤ u32Max then i + 1 else u32Max

def assembleSection (i : Nat) (parts : SectionDraft × List Screenshot) : NotesSection where
  index := sectionIndex i
  title := parts.1.title
  timeRangeMs := parts.1.timeRangeMs
  narrativeMd := parts.1.narrativeMd
  keyPoints := parts.1.keyPoints
  actionItems := parts.1.actionItems
  screenshots := parts.2

def defaultFrontmatter : String × List String := ("Untitled meeting", [])

variable (ambient : Ambient) (provider : Provider) (dialect : MarkdownDialect)
  (input : NotesInput)

def notesLanguage : String :=
  input.meetingMetadata.languageHint.getD
    (dominantLanguage ambient.languageOrder input.transcript)

/-- The sections of stage 1. -/
def topics : List RawSection := segmentTopics ambient.shiftOrder input.transcript .default

def segmentsOf (raw : RawSection) : List Segment :=
  raw.segmentIndices.map (segAt input.transcript)

/-- Stage 2: the result of each section, with its conversation. -/
def sectionRuns : List (SectionResult × LlmLog) :=
  (topics ambient input).mapIdx fun i raw =>
    processSection dialect (provider.forSection i) raw.timeRangeMs (segmentsOf input raw)
      (notesLanguage ambient input) (allowedSpeakers input.transcript) []

def frontmatterOf (drafts : List SectionDraft) : String × List String :=
  let summaries := drafts.map fun d => ({ title := d.title, keyPoints := d.keyPoints } :
    SectionSummary)
  let fmReq := buildFrontmatterPrompt summaries (notesLanguage ambient input)
    input.meetingMetadata.durationMs
  match (complete provider.frontmatter [] fmReq).1 with
  | .ok (.json v) => extractFrontmatter v
  | .ok (.text _) => defaultFrontmatter
  | .error _ => defaultFrontmatter

/-- Stages 3 and 4, once at least one section was reachable. -/
def assembleNotes (drafts : List SectionDraft) : StructuredNotes :=
  let clampedScreenshots :=
    clampScreenshots input.meetingMetadata.durationMs input.screenshots
  let perSectionScreenshots := anchorScreenshots (topics ambient input) clampedScreenshots
  let frontmatter := frontmatterOf ambient provider input drafts
  { schemaVersion := StructuredNotes.SCHEMA_VERSION
    frontmatter :=
      { title := frontmatter.1
        date := input.meetingMetadata.startedAt.date
        startedAt := input.meetingMetadata.startedAt
        durationMs := input.meetingMetadata.durationMs
        speakers := collectSpeakers input.transcript
        languages := uniqueLanguages input.transcript
        tags := frontmatter.2
        template := "default"
        dialect := dialect
        panopsVersion := "0.1.0"
        sourceAudio := input.meetingMetadata.sourcePath }
    sections := (drafts.zip perSectionScreenshots).mapIdx assembleSection
    language := notesLanguage ambient input
    generatedAt := ambient.now }

def generate : Except NotesError StructuredNotes :=
  if input.transcript.isEmpty then .error .emptyTranscript
  else
    let sectionResults := (sectionRuns ambient provider dialect input).map Prod.fst
    let totalSections := sectionResults.length
    let llmErrors := sectionResults.filterMap Prod.snd
    if 0 < totalSections && llmErrors.length == totalSections then
      .error (.llmUnavailable llmErrors.length totalSections (llmErrors.getLastD ""))
    else .ok (assembleNotes ambient provider dialect input (sectionResults.map Prod.fst))

/-! ## Sections of a run -/

variable {ambient provider dialect input}

@[simp] theorem length_sectionRuns :
    (sectionRuns ambient provider dialect input).length = (topics ambient input).length :=
  List.length_mapIdx

theorem topics_ne_nil (h : input.transcript ≠ []) : topics ambient input ≠ [] := by
  intro hnil
  have hindices := flatMap_segmentTopics ambient.shiftOrder input.transcript .default
  have htopics : segmentTopics ambient.shiftOrder input.transcript .default = [] := hnil
  rw [htopics, List.flatMap_nil] at hindices
  exact h (List.length_eq_zero_iff.mp (List.range_eq_nil.mp hindices.symm))

/-- A topic has at least one segment. -/
theorem segmentsOf_ne_nil {raw : RawSection} (h : raw ∈ topics ambient input) :
    segmentsOf input raw ≠ [] := by
  rw [topics, segmentTopics_eq_map] at h
  obtain ⟨g, hg, rfl⟩ := List.mem_map.mp h
  simpa [segmentsOf] using ne_nil_of_mem_topicGroups _ _ _ hg

theorem getElem?_sectionRuns {i : Nat} {run : SectionResult × LlmLog}
    (h : (sectionRuns ambient provider dialect input)[i]? = some run) :
    ∃ raw, (topics ambient input)[i]? = some raw ∧
      SectionSpec raw.timeRangeMs (segmentsOf input raw) (allowedSpeakers input.transcript)
        run.2 run.1 := by
  rw [sectionRuns, List.getElem?_mapIdx] at h
  obtain ⟨raw, hraw, rfl⟩ := Option.map_eq_some_iff.mp h
  refine ⟨raw, hraw, ?_⟩
  obtain ⟨calls, hlog, hspec⟩ := processSection_spec dialect (provider.forSection i)
    raw.timeRangeMs (allowedSpeakers input.transcript) (notesLanguage ambient input)
    (segmentsOf_ne_nil (List.mem_of_getElem? hraw)) []
  rw [hlog, List.nil_append]
  exact hspec

/-- The provider failed in every section. -/
def AllFailed (runs : List (SectionResult × LlmLog)) : Prop :=
  ∀ run ∈ runs, AnsweredError run.2

theorem all_isSome_iff_allFailed :
    (∀ result ∈ (sectionRuns ambient provider dialect input).map Prod.fst,
      result.2.isSome = true) ↔ AllFailed (sectionRuns ambient provider dialect input) := by
  rw [List.forall_mem_map]
  refine forall₂_congr fun run hrun => ?_
  obtain ⟨i, hi⟩ := List.mem_iff_getElem?.mp hrun
  obtain ⟨_, _, hspec⟩ := getElem?_sectionRuns hi
  exact hspec.failure

/-- A run on a transcript fails exactly when the provider failed in every
section. -/
theorem generate_spec (h : input.transcript ≠ []) :
    (AllFailed (sectionRuns ambient provider dialect input) →
      ∃ failed total lastError,
        generate ambient provider dialect input = .error (.llmUnavailable failed total lastError)) ∧
    (¬ AllFailed (sectionRuns ambient provider dialect input) →
      generate ambient provider dialect input =
        .ok (assembleNotes ambient provider dialect input
          ((sectionRuns ambient provider dialect input).map fun run => run.1.1))) := by
  have hpos : 0 < ((sectionRuns ambient provider dialect input).map Prod.fst).length := by
    rw [List.length_map, length_sectionRuns]
    exact List.length_pos_iff.mpr (topics_ne_nil h)
  have hempty : input.transcript.isEmpty = false := by simpa using h
  have hcount : (((sectionRuns ambient provider dialect input).map Prod.fst).filterMap
      Prod.snd).length = ((sectionRuns ambient provider dialect input).map Prod.fst).length ↔
      AllFailed (sectionRuns ambient provider dialect input) := by
    rw [← all_isSome_iff_allFailed, List.length_filterMap_eq_countP, List.countP_eq_length]
  unfold generate
  rw [hempty, if_neg (by simp)]
  constructor
  · intro hall
    refine ⟨_, _, _, if_pos ?_⟩
    simp only [Bool.and_eq_true, decide_eq_true_eq, beq_iff_eq]
    exact ⟨hpos, hcount.mpr hall⟩
  · intro hall
    simp only [List.map_map]
    refine if_neg fun hcond => hall ?_
    simp only [Bool.and_eq_true, decide_eq_true_eq, beq_iff_eq] at hcond
    apply hcount.mp
    rw [List.filterMap_map, List.length_map]
    simpa using hcond.2

/-! ## The notes of a run -/

variable (ambient provider dialect input)

/-- The screenshots of each section, after the clamp. -/
def anchoredScreenshots : List (List Screenshot) :=
  anchorScreenshots (topics ambient input)
    (clampScreenshots input.meetingMetadata.durationMs input.screenshots)

/-- The notes that a run returns when it succeeds. -/
def notesOf : StructuredNotes :=
  assembleNotes ambient provider dialect input
    ((sectionRuns ambient provider dialect input).map fun run => run.1.1)

variable {ambient provider dialect input}

/-- What it takes for a run to succeed, and what it returns then. -/
theorem eq_notesOf_of_generate {notes : StructuredNotes}
    (h : generate ambient provider dialect input = .ok notes) :
    input.transcript ≠ [] ∧ notes = notesOf ambient provider dialect input := by
  have hne : input.transcript ≠ [] := by
    intro hnil
    rw [generate, hnil] at h
    simp at h
  obtain ⟨hfails, hsucceeds⟩ := @generate_spec ambient provider dialect input hne
  refine ⟨hne, ?_⟩
  by_cases hall : AllFailed (sectionRuns ambient provider dialect input)
  · obtain ⟨_, _, _, herr⟩ := hfails hall
    rw [herr] at h
    simp at h
  · rw [hsucceeds hall] at h
    exact (Except.ok.inj h).symm

theorem sections_notesOf :
    (notesOf ambient provider dialect input).sections =
      (((sectionRuns ambient provider dialect input).map fun run => run.1.1).zip
        (anchoredScreenshots ambient input)).mapIdx assembleSection := rfl

theorem length_sections_notesOf :
    (notesOf ambient provider dialect input).sections.length = (topics ambient input).length := by
  rw [sections_notesOf, List.length_mapIdx, List.length_zip, List.length_map, length_sectionRuns,
    anchoredScreenshots, length_anchorScreenshots, Nat.min_self]

theorem getElem?_sections_notesOf {i : Nat} {sec : NotesSection}
    (h : (notesOf ambient provider dialect input).sections[i]? = some sec) :
    ∃ run shots, (sectionRuns ambient provider dialect input)[i]? = some run ∧
      (anchoredScreenshots ambient input)[i]? = some shots ∧
      sec = assembleSection i (run.1.1, shots) := by
  rw [sections_notesOf, List.getElem?_mapIdx] at h
  obtain ⟨⟨draft, shots⟩, hparts, rfl⟩ := Option.map_eq_some_iff.mp h
  obtain ⟨hdraft, hshots⟩ := List.getElem?_zip_eq_some.mp hparts
  rw [List.getElem?_map] at hdraft
  obtain ⟨run, hrun, rfl⟩ := Option.map_eq_some_iff.mp hdraft
  exact ⟨run, shots, hrun, hshots, rfl⟩

theorem map_screenshots_notesOf :
    (notesOf ambient provider dialect input).sections.map NotesSection.screenshots =
      anchoredScreenshots ambient input := by
  have hlen : (anchoredScreenshots ambient input).length ≤
      ((sectionRuns ambient provider dialect input).map fun run => run.1.1).length := by
    rw [anchoredScreenshots, length_anchorScreenshots, List.length_map, length_sectionRuns]
  have hscreens : ∀ (parts : List (SectionDraft × List Screenshot)),
      (parts.mapIdx assembleSection).map NotesSection.screenshots = parts.map Prod.snd := by
    intro parts
    apply List.ext_getElem?
    intro i
    rw [List.getElem?_map, List.getElem?_mapIdx, List.getElem?_map, Option.map_map]
    rfl
  rw [sections_notesOf, hscreens]
  exact List.map_snd_zip hlen

end Pipeline
end Panops
