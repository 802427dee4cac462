import Panops.Notes.Outcome

/-!
# The language of the notes

Without a hint the notes are written in the language that most segments were heard
in.  The counts are kept in a hash map, and where two languages have the greatest
count the order of the map decides.
-/

namespace Panops

open Lib Lib.Machine Lib.Dialogue

namespace Pipeline

open Prompts

/-- How many segments were heard in the language. -/
def languageCount (segments : List Segment) (language : String) : Nat :=
  (segments.filterMap Segment.languageDetected).count language

def Detected (segments : List Segment) (language : String) : Prop :=
  language ∈ segments.filterMap Segment.languageDetected

/-- No language was heard in more segments. -/
def MostSpoken (segments : List Segment) (language : String) : Prop :=
  ∀ other, languageCount segments other ≤ languageCount segments language

/-! ## What the map decides -/

theorem foldl_addLanguage (segments : List Segment) :
    segments.foldl addLanguage [] = tally (segments.filterMap Segment.languageDetected) := by
  rw [tally, List.foldl_filterMap]
  congr 1
  funext counts s
  rw [addLanguage]
  cases s.languageDetected with
  | none => rfl
  | some l => rfl

variable {segments : List Segment} {language : String}

theorem Detected.of_mostSpoken {other : String} (h : MostSpoken segments language)
    (hother : Detected segments other) : Detected segments language := by
  have hpos : 0 < languageCount segments other := List.count_pos_iff.mpr hother
  exact List.count_pos_iff.mp (Nat.lt_of_lt_of_le hpos (h other))

/-- Whatever the order, no language is heard more often than the dominant one. -/
theorem mostSpoken_dominantLanguage (order : HashOrder String Nat) (segments : List Segment) :
    MostSpoken segments (dominantLanguage order segments) := by
  intro other
  by_cases hother : Detected segments other
  · have hentry := mem_tally_of_mem hother
    rw [← foldl_addLanguage] at hentry
    have hiter := (order.perm 0 (segments.foldl addLanguage [])).mem_iff.mpr hentry
    unfold dominantLanguage
    simp only
    cases hmax : maxByKey Prod.snd (order.iter 0 (segments.foldl addLanguage [])) with
    | none =>
      rw [maxByKey_eq_none_iff.mp hmax] at hiter
      exact absurd hiter List.not_mem_nil
    | some best =>
      obtain ⟨l, n⟩ := best
      have hbest := (order.perm 0 _).mem_iff.mp (mem_of_maxByKey hmax)
      rw [foldl_addLanguage] at hbest
      have hle : languageCount segments other ≤ n := le_of_maxByKey hmax _ hiter
      rw [eq_count_of_mem_tally hbest] at hle
      exact hle
  · have hzero : languageCount segments other = 0 := List.count_eq_zero_of_not_mem hother
    omega

/-- Each of the languages that are heard most is the dominant one for some order. -/
theorem exists_order_of_mostSpoken (hdetected : Detected segments language)
    (hmost : MostSpoken segments language) :
    ∃ order, dominantLanguage order segments = language := by
  have hentry := mem_tally_of_mem hdetected
  obtain ⟨order, front, hiter, hfront⟩ := exists_order_last hentry
  have hmax : maxByKey Prod.snd (front ++ [(language, languageCount segments language)]) =
      some (language, languageCount segments language) := by
    apply maxByKey_concat
    rintro ⟨other, n⟩ hother
    show n ≤ languageCount segments language
    rw [eq_count_of_mem_tally (hfront _ hother)]
    exact hmost other
  refine ⟨order, ?_⟩
  unfold dominantLanguage
  rw [foldl_addLanguage]
  show ((maxByKey Prod.snd (order.iter 0 _)).map Prod.fst).getD "en" = language
  rw [hiter]
  exact congrArg (fun best => (Option.map Prod.fst best).getD "en") hmax

/-- At most one language is heard most. -/
def OneMostSpoken (segments : List Segment) : Prop :=
  ∀ a b, Detected segments a → Detected segments b → MostSpoken segments a →
    MostSpoken segments b → a = b

/-- Without detected languages the map is empty. -/
theorem dominantLanguage_of_not_detected (order : HashOrder String Nat)
    (h : ∀ l, ¬ Detected segments l) : dominantLanguage order segments = "en" := by
  have hnil : segments.filterMap Segment.languageDetected = [] :=
    List.eq_nil_iff_forall_not_mem.mpr h
  have hiter : order.iter 0 (segments.foldl addLanguage []) = [] := by
    have hperm := order.perm 0 (segments.foldl addLanguage [])
    rw [foldl_addLanguage, hnil] at hperm ⊢
    exact hperm.eq_nil
  unfold dominantLanguage
  simp only [hiter]
  rfl

theorem OneMostSpoken.dominantLanguage_eq (h : OneMostSpoken segments)
    (order order' : HashOrder String Nat) :
    dominantLanguage order segments = dominantLanguage order' segments := by
  by_cases hnone : ∀ l, ¬ Detected segments l
  · rw [dominantLanguage_of_not_detected order hnone, dominantLanguage_of_not_detected order' hnone]
  · obtain ⟨l, hl⟩ := not_forall_not.mp hnone
    have hmost := mostSpoken_dominantLanguage order segments
    have hmost' := mostSpoken_dominantLanguage order' segments
    exact h _ _ (.of_mostSpoken hmost hl) (.of_mostSpoken hmost' hl) hmost hmost'

/-! ## The prompts of a run -/

/-- The prompt tells the provider to answer in the language. -/
inductive AsksIn (language : String) : LlmRequest → Prop
  | narrative (segments : List Segment) (dialect : MarkdownDialect) :
      AsksIn language (buildSectionNarrativePrompt segments dialect language)
  | merge (chunkSummaries : List Value) (dialect : MarkdownDialect) :
      AsksIn language (buildMergeSectionPrompt chunkSummaries dialect language)
  | frontmatter (summaries : List SectionSummary) (durationMs : Nat) :
      AsksIn language (buildFrontmatterPrompt summaries language durationMs)

variable (dialect : MarkdownDialect) (llm : LlmProvider) (timeRangeMs : Nat × Nat)
  (segs : List Segment) (allowedSpeakers : Finset UInt32)

theorem asksIn_summarizeChunks (chunks : List (List Segment)) (chunkSummaries : List Value)
    {log : LlmLog} (hlog : ∀ e ∈ log, AsksIn language e.query) :
    ∀ e ∈ (summarizeChunks dialect llm language chunks chunkSummaries log).2,
      AsksIn language e.query := by
  induction chunks generalizing chunkSummaries log with
  | nil => exact hlog
  | cons chunk chunks ih =>
    let req := buildSectionNarrativePrompt chunk dialect language
    have hcomplete : complete llm log req = (llm log req, log ++ [⟨req, llm log req⟩]) := rfl
    have hnext : ∀ e ∈ log ++ [⟨req, llm log req⟩], AsksIn language e.query := by
      intro e he
      rcases List.mem_append.mp he with he | he
      · exact hlog e he
      · rw [List.mem_singleton.mp he]
        exact .narrative chunk dialect
    rw [summarizeChunks, hcomplete]
    split
    · next v log' hanswer =>
      obtain ⟨-, rfl⟩ := Prod.mk.inj hanswer
      exact ih _ hnext
    · next s log' hanswer =>
      obtain ⟨-, rfl⟩ := Prod.mk.inj hanswer
      exact hnext
    · next err log' hanswer =>
      obtain ⟨-, rfl⟩ := Prod.mk.inj hanswer
      exact hnext

theorem asksIn_mergeChunkSummaries (chunkSummaries : List Value) {log : LlmLog}
    (hlog : ∀ e ∈ log, AsksIn language e.query) :
    ∀ e ∈ (mergeChunkSummaries dialect language llm chunkSummaries log).2,
      AsksIn language e.query := by
  cases chunkSummaries with
  | nil => exact hlog
  | cons first rest =>
    obtain ⟨calls, hcalls, hspec⟩ := mergeChunkSummaries_spec dialect language llm first rest log
    rw [hcalls]
    intro e he
    rcases List.mem_append.mp he with he | he
    · exact hlog e he
    · obtain ⟨batch, -, hquery, -⟩ := hspec.requests e he
      rw [hquery]
      exact .merge batch dialect

theorem query_processSingleSection (req : LlmRequest) :
    ∀ e ∈ (processSingleSection dialect llm timeRangeMs segs req allowedSpeakers []).2,
      e.query = req := by
  have hcomplete : complete llm [] req = (llm [] req, [⟨req, llm [] req⟩]) := rfl
  rw [processSingleSection, hcomplete]
  cases llm [] req with
  | error err => simp
  | ok response => cases response <;> simp

theorem asksIn_processLongSection :
    ∀ e ∈ (processLongSection dialect llm timeRangeMs segs language allowedSpeakers []).2,
      AsksIn language e.query := by
  have hsummaries := asksIn_summarizeChunks dialect llm (sectionChunks segs dialect language) []
    (by simp : ∀ e ∈ ([] : LlmLog), AsksIn language e.query)
  unfold processLongSection
  split
  · next err log hsum =>
    rw [hsum] at hsummaries
    exact hsummaries
  · next chunkSummaries log hsum =>
    rw [hsum] at hsummaries
    have hmerge := asksIn_mergeChunkSummaries dialect llm chunkSummaries hsummaries
    split
    · next v log' hmerged =>
      rw [hmerged] at hmerge
      exact hmerge
    · next mergeErr log' hmerged =>
      rw [hmerged] at hmerge
      exact hmerge

theorem asksIn_processSection :
    ∀ e ∈ (processSection dialect llm timeRangeMs segs language allowedSpeakers []).2,
      AsksIn language e.query := by
  intro e he
  rw [processSection] at he
  by_cases hfits : renderedLlmRequestChars (buildSectionNarrativePrompt segs dialect language) ≤
      SECTION_CHUNK_THRESHOLD_CHARS
  · rw [if_pos hfits] at he
    rw [query_processSingleSection dialect llm timeRangeMs segs allowedSpeakers _ e he]
    exact .narrative segs dialect
  · rw [if_neg hfits] at he
    exact asksIn_processLongSection dialect llm timeRangeMs segs allowedSpeakers e he

variable (ambient : Ambient) (provider : Provider) (input : NotesInput)

/-- The request of stage 4. -/
def frontmatterRequest (drafts : List SectionDraft) : LlmRequest :=
  buildFrontmatterPrompt
    (drafts.map fun d => ({ title := d.title, keyPoints := d.keyPoints } : SectionSummary))
    (notesLanguage ambient input) input.meetingMetadata.durationMs

/-- What a run sends: the prompts of the sections, and that of the frontmatter when
it comes to it. -/
def prompts : List LlmRequest :=
  let runs := sectionRuns ambient provider dialect input
  let sections := runs.flatMap fun run => run.2.map Exchange.query
  match generate ambient provider dialect input with
  | .error _ => sections
  | .ok _ => sections ++ [frontmatterRequest ambient input (runs.map fun run => run.1.1)]

variable {ambient provider dialect input}

theorem asksIn_of_mem_prompts {req : LlmRequest}
    (h : req ∈ prompts dialect ambient provider input) : AsksIn (notesLanguage ambient input) req := by
  have hsections : ∀ req ∈ (sectionRuns ambient provider dialect input).flatMap
      (fun run => run.2.map Exchange.query), AsksIn (notesLanguage ambient input) req := by
    intro req hreq
    obtain ⟨run, hrun, hquery⟩ := List.mem_flatMap.mp hreq
    obtain ⟨e, he, rfl⟩ := List.mem_map.mp hquery
    obtain ⟨i, hi, rfl⟩ := List.mem_mapIdx.mp hrun
    exact asksIn_processSection dialect _ _ _ _ e he
  unfold prompts at h
  simp only at h
  split at h
  · exact hsections req h
  · rcases List.mem_append.mp h with h | h
    · exact hsections req h
    · rw [List.mem_singleton.mp h]
      exact .frontmatter _ _

/-! ## One language -/

/-- The language of the prompts and of the notes is the same in every run, and none
is heard more often. -/
def Reproducible (input : NotesInput) : Prop :=
  ∃ language, MostSpoken input.transcript language ∧
    ∀ (ambient : Ambient) (provider : Provider) (dialect : MarkdownDialect),
      (∀ req ∈ prompts dialect ambient provider input, AsksIn language req) ∧
      ∀ notes, generate ambient provider dialect input = .ok notes → notes.language = language

/-- Without a hint the language is reproducible exactly when no two languages share
the greatest count. -/
theorem reproducible_iff {input : NotesInput} (hhint : input.meetingMetadata.languageHint = none) :
    Reproducible input ↔ OneMostSpoken input.transcript := by
  have hlanguage : ∀ ambient : Ambient, notesLanguage ambient input =
      dominantLanguage ambient.languageOrder input.transcript := by
    intro ambient
    rw [notesLanguage, hhint]
    rfl
  constructor
  · intro h
    obtain ⟨language, -, hruns⟩ := h
    -- a run for each of the orders that bring one of them to the front
    have hunique : ∀ l, Detected input.transcript l → MostSpoken input.transcript l →
        l = language := by
      intro l hdetected hmost
      obtain ⟨order, horder⟩ := exists_order_of_mostSpoken hdetected hmost
      let ambient : Ambient :=
        { shiftOrder := .insertion UInt32 Nat
          languageOrder := order
          now := input.meetingMetadata.startedAt }
      have hne : input.transcript ≠ [] := by
        intro hnil
        rw [Detected, hnil] at hdetected
        exact absurd hdetected List.not_mem_nil
      have hnotes := (hruns ambient textProvider .basic).2 _ (generate_textProvider ambient .basic hne)
      rw [← hnotes, ← horder]
      exact (hlanguage ambient).symm
    intro a b ha hb hmosta hmostb
    rw [hunique a ha hmosta, hunique b hb hmostb]
  · intro h
    let order := HashOrder.insertion String Nat
    refine ⟨dominantLanguage order input.transcript, mostSpoken_dominantLanguage order _,
      fun ambient provider dialect => ?_⟩
    have hsame : notesLanguage ambient input = dominantLanguage order input.transcript :=
      (hlanguage ambient).trans (h.dominantLanguage_eq ambient.languageOrder order)
    rw [← hsame]
    refine ⟨fun req hreq => asksIn_of_mem_prompts hreq, fun notes hnotes => ?_⟩
    rw [(eq_notesOf_of_generate hnotes).2]
    rfl

def heardIn (languages : List String) : NotesInput where
  transcript := languages.map fun l => { (default : Segment) with languageDetected := some l }
  screenshots := []
  meetingMetadata :=
    { startedAt := ⟨"2026-01-01", "2026-01-01T09:00:00Z"⟩
      durationMs := 0
      sourcePath := none
      languageHint := none }

/-- Twice French and once English. -/
theorem reproducible_of_majority : Reproducible (heardIn ["fr", "en", "fr"]) := by
  apply (reproducible_iff rfl).mpr
  intro a b ha hb hmosta hmostb
  have hmost : ∀ l, MostSpoken (heardIn ["fr", "en", "fr"]).transcript l →
      Detected (heardIn ["fr", "en", "fr"]).transcript l → l = "fr" := by
    intro l hl hdetected
    have hcases : l = "fr" ∨ l = "en" ∨ l = "fr" := by
      simpa [Detected, heardIn] using hdetected
    rcases hcases with rfl | rfl | rfl
    · rfl
    · have hle := hl "fr"
      simp [languageCount, heardIn] at hle
    · rfl
  rw [hmost a hmosta ha, hmost b hmostb hb]

/-- One segment in each of two languages. -/
theorem not_reproducible : ¬ ∀ input : NotesInput,
    input.meetingMetadata.languageHint = none → Reproducible input := by
  intro h
  obtain ⟨language, -, hruns⟩ := h (heardIn ["fr", "en"]) rfl
  let backwards : HashOrder String Nat := ⟨fun _ => List.reverse, fun _ => List.reverse_perm⟩
  let first : Ambient := ⟨.insertion _ _, .insertion _ _, ⟨"", ""⟩⟩
  let second : Ambient := ⟨.insertion _ _, backwards, ⟨"", ""⟩⟩
  have hne : (heardIn ["fr", "en"]).transcript ≠ [] := by simp [heardIn]
  have hfirst := (hruns first textProvider .basic).2 _ (generate_textProvider first .basic hne)
  have hsecond := (hruns second textProvider .basic).2 _ (generate_textProvider second .basic hne)
  have hen : dominantLanguage first.languageOrder (heardIn ["fr", "en"]).transcript = "en" := by
    simp [dominantLanguage, first, heardIn, addLanguage, entryUpdate, HashOrder.insertion, maxByKey]
  have hfr : dominantLanguage second.languageOrder (heardIn ["fr", "en"]).transcript = "fr" := by
    simp [dominantLanguage, second, backwards, heardIn, addLanguage, entryUpdate, maxByKey]
  have hlanguage : ∀ ambient : Ambient,
      (notesOf ambient textProvider .basic (heardIn ["fr", "en"])).language =
        dominantLanguage ambient.languageOrder (heardIn ["fr", "en"]).transcript :=
    fun _ => rfl
  rw [hlanguage, hen] at hfirst
  rw [hlanguage, hfr, ← hfirst] at hsecond
  exact absurd hsecond (by decide)

end Pipeline
end Panops
