import Panops.Notes.Chunking
import Panops.Notes.Merge
import Panops.Notes.Verifier

/-!
# One section

From the segments of a section to its draft: one request, or chunks and a merge,
then the attribution check, with a transcript dump where any of it fails.
-/

namespace Panops

open Lib Lib.Text Lib.Dialogue

namespace Pipeline

open Prompts Verifier

/-- Which constructor built a draft. -/
inductive DraftOrigin where
  | json
  | fallback
deriving DecidableEq

structure SectionDraft where
  title : String
  narrativeMd : String
  keyPoints : List String
  actionItems : List ActionItem
  timeRangeMs : Nat × Nat
  /-- Kept by the model only; the code never asks. -/
  origin : DraftOrigin

def SectionDraft.fromJson (timeRangeMs : Nat × Nat) (v : Value) : SectionDraft where
  title := (v.getStr "title").getD "Untitled section"
  narrativeMd := (v.getStr "narrative_md").getD ""
  keyPoints := v.getMapped "key_points" Value.asStr
  actionItems := (v.getMapped "action_items" Value.actionItem).map fun (description, owner) =>
    { description := description, owner := owner, due := none }
  timeRangeMs := timeRangeMs
  origin := .json

def fallbackHeader (err : String) : MarkdownDialect → String
  | .notionEnhanced => "<!-- panops: llm error: " ++ err ++ " -->\n\n"
  | .basic => "> panops: llm error: " ++ err ++ "\n\n"

def fallbackLine (seg : Segment) : String :=
  "**" ++ speakerLabel seg.speakerId ++ ":** " ++ seg.text ++ "\n\n"

def SectionDraft.fallback (timeRangeMs : Nat × Nat) (segs : List Segment) (err : String)
    (dialect : MarkdownDialect) : SectionDraft where
  title := "Section"
  narrativeMd := segs.foldl (fun body seg => body ++ fallbackLine seg) (fallbackHeader err dialect)
  keyPoints := []
  actionItems := []
  timeRangeMs := timeRangeMs
  origin := .fallback

/-- A draft, with the error when a failed `complete` call produced it. -/
abbrev SectionResult := SectionDraft × Option String

/-- The draft made of an answer, unless the verifier rejects it. -/
def verifiedDraft (timeRangeMs : Nat × Nat) (segs : List Segment) (v : Value)
    (dialect : MarkdownDialect) (allowedSpeakers : Finset UInt32) : SectionResult :=
  let draft := SectionDraft.fromJson timeRangeMs v
  match verifySectionAttribution draft.narrativeMd draft.actionItems allowedSpeakers with
  | .ok => (draft, none)
  | .disallowedSpeakers _ =>
    (.fallback timeRangeMs segs "verifier: disallowed speaker reference" dialect, none)

variable (dialect : MarkdownDialect) (llm : LlmProvider)

def processSingleSection (timeRangeMs : Nat × Nat) (segs : List Segment) (req : LlmRequest)
    (allowedSpeakers : Finset UInt32) (log : LlmLog) : SectionResult × LlmLog :=
  match complete llm log req with
  | (.ok (.json v), log) => (verifiedDraft timeRangeMs segs v dialect allowedSpeakers, log)
  | (.ok (.text _), log) =>
    ((.fallback timeRangeMs segs "llm returned text, expected json" dialect, none), log)
  | (.error e, log) => ((.fallback timeRangeMs segs e.display dialect, some e.display), log)

/-- The loop over the chunks.  It stops at the first answer that is not JSON,
with the error if there was one. -/
def summarizeChunks (language : String) (chunks : List (List Segment))
    (chunkSummaries : List Value) (log : LlmLog) : Except (Option String) (List Value) × LlmLog :=
  match chunks with
  | [] => (.ok chunkSummaries, log)
  | chunk :: chunks =>
    match complete llm log (buildSectionNarrativePrompt chunk dialect language) with
    | (.ok (.json v), log) => summarizeChunks language chunks (chunkSummaries ++ [v]) log
    | (.ok (.text _), log) => (.error none, log)
    | (.error e, log) => (.error (some e.display), log)

/-- Chunk, summarise each chunk, merge. -/
def processLongSection (timeRangeMs : Nat × Nat) (segs : List Segment) (language : String)
    (allowedSpeakers : Finset UInt32) (log : LlmLog) : SectionResult × LlmLog :=
  match summarizeChunks dialect llm language (sectionChunks segs dialect language) [] log with
  | (.error err, log) => ((.fallback timeRangeMs segs "LLM unavailable" dialect, err), log)
  | (.ok chunkSummaries, log) =>
    match mergeChunkSummaries dialect language llm chunkSummaries log with
    | (.ok v, log) => (verifiedDraft timeRangeMs segs v dialect allowedSpeakers, log)
    | (.error mergeErr, log) =>
      ((.fallback timeRangeMs segs mergeErr.message dialect,
        if mergeErr.llmFailed then some mergeErr.message else none), log)

def processSection (timeRangeMs : Nat × Nat) (segs : List Segment) (language : String)
    (allowedSpeakers : Finset UInt32) (log : LlmLog) : SectionResult × LlmLog :=
  let singleReq := buildSectionNarrativePrompt segs dialect language
  if renderedLlmRequestChars singleReq ≤ SECTION_CHUNK_THRESHOLD_CHARS then
    processSingleSection dialect llm timeRangeMs segs singleReq allowedSpeakers log
  else processLongSection dialect llm timeRangeMs segs language allowedSpeakers log

/-! ## The fallback narrative -/

theorem inOrder_foldl_fallbackLine (segs : List Segment) (body : String) :
    InOrder (segs.map Segment.text)
      (segs.foldl (fun body seg => body ++ fallbackLine seg) body) := by
  have hjoin : ∀ (segs : List Segment) (body : String),
      segs.foldl (fun body seg => body ++ fallbackLine seg) body =
        body ++ segs.foldl (fun body seg => body ++ fallbackLine seg) "" := by
    intro segs
    induction segs with
    | nil => intro body; simp
    | cons seg segs ih =>
      intro body
      rw [List.foldl_cons, List.foldl_cons, ih (body ++ fallbackLine seg),
        ih ("" ++ fallbackLine seg), String.empty_append, String.append_assoc]
  induction segs generalizing body with
  | nil => exact .nil body
  | cons seg segs ih =>
    have hrest := (ih "").append_left "\n\n"
    have hcons := InOrder.cons (body ++ "**" ++ speakerLabel seg.speakerId ++ ":** ") seg.text hrest
    rw [List.foldl_cons, hjoin]
    have heq : body ++ fallbackLine seg ++
        segs.foldl (fun body seg => body ++ fallbackLine seg) "" =
        body ++ "**" ++ speakerLabel seg.speakerId ++ ":** " ++ seg.text ++
          ("\n\n" ++ segs.foldl (fun body seg => body ++ fallbackLine seg) "") := by
      simp only [fallbackLine, String.append_assoc]
    rw [heq]
    exact hcons

/-! ## What a result says -/

/-- What is known of a section's result from its segments and its calls. -/
structure SectionSpec (timeRangeMs : Nat × Nat) (segs : List Segment)
    (allowedSpeakers : Finset UInt32) (calls : LlmLog) (result : SectionResult) : Prop where
  range : result.1.timeRangeMs = timeRangeMs
  /-- The error flag says that some call failed. -/
  failure : result.2.isSome ↔ AnsweredError calls
  /-- A failed call leaves nothing but the transcript. -/
  fellBack : result.2.isSome → result.1.origin = .fallback
  verified : result.1.origin = .json →
    verifySectionAttribution result.1.narrativeMd result.1.actionItems allowedSpeakers = .ok
  transcript : result.1.origin = .fallback →
    InOrder (segs.map Segment.text) result.1.narrativeMd

variable {dialect} {timeRangeMs : Nat × Nat} {segs : List Segment}
  {allowedSpeakers : Finset UInt32} {calls : LlmLog}

/-- A fallback whose error flag agrees with the calls. -/
theorem sectionSpec_fallback {err : String} {flag : Option String}
    (hflag : flag.isSome ↔ AnsweredError calls) :
    SectionSpec timeRangeMs segs allowedSpeakers calls
      (.fallback timeRangeMs segs err dialect, flag) where
  range := rfl
  failure := hflag
  fellBack := fun _ => rfl
  verified := by simp [SectionDraft.fallback]
  transcript := fun _ => inOrder_foldl_fallbackLine segs _

theorem sectionSpec_verifiedDraft (v : Value) (hcalls : ¬ AnsweredError calls) :
    SectionSpec timeRangeMs segs allowedSpeakers calls
      (verifiedDraft timeRangeMs segs v dialect allowedSpeakers) := by
  simp only [verifiedDraft]
  split
  · next hok =>
    exact
      { range := rfl
        failure := by simp [hcalls]
        fellBack := by simp
        verified := fun _ => hok
        transcript := by simp [SectionDraft.fromJson] }
  · exact sectionSpec_fallback (by simp [hcalls])

theorem processSingleSection_spec (req : LlmRequest) (log : LlmLog) :
    ∃ calls, (processSingleSection dialect llm timeRangeMs segs req allowedSpeakers log).2 =
        log ++ calls ∧
      SectionSpec timeRangeMs segs allowedSpeakers calls
        (processSingleSection dialect llm timeRangeMs segs req allowedSpeakers log).1 := by
  have hcomplete : complete llm log req = (llm log req, log ++ [⟨req, llm log req⟩]) := rfl
  unfold processSingleSection
  rw [hcomplete]
  cases hanswer : llm log req with
  | error e =>
    simp only
    exact ⟨[⟨req, .error e⟩], rfl, sectionSpec_fallback (by simp [AnsweredError])⟩
  | ok response =>
    cases response with
    | text s =>
      simp only
      exact ⟨[⟨req, .ok (.text s)⟩], rfl, sectionSpec_fallback (by simp [AnsweredError])⟩
    | json v =>
      simp only
      exact ⟨[⟨req, .ok (.json v)⟩], rfl, sectionSpec_verifiedDraft v (by simp [AnsweredError])⟩

variable (dialect) in
/-- The chunk loop errs with a message exactly when a call failed, and otherwise
returns one summary a chunk. -/
theorem summarizeChunks_spec (language : String) (chunks : List (List Segment)) :
    ∀ (chunkSummaries : List Value) (log : LlmLog), ∃ calls,
      (summarizeChunks dialect llm language chunks chunkSummaries log).2 = log ++ calls ∧
      (∀ err, (summarizeChunks dialect llm language chunks chunkSummaries log).1 = .error err →
        (err.isSome ↔ AnsweredError calls)) ∧
      ∀ summaries, (summarizeChunks dialect llm language chunks chunkSummaries log).1 =
          .ok summaries →
        ¬ AnsweredError calls ∧ summaries.length = chunkSummaries.length + chunks.length := by
  induction chunks with
  | nil => exact fun chunkSummaries log => ⟨[], by simp [summarizeChunks, AnsweredError]⟩
  | cons chunk chunks ih =>
    intro chunkSummaries log
    let req := buildSectionNarrativePrompt chunk dialect language
    have hcomplete : complete llm log req = (llm log req, log ++ [⟨req, llm log req⟩]) := rfl
    rw [summarizeChunks, hcomplete]
    cases hanswer : llm log req with
    | error e => exact ⟨[⟨req, .error e⟩], rfl, by simp [AnsweredError], by simp⟩
    | ok response =>
      cases response with
      | text s => exact ⟨[⟨req, .ok (.text s)⟩], rfl, by simp [AnsweredError], by simp⟩
      | json v =>
        obtain ⟨calls, hlog, herr, hok⟩ := ih (chunkSummaries ++ [v])
          (log ++ [⟨req, .ok (.json v)⟩])
        have hcons : AnsweredError (⟨req, .ok (.json v)⟩ :: calls) ↔ AnsweredError calls := by
          simp [AnsweredError]
        refine ⟨⟨req, .ok (.json v)⟩ :: calls, by rw [hlog]; simp, ?_, ?_⟩
        · intro err h
          rw [hcons]
          exact herr err h
        · intro summaries h
          obtain ⟨hno, hlen⟩ := hok summaries h
          rw [hcons]
          refine ⟨hno, ?_⟩
          simp only [hlen, List.length_append, List.length_cons, List.length_nil]
          omega

theorem processLongSection_spec (language : String) (hsegs : segs ≠ []) (log : LlmLog) :
    ∃ calls,
      (processLongSection dialect llm timeRangeMs segs language allowedSpeakers log).2 =
        log ++ calls ∧
      SectionSpec timeRangeMs segs allowedSpeakers calls
        (processLongSection dialect llm timeRangeMs segs language allowedSpeakers log).1 := by
  have hchunks : sectionChunks segs dialect language ≠ [] := by
    intro hnil
    have hflat := @flatten_sectionChunks dialect language segs
    rw [hnil, List.flatten_nil] at hflat
    exact hsegs hflat.symm
  have hpos := List.length_pos_iff.mpr hchunks
  obtain ⟨calls, hlog, herr, hok⟩ := summarizeChunks_spec dialect llm language
    (sectionChunks segs dialect language) [] log
  unfold processLongSection
  cases hsum : summarizeChunks dialect llm language (sectionChunks segs dialect language) [] log
    with
  | mk result log' =>
    rw [hsum] at hlog herr hok
    obtain rfl : log' = log ++ calls := hlog
    cases result with
    | error err => exact ⟨calls, rfl, sectionSpec_fallback (herr err rfl)⟩
    | ok summaries =>
      obtain ⟨hno, hlen⟩ := hok summaries rfl
      cases summaries with
      | nil => simp at hlen; omega
      | cons first rest =>
        obtain ⟨calls', hlog', hspec⟩ := mergeChunkSummaries_spec dialect
          language llm first rest (log ++ calls)
        have hall : AnsweredError (calls ++ calls') ↔ AnsweredError calls' := by
          rw [answeredError_append, or_iff_right hno]
        simp only
        cases hmerge : mergeChunkSummaries dialect language llm (first :: rest) (log ++ calls) with
        | mk result log' =>
          rw [hmerge] at hlog' hspec
          obtain rfl : log' = log ++ calls ++ calls' := hlog'
          have hfailure := hspec.failure
          cases result with
          | ok v =>
            have hnoError : ¬ AnsweredError (calls ++ calls') := by
              rw [hall, ← hfailure]
              simp [ProviderError]
            simp only
            exact ⟨calls ++ calls', List.append_assoc .., sectionSpec_verifiedDraft v hnoError⟩
          | error mergeErr =>
            have hflag : (if mergeErr.llmFailed then some mergeErr.message else none).isSome ↔
                AnsweredError (calls ++ calls') := by
              rw [hall, ← hfailure]
              cases hfailed : mergeErr.llmFailed <;> simp [ProviderError, hfailed]
            simp only
            exact ⟨calls ++ calls', List.append_assoc .., sectionSpec_fallback hflag⟩

variable (dialect timeRangeMs allowedSpeakers) in
theorem processSection_spec (language : String) (hsegs : segs ≠ []) (log : LlmLog) :
    ∃ calls, (processSection dialect llm timeRangeMs segs language allowedSpeakers log).2 =
        log ++ calls ∧
      SectionSpec timeRangeMs segs allowedSpeakers calls
        (processSection dialect llm timeRangeMs segs language allowedSpeakers log).1 := by
  unfold processSection
  by_cases hfits : renderedLlmRequestChars (buildSectionNarrativePrompt segs dialect language) ≤
      SECTION_CHUNK_THRESHOLD_CHARS
  · simp only [if_pos hfits]
    exact processSingleSection_spec llm (buildSectionNarrativePrompt segs dialect language) log
  · simp only [if_neg hfits]
    exact processLongSection_spec llm language hsegs log

end Pipeline
end Panops
