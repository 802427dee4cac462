import Panops.Export.Markdown
import Panops.Notes.Outcome

/-!
# Speakers in the export

The verifier and the exporter read speaker references on their own.  What the
verifier lets pass bounds what the exporter rewrites, as far as the verifier
looks.
-/

namespace Panops

open Lib Lib.Text Lib.Decimal

namespace Pipeline

open Prompts Verifier MarkdownExporter TopicSegmentation

variable {input : NotesInput}

/-- Some segment of the transcript has this speaker. -/
def Speaks (segments : List Segment) (id : UInt32) : Prop :=
  ∃ seg ∈ segments, seg.speakerId = some id

theorem mem_allowedSpeakers {segments : List Segment} {id : UInt32} :
    id ∈ allowedSpeakers segments ↔ Speaks segments id := by
  rw [allowedSpeakers, List.mem_toFinset, List.mem_filterMap, Speaks]

/-- A reference that the exporter rewrites in the trimmed narrative is one that
the verifier finds, when no letter, digit or underscore runs into it. -/
theorem referenced_of_rewritten {narrativeMd : String} {actionItems : List ActionItem}
    {start : Nat} {id : UInt32}
    (h : (start, id) ∈ rewrittenIn (String.ofList (trim narrativeMd.toList)))
    (hbound : AtWordBoundary ((trim narrativeMd.toList).take start)) :
    Referenced narrativeMd actionItems id := by
  obtain ⟨digits, href, hlt, hid⟩ := isSpeakerRef_of_mem_rewrittenIn h
  rw [String.toList_ofList] at href
  obtain ⟨lead, hlead, href'⟩ := href.of_trim
  refine Or.inl (mem_scanSpeakerIds.mpr ⟨_, digits, href', fun c hc => ?_, hlt, hid⟩)
  rw [List.getLast?_append] at hc
  cases hlast : ((trim narrativeMd.toList).take start).getLast? with
  | some d =>
    rw [hlast, Option.some_or] at hc
    obtain rfl := Option.some.inj hc
    exact hbound d hlast
  | none =>
    rw [hlast, Option.none_or] at hc
    have hwhite := hlead c (List.mem_of_getLast? hc)
    have hunder : c ≠ '_' := by
      rintro rfl
      simp [isWhiteSpace] at hwhite
    simp [isWordChar, isAlphanum_eq_false_of_isWhiteSpace hwhite, hunder]

/-! ## A meeting of one segment -/

/-- A provider that always answers with this JSON. -/
def jsonProvider (v : Value) : Provider where
  forSection := fun _ _ _ => .ok (.json v)
  frontmatter := fun _ _ => .ok (.json v)

/-- A section of one segment is answered with a draft of the JSON, whether it
fits one request or not. -/
theorem processSection_json (dialect : MarkdownDialect) {llm : LlmProvider} {v : Value}
    (hllm : ∀ log req, llm log req = .ok (.json v)) (timeRangeMs : Nat × Nat) (seg : Segment)
    (language : String) (allowed : Finset UInt32) (log : LlmLog) :
    (processSection dialect llm timeRangeMs [seg] language allowed log).1 =
      verifiedDraft timeRangeMs [seg] v dialect allowed := by
  unfold processSection
  by_cases hfits : renderedLlmRequestChars (buildSectionNarrativePrompt [seg] dialect language) ≤
      SECTION_CHUNK_THRESHOLD_CHARS
  · simp only [if_pos hfits, processSingleSection, complete, Dialogue.ask, hllm]
  · simp only [if_neg hfits, processLongSection, sectionChunks_singleton, summarizeChunks, complete,
      Dialogue.ask, hllm, List.nil_append, mergeChunkSummaries]

theorem verifiedDraft_of_ok {timeRangeMs : Nat × Nat} {segs : List Segment} {v : Value}
    {dialect : MarkdownDialect} {allowed : Finset UInt32}
    (h : verifySectionAttribution (SectionDraft.fromJson timeRangeMs v).narrativeMd
      (SectionDraft.fromJson timeRangeMs v).actionItems allowed = .ok) :
    verifiedDraft timeRangeMs segs v dialect allowed = (.fromJson timeRangeMs v, none) := by
  simp only [verifiedDraft, h]

def oneSegmentInput (seg : Segment) : NotesInput :=
  { manyTopicsInput 1 with transcript := [seg] }

/-- What a run over one segment makes of an answer that the verifier accepts. -/
theorem generate_json (dialect : MarkdownDialect) {v : Value} {seg : Segment}
    (hverify : ∀ timeRangeMs, verifySectionAttribution
      (SectionDraft.fromJson timeRangeMs v).narrativeMd
      (SectionDraft.fromJson timeRangeMs v).actionItems (allowedSpeakers [seg]) = .ok) :
    ∃ notes run sec timeRangeMs shots,
      generate .fixed (jsonProvider v) dialect (oneSegmentInput seg) = .ok notes ∧
      (sectionRuns .fixed (jsonProvider v) dialect (oneSegmentInput seg))[0]? = some run ∧
      run.1.1 = .fromJson timeRangeMs v ∧ notes.sections[0]? = some sec ∧
      sec = assembleSection 0 (.fromJson timeRangeMs v, shots) := by
  have htopics : topics .fixed (oneSegmentInput seg) = [sectionOf [seg] [0]] :=
    segmentTopics_singleton _ .default seg
  have hanswers : ∀ log req, (jsonProvider v).forSection 0 log req = .ok (.json v) :=
    fun _ _ => rfl
  have hsegs : segmentsOf (oneSegmentInput seg) (sectionOf [seg] [0]) = [seg] := rfl
  have hresult : (processSection dialect ((jsonProvider v).forSection 0)
      (sectionOf [seg] [0]).timeRangeMs (segmentsOf (oneSegmentInput seg) (sectionOf [seg] [0]))
      (notesLanguage .fixed (oneSegmentInput seg))
      (allowedSpeakers (oneSegmentInput seg).transcript) []).1 =
      (.fromJson (sectionOf [seg] [0]).timeRangeMs v, none) := by
    rw [hsegs, processSection_json dialect hanswers]
    exact verifiedDraft_of_ok (hverify _)
  have hnot : ¬ AllFailed (sectionRuns .fixed (jsonProvider v) dialect (oneSegmentInput seg)) := by
    refine not_allFailed (List.cons_ne_nil _ _) fun raw hraw => ?_
    rw [htopics] at hraw
    obtain rfl := List.mem_singleton.mp hraw
    rw [hresult]
  have hok := (generate_spec (List.cons_ne_nil _ _)).2 hnot
  have hlen : 0 < (notesOf .fixed (jsonProvider v) dialect (oneSegmentInput seg)).sections.length := by
    rw [length_sections_notesOf, htopics]
    exact Nat.one_pos
  have hsec := List.getElem?_eq_getElem hlen
  obtain ⟨run, shots, hrun, _, hparts⟩ := getElem?_sections_notesOf hsec
  have hdraft : run.1.1 = .fromJson (sectionOf [seg] [0]).timeRangeMs v := by
    rw [sectionRuns, List.getElem?_mapIdx, htopics, List.getElem?_cons_zero,
      Option.map_some] at hrun
    rw [← Option.some.inj hrun, hresult]
  rw [hdraft] at hparts
  exact ⟨_, run, _, (sectionOf [seg] [0]).timeRangeMs, shots, hok, hrun, hdraft, hsec, hparts⟩

/-! ## What reaches the notes -/

/-- Among the references that the exporter rewrites in a section that did not
fall back, those of the narrative that no letter, digit or underscore runs into,
and the owners of the form `speaker_<digits>`, name speakers of the transcript. -/
theorem exported_speakers_known (ambient : Ambient) (provider : Provider)
    (dialect : MarkdownDialect) {notes : StructuredNotes}
    (hok : generate ambient provider dialect input = .ok notes) :
    ∀ (i : Nat) (run : SectionResult × LlmLog) (sec : NotesSection),
      (sectionRuns ambient provider dialect input)[i]? = some run →
      notes.sections[i]? = some sec → run.1.1.origin ≠ .fallback →
      (∀ start id, (start, id) ∈ rewrittenIn (String.ofList (trim sec.narrativeMd.toList)) →
        (∀ c, ((trim sec.narrativeMd.toList).take start).getLast? = some c →
          c.isAlphanum = false ∧ c ≠ '_') →
        Speaks input.transcript id) ∧
      ∀ item ∈ sec.actionItems, ∀ owner, item.owner = some owner →
        ∀ digits, IsSpeakerId owner.toList digits → ∀ id, humanizedId owner = some id →
          Speaks input.transcript id := by
  intro i run sec hrun hsec horigin
  obtain ⟨_, rfl⟩ := eq_notesOf_of_generate hok
  obtain ⟨run', shots, hrun', _, rfl⟩ := getElem?_sections_notesOf hsec
  obtain rfl : run = run' := Option.some.inj (hrun.symm.trans hrun')
  obtain ⟨raw, _, hspec⟩ := getElem?_sectionRuns hrun
  have hjson : run.1.1.origin = .json := by
    cases horig : run.1.1.origin with
    | json => rfl
    | fallback => exact absurd horig horigin
  have hverified := verifySectionAttribution_ok_iff.mp (hspec.verified hjson)
  constructor
  · intro start id hmem hbefore
    have hbound : AtWordBoundary ((trim run.1.1.narrativeMd.toList).take start) := by
      intro c hc
      obtain ⟨halnum, hunder⟩ := hbefore c hc
      simp [isWordChar, halnum, hunder]
    exact mem_allowedSpeakers.mp (hverified id (referenced_of_rewritten hmem hbound))
  · intro item hitem owner howner digits hid id hhuman
    obtain ⟨hlt, rfl⟩ := (humanizedId_eq_some_iff hid).mp hhuman
    have hparse : parseSpeakerId owner = some (UInt32.ofNat (value digits)) :=
      parseSpeakerId_eq_some_iff.mpr ⟨digits, by rwa [trim_of_isSpeakerId hid], hlt, rfl⟩
    exact mem_allowedSpeakers.mp (hverified _ (Or.inr ⟨item, hitem, owner, howner, hparse⟩))

def spokenBy (id : UInt32) : Segment := { utterance 0 50000 with speakerId := some id }

def namingJson : Value :=
  .object
    [("narrative_md", .string "speaker_0: hi"), ("action_items", .array
      [.object [("description", .string "ship"), ("owner", .string "speaker_0")]])]

theorem exported_speakers_known_named :
    ∃ notes run sec,
      generate .fixed (jsonProvider namingJson) .basic (oneSegmentInput (spokenBy 0)) = .ok notes ∧
      (sectionRuns .fixed (jsonProvider namingJson) .basic (oneSegmentInput (spokenBy 0)))[0]? =
        some run ∧ run.1.1.origin ≠ .fallback ∧ notes.sections[0]? = some sec ∧
      (0, 0) ∈ rewrittenIn (String.ofList (trim sec.narrativeMd.toList)) ∧
      Speaks (oneSegmentInput (spokenBy 0)).transcript 0 := by
  have hverify : ∀ timeRangeMs, verifySectionAttribution
      (SectionDraft.fromJson timeRangeMs namingJson).narrativeMd
      (SectionDraft.fromJson timeRangeMs namingJson).actionItems (allowedSpeakers [spokenBy 0]) =
        .ok := by
    intro _
    show verifySectionAttribution "speaker_0: hi" [⟨"ship", some "speaker_0", none⟩] {0} = .ok
    decide
  obtain ⟨notes, run, sec, timeRangeMs, shots, hok, hrun, hdraft, hsec, rfl⟩ :=
    generate_json .basic hverify
  have horigin : run.1.1.origin ≠ .fallback := by
    rw [hdraft]
    simp [SectionDraft.fromJson]
  have hmem : (0, 0) ∈ rewrittenIn (String.ofList (trim "speaker_0: hi".toList)) := by decide
  exact ⟨notes, run, _, hok, hrun, horigin, hsec, hmem,
    (exported_speakers_known .fixed (jsonProvider namingJson) .basic hok 0 run _ hrun hsec
      horigin).1 0 0 hmem (by simp)⟩

/-- References to a speaker that never spoke, everywhere the verifier does not
look. -/
def inventingJson : Value :=
  .object
    [("narrative_md", .string "xspeaker_7"), ("key_points", .array [.string "speaker_7"]),
      ("action_items", .array
        [.object [("description", .string "speaker_7"), ("owner", .string "speaker_+7")]])]

/-- Key points, descriptions, references inside a word and owners with a sign
reach the notes unchecked. -/
theorem exported_speakers_unknown :
    ∃ notes run sec item,
      generate .fixed (jsonProvider inventingJson) .basic (oneSegmentInput (spokenBy 0)) =
        .ok notes ∧
      (sectionRuns .fixed (jsonProvider inventingJson) .basic (oneSegmentInput (spokenBy 0)))[0]? =
        some run ∧ run.1.1.origin ≠ .fallback ∧ notes.sections[0]? = some sec ∧
      (0, 7) ∈ sec.keyPoints.flatMap rewrittenIn ∧
      (1, 7) ∈ rewrittenIn (String.ofList (trim sec.narrativeMd.toList)) ∧
      item ∈ sec.actionItems ∧ (0, 7) ∈ rewrittenIn item.description ∧
      item.owner.bind humanizedId = some 7 ∧
      ¬ Speaks (oneSegmentInput (spokenBy 0)).transcript 7 := by
  have hverify : ∀ timeRangeMs, verifySectionAttribution
      (SectionDraft.fromJson timeRangeMs inventingJson).narrativeMd
      (SectionDraft.fromJson timeRangeMs inventingJson).actionItems
      (allowedSpeakers [spokenBy 0]) = .ok := by
    intro _
    show verifySectionAttribution "xspeaker_7" [⟨"speaker_7", some "speaker_+7", none⟩] {0} = .ok
    decide
  obtain ⟨notes, run, sec, timeRangeMs, shots, hok, hrun, hdraft, hsec, rfl⟩ :=
    generate_json .basic hverify
  refine ⟨notes, run, _, ⟨"speaker_7", some "speaker_+7", none⟩, hok, hrun, ?_, hsec, ?_, ?_,
    List.mem_singleton_self _, ?_, ?_, ?_⟩
  · rw [hdraft]
    simp [SectionDraft.fromJson]
  · show (0, 7) ∈ ["speaker_7"].flatMap rewrittenIn
    decide
  · show (1, 7) ∈ rewrittenIn (String.ofList (trim "xspeaker_7".toList))
    decide
  · decide
  · decide
  · intro h
    obtain ⟨seg, hseg, hid⟩ := h
    obtain rfl := List.mem_singleton.mp hseg
    simp [spokenBy] at hid

end Pipeline
end Panops
