import Panops.Notes.TopicBoundaries

/-!
# What the sections guarantee

Three properties of `segment_topics`: whether the range of a section covers its
speech, whether a silence boundary is a silence, and what the speaker-shift rule
amounts to.
-/

namespace Panops

open Lib Lib.Machine Lib.Runs

theorem Timeline.start_le {segments : List Segment} (h : Timeline segments) {i j : Nat}
    (hij : i ≤ j) (hj : j < segments.length) :
    (segAt segments i).startMs ≤ (segAt segments j).startMs := by
  have hi : i < segments.length := by omega
  simp only [segAt, List.getD_eq_getElem?_getD, List.getElem?_eq_getElem hi,
    List.getElem?_eq_getElem hj, Option.getD_some]
  rcases Nat.lt_or_eq_of_le hij with hlt | rfl
  · exact List.pairwise_iff_getElem.mp h.sorted i j hi hj hlt
  · exact Nat.le_refl _

namespace TopicSegmentation

variable (order : HashOrder UInt32 Nat) (segments : List Segment) (cfg : TopicSegmentationConfig)

/-- The loop closes the section in progress before segment `i`. -/
def BreakTaken (i : Nat) : Prop :=
  (topicState order segments cfg (i + 1)).sections =
    (topicState order segments cfg i).sections ++ [(topicState order segments cfg i).current]

theorem breakTaken_iff {i : Nat} (hi : 0 < i) :
    BreakTaken order segments cfg i ↔
      opensSection order segments cfg
        (topicState order segments cfg i).current.segmentIndices i = true := by
  rw [BreakTaken, topicState_succ order segments cfg hi, topicStep]
  cases h : opensSection order segments cfg
      (topicState order segments cfg i).current.segmentIndices i with
  | true => simp
  | false => simp

/-! ## Ranges -/

/-- The range of a section holds every one of its segments. -/
def CoversSpeech (sec : RawSection) : Prop :=
  ∀ i ∈ sec.segmentIndices, sec.timeRangeMs.1 ≤ (segAt segments i).startMs ∧
    (segAt segments i).endMs ≤ sec.timeRangeMs.2

/-- In every stretch between topic boundaries no segment outlasts the last. -/
def LastEndsLast : Prop :=
  ∀ j l, j ≤ l → l < segments.length →
    (l + 1 = segments.length ∨ TopicBoundary segments cfg (l + 1)) →
    (∀ k, j < k → k ≤ l → ¬ TopicBoundary segments cfg k) →
    (segAt segments j).endMs ≤ (segAt segments l).endMs

variable {segments cfg}

theorem coversSpeech_iff (htimeline : Timeline segments) {g : List Nat}
    (hg : g ∈ topicGroups order segments cfg) {l : Nat} (hl : g.getLast? = some l) :
    CoversSpeech segments (sectionOf segments g) ↔
      ∀ j ∈ g, (segAt segments j).endMs ≤ (segAt segments l).endMs := by
  have hbounds := (tiles_topicGroups segments cfg order).mem_bounds g hg
  have hlast : g.getLastD 0 = l := by rw [List.getLastD_eq_getLast?, hl, Option.getD_some]
  simp only [CoversSpeech, sectionOf, hlast]
  constructor
  · intro h j hj
    exact (h j hj).2
  · intro h j hj
    exact ⟨htimeline.start_le (hbounds j hj).1 (hbounds j hj).2, h j hj⟩

theorem coversSpeech_segmentTopics_iff (htimeline : Timeline segments) :
    (∀ sec ∈ segmentTopics order segments cfg, CoversSpeech segments sec) ↔
      LastEndsLast segments cfg := by
  have htiles := tiles_topicGroups segments cfg order
  rw [segmentTopics_eq_map]
  constructor
  · intro hcovers j l hjl hl hend hinside
    obtain ⟨g, hg, hj, hlast⟩ :=
      htiles.exists_mem_getLast_iff.mpr ⟨Nat.zero_le j, hjl, hl, hend, hinside⟩
    have hsec := hcovers _ (List.mem_map_of_mem hg)
    exact (coversSpeech_iff order htimeline hg hlast).mp hsec j hj
  · intro hlast sec hsec
    obtain ⟨g, hg, rfl⟩ := List.mem_map.mp hsec
    have hne := ne_nil_of_mem_topicGroups order segments cfg hg
    have hl := List.getLast?_eq_some_getLast hne
    apply (coversSpeech_iff order htimeline hg hl).mpr
    intro j hj
    obtain ⟨_, hjl, hln, hend, hinside⟩ :=
      htiles.exists_mem_getLast_iff.mp ⟨g, hg, hj, hl⟩
    exact hlast j _ hjl hln hend hinside

/-- Sections that cover their speech have kept the length they were opened
with. -/
theorem min_le_of_coversSpeech
    (hcovers : ∀ sec ∈ segmentTopics order segments cfg, CoversSpeech segments sec) :
    ∀ sec ∈ (segmentTopics order segments cfg).tail,
      cfg.minSectionMs ≤ sec.timeRangeMs.2 - sec.timeRangeMs.1 := by
  rw [segmentTopics_eq_map, ← List.map_tail]
  rw [segmentTopics_eq_map] at hcovers
  intro sec hsec
  obtain ⟨g, hg, rfl⟩ := List.mem_map.mp hsec
  obtain ⟨k, hi, hlt, hn, rfl, hbound, hcloses⟩ :=
    (tiles_topicGroups segments cfg order).head_of_mem_tail g hg
  obtain ⟨_, hi', hlt', hinside', _, hmin⟩ := hbound
  -- the stretch that opened this section lies inside it
  have hle : hi' ≤ hi := by
    by_contra hnot
    rcases hcloses with rfl | hcloses
    · omega
    · exact hinside' hi hlt (by omega) hcloses.1
  have hmem : hi' - 1 ∈ List.range' k (hi - k) := List.mem_range'_1.mpr (by omega)
  have hsec := hcovers _ (List.mem_map_of_mem (List.mem_of_mem_tail hg)) _ hmem
  have hhead : (sectionOf segments (List.range' k (hi - k))).timeRangeMs.1 =
      (segAt segments k).startMs := by
    rw [show hi - k = hi - k - 1 + 1 by omega, List.range'_succ]
    rfl
  rw [hhead] at hsec ⊢
  omega

/-- The ranges of the sections cover their speech, and every section but the
first is long enough, exactly when no stretch between boundaries has a segment
that outlasts its last one. -/
theorem segmentTopics_ranges_iff (htimeline : Timeline segments) :
    ((∀ sec ∈ segmentTopics order segments cfg, CoversSpeech segments sec) ∧
      ∀ sec ∈ (segmentTopics order segments cfg).tail,
        cfg.minSectionMs ≤ sec.timeRangeMs.2 - sec.timeRangeMs.1) ↔
    LastEndsLast segments cfg := by
  rw [← coversSpeech_segmentTopics_iff order htimeline]
  exact and_iff_left_of_imp (min_le_of_coversSpeech order)

/-- A speaker of the recorded room, as one track delivers it. -/
def utterance (startMs endMs : Nat) : Segment where
  startMs := startMs
  endMs := endMs
  text := "ok"
  languageDetected := none
  confidence := .finite 1
  speakerId := none

theorem segmentTopics_ranges_two_turns :
    Timeline [utterance 0 1000, utterance 1000 2000] ∧
    (((∀ sec ∈ segmentTopics (.insertion _ _) [utterance 0 1000, utterance 1000 2000] .default,
          CoversSpeech [utterance 0 1000, utterance 1000 2000] sec) ∧
        ∀ sec ∈ (segmentTopics (.insertion _ _) [utterance 0 1000, utterance 1000 2000]
            .default).tail,
          TopicSegmentationConfig.default.minSectionMs ≤
            sec.timeRangeMs.2 - sec.timeRangeMs.1) ↔
      LastEndsLast [utterance 0 1000, utterance 1000 2000] .default) := by
  have htimeline : Timeline [utterance 0 1000, utterance 1000 2000] :=
    { sorted := by simp [utterance], ordered := by simp [utterance] }
  exact ⟨htimeline, segmentTopics_ranges_iff (.insertion _ _) htimeline⟩

/-- Ten seconds on the microphone over one second on the other track: the only
section ends at two seconds. -/
theorem segmentTopics_range_cut_short :
    ∃ merged, Merge.mergeTwoTrack [utterance 0 10000] [utterance 1000 2000] [] = some merged ∧
      (∀ s ∈ [utterance 0 10000] ++ [utterance 1000 2000], s.startMs ≤ s.endMs) ∧
      ∃ sec ∈ segmentTopics (.insertion _ _) merged .default, ¬ CoversSpeech merged sec := by
  refine ⟨[{ utterance 0 10000 with speakerId := some 0 }, utterance 1000 2000], rfl, ?_, ?_⟩
  · simp [utterance]
  · refine ⟨{ timeRangeMs := (0, 2000), segmentIndices := [0, 1] }, by decide, ?_⟩
    intro hcovers
    exact absurd (hcovers 0 (by decide)).2 (by decide)

/-! ## Silences -/

variable (segments cfg)

/-- The latest end of the segments before `i`. -/
def latestEnd (i : Nat) : Nat := ((segments.take i).map Segment.endMs).foldr max 0

/-- Every section the silence rule opens is opened after a silence: nobody at
all has spoken for longer than the gap. -/
def SilencesReal : Prop :=
  ∀ i, 0 < i → i < segments.length → BreakTaken order segments cfg i →
    cfg.topicGapMs < gapBefore segments i →
    cfg.topicGapMs < (segAt segments i).startMs - latestEnd segments i

/-- A segment that is followed by a pause longer than the gap is not talked
over, to within the gap of the next start, by an earlier one. -/
def NoneTalksOver : Prop :=
  ∀ j i, j < i → i + 1 < segments.length →
    (segAt segments i).endMs + cfg.topicGapMs < (segAt segments (i + 1)).startMs →
    (segAt segments j).endMs + cfg.topicGapMs < (segAt segments (i + 1)).startMs

/-- Whenever the next segment starts after the end of a segment, no earlier
segment has outlasted that one. -/
def PausesAfterLatest : Prop :=
  ∀ j i, j < i → i + 1 < segments.length →
    (segAt segments i).endMs < (segAt segments (i + 1)).startMs →
    (segAt segments j).endMs ≤ (segAt segments i).endMs

variable {segments cfg}

theorem latestEnd_lt_iff {i b : Nat} (hi : i ≤ segments.length) (hb : 0 < b) :
    latestEnd segments i < b ↔ ∀ j, j < i → (segAt segments j).endMs < b := by
  induction i with
  | zero => simp [latestEnd, hb]
  | succ i ih =>
    have hlt : i < segments.length := by omega
    have hstep : latestEnd segments (i + 1) < b ↔
        latestEnd segments i < b ∧ (segAt segments i).endMs < b := by
      have hfold : ∀ (ns : List Nat) (m : Nat), (ns ++ [m]).foldr max 0 < b ↔
          ns.foldr max 0 < b ∧ m < b := by
        intro ns m
        induction ns with
        | nil => simp; omega
        | cons k ns ihns =>
          rw [List.cons_append, List.foldr_cons, List.foldr_cons, Nat.max_lt, Nat.max_lt, ihns,
            and_assoc]
      have hget : segAt segments i = segments[i] := by
        rw [segAt, List.getD_eq_getElem?_getD, List.getElem?_eq_getElem hlt, Option.getD_some]
      rw [latestEnd, List.take_succ_eq_append_getElem hlt, List.map_append, List.map_singleton,
        hfold, hget]
      rfl
    rw [hstep, ih (by omega)]
    constructor
    · intro h j hj
      by_cases hji : j = i
      · exact hji ▸ h.2
      · exact h.1 j (by omega)
    · intro h
      exact ⟨fun j hj => h j (by omega), h i (by omega)⟩

theorem breakTaken_of_gap {i : Nat} (hi : 0 < i) (h : cfg.topicGapMs < gapBefore segments i) :
    BreakTaken order segments cfg i := by
  rw [breakTaken_iff order segments cfg hi, opensSection]
  simp [h]

theorem silencesReal_iff : SilencesReal order segments cfg ↔ NoneTalksOver segments cfg := by
  constructor
  · intro hreal j i hji hi hpause
    have hgap : cfg.topicGapMs < gapBefore segments (i + 1) := by
      rw [gap_iff, SilenceBreak, Nat.add_sub_cancel]
      exact hpause
    have hquiet := hreal (i + 1) (by omega) hi (breakTaken_of_gap order (by omega) hgap) hgap
    have hlatest : latestEnd segments (i + 1) <
        (segAt segments (i + 1)).startMs - cfg.topicGapMs := by omega
    have := (latestEnd_lt_iff (by omega) (by omega)).mp hlatest j (by omega)
    omega
  · intro hnone i hi hlen _ hgap
    obtain ⟨i, rfl⟩ : ∃ i', i = i' + 1 := ⟨i - 1, by omega⟩
    have hpause := (gap_iff (i + 1)).mp hgap
    rw [SilenceBreak, Nat.add_sub_cancel] at hpause
    have hlatest : latestEnd segments (i + 1) <
        (segAt segments (i + 1)).startMs - cfg.topicGapMs := by
      apply (latestEnd_lt_iff (by omega) (by omega)).mpr
      intro j hj
      by_cases hji : j = i
      · subst hji
        omega
      · have := hnone j i (by omega) hlen hpause
        omega
    omega

variable (segments)

/-- For one configuration and for all of them: the silence rule is right exactly
when no earlier segment talks over the pause it sees. -/
theorem silences_real_iff :
    (∀ cfg, SilencesReal order segments cfg ↔ NoneTalksOver segments cfg) ∧
    ((∀ cfg, SilencesReal order segments cfg) ↔ PausesAfterLatest segments) := by
  refine ⟨fun cfg => silencesReal_iff order, ?_⟩
  simp only [silencesReal_iff]
  constructor
  · intro hnone j i hji hi hpause
    -- the widest gap the pause still exceeds
    have := hnone
      { topicGapMs := (segAt segments (i + 1)).startMs - (segAt segments i).endMs - 1
        minSectionMs := 0
        speakerShiftThreshold := .finite 0 } j i hji hi (by simp only; omega)
    simp only at this
    omega
  · intro hlatest cfg j i hji hi hpause
    have := hlatest j i hji hi (by omega)
    omega

/-- Twenty seconds on the microphone over one second on the other track: the
section that starts while the microphone is still talking is opened by the
silence rule. -/
theorem silence_while_talking :
    ∃ merged, Merge.mergeTwoTrack [utterance 0 20000] [utterance 1000 2000, utterance 15000 16000]
        [] = some merged ∧
      (∀ s ∈ [utterance 0 20000] ++ [utterance 1000 2000, utterance 15000 16000],
        s.startMs ≤ s.endMs) ∧
      ¬ SilencesReal (.insertion _ _) merged .default := by
  refine ⟨[{ utterance 0 20000 with speakerId := some 0 }, utterance 1000 2000,
    utterance 15000 16000], rfl, ?_, ?_⟩
  · simp [utterance]
  · intro hreal
    have hquiet := hreal 2 (by decide) (by decide) (breakTaken_of_gap _ (by decide) (by decide))
      (by decide)
    exact absurd hquiet (by decide)

/-! ## Speaker shifts -/

variable {segments}

theorem oneSpeaker_current (hpos : cfg.ShiftsEnabled) (n : Nat) :
    OneSpeaker segments (topicState order segments cfg n).current.segmentIndices := by
  rw [current_topicState, sectionOf_segmentIndices]
  apply openRun_invariant (P := OneSpeaker segments)
  · exact oneSpeaker_singleton segments
  · exact fun run i hone h => oneSpeaker_join hpos order run i hone h
  · exact oneSpeaker_singleton segments 0

theorem oneSpeaker_rawSections (hpos : cfg.ShiftsEnabled) :
    ∀ sec ∈ rawSections order segments cfg, OneSpeaker segments sec.segmentIndices := by
  rw [rawSections_eq_runs]
  intro sec hsec
  obtain ⟨run, hrun, rfl⟩ := List.mem_map.mp hsec
  exact forall_mem_runs (P := OneSpeaker segments) (oneSpeaker_singleton segments)
    (fun run i hone h => oneSpeaker_join hpos order run i hone h) _ run hrun

/-- Neither the order of the maps nor a positive threshold matters. -/
theorem rawSections_eq (hpos : cfg.ShiftsEnabled) (order' : HashOrder UInt32 Nat)
    {cfg' : TopicSegmentationConfig} (hpos' : cfg'.ShiftsEnabled)
    (hgap : cfg'.topicGapMs = cfg.topicGapMs) :
    rawSections order' segments cfg' = rawSections order segments cfg := by
  rw [rawSections_eq_runs, rawSections_eq_runs]
  congr 1
  have hagree : ∀ run i, OneSpeaker segments run →
      opensSection order' segments cfg' run i = opensSection order segments cfg run i := by
    intro run i hone
    have hsame : SilenceBreak segments cfg' i ↔ SilenceBreak segments cfg i := by
      rw [SilenceBreak, SilenceBreak, hgap]
    rw [Bool.eq_iff_iff, opensSection_iff hpos' hone, opensSection_iff hpos hone, hsame]
  cases List.range segments.length with
  | nil => rfl
  | cons i is =>
    exact runsFrom_congr (P := OneSpeaker segments) (oneSpeaker_singleton segments)
      (fun run i hone h => oneSpeaker_join hpos' order' run i hone h) hagree
      (oneSpeaker_singleton segments i) is

theorem shiftsEnabled_default : TopicSegmentationConfig.default.ShiftsEnabled := by
  norm_num [TopicSegmentationConfig.ShiftsEnabled, TopicSegmentationConfig.default, Single.lt]

/-- With the default configuration the sections do not depend on the order of the
maps. -/
theorem segmentTopics_default_eq (segments : List Segment) (order order' : HashOrder UInt32 Nat) :
    segmentTopics order' segments .default = segmentTopics order segments .default := by
  have hraw : rawSections order' segments .default = rawSections order segments .default :=
    rawSections_eq order shiftsEnabled_default order' shiftsEnabled_default rfl
  rw [segmentTopics, segmentTopics, hraw]

/-- The speaker-shift rule: a section has one speaker, a break is taken for a
silence or for a segment with another speaker, and the result depends neither on
the order of the maps nor on how far the threshold is above zero. -/
theorem speakerShift_rule (hpos : cfg.ShiftsEnabled) :
    (∀ sec ∈ rawSections order segments cfg, ∀ i ∈ sec.segmentIndices,
      ∀ j ∈ sec.segmentIndices, ∀ a b, speakerAt segments i = some a →
        speakerAt segments j = some b → a = b) ∧
    (∀ i, 0 < i → (BreakTaken order segments cfg i ↔
      cfg.topicGapMs < gapBefore segments i ∨
        ∃ j ∈ (topicState order segments cfg i).current.segmentIndices, ∃ a b,
          speakerAt segments j = some a ∧ speakerAt segments i = some b ∧ a ≠ b)) ∧
    ∀ (order' : HashOrder UInt32 Nat) (cfg' : TopicSegmentationConfig), cfg'.ShiftsEnabled →
      cfg'.topicGapMs = cfg.topicGapMs → cfg'.minSectionMs = cfg.minSectionMs →
      rawSections order' segments cfg' = rawSections order segments cfg ∧
        segmentTopics order' segments cfg' = segmentTopics order segments cfg := by
  refine ⟨?_, ?_, ?_⟩
  · intro sec hsec i hi j hj a b ha hb
    by_contra hab
    exact oneSpeaker_rawSections order hpos sec hsec i hi j hj ⟨a, b, ha, hb, hab⟩
  · intro i hi
    rw [breakTaken_iff order segments cfg hi,
      opensSection_iff hpos (oneSpeaker_current order hpos i), gap_iff]
    rfl
  · intro order' cfg' hpos' hgap hmin
    have hraw : rawSections order' segments cfg' = rawSections order segments cfg :=
      rawSections_eq order hpos order' hpos' hgap
    exact ⟨hraw, by rw [segmentTopics, segmentTopics, hraw, hmin]⟩

/-- Two speakers, the second right after the first. -/
def exchange : List Segment :=
  [{ utterance 0 1000 with speakerId := some 1 }, { utterance 1000 2000 with speakerId := some 2 }]

theorem speakerShift_rule_exchange :
    TopicSegmentationConfig.default.ShiftsEnabled ∧
      speakerAt exchange 0 = some 1 ∧ speakerAt exchange 1 = some 2 ∧
      gapBefore exchange 1 = 0 ∧ BreakTaken (.insertion _ _) exchange .default 1 := by
  have hfirst : speakerAt exchange 0 = some 1 := rfl
  have hsecond : speakerAt exchange 1 = some 2 := rfl
  have hcurrent : 0 ∈ (topicState (.insertion _ _) exchange .default 1).current.segmentIndices :=
    by decide +kernel
  refine ⟨shiftsEnabled_default, hfirst, hsecond, by decide, ?_⟩
  apply ((speakerShift_rule (.insertion _ _) shiftsEnabled_default).2.1 1 (by decide)).mpr
  exact .inr ⟨0, hcurrent, 1, 2, hfirst, hsecond, by decide⟩

end TopicSegmentation
end Panops
