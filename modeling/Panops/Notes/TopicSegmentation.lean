import Panops.Segment
import Panops.Lib.Runs

/-!
# Topic segmentation

The loop that splits a transcript into sections and the pass that joins short
sections to the one before, as the code runs them, and the first fact about
them: both only ever decide where to cut, and a section is recovered from its
segment indices.
-/

namespace Panops

open Lib Lib.Machine Lib.Runs

structure TopicSegmentationConfig where
  topicGapMs : Nat
  minSectionMs : Nat
  speakerShiftThreshold : Single

/-- `0.10f32`. -/
def TopicSegmentationConfig.default : TopicSegmentationConfig where
  topicGapMs := 8000
  minSectionMs := 30000
  speakerShiftThreshold := .finite (13421773 / 134217728)

structure RawSection where
  timeRangeMs : Nat × Nat
  segmentIndices : List Nat
deriving DecidableEq

/-- `segments[i]`; no caller's index is out of range. -/
def segAt (segments : List Segment) (i : Nat) : Segment := segments.getD i default

def speakerAt (segments : List Segment) (i : Nat) : Option UInt32 := (segAt segments i).speakerId

namespace TopicSegmentation

/-- `s.end_ms.saturating_sub(s.start_ms)`. -/
def segmentMs (s : Segment) : Nat := s.endMs - s.startMs

/-- `*totals.entry(id).or_default() += ..` for segment `i`. -/
def addTotal (segments : List Segment) (totals : List (UInt32 × Nat)) (i : Nat) :
    List (UInt32 × Nat) :=
  let s := segAt segments i
  match s.speakerId with
  | some id => entryUpdate id 0 (fun ms => wrappingAdd ms (segmentMs s)) totals
  | none => totals

/-- `call` numbers the hash maps the segmentation creates, so that each may be
iterated in an order of its own. -/
def dominantSpeaker (order : HashOrder UInt32 Nat) (call : Nat) (segments : List Segment)
    (indices : List Nat) : Option UInt32 :=
  let totals := indices.foldl (addTotal segments) []
  (maxByKey Prod.snd (order.iter call totals)).map Prod.fst

/-- The pair `(total, who_total)` after segment `i`. -/
def addShare (segments : List Segment) (who : UInt32) (acc : Nat × Nat) (i : Nat) : Nat × Nat :=
  let s := segAt segments i
  match s.speakerId with
  | some id =>
    (wrappingAdd acc.1 (segmentMs s),
      if id = who then wrappingAdd acc.2 (segmentMs s) else acc.2)
  | none => acc

def speakerShare (segments : List Segment) (indices : List Nat) (who : UInt32) : Single :=
  let sums := indices.foldl (addShare segments who) (0, 0)
  if sums.1 = 0 then .finite 0 else ratioSingle sums.2 sums.1

def isSpeakerShiftBreak (order : HashOrder UInt32 Nat) (call : Nat) (segments : List Segment)
    (sectionIndices : List Nat) (newSpeaker : Option UInt32) (threshold : Single) : Bool :=
  match newSpeaker with
  | none => false
  | some newId =>
    match dominantSpeaker order call segments sectionIndices with
    | none => false
    | some dom =>
      if dom = newId then false
      else (speakerShare segments sectionIndices newId).lt threshold

/-- The silence before segment `i`, measured from the end of segment `i - 1`. -/
def gapBefore (segments : List Segment) (i : Nat) : Nat :=
  (segAt segments i).startMs - (segAt segments (i - 1)).endMs

def opensSection (order : HashOrder UInt32 Nat) (segments : List Segment)
    (cfg : TopicSegmentationConfig) (sectionIndices : List Nat) (i : Nat) : Bool :=
  cfg.topicGapMs < gapBefore segments i ||
    isSpeakerShiftBreak order i segments sectionIndices (speakerAt segments i)
      cfg.speakerShiftThreshold

/-- The closed sections and the one in progress. -/
structure TopicState where
  sections : List RawSection
  current : RawSection

def startSection (segments : List Segment) (i : Nat) : RawSection where
  timeRangeMs := ((segAt segments i).startMs, (segAt segments i).endMs)
  segmentIndices := [i]

def topicStep (order : HashOrder UInt32 Nat) (segments : List Segment)
    (cfg : TopicSegmentationConfig) (st : TopicState) (i : Nat) : TopicState :=
  if opensSection order segments cfg st.current.segmentIndices i then
    { sections := st.sections ++ [st.current], current := startSection segments i }
  else
    { st with
      current :=
        { timeRangeMs := (st.current.timeRangeMs.1, (segAt segments i).endMs)
          segmentIndices := st.current.segmentIndices ++ [i] } }

/-- The loop's state before it reads segment `n`. -/
def topicState (order : HashOrder UInt32 Nat) (segments : List Segment)
    (cfg : TopicSegmentationConfig) (n : Nat) : TopicState :=
  (List.range' 1 (n - 1)).foldl (topicStep order segments cfg)
    { sections := [], current := startSection segments 0 }

/-- The sections before short ones are merged. -/
def rawSections (order : HashOrder UInt32 Nat) (segments : List Segment)
    (cfg : TopicSegmentationConfig) : List RawSection :=
  if segments.isEmpty then []
  else
    let st := topicState order segments cfg segments.length
    st.sections ++ [st.current]

/-- `out.last_mut()` extended by `s`. -/
def extendLast (out : List RawSection) (s : RawSection) : List RawSection :=
  match out.getLast? with
  | none => out
  | some prev =>
    out.dropLast ++
      [{ timeRangeMs := (prev.timeRangeMs.1, s.timeRangeMs.2)
         segmentIndices := prev.segmentIndices ++ s.segmentIndices }]

def mergeShortSections (sections : List RawSection) (minMs : Nat) : List RawSection :=
  sections.foldl
    (fun out s =>
      if s.timeRangeMs.2 - s.timeRangeMs.1 < minMs && !out.isEmpty then extendLast out s
      else out ++ [s])
    []

def segmentTopics (order : HashOrder UInt32 Nat) (segments : List Segment)
    (cfg : TopicSegmentationConfig) : List RawSection :=
  mergeShortSections (rawSections order segments cfg) cfg.minSectionMs

/-! ## Sections from their indices -/

/-- The section with the given segments: it starts where the first one starts
and ends where the last one ends. -/
def sectionOf (segments : List Segment) (indices : List Nat) : RawSection where
  timeRangeMs :=
    ((segAt segments (indices.headD 0)).startMs, (segAt segments (indices.getLastD 0)).endMs)
  segmentIndices := indices

@[simp] theorem sectionOf_segmentIndices (segments : List Segment) (indices : List Nat) :
    (sectionOf segments indices).segmentIndices = indices := rfl

theorem startSection_eq (segments : List Segment) (i : Nat) :
    startSection segments i = sectionOf segments [i] := rfl

theorem sectionOf_append (segments : List Segment) {front back : List Nat} (hfront : front ≠ [])
    (hback : back ≠ []) :
    sectionOf segments (front ++ back) =
      { timeRangeMs :=
          ((sectionOf segments front).timeRangeMs.1, (sectionOf segments back).timeRangeMs.2)
        segmentIndices := front ++ back } := by
  obtain ⟨x, xs, rfl⟩ := List.exists_cons_of_ne_nil hfront
  have hlast : (x :: xs ++ back).getLastD 0 = back.getLastD 0 := by
    rw [List.getLastD_eq_getLast?, List.getLastD_eq_getLast?,
      List.getLast?_append_of_ne_nil _ hback]
  rw [sectionOf, hlast]
  rfl

variable (order : HashOrder UInt32 Nat) (segments : List Segment) (cfg : TopicSegmentationConfig)

theorem topicState_succ {n : Nat} (h : 0 < n) :
    topicState order segments cfg (n + 1) =
      topicStep order segments cfg (topicState order segments cfg n) n := by
  have hrange : List.range' 1 (n + 1 - 1) = List.range' 1 (n - 1) ++ [n] := by
    rw [show n + 1 - 1 = n - 1 + 1 by omega, List.range'_concat]
    congr 2
    omega
  rw [topicState, hrange, List.foldl_append]
  rfl

/-- One step on a section that is determined by its indices. -/
theorem topicStep_sectionOf {done : List RawSection} {run : List Nat} (hrun : run ≠ []) (i : Nat) :
    topicStep order segments cfg { sections := done, current := sectionOf segments run } i =
      if opensSection order segments cfg run i then
        { sections := done ++ [sectionOf segments run], current := sectionOf segments [i] }
      else { sections := done, current := sectionOf segments (run ++ [i]) } := by
  rw [sectionOf_append segments hrun (List.cons_ne_nil i [])]
  rfl

theorem foldl_topicStep (is : List Nat) (done : List RawSection) {run : List Nat}
    (hrun : run ≠ []) :
    let st := is.foldl (topicStep order segments cfg)
      { sections := done, current := sectionOf segments run }
    st.current = sectionOf segments (openRun (opensSection order segments cfg) run is) ∧
      st.sections ++ [st.current] =
        done ++ (runsFrom (opensSection order segments cfg) run is).map (sectionOf segments) := by
  induction is generalizing done run with
  | nil => simp [openRun]
  | cons i is ih =>
    rw [List.foldl_cons, topicStep_sectionOf order segments cfg hrun]
    cases h : opensSection order segments cfg run i with
    | true =>
      have hstep := ih (done ++ [sectionOf segments run]) (List.cons_ne_nil i [])
      rw [runsFrom_cons_of_cut h, openRun_cons_of_cut h]
      simpa using hstep
    | false =>
      have hne : run ++ [i] ≠ [] := by simp
      have hstep := ih done hne
      rw [runsFrom_cons_of_not_cut h, openRun_cons_of_not_cut h]
      simpa using hstep

/-- The loop cuts the indices of the transcript into consecutive runs. -/
theorem rawSections_eq_runs :
    rawSections order segments cfg =
      (runs (opensSection order segments cfg) (List.range segments.length)).map
        (sectionOf segments) := by
  cases segments with
  | nil => rfl
  | cons s rest =>
    have hrange : List.range (s :: rest).length = 0 :: List.range' 1 rest.length := by
      rw [List.range_eq_range', List.length_cons, List.range'_succ]
    have hloop := (foldl_topicStep order (s :: rest) cfg (List.range' 1 rest.length)
      [] (List.cons_ne_nil 0 [])).2
    rw [hrange, runs]
    simpa [rawSections, topicState, startSection_eq] using hloop

theorem current_topicState {n : Nat} :
    (topicState order segments cfg n).current =
      sectionOf segments
        (openRun (opensSection order segments cfg) [0] (List.range' 1 (n - 1))) :=
  (foldl_topicStep order segments cfg (List.range' 1 (n - 1)) []
    (List.cons_ne_nil 0 [])).1

/-! ## Merging short sections -/

/-- Whether the section with these indices is merged away. -/
def isShort (indices : List Nat) : Bool :=
  let range := (sectionOf segments indices).timeRangeMs
  range.2 - range.1 < cfg.minSectionMs

theorem extendLast_concat (done : List RawSection) {front back : List Nat} (hfront : front ≠ [])
    (hback : back ≠ []) :
    extendLast (done ++ [sectionOf segments front]) (sectionOf segments back) =
      done ++ [sectionOf segments (front ++ back)] := by
  rw [sectionOf_append segments hfront hback]
  simp [extendLast]

theorem mergeShortSections_map {groups : List (List Nat)} (hgroups : ∀ g ∈ groups, g ≠ []) :
    mergeShortSections (groups.map (sectionOf segments)) cfg.minSectionMs =
      (absorb (isShort segments cfg) groups).map (sectionOf segments) := by
  -- `run` holds the groups joined so far into the last section of the output
  have hloop : ∀ (gs : List (List Nat)) (done : List RawSection) (run : List (List Nat)),
      (∀ g ∈ gs, g ≠ []) → run.flatten ≠ [] →
      (gs.map (sectionOf segments)).foldl
        (fun out s =>
          if s.timeRangeMs.2 - s.timeRangeMs.1 < cfg.minSectionMs && !out.isEmpty then
            extendLast out s
          else out ++ [s])
        (done ++ [sectionOf segments run.flatten]) =
      done ++ ((runsFrom (fun _ g => !isShort segments cfg g) run gs).map List.flatten).map
        (sectionOf segments) := by
    intro gs
    induction gs with
    | nil => intro done run _ _; simp
    | cons g gs ih =>
      intro done run hgs hrun
      have hg : g ≠ [] := hgs g List.mem_cons_self
      have hrest : ∀ g ∈ gs, g ≠ [] := fun g hg => hgs g (List.mem_cons_of_mem _ hg)
      rw [List.map_cons, List.foldl_cons]
      cases hshort : isShort segments cfg g with
      | true =>
        have hjoin := ih done (run ++ [g]) hrest (by simp [hrun])
        rw [runsFrom_cons_of_not_cut (by simp [hshort]), ← hjoin]
        have hlen : (sectionOf segments g).timeRangeMs.2 - (sectionOf segments g).timeRangeMs.1
            < cfg.minSectionMs := by simpa [isShort] using hshort
        rw [extendLast_concat segments done hrun hg]
        simp [hlen]
      | false =>
        have hcut := ih (done ++ [sectionOf segments run.flatten]) [g] hrest (by simpa using hg)
        rw [runsFrom_cons_of_cut (by simp [hshort])]
        have hlen : ¬ (sectionOf segments g).timeRangeMs.2 - (sectionOf segments g).timeRangeMs.1
            < cfg.minSectionMs := by simpa [isShort] using hshort
        simpa [hlen] using hcut
  cases groups with
  | nil => rfl
  | cons g gs =>
    have hg : g ≠ [] := hgroups g List.mem_cons_self
    have := hloop gs [] [g] (fun g hg => hgroups g (List.mem_cons_of_mem _ hg)) (by simpa using hg)
    simpa [mergeShortSections, absorb, runs] using this

/-- The indices of the sections of `segment_topics`. -/
def topicGroups : List (List Nat) :=
  absorb (isShort segments cfg)
    (runs (opensSection order segments cfg) (List.range segments.length))

theorem segmentTopics_eq_map :
    segmentTopics order segments cfg =
      (topicGroups order segments cfg).map (sectionOf segments) := by
  rw [segmentTopics, rawSections_eq_runs,
    mergeShortSections_map segments cfg (fun g hg => ne_nil_of_mem_runs hg)]
  rfl

theorem flatten_topicGroups :
    (topicGroups order segments cfg).flatten = List.range segments.length := by
  rw [topicGroups, flatten_absorb, flatten_runs]

theorem ne_nil_of_mem_topicGroups {g : List Nat} (h : g ∈ topicGroups order segments cfg) :
    g ≠ [] :=
  ne_nil_of_mem_absorb (fun _ hg => ne_nil_of_mem_runs hg) g h

/-- One segment makes one section. -/
theorem segmentTopics_singleton (seg : Segment) :
    segmentTopics order [seg] cfg = [sectionOf [seg] [0]] := by
  have hgroups : topicGroups order [seg] cfg = [[0]] :=
    eq_singleton_of_flatten (flatten_topicGroups order [seg] cfg)
      fun _ hg => ne_nil_of_mem_topicGroups order [seg] cfg hg
  rw [segmentTopics_eq_map, hgroups, List.map_singleton]

/-- Every segment lies in exactly one section, in transcript order. -/
theorem flatMap_segmentTopics :
    (segmentTopics order segments cfg).flatMap RawSection.segmentIndices =
      List.range segments.length := by
  rw [segmentTopics_eq_map, List.flatMap_map]
  simpa [List.flatMap_id'] using flatten_topicGroups order segments cfg

end TopicSegmentation
end Panops
