import Mathlib.Order.OrderDual
import Panops.Lib.Scans
import Panops.Notes.ScreenshotAnchoring
import Panops.Notes.TopicGuarantees

/-!
# Where a screenshot goes

The section of a timestamp is the first that holds it, or else the first of those
whose middle is nearest.  The middle is computed without a check, which is right
because a section of a timeline ends no earlier than it starts.
-/

namespace Panops

open Lib Lib.Machine Lib.Scans

namespace ScreenshotAnchoring

open TopicSegmentation

/-- The half-open range of the section holds the timestamp. -/
def Holds (s : RawSection) (ms : Nat) : Prop := s.timeRangeMs.1 ≤ ms ∧ ms < s.timeRangeMs.2

/-- From the timestamp to the middle of the section. -/
def distance (ms : Nat) (s : RawSection) : Nat :=
  absDiff (s.timeRangeMs.1 + (s.timeRangeMs.2 - s.timeRangeMs.1) / 2) ms

/-- The section at `k` is the one for the timestamp. -/
inductive Anchored (sections : List RawSection) (ms k : Nat) : Prop
  | inside (s : RawSection) (here : sections[k]? = some s) (holds : Holds s ms)
      (first : ∀ j s', j < k → sections[j]? = some s' → ¬ Holds s' ms)
  | nearest (s : RawSection) (outside : ∀ s' ∈ sections, ¬ Holds s' ms)
      (here : sections[k]? = some s)
      (least : ∀ s' ∈ sections, distance ms s ≤ distance ms s')
      (first : ∀ j s', j < k → sections[j]? = some s' → distance ms s < distance ms s')

/-! ## The loop over the midpoints -/

section

variable (ms : Nat)

def dist (s : RawSection) : Nat := absDiff (midpoint s) ms

/-- What the loop has found among the sections behind it: nothing below the greatest
number, or the first of the nearest. -/
inductive Nearest (sections : List RawSection) : Nat × Nat → Prop
  | far (h : ∀ s ∈ sections, dist ms s = u64Max) : Nearest sections (0, u64Max)
  | found (k : Nat) (s : RawSection)
      (h : FirstMax (fun s => OrderDual.toDual (dist ms s)) sections k s) :
      Nearest sections (k, dist ms s)

variable {ms}

theorem dist_le (hms : ms < 2 ^ 64) (s : RawSection) : dist ms s ≤ u64Max := by
  have hmid : midpoint s < 2 ^ 64 := Nat.mod_lt _ (by decide)
  simp only [dist, absDiff, u64Max]
  omega

theorem nearest_step (hms : ms < 2 ^ 64) {sections : List RawSection} {best : Nat × Nat}
    (h : Nearest ms sections best) (s : RawSection) :
    Nearest ms (sections ++ [s]) (nearestStep ms best (s, sections.length)) := by
  have hle := dist_le hms s
  have hstep : nearestStep ms best (s, sections.length) =
      if dist ms s < best.2 then (sections.length, dist ms s) else best := rfl
  rw [hstep]
  cases h with
  | far h =>
    by_cases hlt : dist ms s < u64Max
    · rw [if_pos hlt]
      refine .found sections.length s (firstMax_concat fun s' hs' => ?_)
      show dist ms s < dist ms s'
      rw [h s' hs']
      exact hlt
    · rw [if_neg hlt]
      refine .far fun s' hs' => ?_
      rcases List.mem_append.mp hs' with hs' | hs'
      · exact h s' hs'
      · rw [List.mem_singleton.mp hs']
        omega
  | found k best h =>
    simp only
    split
    · next hlt => exact .found sections.length s (h.concat_of_lt hlt)
    · next hge => exact .found k best (h.concat (Nat.le_of_not_lt hge))

theorem nearest_foldl (hms : ms < 2 ^ 64) (sections : List RawSection) :
    Nearest ms sections (sections.zipIdx.foldl (nearestStep ms) (0, u64Max)) := by
  induction sections using List.reverseRecOn with
  | nil => exact .far (by simp)
  | append_singleton sections s ih =>
    rw [List.zipIdx_append, List.foldl_append, Nat.zero_add]
    exact nearest_step hms ih s

/-- The loop ends at the first of the nearest sections, also when all are as far away
as two numbers can be. -/
theorem firstMax_nearest (hms : ms < 2 ^ 64) {sections : List RawSection} (hne : sections ≠ []) :
    ∃ s, FirstMax (fun s => OrderDual.toDual (dist ms s)) sections
      (sections.zipIdx.foldl (nearestStep ms) (0, u64Max)).1 s := by
  have hnearest := nearest_foldl hms sections
  generalize sections.zipIdx.foldl (nearestStep ms) (0, u64Max) = best at hnearest
  cases hnearest with
  | far h => exact firstMax_of_const hne fun s hs => congrArg OrderDual.toDual (h s hs)
  | found k s h => exact ⟨s, h⟩

end

/-- The test of the first loop. -/
theorem holds_iff (s : RawSection) (ms : Nat) :
    (s.timeRangeMs.1 ≤ ms && ms < s.timeRangeMs.2) = true ↔ Holds s ms := by
  simp [Holds]

theorem anchored_sectionForTimestamp {sections : List RawSection} {ms : Nat}
    (hne : sections ≠ []) (hms : ms < 2 ^ 64)
    (hmid : ∀ s ∈ sections, dist ms s = distance ms s) :
    Anchored sections ms (sectionForTimestamp sections ms) := by
  unfold sectionForTimestamp
  cases hfind : sections.findIdx? (fun s => s.timeRangeMs.1 ≤ ms && ms < s.timeRangeMs.2) with
  | some k =>
    obtain ⟨hk, hhere, hbefore⟩ := List.findIdx?_eq_some_iff_getElem.mp hfind
    refine .inside sections[k] (List.getElem?_eq_getElem hk) ((holds_iff _ ms).mp hhere) ?_
    intro j s' hj hs' hholds
    obtain ⟨hj', rfl⟩ := List.getElem?_eq_some_iff.mp hs'
    exact hbefore j hj ((holds_iff _ ms).mpr hholds)
  | none =>
    have houtside : ∀ s ∈ sections, ¬ Holds s ms := by
      intro s hs hholds
      have hfalse := List.findIdx?_eq_none_iff.mp hfind s hs
      rw [(holds_iff s ms).mpr hholds] at hfalse
      cases hfalse
    obtain ⟨s, hs⟩ := firstMax_nearest hms hne
    refine .nearest s houtside hs.here (fun s' hs' => ?_) (fun j s' hj hs' => ?_)
    · rw [← hmid s hs.mem, ← hmid s' hs']
      exact hs.greatest s' hs'
    · rw [← hmid s hs.mem, ← hmid s' (List.mem_of_getElem? hs')]
      exact hs.first j s' hj hs'

/-! ## The sections of a timeline -/

section

variable (order : HashOrder UInt32 Nat) {segments : List Segment} (cfg : TopicSegmentationConfig)

/-- A section of a timeline is a range of it, so it ends no earlier than it starts, and
no later than some segment. -/
theorem range_segmentTopics (htimeline : Timeline segments) :
    ∀ s ∈ segmentTopics order segments cfg, s.timeRangeMs.1 ≤ s.timeRangeMs.2 ∧
      ∃ seg ∈ segments, s.timeRangeMs.2 = seg.endMs := by
  rw [segmentTopics_eq_map]
  intro s hs
  obtain ⟨g, hg, rfl⟩ := List.mem_map.mp hs
  have hne := ne_nil_of_mem_topicGroups order segments cfg hg
  have hlast := List.getLast?_eq_some_getLast hne
  obtain ⟨hhead, hlen⟩ := (tiles_topicGroups segments cfg order).mem_bounds g hg _
    (List.getLast_mem hne)
  have hseg : segAt segments (g.getLast hne) ∈ segments := by
    rw [segAt, List.getD_eq_getElem?_getD, List.getElem?_eq_getElem hlen]
    exact List.getElem_mem hlen
  have hend : (sectionOf segments g).timeRangeMs.2 = (segAt segments (g.getLast hne)).endMs := by
    simp only [sectionOf, List.getLastD_eq_getLast?, hlast, Option.getD_some]
  rw [hend]
  exact ⟨Nat.le_trans (htimeline.start_le hhead hlen) (htimeline.ordered _ hseg), _, hseg, rfl⟩

theorem midpoint_eq (htimeline : Timeline segments) (hends : ∀ seg ∈ segments, seg.endMs < 2 ^ 64)
    {s : RawSection} (hs : s ∈ segmentTopics order segments cfg) :
    midpoint s = s.timeRangeMs.1 + (s.timeRangeMs.2 - s.timeRangeMs.1) / 2 := by
  obtain ⟨hle, seg, hseg, hend⟩ := range_segmentTopics order cfg htimeline s hs
  have hlt := hends seg hseg
  rw [midpoint, wrappingSub_of_le hle (by omega), wrappingAdd]
  omega

/-- For every timeline the subtraction of the midpoint is one of numbers; each
screenshot is put in the list of its section, in the order they came, and the lists
are those of the sections.  Without a transcript there is no section to put one in. -/
theorem anchorScreenshots_spec (htimeline : Timeline segments)
    (hends : ∀ seg ∈ segments, seg.endMs < 2 ^ 64) {screenshots : List Screenshot}
    (hshots : ∀ shot ∈ screenshots, shot.msSinceStart < 2 ^ 64) :
    let sections := segmentTopics order segments cfg
    (∀ s ∈ sections, s.timeRangeMs.1 ≤ s.timeRangeMs.2 ∧
      midpoint s = s.timeRangeMs.1 + (s.timeRangeMs.2 - s.timeRangeMs.1) / 2) ∧
    (anchorScreenshots sections screenshots).length = sections.length ∧
    (segments = [] → sections = []) ∧
    (segments ≠ [] → ∃ place : Screenshot → Nat,
      (∀ shot ∈ screenshots, Anchored sections shot.msSinceStart (place shot)) ∧
      ∀ k < sections.length, (anchorScreenshots sections screenshots)[k]? =
        some (screenshots.filter fun shot => place shot = k)) := by
  intro sections
  refine ⟨fun s hs => ⟨(range_segmentTopics order cfg htimeline s hs).1,
    midpoint_eq order cfg htimeline hends hs⟩, length_anchorScreenshots _ _, ?_, ?_⟩
  · rintro rfl
    rfl
  · intro hne
    have hsections : sections ≠ [] := by
      intro hnil
      have hindices := flatMap_segmentTopics order segments cfg
      rw [show segmentTopics order segments cfg = [] from hnil, List.flatMap_nil] at hindices
      exact hne (List.length_eq_zero_iff.mp (List.range_eq_nil.mp hindices.symm))
    refine ⟨fun shot => sectionForTimestamp sections shot.msSinceStart, fun shot hshot => ?_,
      fun k hk => getElem?_anchorScreenshots screenshots hk⟩
    refine anchored_sectionForTimestamp hsections (hshots shot hshot) fun s hs => ?_
    rw [dist, distance, midpoint_eq order cfg htimeline hends hs]

end

def shotAt (ms : Nat) : Screenshot := ⟨ms, ["0.jpg"], none⟩

theorem timeline_monologue : Timeline [utterance 0 10000, utterance 20000 60000] :=
  ⟨by simp [utterance], by simp [utterance]⟩

def monologueTopics : List RawSection :=
  segmentTopics (.insertion UInt32 Nat) [utterance 0 10000, utterance 20000 60000] .default

/-- Two sections, and a screenshot between them. -/
theorem anchorScreenshots_spec_gap :
    (∀ s ∈ monologueTopics, s.timeRangeMs.1 ≤ s.timeRangeMs.2 ∧
      midpoint s = s.timeRangeMs.1 + (s.timeRangeMs.2 - s.timeRangeMs.1) / 2) ∧
    (anchorScreenshots monologueTopics [shotAt 15000]).length = monologueTopics.length ∧
    ([utterance 0 10000, utterance 20000 60000] = [] → monologueTopics = []) ∧
    ([utterance 0 10000, utterance 20000 60000] ≠ [] → ∃ place : Screenshot → Nat,
      (∀ shot ∈ [shotAt 15000], Anchored monologueTopics shot.msSinceStart (place shot)) ∧
      ∀ k < monologueTopics.length, (anchorScreenshots monologueTopics [shotAt 15000])[k]? =
        some ([shotAt 15000].filter fun shot => place shot = k)) :=
  anchorScreenshots_spec _ _ timeline_monologue (by simp [utterance]) (by simp [shotAt])

/-- Without a transcript a screenshot is in no list. -/
theorem not_every_screenshot_anchored :
    ¬ ∀ (order : HashOrder UInt32 Nat) (segments : List Segment) (cfg : TopicSegmentationConfig)
      (screenshots : List Screenshot), Timeline segments →
      (∀ seg ∈ segments, seg.endMs < 2 ^ 64) → (∀ shot ∈ screenshots, shot.msSinceStart < 2 ^ 64) →
      ∀ shot ∈ screenshots,
        ∃ list ∈ anchorScreenshots (segmentTopics order segments cfg) screenshots, shot ∈ list := by
  intro h
  obtain ⟨list, hlist, -⟩ := h (.insertion UInt32 Nat) [] .default [shotAt 0]
    ⟨List.Pairwise.nil, by simp⟩ (by simp) (by simp [shotAt]) (shotAt 0) (by simp)
  exact absurd hlist List.not_mem_nil

end ScreenshotAnchoring
end Panops
