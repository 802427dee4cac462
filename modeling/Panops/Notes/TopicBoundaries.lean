import Mathlib.Data.List.Induction
import Panops.Lib.Tiles
import Panops.Notes.TopicSegmentation

/-!
# Topic boundaries

What the segmentation is for, without its loop: a position of the transcript is
a topic break when the transcript falls silent there or somebody else takes
over, and the sections lie between the breaks that leave them long enough.  The
loop is then shown to cut exactly there.
-/

namespace Panops

open Lib Lib.Machine Lib.Runs

/-- The threshold is positive: a share of zero falls under it. -/
def TopicSegmentationConfig.ShiftsEnabled (cfg : TopicSegmentationConfig) : Prop :=
  Single.lt (.finite 0) cfg.speakerShiftThreshold = true

namespace TopicSegmentation

variable (segments : List Segment) (cfg : TopicSegmentationConfig)

/-- The silence rule before segment `i`. -/
def SilenceBreak (i : Nat) : Prop :=
  (segAt segments (i - 1)).endMs + cfg.topicGapMs < (segAt segments i).startMs

/-- Two segments carry different speakers. -/
def SpeakersDiffer (i j : Nat) : Prop :=
  ∃ a b, speakerAt segments i = some a ∧ speakerAt segments j = some b ∧ a ≠ b

/-- Segment `i` has another speaker than the last one heard before it, and the
transcript was not silent in between. -/
def ShiftBreak (i : Nat) : Prop :=
  ∃ j, j < i ∧ SpeakersDiffer segments j i ∧
    (∀ k, j < k → k < i → speakerAt segments k = none) ∧
    ∀ k, j < k → k ≤ i → ¬ SilenceBreak segments cfg k

def TopicBreak (i : Nat) : Prop :=
  SilenceBreak segments cfg i ∨ cfg.ShiftsEnabled ∧ ShiftBreak segments cfg i

/-- A topic break that opens a stretch of at least `minSectionMs`. -/
def TopicBoundary (i : Nat) : Prop :=
  TopicBreak segments cfg i ∧ ∃ hi, i < hi ∧ (∀ k, i < k → k < hi → ¬ TopicBreak segments cfg k) ∧
    (hi = segments.length ∨ hi < segments.length ∧ TopicBreak segments cfg hi) ∧
    cfg.minSectionMs ≤ (segAt segments (hi - 1)).endMs - (segAt segments i).startMs

/-! ## One speaker a section -/

def OneSpeaker (indices : List Nat) : Prop :=
  ∀ i ∈ indices, ∀ j ∈ indices, ¬ SpeakersDiffer segments i j

theorem oneSpeaker_singleton (i : Nat) : OneSpeaker segments [i] := by
  intro j hj k hk hdiffer
  obtain rfl := List.mem_singleton.mp hj
  obtain rfl := List.mem_singleton.mp hk
  obtain ⟨a, b, ha, hb, hab⟩ := hdiffer
  exact hab (Option.some.inj (ha.symm.trans hb))

variable {segments}

theorem SpeakersDiffer.symm {i j : Nat} (h : SpeakersDiffer segments i j) :
    SpeakersDiffer segments j i := by
  obtain ⟨a, b, ha, hb, hab⟩ := h
  exact ⟨b, a, hb, ha, hab.symm⟩

/-- A segment joins a section of one speaker unless it differs from one of its
segments. -/
theorem OneSpeaker.concat {indices : List Nat} {i : Nat} (h : OneSpeaker segments indices)
    (hi : ¬ ∃ j ∈ indices, SpeakersDiffer segments j i) : OneSpeaker segments (indices ++ [i]) := by
  intro j hj k hk hdiffer
  rcases List.mem_append.mp hj with hjs | hji <;> rcases List.mem_append.mp hk with hks | hki
  · exact h j hjs k hks hdiffer
  · obtain rfl := List.mem_singleton.mp hki
    exact hi ⟨j, hjs, hdiffer⟩
  · obtain rfl := List.mem_singleton.mp hji
    exact hi ⟨k, hks, hdiffer.symm⟩
  · exact oneSpeaker_singleton segments i j hji k hki hdiffer

/-! ## What the shift test computes -/

theorem mem_keys_totals (indices : List Nat) {id : UInt32} :
    id ∈ (indices.foldl (addTotal segments) []).map Prod.fst ↔
      ∃ j ∈ indices, speakerAt segments j = some id := by
  induction indices using List.reverseRecOn with
  | nil => simp
  | append_singleton indices i ih =>
    rw [List.foldl_append, List.foldl_cons, List.foldl_nil, addTotal]
    cases hs : (segAt segments i).speakerId with
    | none =>
      have hi : speakerAt segments i = none := hs
      simp only [ih, List.mem_append, List.mem_singleton, or_and_right, exists_or,
        exists_eq_left, hi]
      simp
    | some a =>
      have hi : speakerAt segments i = some a := hs
      simp only [mem_keys_entryUpdate, ih, List.mem_append, List.mem_singleton, or_and_right,
        exists_or, exists_eq_left, hi, Option.some.injEq]
      rw [or_comm, eq_comm]

/-- Whatever the order of the map, the dominant speaker is one who spoke. -/
theorem exists_of_dominantSpeaker {order : HashOrder UInt32 Nat} {call : Nat}
    {indices : List Nat} {id : UInt32}
    (h : dominantSpeaker order call segments indices = some id) :
    ∃ j ∈ indices, speakerAt segments j = some id :=
  (mem_keys_totals indices).mp (mem_keys_of_maxByKey order call h)

theorem dominantSpeaker_eq_none {order : HashOrder UInt32 Nat} {call : Nat} {indices : List Nat}
    (h : dominantSpeaker order call segments indices = none) :
    ∀ j ∈ indices, speakerAt segments j = none := by
  have hempty := (maxByKey_iter_eq_none_iff order call).mp h
  intro j hj
  cases hs : speakerAt segments j with
  | none => rfl
  | some id =>
    have hmem := (mem_keys_totals indices).mpr ⟨j, hj, hs⟩
    rw [hempty] at hmem
    simp at hmem

/-- The share of somebody who has not spoken is zero. -/
theorem speakerShare_eq_zero {indices : List Nat} {who : UInt32}
    (h : ∀ j ∈ indices, speakerAt segments j ≠ some who) :
    speakerShare segments indices who = .finite 0 := by
  have hloop : (indices.foldl (addShare segments who) (0, 0)).2 = 0 := by
    induction indices using List.reverseRecOn with
    | nil => rfl
    | append_singleton indices i ih =>
      have hinit := ih fun j hj => h j (List.mem_append_left _ hj)
      rw [List.foldl_append, List.foldl_cons, List.foldl_nil, addShare]
      cases hs : (segAt segments i).speakerId with
      | none => exact hinit
      | some id =>
        have hne : id ≠ who := fun heq => h i (by simp) (heq ▸ hs)
        simpa [hne] using hinit
  unfold speakerShare
  simp only
  split
  · rfl
  · rw [hloop, ratioSingle_zero_left]

theorem exists_speakerShare_eq (indices : List Nat) (who : UInt32) :
    ∃ q, 0 ≤ q ∧ speakerShare segments indices who = .finite q := by
  simp only [speakerShare]
  split
  · exact ⟨0, le_refl 0, rfl⟩
  · exact ratioSingle_nonneg _ _

/-- A threshold that is not positive disables the rule. -/
theorem isSpeakerShiftBreak_eq_false {threshold : Single}
    (h : ¬ Single.lt (.finite 0) threshold = true) (order : HashOrder UInt32 Nat) (call : Nat)
    (indices : List Nat) (new : Option UInt32) :
    isSpeakerShiftBreak order call segments indices new threshold = false := by
  unfold isSpeakerShiftBreak
  split
  · rfl
  · next newId =>
    split
    · rfl
    · split
      · rfl
      · obtain ⟨q, hq, hshare⟩ := @exists_speakerShare_eq segments indices newId
        rw [hshare]
        exact Bool.eq_false_iff.mpr fun hlt => h (Single.zero_lt_of_lt hq hlt)

/-- In a section of one speaker the share rule can only compare with zero, so
the test says whether the speaker changes. -/
theorem isSpeakerShiftBreak_iff {threshold : Single}
    (hpos : Single.lt (.finite 0) threshold = true) {indices : List Nat}
    (hone : OneSpeaker segments indices) (order : HashOrder UInt32 Nat) (call i : Nat) :
    isSpeakerShiftBreak order call segments indices (speakerAt segments i) threshold = true ↔
      ∃ j ∈ indices, SpeakersDiffer segments j i := by
  unfold isSpeakerShiftBreak
  cases hi : speakerAt segments i with
  | none =>
    simp [SpeakersDiffer, hi]
  | some new =>
    cases hdom : dominantSpeaker order call segments indices with
    | none =>
      have hnone := dominantSpeaker_eq_none hdom
      simp only [Bool.false_eq_true, false_iff]
      intro hex
      obtain ⟨j, hj, a, b, ha, _, _⟩ := hex
      simp [hnone j hj] at ha
    | some dom =>
      obtain ⟨j, hj, hdomj⟩ := exists_of_dominantSpeaker hdom
      by_cases heq : dom = new
      · subst heq
        simp only [if_true, Bool.false_eq_true, false_iff]
        intro hex
        obtain ⟨k, hk, a, b, ha, hb, hab⟩ := hex
        obtain rfl : dom = b := Option.some.inj (hi.symm.trans hb)
        exact hone k hk j hj ⟨a, dom, ha, hdomj, hab⟩
      · have hzero : speakerShare segments indices new = .finite 0 := by
          apply speakerShare_eq_zero
          intro k hk hnew
          exact hone j hj k hk ⟨dom, new, hdomj, hnew, heq⟩
        simp only [if_neg heq, hzero, hpos, true_iff]
        exact ⟨j, hj, dom, new, hdomj, hi, heq⟩

variable {cfg}

theorem gap_iff (i : Nat) :
    cfg.topicGapMs < gapBefore segments i ↔ SilenceBreak segments cfg i := by
  unfold gapBefore SilenceBreak
  omega

/-- The whole test, on a section of one speaker. -/
theorem opensSection_iff (hpos : cfg.ShiftsEnabled) {indices : List Nat}
    (hone : OneSpeaker segments indices) (order : HashOrder UInt32 Nat) (i : Nat) :
    opensSection order segments cfg indices i = true ↔
      SilenceBreak segments cfg i ∨ ∃ j ∈ indices, SpeakersDiffer segments j i := by
  rw [opensSection, Bool.or_eq_true, decide_eq_true_iff, gap_iff,
    isSpeakerShiftBreak_iff hpos hone]

theorem oneSpeaker_join (hpos : cfg.ShiftsEnabled) (order : HashOrder UInt32 Nat)
    (indices : List Nat) (i : Nat) (hone : OneSpeaker segments indices)
    (h : opensSection order segments cfg indices i = false) :
    OneSpeaker segments (indices ++ [i]) := by
  apply hone.concat
  intro hdiffer
  have := (opensSection_iff hpos hone order i).mpr (Or.inr hdiffer)
  simp [this] at h

/-! ## The loop cuts at the breaks -/

/-- Inside a section that opened at `lo`, the last speaker heard before `i` is
one of the section's own. -/
theorem shiftBreak_iff {lo i : Nat} (hlo : lo < i)
    (hopens : lo = 0 ∨ TopicBreak segments cfg lo)
    (hinside : ∀ k, lo < k → k < i → ¬ TopicBreak segments cfg k)
    (hone : OneSpeaker segments (List.range' lo (i - lo)))
    (hquiet : ¬ SilenceBreak segments cfg i) :
    ShiftBreak segments cfg i ↔ ∃ j ∈ List.range' lo (i - lo), SpeakersDiffer segments j i := by
  constructor
  · intro hshift
    obtain ⟨j, hji, hdiffer, hnone, hnosilence⟩ := hshift
    refine ⟨j, List.mem_range'_1.mpr ⟨?_, by omega⟩, hdiffer⟩
    by_cases hj : lo ≤ j
    · exact hj
    · have hsome : ShiftBreak segments cfg lo := by
        rcases hopens with rfl | hsil | hshift
        · omega
        · exact absurd hsil (hnosilence lo (by omega) (by omega))
        · exact hshift.2
      obtain ⟨_, _, ⟨a, b, _, hb, _⟩, _, _⟩ := hsome
      simp [hnone lo (by omega) hlo] at hb
  · intro hex
    obtain ⟨j, hj, hdiffer⟩ := hex
    have hj' := List.mem_range'_1.mp hj
    obtain ⟨a, b, ha, hb, hab⟩ := hdiffer
    -- the last segment before `i` that has a speaker
    have hlatest : ∀ m, j < m → m ≤ i →
        ∃ l, j ≤ l ∧ l < m ∧ speakerAt segments l ≠ none ∧
          ∀ k, l < k → k < m → speakerAt segments k = none := by
      intro m hm hmi
      induction m with
      | zero => omega
      | succ m ih =>
        cases hs : speakerAt segments m with
        | some c => exact ⟨m, by omega, by omega, by simp [hs], fun k hk hk' => by omega⟩
        | none =>
          have hjm : j ≠ m := fun heq => by simp [heq, hs] at ha
          obtain ⟨l, hjl, hlm, hl, hafter⟩ := ih (by omega) (by omega)
          refine ⟨l, hjl, by omega, hl, fun k hk hk' => ?_⟩
          by_cases hkm : k = m
          · rw [hkm, hs]
          · exact hafter k hk (by omega)
    obtain ⟨l, hjl, hli, hl, hafter⟩ := hlatest i (by omega) (Nat.le_refl i)
    obtain ⟨c, hc⟩ := Option.ne_none_iff_exists'.mp hl
    have hsame : a = c := by
      by_contra hac
      exact hone j hj l (List.mem_range'_1.mpr (by omega)) ⟨a, c, ha, hc, hac⟩
    refine ⟨l, hli, ⟨c, b, hc, hb, hsame ▸ hab⟩, hafter, fun k hk hk' hsil => ?_⟩
    by_cases hki : k = i
    · exact hquiet (hki ▸ hsil)
    · exact hinside k (by omega) (by omega) (Or.inl hsil)

theorem opensSection_iff_topicBreak (order : HashOrder UInt32 Nat) {lo i : Nat} (hlo : lo < i)
    (hopens : lo = 0 ∨ TopicBreak segments cfg lo)
    (hinside : ∀ k, lo < k → k < i → ¬ TopicBreak segments cfg k)
    (hone : cfg.ShiftsEnabled → OneSpeaker segments (List.range' lo (i - lo))) :
    opensSection order segments cfg (List.range' lo (i - lo)) i = true ↔
      TopicBreak segments cfg i := by
  by_cases hpos : cfg.ShiftsEnabled
  · rw [opensSection_iff hpos (hone hpos), TopicBreak]
    by_cases hquiet : SilenceBreak segments cfg i
    · simp [hquiet]
    · have hshift := shiftBreak_iff hlo hopens hinside (hone hpos) hquiet
      rw [hshift]
      simp [hquiet, hpos]
  · rw [opensSection, isSpeakerShiftBreak_eq_false hpos, Bool.or_false, decide_eq_true_iff,
      gap_iff, TopicBreak]
    simp [hpos]

variable (segments cfg)

/-- The sections before merging are the stretches between topic breaks. -/
theorem tiles_runs (order : HashOrder UInt32 Nat) :
    Tiles (TopicBreak segments cfg) segments.length 0
      (runs (opensSection order segments cfg) (List.range segments.length)) := by
  apply Tiles.of_runs (P := fun run => cfg.ShiftsEnabled → OneSpeaker segments run)
  · exact fun i _ => oneSpeaker_singleton segments i
  · exact fun run i hone h hpos => oneSpeaker_join hpos order run i (hone hpos) h
  · intro lo i hlo _ hopens hinside hone
    exact opensSection_iff_topicBreak order hlo hopens hinside hone

theorem kept_iff_topicBoundary (i : Nat) :
    Tiles.Kept (TopicBreak segments cfg) segments.length (isShort segments cfg) i ↔
      TopicBoundary segments cfg i := by
  have hlong : ∀ hi, i < hi → (isShort segments cfg (List.range' i (hi - i)) = false ↔
      cfg.minSectionMs ≤ (segAt segments (hi - 1)).endMs - (segAt segments i).startMs) := by
    intro hi hlt
    have hhead : (List.range' i (hi - i)).headD 0 = i := by
      rw [show hi - i = hi - i - 1 + 1 by omega, List.range'_succ]
      rfl
    have hlast : (List.range' i (hi - i)).getLastD 0 = hi - 1 := by
      rw [show hi - i = hi - 1 - i + 1 by omega, List.range'_concat]
      simp
      omega
    simp only [isShort, sectionOf, hhead, hlast, decide_eq_false_iff_not, Nat.not_lt]
  constructor
  · intro hkept
    obtain ⟨hbreak, hi, hlt, hinside, hcloses, hshort⟩ := hkept
    exact ⟨hbreak, hi, hlt, hinside, hcloses, (hlong hi hlt).mp hshort⟩
  · intro hbound
    obtain ⟨hbreak, hi, hlt, hinside, hcloses, hmin⟩ := hbound
    exact ⟨hbreak, hi, hlt, hinside, hcloses, (hlong hi hlt).mpr hmin⟩

/-- The sections of `segment_topics` are the stretches between topic
boundaries. -/
theorem tiles_topicGroups (order : HashOrder UInt32 Nat) :
    Tiles (TopicBoundary segments cfg) segments.length 0 (topicGroups order segments cfg) := by
  have htiles := (tiles_runs segments cfg order).absorb (isShort segments cfg)
  have heq : Tiles.Kept (TopicBreak segments cfg) segments.length (isShort segments cfg) =
      TopicBoundary segments cfg := funext fun i => propext (kept_iff_topicBoundary segments cfg i)
  rw [heq] at htiles
  exact htiles

end TopicSegmentation
end Panops
