import Panops.Lib.Scans
import Panops.Lib.Sorting
import Panops.Segment

/-!
# Two tracks

Who speaks in the merged transcript: the local user in every microphone segment, and
in a system segment the remote speaker whose turn covers most of it.
-/

namespace Panops

open Lib Lib.Machine Lib.Scans

namespace Merge

/-- The milliseconds that a turn shares with a range. -/
def overlap (startMs endMs : Nat) (t : SpeakerTurn) : Nat :=
  min endMs t.endMs - max startMs t.startMs

/-- The id that a remote speaker gets, past the local user. -/
def shiftTurn (t : SpeakerTurn) : SpeakerTurn := { t with speakerId := t.speakerId + 1 }

@[simp] theorem overlap_shiftTurn (startMs endMs : Nat) (t : SpeakerTurn) :
    overlap startMs endMs (shiftTurn t) = overlap startMs endMs t := rfl

theorem toNat_shiftTurn {t : SpeakerTurn} (h : t.speakerId.toNat < u32Max) :
    (shiftTurn t).speakerId.toNat = t.speakerId.toNat + 1 := by
  simp only [u32Max] at h
  simp only [shiftTurn, UInt32.toNat_add, UInt32.toNat_one]
  omega

theorem offsetTurns_eq {turns : List SpeakerTurn}
    (h : ∀ t ∈ turns, t.speakerId.toNat < u32Max) :
    offsetTurns turns = some (turns.map shiftTurn) := by
  unfold offsetTurns
  induction turns with
  | nil => rfl
  | cons t turns ih =>
    have ht : t.speakerId.toNat + 1 < 2 ^ 32 := by
      have := h t List.mem_cons_self
      simp only [u32Max] at this
      omega
    rw [List.mapM_cons, if_pos ht, ih fun t' ht' => h t' (List.mem_cons_of_mem t ht')]
    rfl

/-! ## The dominant speaker -/

section

variable (startMs endMs : Nat)

/-- What the loop of `dominantSpeaker` has found among the turns behind it. -/
inductive Best (turns : List SpeakerTurn) : Option (UInt32 × Nat) → Prop
  | none (h : ∀ t ∈ turns, overlap startMs endMs t = 0) : Best turns none
  | some (k : Nat) (t : SpeakerTurn) (h : FirstMax (overlap startMs endMs) turns k t)
      (hpos : 0 < overlap startMs endMs t) :
      Best turns (some (t.speakerId, overlap startMs endMs t))

/-- One turn of the loop. -/
def bestStep (best : Option (UInt32 × Nat)) (t : SpeakerTurn) : Option (UInt32 × Nat) :=
  let lo := max startMs t.startMs
  let hi := min endMs t.endMs
  if hi ≤ lo then best
  else
    match best with
    | some (_, b) => if hi - lo ≤ b then best else some (t.speakerId, hi - lo)
    | none => some (t.speakerId, hi - lo)

theorem dominantSpeaker_eq (turns : List SpeakerTurn) :
    dominantSpeaker startMs endMs turns =
      (turns.foldl (bestStep startMs endMs) none).map Prod.fst := rfl

variable {startMs endMs}

theorem Best.step {turns : List SpeakerTurn} {best : Option (UInt32 × Nat)}
    (h : Best startMs endMs turns best) (t : SpeakerTurn) :
    Best startMs endMs (turns ++ [t]) (bestStep startMs endMs best t) := by
  unfold bestStep
  simp only
  by_cases hlo : min endMs t.endMs ≤ max startMs t.startMs
  · have hzero : overlap startMs endMs t = 0 := Nat.sub_eq_zero_of_le hlo
    rw [if_pos hlo]
    cases h with
    | none h =>
      refine .none fun t' ht' => ?_
      rcases List.mem_append.mp ht' with ht' | ht'
      · exact h t' ht'
      · rw [List.mem_singleton.mp ht']
        exact hzero
    | some k best h hpos => exact .some k best (h.concat (by omega)) hpos
  · have hpos : 0 < overlap startMs endMs t := Nat.sub_pos_of_lt (Nat.lt_of_not_le hlo)
    rw [if_neg hlo]
    cases h with
    | none h =>
      refine .some turns.length t (firstMax_concat fun t' ht' => ?_) hpos
      rw [h t' ht']
      exact hpos
    | some k best h hbest =>
      simp only
      split
      · next hle => exact .some k best (h.concat hle) hbest
      · next hlt =>
        exact .some turns.length t (h.concat_of_lt (Nat.lt_of_not_le hlt)) hpos

theorem best_foldl (turns : List SpeakerTurn) :
    Best startMs endMs turns (turns.foldl (bestStep startMs endMs) none) := by
  induction turns using List.reverseRecOn with
  | nil => exact .none (by simp)
  | append_singleton turns t ih =>
    rw [List.foldl_append]
    exact ih.step t

/-- Nobody speaks in a range that no turn meets. -/
theorem dominantSpeaker_eq_none_iff {turns : List SpeakerTurn} :
    dominantSpeaker startMs endMs turns = none ↔ ¬ ∃ t ∈ turns, 0 < overlap startMs endMs t := by
  rw [dominantSpeaker_eq]
  have hbest := @best_foldl startMs endMs turns
  generalize turns.foldl (bestStep startMs endMs) none = best at hbest
  cases hbest with
  | none h =>
    refine ⟨fun _ hex => ?_, fun _ => rfl⟩
    obtain ⟨t, ht, hpos⟩ := hex
    rw [h t ht] at hpos
    exact Nat.lt_irrefl 0 hpos
  | some k t h hpos =>
    refine ⟨fun hnone => ?_, fun hnone => absurd ⟨t, h.mem, hpos⟩ hnone⟩
    cases hnone

/-- Otherwise it is the first of the turns that meet it longest. -/
theorem dominantSpeaker_eq_some_iff {turns : List SpeakerTurn} {id : UInt32} :
    dominantSpeaker startMs endMs turns = some id ↔
      ∃ k t, FirstMax (overlap startMs endMs) turns k t ∧ 0 < overlap startMs endMs t ∧
        t.speakerId = id := by
  rw [dominantSpeaker_eq]
  have hbest := @best_foldl startMs endMs turns
  generalize turns.foldl (bestStep startMs endMs) none = best at hbest
  cases hbest with
  | none h =>
    refine ⟨fun hnone => (by cases hnone), fun hex => ?_⟩
    obtain ⟨k, t, hmax, hpos, -⟩ := hex
    rw [h t hmax.mem] at hpos
    exact absurd hpos (Nat.lt_irrefl 0)
  | some k t h hpos =>
    constructor
    · intro hid
      exact ⟨k, t, h, hpos, Option.some.inj hid⟩
    · intro hex
      obtain ⟨k', t', hmax, -, hid⟩ := hex
      rw [(h.unique hmax).2, ← hid]
      rfl

end

/-! ## The merged transcript -/

/-- A system segment in the merged transcript: nothing but its speaker is new, and
that is the remote speaker of the first turn that meets it longest, if one does. -/
structure Remote (turns : List SpeakerTurn) (before after : Segment) : Prop where
  same : after = { before with speakerId := after.speakerId }
  some_iff : ∀ id, after.speakerId = some id ↔
    ∃ k t, FirstMax (overlap before.startMs before.endMs) turns k t ∧
      0 < overlap before.startMs before.endMs t ∧ id.toNat = t.speakerId.toNat + 1
  none_iff : after.speakerId = none ↔
    ¬ ∃ t ∈ turns, 0 < overlap before.startMs before.endMs t

theorem Remote.not_local {turns : List SpeakerTurn} {before after : Segment}
    (h : Remote turns before after) : after.speakerId ≠ some 0 := by
  intro hzero
  obtain ⟨k, t, -, -, hid⟩ := (h.some_iff 0).mp hzero
  simp at hid

theorem remote_of_turns {turns : List SpeakerTurn}
    (hids : ∀ t ∈ turns, t.speakerId.toNat < u32Max) (seg : Segment) :
    Remote turns seg
      { seg with speakerId := dominantSpeaker seg.startMs seg.endMs (turns.map shiftTurn) } where
  same := rfl
  some_iff id := by
    show dominantSpeaker seg.startMs seg.endMs (turns.map shiftTurn) = some id ↔ _
    rw [dominantSpeaker_eq_some_iff]
    constructor
    · intro h
      obtain ⟨k, t', hmax, hpos, rfl⟩ := h
      obtain ⟨t, rfl, hturn⟩ := hmax.of_map
      exact ⟨k, t, hturn, hpos, toNat_shiftTurn (hids t hturn.mem)⟩
    · intro h
      obtain ⟨k, t, hmax, hpos, hid⟩ := h
      refine ⟨k, shiftTurn t, FirstMax.map (f := shiftTurn) hmax, hpos, UInt32.toNat_inj.mp ?_⟩
      rw [toNat_shiftTurn (hids t hmax.mem), hid]
  none_iff := by
    show dominantSpeaker seg.startMs seg.endMs (turns.map shiftTurn) = none ↔ _
    rw [dominantSpeaker_eq_none_iff]
    simp

/-- What the local user said is marked so, and nothing else of it changes. -/
def markLocal (s : Segment) : Segment := { s with speakerId := some 0 }

/-- The merged transcript of two tracks. -/
structure TwoTrackMerge (mic remote merged : List Segment) : Prop where
  sorted : merged.Pairwise fun a b => a.startMs ≤ b.startMs
  perm : merged.Perm (mic ++ remote)
  /-- Among the segments of one start the microphone comes first, and each track
  keeps its order. -/
  ties : ∀ startMs, (merged.filter fun s => s.startMs = startMs) =
    (mic.filter fun s => s.startMs = startMs) ++ remote.filter fun s => s.startMs = startMs

theorem twoTrackMerge_sortByStart (mic remote : List Segment) :
    TwoTrackMerge mic remote (sortByStart (mic ++ remote)) where
  sorted := pairwise_sortByStart _
  perm := List.perm_insertionSort _ _
  ties startMs := by
    rw [← List.filter_append]
    apply Sorting.filter_insertionSort_of_pairwise
    rw [List.pairwise_filter]
    refine List.pairwise_of_forall fun a b ha hb => ?_
    have hstart : a.startMs = startMs := of_decide_eq_true ha
    have hstart' : b.startMs = startMs := of_decide_eq_true hb
    omega

/-- Merging two tracks sorts their segments by start, stably and the microphone
first; the microphone's are the local user's, and each of the system's is the remote
speaker's whose turn meets it longest, so never the local user's. -/
theorem mergeTwoTrack_spec (mic system : List Segment) {turns : List SpeakerTurn}
    (hids : ∀ t ∈ turns, t.speakerId.toNat < u32Max) :
    ∃ merged remote, mergeTwoTrack mic system turns = some merged ∧
      List.Forall₂ (Remote turns) system remote ∧
      TwoTrackMerge (mic.map markLocal) remote merged ∧
      ∀ s ∈ remote, s.speakerId ≠ some 0 := by
  let remote := mergeSpeakerTurns system (turns.map shiftTurn)
  have hremote : List.Forall₂ (Remote turns) system remote := by
    show List.Forall₂ (Remote turns) system (system.map _)
    rw [List.forall₂_map_right_iff, List.forall₂_same]
    exact fun seg _ => remote_of_turns hids seg
  refine ⟨sortByStart (mic.map markLocal ++ remote), remote, ?_, hremote,
    twoTrackMerge_sortByStart _ _, fun s hs => ?_⟩
  · rw [mergeTwoTrack, offsetTurns_eq hids]
    rfl
  · obtain ⟨seg, -, rfl⟩ := List.mem_map.mp hs
    exact (remote_of_turns hids seg).not_local

def said (startMs endMs : Nat) : Segment := { (default : Segment) with startMs, endMs }

/-- Two turns that meet the first second equally long. -/
def halves : List SpeakerTurn := [⟨0, 500, 0⟩, ⟨500, 1000, 1⟩]

theorem mergeTwoTrack_spec_halves :
    ∃ merged remote,
      mergeTwoTrack [said 0 1000] [said 0 1000, said 2000 3000] halves = some merged ∧
      List.Forall₂ (Remote halves) [said 0 1000, said 2000 3000] remote ∧
      TwoTrackMerge ([said 0 1000].map markLocal) remote merged ∧
      ∀ s ∈ remote, s.speakerId ≠ some 0 :=
  mergeTwoTrack_spec [said 0 1000] [said 0 1000, said 2000 3000] (by decide)

end Merge
end Panops
