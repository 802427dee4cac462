import Mathlib.Data.List.Sort
import Panops.Lib.Machine

namespace Panops

open Lib.Machine

/-- One transcribed utterance.  Times are `u64` milliseconds. -/
structure Segment where
  startMs : Nat
  endMs : Nat
  text : String
  languageDetected : Option String
  confidence : Single
  speakerId : Option UInt32
deriving DecidableEq

instance : Inhabited Segment where
  default :=
    { startMs := 0, endMs := 0, text := "", languageDetected := none,
      confidence := .finite 1, speakerId := none }

structure SpeakerTurn where
  startMs : Nat
  endMs : Nat
  speakerId : UInt32
deriving DecidableEq

namespace Merge

/-- The turn overlapping `startMs..endMs` the most; the first one on ties. -/
def dominantSpeaker (startMs endMs : Nat) (turns : List SpeakerTurn) : Option UInt32 :=
  let best := turns.foldl
    (fun (best : Option (UInt32 × Nat)) t =>
      let lo := max startMs t.startMs
      let hi := min endMs t.endMs
      if hi ≤ lo then best
      else
        match best with
        | some (_, b) => if hi - lo ≤ b then best else some (t.speakerId, hi - lo)
        | none => some (t.speakerId, hi - lo))
    none
  best.map Prod.fst

def mergeSpeakerTurns (segments : List Segment) (turns : List SpeakerTurn) : List Segment :=
  segments.map fun seg =>
    { seg with speakerId := dominantSpeaker seg.startMs seg.endMs turns }

/-- Offset the ids of the remote turns past the local speaker; `none` is the
panic of `checked_add(1).expect(..)`. -/
def offsetTurns (turns : List SpeakerTurn) : Option (List SpeakerTurn) :=
  turns.mapM fun t =>
    if t.speakerId.toNat + 1 < 2 ^ 32 then some { t with speakerId := t.speakerId + 1 } else none

/-- `sort_by_key(|s| s.start_ms)`, which is stable. -/
def sortByStart (segments : List Segment) : List Segment :=
  segments.insertionSort fun a b => a.startMs ≤ b.startMs

def mergeTwoTrack (micSegments systemSegments : List Segment)
    (systemTurns : List SpeakerTurn) : Option (List Segment) :=
  (offsetTurns systemTurns).map fun turns =>
    let mic := micSegments.map fun s => { s with speakerId := some 0 }
    sortByStart (mic ++ mergeSpeakerTurns systemSegments turns)

end Merge

/-- The segments of a transcript come in order of their starts, and none ends
before it starts.  Nothing is said about overlaps: two tracks talk at once. -/
structure Timeline (segments : List Segment) : Prop where
  sorted : segments.Pairwise fun a b => a.startMs ≤ b.startMs
  ordered : ∀ s ∈ segments, s.startMs ≤ s.endMs

namespace Merge

theorem pairwise_sortByStart (segments : List Segment) :
    (sortByStart segments).Pairwise fun a b => a.startMs ≤ b.startMs := by
  have : Std.Total fun a b : Segment => a.startMs ≤ b.startMs :=
    ⟨fun a b => Nat.le_total a.startMs b.startMs⟩
  have : IsTrans Segment fun a b => a.startMs ≤ b.startMs :=
    ⟨fun _ _ _ => Nat.le_trans⟩
  exact List.pairwise_insertionSort _ segments

/-- Merging keeps the times, so well-ordered tracks merge to a timeline. -/
theorem timeline_of_mergeTwoTrack {mic system : List Segment} {turns : List SpeakerTurn}
    {merged : List Segment} (h : mergeTwoTrack mic system turns = some merged)
    (hordered : ∀ s ∈ mic ++ system, s.startMs ≤ s.endMs) : Timeline merged := by
  obtain ⟨offset, _, rfl⟩ := Option.map_eq_some_iff.mp h
  refine ⟨pairwise_sortByStart _, fun s hs => ?_⟩
  have hmem := (List.mem_insertionSort _).mp hs
  rcases List.mem_append.mp hmem with hmic | hsystem
  · obtain ⟨s₀, hs₀, rfl⟩ := List.mem_map.mp hmic
    exact hordered s₀ (List.mem_append_left _ hs₀)
  · obtain ⟨s₀, hs₀, rfl⟩ := List.mem_map.mp hsystem
    exact hordered s₀ (List.mem_append_right _ hs₀)

end Merge
end Panops
