import Panops.Lib.Buckets
import Panops.Notes.Ir
import Panops.Notes.TopicSegmentation

/-!
# Screenshot anchoring

Assigns screenshots to sections: to the first one whose half-open range holds
the timestamp, or else to the one with the nearest midpoint.
-/

namespace Panops

open Lib Lib.Machine

namespace ScreenshotAnchoring

def midpoint (s : RawSection) : Nat :=
  wrappingAdd s.timeRangeMs.1 (wrappingSub s.timeRangeMs.2 s.timeRangeMs.1 / 2)

/-- The index and distance of the nearest midpoint so far, after section `i`. -/
def nearestStep (ms : Nat) (best : Nat × Nat) (s : RawSection × Nat) : Nat × Nat :=
  let dist := absDiff (midpoint s.1) ms
  if dist < best.2 then (s.2, dist) else best

def sectionForTimestamp (sections : List RawSection) (ms : Nat) : Nat :=
  match sections.findIdx? (fun s => s.timeRangeMs.1 ≤ ms && ms < s.timeRangeMs.2) with
  | some i => i
  | none => (sections.zipIdx.foldl (nearestStep ms) (0, u64Max)).1

def anchorScreenshots (sections : List RawSection) (screenshots : List Screenshot) :
    List (List Screenshot) :=
  if sections.isEmpty then sections.map fun _ => []
  else
    screenshots.foldl (Buckets.push fun shot => sectionForTimestamp sections shot.msSinceStart)
      (sections.map fun _ => [])

theorem sectionForTimestamp_lt {sections : List RawSection} (h : sections ≠ []) (ms : Nat) :
    sectionForTimestamp sections ms < sections.length := by
  have hpos : 0 < sections.length := List.length_pos_iff.mpr h
  unfold sectionForTimestamp
  cases hfind : sections.findIdx? (fun s => s.timeRangeMs.1 ≤ ms && ms < s.timeRangeMs.2) with
  | some i =>
    simp only
    exact (List.findIdx?_eq_some_iff_getElem.mp hfind).1
  | none =>
    have hfold : ∀ (pairs : List (RawSection × Nat)) (best : Nat × Nat),
        (∀ p ∈ pairs, p.2 < sections.length) → best.1 < sections.length →
        (pairs.foldl (nearestStep ms) best).1 < sections.length := by
      intro pairs
      induction pairs with
      | nil => exact fun _ _ hbest => hbest
      | cons p pairs ih =>
        intro best hpairs hbest
        refine ih _ (fun q hq => hpairs q (List.mem_cons_of_mem p hq)) ?_
        simp only [nearestStep]
        split
        · exact hpairs p List.mem_cons_self
        · exact hbest
    refine hfold _ _ (fun p hp => ?_) hpos
    have := List.snd_lt_of_mem_zipIdx hp
    simpa using this

theorem anchorScreenshots_eq {sections : List RawSection} (h : sections ≠ [])
    (screenshots : List Screenshot) :
    anchorScreenshots sections screenshots =
      Buckets.distribute (fun shot => sectionForTimestamp sections shot.msSinceStart)
        sections.length screenshots := by
  have hempty : sections.isEmpty = false := by simpa using h
  rw [anchorScreenshots, hempty, if_neg (by simp), Buckets.distribute, List.map_const']

@[simp] theorem length_anchorScreenshots (sections : List RawSection)
    (screenshots : List Screenshot) :
    (anchorScreenshots sections screenshots).length = sections.length := by
  cases sections with
  | nil => rfl
  | cons s rest => rw [anchorScreenshots_eq (List.cons_ne_nil s rest), Buckets.length_distribute]

/-- Every screenshot is anchored in exactly one section. -/
theorem flatten_anchorScreenshots_perm {sections : List RawSection} (h : sections ≠ [])
    (screenshots : List Screenshot) :
    (anchorScreenshots sections screenshots).flatten.Perm screenshots := by
  rw [anchorScreenshots_eq h]
  exact Buckets.flatten_distribute_perm fun shot _ => sectionForTimestamp_lt h shot.msSinceStart

theorem getElem?_anchorScreenshots {sections : List RawSection}
    (screenshots : List Screenshot) {k : Nat} (hk : k < sections.length) :
    (anchorScreenshots sections screenshots)[k]? =
      some (screenshots.filter fun shot => sectionForTimestamp sections shot.msSinceStart = k) := by
  have hne : sections ≠ [] := fun hnil => by simp [hnil] at hk
  rw [anchorScreenshots_eq hne, Buckets.getElem?_distribute hk]

end ScreenshotAnchoring
end Panops
