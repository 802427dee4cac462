import Mathlib.Data.List.Sort
import Panops.Lib.Machine

/-!
# Speech regions

What voice activity detection returns, and the merging of regions that are close
to each other.
-/

namespace Panops

open Lib.Machine

/-- Detected speech.  Times are `u64` milliseconds. -/
structure SpeechRegion where
  startMs : Nat
  endMs : Nat
deriving DecidableEq

/-- `SpeechRegion::clamp_to`. -/
def SpeechRegion.clampTo (r : SpeechRegion) (ceilingMs : Nat) : SpeechRegion where
  startMs := min r.startMs ceilingMs
  endMs := min r.endMs ceilingMs

namespace Audio

/-- `sort_by_key(|r| r.start_ms)`, which is stable. -/
def sortRegions (regions : List SpeechRegion) : List SpeechRegion :=
  regions.insertionSort fun a b => a.startMs ≤ b.startMs

/-- One round of the loop: the region is joined to the last one or pushed. -/
def mergeStep (gapMs : Nat) (out : List SpeechRegion) (r : SpeechRegion) : List SpeechRegion :=
  match out.getLast? with
  | some last =>
    if r.startMs - last.endMs ≤ gapMs then
      out.dropLast ++ [{ last with endMs := max last.endMs r.endMs }]
    else out ++ [r]
  | none => out ++ [r]

def mergeAdjacentRegions (regions : List SpeechRegion) (gapMs : Nat) : List SpeechRegion :=
  (sortRegions regions).foldl (mergeStep gapMs) []

/-- Regions from left to right, none of them backwards. -/
structure Apart (regions : List SpeechRegion) : Prop where
  ordered : ∀ r ∈ regions, r.startMs ≤ r.endMs
  apart : regions.Pairwise fun a b => a.endMs ≤ b.startMs

theorem mergeStep_concat (gapMs : Nat) (out : List SpeechRegion) (last r : SpeechRegion) :
    mergeStep gapMs (out ++ [last]) r =
      if r.startMs - last.endMs ≤ gapMs then
        out ++ [{ last with endMs := max last.endMs r.endMs }]
      else out ++ [last] ++ [r] := by
  rw [mergeStep, List.getLast?_concat, List.dropLast_concat]

/-- Joining reaches further right and pushing starts past the end, so the regions
stay apart. -/
theorem Apart.mergeStep {out : List SpeechRegion} (h : Apart out) (gapMs : Nat)
    {r : SpeechRegion} (hr : r.startMs ≤ r.endMs) : Apart (mergeStep gapMs out r) := by
  rcases List.eq_nil_or_concat out with rfl | ⟨front, last, rfl⟩
  · exact ⟨by simpa [Audio.mergeStep] using hr, List.pairwise_singleton _ r⟩
  · rw [List.concat_eq_append] at h ⊢
    obtain ⟨hfront, _, hlast⟩ := List.pairwise_append.mp h.apart
    have hstart := h.ordered last (by simp)
    rw [mergeStep_concat]
    split
    · constructor
      · intro x hx
        rcases List.mem_append.mp hx with hx | hx
        · exact h.ordered x (List.mem_append_left _ hx)
        · obtain rfl := List.mem_singleton.mp hx
          show last.startMs ≤ max last.endMs r.endMs
          omega
      · refine List.pairwise_append.mpr ⟨hfront, List.pairwise_singleton _ _, ?_⟩
        intro x hx y hy
        obtain rfl := List.mem_singleton.mp hy
        exact hlast x hx last (List.mem_singleton_self last)
    · next hgap =>
      constructor
      · intro x hx
        rcases List.mem_append.mp hx with hx | hx
        · exact h.ordered x hx
        · rwa [List.mem_singleton.mp hx]
      · refine List.pairwise_append.mpr ⟨h.apart, List.pairwise_singleton _ r, ?_⟩
        intro x hx y hy
        obtain rfl := List.mem_singleton.mp hy
        have hx' : x.endMs ≤ last.endMs := by
          rcases List.mem_append.mp hx with hx | hx
          · have hle := hlast x hx last (List.mem_singleton_self last)
            omega
          · rw [List.mem_singleton.mp hx]
        omega

theorem apart_mergeAdjacentRegions {regions : List SpeechRegion} (gapMs : Nat)
    (h : ∀ r ∈ regions, r.startMs ≤ r.endMs) : Apart (mergeAdjacentRegions regions gapMs) := by
  have hfold : ∀ (rest out : List SpeechRegion), (∀ r ∈ rest, r.startMs ≤ r.endMs) → Apart out →
      Apart (rest.foldl (mergeStep gapMs) out) := by
    intro rest
    induction rest with
    | nil => exact fun _ _ hout => hout
    | cons r rest ih =>
      intro out hrest hout
      exact ih _ (fun x hx => hrest x (List.mem_cons_of_mem r hx))
        (hout.mergeStep gapMs (hrest r List.mem_cons_self))
  refine hfold _ [] (fun r hr => ?_) ⟨by simp, List.Pairwise.nil⟩
  exact h r ((List.mem_insertionSort _).mp hr)

end Audio
end Panops
