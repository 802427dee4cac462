import Mathlib.Logic.ExistsUnique
import Panops.Audio.Regions
import Panops.Lib.Clusters
import Panops.Lib.Sorting

/-!
# What merged regions are

Regions are joined along chains whose gaps are at most the given one.  The result has
greater gaps, holds every region once, and is the same for every order of the input.
-/

namespace Panops
namespace Audio

open Lib Lib.Clusters

variable {gapMs : Nat} {regions out : List SpeechRegion}

/-- `out` is what these regions are joined to across gaps of `gapMs`. -/
abbrev JoinedRegions (gapMs : Nat) (regions out : List SpeechRegion) : Prop :=
  Joined SpeechRegion.startMs SpeechRegion.endMs (· + gapMs) regions out

theorem JoinedRegions.mergeStep (h : JoinedRegions gapMs regions out) {r : SpeechRegion}
    (hlast : ∀ x ∈ regions, x.startMs ≤ r.startMs) :
    JoinedRegions gapMs (regions ++ [r]) (mergeStep gapMs out r) := by
  rcases List.eq_nil_or_concat out with rfl | ⟨front, last, rfl⟩
  · exact h.push (by simp)
  · rw [List.concat_eq_append] at h ⊢
    rw [mergeStep_concat]
    split
    · next hgap =>
      refine h.extend hlast ?_ rfl rfl
      show r.startMs ≤ last.endMs + gapMs
      omega
    · next hgap =>
      have hfar : last.endMs + gapMs < r.startMs := by omega
      refine h.push fun o ho => ?_
      rcases List.mem_append.mp ho with ho | ho
      · -- what is apart from the last one is apart from the next
        have hbefore := (List.pairwise_append.mp h.apart).2.2 o ho last
          (List.mem_singleton_self last)
        have hstart := h.start_le (List.mem_append_right _ (List.mem_singleton_self last)) hlast
        show o.endMs + gapMs < r.startMs
        omega
      · rw [List.mem_singleton.mp ho]
        exact hfar

theorem pairwise_sortRegions (regions : List SpeechRegion) :
    (sortRegions regions).Pairwise fun a b => a.startMs ≤ b.startMs :=
  Sorting.pairwise_insertionSort (k := SpeechRegion.startMs) (fun _ _ => Iff.rfl) regions

/-- Region after region, from the earliest start on. -/
theorem joined_mergeAdjacentRegions (regions : List SpeechRegion) (gapMs : Nat) :
    JoinedRegions gapMs (sortRegions regions) (mergeAdjacentRegions regions gapMs) := by
  have hfold : ∀ (rest done out : List SpeechRegion),
      (done ++ rest).Pairwise (fun a b => a.startMs ≤ b.startMs) →
      JoinedRegions gapMs done out →
      JoinedRegions gapMs (done ++ rest) (rest.foldl (Audio.mergeStep gapMs) out) := by
    intro rest
    induction rest with
    | nil => exact fun done out _ h => by simpa using h
    | cons r rest ih =>
      intro done out hsorted h
      have hlast : ∀ x ∈ done, x.startMs ≤ r.startMs := fun x hx =>
        (List.pairwise_append.mp hsorted).2.2 x hx r List.mem_cons_self
      rw [List.append_cons] at hsorted ⊢
      exact ih (done ++ [r]) _ hsorted (h.mergeStep hlast)
  exact hfold (sortRegions regions) [] [] (pairwise_sortRegions regions) joined_nil

theorem joinedRegions_unique {regions' out' : List SpeechRegion}
    (h : JoinedRegions gapMs regions out) (h' : JoinedRegions gapMs regions' out')
    (hmem : ∀ r, r ∈ regions ↔ r ∈ regions') (hord : ∀ r ∈ regions, r.startMs ≤ r.endMs) :
    out = out' := by
  refine h.unique (fun t => Nat.le_add_right t gapMs) (fun s t hst => Nat.add_le_add_right hst gapMs)
    (fun a b hstart hend => ?_) h' hmem hord
  cases a
  cases b
  cases hstart
  cases hend
  rfl

def Contains (o r : SpeechRegion) : Prop := o.startMs ≤ r.startMs ∧ r.endMs ≤ o.endMs

/-- Each region starts at most `gapMs` after the end of the one before it. -/
def GapsAtMost (gapMs : Nat) (chain : List SpeechRegion) : Prop :=
  chain.IsChain fun a b => a.startMs ≤ b.startMs ∧ b.startMs - a.endMs ≤ gapMs

/-- The smallest region around the chain. -/
structure IsHull (chain : List SpeechRegion) (o : SpeechRegion) : Prop where
  contains : ∀ r ∈ chain, Contains o r
  start : ∃ r ∈ chain, r.startMs = o.startMs
  stop : ∃ r ∈ chain, r.endMs = o.endMs

/-- What `merge_adjacent_regions` promises of its result. -/
structure Merged (gapMs : Nat) (regions out : List SpeechRegion) : Prop where
  sorted : out.Pairwise fun a b => a.startMs ≤ b.startMs
  gaps : out.IsChain fun a b => gapMs < b.startMs - a.endMs
  /-- Each region is contained in the region at one place of the result. -/
  contained : ∀ r ∈ regions, ∃! k : Nat, ∃ o, out[k]? = some o ∧ Contains o r
  starts : ∀ o ∈ out, ∃ r ∈ regions, r.startMs = o.startMs
  ends : ∀ o ∈ out, ∃ r ∈ regions, r.endMs = o.endMs
  hulls : ∀ o ∈ out, ∃ chain, chain.Sublist (sortRegions regions) ∧ GapsAtMost gapMs chain ∧
    IsHull chain o

theorem isHull_of_hull {chain : List SpeechRegion} {o : SpeechRegion}
    (h : Hull SpeechRegion.startMs SpeechRegion.endMs (· + gapMs) chain o) :
    GapsAtMost gapMs chain ∧ IsHull chain o := by
  refine ⟨h.linked.imp fun a b hab => ⟨hab.1, ?_⟩, fun r hr => h.inside hr, ?_, ?_⟩
  · have hreach : b.startMs ≤ a.endMs + gapMs := hab.2.2
    omega
  · obtain ⟨r, hr, hstart⟩ := h.first
    exact ⟨r, List.mem_of_head? hr, hstart⟩
  · obtain ⟨r, hr, hend⟩ := h.last
    exact ⟨r, List.mem_of_getLast? hr, hend⟩

theorem merged_of_joined (h : JoinedRegions gapMs (sortRegions regions) out)
    (hord : ∀ r ∈ regions, r.startMs ≤ r.endMs) : Merged gapMs regions out := by
  have hmem : ∀ {r}, r ∈ sortRegions regions ↔ r ∈ regions := List.mem_insertionSort _
  have houts : ∀ o ∈ out, o.startMs ≤ o.endMs := by
    intro o ho
    obtain ⟨chain, hsub, hhull⟩ := h.hull o ho
    exact hhull.ordered fun r hr => hord r (hmem.mp (hsub.subset hr))
  have hpairs : out.Pairwise fun a b => a.endMs + gapMs < b.startMs := h.apart
  constructor
  · refine hpairs.imp_of_mem fun {a b} ha _ hab => ?_
    have hle := houts a ha
    omega
  · refine (hpairs.imp fun {a b} hab => ?_).isChain
    show gapMs < b.startMs - a.endMs
    omega
  · intro r hr
    have hle := hord r hr
    obtain ⟨o, ho, hin⟩ := h.inside r (hmem.mpr hr)
    obtain ⟨k, hk, hget⟩ := List.mem_iff_getElem.mp ho
    refine ⟨k, ⟨o, List.getElem?_eq_some_iff.mpr ⟨hk, hget⟩, hin⟩, fun j hj => ?_⟩
    obtain ⟨o', ho', hstart', hend'⟩ := hj
    obtain ⟨hj, hget'⟩ := List.getElem?_eq_some_iff.mp ho'
    obtain ⟨hstart, hend⟩ : o.startMs ≤ r.startMs ∧ r.endMs ≤ o.endMs := hin
    have hapart := List.pairwise_iff_getElem.mp hpairs
    rcases Nat.lt_trichotomy j k with hlt | heq | hlt
    · have hsep := hapart j k hj hk hlt
      rw [hget, hget'] at hsep
      omega
    · exact heq
    · have hsep := hapart k j hk hj hlt
      rw [hget, hget'] at hsep
      omega
  · intro o ho
    obtain ⟨chain, hsub, hhull⟩ := h.hull o ho
    obtain ⟨r, hr, hstart⟩ := (isHull_of_hull hhull).2.start
    exact ⟨r, hmem.mp (hsub.subset hr), hstart⟩
  · intro o ho
    obtain ⟨chain, hsub, hhull⟩ := h.hull o ho
    obtain ⟨r, hr, hend⟩ := (isHull_of_hull hhull).2.stop
    exact ⟨r, hmem.mp (hsub.subset hr), hend⟩
  · intro o ho
    obtain ⟨chain, hsub, hhull⟩ := h.hull o ho
    exact ⟨chain, hsub, isHull_of_hull hhull⟩

/-- The order of the regions does not matter. -/
theorem mergeAdjacentRegions_perm {regions' : List SpeechRegion}
    (hord : ∀ r ∈ regions, r.startMs ≤ r.endMs) (hperm : regions'.Perm regions) (gapMs : Nat) :
    mergeAdjacentRegions regions' gapMs = mergeAdjacentRegions regions gapMs := by
  have hmem : ∀ {rs r}, r ∈ sortRegions rs ↔ r ∈ rs := List.mem_insertionSort _
  refine joinedRegions_unique (joined_mergeAdjacentRegions regions' gapMs)
    (joined_mergeAdjacentRegions regions gapMs) (fun r => ?_) fun r hr => ?_
  · rw [hmem, hmem]
    exact hperm.mem_iff
  · exact hord r (hperm.mem_iff.mp (hmem.mp hr))

/-- Regions that are merged already are left as they are. -/
theorem mergeAdjacentRegions_idem (hord : ∀ r ∈ regions, r.startMs ≤ r.endMs) (gapMs : Nat) :
    mergeAdjacentRegions (mergeAdjacentRegions regions gapMs) gapMs =
      mergeAdjacentRegions regions gapMs := by
  have hmem : ∀ {rs r}, r ∈ sortRegions rs ↔ r ∈ rs := List.mem_insertionSort _
  refine joinedRegions_unique (joined_mergeAdjacentRegions _ gapMs)
    (joined_self (joined_mergeAdjacentRegions regions gapMs).apart) (fun r => hmem) fun r hr => ?_
  exact (apart_mergeAdjacentRegions gapMs hord).ordered r (hmem.mp hr)

theorem mergeAdjacentRegions_spec (h : ∀ r ∈ regions, r.startMs ≤ r.endMs) (gapMs : Nat) :
    Merged gapMs regions (mergeAdjacentRegions regions gapMs) ∧
      (∀ regions', regions'.Perm regions →
        mergeAdjacentRegions regions' gapMs = mergeAdjacentRegions regions gapMs) ∧
      mergeAdjacentRegions (mergeAdjacentRegions regions gapMs) gapMs =
        mergeAdjacentRegions regions gapMs :=
  ⟨merged_of_joined (joined_mergeAdjacentRegions regions gapMs) h,
    fun _ hperm => mergeAdjacentRegions_perm h hperm gapMs, mergeAdjacentRegions_idem h gapMs⟩

/-- One region inside another, and a third in reach of the outer one only. -/
theorem mergeAdjacentRegions_spec_nested :
    mergeAdjacentRegions [⟨90, 110⟩, ⟨1, 2⟩, ⟨0, 100⟩, ⟨200, 210⟩] 5 = [⟨0, 110⟩, ⟨200, 210⟩] ∧
      Merged 5 [⟨90, 110⟩, ⟨1, 2⟩, ⟨0, 100⟩, ⟨200, 210⟩]
        (mergeAdjacentRegions [⟨90, 110⟩, ⟨1, 2⟩, ⟨0, 100⟩, ⟨200, 210⟩] 5) :=
  ⟨by decide, (mergeAdjacentRegions_spec (by decide) 5).1⟩

end Audio
end Panops
