import Panops.Capture.Screenshots
import Panops.Engine.Screenshots
import Panops.Notes.ScreenshotAnchoring

/-!
# The times of collected screenshots

A recording writes its screenshots under their capture times; the collection
spaces what it finds evenly over the meeting.
-/

namespace Panops
namespace Screenshots

open Lib Capture ScreenshotAnchoring

variable {V : Type}

/-- Every captured file is given the time it was captured at. -/
def TimesAreCaptureTimes (s : Shots V Panops.Bytes) (shots : List Screenshot) : Prop :=
  ∀ shot ∈ shots, ∀ ms, (ms, shot.path) ∈ s.kept → shot.msSinceStart = ms

/-- Whatever the sections are, one after the other: the one during which a file was captured
gets its screenshot. -/
def AnchoredWhereTaken (s : Shots V Panops.Bytes) (shots : List Screenshot) : Prop :=
  ∀ sections : List RawSection,
    sections.Pairwise (fun a b => a.timeRangeMs.2 ≤ b.timeRangeMs.1) →
    ∀ shot ∈ shots, ∀ ms, (ms, shot.path) ∈ s.kept →
    ∀ (k : Nat) (sec : RawSection), sections[k]? = some sec →
      sec.timeRangeMs.1 ≤ ms → ms < sec.timeRangeMs.2 →
      ∃ bucket, (anchorScreenshots sections shots)[k]? = some bucket ∧ shot ∈ bucket

theorem getElem?_ofNames (dir : Path) (durationMs : Nat) (names : List String) (i : Nat) :
    (ofNames dir durationMs names)[i]? =
      names[i]?.map fun name => ⟨i * (durationMs / names.length), dir.join name, none⟩ := by
  rw [ofNames, List.getElem?_mapIdx]

theorem timesAreCaptureTimes_iff {s : Shots V Panops.Bytes} {dir : Path} {d : Disk Panops.Bytes}
    (hs : Wrote dir d s) (durationMs : Nat) (names : List String) :
    TimesAreCaptureTimes s (ofNames dir durationMs names) ↔
      ∀ i : Nat, ∀ shot ∈ s.kept, names[i]? = some (jpgName shot.1) →
        shot.1 = i * (durationMs / names.length) := by
  constructor
  · intro h i shot hshot hname
    have hget : (ofNames dir durationMs names)[i]? =
        some ⟨i * (durationMs / names.length), dir.join (jpgName shot.1), none⟩ := by
      rw [getElem?_ofNames, hname]
      rfl
    refine (h _ (List.mem_of_getElem? hget) shot.1 ?_).symm
    show (shot.1, dir.join (jpgName shot.1)) ∈ s.kept
    rw [← hs.named shot hshot]
    exact hshot
  · intro h shot hshot ms hkept
    obtain ⟨i, hi⟩ := List.mem_iff_getElem?.mp hshot
    rw [getElem?_ofNames] at hi
    obtain ⟨name, hname, rfl⟩ := Option.map_eq_some_iff.mp hi
    have hpath := hs.named _ hkept
    rw [Path.join_right_inj.mp hpath] at hname
    exact (h i _ hkept hname).symm

/-- Of sections that follow each other at most one holds a timestamp. -/
theorem sectionForTimestamp_of_holds {sections : List RawSection}
    (hsections : sections.Pairwise fun a b => a.timeRangeMs.2 ≤ b.timeRangeMs.1) {k ms : Nat}
    {sec : RawSection} (hk : sections[k]? = some sec)
    (hfrom : sec.timeRangeMs.1 ≤ ms) (hto : ms < sec.timeRangeMs.2) :
    sectionForTimestamp sections ms = k := by
  obtain ⟨hlt, rfl⟩ := List.getElem?_eq_some_iff.mp hk
  have hfind : sections.findIdx? (fun s => s.timeRangeMs.1 ≤ ms && ms < s.timeRangeMs.2) =
      some k := by
    refine List.findIdx?_eq_some_iff_getElem.mpr ⟨hlt, by simp [hfrom, hto], fun j hj => ?_⟩
    have hbefore := List.pairwise_iff_getElem.mp hsections j k (Nat.lt_trans hj hlt) hlt hj
    simp only [Bool.and_eq_true, decide_eq_true_eq, not_and, Nat.not_lt]
    intro _
    omega
  rw [sectionForTimestamp, hfind]

theorem mem_bucket_iff {sections : List RawSection} {shots : List Screenshot} {shot : Screenshot}
    (hshot : shot ∈ shots) {k : Nat} (hk : k < sections.length) :
    (∃ bucket, (anchorScreenshots sections shots)[k]? = some bucket ∧ shot ∈ bucket) ↔
      sectionForTimestamp sections shot.msSinceStart = k := by
  rw [getElem?_anchorScreenshots shots hk]
  simp [hshot]

/-- Two short sections tell two times apart. -/
theorem sectionForTimestamp_pair {lo hi : Nat} (hlt : lo < hi) :
    [⟨(lo, lo + 1), []⟩, ⟨(hi, hi + 1), []⟩].Pairwise
        (fun a b : RawSection => a.timeRangeMs.2 ≤ b.timeRangeMs.1) ∧
      sectionForTimestamp [⟨(lo, lo + 1), []⟩, ⟨(hi, hi + 1), []⟩] lo = 0 ∧
      sectionForTimestamp [⟨(lo, lo + 1), []⟩, ⟨(hi, hi + 1), []⟩] hi = 1 := by
  have hpair : [⟨(lo, lo + 1), []⟩, ⟨(hi, hi + 1), []⟩].Pairwise
      (fun a b : RawSection => a.timeRangeMs.2 ≤ b.timeRangeMs.1) := by
    simpa using Nat.succ_le_of_lt hlt
  exact ⟨hpair,
    sectionForTimestamp_of_holds hpair (k := 0) rfl (Nat.le_refl _) (Nat.lt_succ_self _),
    sectionForTimestamp_of_holds hpair (k := 1) rfl (Nat.le_refl _) (Nat.lt_succ_self _)⟩

theorem anchoredWhereTaken_iff {s : Shots V Panops.Bytes} {shots : List Screenshot} :
    AnchoredWhereTaken s shots ↔ TimesAreCaptureTimes s shots := by
  constructor
  · intro h shot hshot ms hkept
    rcases Nat.lt_trichotomy shot.msSinceStart ms with hlt | heq | hlt
    · obtain ⟨hpair, hown, -⟩ := sectionForTimestamp_pair hlt
      have htaken := h _ hpair shot hshot ms hkept 1 _ rfl (Nat.le_refl _) (Nat.lt_succ_self _)
      rw [mem_bucket_iff hshot (by simp), hown] at htaken
      cases htaken
    · exact heq
    · obtain ⟨hpair, -, hown⟩ := sectionForTimestamp_pair hlt
      have htaken := h _ hpair shot hshot ms hkept 0 _ rfl (Nat.le_refl _) (Nat.lt_succ_self _)
      rw [mem_bucket_iff hshot (by simp), hown] at htaken
      cases htaken
  · intro h sections hsections shot hshot ms hkept k sec hk hfrom hto
    rw [mem_bucket_iff hshot (List.getElem?_eq_some_iff.mp hk).1, h shot hshot ms hkept]
    exact sectionForTimestamp_of_holds hsections hk hfrom hto

theorem collectScreenshots_of_wrote {s : Shots V Panops.Bytes} {dir : Path} {d : Disk Panops.Bytes}
    (hs : Wrote dir d s) (durationMs : Nat) :
    collectScreenshots s.disk dir durationMs =
      ofNames dir durationMs ((s.disk.fileNames dir).sort (· ≤ ·)) := if_pos hs.isDir

/-- In a directory of its own a recording is collected in the order of capture. -/
theorem sort_fileNames {s : Shots V Panops.Bytes} {dir : Path} {d : Disk Panops.Bytes}
    (hs : Wrote dir d s) (hfresh : ∀ name, d.kind (dir.join name) ≠ some .file) {times : List Nat}
    (hsorted : times.Pairwise (· < ·)) (hbound : ∀ ms ∈ times, ms < 10 ^ 9)
    (hmem : ∀ ms, ms ∈ times ↔ ∃ shot ∈ s.kept, shot.1 = ms) :
    (s.disk.fileNames dir).sort (· ≤ ·) = times.map jpgName := by
  have hlt : (times.map jpgName).Pairwise (· < ·) := by
    rw [List.pairwise_map]
    exact hsorted.imp_of_mem fun _ hb hab => jpgName_lt (hbound _ hb) hab
  have hset : (times.map jpgName).toFinset = s.disk.fileNames dir := by
    ext name
    rw [List.mem_toFinset, List.mem_map, Disk.mem_fileNames, hs.files name,
      or_iff_right (hfresh name)]
    constructor
    · rintro ⟨ms, hms, rfl⟩
      obtain ⟨shot, hshot, rfl⟩ := (hmem ms).mp hms
      exact ⟨shot, hshot, rfl⟩
    · rintro ⟨shot, hshot, rfl⟩
      exact ⟨shot.1, (hmem _).mpr ⟨shot, hshot, rfl⟩, rfl⟩
  have hnodup : (times.map jpgName).Nodup := hlt.imp ne_of_lt
  rw [← hset]
  exact (List.toFinset_sort _ hnodup).mpr (hlt.imp le_of_lt)

/-- The `i`-th file in the order of the names is given `i` steps, whatever its
name says.  The times are capture times exactly when the files were captured at
those steps, and exactly then every screenshot is anchored where it was taken,
whatever the sections are.  In a directory of its own the order is that of capture. -/
theorem collected_times (near : V → V → Bool) (dir : Path) (d : Disk Panops.Bytes)
    (s : Shots V Panops.Bytes) (h : Recorded near dir d s) (durationMs : Nat) :
    ∃ names : List String, names.Pairwise (· < ·) ∧
      (∀ name, name ∈ names ↔ s.disk.kind (dir.join name) = some .file) ∧
      collectScreenshots s.disk dir durationMs = ofNames dir durationMs names ∧
      (∀ shot ∈ s.kept, ∃ i : Nat, (collectScreenshots s.disk dir durationMs)[i]? =
        some ⟨i * (durationMs / names.length), shot.2, none⟩) ∧
      (TimesAreCaptureTimes s (collectScreenshots s.disk dir durationMs) ↔
        ∀ i : Nat, ∀ shot ∈ s.kept, names[i]? = some (jpgName shot.1) →
          shot.1 = i * (durationMs / names.length)) ∧
      (AnchoredWhereTaken s (collectScreenshots s.disk dir durationMs) ↔
        TimesAreCaptureTimes s (collectScreenshots s.disk dir durationMs)) ∧
      ((∀ name, d.kind (dir.join name) ≠ some .file) → (∀ shot ∈ s.kept, shot.1 < 10 ^ 9) →
        names = ((s.kept.map Prod.fst).toFinset.sort (· ≤ ·)).map jpgName) := by
  have hs := h.wrote
  have hcollect := collectScreenshots_of_wrote hs durationMs
  refine ⟨(s.disk.fileNames dir).sort (· ≤ ·), (Finset.sortedLT_sort _).pairwise, ?_, hcollect, ?_,
    ?_, anchoredWhereTaken_iff, ?_⟩
  · intro name
    rw [Finset.mem_sort, Disk.mem_fileNames]
  · intro shot hshot
    have hfile : jpgName shot.1 ∈ (s.disk.fileNames dir).sort (· ≤ ·) := by
      rw [Finset.mem_sort, Disk.mem_fileNames, hs.files]
      exact Or.inr ⟨shot, hshot, rfl⟩
    obtain ⟨i, hi⟩ := List.mem_iff_getElem?.mp hfile
    refine ⟨i, ?_⟩
    rw [hcollect, getElem?_ofNames, hi, hs.named shot hshot]
    rfl
  · rw [hcollect]
    exact timesAreCaptureTimes_iff hs durationMs _
  · intro hfresh hbound
    refine sort_fileNames hs hfresh (Finset.sortedLT_sort _).pairwise ?_ ?_
    · intro ms hms
      rw [Finset.mem_sort, List.mem_toFinset, List.mem_map] at hms
      obtain ⟨shot, hshot, rfl⟩ := hms
      exact hbound shot hshot
    · intro ms
      rw [Finset.mem_sort, List.mem_toFinset, List.mem_map]

/-! ## A recording with uneven screenshots -/

def frameAt (ms : Nat) : Frame Unit Panops.Bytes := ⟨ms, some (), some [0xFF], true⟩

def shotsDir : Path := ["meeting", "screenshots"]

/-- The screen changes ten seconds into the recording, and not again. -/
def unevenEvents : List (LiveEvent Unit Panops.Bytes) :=
  [.markStarted 1000000, .frame (frameAt 1000000), .frame (frameAt 1010000)]

def unevenShots : Shots Unit Panops.Bytes where
  detector := ⟨500, some 1010000, some ()⟩
  disk :=
    [(shotsDir.join "000010000.jpg", .file [0xFF]), (shotsDir.join "000000000.jpg", .file [0xFF]),
      (shotsDir, .dir), (["meeting"], .dir)]
  kept := [(0, shotsDir.join "000000000.jpg"), (10000, shotsDir.join "000010000.jpg")]

theorem recorded_uneven : Recorded (fun _ _ => false) shotsDir [] unevenShots :=
  Or.inl ⟨500, unevenEvents, rfl⟩

theorem collectScreenshots_uneven : collectScreenshots unevenShots.disk shotsDir 100000 =
    [⟨0, shotsDir.join "000000000.jpg", none⟩, ⟨50000, shotsDir.join "000010000.jpg", none⟩] := by
  have hnames : (unevenShots.disk.fileNames shotsDir).sort (· ≤ ·) = [0, 10000].map jpgName :=
    sort_fileNames recorded_uneven.wrote (by simp [Disk.kind, Disk.node]) (by simp) (by simp)
      (by simp [unevenShots, eq_comm])
  rw [collectScreenshots_of_wrote recorded_uneven.wrote, hnames]
  rfl

/-- Its second screenshot is given the middle of the meeting, which is another
section. -/
theorem not_timesAreCaptureTimes : ∃ s : Shots Unit Panops.Bytes,
    Recorded (fun _ _ => false) shotsDir [] s ∧
    ¬ TimesAreCaptureTimes s (collectScreenshots s.disk shotsDir 100000) ∧
    ∃ shot ∈ collectScreenshots s.disk shotsDir 100000, ∃ ms, (ms, shot.path) ∈ s.kept ∧
      sectionForTimestamp [⟨(0, 30000), []⟩, ⟨(30000, 100000), []⟩] shot.msSinceStart ≠
        sectionForTimestamp [⟨(0, 30000), []⟩, ⟨(30000, 100000), []⟩] ms := by
  refine ⟨unevenShots, recorded_uneven, ?_, ?_⟩
  · intro h
    rw [collectScreenshots_uneven] at h
    have hsecond := h _ (List.mem_cons_of_mem _ List.mem_cons_self) 10000 (by simp [unevenShots])
    cases hsecond
  · rw [collectScreenshots_uneven]
    exact ⟨_, List.mem_cons_of_mem _ List.mem_cons_self, 10000, by simp [unevenShots], by decide⟩

theorem collected_times_uneven : ∃ names : List String,
    collectScreenshots unevenShots.disk shotsDir 100000 = ofNames shotsDir 100000 names ∧
      ∃ i : Nat, (collectScreenshots unevenShots.disk shotsDir 100000)[i]? =
        some ⟨i * (100000 / names.length), shotsDir.join "000010000.jpg", none⟩ := by
  obtain ⟨names, -, -, hcollect, hkept, -⟩ :=
    collected_times _ _ _ unevenShots recorded_uneven 100000
  exact ⟨names, hcollect, hkept (10000, shotsDir.join "000010000.jpg") (by simp [unevenShots])⟩

end Screenshots
end Panops
