import Mathlib.Data.Finset.Sort
import Mathlib.Data.String.Basic
import Panops.Export.Markdown

/-!
# Collecting screenshots

The files of a directory in the order of their names, with evenly spaced
timestamps.
-/

namespace Panops

open Lib

namespace Screenshots

/-- The screenshots with these file names. -/
def ofNames (dir : Path) (durationMs : Nat) (names : List String) : List Screenshot :=
  let step := durationMs / names.length
  names.mapIdx fun i name =>
    { msSinceStart := i * step, path := dir.join name, caption := none }

/-- A directory that cannot be read has no screenshots. -/
def collectScreenshots (d : Disk Bytes) (dir : Path) (durationMs : Nat) : List Screenshot :=
  if d.kind dir = some .dir then ofNames dir durationMs ((d.fileNames dir).sort (· ≤ ·)) else []

theorem map_path_ofNames (dir : Path) (durationMs : Nat) (names : List String) :
    (ofNames dir durationMs names).map Screenshot.path = names.map dir.join := by
  apply List.ext_getElem?
  intro i
  rw [ofNames, List.getElem?_map, List.getElem?_mapIdx, List.getElem?_map, Option.map_map]
  rfl

/-- The timestamps stay within the meeting. -/
theorem msSinceStart_le {dir : Path} {durationMs : Nat} {names : List String} {shot : Screenshot}
    (h : shot ∈ ofNames dir durationMs names) : shot.msSinceStart ≤ durationMs := by
  obtain ⟨i, hi, rfl⟩ := List.mem_mapIdx.mp h
  show i * (durationMs / names.length) ≤ durationMs
  calc i * (durationMs / names.length) ≤ names.length * (durationMs / names.length) :=
        Nat.mul_le_mul_right _ (Nat.le_of_lt hi)
    _ ≤ durationMs := Nat.mul_div_le durationMs names.length

theorem mem_map_path_collectScreenshots {d : Disk Bytes} {dir : Path} {durationMs : Nat}
    {name : String} :
    dir.join name ∈ (collectScreenshots d dir durationMs).map Screenshot.path ↔
      d.kind dir = some .dir ∧ d.kind (dir.join name) = some .file := by
  unfold collectScreenshots
  split
  · next hdir =>
    rw [map_path_ofNames, List.mem_map]
    simp [hdir, Disk.mem_fileNames]
  · next hdir => simp [hdir]

/-- A collected screenshot is a file of the directory. -/
theorem exists_of_mem_collectScreenshots {d : Disk Bytes} {dir : Path} {durationMs : Nat}
    {shot : Screenshot} (h : shot ∈ collectScreenshots d dir durationMs) :
    d.kind dir = some .dir ∧ d.kind shot.path = some .file ∧
      shot.msSinceStart ≤ durationMs := by
  unfold collectScreenshots at h
  split at h
  · next hdir =>
    refine ⟨hdir, ?_, msSinceStart_le h⟩
    have hpath := List.mem_map_of_mem (f := Screenshot.path) h
    rw [map_path_ofNames] at hpath
    obtain ⟨name, hname, heq⟩ := List.mem_map.mp hpath
    rw [← heq]
    exact Disk.mem_fileNames.mp ((Finset.mem_sort _).mp hname)
  · simp at h

end Screenshots
end Panops
