import Mathlib.Data.String.Basic
import Panops.Lib.Decimal
import Panops.Lib.Disk

/-!
# Taking screenshots

`ChangeDetector`, `Screenshotter` and `ScreenshotExtractor`: frames that differ
from the last kept one are written under their timestamps, live or from a video.
Vision is a parameter: the print of a frame comes with it, and `near` says whether
two prints are closer than the threshold.
-/

namespace Panops
namespace Capture

open Lib Lib.Decimal

variable {V β : Type}

structure ChangeDetector (V : Type) where
  intervalMs : Nat
  lastSampleMs : Option Nat
  lastKeptVector : Option V

def ChangeDetector.new (intervalMs : Nat) : ChangeDetector V := ⟨max intervalMs 1, none, none⟩

/-- Within `intervalMs` of the last sampled frame. -/
def ChangeDetector.tooSoon (c : ChangeDetector V) (nowMs : Nat) : Bool :=
  match c.lastSampleMs with
  | some last => last ≤ nowMs && nowMs - last < c.intervalMs
  | none => false

def ChangeDetector.shouldKeep (near : V → V → Bool) (c : ChangeDetector V) (nowMs : Nat)
    (featurePrint : Option V) : Bool × ChangeDetector V :=
  if c.tooSoon nowMs then (false, c)
  else
    match featurePrint with
    | none => (false, c)
    | some vector =>
      let c := { c with lastSampleMs := some nowMs }
      match c.lastKeptVector with
      | some prev =>
        if near vector prev then (false, c) else (true, { c with lastKeptVector := some vector })
      | none => (true, { c with lastKeptVector := some vector })

/-- A frame: when it is looked at, its print, its JPEG, and whether the file can
be written. -/
structure Frame (V β : Type) where
  atMs : Nat
  featurePrint : Option V
  jpeg : Option β
  writable : Bool

/-- `String(format: "%09d.jpg", ms)`, where `%d` takes the low 32 bits as a signed
number. -/
def jpgName (ms : Nat) : String :=
  let v := (BitVec.ofNat 32 ms).toInt
  String.ofList (if v < 0 then '-' :: zeroPadded 8 v.natAbs else zeroPadded 9 v.natAbs) ++ ".jpg"

/-- The detector, the disk, and the timestamps and paths of what was kept. -/
structure Shots (V β : Type) where
  detector : ChangeDetector V
  disk : Disk β
  kept : List (Nat × Path)

/-- One frame.  `stamp` is the timestamp of a frame that is kept, unless it
underflows, which ends the process. -/
def keepFrame (near : V → V → Bool) (dir : Path) (stamp : Nat → Option Nat) (s : Shots V β)
    (f : Frame V β) : Option (Shots V β) :=
  match s.detector.shouldKeep near f.atMs f.featurePrint with
  | (false, detector) => some { s with detector := detector }
  | (true, detector) =>
    match stamp f.atMs with
    | none => none
    | some ms =>
      match f.jpeg, f.writable with
      | some jpeg, true =>
        match s.disk.write (dir.join (jpgName ms)) jpeg with
        | (.ok (), disk) =>
          some { detector := detector, disk := disk, kept := s.kept ++ [(ms, dir.join (jpgName ms))] }
        | (.error _, disk) => some { s with detector := detector, disk := disk }
      | _, _ => some { s with detector := detector }

/-! ## Live -/

inductive LiveEvent (V β : Type) where
  | markStarted (atMs : Nat)
  | frame (f : Frame V β)

/-- `startedAtMs == 0 ? 0 : nowMs - startedAtMs`. -/
def liveStamp (startedAtMs nowMs : Nat) : Option Nat :=
  if startedAtMs = 0 then some 0
  else if nowMs < startedAtMs then none
  else some (nowMs - startedAtMs)

/-- `Screenshotter`, with its `startedAtMs`. -/
def screenshotterStep (near : V → V → Bool) (dir : Path) (s : Nat × Shots V β) :
    LiveEvent V β → Option (Nat × Shots V β)
  | .markStarted ms => some (ms, s.2)
  | .frame f => (keepFrame near dir (liveStamp s.1) s.2 f).map fun shots => (s.1, shots)

/-- A directory to write to, created when it is missing. -/
def startShots (dir : Path) (intervalMs : Nat) (d : Disk β) : Option (Shots V β) :=
  match d.createDirAll dir with
  | (.ok (), disk) => some ⟨.new intervalMs, disk, []⟩
  | (.error _, _) => none

/-- A live recording, if it could start and was not ended by an underflow. -/
def screenshotter (near : V → V → Bool) (dir : Path) (intervalMs : Nat) (d : Disk β)
    (events : List (LiveEvent V β)) : Option (Shots V β) := do
  let shots ← startShots dir intervalMs d
  (events.foldlM (screenshotterStep near dir) (0, shots)).map Prod.snd

/-! ## From a video -/

/-- The marks `0, step, 2 * step, …` up to the duration. -/
def sampleTimes (durationMs intervalMs : Nat) : List Nat :=
  let step := max intervalMs 1
  (List.range (durationMs / step + 1)).map (· * step)

/-- `ScreenshotExtractor.extract`.  `image` is the frame decoded for a mark, with
its actual time. -/
def extract (near : V → V → Bool) (dir : Path) (durationMs intervalMs : Nat)
    (image : Nat → Option (Frame V β)) (d : Disk β) : Option (Shots V β) := do
  let shots ← startShots dir 1 d
  ((sampleTimes durationMs intervalMs).filterMap image).foldlM (keepFrame near dir some) shots

/-- A finished recording, live or extracted. -/
def Recorded (near : V → V → Bool) (dir : Path) (d : Disk β) (s : Shots V β) : Prop :=
  (∃ intervalMs events, screenshotter near dir intervalMs d events = some s) ∨
  ∃ durationMs intervalMs image, extract near dir durationMs intervalMs image d = some s

/-! ## What a recording writes -/

/-- The files of the directory are the ones before and the ones kept. -/
structure Wrote (dir : Path) (d : Disk β) (s : Shots V β) : Prop where
  isDir : s.disk.kind dir = some .dir
  named : ∀ shot ∈ s.kept, shot.2 = dir.join (jpgName shot.1)
  files : ∀ name, s.disk.kind (dir.join name) = some .file ↔
    d.kind (dir.join name) = some .file ∨ ∃ shot ∈ s.kept, jpgName shot.1 = name

theorem keepFrame_wrote {near : V → V → Bool} {dir : Path} {stamp : Nat → Option Nat} {d : Disk β}
    {s s' : Shots V β} {f : Frame V β} (hs : Wrote dir d s)
    (h : keepFrame near dir stamp s f = some s') : Wrote dir d s' := by
  have hsame : ∀ detector, Wrote dir d ({ s with detector := detector } : Shots V β) :=
    fun _ => ⟨hs.isDir, hs.named, hs.files⟩
  unfold keepFrame at h
  split at h
  · cases h
    exact hsame _
  split at h
  · cases h
  rename_i ms _
  split at h
  · rename_i jpeg _ _
    rcases Disk.write_cases (dir.join (jpgName ms)) jpeg s.disk with ⟨e, -, hfail⟩ | ⟨hcreate, hok, hnode⟩
    · rw [hfail] at h
      cases h
      exact hsame _
    · cases hwrite : s.disk.write (dir.join (jpgName ms)) jpeg with
      | mk r disk =>
        rw [hwrite] at h hok hnode
        cases r with
        | error e => cases hok
        | ok u =>
          cases h
          simp only at hnode
          have hne : dir ≠ dir.join (jpgName ms) := by
            intro heq
            have hlength := congrArg List.length heq
            simp [Path.join] at hlength
          refine ⟨?_, ?_, ?_⟩
          · rw [Disk.kind_congr ((hnode dir).trans (if_neg hne))]
            exact hs.isDir
          · intro shot hshot
            rcases List.mem_append.mp hshot with hshot | hshot
            · exact hs.named shot hshot
            · rw [List.mem_singleton.mp hshot]
          · intro name
            by_cases hname : name = jpgName ms
            · subst hname
              have hfile : disk.kind (dir.join (jpgName ms)) = some .file := by
                rw [Disk.kind, hnode, if_pos rfl]
                rfl
              simp only [hfile, true_iff]
              exact Or.inr ⟨_, List.mem_append_right _ List.mem_cons_self, rfl⟩
            · have hother : dir.join name ≠ dir.join (jpgName ms) :=
                fun heq => hname (Path.join_right_inj.mp heq)
              rw [Disk.kind_congr ((hnode _).trans (if_neg hother)), hs.files name]
              constructor
              · rintro (hold | ⟨shot, hshot, hshotName⟩)
                · exact Or.inl hold
                · exact Or.inr ⟨shot, List.mem_append_left _ hshot, hshotName⟩
              · rintro (hold | ⟨shot, hshot, hshotName⟩)
                · exact Or.inl hold
                · rcases List.mem_append.mp hshot with hshot | hshot
                  · exact Or.inr ⟨shot, hshot, hshotName⟩
                  · rw [List.mem_singleton.mp hshot] at hshotName
                    exact absurd hshotName.symm hname
  · cases h
    exact hsame _

/-- The directories that `createDirAll` returns with are there. -/
theorem kind_createDirs {done : Path} {names : List String} {d d' : Disk β}
    (hdone : d.kind done = some .dir) (h : d.createDirs done names = (.ok (), d')) :
    d'.kind (done ++ names) = some .dir := by
  induction names generalizing done d with
  | nil =>
    simp only [Disk.createDirs, Prod.mk.injEq, true_and] at h
    subst h
    simpa using hdone
  | cons name rest ih =>
    have hjoin : done ++ name :: rest = done.join name ++ rest := by simp [Path.join]
    rw [hjoin]
    simp only [Disk.createDirs] at h
    split at h
    · rename_i hdir
      exact ih hdir h
    · cases h
    · refine ih ?_ h
      rw [Disk.kind_cons (Path.join_ne_nil done name), if_pos rfl]
      rfl

theorem startShots_wrote {dir : Path} {intervalMs : Nat} {d : Disk β} {s : Shots V β}
    (h : startShots dir intervalMs d = some s) : Wrote dir d s ∧ s.kept = [] := by
  unfold startShots at h
  split at h
  · rename_i disk hcreate
    cases h
    refine ⟨⟨?_, by simp, fun name => ?_⟩, rfl⟩
    · have hroot : d.kind [] = some .dir := rfl
      simpa using kind_createDirs hroot hcreate
    · have hnode := Disk.node_createDirs [] dir d (dir.join name)
      rw [show (Disk.createDirs [] dir d).2 = disk from congrArg Prod.snd hcreate] at hnode
      rcases hnode with hsame | ⟨hnone, hdir⟩
      · simp [Disk.kind, hsame]
      · simp [Disk.kind, hnone, hdir, Node.kind]
  · cases h

theorem foldlM_wrote {near : V → V → Bool} {dir : Path} {stamp : Nat → Option Nat} {d : Disk β}
    (frames : List (Frame V β)) {s s' : Shots V β} (hs : Wrote dir d s)
    (h : frames.foldlM (keepFrame near dir stamp) s = some s') : Wrote dir d s' := by
  induction frames generalizing s with
  | nil =>
    cases h
    exact hs
  | cons f rest ih =>
    rw [List.foldlM_cons] at h
    obtain ⟨s₁, hstep, hrest⟩ := Option.bind_eq_some_iff.mp h
    exact ih (keepFrame_wrote hs hstep) hrest

theorem screenshotterStep_wrote {near : V → V → Bool} {dir : Path} {d : Disk β}
    (events : List (LiveEvent V β)) {s s' : Nat × Shots V β} (hs : Wrote dir d s.2)
    (h : events.foldlM (screenshotterStep near dir) s = some s') : Wrote dir d s'.2 := by
  induction events generalizing s with
  | nil =>
    cases h
    exact hs
  | cons e rest ih =>
    rw [List.foldlM_cons] at h
    obtain ⟨s₁, hstep, hrest⟩ := Option.bind_eq_some_iff.mp h
    refine ih ?_ hrest
    cases e with
    | markStarted ms =>
      cases hstep
      exact hs
    | frame f =>
      obtain ⟨shots, hkeep, rfl⟩ := Option.map_eq_some_iff.mp hstep
      exact keepFrame_wrote hs hkeep

/-- Every recording leaves the files it found and the ones it kept. -/
theorem Recorded.wrote {near : V → V → Bool} {dir : Path} {d : Disk β} {s : Shots V β}
    (h : Recorded near dir d s) : Wrote dir d s := by
  rcases h with ⟨intervalMs, events, hrun⟩ | ⟨durationMs, intervalMs, image, hrun⟩
  · obtain ⟨shots, hstart, hrest⟩ := Option.bind_eq_some_iff.mp hrun
    obtain ⟨last, hfold, rfl⟩ := Option.map_eq_some_iff.mp hrest
    exact screenshotterStep_wrote events (startShots_wrote hstart).1 hfold
  · obtain ⟨shots, hstart, hfold⟩ := Option.bind_eq_some_iff.mp hrun
    exact foldlM_wrote _ (startShots_wrote hstart).1 hfold

/-! ## The order of the names -/

theorem jpgName_eq {ms : Nat} (h : ms < 10 ^ 9) :
    jpgName ms = String.ofList (zeroPadded 9 ms) ++ ".jpg" := by
  have hv : (BitVec.ofNat 32 ms).toInt = ms := by
    have hbound : ms < 1000000000 := h
    rw [BitVec.toInt_eq_toNat_cond, BitVec.toNat_ofNat]
    split <;> omega
  rw [jpgName, hv, if_neg (by omega), Int.natAbs_natCast]

/-- Names of nine digits are in the order of their timestamps. -/
theorem jpgName_lt {a b : Nat} (hb : b < 10 ^ 9) (hab : a < b) : jpgName a < jpgName b := by
  have ha : a < 10 ^ 9 := Nat.lt_trans hab hb
  have hlength : (zeroPadded 9 a).length = (zeroPadded 9 b).length :=
    (length_zeroPadded (Nat.succ_pos 8) ha).trans (length_zeroPadded (Nat.succ_pos 8) hb).symm
  have hvalue : value (zeroPadded 9 a) < value (zeroPadded 9 b) := by
    rw [value_zeroPadded, value_zeroPadded]
    exact hab
  have hlt : zeroPadded 9 a ++ ".jpg".toList < zeroPadded 9 b ++ ".jpg".toList :=
    append_lt_append_of_value_lt _ _ (fun _ => isDigit_of_mem_zeroPadded)
      (fun _ => isDigit_of_mem_zeroPadded) hlength hvalue
  rw [jpgName_eq ha, jpgName_eq hb, String.lt_iff_toList_lt]
  simpa only [String.toList_append, String.toList_ofList] using hlt

end Capture
end Panops
