import Panops.Engine.Screenshots
import Panops.Export.Assets
import Panops.Notes.TopicGuarantees

/-!
# Regenerating the notes of a meeting

The pipeline behind `notes.generate` reads the screenshots from the directory
that its export copies them to.  When runs over one meeting directory keep
seeing the same screenshots.
-/

namespace Panops

open Lib Lib.Machine

namespace Engine

open Screenshots MarkdownExporter Pipeline TopicSegmentation ScreenshotAnchoring

/-- What may differ from one run over a meeting to the next. -/
structure Request where
  ambient : Ambient
  provider : Provider
  dialect : MarkdownDialect
  startedAt : DateTime
  sourcePath : Option Path
  languageHint : Option String

inductive PipelineError where
  | notes (e : NotesError)
  | exporter (e : ExportError)

section

variable (transcript : List Segment) (durationMs : Nat) (outDir : Path)

def screenshotsDir : Path := outDir.join "screenshots"

def notesInput (req : Request) (d : Disk Panops.Bytes) : NotesInput where
  transcript := transcript
  screenshots := collectScreenshots d (screenshotsDir outDir) durationMs
  meetingMetadata :=
    { startedAt := req.startedAt
      durationMs := durationMs
      sourcePath := req.sourcePath
      languageHint := req.languageHint }

@[simp] theorem screenshots_notesInput (req : Request) (d : Disk Panops.Bytes) :
    (notesInput transcript durationMs outDir req d).screenshots =
      collectScreenshots d (screenshotsDir outDir) durationMs := rfl

/-- `run_notes_pipeline` from the screenshots on. -/
def runNotesPipeline (req : Request) (d : Disk Panops.Bytes) :
    Except PipelineError ExportArtifact × Disk Panops.Bytes :=
  match generate req.ambient req.provider req.dialect
      (notesInput transcript durationMs outDir req d) with
  | .error e => (.error (.notes e), d)
  | .ok notes => ((exportNotes notes outDir d).1.mapError .exporter, (exportNotes notes outDir d).2)

/-- The disks that runs over the meeting can lead to, whether they succeed or
fail. -/
inductive Reaches (d₀ : Disk Panops.Bytes) : Disk Panops.Bytes → Prop
  | refl : Reaches d₀ d₀
  | run {d : Disk Panops.Bytes} (req : Request) :
      Reaches d₀ d → Reaches d₀ (runNotesPipeline transcript durationMs outDir req d).2

/-- Where a screenshot is copied to. -/
def copyPath (order : HashOrder UInt32 Nat) (shot : Screenshot) : Path :=
  (screenshotsDir outDir).join (uniqueName
    (sectionIndex (sectionForTimestamp (segmentTopics order transcript .default) shot.msSinceStart))
    shot)

/-- A meeting directory whose screenshots are files. -/
structure MeetingDir (d : Disk Panops.Bytes) : Prop where
  isDir : d.kind outDir = some .dir
  /-- A file has a directory around it. -/
  parent : ∀ name, d.kind ((screenshotsDir outDir).join name) = some .file →
    d.kind (screenshotsDir outDir) = some .dir
  onlyFiles : ∀ name, d.kind ((screenshotsDir outDir).join name) ≠ some .dir

end

variable {transcript : List Segment} {durationMs : Nat} {outDir : Path}

/-! ## One run -/

/-- The pipeline leaves the disk alone or exports notes of its input. -/
theorem runNotesPipeline_cases (transcript : List Segment) (durationMs : Nat) (outDir : Path)
    (req : Request) (d : Disk Panops.Bytes) :
    (runNotesPipeline transcript durationMs outDir req d).2 = d ∨
      ∃ notes, notes = notesOf req.ambient req.provider req.dialect
          (notesInput transcript durationMs outDir req d) ∧ transcript ≠ [] ∧
        (runNotesPipeline transcript durationMs outDir req d).2 =
          (Script.runAll .io (exportActs notes outDir) d).2 := by
  unfold runNotesPipeline
  cases hgen : generate req.ambient req.provider req.dialect
      (notesInput transcript durationMs outDir req d) with
  | error e => exact Or.inl rfl
  | ok notes =>
    obtain ⟨hne, hnotes⟩ := eq_notesOf_of_generate hgen
    exact Or.inr ⟨notes, hnotes, hne, (follows_exportNotes notes outDir).snd d⟩

theorem kind_runNotesPipeline_of_kind (req : Request) {d : Disk Panops.Bytes} {q : Path} {k : Kind}
    (h : d.kind q = some k) :
    (runNotesPipeline transcript durationMs outDir req d).2.kind q = some k := by
  rcases runNotesPipeline_cases transcript durationMs outDir req d with hsame | hexport
  · rw [hsame, h]
  · obtain ⟨notes, _, _, hrun⟩ := hexport
    rw [hrun]
    exact Script.kind_runAll_of_kind h

/-- A run copies what it collected, each screenshot to its `copyPath`. -/
theorem mem_exportedCopies_run (order : HashOrder UInt32 Nat) (hne : transcript ≠ [])
    (req : Request) (d : Disk Panops.Bytes) {c : Path × Path} :
    c ∈ exportedCopies (notesOf req.ambient req.provider req.dialect
        (notesInput transcript durationMs outDir req d)) outDir ↔
      ∃ shot ∈ collectScreenshots d (screenshotsDir outDir) durationMs,
        c = (shot.path, copyPath transcript outDir order shot) := by
  have hclamp : clampScreenshots durationMs
      (collectScreenshots d (screenshotsDir outDir) durationMs) =
      collectScreenshots d (screenshotsDir outDir) durationMs :=
    clampScreenshots_eq_self fun shot hshot => (exists_of_mem_collectScreenshots hshot).2.2
  have hperm : (exportedScreenshots req.ambient
      (notesInput transcript durationMs outDir req d)).Perm
        (collectScreenshots d (screenshotsDir outDir) durationMs) := by
    have hflat : (exportedScreenshots req.ambient
        (notesInput transcript durationMs outDir req d)).Perm (clampScreenshots durationMs
          (collectScreenshots d (screenshotsDir outDir) durationMs)) :=
      flatten_anchorScreenshots_perm (topics_ne_nil hne) _
    rwa [hclamp] at hflat
  have hpath : ∀ shot, assetPath req.ambient (notesInput transcript durationMs outDir req d) outDir
      shot = copyPath transcript outDir order shot := by
    intro shot
    have htopics : topics req.ambient (notesInput transcript durationMs outDir req d) =
        segmentTopics order transcript .default := segmentTopics_default_eq transcript order _
    rw [assetPath, htopics]
    rfl
  rw [exportedCopies_notesOf, List.mem_map]
  simp only [hpath, hperm.mem_iff, eq_comm]

/-- The copy of every collected screenshot is already a file of the directory. -/
def CopiesCaptured (transcript : List Segment) (durationMs : Nat) (outDir : Path)
    (order : HashOrder UInt32 Nat) (d : Disk Panops.Bytes) : Prop :=
  ∀ shot ∈ collectScreenshots d (screenshotsDir outDir) durationMs,
    d.kind (copyPath transcript outDir order shot) = some .file

/-- The same files among the screenshots, and no directory lost. -/
structure SameCaptures (outDir : Path) (d₀ d : Disk Panops.Bytes) : Prop where
  files : ∀ name, d.kind ((screenshotsDir outDir).join name) = some .file ↔
    d₀.kind ((screenshotsDir outDir).join name) = some .file
  dirs : ∀ q, d₀.kind q = some .dir → d.kind q = some .dir

theorem SameCaptures.collect_eq {d₀ d : Disk Panops.Bytes} (h : SameCaptures outDir d₀ d)
    (hdir : MeetingDir outDir d₀) (durationMs : Nat) :
    collectScreenshots d (screenshotsDir outDir) durationMs =
      collectScreenshots d₀ (screenshotsDir outDir) durationMs := by
  have hnames : d.fileNames (screenshotsDir outDir) = d₀.fileNames (screenshotsDir outDir) := by
    ext name
    rw [Disk.mem_fileNames, Disk.mem_fileNames, h.files]
  unfold collectScreenshots
  rw [hnames]
  by_cases hshots : d₀.kind (screenshotsDir outDir) = some .dir
  · rw [if_pos hshots, if_pos (h.dirs _ hshots)]
  · -- without the directory there is no file either
    have hempty : d₀.fileNames (screenshotsDir outDir) = ∅ := by
      refine Finset.eq_empty_of_forall_notMem fun name hname => hshots ?_
      exact hdir.parent name (Disk.mem_fileNames.mp hname)
    rw [if_neg hshots, hempty, Finset.sort_empty]
    split <;> rfl

/-- A run whose copies are captured files adds no file to the screenshots. -/
theorem SameCaptures.run {order : HashOrder UInt32 Nat} {d₀ d : Disk Panops.Bytes}
    (h : SameCaptures outDir d₀ d) (hdir : MeetingDir outDir d₀)
    (hcopies : CopiesCaptured transcript durationMs outDir order d₀) (req : Request) :
    SameCaptures outDir d₀ (runNotesPipeline transcript durationMs outDir req d).2 := by
  refine ⟨fun name => ⟨fun hfile => ?_, fun hfile => ?_⟩, fun q hq => ?_⟩
  · rcases runNotesPipeline_cases transcript durationMs outDir req d with hsame | hexport
    · rw [hsame] at hfile
      exact (h.files name).mp hfile
    · obtain ⟨notes, rfl, hne, hrun⟩ := hexport
      rw [hrun] at hfile
      rcases Script.kind_of_kind_runAll hfile with hwas | ⟨a, ha, htarget⟩
      · exact (h.files name).mp hwas
      · rcases target_of_mem_exportActs ha htarget with hnotes | ⟨c, hc, htarget⟩
        · have hlen := congrArg List.length hnotes
          simp [screenshotsDir, Path.join] at hlen
        · obtain ⟨shot, hshot, rfl⟩ := (mem_exportedCopies_run order hne req d).mp hc
          rw [h.collect_eq hdir] at hshot
          rw [← htarget]
          exact hcopies shot hshot
  · exact kind_runNotesPipeline_of_kind req ((h.files name).mpr hfile)
  · exact kind_runNotesPipeline_of_kind req (h.dirs q hq)

theorem sameCaptures_of_reaches {order : HashOrder UInt32 Nat} {d₀ d : Disk Panops.Bytes}
    (hdir : MeetingDir outDir d₀) (hcopies : CopiesCaptured transcript durationMs outDir order d₀)
    (h : Reaches transcript durationMs outDir d₀ d) : SameCaptures outDir d₀ d := by
  induction h with
  | refl => exact ⟨fun _ => Iff.rfl, fun _ hq => hq⟩
  | run req _ ih => exact ih.run hdir hcopies req

/-! ## A run that adds a file -/

def textRequest : Request where
  ambient := .fixed
  provider := textProvider
  dialect := .basic
  startedAt := ⟨"2026-05-01", "2026-05-01T10:00:00+00:00"⟩
  sourcePath := none
  languageHint := none

/-- In a meeting directory a run with a provider that answers creates every
copy. -/
theorem kind_copyPath_run (order : HashOrder UInt32 Nat) (hne : transcript ≠ [])
    {d : Disk Panops.Bytes} (hdir : MeetingDir outDir d) {shot : Screenshot}
    (hshot : shot ∈ collectScreenshots d (screenshotsDir outDir) durationMs) :
    (runNotesPipeline transcript durationMs outDir textRequest d).2.kind
      (copyPath transcript outDir order shot) = some .file := by
  let notes := notesOf textRequest.ambient textRequest.provider textRequest.dialect
    (notesInput transcript durationMs outDir textRequest d)
  have hgen : generate textRequest.ambient textRequest.provider textRequest.dialect
      (notesInput transcript durationMs outDir textRequest d) = .ok notes :=
    generate_textProvider .fixed .basic hne
  have hrun : (runNotesPipeline transcript durationMs outDir textRequest d).2 =
      (Script.runAll .io (exportActs notes outDir) d).2 := by
    rw [← (follows_exportNotes notes outDir).snd d, runNotesPipeline, hgen]
  have hcopies : ∀ c ∈ exportedCopies notes outDir, d.kind c.1 = some .file ∧
      d.kind c.2 ≠ some .dir := by
    intro c hc
    obtain ⟨other, hother, rfl⟩ := (mem_exportedCopies_run order hne textRequest d).mp hc
    exact ⟨(exists_of_mem_collectScreenshots hother).2.1, hdir.onlyFiles _⟩
  have hok : (Script.runAll .io (assetActs notes outDir) d).1 = .ok () :=
    Script.runAll_of_enabled (enabled_assetActs hdir.isDir
      (exists_of_mem_collectScreenshots hshot).1 (fun c hc => (hcopies c hc).1)
      fun c hc => (hcopies c hc).2)
  have hmem : (shot.path, copyPath transcript outDir order shot) ∈
      Script.copiesOf (assetActs notes outDir) := by
    rw [copiesOf_assetActs fun err => Script.fail_not_mem_of_runAll hok err]
    exact (mem_exportedCopies_run order hne textRequest d).mpr ⟨shot, hshot, rfl⟩
  obtain ⟨a, ha, _, htarget⟩ := Script.exists_target_of_mem_copiesOf hmem
  rw [hrun, exportActs, Script.runAll_append]
  have hfile := Script.kind_target_runAll hok ha htarget
  cases hrest : Script.runAll .io (assetActs notes outDir) d with
  | mk result d' =>
    rw [hrest] at hok hfile
    obtain rfl : result = .ok () := hok
    exact Script.kind_runAll_of_kind hfile

/-- A copy that is not a captured file is collected by the next run. -/
theorem copiesCaptured_of_collect_eq {order : HashOrder UInt32 Nat} (hne : transcript ≠ [])
    {d : Disk Panops.Bytes} (hdir : MeetingDir outDir d)
    (h : collectScreenshots (runNotesPipeline transcript durationMs outDir textRequest d).2
        (screenshotsDir outDir) durationMs =
      collectScreenshots d (screenshotsDir outDir) durationMs) :
    CopiesCaptured transcript durationMs outDir order d := by
  intro shot hshot
  have hfile := kind_copyPath_run order hne hdir hshot
  have hshots := (exists_of_mem_collectScreenshots hshot).1
  have hseen : copyPath transcript outDir order shot ∈ (collectScreenshots
      (runNotesPipeline transcript durationMs outDir textRequest d).2 (screenshotsDir outDir)
      durationMs).map Screenshot.path :=
    mem_map_path_collectScreenshots.mpr ⟨kind_runNotesPipeline_of_kind _ hshots, hfile⟩
  rw [h] at hseen
  exact (mem_map_path_collectScreenshots.mp hseen).2

/-! ## A meeting with one captured file -/

/-- A meeting directory with one file among its screenshots. -/
def captureDisk (name : String) : Disk Panops.Bytes :=
  [(["m"], .dir), (["m", "screenshots"], .dir), (["m", "screenshots", name], .file [1])]

theorem kind_captureDisk (captured name : String) :
    (captureDisk captured).kind ((screenshotsDir ["m"]).join name) =
      if name = captured then some .file else none := by
  by_cases h : name = captured
  · simp [h, captureDisk, screenshotsDir, Path.join, Disk.kind, Disk.node, List.lookup_cons,
      Node.kind]
  · simp [h, captureDisk, screenshotsDir, Path.join, Disk.kind, Disk.node, List.lookup_cons,
      beq_false_of_ne h]

theorem meetingDir_captureDisk (captured : String) : MeetingDir ["m"] (captureDisk captured) where
  isDir := rfl
  parent := fun _ _ => rfl
  onlyFiles := by
    intro name
    rw [kind_captureDisk]
    split <;> simp

theorem collectScreenshots_captureDisk (captured : String) :
    collectScreenshots (captureDisk captured) (screenshotsDir ["m"]) 100000 =
      [⟨0, (screenshotsDir ["m"]).join captured, none⟩] := by
  have hnames : (captureDisk captured).fileNames (screenshotsDir ["m"]) = {captured} := by
    ext name
    rw [Disk.mem_fileNames, kind_captureDisk, Finset.mem_singleton]
    simp
  have hdir : (captureDisk captured).kind (screenshotsDir ["m"]) = some .dir := rfl
  unfold collectScreenshots
  rw [if_pos hdir, hnames, Finset.sort_singleton]
  simp [ofNames]

theorem copiesCaptured_captureDisk (captured : String) :
    CopiesCaptured (manyTopics 1) 100000 ["m"] (.insertion _ _) (captureDisk captured) ↔
      uniqueName 1 ⟨0, (screenshotsDir ["m"]).join captured, none⟩ = captured := by
  have htopics : segmentTopics (.insertion _ _) (manyTopics 1) .default =
      [sectionOf (manyTopics 1) [0]] := segmentTopics_singleton _ .default (utterance 0 50000)
  rw [CopiesCaptured, collectScreenshots_captureDisk, List.forall_mem_singleton, copyPath, htopics,
    sectionForTimestamp_singleton, kind_captureDisk]
  simp [sectionIndex, u32Max]

/-- The runs over a meeting see the screenshots of the first one exactly when the
copy of every captured file is a captured file. -/
theorem regeneration_stable_iff (order : HashOrder UInt32 Nat) (hne : transcript ≠ [])
    (durationMs : Nat) {d₀ : Disk Panops.Bytes} (hdir : MeetingDir outDir d₀) :
    (∀ d req, Reaches transcript durationMs outDir d₀ d →
        (notesInput transcript durationMs outDir req d).screenshots =
          collectScreenshots d₀ (screenshotsDir outDir) durationMs) ↔
      CopiesCaptured transcript durationMs outDir order d₀ := by
  constructor
  · intro h
    exact copiesCaptured_of_collect_eq hne hdir (h _ textRequest (.run textRequest .refl))
  · intro h d req hreach
    exact (sameCaptures_of_reaches hdir h hreach).collect_eq hdir durationMs

/-- A meeting without captures. -/
def audioOnlyDisk : Disk Panops.Bytes := [(["m"], .dir)]

theorem kind_audioOnlyDisk_screenshots : audioOnlyDisk.kind (screenshotsDir ["m"]) = none := rfl

theorem kind_audioOnlyDisk_join (name : String) :
    audioOnlyDisk.kind ((screenshotsDir ["m"]).join name) = none := rfl

theorem meetingDir_audioOnlyDisk : MeetingDir ["m"] audioOnlyDisk where
  isDir := rfl
  parent := by
    intro name hfile
    rw [kind_audioOnlyDisk_join] at hfile
    cases hfile
  onlyFiles := by
    intro name
    rw [kind_audioOnlyDisk_join]
    simp

theorem collectScreenshots_audioOnlyDisk (durationMs : Nat) :
    collectScreenshots audioOnlyDisk (screenshotsDir ["m"]) durationMs = [] := by
  unfold collectScreenshots
  rw [if_neg (by rw [kind_audioOnlyDisk_screenshots]; simp)]

theorem regeneration_stable_audioOnly :
    MeetingDir ["m"] audioOnlyDisk ∧
    ∀ d req, Reaches (manyTopics 2) 200000 ["m"] audioOnlyDisk d →
      (notesInput (manyTopics 2) 200000 ["m"] req d).screenshots = [] := by
  have hcopies : CopiesCaptured (manyTopics 2) 200000 ["m"] (.insertion _ _) audioOnlyDisk := by
    intro shot hshot
    rw [collectScreenshots_audioOnlyDisk] at hshot
    cases hshot
  have hstable := (regeneration_stable_iff (.insertion _ _) (List.cons_ne_nil _ _) 200000
    meetingDir_audioOnlyDisk).mpr hcopies
  rw [collectScreenshots_audioOnlyDisk] at hstable
  exact ⟨meetingDir_audioOnlyDisk, hstable⟩

/-- The second run collects the copy that the first one made. -/
theorem regeneration_recollects :
    MeetingDir ["m"] (captureDisk "000000000.jpg") ∧
    (∃ notes, generate .fixed textProvider .basic
      (notesInput (manyTopics 1) 100000 ["m"] textRequest (captureDisk "000000000.jpg")) =
        .ok notes) ∧
    ∃ d, Reaches (manyTopics 1) 100000 ["m"] (captureDisk "000000000.jpg") d ∧
      (notesInput (manyTopics 1) 100000 ["m"] textRequest d).screenshots ≠
        (notesInput (manyTopics 1) 100000 ["m"] textRequest
          (captureDisk "000000000.jpg")).screenshots := by
  have hdir := meetingDir_captureDisk "000000000.jpg"
  refine ⟨hdir, ⟨_, generate_textProvider .fixed .basic (List.cons_ne_nil _ _)⟩, _,
    .run textRequest .refl, fun heq => ?_⟩
  rw [screenshots_notesInput, screenshots_notesInput] at heq
  have hne : manyTopics 1 ≠ [] := List.cons_ne_nil _ _
  have hcaptured : CopiesCaptured (manyTopics 1) 100000 ["m"] (.insertion _ _)
      (captureDisk "000000000.jpg") := copiesCaptured_of_collect_eq hne hdir heq
  have hcopies := (copiesCaptured_captureDisk "000000000.jpg").mp hcaptured
  have hname : uniqueName 1 ⟨0, (screenshotsDir ["m"]).join "000000000.jpg", none⟩ =
      "section01_00000000.jpg" := by rfl
  rw [hname] at hcopies
  simp at hcopies

end Engine
end Panops
