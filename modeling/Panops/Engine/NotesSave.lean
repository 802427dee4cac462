import Panops.Engine.Registration
import Panops.Storage.Atomicity

/-!
# `notes.save`

A file beside `notes.md`, a rename, and one row of the registry.  Each of them may
fail, and what was done before stays done.
-/

namespace Panops
namespace Engine

open Lib.Symlinks Lib.Database Storage

/-- `Uuid::new_v4()` as it is displayed. -/
def Uuid.hyphenated (id : Uuid) : String :=
  let digits := id.text.toList
  String.ofList (digits.take 8 ++ '-' :: (digits.drop 8).take 4 ++
    '-' :: (digits.drop 12).take 4 ++ '-' :: (digits.drop 16).take 4 ++ '-' :: digits.drop 20)

/-- What a call of `notes.save` meets: the ids it draws, what fails, and what others
do to the registry before it comes to the rows. -/
structure SaveRun where
  fileId : Uuid
  noteId : Uuid
  ambient : Ambient
  readFaults : List (Option String)
  openFails : Bool
  /-- How many bytes the file takes, when it does not take all. -/
  room : Option Nat
  renameFails : Bool
  others : Tables → Tables
  rowFaults : List (Option String)

/-- The bytes that come into the file. -/
def SaveRun.taken (run : SaveRun) (bytes : Bytes) : Bytes :=
  match run.room with
  | none => bytes
  | some n => bytes.take n

def SaveRun.tempName (run : SaveRun) : String := "notes.md." ++ run.fileId.hyphenated ++ ".partial"

/-- `fs::write`.  What was written before it fails stays in the file. -/
def writeFile (t : Tree OsStr Bytes) (p : PathBuf) (bytes : Bytes) (run : SaveRun) :
    Except Errno Unit × Tree OsStr Bytes :=
  if run.openFails then (.error .einval, t)
  else
    match write t p (run.taken bytes) with
    | .error e => (.error e, t)
    | .ok t' => (if run.taken bytes = bytes then .ok () else .error .einval, t')

/-- `fs::rename`. -/
def renameFile (t : Tree OsStr Bytes) (p q : PathBuf) (run : SaveRun) :
    Except Errno (Tree OsStr Bytes) :=
  if run.renameFails then .error .einval else rename t p q

def noteDraft (meetingId markdown : String) (notesPath : PathBuf) (run : SaveRun) : NoteDraft where
  id := run.noteId.text
  meetingId := meetingId
  dialect := "basic"
  contentMd := markdown
  primaryPath := notesPath.toStringLossy

/-- The file is written beside `notes.md` and takes its place. -/
def saveFile (t : Tree OsStr Bytes) (dir : PathBuf) (markdown : String) (run : SaveRun) :
    Except IpcError Unit × Tree OsStr Bytes :=
  match writeFile t (dir.join run.tempName) (asBytes markdown) run with
  | (.error _, t') => (.error (.internal "write notes.md failed"), t')
  | (.ok (), t') =>
    match renameFile t' (dir.join run.tempName) (dir.join "notes.md") run with
    | .error _ => (.error (.internal "save notes.md failed"), t')
    | .ok t'' => (.ok (), t'')

def notesSave (dataDir : PathBuf) (meetingId markdown : String) (run : SaveRun)
    (s : Registered Bytes) : Except IpcError Unit × Registered Bytes :=
  match (RusqliteStorage.getMeeting meetingId ⟨s.tables, run.readFaults⟩).1 with
  | .error e => (.error (.ofStorageError e), s)
  | .ok m =>
    match validateMeetingDir s.tree dataDir m.dirPath with
    | .error e => (.error e, s)
    | .ok dir =>
      match saveFile s.tree dir markdown run with
      | (.error e, tree) => (.error e, { s with tree := tree })
      | (.ok (), tree) =>
        match RusqliteStorage.replaceMeetingNote run.ambient meetingId
            (noteDraft meetingId markdown (dir.join "notes.md") run)
            ⟨run.others s.tables, run.rowFaults⟩ with
        | (.error e, session) => (.error (.ofStorageError e), ⟨session.tables, tree⟩)
        | (.ok _, session) => (.ok (), ⟨session.tables, tree⟩)

/-! ## What a failure may leave -/

def notesMd (D : Location OsStr) : Location OsStr := D ++ [OsStr.ofString "notes.md"]

def SaveRun.temp (run : SaveRun) (D : Location OsStr) : Location OsStr :=
  D ++ [OsStr.ofString run.tempName]

/-- The rows are as they were, or as others have made them since; `notes.md` is as
it was; and there is no `.partial` file in the directory that was not there. -/
structure AsBefore (dataDir : PathBuf) (meetingId : String) (run : SaveRun)
    (s s' : Registered Bytes) : Prop where
  rows : s'.tables = s.tables ∨ s'.tables = run.others s.tables
  notes : ∀ dir D, registeredDir s dataDir meetingId = .ok dir → InDir s.tree dir D →
    s'.tree.entry (notesMd D) = s.tree.entry (notesMd D)
  files : ∀ dir D, registeredDir s dataDir meetingId = .ok dir → InDir s.tree dir D →
    ∀ name, OsStr.ofString ".partial" <:+ name → s'.tree.entry (D ++ [name]) ≠ none →
      s.tree.entry (D ++ [name]) ≠ none

/-- The row can be replaced in these tables. -/
structure Replaceable (meetingId : String) (run : SaveRun) (t : Tables) : Prop where
  statements : Db.Clean 5 run.rowFaults
  meeting : t.hasMeeting meetingId = true
  id : ∀ note ∈ t.note, note.meetingId ≠ meetingId → note.id ≠ run.noteId.text

/-- When it comes to the file, that is written whole and renamed; and the row is
replaced, unless `notes.md` held the same before. -/
def SaveSound (dataDir : PathBuf) (meetingId markdown : String) (run : SaveRun)
    (s : Registered Bytes) : Prop :=
  ∀ dir D, Db.Clean 1 run.readFaults → registeredDir s dataDir meetingId = .ok dir →
    InDir s.tree dir D → run.openFails = false →
      run.taken (asBytes markdown) = asBytes markdown ∧ run.renameFails = false ∧
      s.tree.entry (notesMd D) ≠ some .dir ∧
      (Replaceable meetingId run (run.others s.tables) ∨
        s.tree.entry (notesMd D) = some (.file (asBytes markdown)))

theorem Uuid.mem_hyphenated (id : Uuid) {c : Char} (h : c ∈ id.hyphenated.toList) :
    c ∈ id.text.toList ∨ c = '-' := by
  unfold Uuid.hyphenated at h
  simp only [String.toList_ofList, List.mem_append, List.mem_cons, or_assoc] at h
  rcases h with h | h | h | h | h | h | h | h | h
  · exact Or.inl (List.mem_of_mem_take h)
  · exact Or.inr h
  · exact Or.inl (List.mem_of_mem_drop (List.mem_of_mem_take h))
  · exact Or.inr h
  · exact Or.inl (List.mem_of_mem_drop (List.mem_of_mem_take h))
  · exact Or.inr h
  · exact Or.inl (List.mem_of_mem_drop (List.mem_of_mem_take h))
  · exact Or.inr h
  · exact Or.inl (List.mem_of_mem_drop h)

theorem isFileName_notes : IsFileName "notes.md" where
  no_slash := by decide
  toPiece := by decide
  no_nul := by decide

/-- A slash or a zero is in none of the parts of the name. -/
theorem SaveRun.not_mem_tempName (run : SaveRun) {c : Char}
    (hc : (c.isDigit = false ∧ c ∉ ['a', 'b', 'c', 'd', 'e', 'f']) ∧ c ≠ '-' ∧
      c ∉ "notes.md.".toList ∧ c ∉ ".partial".toList) :
    .char c ∉ OsStr.ofString run.tempName := by
  intro hmem
  obtain ⟨c', hc', heq⟩ := List.mem_map.mp hmem
  obtain rfl := OsChar.char.inj heq
  unfold SaveRun.tempName at hc'
  rw [String.toList_append, String.toList_append, List.mem_append, List.mem_append] at hc'
  rcases hc' with (hpre | hid) | hpost
  · exact hc.2.2.1 hpre
  · rcases run.fileId.mem_hyphenated hid with hdigit | hdash
    · have hnone := run.fileId.not_mem hc.1
      rw [List.contains_iff_mem.mpr hdigit] at hnone
      cases hnone
    · exact hc.2.1 hdash
  · exact hc.2.2.2 hpost

theorem SaveRun.isFileName (run : SaveRun) : IsFileName run.tempName where
  no_slash := run.not_mem_tempName (by decide)
  toPiece := by
    have hlength : 2 < (OsStr.ofString run.tempName).length := by
      rw [OsStr.ofString, List.length_map, SaveRun.tempName, String.toList_append,
        String.toList_append, List.length_append, List.length_append]
      have hpre : "notes.md.".toList.length = 9 := by decide
      omega
    unfold OsStr.toPiece
    rw [if_neg, if_neg, if_neg]
    · intro h
      simp [h] at hlength
    · intro h
      simp [h] at hlength
    · intro h
      simp [h] at hlength
  no_nul := run.not_mem_tempName (by decide)

theorem SaveRun.tempName_suffix (run : SaveRun) :
    OsStr.ofString ".partial" <:+ OsStr.ofString run.tempName := by
  unfold OsStr.ofString SaveRun.tempName
  rw [String.toList_append, List.map_append]
  exact List.suffix_append _ _

theorem notes_not_suffix : ¬ OsStr.ofString ".partial" <:+ OsStr.ofString "notes.md" := by
  decide

theorem SaveRun.temp_ne_notesMd (run : SaveRun) (D : Location OsStr) : run.temp D ≠ notesMd D := by
  intro h
  have hname := List.append_cancel_left h
  have hsuffix := run.tempName_suffix
  rw [List.singleton_inj.mp hname] at hsuffix
  exact notes_not_suffix hsuffix

section Save

variable {dataDir dir : PathBuf} {meetingId markdown : String} {run : SaveRun}
  {s : Registered Bytes} {D : Location OsStr}

/-- The file is made in the directory of the meeting. -/
structure Opens (dataDir : PathBuf) (meetingId : String) (run : SaveRun) (s : Registered Bytes)
    (dir : PathBuf) (D : Location OsStr) : Prop where
  reads : Db.Clean 1 run.readFaults
  registered : registeredDir s dataDir meetingId = .ok dir
  inDir : InDir s.tree dir D
  openFails : run.openFails = false

theorem AsBefore.refl : AsBefore dataDir meetingId run s s where
  rows := Or.inl rfl
  notes _ _ _ _ := rfl
  files _ _ _ _ _ _ h := h

theorem registeredDir_ne_nil (h : registeredDir s dataDir meetingId = .ok dir) : dir ≠ [] := by
  unfold registeredDir at h
  split at h
  · cases h
  · obtain ⟨-, hstarts, -⟩ := validateMeetingDir_eq_ok.mp h
    obtain ⟨-, hsteps⟩ := startsWith_steps (steps_meetingsRoot_ne_nil dataDir) hstarts
    intro hnil
    rw [hnil] at hsteps
    exact steps_meetingsRoot_ne_nil dataDir (List.prefix_nil.mp hsteps)

theorem getMeeting_dirty (h : ¬ Db.Clean 1 run.readFaults) :
    ∃ e, (RusqliteStorage.getMeeting meetingId ⟨s.tables, run.readFaults⟩).1 = .error e := by
  cases hrow : s.tables.selectMeeting meetingId with
  | none =>
    obtain ⟨e, session, herror⟩ := RusqliteStorage.fails_getMeeting hrow run.readFaults
    exact ⟨e, by rw [herror]⟩
  | some row =>
    obtain ⟨e, session, herror⟩ := (RusqliteStorage.takes_getMeeting hrow run.readFaults).2 h
    exact ⟨e, by rw [herror]⟩

/-- Up to the file, only the directory of the meeting counts. -/
theorem notesSave_eq (hclean : Db.Clean 1 run.readFaults)
    (hdir : registeredDir s dataDir meetingId = .ok dir) :
    notesSave dataDir meetingId markdown run s =
      match saveFile s.tree dir markdown run with
      | (.error e, tree) => (.error e, { s with tree := tree })
      | (.ok (), tree) =>
        match RusqliteStorage.replaceMeetingNote run.ambient meetingId
            (noteDraft meetingId markdown (dir.join "notes.md") run)
            ⟨run.others s.tables, run.rowFaults⟩ with
        | (.error e, session) => (.error (.ofStorageError e), ⟨session.tables, tree⟩)
        | (.ok _, session) => (.ok (), ⟨session.tables, tree⟩) := by
  unfold registeredDir at hdir
  cases hrow : s.tables.selectMeeting meetingId with
  | none => simp [hrow] at hdir
  | some row =>
    simp only [hrow] at hdir
    have hread := (RusqliteStorage.takes_getMeeting hrow run.readFaults).1 hclean
    unfold notesSave
    rw [hread]
    simp only [mapMeetingRow, hdir]

theorem notesSave_unregistered {e : IpcError}
    (hdir : registeredDir s dataDir meetingId = .error e) :
    ∃ e, notesSave dataDir meetingId markdown run s = (.error e, s) := by
  unfold notesSave
  cases hread : (RusqliteStorage.getMeeting meetingId ⟨s.tables, run.readFaults⟩).1 with
  | error e => exact ⟨_, rfl⟩
  | ok m =>
    have hclean : Db.Clean 1 run.readFaults := by
      by_contra hdirty
      obtain ⟨e', herror⟩ := @getMeeting_dirty meetingId run s hdirty
      rw [hread] at herror
      cases herror
    unfold registeredDir at hdir
    cases hrow : s.tables.selectMeeting meetingId with
    | none =>
      obtain ⟨e', session, herror⟩ := RusqliteStorage.fails_getMeeting hrow run.readFaults
      rw [herror] at hread
      cases hread
    | some row =>
      simp only [hrow] at hdir
      rw [(RusqliteStorage.takes_getMeeting hrow run.readFaults).1 hclean] at hread
      obtain rfl := Except.ok.inj hread
      exact ⟨e, by simp only [mapMeetingRow, hdir]⟩

theorem saveFile_of_error {t t' : Tree OsStr Bytes} {e : Errno}
    (h : writeFile t (dir.join run.tempName) (asBytes markdown) run = (.error e, t')) :
    saveFile t dir markdown run = (.error (.internal "write notes.md failed"), t') := by
  rw [saveFile, h]

/-- Nothing is done before the file is made. -/
theorem notesSave_not_opens (h : ∀ dir D, ¬ Opens dataDir meetingId run s dir D) :
    ∃ e, notesSave dataDir meetingId markdown run s = (.error e, s) := by
  cases hdir : registeredDir s dataDir meetingId with
  | error e => exact notesSave_unregistered hdir
  | ok dir =>
    by_cases hclean : Db.Clean 1 run.readFaults
    · have hwrite : ∃ e, writeFile s.tree (dir.join run.tempName) (asBytes markdown) run =
          (.error e, s.tree) := by
        unfold writeFile
        by_cases hopen : run.openFails = true
        · exact ⟨_, if_pos hopen⟩
        · rw [if_neg hopen]
          cases hwrite : write s.tree (dir.join run.tempName) (run.taken (asBytes markdown)) with
          | error e => exact ⟨e, rfl⟩
          | ok t' =>
            obtain ⟨D, hD⟩ :=
              InDir.of_write (registeredDir_ne_nil hdir) run.isFileName hwrite
            exact absurd ⟨hclean, hdir, hD, by simpa using hopen⟩ (h dir D)
      obtain ⟨e, hwrite⟩ := hwrite
      exact ⟨_, by rw [notesSave_eq hclean hdir, saveFile_of_error hwrite]⟩
    · obtain ⟨e, herror⟩ := @getMeeting_dirty meetingId run s hclean
      exact ⟨.ofStorageError e, by rw [notesSave, herror]⟩

/-! ## The file -/

section File

variable {t : Tree OsStr Bytes}

theorem writeFile_eq (hD : InDir t dir D) (hfree : t.entry (run.temp D) = none)
    (hopen : run.openFails = false) (bytes : Bytes) :
    writeFile t (dir.join run.tempName) bytes run =
      (if run.taken bytes = bytes then .ok () else .error .einval,
        t.set (run.temp D) (.file (run.taken bytes))) := by
  unfold writeFile
  rw [hopen, if_neg Bool.false_ne_true, hD.write run.isFileName hfree]
  rfl

theorem saveFile_cut (hD : InDir t dir D) (hfree : t.entry (run.temp D) = none)
    (hopen : run.openFails = false) (hcut : run.taken (asBytes markdown) ≠ asBytes markdown) :
    saveFile t dir markdown run = (.error (.internal "write notes.md failed"),
      t.set (run.temp D) (.file (run.taken (asBytes markdown)))) := by
  apply saveFile_of_error (e := .einval)
  rw [writeFile_eq hD hfree hopen, if_neg hcut]

/-- After the file is written. -/
theorem saveFile_whole (hD : InDir t dir D) (hfree : t.entry (run.temp D) = none)
    (hopen : run.openFails = false) (hwhole : run.taken (asBytes markdown) = asBytes markdown) :
    saveFile t dir markdown run =
      match renameFile (t.set (run.temp D) (.file (asBytes markdown))) (dir.join run.tempName)
        (dir.join "notes.md") run with
      | .error _ => (.error (.internal "save notes.md failed"),
          t.set (run.temp D) (.file (asBytes markdown)))
      | .ok t' => (.ok (), t') := by
  unfold saveFile
  rw [writeFile_eq hD hfree hopen, if_pos hwhole, hwhole]

theorem InDir.set_temp (hD : InDir t dir D) (hfree : t.entry (run.temp D) = none)
    (bytes : Bytes) : InDir (t.set (run.temp D) (.file bytes)) dir D :=
  hD.grows (.set_file (by simp [hfree]) (by simp [hfree]) bytes)

@[simp] theorem entry_set_self {l : Location OsStr} {e : Entry OsStr Bytes} :
    (t.set l e).entry l = some e := by
  simp [Tree.set]

theorem entry_set_of_ne {l x : Location OsStr} {e : Entry OsStr Bytes} (h : x ≠ l) :
    (t.set l e).entry x = t.entry x := by
  simp [Tree.set, h]

theorem entry_erase_of_ne {l x : Location OsStr} (h : x ≠ l) :
    (t.erase l).entry x = t.entry x := by
  simp [Tree.erase, h]

theorem saveFile_not_renamed (hD : InDir t dir D) (hfree : t.entry (run.temp D) = none)
    (hopen : run.openFails = false) (hwhole : run.taken (asBytes markdown) = asBytes markdown)
    (h : ¬ (run.renameFails = false ∧ t.entry (notesMd D) ≠ some .dir)) :
    saveFile t dir markdown run = (.error (.internal "save notes.md failed"),
      t.set (run.temp D) (.file (asBytes markdown))) := by
  rw [saveFile_whole hD hfree hopen hwhole]
  unfold renameFile
  by_cases hrename : run.renameFails = true
  · rw [if_pos hrename]
  · have hdir : t.entry (notesMd D) = some .dir := by
      by_contra hdir
      exact h ⟨by simpa using hrename, hdir⟩
    have hsame : (t.set (run.temp D) (.file (asBytes markdown))).entry (notesMd D) = some .dir := by
      rw [entry_set_of_ne (run.temp_ne_notesMd D).symm, hdir]
    rw [if_neg hrename, (hD.set_temp hfree _).rename_dir run.isFileName isFileName_notes
      entry_set_self hsame]

theorem saveFile_renamed (hD : InDir t dir D) (hfree : t.entry (run.temp D) = none)
    (hopen : run.openFails = false) (hwhole : run.taken (asBytes markdown) = asBytes markdown)
    (hrename : run.renameFails = false) (hdir : t.entry (notesMd D) ≠ some .dir) :
    saveFile t dir markdown run =
      (.ok (), ((t.set (run.temp D) (.file (asBytes markdown))).erase (run.temp D)).set (notesMd D)
        (.file (asBytes markdown))) := by
  have hsame : (t.set (run.temp D) (.file (asBytes markdown))).entry (notesMd D) ≠ some .dir := by
    rw [entry_set_of_ne (run.temp_ne_notesMd D).symm]
    exact hdir
  rw [saveFile_whole hD hfree hopen hwhole, renameFile, hrename, if_neg Bool.false_ne_true,
    (hD.set_temp hfree _).rename run.isFileName isFileName_notes entry_set_self hsame]
  rfl

end File

/-! ## Every failure -/

theorem replaceable_iff {t : Tables} : Replaceable meetingId run t ↔
    Db.Clean 5 run.rowFaults ∧ t.hasMeeting meetingId = true ∧
      (t.note.filter (·.meetingId != meetingId)).any (·.id == run.noteId.text) = false := by
  have hid : (t.note.filter (·.meetingId != meetingId)).any (·.id == run.noteId.text) = false ↔
      ∀ note ∈ t.note, note.meetingId ≠ meetingId → note.id ≠ run.noteId.text := by
    simp
  rw [hid]
  exact ⟨fun h => ⟨h.statements, h.meeting, h.id⟩, fun h => ⟨h.1, h.2.1, h.2.2⟩⟩

theorem replaceMeetingNote_of_replaceable {t : Tables} (h : Replaceable meetingId run t)
    (path : PathBuf) : ∃ note session, RusqliteStorage.replaceMeetingNote run.ambient meetingId
      (noteDraft meetingId markdown path run) ⟨t, run.rowFaults⟩ = (.ok note, session) := by
  obtain ⟨hclean, hmeeting, hfree⟩ := replaceable_iff.mp h
  have htakes := @RusqliteStorage.takes_replaceMeetingNote t run.ambient meetingId
    (noteDraft meetingId markdown path run) rfl hmeeting hfree
  exact ⟨_, _, (htakes run.rowFaults).1 hclean⟩

theorem replaceMeetingNote_of_not_replaceable {t : Tables} (h : ¬ Replaceable meetingId run t)
    (path : PathBuf) : ∃ e session, RusqliteStorage.replaceMeetingNote run.ambient meetingId
      (noteDraft meetingId markdown path run) ⟨t, run.rowFaults⟩ = (.error e, session) ∧
        session.tables = t := by
  have herror : ∃ e session, RusqliteStorage.replaceMeetingNote run.ambient meetingId
      (noteDraft meetingId markdown path run) ⟨t, run.rowFaults⟩ = (.error e, session) := by
    by_cases hmeaning : t.hasMeeting meetingId = true ∧
        (t.note.filter (·.meetingId != meetingId)).any (·.id == run.noteId.text) = false
    · have hdirty : ¬ Db.Clean 5 run.rowFaults := fun hclean =>
        h (replaceable_iff.mpr ⟨hclean, hmeaning⟩)
      have htakes := @RusqliteStorage.takes_replaceMeetingNote t run.ambient meetingId
        (noteDraft meetingId markdown path run) rfl hmeaning.1 hmeaning.2
      exact (htakes run.rowFaults).2 hdirty
    · refine RusqliteStorage.fails_replaceMeetingNote (fun hmeeting => ?_) run.rowFaults
      by_contra hfree
      exact hmeaning ⟨hmeeting, Bool.eq_false_iff.mpr hfree⟩
  obtain ⟨e, session, herror⟩ := herror
  exact ⟨e, session, herror, RusqliteStorage.replaceMeetingNote_error herror⟩

/-- The new file stays when it is not renamed. -/
theorem not_asBefore_of_temp (h : Opens dataDir meetingId run s dir D)
    (hfree : s.tree.entry (run.temp D) = none) {bytes : Bytes} {t : Tables} :
    ¬ AsBefore dataDir meetingId run s ⟨t, s.tree.set (run.temp D) (.file bytes)⟩ := by
  intro hsame
  refine hsame.files dir D h.registered h.inDir _ run.tempName_suffix ?_ hfree
  show (s.tree.set (run.temp D) (.file bytes)).entry (run.temp D) ≠ none
  simp

/-- What a rename and no row come to. -/
theorem asBefore_renamed_iff (h : Opens dataDir meetingId run s dir D) {bytes : Bytes} :
    AsBefore dataDir meetingId run s ⟨run.others s.tables,
        ((s.tree.set (run.temp D) (.file bytes)).erase (run.temp D)).set (notesMd D)
          (.file bytes)⟩ ↔ s.tree.entry (notesMd D) = some (.file bytes) := by
  constructor
  · intro hsame
    have hnotes := hsame.notes dir D h.registered h.inDir
    rw [← hnotes]
    exact entry_set_self
  · intro hentry
    refine ⟨Or.inr rfl, fun dir' D' hdir' hD' => ?_, fun dir' D' hdir' hD' name hname hsome => ?_⟩
    · obtain rfl := Except.ok.inj (h.registered.symm.trans hdir')
      rw [← h.inDir.unique hD', hentry]
      exact entry_set_self
    · obtain rfl := Except.ok.inj (h.registered.symm.trans hdir')
      obtain rfl := h.inDir.unique hD'
      have hnotes : D ++ [name] ≠ notesMd D := by
        intro heq
        rw [List.singleton_inj.mp (List.append_cancel_left heq)] at hname
        exact notes_not_suffix hname
      simp only [entry_set_of_ne hnotes] at hsome
      by_cases htemp : D ++ [name] = run.temp D
      · simp [Tree.erase, htemp] at hsome
      · rwa [entry_erase_of_ne htemp, entry_set_of_ne htemp] at hsome

/-- What one call does once the file is made. -/
theorem asBefore_iff_of_opens (h : Opens dataDir meetingId run s dir D)
    (hfree : s.tree.entry (run.temp D) = none) :
    ((∃ e, (notesSave dataDir meetingId markdown run s).1 = .error e) →
        AsBefore dataDir meetingId run s (notesSave dataDir meetingId markdown run s).2) ↔
      run.taken (asBytes markdown) = asBytes markdown ∧ run.renameFails = false ∧
        s.tree.entry (notesMd D) ≠ some .dir ∧
        (Replaceable meetingId run (run.others s.tables) ∨
          s.tree.entry (notesMd D) = some (.file (asBytes markdown))) := by
  rw [notesSave_eq h.reads h.registered]
  by_cases hwhole : run.taken (asBytes markdown) = asBytes markdown
  · by_cases hrename : run.renameFails = false ∧ s.tree.entry (notesMd D) ≠ some .dir
    · rw [saveFile_renamed h.inDir hfree h.openFails hwhole hrename.1 hrename.2]
      simp only [hwhole, hrename, ne_eq, not_false_eq_true, true_and]
      by_cases hrow : Replaceable meetingId run (run.others s.tables)
      · obtain ⟨note, session, hok⟩ :=
          @replaceMeetingNote_of_replaceable meetingId markdown run _ hrow (dir.join "notes.md")
        simp [hok, hrow]
      · obtain ⟨e, session, herror, htables⟩ :=
          @replaceMeetingNote_of_not_replaceable meetingId markdown run _ hrow (dir.join "notes.md")
        simp only [herror, htables, hrow, false_or]
        rw [asBefore_renamed_iff h]
        exact ⟨fun hall => hall ⟨_, rfl⟩, fun hentry _ => hentry⟩
    · rw [saveFile_not_renamed h.inDir hfree h.openFails hwhole hrename]
      constructor
      · exact fun hall => absurd (hall ⟨_, rfl⟩) (not_asBefore_of_temp h hfree)
      · exact fun hall => absurd ⟨hall.2.1, hall.2.2.1⟩ hrename
  · rw [saveFile_cut h.inDir hfree h.openFails hwhole]
    constructor
    · exact fun hall => absurd (hall ⟨_, rfl⟩) (not_asBefore_of_temp h hfree)
    · exact fun hall => absurd hall.1 hwhole

/-- A call that fails leaves the registry, `notes.md` and the directory as they
were exactly when it is sound from the file on. -/
theorem notesSave_asBefore_iff (dataDir : PathBuf) (meetingId markdown : String) (run : SaveRun)
    (s : Registered Bytes) (hfresh : ∀ D, s.tree.entry (run.temp D) = none) :
    ((∃ e, (notesSave dataDir meetingId markdown run s).1 = .error e) →
        AsBefore dataDir meetingId run s (notesSave dataDir meetingId markdown run s).2) ↔
      SaveSound dataDir meetingId markdown run s := by
  by_cases hopens : ∃ dir D, Opens dataDir meetingId run s dir D
  · obtain ⟨dir, D, hopens⟩ := hopens
    rw [asBefore_iff_of_opens hopens (hfresh D)]
    constructor
    · intro hall dir' D' _ hdir' hD' _
      obtain rfl := Except.ok.inj (hopens.registered.symm.trans hdir')
      rw [← hopens.inDir.unique hD']
      exact hall
    · exact fun hall => hall dir D hopens.reads hopens.registered hopens.inDir hopens.openFails
  · have hnone : ∀ dir D, ¬ Opens dataDir meetingId run s dir D :=
      fun dir D h => hopens ⟨dir, D, h⟩
    obtain ⟨e, herror⟩ := @notesSave_not_opens dataDir meetingId markdown run s hnone
    rw [herror]
    constructor
    · exact fun _ dir D hreads hdir hD hopen => absurd ⟨hreads, hdir, hD, hopen⟩ (hnone dir D)
    · exact fun _ _ => .refl

end Save

/-- A meeting with notes. -/
def oldNotes : Registered Bytes where
  tables :=
    { Tables.empty with
      meeting := [⟨"m1", "weekly", "2026-01-01T09:00:00Z", none, none, "en", "/d/meetings/m1",
        none, none⟩]
      note := [⟨"n1", "m1", "basic", "old", "/d/meetings/m1/notes.md", "2026-01-01T10:00:00Z"⟩] }
  tree :=
    { entry := fun l =>
        if l ∈ ([[], ["d"], ["d", "meetings"], ["d", "meetings", "m1"]] :
          List (List String)).map fun names => names.map OsStr.ofString then some .dir
        else if l = ["d", "meetings", "m1", "notes.md"].map OsStr.ofString then
          some (.file (asBytes "old"))
        else none
      cwd := []
      maxLinks := 40 }

/-- The insert of the row fails. -/
def insertFails : SaveRun where
  fileId := firstUuid
  noteId := firstUuid
  ambient := clock
  readFaults := []
  openFails := false
  room := none
  renameFails := false
  others := id
  rowFaults := [none, none, none, some "disk I/O error"]

theorem registeredDir_oldNotes : registeredDir oldNotes (OsStr.ofString "/d") "m1" =
    .ok (OsStr.ofString "/d/meetings/m1") := by decide +kernel

/-- Where the notes are. -/
def oldNotesDir : Location OsStr := ["d", "meetings", "m1"].map OsStr.ofString

theorem inDir_oldNotes : InDir oldNotes.tree (OsStr.ofString "/d/meetings/m1") oldNotesDir := by
  refine ⟨?_, ?_⟩ <;> decide +kernel

theorem entry_oldNotes :
    oldNotes.tree.entry (notesMd oldNotesDir) = some (.file (asBytes "old")) := by
  decide +kernel

theorem opens_oldNotes {run : SaveRun} (hreads : run.readFaults = [])
    (hopen : run.openFails = false) :
    Opens (OsStr.ofString "/d") "m1" run oldNotes (OsStr.ofString "/d/meetings/m1")
      oldNotesDir where
  reads := by
    rw [hreads]
    decide
  registered := registeredDir_oldNotes
  inDir := inDir_oldNotes
  openFails := hopen

theorem oldNotes_fresh (D : Location OsStr) : oldNotes.tree.entry (insertFails.temp D) = none := by
  have hlast : (insertFails.temp D).getLast? = some (OsStr.ofString insertFails.tempName) := by
    simp [SaveRun.temp]
  have hother : ∀ l ∈ ([[], ["d"], ["d", "meetings"], ["d", "meetings", "m1"],
      ["d", "meetings", "m1", "notes.md"]] : List (List String)).map fun names =>
        names.map OsStr.ofString,
      l.getLast? ≠ some (OsStr.ofString insertFails.tempName) := by decide +kernel
  unfold oldNotes
  simp only
  rw [if_neg, if_neg]
  · intro heq
    exact hother _ (by simp) (heq ▸ hlast)
  · intro hmem
    refine hother _ ?_ hlast
    simp only [List.map_cons, List.map_nil, List.mem_cons, List.not_mem_nil, or_false] at hmem ⊢
    tauto

/-- `notes.md` is the new one when the row is refused. -/
theorem notesSave_insertFails (markdown : String) :
    notesSave (OsStr.ofString "/d") "m1" markdown insertFails oldNotes =
      (.error (.internal "storage error"), ⟨oldNotes.tables,
        ((oldNotes.tree.set (insertFails.temp oldNotesDir) (.file (asBytes markdown))).erase
          (insertFails.temp oldNotesDir)).set (notesMd oldNotesDir) (.file (asBytes markdown))⟩) := by
  have hopens : Opens _ _ insertFails oldNotes _ _ := opens_oldNotes rfl rfl
  have hnotDir : oldNotes.tree.entry (notesMd oldNotesDir) ≠ some .dir := by
    rw [entry_oldNotes]
    simp
  rw [notesSave_eq hopens.reads hopens.registered,
    saveFile_renamed hopens.inDir (oldNotes_fresh _) hopens.openFails rfl rfl hnotDir]
  rfl

/-- A part of the file stays where the device is full. -/
theorem notesSave_cut :
    notesSave (OsStr.ofString "/d") "m1" "new" { insertFails with room := some 1 } oldNotes =
      (.error (.internal "write notes.md failed"), ⟨oldNotes.tables,
        oldNotes.tree.set (insertFails.temp oldNotesDir) (.file ((asBytes "new").take 1))⟩) := by
  have hopens : Opens _ _ { insertFails with room := some 1 } oldNotes _ _ := opens_oldNotes rfl rfl
  have hfree : oldNotes.tree.entry ({ insertFails with room := some 1 }.temp oldNotesDir) = none :=
    oldNotes_fresh _
  rw [notesSave_eq hopens.reads hopens.registered,
    saveFile_cut hopens.inDir hfree hopens.openFails (by decide)]
  rfl

/-- The call fails, the row is the old one and `notes.md` is the new one; and where
the device is full, a part of it stays. -/
theorem notesSave_not_asBefore :
    ((notesSave (OsStr.ofString "/d") "m1" "new" insertFails oldNotes).1 =
        .error (.internal "storage error") ∧
      (notesSave (OsStr.ofString "/d") "m1" "new" insertFails oldNotes).2.tree.entry
        (["d", "meetings", "m1", "notes.md"].map OsStr.ofString) = some (.file (asBytes "new")) ∧
      ¬ AsBefore (OsStr.ofString "/d") "m1" insertFails oldNotes
        (notesSave (OsStr.ofString "/d") "m1" "new" insertFails oldNotes).2) ∧
    (notesSave (OsStr.ofString "/d") "m1" "new" { insertFails with room := some 1 } oldNotes).1 =
        .error (.internal "write notes.md failed") ∧
      ¬ AsBefore (OsStr.ofString "/d") "m1" { insertFails with room := some 1 } oldNotes
        (notesSave (OsStr.ofString "/d") "m1" "new" { insertFails with room := some 1 }
          oldNotes).2 := by
  have hopens : Opens _ _ insertFails oldNotes _ _ := opens_oldNotes rfl rfl
  have hcut : Opens _ _ { insertFails with room := some 1 } oldNotes _ _ := opens_oldNotes rfl rfl
  rw [notesSave_insertFails, notesSave_cut]
  refine ⟨⟨rfl, entry_set_self, fun h => ?_⟩, rfl, not_asBefore_of_temp hcut (oldNotes_fresh _)⟩
  have hsame := (asBefore_renamed_iff hopens).mp h
  rw [entry_oldNotes] at hsame
  revert hsame
  decide

theorem notesSave_asBefore_old :
    (∃ e, (notesSave (OsStr.ofString "/d") "m1" "old" insertFails oldNotes).1 = .error e) ∧
      AsBefore (OsStr.ofString "/d") "m1" insertFails oldNotes
        (notesSave (OsStr.ofString "/d") "m1" "old" insertFails oldNotes).2 := by
  have hfails : ∃ e,
      (notesSave (OsStr.ofString "/d") "m1" "old" insertFails oldNotes).1 = .error e :=
    ⟨.internal "storage error", by rw [notesSave_insertFails]⟩
  refine ⟨hfails, (notesSave_asBefore_iff _ _ _ _ _ oldNotes_fresh).mpr ?_ hfails⟩
  intro dir D _ hdir hD _
  obtain rfl := Except.ok.inj (registeredDir_oldNotes.symm.trans hdir)
  rw [hD.unique inDir_oldNotes]
  refine ⟨rfl, rfl, ?_, Or.inr entry_oldNotes⟩
  rw [entry_oldNotes]
  simp

end Engine
end Panops
