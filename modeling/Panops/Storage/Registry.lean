import Panops.Storage.Rusqlite

/-!
# What the operations do

Each operation of `RusqliteStorage` as one function of the tables, and the proof
that its statements come to that, or fail for a reason of the database and leave
the tables alone.  Two operations read the row back after they have changed it;
such a failure can reach them after the change.
-/

namespace Panops
namespace Storage

open Lib.Database

namespace Tables

variable {t : Tables} {id : String}

/-! ## Nothing to change -/

theorem hasMeeting_iff : t.hasMeeting id = true ↔ ∃ row ∈ t.meeting, row.id = id := by
  simp [hasMeeting]

theorem hasSpace_iff : t.hasSpace id = true ↔ ∃ s ∈ t.space, s.id = id := by
  simp [hasSpace]

theorem hasProject_iff : t.hasProject id = true ↔ ∃ p ∈ t.project, p.id = id := by
  simp [hasProject]

theorem hasTag_iff : t.hasTag id = true ↔ ∃ tag ∈ t.tag, tag.id = id := by
  simp [hasTag]

theorem countP_id_eq_zero {α : Type} {key : α → String} {rows : List α} :
    rows.countP (fun r => key r == id) = 0 ↔ rows.any (fun r => key r == id) = false := by
  simp [List.countP_eq_zero]

theorem map_update_eq_self {α : Type} {key : α → String} {rows : List α} (f : α → α)
    (h : rows.any (fun r => key r == id) = false) :
    (rows.map fun r => if key r = id then f r else r) = rows := by
  rw [List.any_eq_false] at h
  refine (List.map_congr_left fun r hr => if_neg ?_).trans (List.map_id _)
  simpa using h r hr

theorem filter_ne_eq_self {α : Type} {key : α → String} {rows : List α}
    (h : rows.any (fun r => key r == id) = false) :
    rows.filter (fun r => key r != id) = rows := by
  rw [List.any_eq_false] at h
  refine List.filter_eq_self.mpr fun r hr => ?_
  simpa using h r hr

theorem updateSpaceName_of_not (name : String) (h : t.hasSpace id = false) :
    (t.updateSpaceName id name).2 = t := by
  simp only [updateSpaceName]
  rw [map_update_eq_self _ h]

theorem updateProjectName_of_not (name : String) (h : t.hasProject id = false) :
    (t.updateProjectName id name).2 = t := by
  simp only [updateProjectName]
  rw [map_update_eq_self _ h]

theorem updateMeeting_of_not (f : MeetingRow → MeetingRow) (h : t.hasMeeting id = false) :
    (t.updateMeeting id f).2 = t := by
  simp only [updateMeeting]
  rw [map_update_eq_self _ h]

theorem deleteMeeting_of_not (h : t.hasMeeting id = false) : (t.deleteMeeting id).2 = t := by
  simp only [deleteMeeting, h]
  rw [filter_ne_eq_self h]
  simp

theorem deleteTag_of_not (h : t.hasTag id = false) : (t.deleteTag id).2 = t := by
  simp only [deleteTag, h]
  rw [filter_ne_eq_self h]
  simp

theorem clearProjects_of_none {gone : Project → Bool} (h : ∀ p ∈ t.project, gone p = false) :
    t.clearProjects gone = t.meeting := by
  refine (List.map_congr_left fun row _ => if_neg ?_).trans (List.map_id _)
  simp only [List.any_eq_true, not_exists, not_and]
  intro p hp
  simp [h p hp]

theorem deleteProject_of_not (h : t.hasProject id = false) : (t.deleteProject id).2 = t := by
  have hgone : ∀ p ∈ t.project, (p.id == id) = false := by
    simpa [hasProject, List.any_eq_false] using h
  simp only [deleteProject]
  rw [filter_ne_eq_self h, clearProjects_of_none hgone]

theorem deleteSpace_of_not (h : t.hasSpace id = false) : (t.deleteSpace id).2 = t := by
  simp only [deleteSpace, h]
  rw [filter_ne_eq_self h, clearProjects_of_none (by simp)]
  simp

/-- The row that an update leaves under its id. -/
theorem selectMeeting_updateMeeting {f : MeetingRow → MeetingRow} (hf : ∀ row, (f row).id = row.id) :
    (t.updateMeeting id f).2.selectMeeting id = (t.selectMeeting id).map f := by
  simp only [updateMeeting, selectMeeting, List.find?_map]
  induction t.meeting with
  | nil => rfl
  | cons row rest ih =>
    by_cases hrow : row.id = id
    · simp [hrow, hf]
    · simp only [List.find?_cons, Function.comp_apply, if_neg hrow, beq_false_of_ne hrow]
      exact ih

theorem selectMeeting_eq_none_iff : t.selectMeeting id = none ↔ t.hasMeeting id = false := by
  simp [selectMeeting, hasMeeting]

end Tables

namespace Registry

variable (sql : Sqlite) (ambient : Ambient)

/-! ## Meanings -/

/-- The conflict of a new meeting with the meetings there are. -/
def meetingConflict (d : MeetingDraft) (t : Tables) : Option StorageError :=
  let idTaken := t.hasMeeting d.id
  let dirTaken := t.meeting.any (·.dirPath == d.dirPath)
  if dirTaken && (sql.reportsDirPath || !idTaken) then
    some (.uniqueConflict "meeting" "dir_path" d.dirPath)
  else if idTaken then some (.alreadyExists d.id "meeting")
  else none

def createMeeting (d : MeetingDraft) (t : Tables) : Except StorageError Meeting × Tables :=
  match meetingConflict sql d t with
  | some e => (.error e, t)
  | none => (.ok (d.toMeeting none none), { t with meeting := t.meeting ++ [d.row none none] })

def createMeetingWithNote (meeting : MeetingDraft) (note : NoteDraft) (endedAt : Option String)
    (durationMs : Option Nat) (t : Tables) : Except StorageError (Meeting × Note) × Tables :=
  if note.meetingId ≠ meeting.id then
    (.error (.sql "create_meeting_with_note: note.meeting_id must match meeting.id"), t)
  else
    match meetingConflict sql meeting t with
    | some e => (.error e, t)
    | none =>
      if t.note.any (·.id == note.id) then (.error (.alreadyExists note.id "note"), t)
      else
        (.ok (meeting.toMeeting endedAt durationMs, note.toNote ambient.now),
          { t with
            meeting := t.meeting ++ [meeting.row endedAt (durationMs.map asI64)]
            note := t.note ++ [note.toNote ambient.now] })

def getMeeting (id : String) (t : Tables) : Except StorageError Meeting × Tables :=
  match t.selectMeeting id with
  | some row => (.ok (mapMeetingRow row), t)
  | none => (.error (.notFound id "meeting"), t)

def summaries (filter : MeetingListFilter) (t : Tables) : List MeetingSummary :=
  ((t.selectMeetings sql).map fun row =>
    summaryOf row (t.hasNotes row.id) (t.selectTagIds sql row.id)).filter filter.accepts

def changeMeeting (id : String) (f : MeetingRow → MeetingRow) (t : Tables) :
    Except StorageError Meeting × Tables :=
  match t.selectMeeting id with
  | some row => (.ok (mapMeetingRow (f row)), (t.updateMeeting id f).2)
  | none => (.error (.notFound id "meeting"), t)

def updateMeetingEnded (id endedAt : String) (durationMs : Nat) :=
  changeMeeting id fun row =>
    { row with endedAt := some endedAt, durationMs := some (asI64 durationMs) }

def renameMeeting (id title : String) := changeMeeting id fun row => { row with title := title }

/-- A change of the row with an id, and its error when there is none. -/
def changeRow (kind : String) (exists_ : Tables → Bool) (id : String) (f : Tables → Tables)
    (t : Tables) : Except StorageError Unit × Tables :=
  if exists_ t then (.ok (), f t) else (.error (.notFound id kind), t)

def createNote (d : NoteDraft) (t : Tables) : Except StorageError Note × Tables :=
  if t.hasMeeting d.meetingId then
    if t.note.any (·.id == d.id) then (.error (.alreadyExists d.id "note"), t)
    else (.ok (d.toNote ambient.now), { t with note := t.note ++ [d.toNote ambient.now] })
  else (.error (.notFound d.meetingId "meeting"), t)

def replaceMeetingNote (meetingId : String) (draft : NoteDraft) (t : Tables) :
    Except StorageError Note × Tables :=
  if draft.meetingId ≠ meetingId then
    (.error (.sql "replace_meeting_note: draft.meeting_id must match meeting_id"), t)
  else if t.hasMeeting meetingId then
    let others := t.note.filter (·.meetingId != meetingId)
    if others.any (·.id == draft.id) then (.error (.alreadyExists draft.id "note"), t)
    else (.ok (draft.toNote ambient.now), { t with note := others ++ [draft.toNote ambient.now] })
  else (.error (.notFound meetingId "meeting"), t)

open RusqliteStorage (nextPosition sqlError)

/-- The result of an insert whose error is passed on. -/
def inserted {α : Type} (value : α) (t : Tables) (result : Except SqliteError (Unit × Tables)) :
    Except StorageError α × Tables :=
  match result with
  | .ok (_, t') => (.ok value, t')
  | .error e => (.error (sqlError e), t)

def createSpace (name : String) (t : Tables) : Except StorageError Space × Tables :=
  let space : Space := ⟨newId "space" ambient.nanos ambient.counter, name,
    nextPosition (t.space.map Space.position).max?⟩
  inserted space t (t.insertSpace space)

def createProject (spaceId name : String) (t : Tables) : Except StorageError Project × Tables :=
  if t.hasSpace spaceId then
    let project : Project := ⟨newId "project" ambient.nanos ambient.counter, spaceId, name,
      nextPosition ((t.project.filter (·.spaceId == spaceId)).map Project.position).max?⟩
    inserted project t (t.insertProject project)
  else (.error (.notFound spaceId "space"), t)

def createTag (name : String) (t : Tables) : Except StorageError Tag × Tables :=
  match t.selectTagByName name with
  | some tag => (.ok tag, t)
  | none =>
    let tag : Tag := ⟨newId "tag" ambient.nanos ambient.counter, name⟩
    inserted tag t (t.insertTag tag)

/-- Something about a meeting and a tag that have to exist. -/
def withTag (meetingId tagId : String)
    (f : Tables → Except StorageError Unit × Tables) (t : Tables) :
    Except StorageError Unit × Tables :=
  if t.hasMeeting meetingId then
    if t.hasTag tagId then f t else (.error (.notFound tagId "tag"), t)
  else (.error (.notFound meetingId "meeting"), t)

def tagMeeting (meetingId tagId : String) :=
  withTag meetingId tagId fun t => inserted () t (t.insertMeetingTag meetingId tagId)

def untagMeeting (meetingId tagId : String) :=
  withTag meetingId tagId fun t => (.ok (), t.deleteMeetingTag meetingId tagId)

def listTagsForMeeting (meetingId : String) (t : Tables) : Except StorageError (List Tag) × Tables :=
  if t.hasMeeting meetingId then (.ok (t.selectTagsOf sql meetingId), t)
  else (.error (.notFound meetingId "meeting"), t)

def resolveAssignment (spaceId projectId : Option String) (t : Tables) :
    Except StorageError (Option String × Option String) :=
  match projectId with
  | some projectId =>
    match t.selectProjectSpace projectId with
    | some projectSpaceId => .ok (some projectSpaceId, some projectId)
    | none => .error (.notFound projectId "project")
  | none =>
    match spaceId with
    | some spaceId =>
      if t.hasSpace spaceId then .ok (some spaceId, none) else .error (.notFound spaceId "space")
    | none => .ok (none, none)

def assignMeeting (meetingId : String) (spaceId projectId : Option String) (t : Tables) :
    Except StorageError Unit × Tables :=
  if t.hasMeeting meetingId then
    match resolveAssignment spaceId projectId t with
    | .ok target => inserted () t (t.updateAssignment meetingId target.1 target.2)
    | .error e => (.error e, t)
  else (.error (.notFound meetingId "meeting"), t)

/-- The reply of an operation. -/
def replyWith {α : Type} (f : α → Reply) (out : Except StorageError α × Tables) :
    Except StorageError Reply × Tables :=
  (out.1.map f, out.2)

def call (op : Op) (t : Tables) : Except StorageError Reply × Tables :=
  match op with
  | .createMeeting d => replyWith .meeting (createMeeting sql d t)
  | .createMeetingWithNote m n endedAt durationMs =>
    replyWith (fun out => .meetingWithNote out.1 out.2)
      (createMeetingWithNote sql ambient m n endedAt durationMs t)
  | .getMeeting id => replyWith .meeting (getMeeting id t)
  | .listMeetings => (.ok (.meetings (summaries sql .all t)), t)
  | .listMeetingsFiltered filter => (.ok (.meetings (summaries sql filter t)), t)
  | .updateMeetingEnded id endedAt durationMs =>
    replyWith .meeting (updateMeetingEnded id endedAt durationMs t)
  | .renameMeeting id title => replyWith .meeting (renameMeeting id title t)
  | .deleteMeeting id =>
    replyWith (fun _ => .unit)
      (changeRow "meeting" (·.hasMeeting id) id (fun t => (t.deleteMeeting id).2) t)
  | .createNote d => replyWith .note (createNote ambient d t)
  | .listNotesForMeeting meetingId => (.ok (.notes (t.selectNotes sql meetingId)), t)
  | .replaceMeetingNote meetingId draft =>
    replyWith .note (replaceMeetingNote ambient meetingId draft t)
  | .createSpace name => replyWith .space (createSpace ambient name t)
  | .listSpaces => (.ok (.spaces (t.selectSpaces sql)), t)
  | .renameSpace id name =>
    replyWith (fun _ => .unit)
      (changeRow "space" (·.hasSpace id) id (fun t => (t.updateSpaceName id name).2) t)
  | .deleteSpace id =>
    replyWith (fun _ => .unit)
      (changeRow "space" (·.hasSpace id) id (fun t => (t.deleteSpace id).2) t)
  | .createProject spaceId name => replyWith .project (createProject ambient spaceId name t)
  | .listProjects (some spaceId) => (.ok (.projects (t.selectProjectsOf sql spaceId)), t)
  | .listProjects none => (.ok (.projects (t.selectProjects sql)), t)
  | .renameProject id name =>
    replyWith (fun _ => .unit)
      (changeRow "project" (·.hasProject id) id (fun t => (t.updateProjectName id name).2) t)
  | .deleteProject id =>
    replyWith (fun _ => .unit)
      (changeRow "project" (·.hasProject id) id (fun t => (t.deleteProject id).2) t)
  | .createTag name => replyWith .tag (createTag ambient name t)
  | .listTags => (.ok (.tags (t.selectTags sql)), t)
  | .deleteTag id =>
    replyWith (fun _ => .unit) (changeRow "tag" (·.hasTag id) id (fun t => (t.deleteTag id).2) t)
  | .tagMeeting meetingId tagId => replyWith (fun _ => .unit) (tagMeeting meetingId tagId t)
  | .untagMeeting meetingId tagId => replyWith (fun _ => .unit) (untagMeeting meetingId tagId t)
  | .listTagsForMeeting meetingId => replyWith .tags (listTagsForMeeting sql meetingId t)
  | .assignMeeting meetingId spaceId projectId =>
    replyWith (fun _ => .unit) (assignMeeting meetingId spaceId projectId t)

end Registry
end Storage
end Panops
