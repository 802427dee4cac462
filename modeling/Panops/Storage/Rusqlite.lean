import Mathlib.Algebra.Group.Nat.Defs
import Mathlib.Data.List.Infix
import Panops.Lib.Database
import Panops.Storage.Tables

/-!
# `RusqliteStorage`

The operations of the storage port as sequences of SQL statements.  Any
statement may fail, for instance because the disk is full; one call runs on one
connection, which its lock keeps to itself.
-/

namespace Panops
namespace Storage

open Lib.Database

/-- `d as i64` for a `u64`. -/
def asI64 (d : Nat) : Int := if d < 2 ^ 63 then d else (d : Int) - (2 ^ 64 : Nat)

/-- A signed duration as it is read back: negative ones become zero. -/
def readDuration (v : Int) : Nat := if v < 0 then 0 else v.toNat

/-- `str::contains`. -/
def contains (text pattern : String) : Bool := decide (pattern.toList <:+: text.toList)

def hex (n : Nat) : String := String.ofList (Nat.toDigits 16 n)

/-- `new_id`, at a time in nanoseconds and with the value of the counter. -/
def newId (kind : String) (nanos counter : Nat) : String :=
  kind ++ "_" ++ hex nanos ++ "_" ++ hex counter

/-- What a call takes from its surroundings. -/
structure Ambient where
  /-- `Utc::now().to_rfc3339()`. -/
  now : String
  nanos : Nat
  counter : Nat

/-- `map_meeting_row`. -/
def mapMeetingRow (row : MeetingRow) : Meeting where
  id := row.id
  title := row.title
  startedAt := row.startedAt
  endedAt := row.endedAt
  durationMs := row.durationMs.map readDuration
  language := row.language
  dirPath := row.dirPath

/-- A new meeting row; `space_id` and `project_id` are not given. -/
def MeetingDraft.row (d : MeetingDraft) (endedAt : Option String) (durationMs : Option Int) :
    MeetingRow where
  id := d.id
  title := d.title
  startedAt := d.startedAt
  endedAt := endedAt
  durationMs := durationMs
  language := d.language
  dirPath := d.dirPath
  spaceId := none
  projectId := none

def MeetingDraft.toMeeting (d : MeetingDraft) (endedAt : Option String) (durationMs : Option Nat) :
    Meeting where
  id := d.id
  title := d.title
  startedAt := d.startedAt
  endedAt := endedAt
  durationMs := durationMs
  language := d.language
  dirPath := d.dirPath

def summaryOf (row : MeetingRow) (hasNotes : Bool) (tags : List String) : MeetingSummary where
  id := row.id
  title := row.title
  startedAt := row.startedAt
  endedAt := row.endedAt
  durationMs := readDuration (row.durationMs.getD 0)
  language := row.language
  hasNotes := hasNotes
  spaceId := row.spaceId
  projectId := row.projectId
  tags := tags

/-- The conditions of the loop in `list_meetings_filtered`. -/
def MeetingListFilter.accepts (filter : MeetingListFilter) (s : MeetingSummary) : Bool :=
  !(filter.unsorted && s.spaceId.isSome) &&
    filter.spaceId.all (fun id => s.spaceId == some id) &&
    filter.projectId.all (fun id => s.projectId == some id) &&
    filter.tagId.all fun id => s.tags.any (· == id)

namespace RusqliteStorage

abbrev Program := Db Tables StorageError

/-- `StorageError::sql`. -/
def sqlError (e : SqliteError) : StorageError := .sql e.message

def execute {α : Type} (run : Tables → Except SqliteError (α × Tables)) :
    Db Tables SqliteError α :=
  Db.statement .failure run

/-- A statement followed by `.map_err(StorageError::sql)?`. -/
def orSql {α : Type} (x : Db Tables SqliteError α) : Program α := Db.mapErr sqlError x

/-- A statement that breaks no constraint. -/
def change {α : Type} (run : Tables → α × Tables) : Program α :=
  orSql (execute fun t => .ok (run t))

def select {α : Type} (read : Tables → α) : Program α := orSql (Db.query .failure read)

def transaction {α : Type} (x : Program α) : Program α := Db.transaction .sql x

/-- Which error a failed insert into `meeting` is: libsqlite names the column in
the message. -/
def mapMeetingConstraintViolation (err : SqliteError) (draftId draftDirPath : String) :
    StorageError :=
  if contains err.message "meeting.dir_path" then .uniqueConflict "meeting" "dir_path" draftDirPath
  else if contains err.message "meeting.id" then .alreadyExists draftId "meeting"
  else sqlError err

/-- `ensure_row_exists`, with the query for the table's kind. -/
def ensureRowExists (kind : String) (exists_ : Tables → Bool) (id : String) : Program Unit := do
  let found ← select exists_
  if found then pure () else Db.throw (.notFound id kind)

def ensureMeetingExists (id : String) : Program Unit :=
  ensureRowExists "meeting" (·.hasMeeting id) id

def ensureTagExists (id : String) : Program Unit := ensureRowExists "tag" (·.hasTag id) id

def ensureSpaceExists (id : String) : Program Unit := ensureRowExists "space" (·.hasSpace id) id

/-- The end of an update or a delete: no row was changed. -/
def orNotFound (kind id : String) (changed : Nat) : Program Unit :=
  if changed = 0 then Db.throw (.notFound id kind) else pure ()

/-- The outcome of an insert into `meeting`. -/
def checkMeetingInsert (d : MeetingDraft) : Except SqliteError Unit → Program Unit
  | .ok () => pure ()
  | .error (.constraint message) =>
    Db.throw (mapMeetingConstraintViolation (.constraint message) d.id d.dirPath)
  | .error e => Db.throw (sqlError e)

/-- The outcome of an insert into `note`: every violated constraint counts as a
note that exists. -/
def checkNoteInsert (d : NoteDraft) : Except SqliteError Unit → Program Unit
  | .ok () => pure ()
  | .error (.constraint _) => Db.throw (.alreadyExists d.id "note")
  | .error e => Db.throw (sqlError e)

variable (sql : Sqlite) (ambient : Ambient)

/-! ## Meetings -/

def createMeeting (d : MeetingDraft) : Program Meeting := do
  checkMeetingInsert d (← Db.attempt (execute (·.insertMeeting sql (d.row none none))))
  pure (d.toMeeting none none)

def createMeetingWithNote (meeting : MeetingDraft) (note : NoteDraft) (endedAt : Option String)
    (durationMs : Option Nat) : Program (Meeting × Note) := do
  if note.meetingId ≠ meeting.id then
    Db.throw (.sql "create_meeting_with_note: note.meeting_id must match meeting.id")
  else
    transaction do
      checkMeetingInsert meeting
        (← Db.attempt (execute (·.insertMeeting sql (meeting.row endedAt (durationMs.map asI64)))))
      checkNoteInsert note (← Db.attempt (execute (·.insertNote (note.toNote ambient.now))))
      pure (meeting.toMeeting endedAt durationMs, note.toNote ambient.now)

def getMeeting (id : String) : Program Meeting := do
  match ← select (·.selectMeeting id) with
  | some row => pure (mapMeetingRow row)
  | none => Db.throw (.notFound id "meeting")

/-- The loop over the rows, with a query for the tags of each. -/
def collectSummaries (filter : MeetingListFilter) :
    List (MeetingRow × Bool) → Program (List MeetingSummary)
  | [] => pure []
  | (row, hasNotes) :: rest => do
    let tags ← select (·.selectTagIds sql row.id)
    let summary := summaryOf row hasNotes tags
    let out ← collectSummaries filter rest
    pure (if filter.accepts summary then summary :: out else out)

def listMeetingsFiltered (filter : MeetingListFilter) : Program (List MeetingSummary) := do
  let rows ← select fun t => (t.selectMeetings sql).map fun row => (row, t.hasNotes row.id)
  collectSummaries sql filter rows

def listMeetings : Program (List MeetingSummary) := listMeetingsFiltered sql .all

def updateMeetingEnded (id endedAt : String) (durationMs : Nat) : Program Meeting := do
  let n ← change (·.updateMeeting id fun row =>
    { row with endedAt := some endedAt, durationMs := some (asI64 durationMs) })
  orNotFound "meeting" id n
  getMeeting id

def renameMeeting (id title : String) : Program Meeting := do
  let n ← change (·.updateMeeting id fun row => { row with title := title })
  orNotFound "meeting" id n
  getMeeting id

def deleteMeeting (id : String) : Program Unit := do
  orNotFound "meeting" id (← change (·.deleteMeeting id))

/-! ## Notes -/

def createNote (d : NoteDraft) : Program Note := do
  let exists_ ← select (·.hasMeeting d.meetingId)
  if exists_ then
    checkNoteInsert d (← Db.attempt (execute (·.insertNote (d.toNote ambient.now))))
    pure (d.toNote ambient.now)
  else Db.throw (.notFound d.meetingId "meeting")

def listNotesForMeeting (meetingId : String) : Program (List Note) :=
  select (·.selectNotes sql meetingId)

def replaceMeetingNote (meetingId : String) (draft : NoteDraft) : Program Note := do
  if draft.meetingId ≠ meetingId then
    Db.throw (.sql "replace_meeting_note: draft.meeting_id must match meeting_id")
  else
    transaction do
      let exists_ ← select (·.hasMeeting meetingId)
      if exists_ then
        change fun t => ((), t.deleteNotesOf meetingId)
        checkNoteInsert draft (← Db.attempt (execute (·.insertNote (draft.toNote ambient.now))))
        pure (draft.toNote ambient.now)
      else Db.throw (.notFound meetingId "meeting")

/-! ## Spaces, projects, tags -/

/-- `value.map_or(0, |v| v + 1)`. -/
def nextPosition (value : Option Int) : Int := (value.map (· + 1)).getD 0

def createSpace (name : String) : Program Space := do
  let position ← select fun t => nextPosition (t.space.map Space.position).max?
  let space : Space := ⟨newId "space" ambient.nanos ambient.counter, name, position⟩
  orSql (execute (·.insertSpace space))
  pure space

def listSpaces : Program (List Space) := select (·.selectSpaces sql)

def renameSpace (id name : String) : Program Unit := do
  orNotFound "space" id (← change (·.updateSpaceName id name))

def deleteSpace (id : String) : Program Unit := do
  orNotFound "space" id (← change (·.deleteSpace id))

def createProject (spaceId name : String) : Program Project := do
  ensureSpaceExists spaceId
  let position ← select fun t =>
    nextPosition ((t.project.filter (·.spaceId == spaceId)).map Project.position).max?
  let project : Project :=
    ⟨newId "project" ambient.nanos ambient.counter, spaceId, name, position⟩
  orSql (execute (·.insertProject project))
  pure project

def listProjects : Option String → Program (List Project)
  | some spaceId => select (·.selectProjectsOf sql spaceId)
  | none => select (·.selectProjects sql)

def renameProject (id name : String) : Program Unit := do
  orNotFound "project" id (← change (·.updateProjectName id name))

def deleteProject (id : String) : Program Unit := do
  orNotFound "project" id (← change (·.deleteProject id))

def createTag (name : String) : Program Tag := do
  match ← select (·.selectTagByName name) with
  | some tag => pure tag
  | none =>
    let tag : Tag := ⟨newId "tag" ambient.nanos ambient.counter, name⟩
    orSql (execute (·.insertTag tag))
    pure tag

def listTags : Program (List Tag) := select (·.selectTags sql)

def deleteTag (id : String) : Program Unit := do
  orNotFound "tag" id (← change (·.deleteTag id))

def tagMeeting (meetingId tagId : String) : Program Unit := do
  ensureMeetingExists meetingId
  ensureTagExists tagId
  orSql (execute (·.insertMeetingTag meetingId tagId))

def untagMeeting (meetingId tagId : String) : Program Unit := do
  ensureMeetingExists meetingId
  ensureTagExists tagId
  change fun t => ((), t.deleteMeetingTag meetingId tagId)

def listTagsForMeeting (meetingId : String) : Program (List Tag) := do
  ensureMeetingExists meetingId
  select (·.selectTagsOf sql meetingId)

/-- The space and the project that an assignment sets: a project brings its own
space. -/
def resolveAssignment (spaceId projectId : Option String) :
    Program (Option String × Option String) := do
  match projectId with
  | some projectId =>
    match ← select (·.selectProjectSpace projectId) with
    | some projectSpaceId => pure (some projectSpaceId, some projectId)
    | none => Db.throw (.notFound projectId "project")
  | none =>
    match spaceId with
    | some spaceId => ensureSpaceExists spaceId
    | none => pure ()
    pure (spaceId, none)

def assignMeeting (meetingId : String) (spaceId projectId : Option String) : Program Unit := do
  ensureMeetingExists meetingId
  let target ← resolveAssignment spaceId projectId
  orSql (execute (·.updateAssignment meetingId target.1 target.2))

/-! ## Calls -/

def reply {α : Type} (f : α → Reply) (x : Program α) : Program Reply := do
  pure (f (← x))

def call : Op → Program Reply
  | .createMeeting d => reply .meeting (createMeeting sql d)
  | .createMeetingWithNote m n endedAt durationMs =>
    reply (fun out => .meetingWithNote out.1 out.2)
      (createMeetingWithNote sql ambient m n endedAt durationMs)
  | .getMeeting id => reply .meeting (getMeeting id)
  | .listMeetings => reply .meetings (listMeetings sql)
  | .listMeetingsFiltered filter => reply .meetings (listMeetingsFiltered sql filter)
  | .updateMeetingEnded id endedAt durationMs =>
    reply .meeting (updateMeetingEnded id endedAt durationMs)
  | .renameMeeting id title => reply .meeting (renameMeeting id title)
  | .deleteMeeting id => reply (fun _ => .unit) (deleteMeeting id)
  | .createNote d => reply .note (createNote ambient d)
  | .listNotesForMeeting meetingId => reply .notes (listNotesForMeeting sql meetingId)
  | .replaceMeetingNote meetingId draft =>
    reply .note (replaceMeetingNote ambient meetingId draft)
  | .createSpace name => reply .space (createSpace ambient name)
  | .listSpaces => reply .spaces (listSpaces sql)
  | .renameSpace id name => reply (fun _ => .unit) (renameSpace id name)
  | .deleteSpace id => reply (fun _ => .unit) (deleteSpace id)
  | .createProject spaceId name => reply .project (createProject ambient spaceId name)
  | .listProjects spaceId => reply .projects (listProjects sql spaceId)
  | .renameProject id name => reply (fun _ => .unit) (renameProject id name)
  | .deleteProject id => reply (fun _ => .unit) (deleteProject id)
  | .createTag name => reply .tag (createTag ambient name)
  | .listTags => reply .tags (listTags sql)
  | .deleteTag id => reply (fun _ => .unit) (deleteTag id)
  | .tagMeeting meetingId tagId => reply (fun _ => .unit) (tagMeeting meetingId tagId)
  | .untagMeeting meetingId tagId => reply (fun _ => .unit) (untagMeeting meetingId tagId)
  | .listTagsForMeeting meetingId => reply .tags (listTagsForMeeting sql meetingId)
  | .assignMeeting meetingId spaceId projectId =>
    reply (fun _ => .unit) (assignMeeting meetingId spaceId projectId)

end RusqliteStorage
end Storage
end Panops
