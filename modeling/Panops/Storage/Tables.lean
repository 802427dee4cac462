import Mathlib.Data.List.Sort
import Mathlib.Data.String.Basic
import Panops.Storage.Port

/-!
# The tables of the registry

The schema, and what the SQL statements on it do.  A statement checks the
constraints of the schema and carries out its foreign-key actions; a column that
is written and never read is left out.  What SQL leaves open is a parameter: the
order in which rows that an `ORDER BY` does not tell apart are returned, and
which of two violated constraints is reported.
-/

namespace Panops
namespace Storage

structure MeetingRow where
  id : String
  title : String
  startedAt : String
  endedAt : Option String
  /-- A signed 64-bit integer. -/
  durationMs : Option Int
  language : String
  dirPath : String
  spaceId : Option String
  projectId : Option String
deriving DecidableEq

structure Tables where
  meeting : List MeetingRow
  note : List Note
  space : List Space
  project : List Project
  tag : List Tag
  meetingTag : List (String × String)

def Tables.empty : Tables := ⟨[], [], [], [], [], []⟩

/-- What SQL leaves open to the engine. -/
structure Sqlite where
  /-- The order in which the rows of a table are met. -/
  scan : {α : Type} → List α → List α
  scan_perm : ∀ {α : Type} (rows : List α), (scan rows).Perm rows
  /-- Whether a second meeting with both the id and the directory of others is
  reported for its directory. -/
  reportsDirPath : Bool

/-- An engine that meets rows in the order of their insertion. -/
def Sqlite.insertion : Sqlite where
  scan := id
  scan_perm := fun rows => List.Perm.refl rows
  reportsDirPath := false

/-- How a statement fails: on a constraint of the schema or otherwise. -/
inductive SqliteError where
  | constraint (message : String)
  | failure (message : String)
deriving DecidableEq

def SqliteError.message : SqliteError → String
  | constraint message => message
  | failure message => message

def uniqueMessage (column : String) : String := "UNIQUE constraint failed: " ++ column

def foreignKeyMessage : String := "FOREIGN KEY constraint failed"

/-- `ORDER BY`: the rows as they are met, sorted by a key. -/
def Sqlite.orderBy {α : Type} (sql : Sqlite) (le : α → α → Prop) [DecidableRel le]
    (rows : List α) : List α :=
  (sql.scan rows).insertionSort le

namespace Tables

variable (sql : Sqlite) (t : Tables)

def hasMeeting (id : String) : Bool := t.meeting.any (·.id == id)

def hasSpace (id : String) : Bool := t.space.any (·.id == id)

def hasProject (id : String) : Bool := t.project.any (·.id == id)

def hasTag (id : String) : Bool := t.tag.any (·.id == id)

/-! ## Inserts -/

/-- A meeting row refers to rows that exist. -/
def referencesHold (row : MeetingRow) : Bool :=
  row.spaceId.all t.hasSpace && row.projectId.all t.hasProject

def insertMeeting (row : MeetingRow) : Except SqliteError (Unit × Tables) :=
  let idTaken := t.hasMeeting row.id
  let dirTaken := t.meeting.any (·.dirPath == row.dirPath)
  if dirTaken && (sql.reportsDirPath || !idTaken) then
    .error (.constraint (uniqueMessage "meeting.dir_path"))
  else if idTaken then .error (.constraint (uniqueMessage "meeting.id"))
  else if !t.referencesHold row then .error (.constraint foreignKeyMessage)
  else .ok ((), { t with meeting := t.meeting ++ [row] })

def insertNote (n : Note) : Except SqliteError (Unit × Tables) :=
  if t.note.any (·.id == n.id) then .error (.constraint (uniqueMessage "note.id"))
  else if !t.hasMeeting n.meetingId then .error (.constraint foreignKeyMessage)
  else .ok ((), { t with note := t.note ++ [n] })

def insertSpace (s : Space) : Except SqliteError (Unit × Tables) :=
  if t.hasSpace s.id then .error (.constraint (uniqueMessage "space.id"))
  else .ok ((), { t with space := t.space ++ [s] })

def insertProject (p : Project) : Except SqliteError (Unit × Tables) :=
  if t.hasProject p.id then .error (.constraint (uniqueMessage "project.id"))
  else if !t.hasSpace p.spaceId then .error (.constraint foreignKeyMessage)
  else .ok ((), { t with project := t.project ++ [p] })

def insertTag (tag : Tag) : Except SqliteError (Unit × Tables) :=
  if t.hasTag tag.id then .error (.constraint (uniqueMessage "tag.id"))
  else if t.tag.any (·.name == tag.name) then .error (.constraint (uniqueMessage "tag.name"))
  else .ok ((), { t with tag := t.tag ++ [tag] })

/-- `INSERT OR IGNORE INTO meeting_tag`: a pair that is there already is no
error, a reference that does not hold is. -/
def insertMeetingTag (meetingId tagId : String) : Except SqliteError (Unit × Tables) :=
  if t.meetingTag.contains (meetingId, tagId) then .ok ((), t)
  else if !(t.hasMeeting meetingId && t.hasTag tagId) then .error (.constraint foreignKeyMessage)
  else .ok ((), { t with meetingTag := t.meetingTag ++ [(meetingId, tagId)] })

/-! ## Updates

Each returns the number of rows it changed. -/

def updateMeeting (id : String) (f : MeetingRow → MeetingRow) : Nat × Tables :=
  (t.meeting.countP (·.id == id),
    { t with meeting := t.meeting.map fun row => if row.id = id then f row else row })

def updateSpaceName (id name : String) : Nat × Tables :=
  (t.space.countP (·.id == id),
    { t with space := t.space.map fun s => if s.id = id then { s with name := name } else s })

def updateProjectName (id name : String) : Nat × Tables :=
  (t.project.countP (·.id == id),
    { t with project := t.project.map fun p => if p.id = id then { p with name := name } else p })

/-- `UPDATE meeting SET space_id, project_id`, with the references checked. -/
def updateAssignment (id : String) (spaceId projectId : Option String) :
    Except SqliteError (Unit × Tables) :=
  if t.hasMeeting id && !(spaceId.all t.hasSpace && projectId.all t.hasProject) then
    .error (.constraint foreignKeyMessage)
  else
    .ok ((), (t.updateMeeting id fun row =>
      { row with spaceId := spaceId, projectId := projectId }).2)

/-! ## Deletes

With the actions of the references to the deleted rows: `CASCADE` for notes,
projects and tag pairs, `SET NULL` for the space and the project of a meeting.
Each returns the number of rows it was asked to delete. -/

def deleteMeeting (id : String) : Nat × Tables :=
  let gone := fun meetingId => t.hasMeeting id && meetingId == id
  (t.meeting.countP (·.id == id),
    { t with
      meeting := t.meeting.filter (·.id != id)
      note := t.note.filter fun n => !gone n.meetingId
      meetingTag := t.meetingTag.filter fun pair => !gone pair.1 })

def deleteNotesOf (meetingId : String) : Tables :=
  { t with note := t.note.filter (·.meetingId != meetingId) }

/-- The meetings when some projects go. -/
def clearProjects (gone : Project → Bool) : List MeetingRow :=
  t.meeting.map fun row =>
    if t.project.any fun p => gone p && row.projectId == some p.id then
      { row with projectId := none }
    else row

def deleteProject (id : String) : Nat × Tables :=
  (t.project.countP (·.id == id),
    { t with
      project := t.project.filter (·.id != id)
      meeting := t.clearProjects (·.id == id) })

/-- The space's projects go with it, and their meetings lose their project. -/
def deleteSpace (id : String) : Nat × Tables :=
  let gone := fun spaceId => t.hasSpace id && spaceId == id
  (t.space.countP (·.id == id),
    { t with
      space := t.space.filter (·.id != id)
      project := t.project.filter fun p => !gone p.spaceId
      meeting := (t.clearProjects fun p => gone p.spaceId).map fun row =>
        if row.spaceId.any gone then { row with spaceId := none } else row })

def deleteTag (id : String) : Nat × Tables :=
  let gone := fun tagId => t.hasTag id && tagId == id
  (t.tag.countP (·.id == id),
    { t with
      tag := t.tag.filter (·.id != id)
      meetingTag := t.meetingTag.filter fun pair => !gone pair.2 })

def deleteMeetingTag (meetingId tagId : String) : Tables :=
  { t with meetingTag := t.meetingTag.filter (· != (meetingId, tagId)) }

/-! ## Queries -/

def selectMeeting (id : String) : Option MeetingRow := t.meeting.find? (·.id == id)

def selectProjectSpace (id : String) : Option String :=
  (t.project.find? (·.id == id)).map Project.spaceId

def selectTagByName (name : String) : Option Tag := t.tag.find? (·.name == name)

/-- `ORDER BY started_at DESC`. -/
def selectMeetings : List MeetingRow := sql.orderBy (fun a b => b.startedAt ≤ a.startedAt) t.meeting

def hasNotes (meetingId : String) : Bool := t.note.any (·.meetingId == meetingId)

/-- `ORDER BY created_at ASC`. -/
def selectNotes (meetingId : String) : List Note :=
  sql.orderBy (fun a b => a.createdAt ≤ b.createdAt) (t.note.filter (·.meetingId == meetingId))

def selectTagIds (meetingId : String) : List String :=
  sql.orderBy (· ≤ ·) ((t.meetingTag.filter (·.1 == meetingId)).map Prod.snd)

/-- `ORDER BY position ASC, name ASC`. -/
def selectSpaces : List Space :=
  sql.orderBy (fun a b => a.position < b.position ∨ a.position = b.position ∧ a.name ≤ b.name)
    t.space

/-- `ORDER BY position ASC, name ASC` within one space. -/
def selectProjectsOf (spaceId : String) : List Project :=
  sql.orderBy (fun a b => a.position < b.position ∨ a.position = b.position ∧ a.name ≤ b.name)
    (t.project.filter (·.spaceId == spaceId))

/-- `ORDER BY space_id ASC, position ASC, name ASC`. -/
def selectProjects : List Project :=
  sql.orderBy
    (fun a b => a.spaceId < b.spaceId ∨ a.spaceId = b.spaceId ∧
      (a.position < b.position ∨ a.position = b.position ∧ a.name ≤ b.name))
    t.project

/-- `ORDER BY name ASC, id ASC`. -/
def sortTags (tags : List Tag) : List Tag :=
  sql.orderBy (fun a b => a.name < b.name ∨ a.name = b.name ∧ a.id ≤ b.id) tags

def selectTags : List Tag := sortTags sql t.tag

/-- The tags joined to the pairs of a meeting. -/
def selectTagsOf (meetingId : String) : List Tag :=
  sortTags sql (t.tag.flatMap fun tag =>
    (t.meetingTag.filter (· == (meetingId, tag.id))).map fun _ => tag)

end Tables
end Storage
end Panops
