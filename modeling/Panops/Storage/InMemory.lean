import Mathlib.Data.List.Sort
import Panops.Lib.HashMap
import Panops.Storage.Port

/-!
# `InMemoryStorage`

The in-process fake of the storage port: hash maps that are changed under one
lock, with the cascades of the schema done by hand.  The order in which the
values of a hash map are met is a parameter.
-/

namespace Panops
namespace Storage

open Lib (HashMap)

structure InMemory where
  meetings : HashMap String Meeting
  notes : HashMap String Note
  spaces : HashMap String Space
  projects : HashMap String Project
  tags : HashMap String Tag
  meetingTags : HashMap String (List String)
  meetingSpaces : HashMap String String
  meetingProjects : HashMap String String
  nextSpaceId : Nat
  nextProjectId : Nat
  nextTagId : Nat

/-- The order in which the values of a hash map are met. -/
structure HashOrder where
  iterate : {α : Type} → List α → List α
  iterate_perm : ∀ {α : Type} (values : List α), (iterate values).Perm values

def HashOrder.insertion : HashOrder where
  iterate := id
  iterate_perm := fun values => List.Perm.refl values

namespace InMemory

/-- `InMemoryStorage::new`. -/
def new : InMemory where
  meetings := .empty
  notes := .empty
  spaces := .empty
  projects := .empty
  tags := .empty
  meetingTags := .empty
  meetingSpaces := .empty
  meetingProjects := .empty
  nextSpaceId := 1
  nextProjectId := 1
  nextTagId := 1

variable (order : HashOrder) (now : String) (s : InMemory)

/-- `format!("{kind}_{n}")`. -/
def numberedId (kind : String) (n : Nat) : String := kind ++ "_" ++ Nat.repr n

/-- `sort_by`, which is stable. -/
def sortBy {α : Type} (le : α → α → Prop) [DecidableRel le] (rows : List α) : List α :=
  rows.insertionSort le

def nextPosition (positions : List Int) : Int := (positions.max?.map (· + 1)).getD 0

def hasDirPath (dirPath : String) : Bool := s.meetings.values.any (·.dirPath == dirPath)

/-! ## Meetings -/

def createMeeting (d : MeetingDraft) : Except StorageError Meeting × InMemory :=
  if s.meetings.containsKey d.id then (.error (.alreadyExists d.id "meeting"), s)
  else if s.hasDirPath d.dirPath then
    (.error (.uniqueConflict "meeting" "dir_path" d.dirPath), s)
  else
    let m : Meeting := ⟨d.id, d.title, d.startedAt, none, none, d.language, d.dirPath⟩
    (.ok m, { s with meetings := s.meetings.insert d.id m })

def createMeetingWithNote (meeting : MeetingDraft) (note : NoteDraft) (endedAt : Option String)
    (durationMs : Option Nat) : Except StorageError (Meeting × Note) × InMemory :=
  if s.meetings.containsKey meeting.id then (.error (.alreadyExists meeting.id "meeting"), s)
  else if s.hasDirPath meeting.dirPath then
    (.error (.uniqueConflict "meeting" "dir_path" meeting.dirPath), s)
  else if note.meetingId ≠ meeting.id then
    (.error (.sql "create_meeting_with_note: note.meeting_id must match meeting.id"), s)
  else if s.notes.containsKey note.id then (.error (.alreadyExists note.id "note"), s)
  else
    let m : Meeting := ⟨meeting.id, meeting.title, meeting.startedAt, endedAt, durationMs,
      meeting.language, meeting.dirPath⟩
    let n := note.toNote now
    (.ok (m, n),
      { s with meetings := s.meetings.insert meeting.id m, notes := s.notes.insert note.id n })

def getMeeting (id : String) : Except StorageError Meeting × InMemory :=
  match s.meetings.get id with
  | some m => (.ok m, s)
  | none => (.error (.notFound id "meeting"), s)

def tagsOf (meetingId : String) : List String := (s.meetingTags.get meetingId).getD []

/-- The `filter` of `list_meetings_filtered`. -/
def accepts (filter : MeetingListFilter) (m : Meeting) : Bool :=
  !(filter.unsorted && s.meetingSpaces.containsKey m.id) &&
    filter.spaceId.all (fun id => s.meetingSpaces.get m.id == some id) &&
    filter.projectId.all (fun id => s.meetingProjects.get m.id == some id) &&
    filter.tagId.all fun id => (s.meetingTags.get m.id).any fun tags => tags.any (· == id)

def summaryOf (m : Meeting) : MeetingSummary where
  id := m.id
  title := m.title
  startedAt := m.startedAt
  endedAt := m.endedAt
  durationMs := m.durationMs.getD 0
  language := m.language
  hasNotes := s.notes.values.any (·.meetingId == m.id)
  spaceId := s.meetingSpaces.get m.id
  projectId := s.meetingProjects.get m.id
  tags := s.tagsOf m.id

def listMeetingsFiltered (filter : MeetingListFilter) : List MeetingSummary :=
  sortBy (fun a b => b.startedAt ≤ a.startedAt)
    (((order.iterate s.meetings.values).filter (s.accepts filter)).map s.summaryOf)

/-- `get_mut` of a meeting, a change, and the changed meeting. -/
def changeMeeting (id : String) (f : Meeting → Meeting) :
    Except StorageError Meeting × InMemory :=
  match s.meetings.get id with
  | some m => (.ok (f m), { s with meetings := s.meetings.alter id f })
  | none => (.error (.notFound id "meeting"), s)

def updateMeetingEnded (id endedAt : String) (durationMs : Nat) :
    Except StorageError Meeting × InMemory :=
  s.changeMeeting id fun m => { m with endedAt := some endedAt, durationMs := some durationMs }

def renameMeeting (id title : String) : Except StorageError Meeting × InMemory :=
  s.changeMeeting id fun m => { m with title := title }

def deleteMeeting (id : String) : Except StorageError Unit × InMemory :=
  if s.meetings.containsKey id then
    (.ok (),
      { s with
        meetings := s.meetings.remove id
        notes := s.notes.retain fun _ n => n.meetingId != id
        meetingTags := s.meetingTags.remove id
        meetingSpaces := s.meetingSpaces.remove id
        meetingProjects := s.meetingProjects.remove id })
  else (.error (.notFound id "meeting"), s)

/-! ## Notes -/

def createNote (d : NoteDraft) : Except StorageError Note × InMemory :=
  if s.meetings.containsKey d.meetingId then
    if s.notes.containsKey d.id then (.error (.alreadyExists d.id "note"), s)
    else (.ok (d.toNote now), { s with notes := s.notes.insert d.id (d.toNote now) })
  else (.error (.notFound d.meetingId "meeting"), s)

def listNotesForMeeting (meetingId : String) : List Note :=
  (order.iterate s.notes.values).filter (·.meetingId == meetingId)

def replaceMeetingNote (meetingId : String) (draft : NoteDraft) :
    Except StorageError Note × InMemory :=
  if draft.meetingId ≠ meetingId then
    (.error (.sql "replace_meeting_note: draft.meeting_id must match meeting_id"), s)
  else if s.meetings.containsKey meetingId then
    if (s.notes.get draft.id).any (·.meetingId != meetingId) then
      (.error (.alreadyExists draft.id "note"), s)
    else
      (.ok (draft.toNote now),
        { s with
          notes := (s.notes.retain fun _ n => n.meetingId != meetingId).insert draft.id
            (draft.toNote now) })
  else (.error (.notFound meetingId "meeting"), s)

/-! ## Spaces and projects -/

def createSpace (name : String) : Except StorageError Space × InMemory :=
  let id := numberedId "space" s.nextSpaceId
  let space : Space := ⟨id, name, nextPosition (s.spaces.values.map Space.position)⟩
  (.ok space, { s with spaces := s.spaces.insert id space, nextSpaceId := s.nextSpaceId + 1 })

def listSpaces : List Space :=
  sortBy (fun a b => a.position < b.position ∨ a.position = b.position ∧ a.name ≤ b.name)
    (order.iterate s.spaces.values)

def renameSpace (id name : String) : Except StorageError Unit × InMemory :=
  if s.spaces.containsKey id then
    (.ok (), { s with spaces := s.spaces.alter id fun space => { space with name := name } })
  else (.error (.notFound id "space"), s)

/-- The keys of the entries with a value, collected before they are removed; in
which order they are removed does not matter. -/
def keysWith (m : HashMap String String) (value : String) : List String :=
  (m.entries.filter (·.2 == value)).map Prod.fst

def clearSpaceAssignments (spaceId : String) : InMemory :=
  { s with meetingSpaces := s.meetingSpaces.removeAll (keysWith s.meetingSpaces spaceId) }

def clearProjectAssignments (projectId : String) : InMemory :=
  { s with meetingProjects := s.meetingProjects.removeAll (keysWith s.meetingProjects projectId) }

/-- The loop over the projects of a deleted space. -/
def removeProjects : List String → InMemory → InMemory
  | [], s => s
  | id :: rest, s =>
    removeProjects rest ({ s with projects := s.projects.remove id }.clearProjectAssignments id)

def projectIdsOf (spaceId : String) : List String :=
  (s.projects.values.filter (·.spaceId == spaceId)).map Project.id

def deleteSpace (id : String) : Except StorageError Unit × InMemory :=
  if s.spaces.containsKey id then
    let cleared := removeProjects (s.projectIdsOf id) { s with spaces := s.spaces.remove id }
    (.ok (), cleared.clearSpaceAssignments id)
  else (.error (.notFound id "space"), s)

def createProject (spaceId name : String) : Except StorageError Project × InMemory :=
  if s.spaces.containsKey spaceId then
    let id := numberedId "project" s.nextProjectId
    let position := nextPosition
      ((s.projects.values.filter (·.spaceId == spaceId)).map Project.position)
    let project : Project := ⟨id, spaceId, name, position⟩
    (.ok project,
      { s with projects := s.projects.insert id project, nextProjectId := s.nextProjectId + 1 })
  else (.error (.notFound spaceId "space"), s)

def listProjects (spaceId : Option String) : List Project :=
  sortBy (fun a b => a.spaceId < b.spaceId ∨ a.spaceId = b.spaceId ∧
      (a.position < b.position ∨ a.position = b.position ∧ a.name ≤ b.name))
    ((order.iterate s.projects.values).filter fun p => spaceId.all (p.spaceId == ·))

def renameProject (id name : String) : Except StorageError Unit × InMemory :=
  if s.projects.containsKey id then
    (.ok (), { s with projects := s.projects.alter id fun p => { p with name := name } })
  else (.error (.notFound id "project"), s)

def deleteProject (id : String) : Except StorageError Unit × InMemory :=
  if s.projects.containsKey id then
    (.ok (), { s with projects := s.projects.remove id }.clearProjectAssignments id)
  else (.error (.notFound id "project"), s)

/-! ## Tags -/

def createTag (name : String) : Except StorageError Tag × InMemory :=
  match (order.iterate s.tags.values).find? (·.name == name) with
  | some existing => (.ok existing, s)
  | none =>
    let id := numberedId "tag" s.nextTagId
    let tag : Tag := ⟨id, name⟩
    (.ok tag, { s with tags := s.tags.insert id tag, nextTagId := s.nextTagId + 1 })

def sortTags (tags : List Tag) : List Tag :=
  sortBy (fun a b => a.name < b.name ∨ a.name = b.name ∧ a.id ≤ b.id) tags

def listTags : List Tag := sortTags (order.iterate s.tags.values)

def deleteTag (id : String) : Except StorageError Unit × InMemory :=
  if s.tags.containsKey id then
    (.ok (),
      { s with
        tags := s.tags.remove id
        meetingTags := s.meetingTags.mapValues fun tagIds => tagIds.filter (· != id) })
  else (.error (.notFound id "tag"), s)

/-- `ensure_meeting_exists` and `ensure_tag_exists` before a change of the tags. -/
def withTag (meetingId tagId : String) (change : InMemory → InMemory) :
    Except StorageError Unit × InMemory :=
  if s.meetings.containsKey meetingId then
    if s.tags.containsKey tagId then (.ok (), change s)
    else (.error (.notFound tagId "tag"), s)
  else (.error (.notFound meetingId "meeting"), s)

/-- `entry(meeting_id).or_default()`, and the tag pushed and sorted in when it
is not there. -/
def pushTag (meetingId tagId : String) (s : InMemory) : InMemory :=
  let tags := s.tagsOf meetingId
  let tags' := if tags.any (· == tagId) then tags else sortBy (· ≤ ·) (tags ++ [tagId])
  { s with meetingTags := s.meetingTags.insert meetingId tags' }

def dropTag (meetingId tagId : String) (s : InMemory) : InMemory :=
  { s with meetingTags := s.meetingTags.alter meetingId fun tags => tags.filter (· != tagId) }

def tagMeeting (meetingId tagId : String) : Except StorageError Unit × InMemory :=
  s.withTag meetingId tagId (pushTag meetingId tagId)

def untagMeeting (meetingId tagId : String) : Except StorageError Unit × InMemory :=
  s.withTag meetingId tagId (dropTag meetingId tagId)

def listTagsForMeeting (meetingId : String) : Except StorageError (List Tag) × InMemory :=
  if s.meetings.containsKey meetingId then
    (.ok (sortTags ((s.tagsOf meetingId).filterMap s.tags.get)), s)
  else (.error (.notFound meetingId "meeting"), s)

/-! ## Assignments -/

/-- One of the two halves of `set_assignment`. -/
def setPlace (m : HashMap String String) (meetingId : String) : Option String →
    HashMap String String
  | some id => m.insert meetingId id
  | none => m.remove meetingId

def setAssignment (meetingId : String) (spaceId projectId : Option String) : InMemory :=
  { s with
    meetingSpaces := setPlace s.meetingSpaces meetingId spaceId
    meetingProjects := setPlace s.meetingProjects meetingId projectId }

def assignMeeting (meetingId : String) (spaceId projectId : Option String) :
    Except StorageError Unit × InMemory :=
  if s.meetings.containsKey meetingId then
    match projectId with
    | some projectId =>
      match s.projects.get projectId with
      | some project =>
        (.ok (), s.setAssignment meetingId (some project.spaceId) (some project.id))
      | none => (.error (.notFound projectId "project"), s)
    | none =>
      match spaceId with
      | some spaceId =>
        if s.spaces.containsKey spaceId then
          (.ok (), s.setAssignment meetingId (some spaceId) none)
        else (.error (.notFound spaceId "space"), s)
      | none => (.ok (), s.setAssignment meetingId none none)
  else (.error (.notFound meetingId "meeting"), s)

/-! ## Calls -/

/-- The reply of an operation. -/
def replyWith {α : Type} (f : α → Reply) (out : Except StorageError α × InMemory) :
    Except StorageError Reply × InMemory :=
  (out.1.map f, out.2)

def call (op : Op) : Except StorageError Reply × InMemory :=
  match op with
  | .createMeeting d => replyWith .meeting (s.createMeeting d)
  | .createMeetingWithNote m n endedAt durationMs =>
    replyWith (fun out => .meetingWithNote out.1 out.2)
      (s.createMeetingWithNote now m n endedAt durationMs)
  | .getMeeting id => replyWith .meeting (s.getMeeting id)
  | .listMeetings => (.ok (.meetings (s.listMeetingsFiltered order .all)), s)
  | .listMeetingsFiltered filter => (.ok (.meetings (s.listMeetingsFiltered order filter)), s)
  | .updateMeetingEnded id endedAt durationMs =>
    replyWith .meeting (s.updateMeetingEnded id endedAt durationMs)
  | .renameMeeting id title => replyWith .meeting (s.renameMeeting id title)
  | .deleteMeeting id => replyWith (fun _ => .unit) (s.deleteMeeting id)
  | .createNote d => replyWith .note (s.createNote now d)
  | .listNotesForMeeting meetingId => (.ok (.notes (s.listNotesForMeeting order meetingId)), s)
  | .replaceMeetingNote meetingId draft =>
    replyWith .note (s.replaceMeetingNote now meetingId draft)
  | .createSpace name => replyWith .space (s.createSpace name)
  | .listSpaces => (.ok (.spaces (s.listSpaces order)), s)
  | .renameSpace id name => replyWith (fun _ => .unit) (s.renameSpace id name)
  | .deleteSpace id => replyWith (fun _ => .unit) (s.deleteSpace id)
  | .createProject spaceId name => replyWith .project (s.createProject spaceId name)
  | .listProjects spaceId => (.ok (.projects (s.listProjects order spaceId)), s)
  | .renameProject id name => replyWith (fun _ => .unit) (s.renameProject id name)
  | .deleteProject id => replyWith (fun _ => .unit) (s.deleteProject id)
  | .createTag name => replyWith .tag (s.createTag order name)
  | .listTags => (.ok (.tags (s.listTags order)), s)
  | .deleteTag id => replyWith (fun _ => .unit) (s.deleteTag id)
  | .tagMeeting meetingId tagId => replyWith (fun _ => .unit) (s.tagMeeting meetingId tagId)
  | .untagMeeting meetingId tagId => replyWith (fun _ => .unit) (s.untagMeeting meetingId tagId)
  | .listTagsForMeeting meetingId => replyWith .tags (s.listTagsForMeeting meetingId)
  | .assignMeeting meetingId spaceId projectId =>
    replyWith (fun _ => .unit) (s.assignMeeting meetingId spaceId projectId)

end InMemory
end Storage
end Panops
