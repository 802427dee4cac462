import Panops.Storage.InMemory
import Panops.Storage.Statements

/-!
# One run in two stores

The ids of spaces, projects and tags are made by the store, and so are the times
of notes.  A run in the fake and the run with the same calls in SQLite are
compared up to a renaming of these ids and up to the two clocks.
-/

namespace Panops
namespace Storage

variable (ρ : String → String) (clock : String → String → Prop)

def Space.rename (s : Space) : Space := { s with id := ρ s.id }

def Project.rename (p : Project) : Project := { p with id := ρ p.id, spaceId := ρ p.spaceId }

def Tag.rename (tag : Tag) : Tag := { tag with id := ρ tag.id }

def MeetingSummary.rename (s : MeetingSummary) : MeetingSummary :=
  { s with
    spaceId := s.spaceId.map ρ
    projectId := s.projectId.map ρ
    tags := s.tags.map ρ }

def MeetingListFilter.rename (filter : MeetingListFilter) : MeetingListFilter :=
  { filter with
    spaceId := filter.spaceId.map ρ
    projectId := filter.projectId.map ρ
    tagId := filter.tagId.map ρ }

/-- The id of a meeting is the caller's, every other id that can be missed is
the store's. -/
def StorageError.rename : StorageError → StorageError
  | notFound id kind => notFound (if kind = "meeting" then id else ρ id) kind
  | e => e

/-- The same call, with the ids that the other store has given. -/
def Op.rename : Op → Op
  | createMeeting d => createMeeting d
  | createMeetingWithNote m n endedAt durationMs => createMeetingWithNote m n endedAt durationMs
  | getMeeting id => getMeeting id
  | listMeetings => listMeetings
  | listMeetingsFiltered filter => listMeetingsFiltered (filter.rename ρ)
  | updateMeetingEnded id endedAt durationMs => updateMeetingEnded id endedAt durationMs
  | renameMeeting id title => renameMeeting id title
  | deleteMeeting id => deleteMeeting id
  | createNote d => createNote d
  | listNotesForMeeting meetingId => listNotesForMeeting meetingId
  | replaceMeetingNote meetingId draft => replaceMeetingNote meetingId draft
  | createSpace name => createSpace name
  | listSpaces => listSpaces
  | renameSpace id name => renameSpace (ρ id) name
  | deleteSpace id => deleteSpace (ρ id)
  | createProject spaceId name => createProject (ρ spaceId) name
  | listProjects spaceId => listProjects (spaceId.map ρ)
  | renameProject id name => renameProject (ρ id) name
  | deleteProject id => deleteProject (ρ id)
  | createTag name => createTag name
  | listTags => listTags
  | deleteTag id => deleteTag (ρ id)
  | tagMeeting meetingId tagId => tagMeeting meetingId (ρ tagId)
  | untagMeeting meetingId tagId => untagMeeting meetingId (ρ tagId)
  | listTagsForMeeting meetingId => listTagsForMeeting meetingId
  | assignMeeting meetingId spaceId projectId =>
    assignMeeting meetingId (spaceId.map ρ) (projectId.map ρ)

/-- One note in two stores: `clock` are the pairs of times at which the two made
the same call. -/
structure SameNote (n n' : Note) : Prop where
  id : n'.id = n.id
  meetingId : n'.meetingId = n.meetingId
  dialect : n'.dialect = n.dialect
  contentMd : n'.contentMd = n.contentMd
  primaryPath : n'.primaryPath = n.primaryPath
  createdAt : clock n.createdAt n'.createdAt

inductive SameReply : Reply → Reply → Prop
  | unit : SameReply .unit .unit
  | meeting (m : Meeting) : SameReply (.meeting m) (.meeting m)
  | meetingWithNote (m : Meeting) {n n' : Note} (h : SameNote clock n n') :
    SameReply (.meetingWithNote m n) (.meetingWithNote m n')
  | meetings (ms : List MeetingSummary) :
    SameReply (.meetings ms) (.meetings (ms.map (MeetingSummary.rename ρ)))
  | note {n n' : Note} (h : SameNote clock n n') : SameReply (.note n) (.note n')
  | notes {ns ns' : List Note} (h : List.Forall₂ (SameNote clock) ns ns') :
    SameReply (.notes ns) (.notes ns')
  | space (s : Space) : SameReply (.space s) (.space (s.rename ρ))
  | spaces (ss : List Space) : SameReply (.spaces ss) (.spaces (ss.map (Space.rename ρ)))
  | project (p : Project) : SameReply (.project p) (.project (p.rename ρ))
  | projects (ps : List Project) :
    SameReply (.projects ps) (.projects (ps.map (Project.rename ρ)))
  | tag (t : Tag) : SameReply (.tag t) (.tag (t.rename ρ))
  | tags (ts : List Tag) : SameReply (.tags ts) (.tags (ts.map (Tag.rename ρ)))

/-- The same outcome: `R` relates what is returned, an error is the same error
about the renamed id. -/
def SameOutcome {α β : Type} (R : α → β → Prop) :
    Except StorageError α → Except StorageError β → Prop
  | .ok a, .ok b => R a b
  | .error e, .error e' => e' = e.rename ρ
  | _, _ => False

/-- Both succeed, or both fail with the same variant of `StorageError`. -/
def SameVariant {α β : Type} : Except StorageError α → Except StorageError β → Prop
  | .ok _, .ok _ => True
  | .error (.notFound _ _), .error (.notFound _ _) => True
  | .error (.alreadyExists _ _), .error (.alreadyExists _ _) => True
  | .error (.uniqueConflict _ _ _), .error (.uniqueConflict _ _ _) => True
  | .error (.sql _), .error (.sql _) => True
  | _, _ => False

/-- A call that both stores get. -/
structure PairedCall where
  op : Op
  /-- The fake's clock. -/
  now : String
  /-- The clock and the source of ids of the other store. -/
  ambient : Ambient

namespace PairedCall

variable (order : HashOrder) (sql : Sqlite) (c : PairedCall)

def inMemory (s : InMemory) : Except StorageError Reply × InMemory := s.call order c.now c.op

def rusqlite (t : Tables) : Except StorageError Reply × Tables :=
  RusqliteStorage.step sql t ⟨c.op.rename ρ, c.ambient, []⟩

/-- The id that the call makes in each store, if it makes one. -/
def Renames (s : InMemory) : Prop :=
  match c.op with
  | .createSpace _ =>
    newId "space" c.ambient.nanos c.ambient.counter =
      ρ (InMemory.numberedId "space" s.nextSpaceId)
  | .createProject spaceId _ =>
    s.spaces.containsKey spaceId = true →
      newId "project" c.ambient.nanos c.ambient.counter =
        ρ (InMemory.numberedId "project" s.nextProjectId)
  | .createTag name =>
    s.tags.values.any (·.name == name) = false →
      newId "tag" c.ambient.nanos c.ambient.counter =
        ρ (InMemory.numberedId "tag" s.nextTagId)
  | _ => True

/-- The id and the directory of a new meeting are not both taken, unless SQLite
reports the id then. -/
def OneConflict (d : MeetingDraft) (s : InMemory) : Prop :=
  ¬ (sql.reportsDirPath = true ∧ s.meetings.containsKey d.id = true ∧
    s.hasDirPath d.dirPath = true)

/-- The listed meetings have times of their own, and their tags sort alike under
both sets of ids. -/
def ListsAlike (filter : MeetingListFilter) (s : InMemory) : Prop :=
  ((s.meetings.values.filter (s.accepts filter)).map Meeting.startedAt).Nodup ∧
    ∀ m ∈ s.meetings.values, s.accepts filter m = true →
      ∀ a ∈ s.tagsOf m.id, ∀ b ∈ s.tagsOf m.id, a ≤ b → ρ a ≤ ρ b

/-- The calls, and the states they are made in, on which the two stores agree. -/
def Comparable (s : InMemory) : Prop :=
  match c.op with
  | .createMeeting d => OneConflict sql d s
  | .createMeetingWithNote m n _ durationMs =>
    if n.meetingId = m.id then OneConflict sql m s ∧ ∀ d, durationMs = some d → d < 2 ^ 63
    else s.meetings.containsKey m.id = false ∧ s.hasDirPath m.dirPath = false
  | .listMeetings => ListsAlike ρ .all s
  | .listMeetingsFiltered filter => ListsAlike ρ filter s
  | .updateMeetingEnded id _ durationMs =>
    s.meetings.containsKey id = true → durationMs < 2 ^ 63
  | .listNotesForMeeting meetingId =>
    (s.notes.values.filter (·.meetingId == meetingId)).length ≤ 1
  | .listProjects none =>
    ∀ p ∈ s.projects.values, ∀ q ∈ s.projects.values, p.spaceId ≤ q.spaceId →
      ρ p.spaceId ≤ ρ q.spaceId
  | _ => True

/-- The outcomes of a run in the two stores, call by call. -/
def observe : List PairedCall → InMemory → Tables →
    List (Except StorageError Reply × Except StorageError Reply)
  | [], _, _ => []
  | c :: rest, s, t =>
    ((c.inMemory order s).1, (c.rusqlite ρ sql t).1) ::
      observe rest (c.inMemory order s).2 (c.rusqlite ρ sql t).2

/-- Every call of the run, in the state the calls before it have left. -/
def Throughout (P : PairedCall → InMemory → Prop) : List PairedCall → InMemory → Prop
  | [], _ => True
  | c :: rest, s => P c s ∧ Throughout P rest (c.inMemory order s).2

end PairedCall
end Storage
end Panops
