/-!
# The storage port

The rows of the meeting registry, the errors of its operations, and the
operations as data, so that a run is a list of calls.
-/

namespace Panops
namespace Storage

structure MeetingDraft where
  id : String
  title : String
  startedAt : String
  language : String
  dirPath : String
deriving DecidableEq

structure Meeting where
  id : String
  title : String
  startedAt : String
  endedAt : Option String
  durationMs : Option Nat
  language : String
  dirPath : String
deriving DecidableEq

structure MeetingSummary where
  id : String
  title : String
  startedAt : String
  endedAt : Option String
  durationMs : Nat
  language : String
  hasNotes : Bool
  spaceId : Option String
  projectId : Option String
  tags : List String
deriving DecidableEq

structure MeetingListFilter where
  spaceId : Option String
  projectId : Option String
  tagId : Option String
  unsorted : Bool
deriving DecidableEq

/-- `MeetingListFilter::default()`. -/
def MeetingListFilter.all : MeetingListFilter := ⟨none, none, none, false⟩

structure Space where
  id : String
  name : String
  position : Int
deriving DecidableEq

structure Project where
  id : String
  spaceId : String
  name : String
  position : Int
deriving DecidableEq

structure Tag where
  id : String
  name : String
deriving DecidableEq

structure NoteDraft where
  id : String
  meetingId : String
  dialect : String
  contentMd : String
  primaryPath : String
deriving DecidableEq

structure Note where
  id : String
  meetingId : String
  dialect : String
  contentMd : String
  primaryPath : String
  createdAt : String
deriving DecidableEq

def NoteDraft.toNote (d : NoteDraft) (createdAt : String) : Note where
  id := d.id
  meetingId := d.meetingId
  dialect := d.dialect
  contentMd := d.contentMd
  primaryPath := d.primaryPath
  createdAt := createdAt

inductive StorageError where
  | notFound (id kind : String)
  | alreadyExists (id kind : String)
  | uniqueConflict (kind field value : String)
  | sql (message : String)
deriving DecidableEq

/-- A call of the `Storage` trait. -/
inductive Op where
  | createMeeting (d : MeetingDraft)
  | createMeetingWithNote (meeting : MeetingDraft) (note : NoteDraft) (endedAt : Option String)
      (durationMs : Option Nat)
  | getMeeting (id : String)
  | listMeetings
  | listMeetingsFiltered (filter : MeetingListFilter)
  | updateMeetingEnded (id endedAt : String) (durationMs : Nat)
  | renameMeeting (id title : String)
  | deleteMeeting (id : String)
  | createNote (d : NoteDraft)
  | listNotesForMeeting (meetingId : String)
  | replaceMeetingNote (meetingId : String) (draft : NoteDraft)
  | createSpace (name : String)
  | listSpaces
  | renameSpace (id name : String)
  | deleteSpace (id : String)
  | createProject (spaceId name : String)
  | listProjects (spaceId : Option String)
  | renameProject (id name : String)
  | deleteProject (id : String)
  | createTag (name : String)
  | listTags
  | deleteTag (id : String)
  | tagMeeting (meetingId tagId : String)
  | untagMeeting (meetingId tagId : String)
  | listTagsForMeeting (meetingId : String)
  | assignMeeting (meetingId : String) (spaceId projectId : Option String)

/-- What a call returns when it succeeds. -/
inductive Reply where
  | unit
  | meeting (m : Meeting)
  | meetingWithNote (m : Meeting) (n : Note)
  | meetings (ms : List MeetingSummary)
  | note (n : Note)
  | notes (ns : List Note)
  | space (s : Space)
  | spaces (ss : List Space)
  | project (p : Project)
  | projects (ps : List Project)
  | tag (t : Tag)
  | tags (ts : List Tag)
deriving DecidableEq

end Storage
end Panops
