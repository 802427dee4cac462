import Panops.Lib.Machine

/-!
# The content of a meeting

The port `MeetingStore`: segments, screenshots and speakers of a meeting.
-/

namespace Panops
namespace Content

open Lib.Machine (Single)

structure SegmentRow where
  id : Int
  meetingId : String
  startMs : Nat
  endMs : Nat
  text : String
  language : Option String
  confidence : Option Single
  speakerId : Option Int
  source : String
deriving DecidableEq

structure SegmentDraft where
  meetingId : String
  startMs : Nat
  endMs : Nat
  text : String
  language : Option String
  confidence : Option Single
  speakerId : Option Int
  source : String

structure ScreenshotRow where
  id : Int
  meetingId : String
  timestampMs : Nat
  path : String
  featurePrint : Option (List UInt8)
  caption : Option String
deriving DecidableEq

structure ScreenshotDraft where
  meetingId : String
  timestampMs : Nat
  path : String
  featurePrint : Option (List UInt8)
  caption : Option String

structure SpeakerRow where
  id : Int
  meetingId : String
  label : String
  embedding : Option (List UInt8)
deriving DecidableEq

structure SpeakerDraft where
  meetingId : String
  label : String
  embedding : Option (List UInt8)

/-- The variant that the stores return without a fault of theirs. -/
inductive MeetingStoreError where
  | speakerNotFound (id : Int)
deriving DecidableEq

/-! The rows that the drafts become. -/

def SegmentDraft.row (draft : SegmentDraft) (id : Int) : SegmentRow where
  id := id
  meetingId := draft.meetingId
  startMs := draft.startMs
  endMs := draft.endMs
  text := draft.text
  language := draft.language
  confidence := draft.confidence
  speakerId := draft.speakerId
  source := draft.source

def ScreenshotDraft.row (draft : ScreenshotDraft) (id : Int) : ScreenshotRow where
  id := id
  meetingId := draft.meetingId
  timestampMs := draft.timestampMs
  path := draft.path
  featurePrint := draft.featurePrint
  caption := draft.caption

def SpeakerDraft.row (draft : SpeakerDraft) (id : Int) : SpeakerRow where
  id := id
  meetingId := draft.meetingId
  label := draft.label
  embedding := draft.embedding

/-- An operation of the port. -/
inductive Op where
  | createSegment (draft : SegmentDraft)
  | listSegments (meetingId : String)
  | createScreenshot (draft : ScreenshotDraft)
  | listScreenshots (meetingId : String)
  | createSpeaker (draft : SpeakerDraft)
  | listSpeakers (meetingId : String)
  | getSpeaker (id : Int)
  | updateSpeakerLabel (id : Int) (label : String)

/-- What an operation returns. -/
inductive Reply where
  | segment (row : SegmentRow)
  | segments (rows : List SegmentRow)
  | screenshot (row : ScreenshotRow)
  | screenshots (rows : List ScreenshotRow)
  | speaker (row : SpeakerRow)
  | speakers (rows : List SpeakerRow)

abbrev Outcome := Except MeetingStoreError Reply

end Content
end Panops
