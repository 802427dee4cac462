import Panops.Lib.Disk
import Panops.Segment

/-!
# Notes data

What the notes pipeline takes in and hands to the exporter.
-/

namespace Panops

open Lib

/-- A zoned time by what is ever read of it: its calendar date and its RFC 3339
form. -/
structure DateTime where
  date : String
  rfc3339 : String
deriving DecidableEq

inductive MarkdownDialect where
  | notionEnhanced
  | basic
deriving DecidableEq

def MarkdownDialect.asStr : MarkdownDialect → String
  | notionEnhanced => "notion-enhanced"
  | basic => "basic"

structure ActionItem where
  description : String
  owner : Option String
  /-- The pipeline sets no due date. -/
  due : Option String
deriving DecidableEq

structure Screenshot where
  msSinceStart : Nat
  path : Path
  caption : Option String
deriving DecidableEq

structure NotesSection where
  index : Nat
  title : String
  timeRangeMs : Nat × Nat
  narrativeMd : String
  keyPoints : List String
  actionItems : List ActionItem
  screenshots : List Screenshot

structure NotesFrontmatter where
  title : String
  date : String
  startedAt : DateTime
  durationMs : Nat
  speakers : List String
  languages : List String
  tags : List String
  template : String
  dialect : MarkdownDialect
  panopsVersion : String
  sourceAudio : Option Path

structure StructuredNotes where
  schemaVersion : Nat
  frontmatter : NotesFrontmatter
  sections : List NotesSection
  language : String
  generatedAt : DateTime

def StructuredNotes.SCHEMA_VERSION : Nat := 1

structure MeetingMetadata where
  startedAt : DateTime
  durationMs : Nat
  sourcePath : Option Path
  languageHint : Option String

structure NotesInput where
  transcript : List Segment
  screenshots : List Screenshot
  meetingMetadata : MeetingMetadata

/-- The errors `generate` can return. -/
inductive NotesError where
  | emptyTranscript
  | llmUnavailable (failed total : Nat) (lastError : String)
deriving DecidableEq

/-- `speaker_{id}`, or `unknown` without one. -/
def speakerLabel : Option UInt32 → String
  | some id => "speaker_" ++ toString id
  | none => "unknown"

end Panops
