import Panops.Content.Port
import Panops.Storage.Rusqlite
import Panops.Storage.InMemory

/-!
# `InMemoryMeetingStore` and `RusqliteMeetingStore`

The fake keeps hash maps under one counter for the ids of all rows; the store keeps tables,
each with a sequence of its own.
-/

namespace Panops
namespace Content

open Lib (HashMap)
open Lib.Machine (Single)
open Storage (HashOrder Sqlite asI64)

/-! ## `InMemoryMeetingStore` -/

structure InMemory where
  segments : HashMap Int SegmentRow
  screenshots : HashMap Int ScreenshotRow
  speakers : HashMap Int SpeakerRow
  nextId : Int

namespace InMemory

/-- `InMemoryMeetingStore::new`. -/
def new : InMemory := ⟨.empty, .empty, .empty, 1⟩

variable (order : HashOrder) (s : InMemory)

def createSegment (draft : SegmentDraft) : SegmentRow × InMemory :=
  let row := draft.row s.nextId
  (row, { s with segments := s.segments.insert s.nextId row, nextId := s.nextId + 1 })

/-- `sort_by_key`, which is stable. -/
def listSegments (meetingId : String) : List SegmentRow :=
  ((order.iterate s.segments.values).filter (·.meetingId == meetingId)).insertionSort
    fun a b => a.startMs ≤ b.startMs

def createScreenshot (draft : ScreenshotDraft) : ScreenshotRow × InMemory :=
  let row := draft.row s.nextId
  (row, { s with screenshots := s.screenshots.insert s.nextId row, nextId := s.nextId + 1 })

def listScreenshots (meetingId : String) : List ScreenshotRow :=
  ((order.iterate s.screenshots.values).filter (·.meetingId == meetingId)).insertionSort
    fun a b => a.timestampMs ≤ b.timestampMs

def createSpeaker (draft : SpeakerDraft) : SpeakerRow × InMemory :=
  let row := draft.row s.nextId
  (row, { s with speakers := s.speakers.insert s.nextId row, nextId := s.nextId + 1 })

def listSpeakers (meetingId : String) : List SpeakerRow :=
  (order.iterate s.speakers.values).filter (·.meetingId == meetingId)

def getSpeaker (id : Int) : Except MeetingStoreError SpeakerRow :=
  match s.speakers.get id with
  | some speaker => .ok speaker
  | none => .error (.speakerNotFound id)

def updateSpeakerLabel (id : Int) (label : String) :
    Except MeetingStoreError SpeakerRow × InMemory :=
  match s.speakers.get id with
  | some speaker =>
    (.ok { speaker with label := label },
      { s with speakers := s.speakers.alter id fun speaker => { speaker with label := label } })
  | none => (.error (.speakerNotFound id), s)

def call : Op → Outcome × InMemory
  | .createSegment draft => (.ok (.segment (s.createSegment draft).1), (s.createSegment draft).2)
  | .listSegments meetingId => (.ok (.segments (s.listSegments order meetingId)), s)
  | .createScreenshot draft =>
    (.ok (.screenshot (s.createScreenshot draft).1), (s.createScreenshot draft).2)
  | .listScreenshots meetingId => (.ok (.screenshots (s.listScreenshots order meetingId)), s)
  | .createSpeaker draft => (.ok (.speaker (s.createSpeaker draft).1), (s.createSpeaker draft).2)
  | .listSpeakers meetingId => (.ok (.speakers (s.listSpeakers order meetingId)), s)
  | .getSpeaker id => ((s.getSpeaker id).map .speaker, s)
  | .updateSpeakerLabel id label =>
    ((s.updateSpeakerLabel id label).1.map .speaker, (s.updateSpeakerLabel id label).2)

end InMemory

/-! ## `RusqliteMeetingStore` -/

/-- A row of `segment`: the times are signed 64-bit integers, and a number that is none is
`NULL`. -/
structure SegmentRecord where
  id : Int
  meetingId : String
  startMs : Int
  endMs : Int
  text : String
  language : Option String
  confidence : Option Single
  speakerId : Option Int
  source : String

structure ScreenshotRecord where
  id : Int
  meetingId : String
  timestampMs : Int
  path : String
  featurePrint : Option (List UInt8)
  caption : Option String

/-- A real number as SQLite keeps it. -/
def real (f : Single) : Option Single := if f = .nan then none else some f

/-- `v.max(0) as u64`. -/
def readTime (v : Int) : Nat := (max v 0).toNat

/-- The columns that `INSERT` is given. -/
def SegmentRow.record (row : SegmentRow) : SegmentRecord where
  id := row.id
  meetingId := row.meetingId
  startMs := asI64 row.startMs
  endMs := asI64 row.endMs
  text := row.text
  language := row.language
  confidence := row.confidence.bind real
  speakerId := row.speakerId
  source := row.source

def SegmentRecord.read (record : SegmentRecord) : SegmentRow where
  id := record.id
  meetingId := record.meetingId
  startMs := readTime record.startMs
  endMs := readTime record.endMs
  text := record.text
  language := record.language
  confidence := record.confidence
  speakerId := record.speakerId
  source := record.source

def ScreenshotRow.record (row : ScreenshotRow) : ScreenshotRecord where
  id := row.id
  meetingId := row.meetingId
  timestampMs := asI64 row.timestampMs
  path := row.path
  featurePrint := row.featurePrint
  caption := row.caption

def ScreenshotRecord.read (record : ScreenshotRecord) : ScreenshotRow where
  id := record.id
  meetingId := record.meetingId
  timestampMs := readTime record.timestampMs
  path := record.path
  featurePrint := record.featurePrint
  caption := record.caption

/-- A table with an `AUTOINCREMENT` key: its rows by `rowid`, and the greatest id it has
given. -/
structure Table (ρ : Type) where
  rows : List ρ
  sequence : Int

def Table.nextId {ρ : Type} (t : Table ρ) : Int := t.sequence + 1

def Table.insert {ρ : Type} (t : Table ρ) (row : ρ) : Table ρ := ⟨t.rows ++ [row], t.nextId⟩

structure Tables where
  segment : Table SegmentRecord
  screenshot : Table ScreenshotRecord
  speaker : Table SpeakerRow

namespace Tables

/-- The tables of a fresh file. -/
def empty : Tables := ⟨⟨[], 0⟩, ⟨[], 0⟩, ⟨[], 0⟩⟩

variable (sql : Sqlite) (t : Tables)

def createSegment (draft : SegmentDraft) : SegmentRow × Tables :=
  let row := draft.row t.segment.nextId
  (row, { t with segment := t.segment.insert row.record })

/-- Rows with the same start in the order of their ids. -/
def listSegments (meetingId : String) : List SegmentRow :=
  ((t.segment.rows.filter (·.meetingId == meetingId)).insertionSort
    fun a b => a.startMs ≤ b.startMs).map SegmentRecord.read

def createScreenshot (draft : ScreenshotDraft) : ScreenshotRow × Tables :=
  let row := draft.row t.screenshot.nextId
  (row, { t with screenshot := t.screenshot.insert row.record })

def listScreenshots (meetingId : String) : List ScreenshotRow :=
  ((t.screenshot.rows.filter (·.meetingId == meetingId)).insertionSort
    fun a b => a.timestampMs ≤ b.timestampMs).map ScreenshotRecord.read

def createSpeaker (draft : SpeakerDraft) : SpeakerRow × Tables :=
  let row := draft.row t.speaker.nextId
  (row, { t with speaker := t.speaker.insert row })

/-- There is no `ORDER BY`. -/
def listSpeakers (meetingId : String) : List SpeakerRow :=
  (sql.scan t.speaker.rows).filter (·.meetingId == meetingId)

def getSpeaker (id : Int) : Except MeetingStoreError SpeakerRow :=
  match t.speaker.rows.find? (·.id == id) with
  | some speaker => .ok speaker
  | none => .error (.speakerNotFound id)

/-- `UPDATE speaker SET label`, and how many rows it changed. -/
def setLabel (id : Int) (label : String) : Nat × Tables :=
  ((t.speaker.rows.filter (·.id == id)).length,
    { t with
      speaker.rows :=
        t.speaker.rows.map fun row => if row.id = id then { row with label := label } else row })

def updateSpeakerLabel (id : Int) (label : String) :
    Except MeetingStoreError SpeakerRow × Tables :=
  let updated := t.setLabel id label
  if updated.1 = 0 then (.error (.speakerNotFound id), updated.2)
  else (updated.2.getSpeaker id, updated.2)

def call : Op → Outcome × Tables
  | .createSegment draft => (.ok (.segment (t.createSegment draft).1), (t.createSegment draft).2)
  | .listSegments meetingId => (.ok (.segments (t.listSegments meetingId)), t)
  | .createScreenshot draft =>
    (.ok (.screenshot (t.createScreenshot draft).1), (t.createScreenshot draft).2)
  | .listScreenshots meetingId => (.ok (.screenshots (t.listScreenshots meetingId)), t)
  | .createSpeaker draft => (.ok (.speaker (t.createSpeaker draft).1), (t.createSpeaker draft).2)
  | .listSpeakers meetingId => (.ok (.speakers (t.listSpeakers sql meetingId)), t)
  | .getSpeaker id => ((t.getSpeaker id).map .speaker, t)
  | .updateSpeakerLabel id label =>
    ((t.updateSpeakerLabel id label).1.map .speaker, (t.updateSpeakerLabel id label).2)

end Tables
end Content
end Panops
