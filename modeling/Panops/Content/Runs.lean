import Mathlib.Logic.Equiv.Basic
import Panops.Content.Stores
import Panops.Lib.Mirror
import Panops.Lib.Sorting

/-!
# One run in two stores of content

The ids that a store gives out are its own, so a run in the fake and the run with the same
operations in SQLite are compared up to a renaming of them.
-/

namespace Panops
namespace Content

open Lib.Sorting (Stable)
open Storage (HashOrder Sqlite)

/-! ## Ids -/

/-- What ids are of.  The fake has one counter for all, the store a sequence for each. -/
inductive Kind where
  | segment
  | screenshot
  | speaker
deriving DecidableEq

/-- For each kind the ids of the store for those of the fake. -/
abbrev Renaming := Kind → Equiv.Perm Int

section Rename

variable (ρ : Renaming)

def SegmentRow.rename (row : SegmentRow) : SegmentRow :=
  { row with id := ρ .segment row.id, speakerId := row.speakerId.map (ρ .speaker) }

def ScreenshotRow.rename (row : ScreenshotRow) : ScreenshotRow :=
  { row with id := ρ .screenshot row.id }

def SpeakerRow.rename (row : SpeakerRow) : SpeakerRow := { row with id := ρ .speaker row.id }

/-- The same operation, with the ids that the other store has given. -/
def Op.rename : Op → Op
  | createSegment draft =>
    createSegment { draft with speakerId := draft.speakerId.map (ρ .speaker) }
  | getSpeaker id => getSpeaker (ρ .speaker id)
  | updateSpeakerLabel id label => updateSpeakerLabel (ρ .speaker id) label
  | op => op

/-- The same outcome, up to the ids and the order of speakers. -/
inductive SameOutcome : Outcome → Outcome → Prop
  | segment (row : SegmentRow) :
    SameOutcome (.ok (.segment row)) (.ok (.segment (row.rename ρ)))
  | segments (rows : List SegmentRow) :
    SameOutcome (.ok (.segments rows)) (.ok (.segments (rows.map (SegmentRow.rename ρ))))
  | screenshot (row : ScreenshotRow) :
    SameOutcome (.ok (.screenshot row)) (.ok (.screenshot (row.rename ρ)))
  | screenshots (rows : List ScreenshotRow) :
    SameOutcome (.ok (.screenshots rows)) (.ok (.screenshots (rows.map (ScreenshotRow.rename ρ))))
  | speaker (row : SpeakerRow) :
    SameOutcome (.ok (.speaker row)) (.ok (.speaker (row.rename ρ)))
  | speakers {rows rows' : List SpeakerRow} (h : rows'.Perm (rows.map (SpeakerRow.rename ρ))) :
    SameOutcome (.ok (.speakers rows)) (.ok (.speakers rows'))
  | speakerNotFound (id : Int) :
    SameOutcome (.error (.speakerNotFound id)) (.error (.speakerNotFound (ρ .speaker id)))

end Rename

/-! ## Runs -/

/-- One operation in both stores. -/
structure Event where
  op : Op
  inMemory : Outcome
  rusqlite : Outcome

section Runs

variable (order : HashOrder) (sql : Sqlite)

def run (ρ : Renaming) : List Op → InMemory → Tables → List Event
  | [], _, _ => []
  | op :: rest, s, t =>
    ⟨op, (s.call order op).1, (t.call sql (op.rename ρ)).1⟩ ::
      run ρ rest (s.call order op).2 (t.call sql (op.rename ρ)).2

/-- The rows that were created, by what their calls returned. -/
def created {α : Type} (row : Outcome → Option α) (events : List (Op × Outcome)) : List α :=
  events.filterMap fun e => row e.2

def createdSegment : Outcome → Option SegmentRow
  | .ok (.segment row) => some row
  | _ => none

def createdScreenshot : Outcome → Option ScreenshotRow
  | .ok (.screenshot row) => some row
  | _ => none

/-- Each listing returns the rows of the meeting that were created before, as they were
returned then, by time and the order of their creation. -/
structure ListsCreated (events : List (Op × Outcome)) : Prop where
  segments : ∀ before meetingId rows after,
    events = before ++ (.listSegments meetingId, .ok (.segments rows)) :: after →
    Stable SegmentRow.startMs
      ((created createdSegment before).filter (·.meetingId == meetingId)) rows
  screenshots : ∀ before meetingId rows after,
    events = before ++ (.listScreenshots meetingId, .ok (.screenshots rows)) :: after →
    Stable ScreenshotRow.timestampMs
      ((created createdScreenshot before).filter (·.meetingId == meetingId)) rows

/-- What is promised of the two stores, from empty. -/
def StoresAgree (ops : List Op) : Prop :=
  ∃ ρ : Renaming, (∀ e ∈ run order sql ρ ops .new .empty, SameOutcome ρ e.inMemory e.rusqlite) ∧
    ListsCreated ((run order sql ρ ops .new .empty).map fun e => (e.op, e.inMemory)) ∧
    ListsCreated ((run order sql ρ ops .new .empty).map fun e => (e.op, e.rusqlite))

/-- A row that a table gives back. -/
def SegmentRow.Kept (row : SegmentRow) : Prop :=
  row.startMs < 2 ^ 63 ∧ row.endMs < 2 ^ 63 ∧ row.confidence ≠ some .nan

/-- Listings find rows that a table gives back, and a hash map that gives those with equal
times in the order of their creation. -/
def Op.Comparable (s : InMemory) : Op → Prop
  | listSegments meetingId =>
    (∀ row ∈ s.segments.values, row.meetingId = meetingId → row.Kept) ∧
      ((order.iterate s.segments.values).filter (·.meetingId == meetingId)).Pairwise
        fun a b => a.startMs = b.startMs → a.id < b.id
  | listScreenshots meetingId =>
    (∀ row ∈ s.screenshots.values, row.meetingId = meetingId → row.timestampMs < 2 ^ 63) ∧
      ((order.iterate s.screenshots.values).filter (·.meetingId == meetingId)).Pairwise
        fun a b => a.timestampMs = b.timestampMs → a.id < b.id
  | _ => True

/-- Every operation of the run, in the state that those before it have left. -/
def Throughout (P : InMemory → Op → Prop) : List Op → InMemory → Prop
  | [], _ => True
  | op :: rest, s => P s op ∧ Throughout P rest (s.call order op).2

end Runs

/-! ## The ids of a run -/

/-- What an operation makes. -/
def Op.makes : Op → Option Kind
  | createSegment _ => some .segment
  | createScreenshot _ => some .screenshot
  | createSpeaker _ => some .speaker
  | _ => none

def Tables.nextId (t : Tables) : Kind → Int
  | .segment => t.segment.nextId
  | .screenshot => t.screenshot.nextId
  | .speaker => t.speaker.nextId

/-- The ids of a kind that a run makes: in the fake, and in a table. -/
def ids (kind : Kind) : List Op → Int → Int → List (Int × Int)
  | [], _, _ => []
  | op :: rest, next, next' =>
    if op.makes = some kind then (next, next') :: ids kind rest (next + 1) (next' + 1)
    else ids kind rest (if op.makes = none then next else next + 1) next'

theorem le_of_mem_ids {kind : Kind} {ops : List Op} {next next' : Int} {p : Int × Int}
    (hp : p ∈ ids kind ops next next') : next ≤ p.1 ∧ next' ≤ p.2 := by
  induction ops generalizing next next' with
  | nil => cases hp
  | cons op rest ih =>
    rw [ids] at hp
    split at hp
    · rcases List.mem_cons.mp hp with rfl | hp
      · exact ⟨le_refl _, le_refl _⟩
      · have hrest := ih hp
        omega
    · have hrest := ih hp
      split at hrest
      · exact hrest
      · omega

theorem nodup_ids (kind : Kind) (ops : List Op) (next next' : Int) :
    ((ids kind ops next next').map Prod.fst).Nodup ∧
      ((ids kind ops next next').map Prod.snd).Nodup := by
  induction ops generalizing next next' with
  | nil => exact ⟨List.nodup_nil, List.nodup_nil⟩
  | cons op rest ih =>
    rw [ids]
    split
    · obtain ⟨hfst, hsnd⟩ := ih (next + 1) (next' + 1)
      rw [List.map_cons, List.map_cons, List.nodup_cons, List.nodup_cons]
      refine ⟨⟨fun hmem => ?_, hfst⟩, fun hmem => ?_, hsnd⟩
      · obtain ⟨p, hp, heq⟩ := List.mem_map.mp hmem
        have hle := (le_of_mem_ids hp).1
        omega
      · obtain ⟨p, hp, heq⟩ := List.mem_map.mp hmem
        have hle := (le_of_mem_ids hp).2
        omega
    · exact ih _ _

/-- The renaming takes the ids that the fake makes to those of the store. -/
def Renames (ρ : Renaming) (ops : List Op) (s : InMemory) (t : Tables) : Prop :=
  ∀ kind, ∀ p ∈ ids kind ops s.nextId (t.nextId kind), ρ kind p.1 = p.2

theorem exists_renames (ops : List Op) (s : InMemory) (t : Tables) :
    ∃ ρ : Renaming, Renames ρ ops s t := by
  have hperm : ∀ kind, ∃ σ : Equiv.Perm Int, ∀ p ∈ ids kind ops s.nextId (t.nextId kind),
      σ p.1 = p.2 := fun kind =>
    Lib.exists_perm_of_nodup (nodup_ids kind ops _ _).1 (nodup_ids kind ops _ _).2
  choose ρ hρ using hperm
  exact ⟨ρ, hρ⟩

section Counters

variable {order : HashOrder} {sql : Sqlite} {ρ : Renaming} {s : InMemory} {t : Tables}

theorem nextId_inMemory (op : Op) :
    (s.call order op).2.nextId = if op.makes = none then s.nextId else s.nextId + 1 := by
  cases op with
  | createSegment | createScreenshot | createSpeaker => rfl
  | listSegments | listScreenshots | listSpeakers | getSpeaker => rfl
  | updateSpeakerLabel id label =>
    show (s.updateSpeakerLabel id label).2.nextId = s.nextId
    unfold InMemory.updateSpeakerLabel
    split <;> rfl

theorem nextId_rusqlite (op : Op) (kind : Kind) :
    (t.call sql (op.rename ρ)).2.nextId kind =
      if op.makes = some kind then t.nextId kind + 1 else t.nextId kind := by
  cases op with
  | createSegment | createScreenshot | createSpeaker => cases kind <;> rfl
  | listSegments | listScreenshots | listSpeakers | getSpeaker => cases kind <;> rfl
  | updateSpeakerLabel id label =>
    show (t.updateSpeakerLabel (ρ .speaker id) label).2.nextId kind = t.nextId kind
    unfold Tables.updateSpeakerLabel
    dsimp only
    split <;> cases kind <;> rfl

theorem Renames.head {op : Op} {rest : List Op} (h : Renames ρ (op :: rest) s t) {kind : Kind}
    (hkind : op.makes = some kind) : ρ kind s.nextId = t.nextId kind := by
  refine h kind (s.nextId, t.nextId kind) ?_
  rw [ids, if_pos hkind]
  exact List.mem_cons_self

theorem Renames.tail {op : Op} {rest : List Op} (h : Renames ρ (op :: rest) s t) :
    Renames ρ rest (s.call order op).2 (t.call sql (op.rename ρ)).2 := by
  intro kind p hp
  refine h kind p ?_
  rw [nextId_inMemory, nextId_rusqlite] at hp
  rw [ids]
  split
  · next hkind =>
    rw [if_pos hkind, if_neg (by rw [hkind]; exact nofun)] at hp
    exact List.mem_cons_of_mem _ hp
  · next hkind =>
    rw [if_neg hkind] at hp
    exact hp

end Counters

end Content
end Panops
