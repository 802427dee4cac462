import Panops.Content.Runs

/-!
# The tables stand for the hash maps

Each operation keeps the rows of the tables those of the hash maps, up to the ids, and its
outcomes are the same where what it lists is kept by both stores.
-/

namespace Panops
namespace Content

open Lib (HashMap Mirrors)
open Lib.Machine (Single)
open Lib.Sorting (Stable)
open Storage (HashOrder Sqlite asI64)

/-! ## States of the fake -/

/-- Keys that are all below the next one. -/
def Below {α : Type} (m : HashMap Int α) (next : Int) : Prop := ∀ e ∈ m.entries, e.1 < next

section Below

variable {α : Type} {m : HashMap Int α} {next : Int}

theorem Below.succ (h : Below m next) : Below m (next + 1) :=
  fun e he => (h e he).trans (Int.lt_succ next)

theorem Below.containsKey (h : Below m next) : m.containsKey next = false := by
  by_contra hin
  obtain ⟨e, he, hkey⟩ := List.mem_map.mp (HashMap.containsKey_iff.mp (by simpa using hin))
  have hlt := h e he
  omega

theorem Below.insert (h : Below m next) (a : α) : Below (m.insert next a) (next + 1) := by
  intro e he
  rw [HashMap.entries_insert_of_not a h.containsKey] at he
  rcases List.mem_append.mp he with he | he
  · exact h.succ e he
  · rw [List.mem_singleton.mp he]
    exact Int.lt_succ next

theorem Below.alter (h : Below m next) (k : Int) (f : α → α) : Below (m.alter k f) next := by
  intro e he
  obtain ⟨old, hold, -⟩ := HashMap.mem_entries_alter.mp (show (e.1, e.2) ∈ _ from he)
  exact h (e.1, old) hold

theorem Below.values_insert (h : Below m next) (a : α) :
    (m.insert next a).values = m.values ++ [a] := by
  rw [HashMap.values, HashMap.entries_insert_of_not a h.containsKey, List.map_append]
  rfl

end Below

/-- A hash map whose keys are the ids of its rows, in the order of their creation. -/
structure Numbered {α : Type} (idOf : α → Int) (m : HashMap Int α) (next : Int) : Prop where
  ids : ∀ e ∈ m.entries, e.1 = idOf e.2
  below : Below m next
  increasing : m.values.Pairwise fun a b => idOf a < idOf b

namespace Numbered

variable {α : Type} {idOf : α → Int} {m : HashMap Int α} {next : Int}

theorem empty (next : Int) : Numbered idOf HashMap.empty next :=
  ⟨fun _ h => absurd h List.not_mem_nil, fun _ h => absurd h List.not_mem_nil, List.Pairwise.nil⟩

theorem succ (h : Numbered idOf m next) : Numbered idOf m (next + 1) :=
  ⟨h.ids, h.below.succ, h.increasing⟩

theorem insert (h : Numbered idOf m next) {a : α} (ha : idOf a = next) :
    Numbered idOf (m.insert next a) (next + 1) where
  ids e he := by
    rw [HashMap.entries_insert_of_not a h.below.containsKey] at he
    rcases List.mem_append.mp he with he | he
    · exact h.ids e he
    · rw [List.mem_singleton.mp he]
      exact ha.symm
  below := h.below.insert a
  increasing := by
    rw [h.below.values_insert, List.pairwise_append]
    refine ⟨h.increasing, List.pairwise_singleton _ _, fun b hb c hc => ?_⟩
    obtain ⟨e, he, rfl⟩ := List.mem_map.mp hb
    rw [List.mem_singleton.mp hc, ha, ← h.ids e he]
    exact h.below e he

end Numbered

structure WellNumbered (s : InMemory) : Prop where
  segments : Numbered SegmentRow.id s.segments s.nextId
  screenshots : Numbered ScreenshotRow.id s.screenshots s.nextId
  speakers : Below s.speakers s.nextId

section States

variable {order : HashOrder} {sql : Sqlite} {ρ : Renaming} {s : InMemory} {t : Tables}

theorem wellNumbered_new : WellNumbered .new :=
  ⟨.empty 1, .empty 1, fun _ h => absurd h List.not_mem_nil⟩

theorem WellNumbered.call (h : WellNumbered s) (op : Op) : WellNumbered (s.call order op).2 := by
  cases op with
  | createSegment draft => exact ⟨h.segments.insert rfl, h.screenshots.succ, h.speakers.succ⟩
  | createScreenshot draft => exact ⟨h.segments.succ, h.screenshots.insert rfl, h.speakers.succ⟩
  | createSpeaker draft => exact ⟨h.segments.succ, h.screenshots.succ, h.speakers.insert _⟩
  | listSegments | listScreenshots | listSpeakers | getSpeaker => exact h
  | updateSpeakerLabel id label =>
    show WellNumbered (s.updateSpeakerLabel id label).2
    unfold InMemory.updateSpeakerLabel
    split
    · exact ⟨h.segments, h.screenshots, h.speakers.alter _ _⟩
    · exact h

theorem stable_listSegments (h : WellNumbered s) {meetingId : String}
    (hties : ((order.iterate s.segments.values).filter (·.meetingId == meetingId)).Pairwise
      fun a b => a.startMs = b.startMs → a.id < b.id) :
    Stable SegmentRow.startMs (s.segments.values.filter (·.meetingId == meetingId))
      (s.listSegments order meetingId) :=
  (Lib.Sorting.stable_insertionSort (fun _ _ => Iff.rfl) _).of_filter_eq
    (Lib.Sorting.filter_eq_of_perm ((order.iterate_perm _).filter _)
      (h.segments.increasing.filter _) hties)

theorem stable_listScreenshots (h : WellNumbered s) {meetingId : String}
    (hties : ((order.iterate s.screenshots.values).filter (·.meetingId == meetingId)).Pairwise
      fun a b => a.timestampMs = b.timestampMs → a.id < b.id) :
    Stable ScreenshotRow.timestampMs (s.screenshots.values.filter (·.meetingId == meetingId))
      (s.listScreenshots order meetingId) :=
  (Lib.Sorting.stable_insertionSort (fun _ _ => Iff.rfl) _).of_filter_eq
    (Lib.Sorting.filter_eq_of_perm ((order.iterate_perm _).filter _)
      (h.screenshots.increasing.filter _) hties)

/-! ## The tables stand for the hash maps -/

/-- Segments and screenshots, row by row. -/
structure Stands (ρ : Renaming) (s : InMemory) (t : Tables) : Prop where
  segments : t.segment.rows = s.segments.values.map fun row => (row.rename ρ).record
  screenshots : t.screenshot.rows = s.screenshots.values.map fun row => (row.rename ρ).record

structure Simulates (ρ : Renaming) (s : InMemory) (t : Tables) : Prop extends Stands ρ s t where
  speakers : Mirrors (ρ .speaker) SpeakerRow.id SpeakerRow.id (fun a b => b = a.rename ρ)
    s.speakers t.speaker.rows

theorem simulates_new (ρ : Renaming) : Simulates ρ .new .empty where
  segments := rfl
  screenshots := rfl
  speakers := .of_empty (ρ .speaker).injective fun _ _ h => by rw [h]; rfl

theorem asI64_of_lt {d : Nat} (h : d < 2 ^ 63) : asI64 d = d := if_pos h

theorem readTime_asI64 {d : Nat} (h : d < 2 ^ 63) : readTime (asI64 d) = d := by
  rw [asI64_of_lt h, readTime]
  omega

theorem real_of_ne_nan {f : Single} (h : f ≠ .nan) : real f = some f := if_neg h

/-- A row that a table gives back. -/
theorem read_record {row : SegmentRow} (h : row.Kept) : row.record.read = row := by
  obtain ⟨hstart, hend, hconfidence⟩ := h
  have hreal : row.confidence.bind real = row.confidence := by
    cases hc : row.confidence with
    | none => rfl
    | some f => exact real_of_ne_nan fun hf => hconfidence (by rw [hc, hf])
  simp only [SegmentRow.record, SegmentRecord.read, readTime_asI64 hstart, readTime_asI64 hend,
    hreal]

theorem read_record_screenshot {row : ScreenshotRow} (h : row.timestampMs < 2 ^ 63) :
    row.record.read = row := by
  simp only [ScreenshotRow.record, ScreenshotRecord.read, readTime_asI64 h]

/-- Rows that a table gives back, sorted there and in memory. -/
theorem map_read_insertionSort {α β : Type} {values : List α} {time : α → Nat} {timeOf : β → Int}
    {f : α → α} {record : α → β} {read : β → α}
    (htime : ∀ a ∈ values, timeOf (record (f a)) = time a)
    (hread : ∀ a ∈ values, read (record (f a)) = f a) :
    (((values.map fun a => record (f a)).insertionSort fun a b => timeOf a ≤ timeOf b).map read) =
      (values.insertionSort fun a b => time a ≤ time b).map f := by
  have hsort := List.map_insertionSort (fun a b => time a ≤ time b)
    (fun a b => timeOf a ≤ timeOf b) (fun a => record (f a)) values fun a ha b hb => by
      rw [htime a ha, htime b hb, Int.ofNat_le]
  rw [← hsort, List.map_map]
  exact List.map_congr_left fun a ha => hread a ((List.mem_insertionSort _).mp ha)

theorem mem_of_mem_meeting {α : Type} {meeting : α → String} {meetingId : String} {rows : List α}
    {a : α} (h : a ∈ rows.filter (meeting · == meetingId)) : a ∈ rows ∧ meeting a = meetingId := by
  simpa using h

theorem segments_of_meeting (h : Stands ρ s t) (meetingId : String) :
    t.segment.rows.filter (·.meetingId == meetingId) =
      (s.segments.values.filter (·.meetingId == meetingId)).map fun row =>
        (row.rename ρ).record := by
  rw [h.segments, List.filter_map]
  rfl

theorem screenshots_of_meeting (h : Stands ρ s t) (meetingId : String) :
    t.screenshot.rows.filter (·.meetingId == meetingId) =
      (s.screenshots.values.filter (·.meetingId == meetingId)).map fun row =>
        (row.rename ρ).record := by
  rw [h.screenshots, List.filter_map]
  rfl

theorem listSegments_eq (h : Stands ρ s t) (hn : WellNumbered s) {meetingId : String}
    (hc : (Op.listSegments meetingId).Comparable order s) :
    t.listSegments meetingId = (s.listSegments order meetingId).map (SegmentRow.rename ρ) := by
  have hkept : ∀ row ∈ s.segments.values.filter (·.meetingId == meetingId), row.Kept :=
    fun row hrow => hc.1 row (mem_of_mem_meeting hrow).1 (mem_of_mem_meeting hrow).2
  have hmemory := (stable_listSegments hn hc.2).unique
    (Lib.Sorting.stable_insertionSort (r := fun a b : SegmentRow => a.startMs ≤ b.startMs)
      (fun _ _ => Iff.rfl) _)
  rw [Tables.listSegments, segments_of_meeting h, hmemory]
  exact map_read_insertionSort (fun row hrow => asI64_of_lt (hkept row hrow).1)
    fun row hrow => read_record (hkept row hrow)

theorem listScreenshots_eq (h : Stands ρ s t) (hn : WellNumbered s) {meetingId : String}
    (hc : (Op.listScreenshots meetingId).Comparable order s) :
    t.listScreenshots meetingId =
      (s.listScreenshots order meetingId).map (ScreenshotRow.rename ρ) := by
  have hkept : ∀ row ∈ s.screenshots.values.filter (·.meetingId == meetingId),
      row.timestampMs < 2 ^ 63 :=
    fun row hrow => hc.1 row (mem_of_mem_meeting hrow).1 (mem_of_mem_meeting hrow).2
  have hmemory := (stable_listScreenshots hn hc.2).unique
    (Lib.Sorting.stable_insertionSort
      (r := fun a b : ScreenshotRow => a.timestampMs ≤ b.timestampMs) (fun _ _ => Iff.rfl) _)
  rw [Tables.listScreenshots, screenshots_of_meeting h, hmemory]
  exact map_read_insertionSort (fun row hrow => asI64_of_lt (hkept row hrow))
    fun row hrow => read_record_screenshot (hkept row hrow)

theorem listSpeakers_perm (h : Simulates ρ s t) (meetingId : String) :
    (t.listSpeakers sql meetingId).Perm
      ((s.listSpeakers order meetingId).map (SpeakerRow.rename ρ)) := by
  have hrows : t.speaker.rows.filter (·.meetingId == meetingId) =
      (s.speakers.values.filter (·.meetingId == meetingId)).map (SpeakerRow.rename ρ) := by
    rw [Lib.forall₂_eq_iff.mp h.speakers.rows, List.filter_map]
    rfl
  have hmemory := (order.iterate_perm s.speakers.values).filter (·.meetingId == meetingId)
  have htable := (sql.scan_perm t.speaker.rows).filter (·.meetingId == meetingId)
  rw [hrows] at htable
  exact htable.trans (hmemory.map (SpeakerRow.rename ρ)).symm

theorem getSpeaker_cases (h : Simulates ρ s t) (id : Int) :
    (s.getSpeaker id = .error (.speakerNotFound id) ∧
      t.getSpeaker (ρ .speaker id) = .error (.speakerNotFound (ρ .speaker id))) ∨
    ∃ row, s.getSpeaker id = .ok row ∧ t.getSpeaker (ρ .speaker id) = .ok (row.rename ρ) := by
  rw [InMemory.getSpeaker, Tables.getSpeaker]
  rcases h.speakers.find_cases id with ⟨hm, ht⟩ | ⟨row, row', hm, ht, rfl, -⟩
  · rw [hm, ht]
    exact .inl ⟨rfl, rfl⟩
  · rw [hm, ht]
    exact .inr ⟨row, rfl, rfl⟩

/-- A draft with the ids that the other store has given. -/
theorem rename_row_segment (hid : ρ .segment s.nextId = t.segment.nextId) (draft : SegmentDraft) :
    SegmentDraft.row { draft with speakerId := draft.speakerId.map (ρ .speaker) }
      t.segment.nextId = (draft.row s.nextId).rename ρ := by
  rw [← hid]
  rfl

theorem rename_row_screenshot (hid : ρ .screenshot s.nextId = t.screenshot.nextId)
    (draft : ScreenshotDraft) :
    draft.row t.screenshot.nextId = (draft.row s.nextId).rename ρ := by
  rw [← hid]
  rfl

theorem rename_row_speaker (hid : ρ .speaker s.nextId = t.speaker.nextId) (draft : SpeakerDraft) :
    draft.row t.speaker.nextId = (draft.row s.nextId).rename ρ := by
  rw [← hid]
  rfl

theorem simulates_createSegment (h : Simulates ρ s t) (hn : WellNumbered s)
    (hid : ρ .segment s.nextId = t.segment.nextId) (draft : SegmentDraft) :
    Simulates ρ (s.createSegment draft).2
      (t.createSegment { draft with speakerId := draft.speakerId.map (ρ .speaker) }).2 where
  segments := by
    show t.segment.rows ++ [_] = (s.segments.insert s.nextId (draft.row s.nextId)).values.map _
    rw [hn.segments.below.values_insert, List.map_append, ← h.segments, List.map_singleton,
      rename_row_segment hid]
  screenshots := h.screenshots
  speakers := h.speakers

theorem simulates_createScreenshot (h : Simulates ρ s t) (hn : WellNumbered s)
    (hid : ρ .screenshot s.nextId = t.screenshot.nextId) (draft : ScreenshotDraft) :
    Simulates ρ (s.createScreenshot draft).2 (t.createScreenshot draft).2 where
  segments := h.segments
  screenshots := by
    show t.screenshot.rows ++ [_] =
      (s.screenshots.insert s.nextId (draft.row s.nextId)).values.map _
    rw [hn.screenshots.below.values_insert, List.map_append, ← h.screenshots, List.map_singleton,
      rename_row_screenshot hid]
  speakers := h.speakers

theorem simulates_createSpeaker (h : Simulates ρ s t) (hn : WellNumbered s)
    (hid : ρ .speaker s.nextId = t.speaker.nextId) (draft : SpeakerDraft) :
    Simulates ρ (s.createSpeaker draft).2 (t.createSpeaker draft).2 where
  segments := h.segments
  screenshots := h.screenshots
  speakers := h.speakers.insert hn.speakers.containsKey (rename_row_speaker hid draft) rfl

theorem simulates_setLabel (h : Simulates ρ s t) (id : Int) (label : String) :
    Simulates ρ { s with speakers := s.speakers.alter id fun row => { row with label := label } }
      (t.setLabel (ρ .speaker id) label).2 where
  segments := h.segments
  screenshots := h.screenshots
  speakers := h.speakers.alter (f := fun row => { row with label := label })
    (g := fun row => { row with label := label }) (fun _ _ hrow => by rw [hrow]; rfl) fun _ => rfl

theorem updateSpeakerLabel_of_none {id : Int}
    (hnone : t.speaker.rows.find? (·.id == id) = none) (label : String) :
    t.updateSpeakerLabel id label = (.error (.speakerNotFound id), t) := by
  have hne : ∀ row ∈ t.speaker.rows, row.id ≠ id := fun row hrow => by
    simpa using List.find?_eq_none.mp hnone row hrow
  have hcount : (t.setLabel id label).1 = 0 := by
    rw [Tables.setLabel, List.length_eq_zero_iff, List.filter_eq_nil_iff]
    exact List.find?_eq_none.mp hnone
  have hsame : (t.setLabel id label).2 = t := by
    rw [Tables.setLabel, List.map_congr_left fun row hrow => if_neg (hne row hrow), List.map_id']
  rw [Tables.updateSpeakerLabel]
  simp only [hcount, hsame, if_pos]

theorem updateSpeakerLabel_of_some {id : Int} {row : SpeakerRow}
    (hsome : t.speaker.rows.find? (·.id == id) = some row) (label : String) :
    t.updateSpeakerLabel id label =
      ((t.setLabel id label).2.getSpeaker id, (t.setLabel id label).2) := by
  have hmem : row ∈ t.speaker.rows.filter (·.id == id) :=
    List.mem_filter.mpr ⟨List.mem_of_find?_eq_some hsome,
      List.find?_some (p := fun row : SpeakerRow => row.id == id) hsome⟩
  have hcount : (t.setLabel id label).1 ≠ 0 := (List.length_pos_of_mem hmem).ne'
  rw [Tables.updateSpeakerLabel]
  simp only [hcount, if_false]

theorem agrees_updateSpeakerLabel (h : Simulates ρ s t) (id : Int) (label : String) :
    SameOutcome ρ ((s.updateSpeakerLabel id label).1.map .speaker)
        ((t.updateSpeakerLabel (ρ .speaker id) label).1.map .speaker) ∧
      Simulates ρ (s.updateSpeakerLabel id label).2
        (t.updateSpeakerLabel (ρ .speaker id) label).2 := by
  rw [InMemory.updateSpeakerLabel]
  rcases h.speakers.find_cases id with ⟨hm, ht⟩ | ⟨row, row', hm, ht, -⟩
  · rw [hm, updateSpeakerLabel_of_none ht]
    exact ⟨.speakerNotFound id, h⟩
  · have hset := simulates_setLabel h id label
    have hrow := getSpeaker_cases hset id
    rw [InMemory.getSpeaker, HashMap.get_alter, if_pos rfl, hm] at hrow
    rw [hm, updateSpeakerLabel_of_some ht]
    rcases hrow with ⟨hrow, -⟩ | ⟨labelled, hrow, hrow'⟩
    · cases hrow
    · obtain rfl := Except.ok.inj hrow
      refine ⟨?_, hset⟩
      show SameOutcome ρ _ (((t.setLabel (ρ .speaker id) label).2.getSpeaker _).map .speaker)
      rw [hrow']
      exact .speaker _

/-- One operation, in states that correspond. -/
theorem agrees (h : Simulates ρ s t) (hn : WellNumbered s) {op : Op}
    (hids : ∀ kind, op.makes = some kind → ρ kind s.nextId = t.nextId kind)
    (hc : op.Comparable order s) :
    SameOutcome ρ (s.call order op).1 (t.call sql (op.rename ρ)).1 ∧
      Simulates ρ (s.call order op).2 (t.call sql (op.rename ρ)).2 := by
  cases op with
  | createSegment draft =>
    have hid := hids .segment rfl
    refine ⟨?_, simulates_createSegment h hn hid draft⟩
    show SameOutcome ρ _ (.ok (.segment (SegmentDraft.row _ t.segment.nextId)))
    rw [rename_row_segment hid]
    exact .segment _
  | listSegments meetingId =>
    refine ⟨?_, h⟩
    show SameOutcome ρ _ (.ok (.segments (t.listSegments meetingId)))
    rw [listSegments_eq h.toStands hn hc]
    exact .segments _
  | createScreenshot draft =>
    have hid := hids .screenshot rfl
    refine ⟨?_, simulates_createScreenshot h hn hid draft⟩
    show SameOutcome ρ _ (.ok (.screenshot (draft.row t.screenshot.nextId)))
    rw [rename_row_screenshot hid]
    exact .screenshot _
  | listScreenshots meetingId =>
    refine ⟨?_, h⟩
    show SameOutcome ρ _ (.ok (.screenshots (t.listScreenshots meetingId)))
    rw [listScreenshots_eq h.toStands hn hc]
    exact .screenshots _
  | createSpeaker draft =>
    have hid := hids .speaker rfl
    refine ⟨?_, simulates_createSpeaker h hn hid draft⟩
    show SameOutcome ρ _ (.ok (.speaker (draft.row t.speaker.nextId)))
    rw [rename_row_speaker hid]
    exact .speaker _
  | listSpeakers meetingId => exact ⟨.speakers (listSpeakers_perm h meetingId), h⟩
  | getSpeaker id =>
    refine ⟨?_, h⟩
    show SameOutcome ρ ((s.getSpeaker id).map .speaker)
      ((t.getSpeaker (ρ .speaker id)).map .speaker)
    rcases getSpeaker_cases h id with ⟨hm, ht⟩ | ⟨row, hm, ht⟩
    · rw [hm, ht]
      exact .speakerNotFound id
    · rw [hm, ht]
      exact .speaker row
  | updateSpeakerLabel id label => exact agrees_updateSpeakerLabel h id label

/-- A run from states that correspond. -/
theorem sameOutcome_run (ops : List Op) (h : Simulates ρ s t) (hn : WellNumbered s)
    (hids : Renames ρ ops s t) (hc : Throughout order (fun s op => op.Comparable order s) ops s) :
    ∀ e ∈ run order sql ρ ops s t, SameOutcome ρ e.inMemory e.rusqlite := by
  induction ops generalizing s t with
  | nil => exact fun _ he => absurd he List.not_mem_nil
  | cons op rest ih =>
    obtain ⟨hout, hstates⟩ := @agrees order sql _ _ _ h hn op (fun _ hkind => hids.head hkind) hc.1
    intro e he
    rcases List.mem_cons.mp he with rfl | he
    · exact hout
    · exact ih hstates (hn.call op) hids.tail hc.2 e he

end States

/-! ## What was created is listed -/

/-- The listings of one kind return what is in memory at the start of a run and what is
created in it. -/
def ListsFrom {α : Type} (row : Outcome → Option α) (listed : Op × Outcome → Option (String × List α))
    (meeting : α → String) (time : α → Nat) (old : List α) (events : List (Op × Outcome)) : Prop :=
  ∀ before e after meetingId rows, events = before ++ e :: after →
    listed e = some (meetingId, rows) →
    Stable time ((old ++ created row before).filter (meeting · == meetingId)) rows

section Listings

variable {α : Type} {row : Outcome → Option α} {listed : Op × Outcome → Option (String × List α)}
  {meeting : α → String} {time : α → Nat} {old : List α} {events : List (Op × Outcome)}

theorem append_created_cons (e : Op × Outcome) (before : List (Op × Outcome)) :
    old ++ created row (e :: before) = old ++ (row e.2).toList ++ created row before := by
  rw [created, List.filterMap_cons, List.append_assoc]
  cases row e.2 <;> rfl

theorem ListsFrom.cons {e : Op × Outcome}
    (hhead : ∀ meetingId rows, listed e = some (meetingId, rows) →
      Stable time (old.filter (meeting · == meetingId)) rows)
    (htail : ListsFrom row listed meeting time (old ++ (row e.2).toList) events) :
    ListsFrom row listed meeting time old (e :: events) := by
  intro before e' after meetingId rows hevents hlisted
  cases before with
  | nil =>
    obtain ⟨rfl, -⟩ := List.cons.inj hevents
    rw [created, List.filterMap_nil, List.append_nil]
    exact hhead meetingId rows hlisted
  | cons first before =>
    obtain ⟨rfl, hrest⟩ := List.cons.inj hevents
    have hstable := htail before e' after meetingId rows hrest hlisted
    rw [append_created_cons]
    exact hstable

variable {order : HashOrder} {sql : Sqlite} {ρ : Renaming} {s : InMemory} {t : Tables}

/-- The rows in memory are those that were created. -/
theorem listsFrom_run (values : InMemory → List α)
    (hcreate : ∀ s op, WellNumbered s →
      values (s.call order op).2 = values s ++ (row (s.call order op).1).toList)
    (hlist : ∀ s op meetingId rows, WellNumbered s → op.Comparable order s →
      listed (op, (s.call order op).1) = some (meetingId, rows) →
      Stable time ((values s).filter (meeting · == meetingId)) rows)
    (ops : List Op) (hn : WellNumbered s)
    (hc : Throughout order (fun s op => op.Comparable order s) ops s) :
    ListsFrom row listed meeting time (values s)
      ((run order sql ρ ops s t).map fun e => (e.op, e.inMemory)) := by
  induction ops generalizing s t with
  | nil =>
    intro before e after meetingId rows hevents
    exact absurd hevents.symm (by simp [run])
  | cons op rest ih =>
    refine ListsFrom.cons (fun meetingId rows hlisted => hlist s op meetingId rows hn hc.1 hlisted) ?_
    rw [← hcreate s op hn]
    exact ih (hn.call op) hc.2

end Listings

def listedSegments : Op × Outcome → Option (String × List SegmentRow)
  | (.listSegments meetingId, .ok (.segments rows)) => some (meetingId, rows)
  | _ => none

def listedScreenshots : Op × Outcome → Option (String × List ScreenshotRow)
  | (.listScreenshots meetingId, .ok (.screenshots rows)) => some (meetingId, rows)
  | _ => none

section Created

variable {order : HashOrder} {sql : Sqlite} {ρ : Renaming} {s : InMemory} {t : Tables}

theorem created_of_speaker {α : Type} {row : Outcome → Option α}
    (hok : ∀ speaker, row (.ok (.speaker speaker)) = none) (herror : ∀ e, row (.error e) = none)
    (outcome : Except MeetingStoreError SpeakerRow) : row (outcome.map .speaker) = none := by
  cases outcome with
  | ok speaker => exact hok speaker
  | error e => exact herror e

theorem segments_call (hn : WellNumbered s) (op : Op) :
    (s.call order op).2.segments.values =
      s.segments.values ++ (createdSegment (s.call order op).1).toList := by
  cases op with
  | createSegment draft => exact hn.segments.below.values_insert _
  | createScreenshot | createSpeaker => exact (List.append_nil _).symm
  | listSegments | listScreenshots | listSpeakers => exact (List.append_nil _).symm
  | getSpeaker id =>
    show _ = _ ++ (createdSegment ((s.getSpeaker id).map .speaker)).toList
    rw [@created_of_speaker _ createdSegment (fun _ => rfl) (fun _ => rfl)]
    exact (List.append_nil _).symm
  | updateSpeakerLabel id label =>
    show (s.updateSpeakerLabel id label).2.segments.values =
      _ ++ (createdSegment ((s.updateSpeakerLabel id label).1.map .speaker)).toList
    rw [@created_of_speaker _ createdSegment (fun _ => rfl) (fun _ => rfl), InMemory.updateSpeakerLabel]
    split <;> exact (List.append_nil _).symm

theorem screenshots_call (hn : WellNumbered s) (op : Op) :
    (s.call order op).2.screenshots.values =
      s.screenshots.values ++ (createdScreenshot (s.call order op).1).toList := by
  cases op with
  | createScreenshot draft => exact hn.screenshots.below.values_insert _
  | createSegment | createSpeaker => exact (List.append_nil _).symm
  | listSegments | listScreenshots | listSpeakers => exact (List.append_nil _).symm
  | getSpeaker id =>
    show _ = _ ++ (createdScreenshot ((s.getSpeaker id).map .speaker)).toList
    rw [@created_of_speaker _ createdScreenshot (fun _ => rfl) (fun _ => rfl)]
    exact (List.append_nil _).symm
  | updateSpeakerLabel id label =>
    show (s.updateSpeakerLabel id label).2.screenshots.values =
      _ ++ (createdScreenshot ((s.updateSpeakerLabel id label).1.map .speaker)).toList
    rw [@created_of_speaker _ createdScreenshot (fun _ => rfl) (fun _ => rfl), InMemory.updateSpeakerLabel]
    split <;> exact (List.append_nil _).symm

/-- What the fake lists is what it created. -/
theorem listsCreated_inMemory (ops : List Op)
    (hc : Throughout order (fun s op => op.Comparable order s) ops .new) :
    ListsCreated ((run order sql ρ ops .new t).map fun e => (e.op, e.inMemory)) where
  segments before meetingId rows after hevents :=
    @listsFrom_run _ createdSegment listedSegments SegmentRow.meetingId SegmentRow.startMs
      order sql ρ .new t (fun s => s.segments.values) (fun _ op hn => segments_call hn op)
      (fun s op meetingId rows hn hc hlisted => by
        cases op with
        | listSegments meetingId' =>
          obtain ⟨rfl, rfl⟩ := Prod.mk.inj (Option.some.inj hlisted)
          exact stable_listSegments hn hc.2
        | _ => cases hlisted) ops wellNumbered_new hc before _ after meetingId rows hevents rfl
  screenshots before meetingId rows after hevents :=
    @listsFrom_run _ createdScreenshot listedScreenshots ScreenshotRow.meetingId
      ScreenshotRow.timestampMs order sql ρ .new t (fun s => s.screenshots.values)
      (fun _ op hn => screenshots_call hn op)
      (fun s op meetingId rows hn hc hlisted => by
        cases op with
        | listScreenshots meetingId' =>
          obtain ⟨rfl, rfl⟩ := Prod.mk.inj (Option.some.inj hlisted)
          exact stable_listScreenshots hn hc.2
        | _ => cases hlisted) ops wellNumbered_new hc before _ after meetingId rows hevents rfl

theorem created_rusqlite {α : Type} {row : Outcome → Option α} {f : α → α}
    (hrow : ∀ outcome outcome', SameOutcome ρ outcome outcome' → row outcome' = (row outcome).map f)
    {events : List Event} (hsame : ∀ e ∈ events, SameOutcome ρ e.inMemory e.rusqlite) :
    created row (events.map fun e => (e.op, e.rusqlite)) =
      (created row (events.map fun e => (e.op, e.inMemory))).map f := by
  rw [created, created, List.filterMap_map, List.filterMap_map, List.map_filterMap]
  exact List.filterMap_congr fun e he => hrow _ _ (hsame e he)

theorem createdSegment_same {outcome outcome' : Outcome} (h : SameOutcome ρ outcome outcome') :
    createdSegment outcome' = (createdSegment outcome).map (SegmentRow.rename ρ) := by
  cases h <;> rfl

theorem createdScreenshot_same {outcome outcome' : Outcome} (h : SameOutcome ρ outcome outcome') :
    createdScreenshot outcome' = (createdScreenshot outcome).map (ScreenshotRow.rename ρ) := by
  cases h <;> rfl

/-- What the fake lists right, the store with the same outcomes does. -/
theorem ListsCreated.rusqlite {events : List Event}
    (hsame : ∀ e ∈ events, SameOutcome ρ e.inMemory e.rusqlite)
    (h : ListsCreated (events.map fun e => (e.op, e.inMemory))) :
    ListsCreated (events.map fun e => (e.op, e.rusqlite)) where
  segments before meetingId rows after hevents := by
    obtain ⟨before, rest, rfl, rfl, hrest⟩ := List.map_eq_append_iff.mp hevents
    obtain ⟨⟨op, inMemory, rusqlite⟩, after, rfl, he, rfl⟩ := List.map_eq_cons_iff.mp hrest
    obtain ⟨rfl, rfl⟩ := Prod.mk.inj he
    have hbefore : ∀ e ∈ before, SameOutcome ρ e.inMemory e.rusqlite := fun e he =>
      hsame e (List.mem_append_left _ he)
    have hhere : SameOutcome ρ inMemory (.ok (.segments rows)) :=
      hsame ⟨.listSegments meetingId, inMemory, _⟩
        (List.mem_append_right _ List.mem_cons_self)
    cases hhere with
    | segments rows =>
      have hstable := h.segments (before.map fun e => (e.op, e.inMemory)) meetingId rows
        (after.map fun e => (e.op, e.inMemory)) (by rw [List.map_append, List.map_cons])
      rw [created_rusqlite (fun _ _ => createdSegment_same) hbefore, List.filter_map]
      exact hstable.map fun _ => rfl
  screenshots before meetingId rows after hevents := by
    obtain ⟨before, rest, rfl, rfl, hrest⟩ := List.map_eq_append_iff.mp hevents
    obtain ⟨⟨op, inMemory, rusqlite⟩, after, rfl, he, rfl⟩ := List.map_eq_cons_iff.mp hrest
    obtain ⟨rfl, rfl⟩ := Prod.mk.inj he
    have hbefore : ∀ e ∈ before, SameOutcome ρ e.inMemory e.rusqlite := fun e he =>
      hsame e (List.mem_append_left _ he)
    have hhere : SameOutcome ρ inMemory (.ok (.screenshots rows)) :=
      hsame ⟨.listScreenshots meetingId, inMemory, _⟩
        (List.mem_append_right _ List.mem_cons_self)
    cases hhere with
    | screenshots rows =>
      have hstable := h.screenshots (before.map fun e => (e.op, e.inMemory)) meetingId rows
        (after.map fun e => (e.op, e.inMemory)) (by rw [List.map_append, List.map_cons])
      rw [created_rusqlite (fun _ _ => createdScreenshot_same) hbefore, List.filter_map]
      exact hstable.map fun _ => rfl

end Created

end Content
end Panops
