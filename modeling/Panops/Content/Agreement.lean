import Panops.Content.Simulation

/-!
# The two stores of content agree

They agree just in the runs that list only times that a signed column keeps, and rows with
equal times in the order in which they were created.
-/

namespace Panops
namespace Content

open Lib.Sorting (Stable)
open Storage (HashOrder Sqlite asI64)

/-! ## Only then -/

section Converse

variable {order : HashOrder} {sql : Sqlite} {ρ : Renaming} {s : InMemory} {t : Tables}

theorem lt_of_readTime_asI64 {d : Nat} (h : readTime (asI64 d) = d) : d < 2 ^ 63 := by
  by_contra hd
  rw [asI64, if_neg hd, readTime] at h
  omega

/-- What a table gives back is kept by it. -/
theorem kept_of_read_record {row : SegmentRow} (h : row.record.read = row) : row.Kept := by
  refine ⟨lt_of_readTime_asI64 (congrArg SegmentRow.startMs h),
    lt_of_readTime_asI64 (congrArg SegmentRow.endMs h), fun hnan => ?_⟩
  have hconfidence : row.confidence.bind real = row.confidence :=
    congrArg SegmentRow.confidence h
  rw [hnan] at hconfidence
  cases hconfidence

theorem lt_of_read_record {row : ScreenshotRow} (h : row.record.read = row) :
    row.timestampMs < 2 ^ 63 :=
  lt_of_readTime_asI64 (congrArg ScreenshotRow.timestampMs h)

/-- Rows that come back as they were sorted are read as they were. -/
theorem read_of_map_read_eq {α β : Type} {idOf : α → Int} {σ : Int → Int}
    (hσ : Function.Injective σ) {f : α → α} {record : α → β} {read : β → α} {values : List α}
    {rows : List α} {stored : List β} (hid : ∀ a, idOf (read (record (f a))) = σ (idOf a))
    (hid' : ∀ a, idOf (f a) = σ (idOf a)) (hrows : rows.Perm values)
    (hstored : stored.Perm (values.map fun a => record (f a)))
    (hincreasing : values.Pairwise fun a b => idOf a < idOf b)
    (heq : stored.map read = rows.map f) : ∀ a ∈ values, read (record (f a)) = f a := by
  intro a ha
  have hmem : f a ∈ stored.map read := by
    rw [heq]
    exact List.mem_map_of_mem (hrows.mem_iff.mpr ha)
  obtain ⟨b, hb, hread⟩ := List.mem_map.mp hmem
  obtain ⟨a', ha', rfl⟩ := List.mem_map.mp (hstored.mem_iff.mp hb)
  have hnodup : (values.map idOf).Nodup :=
    List.pairwise_map.mpr (hincreasing.imp fun hlt => ne_of_lt hlt)
  have hids : idOf a' = idOf a := hσ (by rw [← hid a', hread, hid'])
  rw [List.inj_on_of_nodup_map hnodup ha' ha hids] at hread
  exact hread

/-- What the hash map gave in another order was not listed by time and creation. -/
theorem ties_of_stable {α : Type} {idOf : α → Int} {time : α → Nat} {values met : List α}
    (hincreasing : values.Pairwise fun a b => idOf a < idOf b)
    (h : Stable time values (met.insertionSort fun a b => time a ≤ time b)) :
    met.Pairwise fun a b => time a = time b → idOf a < idOf b := by
  refine Lib.Sorting.pairwise_of_filter fun d => ?_
  have hsort := Lib.Sorting.stable_insertionSort (r := fun a b => time a ≤ time b)
    (fun _ _ => Iff.rfl) met
  rw [← hsort.ties d, h.ties d]
  exact hincreasing.filter _

theorem SameOutcome.segment_inv {row row' : SegmentRow}
    (h : SameOutcome ρ (.ok (.segment row)) (.ok (.segment row'))) : row' = row.rename ρ := by
  cases h
  rfl

theorem SameOutcome.screenshot_inv {row row' : ScreenshotRow}
    (h : SameOutcome ρ (.ok (.screenshot row)) (.ok (.screenshot row'))) : row' = row.rename ρ := by
  cases h
  rfl

theorem SameOutcome.segments_inv {rows rows' : List SegmentRow}
    (h : SameOutcome ρ (.ok (.segments rows)) (.ok (.segments rows'))) :
    rows' = rows.map (SegmentRow.rename ρ) := by
  cases h
  rfl

theorem SameOutcome.screenshots_inv {rows rows' : List ScreenshotRow}
    (h : SameOutcome ρ (.ok (.screenshots rows)) (.ok (.screenshots rows'))) :
    rows' = rows.map (ScreenshotRow.rename ρ) := by
  cases h
  rfl

theorem Stands.call (h : Stands ρ s t) (hn : WellNumbered s) {op : Op}
    (hsame : SameOutcome ρ (s.call order op).1 (t.call sql (op.rename ρ)).1) :
    Stands ρ (s.call order op).2 (t.call sql (op.rename ρ)).2 := by
  cases op with
  | createSegment draft =>
    refine ⟨?_, h.screenshots⟩
    show t.segment.rows ++ [_] = (s.segments.insert s.nextId (draft.row s.nextId)).values.map _
    rw [hn.segments.below.values_insert, List.map_append, ← h.segments, List.map_singleton]
    exact congrArg (fun row : SegmentRow => t.segment.rows ++ [row.record]) hsame.segment_inv
  | createScreenshot draft =>
    refine ⟨h.segments, ?_⟩
    show t.screenshot.rows ++ [_] =
      (s.screenshots.insert s.nextId (draft.row s.nextId)).values.map _
    rw [hn.screenshots.below.values_insert, List.map_append, ← h.screenshots, List.map_singleton]
    exact congrArg (fun row : ScreenshotRow => t.screenshot.rows ++ [row.record])
      hsame.screenshot_inv
  | createSpeaker => exact ⟨h.segments, h.screenshots⟩
  | listSegments | listScreenshots | listSpeakers | getSpeaker => exact h
  | updateSpeakerLabel id label =>
    show Stands ρ (s.updateSpeakerLabel id label).2
      (t.updateSpeakerLabel (ρ .speaker id) label).2
    rw [InMemory.updateSpeakerLabel, Tables.updateSpeakerLabel]
    split <;> dsimp only <;> split <;> exact ⟨h.segments, h.screenshots⟩

theorem comparable_listSegments (h : Stands ρ s t) (hn : WellNumbered s) {meetingId : String}
    (hlist : t.listSegments meetingId = (s.listSegments order meetingId).map (SegmentRow.rename ρ))
    (hstable : Stable SegmentRow.startMs (s.segments.values.filter (·.meetingId == meetingId))
      (s.listSegments order meetingId)) : (Op.listSegments meetingId).Comparable order s := by
  have hincreasing := hn.segments.increasing.filter (·.meetingId == meetingId)
  refine ⟨fun row hrow hmeeting => ?_, ties_of_stable hincreasing hstable⟩
  have hperm : (s.listSegments order meetingId).Perm
      (s.segments.values.filter (·.meetingId == meetingId)) :=
    (List.perm_insertionSort _ _).trans ((order.iterate_perm _).filter _)
  have hstored := List.perm_insertionSort (fun a b : SegmentRecord => a.startMs ≤ b.startMs)
    (t.segment.rows.filter (·.meetingId == meetingId))
  rw [Tables.listSegments] at hlist
  rw [segments_of_meeting h] at hlist hstored
  have hread := @read_of_map_read_eq _ _ SegmentRow.id (ρ .segment) (ρ .segment).injective
    (SegmentRow.rename ρ) SegmentRow.record SegmentRecord.read _ _ _ (fun _ => rfl) (fun _ => rfl)
    hperm hstored hincreasing hlist row (List.mem_filter.mpr ⟨hrow, by simpa using hmeeting⟩)
  have hkept : (row.rename ρ).Kept := kept_of_read_record hread
  exact hkept

theorem comparable_listScreenshots (h : Stands ρ s t) (hn : WellNumbered s) {meetingId : String}
    (hlist : t.listScreenshots meetingId =
      (s.listScreenshots order meetingId).map (ScreenshotRow.rename ρ))
    (hstable : Stable ScreenshotRow.timestampMs
      (s.screenshots.values.filter (·.meetingId == meetingId))
      (s.listScreenshots order meetingId)) : (Op.listScreenshots meetingId).Comparable order s := by
  have hincreasing := hn.screenshots.increasing.filter (·.meetingId == meetingId)
  refine ⟨fun row hrow hmeeting => ?_, ties_of_stable hincreasing hstable⟩
  have hperm : (s.listScreenshots order meetingId).Perm
      (s.screenshots.values.filter (·.meetingId == meetingId)) :=
    (List.perm_insertionSort _ _).trans ((order.iterate_perm _).filter _)
  have hstored := List.perm_insertionSort
    (fun a b : ScreenshotRecord => a.timestampMs ≤ b.timestampMs)
    (t.screenshot.rows.filter (·.meetingId == meetingId))
  rw [Tables.listScreenshots] at hlist
  rw [screenshots_of_meeting h] at hlist hstored
  have hread := @read_of_map_read_eq _ _ ScreenshotRow.id (ρ .screenshot)
    (ρ .screenshot).injective (ScreenshotRow.rename ρ) ScreenshotRow.record ScreenshotRecord.read
    _ _ _ (fun _ => rfl) (fun _ => rfl) hperm hstored hincreasing hlist row
    (List.mem_filter.mpr ⟨hrow, by simpa using hmeeting⟩)
  have hlt : (row.rename ρ).timestampMs < 2 ^ 63 := lt_of_read_record hread
  exact hlt

theorem ListsFrom.head {α : Type} {row : Outcome → Option α}
    {listed : Op × Outcome → Option (String × List α)} {meeting : α → String} {time : α → Nat}
    {old : List α} {events : List (Op × Outcome)} {e : Op × Outcome}
    (h : ListsFrom row listed meeting time old (e :: events)) {meetingId : String} {rows : List α}
    (hlisted : listed e = some (meetingId, rows)) :
    Stable time (old.filter (meeting · == meetingId)) rows := by
  have hstable := h [] e events meetingId rows rfl hlisted
  rw [created, List.filterMap_nil, List.append_nil] at hstable
  exact hstable

theorem ListsFrom.tail {α : Type} {row : Outcome → Option α}
    {listed : Op × Outcome → Option (String × List α)} {meeting : α → String} {time : α → Nat}
    {old : List α} {events : List (Op × Outcome)} {e : Op × Outcome}
    (h : ListsFrom row listed meeting time old (e :: events)) :
    ListsFrom row listed meeting time (old ++ (row e.2).toList) events := by
  intro before e' after meetingId rows hevents hlisted
  have hstable := h (e :: before) e' after meetingId rows (by rw [hevents]; rfl) hlisted
  rw [append_created_cons] at hstable
  exact hstable

/-- A run in which the stores agree, from states whose rows stand for each other. -/
theorem comparable_of_agree (ops : List Op) (h : Stands ρ s t) (hn : WellNumbered s)
    (hsame : ∀ e ∈ run order sql ρ ops s t, SameOutcome ρ e.inMemory e.rusqlite)
    (hsegments : ListsFrom createdSegment listedSegments SegmentRow.meetingId SegmentRow.startMs
      s.segments.values ((run order sql ρ ops s t).map fun e => (e.op, e.inMemory)))
    (hscreenshots : ListsFrom createdScreenshot listedScreenshots ScreenshotRow.meetingId
      ScreenshotRow.timestampMs s.screenshots.values
      ((run order sql ρ ops s t).map fun e => (e.op, e.inMemory))) :
    Throughout order (fun s op => op.Comparable order s) ops s := by
  induction ops generalizing s t with
  | nil => trivial
  | cons op rest ih =>
    have hhere : SameOutcome ρ (s.call order op).1 (t.call sql (op.rename ρ)).1 :=
      hsame ⟨op, _, _⟩ List.mem_cons_self
    refine ⟨?_, ih (h.call hn hhere) (hn.call op)
      (fun e he => hsame e (List.mem_cons_of_mem _ he)) ?_ ?_⟩
    · cases op with
      | listSegments meetingId =>
        exact comparable_listSegments h hn hhere.segments_inv (hsegments.head rfl)
      | listScreenshots meetingId =>
        exact comparable_listScreenshots h hn hhere.screenshots_inv (hscreenshots.head rfl)
      | _ => trivial
    · rw [segments_call hn op]
      exact hsegments.tail
    · rw [screenshots_call hn op]
      exact hscreenshots.tail

theorem ListsCreated.segmentsFrom {events : List (Op × Outcome)} (h : ListsCreated events) :
    ListsFrom createdSegment listedSegments SegmentRow.meetingId SegmentRow.startMs [] events := by
  intro before e after meetingId rows hevents hlisted
  unfold listedSegments at hlisted
  split at hlisted
  · obtain ⟨rfl, rfl⟩ := Prod.mk.inj (Option.some.inj hlisted)
    exact h.segments before _ _ after hevents
  · cases hlisted

theorem ListsCreated.screenshotsFrom {events : List (Op × Outcome)} (h : ListsCreated events) :
    ListsFrom createdScreenshot listedScreenshots ScreenshotRow.meetingId
      ScreenshotRow.timestampMs [] events := by
  intro before e after meetingId rows hevents hlisted
  unfold listedScreenshots at hlisted
  split at hlisted
  · obtain ⟨rfl, rfl⟩ := Prod.mk.inj (Option.some.inj hlisted)
    exact h.screenshots before _ _ after hevents
  · cases hlisted

theorem StoresAgree.comparable {ops : List Op} (h : StoresAgree order sql ops) :
    Throughout order (fun s op => op.Comparable order s) ops .new := by
  obtain ⟨ρ, hsame, hlists, -⟩ := h
  exact comparable_of_agree ops (simulates_new ρ).toStands wellNumbered_new hsame
    hlists.segmentsFrom hlists.screenshotsFrom

end Converse

theorem StoresAgree.of_comparable {order : HashOrder} {ops : List Op} (sql : Sqlite)
    (h : Throughout order (fun s op => op.Comparable order s) ops .new) :
    StoresAgree order sql ops := by
  obtain ⟨ρ, hρ⟩ := exists_renames ops .new .empty
  have hsame := @sameOutcome_run order sql ρ _ _ ops (simulates_new ρ) wellNumbered_new hρ h
  have hlists := @listsCreated_inMemory order sql ρ .empty ops h
  exact ⟨ρ, hsame, hlists, hlists.rusqlite hsame⟩

/-- The stores agree just in the runs whose listings find rows that a table gives back, and
ties in the order of their creation. -/
theorem stores_agree_iff (order : HashOrder) (sql : Sqlite) (ops : List Op) :
    StoresAgree order sql ops ↔
      Throughout order (fun s op => op.Comparable order s) ops .new :=
  ⟨StoresAgree.comparable, StoresAgree.of_comparable sql⟩

/-! ## Where they differ -/

/-- A hash map that is met from its last entry. -/
def newestFirst : HashOrder where
  iterate := List.reverse
  iterate_perm := List.reverse_perm

def spoken (startMs : Nat) (text : String) : SegmentDraft :=
  ⟨"m", startMs, 1000, text, none, none, none, "post_pass"⟩

/-- Two tracks that begin to speak at once. -/
def twoTracks : List Op :=
  [.createSegment (spoken 0 "mic"), .createSegment (spoken 0 "system"), .listSegments "m"]

/-- A screenshot at a time that a signed column does not keep. -/
def lateScreenshot : List Op :=
  [.createScreenshot ⟨"m", 2 ^ 63, "late.png", none, none⟩, .listScreenshots "m"]

theorem stores_differ : ¬StoresAgree newestFirst .insertion twoTracks ∧
    ¬StoresAgree .insertion .insertion lateScreenshot := by
  refine ⟨fun h => ?_, fun h => ?_⟩
  · have hties := h.comparable.2.2.1.2
    exact absurd hties (by decide)
  · have hkept := h.comparable.2.1.1
    have hlate := hkept ⟨1, "m", 2 ^ 63, "late.png", none, none⟩ (List.mem_singleton_self _) rfl
    exact absurd hlate (lt_irrefl _)

end Content
end Panops
