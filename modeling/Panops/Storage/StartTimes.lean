import Panops.Lib.Sorting
import Panops.Lib.Timestamps
import Panops.Storage.InMemory
import Panops.Storage.Statements

/-!
# The order of the meetings

Both stores list meetings by the text of `started_at`, the greatest first.  That is the
newest first where the offsets of the texts do not get in the way.
-/

namespace Panops
namespace Storage

open Lib.Timestamps

/-- The second meeting did not start after the first, where both times can be read. -/
def NotLater (a b : MeetingSummary) : Prop :=
  ∀ x y : Timestamp, a.startedAt = x.toRfc3339 → b.startedAt = y.toRfc3339 →
    y.instant ≤ x.instant

/-- The list goes from later to earlier instants. -/
def NewestFirst (listed : List MeetingSummary) : Prop := listed.Pairwise NotLater

/-- No two times of the list have local times that the offsets turn around. -/
def TimesAgree (texts : List String) : Prop :=
  ∀ x y : Timestamp, x.toRfc3339 ∈ texts → y.toRfc3339 ∈ texts → Timestamp.OffsetsAgree x y

theorem TimesAgree.congr {texts texts' : List String} (h : ∀ text, text ∈ texts ↔ text ∈ texts') :
    TimesAgree texts ↔ TimesAgree texts' := by
  unfold TimesAgree
  simp only [h]

/-- A list by the text of `started_at` is one by instants exactly if the times agree. -/
theorem newestFirst_iff {listed : List MeetingSummary}
    (hsorted : listed.Pairwise fun a b => b.startedAt ≤ a.startedAt) :
    NewestFirst listed ↔ TimesAgree (listed.map MeetingSummary.startedAt) := by
  constructor
  · intro hnewest x y hx hy
    obtain ⟨a, ha, hax⟩ := List.mem_map.mp hx
    obtain ⟨b, hb, hby⟩ := List.mem_map.mp hy
    refine Timestamp.offsetsAgree_iff.mpr fun hlt => ?_
    -- `b` is listed before `a`, as its text is the greater one
    let Listed := fun c d : MeetingSummary => d.startedAt ≤ c.startedAt ∧ NotLater c d
    have hboth : ∀ c ∈ listed, ∀ d ∈ listed, Listed c d ∨ Listed d c := by
      have hpairs : listed.Pairwise Listed := hsorted.and hnewest
      intro c hc d hd
      refine List.Pairwise.forall_of_forall_of_flip (R := fun c d => Listed c d ∨ Listed d c)
        (fun e _ => .inl ⟨le_refl _, fun x y hx hy => ?_⟩) (hpairs.imp Or.inl)
        (hpairs.imp Or.inr) hc hd
      exact le_of_eq (Timestamp.instant_eq_of_toRfc3339_eq (hy.symm.trans hx))
    rcases hboth b hb a ha with ⟨_, h⟩ | ⟨hle, _⟩
    · exact h y x hby hax
    · rw [hax, hby] at hle
      exact absurd hlt (not_lt.mpr hle)
  · intro hagree
    refine hsorted.imp_of_mem fun {a b} ha hb hle x y hx hy => ?_
    rcases lt_or_eq_of_le hle with hlt | heq
    · rw [hx, hy] at hlt
      exact Timestamp.offsetsAgree_iff.mp (hagree y x (List.mem_map.mpr ⟨b, hb, hy⟩)
        (List.mem_map.mpr ⟨a, ha, hx⟩)) hlt
    · exact le_of_eq (Timestamp.instant_eq_of_toRfc3339_eq (hy.symm.trans (heq.trans hx)))

/-- The order that both stores sort by. -/
theorem pairwise_startedAt {α : Type} (startedAt : α → String) (rows : List α) :
    (rows.insertionSort fun a b => startedAt b ≤ startedAt a).Pairwise
      fun a b => startedAt b ≤ startedAt a :=
  Lib.Sorting.pairwise_insertionSort (k := fun a => OrderDual.toDual (startedAt a))
    (fun _ _ => Iff.rfl) rows

namespace RusqliteStorage

theorem mem_startedAt_summaries {sql : Sqlite} {t : Tables} {text : String} :
    text ∈ (Registry.summaries sql .all t).map MeetingSummary.startedAt ↔
      text ∈ t.meeting.map MeetingRow.startedAt := by
  have hmem : ∀ row, row ∈ t.selectMeetings sql ↔ row ∈ t.meeting := fun row =>
    (List.mem_insertionSort _).trans (sql.scan_perm _).mem_iff
  have haccepts : ∀ summary : MeetingSummary, MeetingListFilter.all.accepts summary = true :=
    fun _ => rfl
  unfold Registry.summaries
  rw [List.filter_eq_self.mpr fun summary _ => haccepts summary, List.map_map, List.mem_map,
    List.mem_map]
  exact exists_congr fun row => and_congr_left fun _ => hmem row

theorem summaries_sorted (sql : Sqlite) (t : Tables) (filter : MeetingListFilter) :
    (Registry.summaries sql filter t).Pairwise fun a b => b.startedAt ≤ a.startedAt := by
  refine List.Pairwise.filter _ ?_
  rw [List.pairwise_map]
  exact pairwise_startedAt MeetingRow.startedAt _

theorem newestFirst_summaries_iff (sql : Sqlite) (t : Tables) :
    NewestFirst (Registry.summaries sql .all t) ↔
      TimesAgree (t.meeting.map MeetingRow.startedAt) :=
  (newestFirst_iff (summaries_sorted sql t .all)).trans
    (TimesAgree.congr fun _ => mem_startedAt_summaries)

end RusqliteStorage

namespace InMemory

variable {order : HashOrder} {s : InMemory}

theorem mem_startedAt_listMeetings {text : String} :
    text ∈ (s.listMeetingsFiltered order .all).map MeetingSummary.startedAt ↔
      text ∈ s.meetings.values.map Meeting.startedAt := by
  have haccepts : ∀ m : Meeting, s.accepts .all m = true := fun _ => rfl
  unfold listMeetingsFiltered sortBy
  rw [List.filter_eq_self.mpr fun m _ => haccepts m, List.mem_map, List.mem_map]
  constructor
  · rintro ⟨summary, hsummary, rfl⟩
    obtain ⟨m, hm, rfl⟩ := List.mem_map.mp ((List.mem_insertionSort _).mp hsummary)
    exact ⟨m, (order.iterate_perm _).mem_iff.mp hm, rfl⟩
  · rintro ⟨m, hm, rfl⟩
    exact ⟨s.summaryOf m, (List.mem_insertionSort _).mpr
      (List.mem_map_of_mem ((order.iterate_perm _).mem_iff.mpr hm)), rfl⟩

theorem newestFirst_listMeetings_iff (order : HashOrder) (s : InMemory) :
    NewestFirst (s.listMeetingsFiltered order .all) ↔
      TimesAgree (s.meetings.values.map Meeting.startedAt) :=
  (newestFirst_iff (pairwise_startedAt MeetingSummary.startedAt _)).trans
    (TimesAgree.congr fun _ => mem_startedAt_listMeetings)

end InMemory

/-- Both stores list their meetings, the newest first exactly if the offsets of the start
times turn no two local times around. -/
theorem listMeetings_newestFirst_iff (sql : Sqlite) (ambient : Ambient) (t : Tables)
    (order : HashOrder) (now : String) (s : InMemory) :
    (∃ listed, (RusqliteStorage.step sql t ⟨.listMeetings, ambient, []⟩).1 =
        .ok (.meetings listed) ∧
      (NewestFirst listed ↔ TimesAgree (t.meeting.map MeetingRow.startedAt))) ∧
    ∃ listed, (InMemory.call order now s .listMeetings).1 = .ok (.meetings listed) ∧
      (NewestFirst listed ↔ TimesAgree (s.meetings.values.map Meeting.startedAt)) := by
  refine ⟨⟨Registry.summaries sql .all t, ?_, RusqliteStorage.newestFirst_summaries_iff sql t⟩,
    s.listMeetingsFiltered order .all, rfl, InMemory.newestFirst_listMeetings_iff order s⟩
  rw [RusqliteStorage.step_of_no_faults _ rfl]
  rfl

/-! ## The end of summer time -/

/-- 2026-10-25T02:30:00+02:00. -/
def summerTime : Timestamp where
  year := 2026
  month := 10
  day := 25
  hour := 2
  minute := 30
  second := 0
  nano := 0
  offset := 120
  year_lt := by decide
  month_pos := by decide
  month_le := by decide
  day_pos := by decide
  day_le := by decide
  hour_lt := by decide
  minute_lt := by decide
  second_lt := by decide
  nano_lt := by decide
  offset_lt := by decide

/-- 2026-10-25T02:10:00+01:00, forty minutes later. -/
def winterTime : Timestamp :=
  { summerTime with
    minute := 10
    offset := 60
    minute_lt := by decide
    offset_lt := by decide }

def summerMeeting : MeetingDraft :=
  ⟨"a", "First", summerTime.toRfc3339, "en", "meetings/a"⟩

def winterMeeting : MeetingDraft :=
  ⟨"b", "Second", winterTime.toRfc3339, "en", "meetings/b"⟩

example : summerTime.toRfc3339 = "2026-10-25T02:30:00+02:00" := by decide

theorem not_timesAgree :
    ¬ TimesAgree [summerTime.toRfc3339, winterTime.toRfc3339] := by
  intro h
  have hagree : Timestamp.OffsetsAgree winterTime summerTime :=
    h winterTime summerTime (List.mem_cons_of_mem _ List.mem_cons_self) List.mem_cons_self
  exact absurd hagree (by decide)

def atCreation : Ambient := ⟨"2026-10-25T00:30:00+00:00", 0, 0⟩

def bothCreated : List Call :=
  [⟨.createMeeting summerMeeting, atCreation, []⟩, ⟨.createMeeting winterMeeting, atCreation, []⟩]

/-- The meeting before the change of the clocks is listed before the later one. -/
theorem not_listMeetings_newestFirst :
    (∃ listed, (RusqliteStorage.step Sqlite.insertion
        (RusqliteStorage.run Sqlite.insertion bothCreated) ⟨.listMeetings, atCreation, []⟩).1 =
          .ok (.meetings listed) ∧ ¬ NewestFirst listed) ∧
    ∃ listed, (InMemory.call .insertion atCreation.now
        (InMemory.call .insertion atCreation.now
          (InMemory.call .insertion atCreation.now .new (.createMeeting summerMeeting)).2
          (.createMeeting winterMeeting)).2 .listMeetings).1 = .ok (.meetings listed) ∧
      ¬ NewestFirst listed := by
  refine ⟨⟨Registry.summaries .insertion .all (RusqliteStorage.run .insertion bothCreated), ?_,
    fun h => ?_⟩, _, rfl, fun h => ?_⟩
  · rw [RusqliteStorage.step_of_no_faults _ rfl]
    rfl
  · exact not_timesAgree ((RusqliteStorage.newestFirst_summaries_iff _ _).mp h)
  · exact not_timesAgree ((InMemory.newestFirst_listMeetings_iff _ _).mp h)

end Storage
end Panops
