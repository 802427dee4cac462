import Panops.Storage.Simulation.Tags

/-!
# Listings of meetings, with their tags
-/

namespace Panops
namespace Storage

open Lib (HashMap Mirrors)

variable {ρ : String → String} {clock : String → String → Prop}

namespace Simulates

variable {s : InMemory} {t : Tables} {sql : Sqlite} {order : HashOrder}

/-! ## The tags of one meeting -/

theorem flatMap_filter_eq {α β : Type} [BEq β] [LawfulBEq β] [DecidableEq β] {pairs : List β} (hpairs : pairs.Nodup)
    (key : α → β) (rows : List α) :
    (rows.flatMap fun row => (pairs.filter (· == key row)).map fun _ => row) =
      rows.filter fun row => decide (key row ∈ pairs) := by
  induction rows with
  | nil => rfl
  | cons row rest ih =>
    have hcount : (pairs.filter (· == key row)).map (fun _ => row) =
        if key row ∈ pairs then [row] else [] := by
      rw [List.filter_beq, List.map_replicate]
      split
      · next hmem => rw [List.count_eq_one_of_mem hpairs hmem]; rfl
      · next hmem => rw [List.count_eq_zero_of_not_mem hmem]; rfl
    rw [List.flatMap_cons, hcount, ih, List.filter_cons]
    by_cases hmem : key row ∈ pairs <;> simp [hmem]

/-- The join of the tags with the pairs of a meeting. -/
theorem joined_eq (h : Simulates ρ clock s t) (meetingId : String) :
    (t.tag.flatMap fun tag =>
        (t.meetingTag.filter (· == (meetingId, tag.id))).map fun _ => tag) =
      (s.tags.values.filter fun tag => decide (tag.id ∈ s.tagsOf meetingId)).map
        (Tag.rename ρ) := by
  rw [flatMap_filter_eq h.pairsNodup fun tag : Tag => (meetingId, tag.id), h.tag_eq,
    List.filter_map]
  congr 1
  refine List.filter_congr fun tag _ => ?_
  simp only [Function.comp_apply, Tag.rename]
  exact decide_eq_decide.mpr (h.mem_tagsOf_iff meetingId tag.id)

theorem get_tag_iff (h : Simulates ρ clock s t) (id : String) (tag : Tag) :
    s.tags.get id = some tag ↔ tag ∈ s.tags.values ∧ tag.id = id := by
  rw [HashMap.get_eq_some_iff]
  constructor
  · exact fun hmem => ⟨List.mem_map_of_mem hmem, (h.tags.keys _ hmem).symm⟩
  · intro hboth
    obtain ⟨e, he, hvalue⟩ := List.mem_map.mp hboth.1
    have hkey : e.1 = id := (h.tags.keys e he).trans ((congrArg Tag.id hvalue).trans hboth.2)
    rw [← hkey, ← hvalue]
    exact he

theorem listTagsForMeeting (h : Simulates ρ clock s t) (meetingId : String) :
    Agrees ρ clock (fun ts ts' => ts' = ts.map (Tag.rename ρ)) (s.listTagsForMeeting meetingId)
      (Registry.listTagsForMeeting sql meetingId t) := by
  unfold InMemory.listTagsForMeeting Registry.listTagsForMeeting
  rw [h.hasMeeting]
  cases s.meetings.containsKey meetingId with
  | false => exact agrees_error h rfl
  | true =>
    refine agrees_ok (h.sortTags_eq (fun tag htag => ?_) ?_) h
    · obtain ⟨id, _, hget⟩ := List.mem_filterMap.mp htag
      exact ((h.get_tag_iff id tag).mp hget).1
    · rw [h.joined_eq]
      refine List.Perm.map _ ((List.perm_ext_iff_of_nodup ?_ ?_).mpr fun tag => ?_)
      · exact (List.Nodup.of_map _ h.tagNames).filter _
      · refine List.Nodup.filterMap (fun a b tag ha hb => ?_)
          ((h.tagsSorted meetingId).imp fun hlt => ne_of_lt hlt)
        rw [← ((h.get_tag_iff a tag).mp ha).2, ← ((h.get_tag_iff b tag).mp hb).2]
      · simp only [List.mem_filter, decide_eq_true_eq, List.mem_filterMap, h.get_tag_iff]
        constructor
        · exact fun hmem => ⟨tag.id, hmem.2, hmem.1, rfl⟩
        · intro hmem
          obtain ⟨id, hid, hvalue, rfl⟩ := hmem
          exact ⟨hvalue, hid⟩

/-! ## Summaries -/

theorem hasNotes_eq (h : Simulates ρ clock s t) (meetingId : String) :
    t.hasNotes meetingId = s.notes.values.any (·.meetingId == meetingId) := by
  have hany : ∀ ns ns' : List Note, List.Forall₂ (SameNote clock) ns ns' →
      ns'.any (·.meetingId == meetingId) = ns.any (·.meetingId == meetingId) := by
    intro ns ns' hnotes
    induction hnotes with
    | nil => rfl
    | cons hn _ ih => rw [List.any_cons, List.any_cons, ih, hn.meetingId]
  exact hany _ _ h.notes.rows

theorem tagIds_perm (h : Simulates ρ clock s t) (meetingId : String) :
    (t.selectTagIds sql meetingId).Perm ((s.tagsOf meetingId).map ρ) := by
  refine ((List.perm_insertionSort _ _).trans (sql.scan_perm _)).trans
    ((List.perm_ext_iff_of_nodup ?_ ?_).mpr fun tagId => ?_)
  · refine List.Nodup.map_on ?_ (h.pairsNodup.filter _)
    intro a ha b hb heq
    have hfirst : a.1 = b.1 := by
      have ha' := (List.mem_filter.mp ha).2
      have hb' := (List.mem_filter.mp hb).2
      exact (beq_iff_eq.mp ha').trans (beq_iff_eq.mp hb').symm
    exact Prod.ext hfirst heq
  · exact List.Nodup.map h.tags.injective ((h.tagsSorted meetingId).imp fun hlt => ne_of_lt hlt)
  · rw [List.mem_map, List.mem_map]
    constructor
    · intro hmem
      obtain ⟨pair, hpair, rfl⟩ := hmem
      obtain ⟨hpair, hid⟩ := List.mem_filter.mp hpair
      have hid' : pair.1 = meetingId := by simpa using hid
      obtain ⟨tag, htag, heq⟩ := (h.pairs meetingId pair.2).mp (hid' ▸ hpair)
      exact ⟨tag, htag, heq.symm⟩
    · intro hmem
      obtain ⟨tag, htag, rfl⟩ := hmem
      exact ⟨(meetingId, ρ tag), List.mem_filter.mpr
        ⟨(h.mem_tagsOf_iff meetingId tag).mpr htag, beq_self_eq_true _⟩, rfl⟩

/-- Where the renaming keeps the order of a meeting's tags, both list them alike. -/
theorem tagIds_eq (h : Simulates ρ clock s t) {meetingId : String}
    (hmono : ∀ a ∈ s.tagsOf meetingId, ∀ b ∈ s.tagsOf meetingId, a ≤ b → ρ a ≤ ρ b) :
    t.selectTagIds sql meetingId = (s.tagsOf meetingId).map ρ := by
  refine (h.tagIds_perm meetingId).eq_of_pairwise (fun a b _ _ hab hba => le_antisymm hab hba)
    (List.pairwise_insertionSort (· ≤ ·) _) ?_
  rw [List.pairwise_map]
  exact (h.tagsSorted meetingId).imp_of_mem fun ha hb hlt => hmono _ ha _ hb hlt.le

/-- What the query for one meeting and the loop make of its row. -/
def summarize (sql : Sqlite) (t : Tables) (row : MeetingRow) : MeetingSummary :=
  Storage.summaryOf row (t.hasNotes row.id) (t.selectTagIds sql row.id)

theorem summarize_rowOf (h : Simulates ρ clock s t) {m : Meeting}
    (hmono : ∀ a ∈ s.tagsOf m.id, ∀ b ∈ s.tagsOf m.id, a ≤ b → ρ a ≤ ρ b) :
    summarize sql t (rowOf ρ s.meetingSpaces s.meetingProjects m) =
      (s.summaryOf m).rename ρ := by
  have hduration : readDuration ((m.durationMs.map Int.ofNat).getD 0) = m.durationMs.getD 0 := by
    cases m.durationMs with
    | none => rfl
    | some d => simp [readDuration]
  simp only [summarize, Storage.summaryOf, rowOf, InMemory.summaryOf, MeetingSummary.rename,
    h.hasNotes_eq, h.tagIds_eq hmono, hduration]

theorem map_beq_some (h : Simulates ρ clock s t) (o : Option String) (id : String) :
    (o.map ρ == some (ρ id)) = (o == some id) := by
  cases o with
  | none => rfl
  | some v =>
    rw [Option.map_some, Bool.eq_iff_iff, beq_iff_eq, beq_iff_eq, Option.some.injEq,
      Option.some.injEq]
    exact h.spaces.injective.eq_iff

/-- The filter of the query and the filter of the fake. -/
theorem accepts_eq (h : Simulates ρ clock s t) (filter : MeetingListFilter) (m : Meeting) :
    (filter.rename ρ).accepts
        (summarize sql t (rowOf ρ s.meetingSpaces s.meetingProjects m)) =
      s.accepts filter m := by
  have htag : ∀ id, ((t.selectTagIds sql m.id).any (· == ρ id)) =
      (s.meetingTags.get m.id).any fun tags => tags.any (· == id) := by
    intro id
    have htags : (s.meetingTags.get m.id).any (fun tags => tags.any (· == id)) =
        (s.tagsOf m.id).any (· == id) := by
      unfold InMemory.tagsOf
      cases s.meetingTags.get m.id <;> rfl
    rw [htags, Bool.eq_iff_iff, List.any_eq_true, List.any_eq_true]
    constructor
    · intro hany
      obtain ⟨tagId, hmem, heq⟩ := hany
      obtain ⟨tag, htag, rfl⟩ := List.mem_map.mp ((h.tagIds_perm m.id).mem_iff.mp hmem)
      exact ⟨tag, htag, beq_iff_eq.mpr (h.tags.injective (beq_iff_eq.mp heq))⟩
    · intro hany
      obtain ⟨tag, htag, heq⟩ := hany
      refine ⟨ρ tag, (h.tagIds_perm m.id).mem_iff.mpr (List.mem_map_of_mem htag), ?_⟩
      rw [beq_iff_eq.mp heq]
      exact beq_self_eq_true _
  have hsorted : ((s.meetingSpaces.get m.id).map ρ).isSome = s.meetingSpaces.containsKey m.id := by
    rw [Option.isSome_map, HashMap.get_isSome]
  simp only [MeetingListFilter.accepts, MeetingListFilter.rename, InMemory.accepts, summarize,
    Storage.summaryOf, rowOf, hsorted, Option.all_map, h.map_beq_some, htag]

theorem listMeetingsFiltered (h : Simulates ρ clock s t) (order : HashOrder) {filter : MeetingListFilter}
    (halike : PairedCall.ListsAlike ρ filter s) :
    Registry.summaries sql (filter.rename ρ) t =
      (s.listMeetingsFiltered order filter).map (MeetingSummary.rename ρ) := by
  obtain ⟨hnodup, hmono⟩ := halike
  let listed := (order.iterate s.meetings.values).filter (s.accepts filter)
  let row := rowOf ρ s.meetingSpaces s.meetingProjects
  let taken : MeetingRow → Bool := fun r => (filter.rename ρ).accepts (summarize sql t r)
  have hmem : ∀ m ∈ listed, m ∈ s.meetings.values ∧ s.accepts filter m = true := by
    intro m hm
    obtain ⟨hm, haccepts⟩ := List.mem_filter.mp hm
    exact ⟨(order.iterate_perm _).mem_iff.mp hm, haccepts⟩
  have hdistinct : ∀ a ∈ listed, ∀ b ∈ listed,
      OrderDual.toDual a.startedAt = OrderDual.toDual b.startedAt → a = b := by
    intro a ha b hb heq
    exact List.inj_on_of_nodup_map hnodup (List.mem_filter.mpr (hmem a ha))
      (List.mem_filter.mpr (hmem b hb)) heq
  have hperm : ((sql.scan t.meeting).filter taken).Perm (listed.map row) := by
    have hrows : t.meeting.filter taken = (s.meetings.values.filter (s.accepts filter)).map row := by
      rw [h.meeting_eq, List.filter_map]
      congr 1
      exact List.filter_congr fun m _ => h.accepts_eq filter m
    refine ((sql.scan_perm _).filter taken).trans ?_
    rw [hrows]
    exact (((order.iterate_perm _).filter _).map row).symm
  have hrowDistinct : ∀ a ∈ (sql.scan t.meeting).filter taken,
      ∀ b ∈ (sql.scan t.meeting).filter taken,
      OrderDual.toDual a.startedAt = OrderDual.toDual b.startedAt → a = b := by
    intro a ha b hb heq
    obtain ⟨m, hm, rfl⟩ := List.mem_map.mp (hperm.mem_iff.mp ha)
    obtain ⟨n, hn, rfl⟩ := List.mem_map.mp (hperm.mem_iff.mp hb)
    rw [hdistinct m hm n hn heq]
  have hsorted : ((sql.scan t.meeting).filter taken).insertionSort
        (fun a b => b.startedAt ≤ a.startedAt) =
      (listed.insertionSort fun a b => b.startedAt ≤ a.startedAt).map row :=
    Lib.Sorting.map_insertionSort_perm
      (k := fun m : Meeting => OrderDual.toDual m.startedAt)
      (l := fun r : MeetingRow => OrderDual.toDual r.startedAt)
      (fun _ _ => Iff.rfl) (fun _ _ => Iff.rfl) hperm hdistinct fun _ _ _ _ => Iff.rfl
  have hfake : s.listMeetingsFiltered order filter =
      (listed.insertionSort fun a b => b.startedAt ≤ a.startedAt).map s.summaryOf :=
    (List.map_insertionSort _ _ s.summaryOf listed fun _ _ _ _ => Iff.rfl).symm
  calc Registry.summaries sql (filter.rename ρ) t
      = (((sql.scan t.meeting).insertionSort fun a b => b.startedAt ≤ a.startedAt).filter
          taken).map (summarize sql t) := List.filter_map
    _ = (((sql.scan t.meeting).filter taken).insertionSort
          fun a b => b.startedAt ≤ a.startedAt).map (summarize sql t) := by
        rw [Lib.Sorting.filter_insertionSort (r := fun a b => b.startedAt ≤ a.startedAt)
          (k := fun r : MeetingRow => OrderDual.toDual r.startedAt) (fun _ _ => Iff.rfl) taken
          hrowDistinct]
    _ = ((listed.insertionSort fun a b => b.startedAt ≤ a.startedAt).map row).map
          (summarize sql t) := by rw [hsorted]
    _ = (s.listMeetingsFiltered order filter).map (MeetingSummary.rename ρ) := by
        rw [hfake, List.map_map, List.map_map]
        refine List.map_congr_left fun m hm => ?_
        obtain ⟨hvalue, haccepts⟩ := hmem m ((List.mem_insertionSort _).mp hm)
        exact h.summarize_rowOf (hmono m hvalue haccepts)

end Simulates
end Storage
end Panops
