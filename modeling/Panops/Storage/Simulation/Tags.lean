import Panops.Lib.Sorting
import Panops.Storage.Simulation.Relation

/-!
# Tags in both stores
-/

namespace Panops
namespace Storage

open Lib (HashMap Mirrors)

variable {ρ : String → String} {clock : String → String → Prop}

namespace Simulates

variable {s : InMemory} {t : Tables} {sql : Sqlite} {order : HashOrder} {ambient : Ambient}

theorem tagName_injective (h : Simulates ρ clock s t) {a b : Tag} (ha : a ∈ s.tags.values)
    (hb : b ∈ s.tags.values) (hname : a.name = b.name) : a = b :=
  List.inj_on_of_nodup_map h.tagNames ha hb hname

theorem find_tag_eq (h : Simulates ρ clock s t) (order : HashOrder) (name : String) :
    t.selectTagByName name =
      ((order.iterate s.tags.values).find? (·.name == name)).map (Tag.rename ρ) := by
  have hfind : (order.iterate s.tags.values).find? (·.name == name) =
      s.tags.values.find? (·.name == name) := by
    refine Lib.Sorting.find?_perm (order.iterate_perm _) fun a ha b hb hpa hpb => ?_
    have hname : a.name = b.name := (beq_iff_eq.mp hpa).trans (beq_iff_eq.mp hpb).symm
    exact h.tagName_injective ((order.iterate_perm _).mem_iff.mp ha)
      ((order.iterate_perm _).mem_iff.mp hb) hname
  rw [hfind, Tables.selectTagByName, h.tag_eq, List.find?_map]
  rfl

theorem insertTag (h : Simulates ρ clock s t) {tag : Tag}
    (hfresh : s.tags.containsKey tag.id = false)
    (hname : s.tags.values.any (·.name == tag.name) = false) :
    t.insertTag (tag.rename ρ) = .ok ((), { t with tag := t.tag ++ [tag.rename ρ] }) := by
  have hnone : t.hasTag (tag.rename ρ).id = false := (h.hasTag tag.id).trans hfresh
  have hnames : t.tag.any (·.name == (tag.rename ρ).name) = false := by
    rw [h.tag_eq, List.any_map]
    exact hname
  simp only [Tables.insertTag, hnone, hnames, Bool.false_eq_true, if_false]

theorem createTag (h : Simulates ρ clock s t) (name : String)
    (hid : s.tags.values.any (·.name == name) = false →
      newId "tag" ambient.nanos ambient.counter =
        ρ (InMemory.numberedId "tag" s.nextTagId)) :
    Agrees ρ clock (fun a b => b = a.rename ρ) (s.createTag order name)
      (Registry.createTag ambient name t) := by
  unfold InMemory.createTag Registry.createTag
  rw [h.find_tag_eq order]
  cases hfind : (order.iterate s.tags.values).find? (·.name == name) with
  | some tag => exact agrees_ok rfl h
  | none =>
    have hname : s.tags.values.any (·.name == name) = false := by
      rw [List.any_eq_false]
      intro tag htag
      exact List.find?_eq_none.mp hfind tag ((order.iterate_perm _).mem_iff.mpr htag)
    have hfresh := h.tagIds.fresh
    have htag : (⟨newId "tag" ambient.nanos ambient.counter, name⟩ : Tag) =
        Tag.rename ρ ⟨InMemory.numberedId "tag" s.nextTagId, name⟩ := by
      rw [hid hname]
      rfl
    have hinsert : t.insertTag (Tag.rename ρ ⟨InMemory.numberedId "tag" s.nextTagId, name⟩) = _ :=
      h.insertTag hfresh hname
    simp only [Option.map_none, htag, hinsert, Registry.inserted]
    refine agrees_ok rfl { h with tags := ?_, tagIds := ?_, tagNames := ?_ }
    · exact h.tags.insert hfresh rfl rfl
    · exact h.tagIds.insert _
    · rw [values_insert _ hfresh, List.map_append]
      refine nodup_append_new h.tagNames fun hmem => ?_
      obtain ⟨tag, htag, heq⟩ := List.mem_map.mp hmem
      exact List.any_eq_false.mp hname tag htag (beq_iff_eq.mpr heq)

def tagKey (tag : Tag) : Lex (String × String) := toLex (tag.name, tag.id)

theorem tagKey_le_iff (a b : Tag) :
    (a.name < b.name ∨ a.name = b.name ∧ a.id ≤ b.id) ↔ tagKey a ≤ tagKey b :=
  Lib.Sorting.lex_le_iff Tag.name Tag.id a b

/-- Tags are told apart by their names, so renamed ids do not change their order. -/
theorem sortTags_eq (h : Simulates ρ clock s t) {tags : List Tag} {rows : List Tag}
    (htags : ∀ tag ∈ tags, tag ∈ s.tags.values) (hperm : rows.Perm (tags.map (Tag.rename ρ))) :
    Tables.sortTags sql rows = (InMemory.sortTags tags).map (Tag.rename ρ) := by
  refine Lib.Sorting.map_insertionSort_perm tagKey_le_iff tagKey_le_iff
    ((sql.scan_perm _).trans hperm) ?_ ?_
  · intro a ha b hb hkey
    exact h.tagName_injective (htags a ha) (htags b hb) (congrArg (fun k => (ofLex k).1) hkey)
  · intro a ha b hb
    rw [← tagKey_le_iff, ← tagKey_le_iff]
    by_cases hname : a.name = b.name
    · rw [h.tagName_injective (htags a ha) (htags b hb) hname]
      simp [Tag.rename]
    · simp [Tag.rename, hname]

theorem listTags (h : Simulates ρ clock s t) (order : HashOrder) :
    t.selectTags sql = (s.listTags order).map (Tag.rename ρ) := by
  refine h.sortTags_eq (fun tag htag => (order.iterate_perm _).mem_iff.mp htag) ?_
  rw [h.tag_eq]
  exact ((order.iterate_perm _).map _).symm

theorem deleteTag (h : Simulates ρ clock s t) (id : String) :
    Agrees ρ clock Eq (s.deleteTag id)
      (Registry.changeRow "tag" (·.hasTag (ρ id)) (ρ id) (fun t => (t.deleteTag (ρ id)).2) t) := by
  refine agrees_changeRow h (h.hasTag id) rfl fun hid => ?_
  have hhere : t.hasTag (ρ id) = true := (h.hasTag id).trans hid
  have htags : ∀ m, ((s.meetingTags.mapValues fun tags => tags.filter (· != id)).get m).getD [] =
      (s.tagsOf m).filter (· != id) := by
    intro m
    rw [HashMap.get_mapValues, InMemory.tagsOf]
    cases s.meetingTags.get m <;> rfl
  refine { h with
    tags := h.tags.remove id, tagIds := h.tagIds.retain _,
    tagNames := nodup_values_retain _ h.tagNames, pairs := ?_,
    pairsNodup := h.pairsNodup.filter _, tagsSorted := ?_ }
  · intro m tagId
    simp only [Tables.deleteTag, List.mem_filter, h.pairs, InMemory.tagsOf, htags, hhere,
      Bool.true_and]
    constructor
    · intro hmem
      obtain ⟨⟨tag, htag, rfl⟩, hgone⟩ := hmem
      refine ⟨tag, ⟨htag, ?_⟩, rfl⟩
      rw [bne_iff_ne]
      intro heq
      rw [heq] at hgone
      simp at hgone
    · intro hmem
      obtain ⟨tag, ⟨htag, hne⟩, rfl⟩ := hmem
      refine ⟨⟨tag, htag, rfl⟩, ?_⟩
      rw [Bool.not_eq_true', beq_eq_false_iff_ne]
      exact fun heq => bne_iff_ne.mp hne (h.tags.injective heq)
  · intro m
    simp only [InMemory.tagsOf, htags]
    exact (h.tagsSorted m).filter _

/-- Both stores check the meeting and the tag, in this order. -/
theorem withTag (h : Simulates ρ clock s t) {meetingId tagId : String}
    {change : InMemory → InMemory} {change' : Tables → Except StorageError Unit × Tables}
    (hchange : s.meetings.containsKey meetingId = true → s.tags.containsKey tagId = true →
      Agrees ρ clock Eq (.ok (), change s) (change' t)) :
    Agrees ρ clock Eq (s.withTag meetingId tagId change)
      (Registry.withTag meetingId (ρ tagId) change' t) := by
  unfold InMemory.withTag Registry.withTag
  rw [h.hasMeeting, h.hasTag]
  cases hmeeting : s.meetings.containsKey meetingId with
  | false => exact agrees_error h rfl
  | true =>
    cases htag : s.tags.containsKey tagId with
    | false => exact agrees_error h rfl
    | true => exact hchange hmeeting htag

theorem mem_tagsOf_iff (h : Simulates ρ clock s t) (meetingId tagId : String) :
    (meetingId, ρ tagId) ∈ t.meetingTag ↔ tagId ∈ s.tagsOf meetingId := by
  rw [h.pairs]
  constructor
  · intro hmem
    obtain ⟨tag, htag, heq⟩ := hmem
    rw [h.tags.injective heq]
    exact htag
  · exact fun hmem => ⟨tagId, hmem, rfl⟩

theorem tagsOf_pushTag (s : InMemory) (meetingId tagId key : String) :
    (InMemory.pushTag meetingId tagId s).tagsOf key =
      if key = meetingId then
        if (s.tagsOf meetingId).any (· == tagId) then s.tagsOf meetingId
        else InMemory.sortBy (· ≤ ·) (s.tagsOf meetingId ++ [tagId])
      else s.tagsOf key := by
  simp only [InMemory.pushTag, InMemory.tagsOf, HashMap.get_insert]
  by_cases hkey : key = meetingId
  · rw [if_pos hkey, if_pos hkey]
    rfl
  · rw [if_neg hkey, if_neg hkey]

theorem tagMeeting (h : Simulates ρ clock s t) (meetingId tagId : String) :
    Agrees ρ clock Eq (s.tagMeeting meetingId tagId)
      (Registry.tagMeeting meetingId (ρ tagId) t) := by
  refine h.withTag fun hmeeting htag => ?_
  by_cases hthere : tagId ∈ s.tagsOf meetingId
  · have hinsert : t.insertMeetingTag meetingId (ρ tagId) = .ok ((), t) :=
      if_pos (List.contains_iff_mem.mpr ((h.mem_tagsOf_iff meetingId tagId).mpr hthere))
    have hsame : ∀ key, (InMemory.pushTag meetingId tagId s).tagsOf key = s.tagsOf key := by
      intro key
      rw [tagsOf_pushTag]
      split
      · next hkey =>
        have hany : (s.tagsOf meetingId).any (· == tagId) = true :=
          List.any_eq_true.mpr ⟨tagId, hthere, beq_self_eq_true _⟩
        rw [hkey, if_pos hany]
      · rfl
    rw [hinsert]
    refine agrees_ok rfl { h with pairs := ?_, tagsSorted := ?_ }
    · intro m tag'
      rw [hsame]
      exact h.pairs m tag'
    · intro m
      rw [hsame]
      exact h.tagsSorted m
  · have hnot : (meetingId, ρ tagId) ∉ t.meetingTag :=
      fun hmem => hthere ((h.mem_tagsOf_iff meetingId tagId).mp hmem)
    have hinsert : t.insertMeetingTag meetingId (ρ tagId) =
        .ok ((), { t with meetingTag := t.meetingTag ++ [(meetingId, ρ tagId)] }) := by
      refine (if_neg fun hmem => hnot (List.contains_iff_mem.mp hmem)).trans (if_neg ?_)
      rw [h.hasMeeting, h.hasTag, hmeeting, htag]
      simp
    have hpush : ∀ key, (InMemory.pushTag meetingId tagId s).tagsOf key =
        if key = meetingId then InMemory.sortBy (· ≤ ·) (s.tagsOf meetingId ++ [tagId])
        else s.tagsOf key := by
      intro key
      have hnone : ¬ (s.tagsOf meetingId).any (· == tagId) = true := by
        intro hany
        obtain ⟨tag, htag', heq⟩ := List.any_eq_true.mp hany
        exact hthere (beq_iff_eq.mp heq ▸ htag')
      rw [tagsOf_pushTag, if_neg hnone]
    rw [hinsert]
    refine agrees_ok rfl { h with pairs := ?_, pairsNodup := ?_, tagsSorted := ?_ }
    · intro m tag'
      rw [hpush]
      simp only [List.mem_append, List.mem_singleton, Prod.mk.injEq, h.pairs]
      by_cases hm : m = meetingId
      · rw [if_pos hm, hm]
        simp only [InMemory.sortBy, List.mem_insertionSort, List.mem_append, List.mem_singleton,
          true_and, or_and_right, exists_or, exists_eq_left]
      · rw [if_neg hm]
        simp [hm]
    · exact nodup_append_new h.pairsNodup hnot
    · intro m
      rw [hpush]
      split
      · have hnodup : (InMemory.sortBy (· ≤ ·) (s.tagsOf meetingId ++ [tagId])).Nodup :=
          (List.perm_insertionSort _ _).nodup_iff.mpr (nodup_append_new
            ((h.tagsSorted meetingId).imp fun hlt => ne_of_lt hlt) hthere)
        exact ((List.pairwise_insertionSort (· ≤ ·) _).and hnodup).imp
          fun hboth => lt_of_le_of_ne hboth.1 hboth.2
      · exact h.tagsSorted m

theorem untagMeeting (h : Simulates ρ clock s t) (meetingId tagId : String) :
    Agrees ρ clock Eq (s.untagMeeting meetingId tagId)
      (Registry.untagMeeting meetingId (ρ tagId) t) := by
  refine h.withTag fun _ _ => ?_
  have hdrop : ∀ key, (InMemory.dropTag meetingId tagId s).tagsOf key =
      if key = meetingId then (s.tagsOf key).filter (· != tagId) else s.tagsOf key := by
    intro key
    simp only [InMemory.dropTag, InMemory.tagsOf, HashMap.get_alter]
    split
    · cases s.meetingTags.get key <;> rfl
    · rfl
  refine agrees_ok rfl
    { h with pairs := ?_, pairsNodup := h.pairsNodup.filter _, tagsSorted := ?_ }
  · intro m tag'
    rw [hdrop]
    simp only [Tables.deleteMeetingTag, List.mem_filter, h.pairs, bne_iff_ne, ne_eq,
      Prod.mk.injEq, not_and]
    by_cases hm : m = meetingId
    · rw [if_pos hm]
      simp only [hm, true_imp_iff, List.mem_filter, bne_iff_ne, ne_eq]
      constructor
      · intro hmem
        obtain ⟨⟨tag, htag, rfl⟩, hne⟩ := hmem
        exact ⟨tag, ⟨htag, fun heq => hne (congrArg ρ heq)⟩, rfl⟩
      · intro hmem
        obtain ⟨tag, ⟨htag, hne⟩, rfl⟩ := hmem
        exact ⟨⟨tag, htag, rfl⟩, fun heq => hne (h.tags.injective heq)⟩
    · rw [if_neg hm]
      simp [hm]
  · intro m
    rw [hdrop]
    split
    · exact (h.tagsSorted m).filter _
    · exact h.tagsSorted m

end Simulates
end Storage
end Panops
