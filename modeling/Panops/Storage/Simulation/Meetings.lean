import Panops.Storage.Simulation.Relation

/-!
# Meetings and notes in both stores
-/

namespace Panops
namespace Storage

open Lib (HashMap Mirrors)

variable {ρ : String → String} {clock : String → String → Prop}

namespace Simulates

variable {s : InMemory} {t : Tables} {sql : Sqlite} {order : HashOrder} {now : String}
  {ambient : Ambient}

/-! ## Meetings -/

theorem asI64_of_lt {d : Nat} (hd : d < 2 ^ 63) : asI64 d = Int.ofNat d := if_pos hd

theorem mapMeetingRow_rowOf (spaces projects : HashMap String String) (m : Meeting) :
    mapMeetingRow (rowOf ρ spaces projects m) = m := by
  have hduration : (m.durationMs.map Int.ofNat).map readDuration = m.durationMs := by
    cases m.durationMs with
    | none => rfl
    | some d => simp [readDuration]
  simp only [mapMeetingRow, rowOf]
  rw [hduration]

theorem meetingConflict_eq (h : Simulates ρ clock s t) {d : MeetingDraft}
    (hone : PairedCall.OneConflict sql d s) :
    Registry.meetingConflict sql d t =
      if s.meetings.containsKey d.id then some (.alreadyExists d.id "meeting")
      else if s.hasDirPath d.dirPath then
        some (.uniqueConflict "meeting" "dir_path" d.dirPath)
      else none := by
  unfold PairedCall.OneConflict at hone
  simp only [Registry.meetingConflict, h.hasMeeting, h.hasDirPath]
  cases hid : s.meetings.containsKey d.id with
  | false => cases s.hasDirPath d.dirPath <;> simp
  | true =>
    cases hdir : s.hasDirPath d.dirPath with
    | false => simp
    | true =>
      have hreports : sql.reportsDirPath = false := by
        cases hreports : sql.reportsDirPath with
        | false => rfl
        | true => exact absurd ⟨hreports, hid, hdir⟩ hone
      simp [hreports]

theorem insertMeeting (h : Simulates ρ clock s t) {d : MeetingDraft} {endedAt : Option String}
    {durationMs : Option Nat} (hid : s.meetings.containsKey d.id = false)
    (hduration : ∀ d, durationMs = some d → d < 2 ^ 63) :
    Simulates ρ clock
      { s with meetings := s.meetings.insert d.id (d.toMeeting endedAt durationMs) }
      { t with meeting := t.meeting ++ [d.row endedAt (durationMs.map asI64)] } := by
  obtain ⟨hspace, hproject⟩ := h.placed d.id hid
  have hrow : d.row endedAt (durationMs.map asI64) =
      rowOf ρ s.meetingSpaces s.meetingProjects (d.toMeeting endedAt durationMs) := by
    have hmap : durationMs.map asI64 = durationMs.map Int.ofNat :=
      Option.map_congr fun d hd => asI64_of_lt (hduration d hd)
    simp only [MeetingDraft.row, MeetingDraft.toMeeting, rowOf, hspace, hproject, hmap,
      Option.map_none]
  refine { h with meetings := h.meetings.insert hid hrow rfl, durations := ?_, placed := ?_ }
  · intro e he
    rw [HashMap.entries_insert_of_not _ hid] at he
    rcases List.mem_append.mp he with he | he
    · exact h.durations e he
    · rw [List.mem_singleton.mp he]
      exact hduration
  · intro key hkey
    refine h.placed key ?_
    rw [← HashMap.get_eq_none_iff] at hkey ⊢
    rw [HashMap.get_insert] at hkey
    split at hkey
    · cases hkey
    · exact hkey

theorem insertNote (h : Simulates ρ clock s t) (hclock : clock now ambient.now) {d : NoteDraft}
    (hid : s.notes.containsKey d.id = false) :
    Simulates ρ clock { s with notes := s.notes.insert d.id (d.toNote now) }
      { t with note := t.note ++ [d.toNote ambient.now] } :=
  { h with notes := h.notes.insert hid ⟨rfl, rfl, rfl, rfl, rfl, hclock⟩ rfl }

theorem createMeeting (h : Simulates ρ clock s t) {d : MeetingDraft}
    (hone : PairedCall.OneConflict sql d s) :
    Agrees ρ clock Eq (s.createMeeting d) (Registry.createMeeting sql d t) := by
  unfold InMemory.createMeeting Registry.createMeeting
  rw [h.meetingConflict_eq hone]
  cases hid : s.meetings.containsKey d.id with
  | true => exact agrees_error h rfl
  | false =>
    cases hdir : s.hasDirPath d.dirPath with
    | true => exact agrees_error h rfl
    | false => exact agrees_ok rfl (h.insertMeeting hid fun _ hd => nomatch hd)

/-- A meeting and a note that were created together. -/
def SamePair (clock : String → String → Prop) (out out' : Meeting × Note) : Prop :=
  out'.1 = out.1 ∧ SameNote clock out.2 out'.2

theorem createMeetingWithNote (h : Simulates ρ clock s t) (hclock : clock now ambient.now)
    {m : MeetingDraft} {n : NoteDraft} {endedAt : Option String} {durationMs : Option Nat}
    (hcomparable : if n.meetingId = m.id then
        PairedCall.OneConflict sql m s ∧ ∀ d, durationMs = some d → d < 2 ^ 63
      else s.meetings.containsKey m.id = false ∧ s.hasDirPath m.dirPath = false) :
    Agrees ρ clock (SamePair clock) (s.createMeetingWithNote now m n endedAt durationMs)
      (Registry.createMeetingWithNote sql ambient m n endedAt durationMs t) := by
  unfold InMemory.createMeetingWithNote Registry.createMeetingWithNote
  by_cases hids : n.meetingId = m.id
  · rw [if_pos hids] at hcomparable
    obtain ⟨hone, hduration⟩ := hcomparable
    simp only [hids, ne_eq, not_true_eq_false, if_false, h.meetingConflict_eq hone, h.hasNote]
    cases hid : s.meetings.containsKey m.id with
    | true => exact agrees_error h rfl
    | false =>
      cases hdir : s.hasDirPath m.dirPath with
      | true => exact agrees_error h rfl
      | false =>
        cases hnote : s.notes.containsKey n.id with
        | true => exact agrees_error h rfl
        | false =>
          exact agrees_ok ⟨rfl, ⟨rfl, rfl, rfl, rfl, rfl, hclock⟩⟩
            ((h.insertMeeting hid hduration).insertNote hclock hnote)
  · rw [if_neg hids] at hcomparable
    simp only [hids, ne_eq, not_false_eq_true, if_true, hcomparable.1, hcomparable.2,
      Bool.false_eq_true, if_false]
    exact agrees_error h rfl

theorem selectMeeting_eq (h : Simulates ρ clock s t) (id : String) :
    t.selectMeeting id =
      (s.meetings.get id).map (rowOf ρ s.meetingSpaces s.meetingProjects) := by
  rcases h.meetings.find_cases id with ⟨hget, hfind⟩ | ⟨m, row, hget, hfind, hrow, _⟩
  · rw [hget]
    exact hfind
  · rw [hget, Option.map_some, ← hrow]
    exact hfind

theorem getMeeting (h : Simulates ρ clock s t) (id : String) :
    Agrees ρ clock Eq (s.getMeeting id) (Registry.getMeeting id t) := by
  unfold InMemory.getMeeting Registry.getMeeting
  rw [h.selectMeeting_eq]
  cases s.meetings.get id with
  | none => exact agrees_error h rfl
  | some m => exact agrees_ok (mapMeetingRow_rowOf _ _ m).symm h

/-- A change of a meeting, and the same change of its row. -/
theorem changeMeeting (h : Simulates ρ clock s t) {id : String} {f : Meeting → Meeting}
    {g : MeetingRow → MeetingRow} (hid : ∀ m, (f m).id = m.id)
    (hrow : s.meetings.containsKey id = true → ∀ spaces projects m,
      rowOf ρ spaces projects (f m) = g (rowOf ρ spaces projects m))
    (hduration : s.meetings.containsKey id = true → ∀ m,
      (∀ d, m.durationMs = some d → d < 2 ^ 63) → ∀ d, (f m).durationMs = some d → d < 2 ^ 63) :
    Agrees ρ clock Eq (s.changeMeeting id f) (Registry.changeMeeting id g t) := by
  unfold InMemory.changeMeeting Registry.changeMeeting
  rw [h.selectMeeting_eq]
  cases hget : s.meetings.get id with
  | none => exact agrees_error h rfl
  | some m =>
    have hhere := HashMap.containsKey_of_get hget
    have hsame := hrow hhere
    have hmeeting : f m = mapMeetingRow (g (rowOf ρ s.meetingSpaces s.meetingProjects m)) := by
      rw [← hsame, mapMeetingRow_rowOf]
    refine agrees_ok hmeeting { h with meetings := ?_, durations := ?_, placed := ?_ }
    · refine h.meetings.alter (fun a b hab => ?_) hid
      rw [hab]
      exact (hsame _ _ a).symm
    · intro e he
      obtain ⟨old, hold, rfl⟩ := List.mem_map.mp he
      split
      · exact hduration hhere old.2 (h.durations old hold)
      · exact h.durations old hold
    · intro key hkey
      rw [HashMap.containsKey_alter] at hkey
      exact h.placed key hkey

theorem updateMeetingEnded (h : Simulates ρ clock s t) {id endedAt : String} {durationMs : Nat}
    (hd : s.meetings.containsKey id = true → durationMs < 2 ^ 63) :
    Agrees ρ clock Eq (s.updateMeetingEnded id endedAt durationMs)
      (Registry.updateMeetingEnded id endedAt durationMs t) := by
  refine h.changeMeeting (fun _ => rfl) (fun hhere _ _ m => ?_) fun hhere m _ d hdm => ?_
  · simp only [rowOf, Option.map_some, asI64_of_lt (hd hhere)]
  · cases hdm
    exact hd hhere

theorem renameMeeting (h : Simulates ρ clock s t) (id title : String) :
    Agrees ρ clock Eq (s.renameMeeting id title) (Registry.renameMeeting id title t) :=
  h.changeMeeting (fun _ => rfl) (fun _ _ _ _ => rfl) fun _ _ hm => hm

/-! ## Notes -/

theorem createNote (h : Simulates ρ clock s t) (hclock : clock now ambient.now) (d : NoteDraft) :
    Agrees ρ clock (SameNote clock) (s.createNote now d) (Registry.createNote ambient d t) := by
  unfold InMemory.createNote Registry.createNote
  rw [h.hasMeeting, h.hasNote]
  cases s.meetings.containsKey d.meetingId with
  | false => exact agrees_error h rfl
  | true =>
    cases hnote : s.notes.containsKey d.id with
    | true => exact agrees_error h rfl
    | false => exact agrees_ok ⟨rfl, rfl, rfl, rfl, rfl, hclock⟩ (h.insertNote hclock hnote)

theorem retainNotes (h : Simulates ρ clock s t) (meetingId : String) :
    Mirrors id Note.id Note.id (SameNote clock)
      (s.notes.retain fun _ n => n.meetingId != meetingId)
      (t.note.filter (·.meetingId != meetingId)) := by
  refine h.notes.retain fun e _ n hn _ => ?_
  rw [hn.meetingId]

theorem replaceMeetingNote (h : Simulates ρ clock s t) (hclock : clock now ambient.now)
    (meetingId : String) (draft : NoteDraft) :
    Agrees ρ clock (SameNote clock) (s.replaceMeetingNote now meetingId draft)
      (Registry.replaceMeetingNote ambient meetingId draft t) := by
  unfold InMemory.replaceMeetingNote Registry.replaceMeetingNote
  split
  · exact agrees_error h rfl
  · rw [h.hasMeeting]
    cases s.meetings.containsKey meetingId with
    | false => exact agrees_error h rfl
    | true =>
      have hothers : (t.note.filter (·.meetingId != meetingId)).any (·.id == draft.id) =
          (s.notes.get draft.id).any (·.meetingId != meetingId) :=
        ((h.retainNotes meetingId).any_eq draft.id).trans (HashMap.containsKey_retain _ _)
      simp only [if_true, hothers]
      cases htaken : (s.notes.get draft.id).any (·.meetingId != meetingId) with
      | true => exact agrees_error h rfl
      | false =>
        have hfree : (s.notes.retain fun _ n => n.meetingId != meetingId).containsKey draft.id =
            false := (HashMap.containsKey_retain _ _).trans htaken
        refine agrees_ok ⟨rfl, rfl, rfl, rfl, rfl, hclock⟩ { h with notes := ?_ }
        exact (h.retainNotes meetingId).insert hfree ⟨rfl, rfl, rfl, rfl, rfl, hclock⟩ rfl

theorem listNotesForMeeting (h : Simulates ρ clock s t) {meetingId : String}
    (hone : (s.notes.values.filter (·.meetingId == meetingId)).length ≤ 1) :
    List.Forall₂ (SameNote clock) (s.listNotesForMeeting order meetingId)
      (t.selectNotes sql meetingId) := by
  have hfilter : List.Forall₂ (SameNote clock) (s.notes.values.filter (·.meetingId == meetingId))
      (t.note.filter (·.meetingId == meetingId)) := by
    refine List.rel_filter ?_ h.notes.rows
    intro n n' hn
    show (n.meetingId == meetingId) = true ↔ (n'.meetingId == meetingId) = true
    rw [hn.meetingId]
  have hleft : s.listNotesForMeeting order meetingId =
      s.notes.values.filter (·.meetingId == meetingId) :=
    Lib.Sorting.perm_eq_of_length_le_one ((order.iterate_perm _).filter _) hone
  have hright : t.selectNotes sql meetingId = t.note.filter (·.meetingId == meetingId) := by
    refine Lib.Sorting.perm_eq_of_length_le_one
      ((List.perm_insertionSort _ _).trans (sql.scan_perm _)) ?_
    rw [← hfilter.length_eq]
    exact hone
  rw [hleft, hright]
  exact hfilter

theorem tagsOf_remove (s : InMemory) (id meetingId : String) :
    ((s.meetingTags.remove id).get meetingId).getD [] =
      if meetingId = id then [] else s.tagsOf meetingId := by
  rw [HashMap.get_remove]
  split <;> rfl

theorem deleteMeeting (h : Simulates ρ clock s t) (id : String) :
    Agrees ρ clock Eq (s.deleteMeeting id)
      (Registry.changeRow "meeting" (·.hasMeeting id) id (fun t => (t.deleteMeeting id).2) t) := by
  refine agrees_changeRow h (h.hasMeeting id) rfl fun hid => ?_
  have hhere : t.hasMeeting id = true := (h.hasMeeting id).trans hid
  refine { h with
    meetings := ?_, durations := ?_, placed := ?_, notes := ?_, pairs := ?_, pairsNodup := ?_,
    tagsSorted := ?_ }
  · refine (h.meetings.remove id).congr_rows (fun e he row hrow => ?_) fun m row hrow => ?_
    · have hne : e.2.id ≠ id := by
        obtain ⟨hmem, hkept⟩ := List.mem_filter.mp he
        rw [← h.meetings.keys e hmem]
        simpa using hkept
      rw [hrow]
      simp only [rowOf, HashMap.get_remove, if_neg hne]
    · rw [hrow]
      rfl
  · exact fun e he => h.durations e (List.mem_filter.mp he).1
  · intro key hkey
    simp only [HashMap.get_remove]
    split
    · exact ⟨rfl, rfl⟩
    · next hne =>
      refine h.placed key ?_
      rw [← HashMap.get_eq_none_iff] at hkey ⊢
      rw [HashMap.get_remove, if_neg hne] at hkey
      exact hkey
  · have hgone : (fun n : Note => !(t.hasMeeting id && n.meetingId == id)) =
        fun n => n.meetingId != id := by
      funext n
      rw [hhere, Bool.true_and]
      rfl
    simp only [Tables.deleteMeeting]
    rw [hgone]
    exact h.retainNotes id
  · intro m tagId
    simp only [Tables.deleteMeeting, List.mem_filter, h.pairs, hhere, Bool.true_and,
      InMemory.tagsOf, tagsOf_remove]
    by_cases hm : m = id
    · simp [hm]
    · simp [hm]
  · exact h.pairsNodup.filter _
  · intro m
    simp only [InMemory.tagsOf, tagsOf_remove]
    split
    · exact List.Pairwise.nil
    · exact h.tagsSorted m

end Simulates
end Storage
end Panops
