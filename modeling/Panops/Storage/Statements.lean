import Panops.Storage.Registry

/-!
# From statements to operations

Every operation of `RusqliteStorage`, executed symbolically, comes to its meaning
on the tables.
-/

namespace Panops
namespace Storage
namespace RusqliteStorage

open Lib.Database Lib.Database.Db

variable {F : Prop} {α : Type} {Q : Except StorageError α → Tables → Prop} {t : Tables}

/-! ## Rules for the statements -/

theorem wp_select {read : Tables → α} (hfault : F → ∀ message, Q (.error (.sql message)) t)
    (h : Q (.ok (read t)) t) : wp F (select read) Q t :=
  wp_mapErr (wp_query hfault h)

theorem wp_change {run : Tables → α × Tables}
    (hfault : F → ∀ message, Q (.error (.sql message)) t)
    (h : Q (.ok (run t).1) (run t).2) : wp F (change run) Q t :=
  wp_mapErr (wp_statement hfault h)

theorem wp_insert {run : Tables → Except SqliteError (α × Tables)}
    (hfault : F → ∀ message, Q (.error (.sql message)) t)
    (h : match run t with
      | .error e => Q (.error (sqlError e)) t
      | .ok (a, t') => Q (.ok a) t') : wp F (orSql (execute run)) Q t := by
  refine wp_mapErr (wp_statement hfault ?_)
  cases hrun : run t with
  | error e =>
    rw [hrun] at h
    exact h
  | ok out =>
    rw [hrun] at h
    exact h

theorem wp_ensureRowExists {kind : String} {exists_ : Tables → Bool} {id : String}
    {Q : Except StorageError Unit → Tables → Prop}
    (hfault : F → ∀ message, Q (.error (.sql message)) t)
    (hnone : exists_ t = false → Q (.error (.notFound id kind)) t)
    (hfound : exists_ t = true → Q (.ok ()) t) :
    wp F (ensureRowExists kind exists_ id) Q t := by
  refine wp_bind (wp_select hfault ?_)
  cases hexists : exists_ t with
  | true => exact wp_pure (hfound hexists)
  | false => exact wp_throw (hnone hexists)

theorem wp_orNotFound {kind id : String} {n : Nat} {Q : Except StorageError Unit → Tables → Prop}
    (hnone : n = 0 → Q (.error (.notFound id kind)) t) (hsome : n ≠ 0 → Q (.ok ()) t) :
    wp F (orNotFound kind id n) Q t := by
  unfold orNotFound
  split
  · next h => exact wp_throw (hnone h)
  · next h => exact wp_pure (hsome h)

theorem contains_uniqueMessage (column : String) : contains (uniqueMessage column) column = true := by
  unfold contains uniqueMessage
  rw [decide_eq_true_eq, String.toList_append]
  exact (List.suffix_append _ _).isInfix

/-- The message of a violated constraint on `meeting` says which one it is. -/
theorem mapMeetingConstraintViolation_dirPath (id dirPath : String) :
    mapMeetingConstraintViolation (.constraint (uniqueMessage "meeting.dir_path")) id dirPath =
      .uniqueConflict "meeting" "dir_path" dirPath := by
  rw [mapMeetingConstraintViolation, SqliteError.message, if_pos (contains_uniqueMessage _)]

theorem mapMeetingConstraintViolation_id (id dirPath : String) :
    mapMeetingConstraintViolation (.constraint (uniqueMessage "meeting.id")) id dirPath =
      .alreadyExists id "meeting" := by
  have hdir : ¬ contains (uniqueMessage "meeting.id") "meeting.dir_path" = true := by
    unfold contains uniqueMessage
    rw [decide_eq_true_eq]
    intro hinfix
    have hmem : '_' ∈ ("UNIQUE constraint failed: " ++ "meeting.id").toList :=
      hinfix.subset (by simp)
    simp at hmem
  rw [mapMeetingConstraintViolation, SqliteError.message, if_neg hdir,
    if_pos (contains_uniqueMessage _)]

variable {sql : Sqlite} {ambient : Ambient}

/-- A meeting is inserted, or the message says which conflict it has. -/
theorem insertMeeting_cases (d : MeetingDraft) (endedAt : Option String)
    (durationMs : Option Int) (t : Tables) :
    (∃ message e, t.insertMeeting sql (d.row endedAt durationMs) = .error (.constraint message) ∧
        Registry.meetingConflict sql d t = some e ∧
        mapMeetingConstraintViolation (.constraint message) d.id d.dirPath = e) ∨
      t.insertMeeting sql (d.row endedAt durationMs) =
          .ok ((), { t with meeting := t.meeting ++ [d.row endedAt durationMs] }) ∧
        Registry.meetingConflict sql d t = none := by
  by_cases hdir : (t.meeting.any (·.dirPath == d.dirPath) &&
      (sql.reportsDirPath || !t.hasMeeting d.id)) = true
  · exact Or.inl ⟨_, _, if_pos hdir, if_pos hdir, mapMeetingConstraintViolation_dirPath _ _⟩
  · by_cases hid : t.hasMeeting d.id = true
    · exact Or.inl ⟨_, _, (if_neg hdir).trans (if_pos hid), (if_neg hdir).trans (if_pos hid),
        mapMeetingConstraintViolation_id _ _⟩
    · have hrefs : ¬ (!t.referencesHold (d.row endedAt durationMs)) = true := by
        simp [Tables.referencesHold, MeetingDraft.row]
      exact Or.inr ⟨(if_neg hdir).trans ((if_neg hid).trans (if_neg hrefs)),
        (if_neg hdir).trans (if_neg hid)⟩

/-- An insert into `meeting` and the check of its outcome. -/
theorem wp_insertMeeting {d : MeetingDraft} {endedAt : Option String} {durationMs : Option Int}
    {k : Unit → Program α} (hfault : F → ∀ message, Q (.error (.sql message)) t)
    (hconflict : ∀ e, Registry.meetingConflict sql d t = some e → Q (.error e) t)
    (hok : Registry.meetingConflict sql d t = none →
      wp F (k ()) Q { t with meeting := t.meeting ++ [d.row endedAt durationMs] }) :
    wp F (attempt (execute (·.insertMeeting sql (d.row endedAt durationMs))) >>= fun result =>
      checkMeetingInsert d result >>= k) Q t := by
  refine wp_bind (wp_attempt (wp_statement (fun hF message => ?_) ?_))
  · exact wp_bind (wp_throw (hfault hF message))
  · rcases insertMeeting_cases d endedAt durationMs t with
      ⟨message, e, hinsert, he, hmap⟩ | ⟨hinsert, hnone⟩
    · rw [hinsert]
      refine wp_bind (wp_throw ?_)
      rw [hmap]
      exact hconflict e he
    · rw [hinsert]
      exact wp_bind (wp_pure (hok hnone))

/-- An insert into `note` and the check of its outcome. -/
theorem wp_insertNote {d : NoteDraft} {createdAt : String} {k : Unit → Program α}
    (hfault : F → ∀ message, Q (.error (.sql message)) t)
    (hmeeting : t.hasMeeting d.meetingId = true)
    (htaken : t.note.any (·.id == d.id) = true → Q (.error (.alreadyExists d.id "note")) t)
    (hok : t.note.any (·.id == d.id) = false →
      wp F (k ()) Q { t with note := t.note ++ [d.toNote createdAt] }) :
    wp F (attempt (execute (·.insertNote (d.toNote createdAt))) >>= fun result =>
      checkNoteInsert d result >>= k) Q t := by
  refine wp_bind (wp_attempt (wp_statement (fun hF message => ?_) ?_))
  · exact wp_bind (wp_throw (hfault hF message))
  · by_cases htake : t.note.any (·.id == d.id) = true
    · have hinsert : t.insertNote (d.toNote createdAt) =
          .error (.constraint (uniqueMessage "note.id")) := if_pos htake
      rw [hinsert]
      exact wp_bind (wp_throw (htaken htake))
    · have hinsert : t.insertNote (d.toNote createdAt) =
          .ok ((), { t with note := t.note ++ [d.toNote createdAt] }) := by
        refine (if_neg htake).trans (if_neg ?_)
        simp [NoteDraft.toNote, hmeeting]
      rw [hinsert]
      exact wp_bind (wp_pure (hok (by simpa using htake)))

/-! ## The operations -/

theorem implements_createMeeting (d : MeetingDraft) :
    Implements F .sql (createMeeting sql d) (Registry.createMeeting sql d) := by
  intro t
  refine wp_insertMeeting (fun hF message => Outcome.fault hF message) (fun e he => ?_)
    fun hnone => wp_pure ?_
  · exact Outcome.of_eq (by rw [Registry.createMeeting, he])
  · exact Outcome.of_eq (by rw [Registry.createMeeting, hnone])

theorem implements_createMeetingWithNote (meeting : MeetingDraft) (note : NoteDraft)
    (endedAt : Option String) (durationMs : Option Nat) :
    Implements F .sql (createMeetingWithNote sql ambient meeting note endedAt durationMs)
      (Registry.createMeetingWithNote sql ambient meeting note endedAt durationMs) := by
  intro t
  unfold createMeetingWithNote Registry.createMeetingWithNote
  by_cases hmeeting : note.meetingId = meeting.id
  · simp only [hmeeting, ne_eq, not_true_eq_false, if_false]
    refine wp_transaction (fun hF message => Outcome.fault hF message) ?_
    refine wp_insertMeeting (fun hF message => Outcome.fault hF message) (fun e he => ?_)
      fun hnone => ?_
    · exact Outcome.of_eq (by rw [he])
    · have hhere : Tables.hasMeeting { t with
          meeting := t.meeting ++ [meeting.row endedAt (durationMs.map asI64)] }
          note.meetingId = true :=
        Tables.hasMeeting_iff.mpr ⟨_, List.mem_append_right _ (List.mem_singleton_self _),
          hmeeting.symm⟩
      refine wp_insertNote (fun hF message => Outcome.fault hF message) hhere (fun htaken => ?_)
        fun hfree => wp_pure ?_
      · exact Outcome.of_eq (by simp only [hnone, htaken, if_true])
      · exact Outcome.of_eq (by simp only [hnone, hfree, if_false, Bool.false_eq_true])
  · simp only [hmeeting, ne_eq, not_false_eq_true, if_true]
    exact wp_throw (Outcome.of_eq rfl)

theorem implements_getMeeting (id : String) :
    Implements F .sql (getMeeting id) (Registry.getMeeting id) := by
  intro t
  refine wp_bind (wp_select (fun hF message => Outcome.fault hF message) ?_)
  cases hrow : t.selectMeeting id with
  | some row => exact wp_pure (Outcome.of_eq (by rw [Registry.getMeeting, hrow]))
  | none => exact wp_throw (Outcome.of_eq (by rw [Registry.getMeeting, hrow]))

/-- A change of a row by its id. -/
theorem implements_changeRow {kind id : String} {exists_ : Tables → Bool}
    {run : Tables → Nat × Tables} (hcount : ∀ t, (run t).1 = 0 ↔ exists_ t = false)
    (hsame : ∀ t, exists_ t = false → (run t).2 = t) :
    Implements F .sql (change run >>= orNotFound kind id)
      (Registry.changeRow kind exists_ id fun t => (run t).2) := by
  intro t
  refine wp_bind (wp_change (fun hF message => Outcome.fault hF message) ?_)
  refine wp_orNotFound (fun hzero => ?_) fun hsome => ?_
  · have hnone := (hcount t).mp hzero
    exact Outcome.of_eq (by rw [Registry.changeRow, hnone, hsame t hnone]; rfl)
  · have hexists : exists_ t = true := by
      cases h : exists_ t with
      | true => rfl
      | false => exact absurd ((hcount t).mpr h) hsome
    exact Outcome.of_eq (by rw [Registry.changeRow, hexists]; rfl)

theorem implements_select (read : Tables → α) :
    Implements F .sql (select read) fun t => (.ok (read t), t) :=
  fun _ => wp_select (fun hF message => Outcome.fault hF message) (Outcome.of_eq rfl)

/-- One query for the tags of each row, and the rows that the filter accepts. -/
theorem wp_collectSummaries (filter : MeetingListFilter) (rows : List (MeetingRow × Bool))
    (t : Tables) :
    wp F (collectSummaries sql filter rows)
      (Outcome F .sql (.ok ((rows.map fun row =>
        summaryOf row.1 row.2 (t.selectTagIds sql row.1.id)).filter filter.accepts), t) t) t := by
  induction rows with
  | nil => exact wp_pure (Outcome.of_eq rfl)
  | cons row rest ih =>
    refine wp_bind (wp_select (fun hF message => Outcome.fault hF message) ?_)
    refine wp_bind (wp_mono ih fun r t' h => ?_)
    rcases h with ⟨hr, ht'⟩ | ⟨hF, ⟨message, hr⟩, ht'⟩
    · subst hr ht'
      exact wp_pure (Outcome.of_eq (by rw [List.map_cons, List.filter_cons]))
    · subst hr ht'
      exact Outcome.fault hF message

theorem implements_listMeetingsFiltered (filter : MeetingListFilter) :
    Implements F .sql (listMeetingsFiltered sql filter)
      fun t => (.ok (Registry.summaries sql filter t), t) := by
  intro t
  refine wp_bind (wp_select (fun hF message => Outcome.fault hF message) ?_)
  have h := @wp_collectSummaries F sql filter
    ((t.selectMeetings sql).map fun row => (row, t.hasNotes row.id)) t
  rw [List.map_map] at h
  exact h

/-- A change of a meeting that is read back: a failure of the second reading
leaves the change in place. -/
theorem wp_changeMeeting {id : String} {f : MeetingRow → MeetingRow} (t : Tables)
    (hf : ∀ row, (f row).id = row.id) :
    wp F (change (·.updateMeeting id f) >>= fun n => orNotFound "meeting" id n >>= fun _ =>
        getMeeting id)
      (fun r t' => Outcome F .sql (Registry.changeMeeting id f t) t r t' ∨
        F ∧ (∃ message, r = .error (.sql message)) ∧
          t' = (Registry.changeMeeting id f t).2) t := by
  refine wp_bind (wp_change (fun hF message => Or.inl (Outcome.fault hF message)) ?_)
  refine wp_bind (wp_orNotFound (fun hzero => ?_) fun hsome => ?_)
  · have hnone := Tables.countP_id_eq_zero.mp hzero
    have hselect := Tables.selectMeeting_eq_none_iff.mpr hnone
    refine Or.inl (Outcome.of_eq ?_)
    rw [Registry.changeMeeting, hselect]
    show _ = (_, (t.updateMeeting id f).2)
    rw [Tables.updateMeeting_of_not f hnone]
  · cases hselect : t.selectMeeting id with
    | none =>
      have hnone := Tables.selectMeeting_eq_none_iff.mp hselect
      exact absurd (Tables.countP_id_eq_zero.mpr hnone) hsome
    | some row =>
      have hmeaning : Registry.changeMeeting id f t =
          (.ok (mapMeetingRow (f row)), (t.updateMeeting id f).2) := by
        rw [Registry.changeMeeting, hselect]
      have hback : (t.updateMeeting id f).2.selectMeeting id = some (f row) := by
        rw [Tables.selectMeeting_updateMeeting hf, hselect, Option.map_some]
      rw [hmeaning]
      refine wp_bind (wp_select (fun hF message => Or.inr ⟨hF, ⟨message, rfl⟩, rfl⟩) ?_)
      rw [hback]
      exact wp_pure (Or.inl (Outcome.of_eq rfl))

theorem implements_createNote (d : NoteDraft) :
    Implements F .sql (createNote ambient d) (Registry.createNote ambient d) := by
  intro t
  refine wp_bind (wp_select (fun hF message => Outcome.fault hF message) ?_)
  unfold Registry.createNote
  cases hmeeting : t.hasMeeting d.meetingId with
  | false => exact wp_throw (Outcome.of_eq rfl)
  | true =>
    refine wp_insertNote (fun hF message => Outcome.fault hF message) hmeeting (fun htaken => ?_)
      fun hfree => wp_pure ?_
    · exact Outcome.of_eq (by rw [htaken]; rfl)
    · exact Outcome.of_eq (by rw [hfree]; rfl)

theorem implements_replaceMeetingNote (meetingId : String) (draft : NoteDraft) :
    Implements F .sql (replaceMeetingNote ambient meetingId draft)
      (Registry.replaceMeetingNote ambient meetingId draft) := by
  intro t
  unfold replaceMeetingNote Registry.replaceMeetingNote
  by_cases hdraft : draft.meetingId = meetingId
  · simp only [hdraft, ne_eq, not_true_eq_false, if_false]
    refine wp_transaction (fun hF message => Outcome.fault hF message) ?_
    refine wp_bind (wp_select (fun hF message => Outcome.fault hF message) ?_)
    cases hmeeting : t.hasMeeting meetingId with
    | false => exact wp_throw (Outcome.of_eq rfl)
    | true =>
      refine wp_bind (wp_change (fun hF message => Outcome.fault hF message) ?_)
      have hstill : (t.deleteNotesOf meetingId).hasMeeting draft.meetingId = true := by
        rw [hdraft]
        exact hmeeting
      refine wp_insertNote (fun hF message => Outcome.fault hF message) hstill (fun htaken => ?_)
        fun hfree => wp_pure ?_
      · have hothers : (t.note.filter (·.meetingId != meetingId)).any (·.id == draft.id) = true :=
          htaken
        exact Outcome.of_eq (by simp only [if_true, hothers])
      · have hothers : (t.note.filter (·.meetingId != meetingId)).any (·.id == draft.id) = false :=
          hfree
        refine Outcome.of_eq ?_
        simp only [if_true, hothers, Bool.false_eq_true, if_false, Tables.deleteNotesOf]
  · simp only [hdraft, ne_eq, not_false_eq_true, if_true]
    exact wp_throw (Outcome.of_eq rfl)

/-! ## When notes are read and replaced -/

theorem takes_select (read : Tables → α) (t : Tables) : Takes 1 (select read) t (read t) t :=
  takes_query.mapErr

theorem takes_change {run : Tables → α × Tables} :
    Takes 1 (change run) t (run t).1 (run t).2 :=
  (takes_statement rfl).mapErr

theorem takes_getMeeting {id : String} {row : MeetingRow} (h : t.selectMeeting id = some row) :
    Takes 1 (getMeeting id) t (mapMeetingRow row) t := by
  refine (takes_select _ t).bind (k := 0) ?_
  rw [h]
  exact takes_pure _ t

theorem fails_getMeeting {id : String} (h : t.selectMeeting id = none) :
    Fails (getMeeting id) t := by
  refine (takes_select _ t).bind_fails ?_
  rw [h]
  exact fails_throw _ t

theorem checkNoteInsert_error (d : NoteDraft) (k : Unit → Program α) (e : SqliteError)
    (s : Session Tables) : ∃ e' s', (checkNoteInsert d (.error e) >>= k) s = (.error e', s') := by
  cases e with
  | constraint message => exact ⟨_, _, rfl⟩
  | failure message => exact ⟨_, _, rfl⟩

theorem takes_replaceMeetingNote {meetingId : String} {draft : NoteDraft}
    (hdraft : draft.meetingId = meetingId) (hmeeting : t.hasMeeting meetingId = true)
    (hfree : (t.note.filter (·.meetingId != meetingId)).any (·.id == draft.id) = false) :
    Takes 5 (replaceMeetingNote ambient meetingId draft) t (draft.toNote ambient.now)
      { t with
        note := t.note.filter (·.meetingId != meetingId) ++ [draft.toNote ambient.now] } := by
  have hstill : (t.deleteNotesOf meetingId).hasMeeting draft.meetingId = true := by
    rw [hdraft]
    exact hmeeting
  have hinsert : (t.deleteNotesOf meetingId).insertNote (draft.toNote ambient.now) =
      .ok ((), { t with
        note := t.note.filter (·.meetingId != meetingId) ++ [draft.toNote ambient.now] }) := by
    refine (if_neg ?_).trans (if_neg ?_)
    · exact Bool.not_eq_true _ ▸ hfree
    · simp [NoteDraft.toNote, hstill]
  unfold replaceMeetingNote
  simp only [hdraft, ne_eq, not_true_eq_false, if_false]
  refine Takes.transaction (n := 3) ((takes_select _ t).bind (k := 2) ?_)
  rw [hmeeting]
  exact takes_change.bind (k := 1) ((takes_statement hinsert).attempt_bind (k := 0)
    (takes_pure (draft.toNote ambient.now) _) (checkNoteInsert_error draft _))

theorem fails_replaceMeetingNote {meetingId : String} {draft : NoteDraft}
    (h : t.hasMeeting meetingId = true →
      (t.note.filter (·.meetingId != meetingId)).any (·.id == draft.id) = true) :
    Fails (replaceMeetingNote ambient meetingId draft) t := by
  unfold replaceMeetingNote
  by_cases hdraft : draft.meetingId = meetingId
  · simp only [hdraft, ne_eq, not_true_eq_false, if_false]
    refine Fails.transaction ((takes_select _ t).bind_fails ?_)
    cases hmeeting : t.hasMeeting meetingId with
    | false => exact fails_throw _ t
    | true =>
      have htaken : (t.deleteNotesOf meetingId).insertNote (draft.toNote ambient.now) =
          .error (.constraint (uniqueMessage "note.id")) := if_pos (h hmeeting)
      exact takes_change.bind_fails
        ((fails_statement htaken).attempt_bind (checkNoteInsert_error draft _))
  · simp only [hdraft, ne_eq, not_false_eq_true, if_true]
    exact fails_throw _ t

/-- An insert whose failure is passed on, and the value that is returned. -/
theorem wp_inserted {value : α} {run : Tables → Except SqliteError (Unit × Tables)} (t : Tables) :
    wp F (orSql (execute run) >>= fun _ => pure value)
      (Outcome F .sql (Registry.inserted value t (run t)) t) t := by
  refine wp_bind (wp_insert (fun hF message => Outcome.fault hF message) ?_)
  cases hrun : run t with
  | error e => exact Outcome.of_eq rfl
  | ok out => exact wp_pure (Outcome.of_eq rfl)

theorem implements_createSpace (name : String) :
    Implements F .sql (createSpace ambient name) (Registry.createSpace ambient name) := by
  intro t
  refine wp_bind (wp_select (fun hF message => Outcome.fault hF message) ?_)
  exact wp_inserted t

theorem implements_createProject (spaceId name : String) :
    Implements F .sql (createProject ambient spaceId name)
      (Registry.createProject ambient spaceId name) := by
  intro t
  unfold Registry.createProject
  refine wp_bind (wp_ensureRowExists (fun hF message => Outcome.fault hF message)
    (fun hnone => ?_) fun hfound => ?_)
  · exact Outcome.of_eq (by rw [hnone]; rfl)
  · rw [if_pos hfound]
    refine wp_bind (wp_select (fun hF message => Outcome.fault hF message) ?_)
    exact wp_inserted t

theorem implements_createTag (name : String) :
    Implements F .sql (createTag ambient name) (Registry.createTag ambient name) := by
  intro t
  refine wp_bind (wp_select (fun hF message => Outcome.fault hF message) ?_)
  unfold Registry.createTag
  cases htag : t.selectTagByName name with
  | some tag => exact wp_pure (Outcome.of_eq rfl)
  | none => exact wp_inserted t

/-- The checks before a pair of a meeting and a tag is touched. -/
theorem wp_withTag {meetingId tagId : String} {x : Program Unit}
    {f : Tables → Except StorageError Unit × Tables} (t : Tables)
    (hx : wp F x (Outcome F .sql (f t) t) t) :
    wp F (ensureMeetingExists meetingId >>= fun _ => ensureTagExists tagId >>= fun _ => x)
      (Outcome F .sql (Registry.withTag meetingId tagId f t) t) t := by
  unfold Registry.withTag
  refine wp_bind (wp_ensureRowExists (fun hF message => Outcome.fault hF message)
    (fun hnone => Outcome.of_eq (by rw [hnone]; rfl)) fun hmeeting => ?_)
  refine wp_bind (wp_ensureRowExists (fun hF message => Outcome.fault hF message)
    (fun hnone => Outcome.of_eq (by rw [hmeeting, hnone]; rfl)) fun htag => ?_)
  rw [if_pos hmeeting, if_pos htag]
  exact hx

theorem implements_tagMeeting (meetingId tagId : String) :
    Implements F .sql (tagMeeting meetingId tagId) (Registry.tagMeeting meetingId tagId) := by
  intro t
  refine wp_withTag t (wp_insert (fun hF message => Outcome.fault hF message) ?_)
  cases t.insertMeetingTag meetingId tagId with
  | error e => exact Outcome.of_eq rfl
  | ok out => exact Outcome.of_eq rfl

theorem implements_untagMeeting (meetingId tagId : String) :
    Implements F .sql (untagMeeting meetingId tagId) (Registry.untagMeeting meetingId tagId) :=
  fun t => wp_withTag t (wp_change (fun hF message => Outcome.fault hF message)
    (Outcome.of_eq rfl))

theorem implements_listTagsForMeeting (meetingId : String) :
    Implements F .sql (listTagsForMeeting sql meetingId)
      (Registry.listTagsForMeeting sql meetingId) := by
  intro t
  unfold Registry.listTagsForMeeting
  refine wp_bind (wp_ensureRowExists (fun hF message => Outcome.fault hF message)
    (fun hnone => Outcome.of_eq (by rw [hnone]; rfl)) fun hmeeting => ?_)
  rw [if_pos hmeeting]
  exact wp_select (fun hF message => Outcome.fault hF message) (Outcome.of_eq rfl)

theorem wp_resolveAssignment {spaceId projectId : Option String}
    {Q : Except StorageError (Option String × Option String) → Tables → Prop}
    (hfault : F → ∀ message, Q (.error (.sql message)) t)
    (h : Q (Registry.resolveAssignment spaceId projectId t) t) :
    wp F (resolveAssignment spaceId projectId) Q t := by
  cases projectId with
  | some projectId =>
    refine wp_bind (wp_select hfault ?_)
    simp only [Registry.resolveAssignment] at h
    cases hspace : t.selectProjectSpace projectId with
    | some projectSpaceId =>
      rw [hspace] at h
      exact wp_pure h
    | none =>
      rw [hspace] at h
      exact wp_throw h
  | none =>
    cases spaceId with
    | none => exact wp_bind (wp_pure (wp_pure h))
    | some spaceId =>
      simp only [Registry.resolveAssignment] at h
      refine wp_bind (wp_ensureRowExists hfault (fun hnone => ?_) fun hfound => ?_)
      · rw [hnone] at h
        exact h
      · rw [if_pos hfound] at h
        exact wp_pure h

theorem implements_assignMeeting (meetingId : String) (spaceId projectId : Option String) :
    Implements F .sql (assignMeeting meetingId spaceId projectId)
      (Registry.assignMeeting meetingId spaceId projectId) := by
  intro t
  unfold Registry.assignMeeting
  refine wp_bind (wp_ensureRowExists (fun hF message => Outcome.fault hF message)
    (fun hnone => Outcome.of_eq (by rw [hnone]; rfl)) fun hmeeting => ?_)
  rw [if_pos hmeeting]
  refine wp_bind (wp_resolveAssignment (fun hF message => Outcome.fault hF message) ?_)
  cases Registry.resolveAssignment spaceId projectId t with
  | error e => exact Outcome.of_eq rfl
  | ok target =>
    refine wp_insert (fun hF message => Outcome.fault hF message) ?_
    simp only
    cases t.updateAssignment meetingId target.1 target.2 with
    | error e => exact Outcome.of_eq rfl
    | ok out => exact Outcome.of_eq rfl

/-! ## Calls -/

/-- The reply to an operation is the operation. -/
theorem wp_reply {f : α → Reply} {x : Program α} {t : Tables}
    {Q : Except StorageError Reply → Tables → Prop}
    (hx : wp F x (fun r t' => Q (r.map f) t') t) : wp F (reply f x) Q t := by
  refine wp_bind (wp_mono hx fun r t' h => ?_)
  cases r with
  | ok a => exact wp_pure h
  | error e => exact h

theorem implements_reply {f : α → Reply} {x : Program α}
    {meaning : Tables → Except StorageError α × Tables} (hx : Implements F .sql x meaning) :
    Implements F .sql (reply f x) fun t => Registry.replyWith f (meaning t) := by
  intro t
  refine wp_reply (wp_mono (hx t) fun r t' h => ?_)
  rcases h with ⟨hr, ht'⟩ | ⟨hF, ⟨message, hr⟩, ht'⟩
  · subst hr ht'
    exact Outcome.of_eq rfl
  · subst hr ht'
    exact Outcome.fault hF message

end RusqliteStorage

/-- The operations that change a meeting and then read it. -/
def Op.readsBack : Op → Bool
  | updateMeetingEnded _ _ _ => true
  | renameMeeting _ _ => true
  | _ => false

namespace RusqliteStorage

open Lib.Database Lib.Database.Db

variable {F : Prop} {sql : Sqlite} {ambient : Ambient}

theorem implements_call {op : Op} (hop : op.readsBack = false) :
    Implements F .sql (call sql ambient op) (Registry.call sql ambient op) := by
  cases op with
  | createMeeting d => exact implements_reply (implements_createMeeting d)
  | createMeetingWithNote m n endedAt durationMs =>
    exact implements_reply (implements_createMeetingWithNote m n endedAt durationMs)
  | getMeeting id => exact implements_reply (implements_getMeeting id)
  | listMeetings => exact implements_reply (implements_listMeetingsFiltered .all)
  | listMeetingsFiltered filter =>
    exact implements_reply (implements_listMeetingsFiltered filter)
  | updateMeetingEnded id endedAt durationMs => cases hop
  | renameMeeting id title => cases hop
  | deleteMeeting id =>
    exact implements_reply (implements_changeRow (fun t => Tables.countP_id_eq_zero)
      fun t => Tables.deleteMeeting_of_not)
  | createNote d => exact implements_reply (implements_createNote d)
  | listNotesForMeeting meetingId => exact implements_reply (implements_select _)
  | replaceMeetingNote meetingId draft =>
    exact implements_reply (implements_replaceMeetingNote meetingId draft)
  | createSpace name => exact implements_reply (implements_createSpace name)
  | listSpaces => exact implements_reply (implements_select _)
  | renameSpace id name =>
    exact implements_reply (implements_changeRow (fun t => Tables.countP_id_eq_zero)
      fun t => Tables.updateSpaceName_of_not name)
  | deleteSpace id =>
    exact implements_reply (implements_changeRow (fun t => Tables.countP_id_eq_zero)
      fun t => Tables.deleteSpace_of_not)
  | createProject spaceId name => exact implements_reply (implements_createProject spaceId name)
  | listProjects spaceId =>
    cases spaceId with
    | some spaceId => exact implements_reply (implements_select _)
    | none => exact implements_reply (implements_select _)
  | renameProject id name =>
    exact implements_reply (implements_changeRow (fun t => Tables.countP_id_eq_zero)
      fun t => Tables.updateProjectName_of_not name)
  | deleteProject id =>
    exact implements_reply (implements_changeRow (fun t => Tables.countP_id_eq_zero)
      fun t => Tables.deleteProject_of_not)
  | createTag name => exact implements_reply (implements_createTag name)
  | listTags => exact implements_reply (implements_select _)
  | deleteTag id =>
    exact implements_reply (implements_changeRow (fun t => Tables.countP_id_eq_zero)
      fun t => Tables.deleteTag_of_not)
  | tagMeeting meetingId tagId => exact implements_reply (implements_tagMeeting meetingId tagId)
  | untagMeeting meetingId tagId =>
    exact implements_reply (implements_untagMeeting meetingId tagId)
  | listTagsForMeeting meetingId =>
    exact implements_reply (implements_listTagsForMeeting meetingId)
  | assignMeeting meetingId spaceId projectId =>
    exact implements_reply (implements_assignMeeting meetingId spaceId projectId)

/-- The three ways a call can come out: as it is meant, as a failure of the
database that leaves the tables alone, or as such a failure of the reading that
follows a change. -/
theorem wp_call (op : Op) (t : Tables) :
    wp F (call sql ambient op) (fun r t' =>
      Outcome F .sql (Registry.call sql ambient op t) t r t' ∨
        op.readsBack = true ∧ F ∧ (∃ message, r = .error (.sql message)) ∧
          t' = (Registry.call sql ambient op t).2) t := by
  have hchange : ∀ (id : String) (f : MeetingRow → MeetingRow), (∀ row, (f row).id = row.id) →
      wp F (reply .meeting (change (·.updateMeeting id f) >>= fun n =>
          orNotFound "meeting" id n >>= fun _ => getMeeting id))
        (fun r t' =>
          Outcome F .sql (Registry.replyWith .meeting (Registry.changeMeeting id f t)) t r t' ∨
            F ∧ (∃ message, r = .error (.sql message)) ∧
              t' = (Registry.changeMeeting id f t).2) t := by
    intro id f hf
    refine wp_reply (wp_mono (wp_changeMeeting t hf) fun r t' h => ?_)
    rcases h with (⟨hr, ht'⟩ | ⟨hF, ⟨message, hr⟩, ht'⟩) | ⟨hF, ⟨message, hr⟩, ht'⟩
    · subst hr ht'
      exact Or.inl (Outcome.of_eq rfl)
    · subst hr ht'
      exact Or.inl (Outcome.fault hF message)
    · subst hr
      exact Or.inr ⟨hF, ⟨message, rfl⟩, ht'⟩
  cases hop : op.readsBack with
  | false => exact wp_mono (implements_call hop t) fun r t' h => Or.inl h
  | true =>
    cases op with
    | updateMeetingEnded id endedAt durationMs =>
      exact wp_mono (hchange id _ fun _ => rfl) fun r t' h => h.imp_right fun h => ⟨rfl, h⟩
    | renameMeeting id title =>
      exact wp_mono (hchange id _ fun _ => rfl) fun r t' h => h.imp_right fun h => ⟨rfl, h⟩
    | _ => cases hop

/-! ## Runs -/

end RusqliteStorage

/-- A call, what it takes from its surroundings, and the failures of its
statements. -/
structure Call where
  op : Op
  ambient : Ambient
  faults : List (Option String)

namespace RusqliteStorage

variable (sql : Sqlite)

def step (t : Tables) (c : Call) : Except StorageError Reply × Tables :=
  let out := call sql c.ambient c.op ⟨t, c.faults⟩
  (out.1, out.2.tables)

/-- The tables after some calls on a new store. -/
def run (calls : List Call) : Tables := calls.foldl (fun t c => (step sql t c).2) Tables.empty

variable {sql}

theorem step_cases (t : Tables) (c : Call) :
    step sql t c = Registry.call sql c.ambient c.op t ∨
      (∃ message, (step sql t c).1 = .error (.sql message)) ∧ (step sql t c).2 = t ∨
      c.op.readsBack = true ∧ (∃ message, (step sql t c).1 = .error (.sql message)) ∧
        (step sql t c).2 = (Registry.call sql c.ambient c.op t).2 := by
  obtain ⟨hout, _⟩ := @wp_call True sql c.ambient c.op t c.faults
    (Or.inr trivial)
  rcases hout with (⟨hr, ht'⟩ | ⟨_, hmessage, ht'⟩) | ⟨hback, _, hmessage, ht'⟩
  · exact Or.inl (Prod.ext hr ht')
  · exact Or.inr (Or.inl ⟨hmessage, ht'⟩)
  · exact Or.inr (Or.inr ⟨hback, hmessage, ht'⟩)

/-- A call whose statements do not fail comes to its meaning. -/
theorem step_of_no_faults (t : Tables) {c : Call} (hc : c.faults = []) :
    step sql t c = Registry.call sql c.ambient c.op t := by
  obtain ⟨hout, _⟩ := @wp_call False sql c.ambient c.op t c.faults
    (Or.inl hc)
  rcases hout with (⟨hr, ht'⟩ | ⟨hF, _⟩) | ⟨_, hF, _⟩
  · exact Prod.ext hr ht'
  · exact hF.elim
  · exact hF.elim

theorem step_tables (t : Tables) (c : Call) :
    (step sql t c).2 = t ∨ (step sql t c).2 = (Registry.call sql c.ambient c.op t).2 := by
  rcases @step_cases sql t c with h | ⟨_, h⟩ | ⟨_, _, h⟩
  · exact Or.inr (congrArg Prod.snd h)
  · exact Or.inl h
  · exact Or.inr h

theorem run_append (calls : List Call) (c : Call) :
    run sql (calls ++ [c]) = (step sql (run sql calls) c).2 := by
  rw [run, List.foldl_append]
  rfl

/-- What holds of the empty tables and is kept by the meaning of each operation
holds after any run. -/
theorem run_induction {P : Tables → Prop} (hempty : P Tables.empty)
    (hcall : ∀ ambient op t, P t → P (Registry.call sql ambient op t).2) (calls : List Call) :
    P (run sql calls) := by
  have hstep : ∀ t c, P t → P (step sql t c).2 := by
    intro t c ht
    rcases @step_tables sql t c with h | h
    · rw [h]
      exact ht
    · rw [h]
      exact hcall c.ambient c.op t ht
  have hrun : ∀ (calls : List Call) t, P t → P (calls.foldl (fun t c => (step sql t c).2) t) := by
    intro calls
    induction calls with
    | nil => exact fun _ ht => ht
    | cons c rest ih => exact fun t ht => ih _ (hstep t c ht)
  exact hrun calls Tables.empty hempty

end RusqliteStorage
end Storage
end Panops
