import Panops.Storage.Statements

/-!
# Atomicity

A call that fails leaves every table as it was.  The exceptions are the two
operations that change a meeting and read it back in a second statement: when
only the reading fails, the change stays.
-/

namespace Panops
namespace Storage

/-- An outcome that is an error has not touched the tables. -/
def Atomic {α : Type} (t : Tables) (out : Except StorageError α × Tables) : Prop :=
  ∀ e, out.1 = .error e → out.2 = t

namespace Registry

variable {sql : Sqlite} {ambient : Ambient} {t : Tables} {α : Type}

theorem atomic_ok {a : α} {t' : Tables} : Atomic t (.ok a, t') := fun _ he => nomatch he

theorem atomic_error {e : StorageError} : Atomic t (Except.error (α := α) e, t) := fun _ _ => rfl

theorem atomic_replyWith {f : α → Reply} {out : Except StorageError α × Tables}
    (h : Atomic t out) : Atomic t (replyWith f out) := by
  intro e he
  cases hout : out.1 with
  | error e' => exact h e' hout
  | ok a =>
    simp only [replyWith, hout] at he
    cases he

theorem atomic_inserted {value : α} {result : Except SqliteError (Unit × Tables)} :
    Atomic t (inserted value t result) := by
  cases result with
  | error e => exact atomic_error
  | ok out => exact atomic_ok

theorem atomic_changeRow {kind id : String} {exists_ : Tables → Bool} {f : Tables → Tables} :
    Atomic t (changeRow kind exists_ id f t) := by
  unfold changeRow
  split
  · exact atomic_ok
  · exact atomic_error

theorem atomic_changeMeeting {id : String} {f : MeetingRow → MeetingRow} :
    Atomic t (changeMeeting id f t) := by
  unfold changeMeeting
  split
  · exact atomic_ok
  · exact atomic_error

theorem atomic_createMeeting (d : MeetingDraft) : Atomic t (createMeeting sql d t) := by
  unfold createMeeting
  split
  · exact atomic_error
  · exact atomic_ok

theorem atomic_createMeetingWithNote (meeting : MeetingDraft) (note : NoteDraft)
    (endedAt : Option String) (durationMs : Option Nat) :
    Atomic t (createMeetingWithNote sql ambient meeting note endedAt durationMs t) := by
  unfold createMeetingWithNote
  split
  · exact atomic_error
  · split
    · exact atomic_error
    · split
      · exact atomic_error
      · exact atomic_ok

theorem atomic_getMeeting (id : String) : Atomic t (getMeeting id t) := by
  unfold getMeeting
  split
  · exact atomic_ok
  · exact atomic_error

theorem atomic_createNote (d : NoteDraft) : Atomic t (createNote ambient d t) := by
  unfold createNote
  split
  · split
    · exact atomic_error
    · exact atomic_ok
  · exact atomic_error

theorem atomic_replaceMeetingNote (meetingId : String) (draft : NoteDraft) :
    Atomic t (replaceMeetingNote ambient meetingId draft t) := by
  unfold replaceMeetingNote
  split
  · exact atomic_error
  · split
    · simp only
      split
      · exact atomic_error
      · exact atomic_ok
    · exact atomic_error

theorem atomic_createProject (spaceId name : String) :
    Atomic t (createProject ambient spaceId name t) := by
  unfold createProject
  split
  · exact atomic_inserted
  · exact atomic_error

theorem atomic_createTag (name : String) : Atomic t (createTag ambient name t) := by
  unfold createTag
  split
  · exact atomic_ok
  · exact atomic_inserted

theorem atomic_withTag {meetingId tagId : String} {f : Tables → Except StorageError Unit × Tables}
    (hf : Atomic t (f t)) : Atomic t (withTag meetingId tagId f t) := by
  unfold withTag
  split
  · split
    · exact hf
    · exact atomic_error
  · exact atomic_error

theorem atomic_listTagsForMeeting (meetingId : String) :
    Atomic t (listTagsForMeeting sql meetingId t) := by
  unfold listTagsForMeeting
  split
  · exact atomic_ok
  · exact atomic_error

theorem atomic_assignMeeting (meetingId : String) (spaceId projectId : Option String) :
    Atomic t (assignMeeting meetingId spaceId projectId t) := by
  unfold assignMeeting
  split
  · split
    · exact atomic_inserted
    · exact atomic_error
  · exact atomic_error

theorem atomic_call (op : Op) : Atomic t (call sql ambient op t) := by
  cases op with
  | createMeeting d => exact atomic_replyWith (atomic_createMeeting d)
  | createMeetingWithNote m n endedAt durationMs =>
    exact atomic_replyWith (atomic_createMeetingWithNote m n endedAt durationMs)
  | getMeeting id => exact atomic_replyWith (atomic_getMeeting id)
  | updateMeetingEnded | renameMeeting => exact atomic_replyWith atomic_changeMeeting
  | createNote d => exact atomic_replyWith (atomic_createNote d)
  | replaceMeetingNote meetingId draft =>
    exact atomic_replyWith (atomic_replaceMeetingNote meetingId draft)
  | createSpace name => exact atomic_replyWith atomic_inserted
  | createProject spaceId name => exact atomic_replyWith (atomic_createProject spaceId name)
  | createTag name => exact atomic_replyWith (atomic_createTag name)
  | tagMeeting => exact atomic_replyWith (atomic_withTag atomic_inserted)
  | untagMeeting => exact atomic_replyWith (atomic_withTag atomic_ok)
  | listTagsForMeeting meetingId => exact atomic_replyWith (atomic_listTagsForMeeting meetingId)
  | assignMeeting meetingId spaceId projectId =>
    exact atomic_replyWith (atomic_assignMeeting meetingId spaceId projectId)
  | deleteMeeting | renameSpace | deleteSpace | renameProject | deleteProject | deleteTag =>
    exact atomic_replyWith atomic_changeRow
  | listProjects spaceId => cases spaceId <;> exact atomic_ok
  | listMeetings | listMeetingsFiltered | listNotesForMeeting | listSpaces | listTags =>
    exact atomic_ok

/-- A replacement that succeeds leaves one note of the meeting, and the notes of
the others. -/
theorem replaceMeetingNote_ok {meetingId : String} {draft : NoteDraft} {n : Note}
    (h : (replaceMeetingNote ambient meetingId draft t).1 = .ok n) :
    draft.meetingId = meetingId ∧
      (replaceMeetingNote ambient meetingId draft t).2 =
        { t with
          note := t.note.filter (·.meetingId != meetingId) ++ [draft.toNote ambient.now] } := by
  unfold replaceMeetingNote at h ⊢
  split at h
  · cases h
  · next hids =>
    refine ⟨Decidable.not_not.mp hids, ?_⟩
    rw [if_neg hids]
    split at h
    · next hmeeting =>
      rw [if_pos hmeeting]
      simp only at h ⊢
      split at h
      · cases h
      · next hfree => rw [if_neg hfree]
    · cases h

end Registry

namespace RusqliteStorage

variable {sql : Sqlite}

/-- The call did all it was to do, and then its reading of the changed meeting
failed. -/
structure ReadBackFailed (sql : Sqlite) (t : Tables) (c : Call) : Prop where
  readsBack : c.op.readsBack = true
  faults : c.faults ≠ []
  error : ∃ message, (step sql t c).1 = .error (.sql message)
  succeeds : ∃ r, (step sql t { c with faults := [] }).1 = .ok r
  tables : (step sql t c).2 = (step sql t { c with faults := [] }).2

theorem step_error (t : Tables) (c : Call) {e : StorageError} (he : (step sql t c).1 = .error e) :
    (step sql t c).2 = t ∨ ReadBackFailed sql t c := by
  have hclean : step sql t { c with faults := [] } = Registry.call sql c.ambient c.op t :=
    step_of_no_faults t rfl
  rcases @step_cases sql t c with hstep | ⟨_, hsame⟩ | ⟨hback, hmessage, htables⟩
  · rw [hstep] at he ⊢
    exact Or.inl (Registry.atomic_call c.op e he)
  · exact Or.inl hsame
  · by_cases hfaults : c.faults = []
    · rw [step_of_no_faults t hfaults] at he ⊢
      exact Or.inl (Registry.atomic_call c.op e he)
    · cases hmeant : (Registry.call sql c.ambient c.op t).1 with
      | error e' =>
        rw [htables]
        exact Or.inl (Registry.atomic_call c.op e' hmeant)
      | ok r =>
        refine Or.inr ⟨hback, hfaults, hmessage, ⟨r, ?_⟩, ?_⟩
        · rw [hclean]
          exact hmeant
        · rw [hclean]
          exact htables

theorem step_replaceMeetingNote {t : Tables} {meetingId : String} {draft : NoteDraft}
    {ambient : Ambient} {faults : List (Option String)} {r : Reply}
    (hr : (step sql t ⟨.replaceMeetingNote meetingId draft, ambient, faults⟩).1 = .ok r) :
    draft.meetingId = meetingId ∧
      (step sql t ⟨.replaceMeetingNote meetingId draft, ambient, faults⟩).2 =
        { t with
          note := t.note.filter (·.meetingId != meetingId) ++ [draft.toNote ambient.now] } := by
  rcases @step_cases sql t ⟨.replaceMeetingNote meetingId draft, ambient, faults⟩ with
    hstep | ⟨⟨message, he⟩, _⟩ | ⟨hback, _⟩
  · rw [hstep] at hr ⊢
    cases hmeant : (Registry.replaceMeetingNote ambient meetingId draft t).1 with
    | error e =>
      simp only [Registry.call, Registry.replyWith, hmeant] at hr
      cases hr
    | ok n => exact Registry.replaceMeetingNote_ok hmeant
  · rw [hr] at he
    cases he
  · cases hback

theorem replaceMeetingNote_error {ambient : Ambient} {meetingId : String} {draft : NoteDraft}
    {t : Tables} {faults : List (Option String)} {e : StorageError}
    {session : Lib.Database.Session Tables}
    (h : replaceMeetingNote ambient meetingId draft ⟨t, faults⟩ = (.error e, session)) :
    session.tables = t := by
  obtain ⟨hout, -⟩ := @implements_replaceMeetingNote True ambient meetingId draft t faults
    (Or.inr trivial)
  rw [h] at hout
  rcases hout with ⟨hr, ht⟩ | ⟨-, -, ht⟩
  · exact ht.trans (Registry.atomic_replaceMeetingNote meetingId draft e hr.symm)
  · exact ht

/-- The notes of one meeting. -/
def notesOf (meetingId : String) (t : Tables) : List Note :=
  t.note.filter (·.meetingId == meetingId)

theorem notesOf_replaced {meetingId : String} {n : Note} (hn : n.meetingId = meetingId)
    (t : Tables) :
    notesOf meetingId { t with note := t.note.filter (·.meetingId != meetingId) ++ [n] } = [n] := by
  have hgone : (t.note.filter (·.meetingId != meetingId)).filter (·.meetingId == meetingId) = [] := by
    rw [List.filter_eq_nil_iff]
    intro note hnote
    have hother := (List.mem_filter.mp hnote).2
    simpa using hother
  rw [notesOf, List.filter_append, hgone, List.filter_singleton]
  simp [hn]

theorem notesOf_others_replaced {meetingId other : String} {n : Note}
    (hn : n.meetingId = meetingId) (hother : other ≠ meetingId) (t : Tables) :
    notesOf other { t with note := t.note.filter (·.meetingId != meetingId) ++ [n] } =
      notesOf other t := by
  have hkept : (t.note.filter (·.meetingId != meetingId)).filter (·.meetingId == other) =
      t.note.filter (·.meetingId == other) := by
    rw [List.filter_filter]
    refine List.filter_congr fun note _ => ?_
    by_cases hnote : note.meetingId = other
    · simp [hnote, hother]
    · simp [hnote]
  have hnew : (n.meetingId == other) = false := by
    rw [hn]
    exact beq_false_of_ne hother.symm
  rw [notesOf, List.filter_append, hkept, List.filter_singleton, hnew]
  simp [notesOf]

/-- After any run: a call that fails, at whichever of its statements, leaves the
tables as they were, unless it had changed a meeting and failed in reading it
back; and a note that was replaced is the one note of its meeting. -/
theorem atomic_run (calls : List Call) (c : Call) :
    (∀ e, (step sql (run sql calls) c).1 = .error e →
      (step sql (run sql calls) c).2 = run sql calls ∨ ReadBackFailed sql (run sql calls) c) ∧
    ∀ meetingId draft ambient faults out t',
      step sql (run sql calls) ⟨.replaceMeetingNote meetingId draft, ambient, faults⟩ =
        (.ok out, t') →
      notesOf meetingId t' = [draft.toNote ambient.now] ∧
        ∀ other, other ≠ meetingId → notesOf other t' = notesOf other (run sql calls) := by
  refine ⟨fun e he => step_error _ c he, ?_⟩
  intro meetingId draft ambient faults out t' hstep
  obtain ⟨hdraft, htables⟩ := step_replaceMeetingNote (congrArg Prod.fst hstep)
  rw [hstep] at htables
  subst htables
  exact ⟨notesOf_replaced hdraft _, fun other hother => notesOf_others_replaced hdraft hother _⟩

def weekly : MeetingDraft := ⟨"m", "weekly", "2026-01-01T09:00:00Z", "en", "/data/meetings/m"⟩

def summary : NoteDraft := ⟨"n", "m", "markdown", "# Weekly", "/data/meetings/m/notes.md"⟩

def atNine : Ambient := ⟨"2026-01-01T09:00:00Z", 1, 0⟩

def withWeekly : List Call := [⟨.createMeeting weekly, atNine, []⟩]

/-- A renaming whose second statement, the reading of the meeting, fails. -/
def renameUnread : Call := ⟨.renameMeeting "m" "monthly", atNine, [none, some "disk I/O error"]⟩

/-- The renaming returned an error and the meeting has its new title. -/
theorem not_atomic_renameMeeting : ¬ ∀ (calls : List Call) (c : Call) (e : StorageError),
    (step Sqlite.insertion (run Sqlite.insertion calls) c).1 = .error e →
      (step Sqlite.insertion (run Sqlite.insertion calls) c).2 = run Sqlite.insertion calls := by
  intro h
  have hsame := h withWeekly renameUnread (.sql "disk I/O error") rfl
  have htitle : ["monthly"] = ["weekly"] :=
    congrArg (fun t => t.meeting.map MeetingRow.title) hsame
  simp at htitle

theorem atomic_run_withWeekly :
    ((step Sqlite.insertion (run Sqlite.insertion withWeekly) renameUnread).2 =
        run Sqlite.insertion withWeekly ∨
      ReadBackFailed Sqlite.insertion (run Sqlite.insertion withWeekly) renameUnread) ∧
    notesOf "m" (step Sqlite.insertion (run Sqlite.insertion withWeekly)
      ⟨.replaceMeetingNote "m" summary, atNine, []⟩).2 = [summary.toNote "2026-01-01T09:00:00Z"] :=
  ⟨(atomic_run withWeekly renameUnread).1 _ rfl,
    ((atomic_run withWeekly renameUnread).2 "m" summary atNine [] _ _ rfl).1⟩

end RusqliteStorage
end Storage
end Panops
