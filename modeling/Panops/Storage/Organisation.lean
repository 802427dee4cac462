import Panops.Storage.Statements

/-!
# Organisation

Every reference between rows holds, and a meeting in a project is in the space
of that project.  No constraint of the schema says the second: it holds because
`assign_meeting` takes the space from the project, projects never change their
space, and the foreign-key actions clear a meeting's project together with the
project and its space together with the space.
-/

namespace Panops
namespace Storage

structure Organised (t : Tables) : Prop where
  meetingProject : ∀ row ∈ t.meeting, ∀ id, row.projectId = some id →
    ∃ p ∈ t.project, p.id = id ∧ row.spaceId = some p.spaceId
  meetingSpace : ∀ row ∈ t.meeting, ∀ id, row.spaceId = some id → t.hasSpace id = true
  projectSpace : ∀ p ∈ t.project, t.hasSpace p.spaceId = true
  noteMeeting : ∀ n ∈ t.note, t.hasMeeting n.meetingId = true
  pairMeeting : ∀ pair ∈ t.meetingTag, t.hasMeeting pair.1 = true
  pairTag : ∀ pair ∈ t.meetingTag, t.hasTag pair.2 = true

namespace Tables

variable {t : Tables}

theorem organised_empty : Organised Tables.empty where
  meetingProject := fun _ hrow => absurd hrow List.not_mem_nil
  meetingSpace := fun _ hrow => absurd hrow List.not_mem_nil
  projectSpace := fun _ hp => absurd hp List.not_mem_nil
  noteMeeting := fun _ hn => absurd hn List.not_mem_nil
  pairMeeting := fun _ hpair => absurd hpair List.not_mem_nil
  pairTag := fun _ hpair => absurd hpair List.not_mem_nil

/-! ## Meetings -/

theorem organised_appendMeeting (h : Organised t) {row : MeetingRow} (hspace : row.spaceId = none)
    (hproject : row.projectId = none) : Organised { t with meeting := t.meeting ++ [row] } := by
  have hkeep : ∀ id, t.hasMeeting id = true →
      Tables.hasMeeting { t with meeting := t.meeting ++ [row] } id = true := by
    intro id hid
    simp only [hasMeeting, List.any_append, Bool.or_eq_true]
    exact Or.inl hid
  refine ⟨?_, ?_, h.projectSpace, fun n hn => hkeep _ (h.noteMeeting n hn),
    fun pair hpair => hkeep _ (h.pairMeeting pair hpair), h.pairTag⟩
  · intro r hr id hid
    rcases List.mem_append.mp hr with hr | hr
    · exact h.meetingProject r hr id hid
    · rw [List.mem_singleton.mp hr, hproject] at hid
      cases hid
  · intro r hr id hid
    rcases List.mem_append.mp hr with hr | hr
    · exact h.meetingSpace r hr id hid
    · rw [List.mem_singleton.mp hr, hspace] at hid
      cases hid

/-- A change of the meetings, row by row, that keeps the ids. -/
theorem organised_mapMeeting (h : Organised t) {f : MeetingRow → MeetingRow}
    (hid : ∀ row, (f row).id = row.id)
    (hproject : ∀ row ∈ t.meeting, ∀ id, (f row).projectId = some id →
      ∃ p ∈ t.project, p.id = id ∧ (f row).spaceId = some p.spaceId)
    (hspace : ∀ row ∈ t.meeting, ∀ id, (f row).spaceId = some id → t.hasSpace id = true) :
    Organised { t with meeting := t.meeting.map f } := by
  have hsame : ∀ id, Tables.hasMeeting { t with meeting := t.meeting.map f } id =
      t.hasMeeting id := by
    intro id
    simp only [hasMeeting, List.any_map, Function.comp_def, hid]
  refine ⟨?_, ?_, h.projectSpace, fun n hn => (hsame _).trans (h.noteMeeting n hn),
    fun pair hpair => (hsame _).trans (h.pairMeeting pair hpair), h.pairTag⟩
  · intro r hr id hid
    obtain ⟨row, hrow, rfl⟩ := List.mem_map.mp hr
    exact hproject row hrow id hid
  · intro r hr id hid
    obtain ⟨row, hrow, rfl⟩ := List.mem_map.mp hr
    exact hspace row hrow id hid

theorem organised_updateMeeting (h : Organised t) {id : String} {f : MeetingRow → MeetingRow}
    (hid : ∀ row, (f row).id = row.id) (hspace : ∀ row, (f row).spaceId = row.spaceId)
    (hproject : ∀ row, (f row).projectId = row.projectId) :
    Organised (t.updateMeeting id f).2 := by
  refine organised_mapMeeting h (fun row => ?_) (fun row hrow p hp => ?_) fun row hrow s hs => ?_
  · split
    · exact hid row
    · rfl
  · have hsame : (if row.id = id then f row else row).projectId = row.projectId ∧
        (if row.id = id then f row else row).spaceId = row.spaceId := by
      split
      · exact ⟨hproject row, hspace row⟩
      · exact ⟨rfl, rfl⟩
    rw [hsame.1] at hp
    rw [hsame.2]
    exact h.meetingProject row hrow p hp
  · have hsame : (if row.id = id then f row else row).spaceId = row.spaceId := by
      split
      · exact hspace row
      · rfl
    rw [hsame] at hs
    exact h.meetingSpace row hrow s hs

/-- The space of an assignment is the space of its project. -/
theorem organised_updateAssignment (h : Organised t) {id : String}
    {spaceId projectId : Option String} {t' : Tables}
    (htarget : ∀ p, projectId = some p → ∃ proj ∈ t.project, proj.id = p ∧ spaceId = some proj.spaceId)
    (ht' : t.updateAssignment id spaceId projectId = .ok ((), t')) : Organised t' := by
  unfold updateAssignment at ht'
  split at ht'
  · cases ht'
  · next hrefs =>
    cases ht'
    refine organised_mapMeeting h (fun row => ?_) (fun row hrow p hp => ?_) fun row hrow s hs => ?_
    · split <;> rfl
    · split at hp
      · next hrow' =>
        rw [if_pos hrow']
        exact htarget p hp
      · next hrow' =>
        rw [if_neg hrow']
        exact h.meetingProject row hrow p hp
    · split at hs
      · next hrow' =>
        have hmeeting : t.hasMeeting id = true := hasMeeting_iff.mpr ⟨row, hrow, hrow'⟩
        have hall : spaceId.all t.hasSpace = true := by
          rw [hmeeting] at hrefs
          simp only [Bool.true_and, Bool.not_eq_true, Bool.not_eq_false', Bool.and_eq_true] at hrefs
          exact hrefs.1
        have hs' : spaceId = some s := hs
        rw [hs'] at hall
        exact hall
      · exact h.meetingSpace row hrow s hs

theorem hasMeeting_deleteMeeting {id other : String} (hother : other ≠ id)
    (h : t.hasMeeting other = true) : (t.deleteMeeting id).2.hasMeeting other = true := by
  obtain ⟨row, hrow, hid⟩ := hasMeeting_iff.mp h
  refine hasMeeting_iff.mpr ⟨row, List.mem_filter.mpr ⟨hrow, ?_⟩, hid⟩
  simpa [hid] using hother

theorem organised_deleteMeeting (h : Organised t) (id : String) :
    Organised (t.deleteMeeting id).2 := by
  have hkept : ∀ m, t.hasMeeting m = true → (!(t.hasMeeting id && m == id)) = true →
      (t.deleteMeeting id).2.hasMeeting m = true := by
    intro m hm hgone
    refine hasMeeting_deleteMeeting (fun hmid => ?_) hm
    rw [hmid] at hm hgone
    simp [hm] at hgone
  refine ⟨fun row hrow => h.meetingProject row (List.mem_filter.mp hrow).1,
    fun row hrow => h.meetingSpace row (List.mem_filter.mp hrow).1, h.projectSpace,
    fun n hn => ?_, fun pair hpair => ?_, fun pair hpair => h.pairTag pair (List.mem_filter.mp hpair).1⟩
  · obtain ⟨hn, hgone⟩ := List.mem_filter.mp hn
    exact hkept _ (h.noteMeeting n hn) hgone
  · obtain ⟨hpair, hgone⟩ := List.mem_filter.mp hpair
    exact hkept _ (h.pairMeeting pair hpair) hgone

/-! ## Notes -/

theorem organised_setNotes (h : Organised t) {notes : List Note}
    (hnotes : ∀ n ∈ notes, t.hasMeeting n.meetingId = true) :
    Organised { t with note := notes } :=
  ⟨h.meetingProject, h.meetingSpace, h.projectSpace, hnotes, h.pairMeeting, h.pairTag⟩

/-! ## Spaces -/

theorem organised_insertSpace (h : Organised t) {s : Space} {t' : Tables}
    (ht' : t.insertSpace s = .ok ((), t')) : Organised t' := by
  unfold insertSpace at ht'
  split at ht'
  · cases ht'
  · cases ht'
    have hkeep : ∀ id, t.hasSpace id = true →
        Tables.hasSpace { t with space := t.space ++ [s] } id = true := by
      intro id hid
      simp only [hasSpace, List.any_append, Bool.or_eq_true]
      exact Or.inl hid
    exact ⟨h.meetingProject, fun row hrow id hid => hkeep id (h.meetingSpace row hrow id hid),
      fun p hp => hkeep _ (h.projectSpace p hp), h.noteMeeting, h.pairMeeting, h.pairTag⟩

theorem organised_updateSpaceName (h : Organised t) (id name : String) :
    Organised (t.updateSpaceName id name).2 := by
  have hsame : ∀ s, (t.updateSpaceName id name).2.hasSpace s = t.hasSpace s := by
    intro s
    simp only [updateSpaceName, hasSpace, List.any_map, Function.comp_def]
    congr 1
    funext row
    split <;> rfl
  exact ⟨h.meetingProject, fun row hrow s hs => (hsame s).trans (h.meetingSpace row hrow s hs),
    fun p hp => (hsame _).trans (h.projectSpace p hp), h.noteMeeting, h.pairMeeting, h.pairTag⟩

/-- A meeting row without its space and project. -/
def unsorted (row : MeetingRow) : MeetingRow := { row with spaceId := none, projectId := none }

theorem mem_clearProjects {gone : Project → Bool} {row : MeetingRow}
    (hrow : row ∈ t.clearProjects gone) : ∃ old ∈ t.meeting,
      unsorted row = unsorted old ∧ row.spaceId = old.spaceId ∧
        ∀ id, row.projectId = some id → old.projectId = some id ∧
          ∀ p ∈ t.project, p.id = id → gone p = false := by
  obtain ⟨old, hold, hrow⟩ := List.mem_map.mp hrow
  refine ⟨old, hold, ?_⟩
  split at hrow
  · subst hrow
    exact ⟨rfl, rfl, fun id hid => by cases hid⟩
  · next hnone =>
    subst hrow
    refine ⟨rfl, rfl, fun id hid => ⟨hid, fun p hp hpid => ?_⟩⟩
    cases hgone : gone p with
    | false => rfl
    | true =>
      refine absurd (List.any_eq_true.mpr ⟨p, hp, ?_⟩) hnone
      rw [hgone, hid, hpid]
      simp

theorem hasSpace_deleteSpace {id other : String} (hother : other ≠ id)
    (h : t.hasSpace other = true) : (t.deleteSpace id).2.hasSpace other = true := by
  obtain ⟨s, hs, hid⟩ := hasSpace_iff.mp h
  refine hasSpace_iff.mpr ⟨s, List.mem_filter.mpr ⟨hs, ?_⟩, hid⟩
  simpa [hid] using hother

/-- A meeting that a deleted space leaves, with what it still refers to. -/
theorem mem_meeting_deleteSpace {id : String} {row : MeetingRow}
    (hrow : row ∈ (t.deleteSpace id).2.meeting) : ∃ old ∈ t.meeting,
      (∀ s, row.spaceId = some s → old.spaceId = some s ∧ (t.hasSpace id && s == id) = false) ∧
      ∀ p, row.projectId = some p → old.projectId = some p ∧
        (∀ proj ∈ t.project, proj.id = p → (t.hasSpace id && proj.spaceId == id) = false) ∧
        ((∀ s, old.spaceId = some s → (t.hasSpace id && s == id) = false) →
          row.spaceId = old.spaceId) := by
  obtain ⟨middle, hmiddle, hrow⟩ := List.mem_map.mp hrow
  obtain ⟨old, hold, _, hspace, hproject⟩ := mem_clearProjects hmiddle
  refine ⟨old, hold, ?_⟩
  split at hrow
  · next hgone =>
    subst hrow
    refine ⟨fun s hs => (Option.some_ne_none s hs.symm).elim, fun p hp => ?_⟩
    obtain ⟨hp, hkept⟩ := hproject p hp
    refine ⟨hp, hkept, fun hstays => ?_⟩
    cases hs : middle.spaceId with
    | none => rw [hs] at hgone; cases hgone
    | some s =>
      have hgoing : (t.hasSpace id && s == id) = true := by
        rw [hs] at hgone
        exact hgone
      rw [hstays s (hspace ▸ hs)] at hgoing
      cases hgoing
  · next hgone =>
    subst hrow
    refine ⟨fun s hs => ⟨hspace ▸ hs, ?_⟩, fun p hp => ?_⟩
    · rw [hs] at hgone
      simpa using hgone
    · obtain ⟨hp, hkept⟩ := hproject p hp
      exact ⟨hp, hkept, fun _ => hspace⟩

theorem organised_deleteSpace (h : Organised t) (id : String) :
    Organised (t.deleteSpace id).2 := by
  have hkept : ∀ s, t.hasSpace s = true → (t.hasSpace id && s == id) = false →
      (t.deleteSpace id).2.hasSpace s = true := by
    intro s hs hgone
    refine hasSpace_deleteSpace (fun hsid => ?_) hs
    rw [hsid] at hs hgone
    simp [hs] at hgone
  have hsame : ∀ m, (t.deleteSpace id).2.hasMeeting m = t.hasMeeting m := by
    intro m
    simp only [deleteSpace, clearProjects, hasMeeting, List.any_map, Function.comp_def]
    congr 1
    funext row
    split <;> split <;> rfl
  refine ⟨fun row hrow p hp => ?_, fun row hrow s hs => ?_, fun p hp => ?_,
    fun n hn => (hsame _).trans (h.noteMeeting n hn),
    fun pair hpair => (hsame _).trans (h.pairMeeting pair hpair), h.pairTag⟩
  · obtain ⟨old, hold, _, hproject⟩ := mem_meeting_deleteSpace hrow
    obtain ⟨hp, hstays, hspace⟩ := hproject p hp
    obtain ⟨proj, hproj, hid, hplace⟩ := h.meetingProject old hold p hp
    have hgone := hstays proj hproj hid
    refine ⟨proj, List.mem_filter.mpr ⟨hproj, ?_⟩, hid, ?_⟩
    · simp only [hgone, Bool.not_false]
    · rw [hspace fun s hs => ?_, hplace]
      rw [hplace] at hs
      cases hs
      exact hgone
  · obtain ⟨old, hold, hspace, _⟩ := mem_meeting_deleteSpace hrow
    obtain ⟨hs, hgone⟩ := hspace s hs
    exact hkept s (h.meetingSpace old hold s hs) hgone
  · obtain ⟨hp, hgone⟩ := List.mem_filter.mp hp
    exact hkept _ (h.projectSpace p hp) ((Bool.not_eq_true' _).mp hgone)

/-! ## Projects -/

theorem organised_insertProject (h : Organised t) {p : Project} {t' : Tables}
    (ht' : t.insertProject p = .ok ((), t')) : Organised t' := by
  unfold insertProject at ht'
  split at ht'
  · cases ht'
  · split at ht'
    · cases ht'
    · next hspace =>
      cases ht'
      refine ⟨fun row hrow id hid => ?_, h.meetingSpace, fun q hq => ?_, h.noteMeeting,
        h.pairMeeting, h.pairTag⟩
      · obtain ⟨proj, hproj, hplace⟩ := h.meetingProject row hrow id hid
        exact ⟨proj, List.mem_append_left _ hproj, hplace⟩
      · rcases List.mem_append.mp hq with hq | hq
        · exact h.projectSpace q hq
        · have hhere : t.hasSpace p.spaceId = true := by simpa using hspace
          rw [List.mem_singleton.mp hq]
          exact hhere

theorem organised_updateProjectName (h : Organised t) (id name : String) :
    Organised (t.updateProjectName id name).2 := by
  have hkeep : ∀ p : Project, (if p.id = id then { p with name := name } else p).id = p.id ∧
      (if p.id = id then { p with name := name } else p).spaceId = p.spaceId := by
    intro p
    split <;> exact ⟨rfl, rfl⟩
  refine ⟨fun row hrow q hq => ?_, h.meetingSpace, fun p hp => ?_, h.noteMeeting, h.pairMeeting,
    h.pairTag⟩
  · obtain ⟨proj, hproj, hid, hplace⟩ := h.meetingProject row hrow q hq
    refine ⟨_, List.mem_map_of_mem hproj, (hkeep proj).1.trans hid, ?_⟩
    rw [(hkeep proj).2]
    exact hplace
  · obtain ⟨old, hold, rfl⟩ := List.mem_map.mp hp
    rw [(hkeep old).2]
    exact h.projectSpace old hold

theorem organised_deleteProject (h : Organised t) (id : String) :
    Organised (t.deleteProject id).2 := by
  have hsame : ∀ m, (t.deleteProject id).2.hasMeeting m = t.hasMeeting m := by
    intro m
    simp only [deleteProject, clearProjects, hasMeeting, List.any_map, Function.comp_def]
    congr 1
    funext row
    split <;> rfl
  refine ⟨fun row hrow p hp => ?_, fun row hrow s hs => ?_,
    fun p hp => h.projectSpace p (List.mem_filter.mp hp).1,
    fun n hn => (hsame _).trans (h.noteMeeting n hn),
    fun pair hpair => (hsame _).trans (h.pairMeeting pair hpair), h.pairTag⟩
  · obtain ⟨old, hold, _, hspace, hproject⟩ := mem_clearProjects hrow
    obtain ⟨hp, hkept⟩ := hproject p hp
    obtain ⟨proj, hproj, hid, hplace⟩ := h.meetingProject old hold p hp
    refine ⟨proj, List.mem_filter.mpr ⟨hproj, ?_⟩, hid, hspace.trans hplace⟩
    have hgone : (proj.id == id) = false := hkept proj hproj hid
    rw [bne, hgone]
    rfl
  · obtain ⟨old, hold, _, hspace, _⟩ := mem_clearProjects hrow
    exact h.meetingSpace old hold s (hspace ▸ hs)

/-! ## Tags -/

theorem organised_insertTag (h : Organised t) {tag : Tag} {t' : Tables}
    (ht' : t.insertTag tag = .ok ((), t')) : Organised t' := by
  unfold insertTag at ht'
  split at ht'
  · cases ht'
  · split at ht'
    · cases ht'
    · cases ht'
      refine ⟨h.meetingProject, h.meetingSpace, h.projectSpace, h.noteMeeting, h.pairMeeting,
        fun pair hpair => ?_⟩
      simp only [hasTag, List.any_append, Bool.or_eq_true]
      exact Or.inl (h.pairTag pair hpair)

theorem organised_deleteTag (h : Organised t) (id : String) : Organised (t.deleteTag id).2 := by
  refine ⟨h.meetingProject, h.meetingSpace, h.projectSpace, h.noteMeeting,
    fun pair hpair => h.pairMeeting pair (List.mem_filter.mp hpair).1, fun pair hpair => ?_⟩
  obtain ⟨hpair, hgone⟩ := List.mem_filter.mp hpair
  have hhere := h.pairTag pair hpair
  obtain ⟨tag, htag, hid⟩ := hasTag_iff.mp hhere
  refine hasTag_iff.mpr ⟨tag, List.mem_filter.mpr ⟨htag, ?_⟩, hid⟩
  rw [bne, Bool.not_eq_true', beq_eq_false_iff_ne, hid]
  intro hpid
  rw [hpid] at hhere hgone
  simp [hhere] at hgone

theorem organised_insertMeetingTag (h : Organised t) {meetingId tagId : String} {t' : Tables}
    (ht' : t.insertMeetingTag meetingId tagId = .ok ((), t')) : Organised t' := by
  unfold insertMeetingTag at ht'
  split at ht'
  · cases ht'
    exact h
  · split at ht'
    · cases ht'
    · next hrefs =>
      cases ht'
      have hboth : t.hasMeeting meetingId = true ∧ t.hasTag tagId = true := by simpa using hrefs
      refine ⟨h.meetingProject, h.meetingSpace, h.projectSpace, h.noteMeeting,
        fun pair hpair => ?_, fun pair hpair => ?_⟩
      · rcases List.mem_append.mp hpair with hpair | hpair
        · exact h.pairMeeting pair hpair
        · rw [List.mem_singleton.mp hpair]
          exact hboth.1
      · rcases List.mem_append.mp hpair with hpair | hpair
        · exact h.pairTag pair hpair
        · rw [List.mem_singleton.mp hpair]
          exact hboth.2

theorem organised_deleteMeetingTag (h : Organised t) (meetingId tagId : String) :
    Organised (t.deleteMeetingTag meetingId tagId) :=
  ⟨h.meetingProject, h.meetingSpace, h.projectSpace, h.noteMeeting,
    fun pair hpair => h.pairMeeting pair (List.mem_filter.mp hpair).1,
    fun pair hpair => h.pairTag pair (List.mem_filter.mp hpair).1⟩

end Tables

namespace Registry

variable {sql : Sqlite} {ambient : Ambient} {t : Tables}

/-! ## Operations -/

/-- An insert that is passed on keeps what every table it can leave has. -/
theorem inserted_keeps {α : Type} {value : α} {P : Tables → Prop} (h : P t)
    {result : Except SqliteError (Unit × Tables)} (hok : ∀ t', result = .ok ((), t') → P t') :
    P (inserted value t result).2 := by
  cases result with
  | error e => exact h
  | ok out => exact hok out.2 rfl

theorem changeRow_keeps {kind id : String} {exists_ : Tables → Bool} {f : Tables → Tables}
    {P : Tables → Prop} (h : P t) (hf : P (f t)) : P (changeRow kind exists_ id f t).2 := by
  unfold changeRow
  split
  · exact hf
  · exact h

theorem changeMeeting_keeps {id : String} {f : MeetingRow → MeetingRow} {P : Tables → Prop}
    (h : P t) (hf : P (t.updateMeeting id f).2) : P (changeMeeting id f t).2 := by
  unfold changeMeeting
  split
  · exact hf
  · exact h

theorem organised_createMeeting (h : Organised t) (d : MeetingDraft) :
    Organised (createMeeting sql d t).2 := by
  unfold createMeeting
  split
  · exact h
  · exact Tables.organised_appendMeeting h rfl rfl

theorem organised_createMeetingWithNote (h : Organised t) (meeting : MeetingDraft)
    (note : NoteDraft) (endedAt : Option String) (durationMs : Option Nat) :
    Organised (createMeetingWithNote sql ambient meeting note endedAt durationMs t).2 := by
  unfold createMeetingWithNote
  split
  · exact h
  · next hids =>
    split
    · exact h
    · split
      · exact h
      · have hrow : Organised
            { t with meeting := t.meeting ++ [meeting.row endedAt (durationMs.map asI64)] } :=
          Tables.organised_appendMeeting h rfl rfl
        refine Tables.organised_setNotes hrow fun n hn => ?_
        rcases List.mem_append.mp hn with hn | hn
        · exact hrow.noteMeeting n hn
        · rw [List.mem_singleton.mp hn]
          refine Tables.hasMeeting_iff.mpr
            ⟨_, List.mem_append_right _ (List.mem_singleton_self _), ?_⟩
          exact (Decidable.not_not.mp hids).symm

theorem organised_createNote (h : Organised t) (d : NoteDraft) :
    Organised (createNote ambient d t).2 := by
  unfold createNote
  split
  · next hmeeting =>
    split
    · exact h
    · refine Tables.organised_setNotes h fun n hn => ?_
      rcases List.mem_append.mp hn with hn | hn
      · exact h.noteMeeting n hn
      · rw [List.mem_singleton.mp hn]
        exact hmeeting
  · exact h

theorem organised_replaceMeetingNote (h : Organised t) (meetingId : String) (draft : NoteDraft) :
    Organised (replaceMeetingNote ambient meetingId draft t).2 := by
  unfold replaceMeetingNote
  split
  · exact h
  · next hids =>
    split
    · next hmeeting =>
      simp only
      split
      · exact h
      · refine Tables.organised_setNotes h fun n hn => ?_
        rcases List.mem_append.mp hn with hn | hn
        · exact h.noteMeeting n (List.mem_filter.mp hn).1
        · rw [List.mem_singleton.mp hn]
          show t.hasMeeting draft.meetingId = true
          rw [Decidable.not_not.mp hids]
          exact hmeeting
    · exact h

theorem organised_createSpace (h : Organised t) (name : String) :
    Organised (createSpace ambient name t).2 :=
  inserted_keeps h fun _ => Tables.organised_insertSpace h

theorem organised_createProject (h : Organised t) (spaceId name : String) :
    Organised (createProject ambient spaceId name t).2 := by
  unfold createProject
  split
  · exact inserted_keeps h fun _ => Tables.organised_insertProject h
  · exact h

theorem organised_createTag (h : Organised t) (name : String) :
    Organised (createTag ambient name t).2 := by
  unfold createTag
  split
  · exact h
  · exact inserted_keeps h fun _ => Tables.organised_insertTag h

theorem organised_tagMeeting (h : Organised t) (meetingId tagId : String) :
    Organised (tagMeeting meetingId tagId t).2 := by
  unfold tagMeeting withTag
  split
  · split
    · exact inserted_keeps h fun _ => Tables.organised_insertMeetingTag h
    · exact h
  · exact h

theorem organised_untagMeeting (h : Organised t) (meetingId tagId : String) :
    Organised (untagMeeting meetingId tagId t).2 := by
  unfold untagMeeting withTag
  split
  · split
    · exact Tables.organised_deleteMeetingTag h meetingId tagId
    · exact h
  · exact h

/-- An assignment with a project has that project's space. -/
theorem resolveAssignment_project {spaceId projectId : Option String}
    {target : Option String × Option String}
    (htarget : resolveAssignment spaceId projectId t = .ok target) :
    ∀ p, target.2 = some p → ∃ proj ∈ t.project, proj.id = p ∧ target.1 = some proj.spaceId := by
  intro p hp
  cases projectId with
  | none =>
    unfold resolveAssignment at htarget
    cases spaceId with
    | none =>
      cases htarget
      cases hp
    | some spaceId =>
      simp only at htarget
      split at htarget
      · cases htarget
        cases hp
      · cases htarget
  | some projectId =>
    unfold resolveAssignment at htarget
    simp only at htarget
    cases hspace : t.selectProjectSpace projectId with
    | none =>
      rw [hspace] at htarget
      cases htarget
    | some projectSpaceId =>
      rw [hspace] at htarget
      cases htarget
      cases hp
      obtain ⟨proj, hfind, rfl⟩ := Option.map_eq_some_iff.mp hspace
      have hid := List.find?_some hfind
      exact ⟨proj, List.mem_of_find?_eq_some hfind, by simpa using hid, rfl⟩

theorem organised_assignMeeting (h : Organised t) (meetingId : String)
    (spaceId projectId : Option String) :
    Organised (assignMeeting meetingId spaceId projectId t).2 := by
  unfold assignMeeting
  split
  · cases htarget : resolveAssignment spaceId projectId t with
    | error e => exact h
    | ok target =>
      exact inserted_keeps h fun _ =>
        Tables.organised_updateAssignment h (resolveAssignment_project htarget)
  · exact h

/-- One operation, whatever it returns. -/
theorem organised_call (h : Organised t) (op : Op) :
    Organised (call sql ambient op t).2 := by
  cases op with
  | createMeeting d => exact organised_createMeeting h d
  | createMeetingWithNote m n endedAt durationMs =>
    exact organised_createMeetingWithNote h m n endedAt durationMs
  | getMeeting id =>
    show Organised (getMeeting id t).2
    unfold getMeeting
    split <;> exact h
  | updateMeetingEnded id endedAt durationMs =>
    exact changeMeeting_keeps h
      (Tables.organised_updateMeeting h (fun _ => rfl) (fun _ => rfl) fun _ => rfl)
  | renameMeeting id title =>
    exact changeMeeting_keeps h
      (Tables.organised_updateMeeting h (fun _ => rfl) (fun _ => rfl) fun _ => rfl)
  | deleteMeeting id => exact changeRow_keeps h (Tables.organised_deleteMeeting h id)
  | createNote d => exact organised_createNote h d
  | replaceMeetingNote meetingId draft => exact organised_replaceMeetingNote h meetingId draft
  | createSpace name => exact organised_createSpace h name
  | renameSpace id name => exact changeRow_keeps h (Tables.organised_updateSpaceName h id name)
  | deleteSpace id => exact changeRow_keeps h (Tables.organised_deleteSpace h id)
  | createProject spaceId name => exact organised_createProject h spaceId name
  | listProjects spaceId => cases spaceId <;> exact h
  | renameProject id name => exact changeRow_keeps h (Tables.organised_updateProjectName h id name)
  | deleteProject id => exact changeRow_keeps h (Tables.organised_deleteProject h id)
  | createTag name => exact organised_createTag h name
  | deleteTag id => exact changeRow_keeps h (Tables.organised_deleteTag h id)
  | tagMeeting meetingId tagId => exact organised_tagMeeting h meetingId tagId
  | untagMeeting meetingId tagId => exact organised_untagMeeting h meetingId tagId
  | listTagsForMeeting meetingId =>
    show Organised (listTagsForMeeting sql meetingId t).2
    unfold listTagsForMeeting
    split <;> exact h
  | assignMeeting meetingId spaceId projectId =>
    exact organised_assignMeeting h meetingId spaceId projectId
  | listMeetings | listMeetingsFiltered | listNotesForMeeting | listSpaces | listTags => exact h

end Registry

namespace Tables

variable {t : Tables}

/-! ## Deletions of places -/

theorem unsorted_clearProjects (gone : Project → Bool) :
    (t.clearProjects gone).map unsorted = t.meeting.map unsorted := by
  rw [clearProjects, List.map_map]
  refine List.map_congr_left fun row _ => ?_
  simp only [Function.comp_apply]
  split <;> rfl

theorem unsorted_deleteProject (id : String) :
    (t.deleteProject id).2.meeting.map unsorted = t.meeting.map unsorted :=
  unsorted_clearProjects _

theorem unsorted_deleteSpace (id : String) :
    (t.deleteSpace id).2.meeting.map unsorted = t.meeting.map unsorted := by
  have hspaces : ∀ rows : List MeetingRow, (rows.map fun row =>
      if row.spaceId.any fun spaceId => t.hasSpace id && spaceId == id then
        { row with spaceId := none }
      else row).map unsorted = rows.map unsorted := by
    intro rows
    rw [List.map_map]
    refine List.map_congr_left fun row _ => ?_
    simp only [Function.comp_apply]
    split <;> rfl
  exact (hspaces _).trans (unsorted_clearProjects _)

end Tables

namespace RusqliteStorage

variable {sql : Sqlite}

/-- No meeting is removed by the call; it may lose its space and its project. -/
def KeepsMeetings (sql : Sqlite) (t : Tables) (c : Call) : Prop :=
  (step sql t c).2.meeting.map Tables.unsorted = t.meeting.map Tables.unsorted

theorem keepsMeetings_of_call {t : Tables} {c : Call}
    (h : (Registry.call sql c.ambient c.op t).2.meeting.map Tables.unsorted =
      t.meeting.map Tables.unsorted) : KeepsMeetings sql t c := by
  unfold KeepsMeetings
  rcases @step_tables sql t c with hstep | hstep
  · rw [hstep]
  · rw [hstep]
    exact h

/-- Over any run, with any ids and with statements that fail anywhere, the
references hold and every meeting in a project is in the project's space; and
whatever deletion of a space, a project or a tag comes next keeps every
meeting. -/
theorem organised_run (calls : List Call) (id : String) (ambient : Ambient)
    (faults : List (Option String)) :
    Organised (run sql calls) ∧
      KeepsMeetings sql (run sql calls) ⟨.deleteSpace id, ambient, faults⟩ ∧
      KeepsMeetings sql (run sql calls) ⟨.deleteProject id, ambient, faults⟩ ∧
      KeepsMeetings sql (run sql calls) ⟨.deleteTag id, ambient, faults⟩ := by
  let keeps : Tables → Prop := fun t =>
    t.meeting.map Tables.unsorted = (run sql calls).meeting.map Tables.unsorted
  refine ⟨run_induction Tables.organised_empty
    (fun _ op _ ht => Registry.organised_call ht op) calls, ?_, ?_, ?_⟩
  · exact keepsMeetings_of_call
      (Registry.changeRow_keeps (P := keeps) rfl (Tables.unsorted_deleteSpace id))
  · exact keepsMeetings_of_call
      (Registry.changeRow_keeps (P := keeps) rfl (Tables.unsorted_deleteProject id))
  · exact keepsMeetings_of_call (Registry.changeRow_keeps (P := keeps) rfl rfl)

end RusqliteStorage
end Storage
end Panops
