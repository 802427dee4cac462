import Panops.Storage.Simulation.Places

/-!
# Positions

A new space comes after all that there are, and a new project after those of its space.
The positions grow with the order of creation, whatever is renamed or deleted, and what is
left is what the answers to the calls say.
-/

namespace Panops
namespace Storage

/-- What of a space no rename changes. -/
def Space.place (s : Space) : String × Int := (s.id, s.position)

def Project.place (p : Project) : String × String × Int := (p.id, p.spaceId, p.position)

/-- The space that a call created. -/
def createdSpace (op : Op) (reply : Except StorageError Reply) : List Space :=
  match op, reply with
  | .createSpace _, .ok (.space s) => [s]
  | _, _ => []

def createdProject (op : Op) (reply : Except StorageError Reply) : List Project :=
  match op, reply with
  | .createProject _ _, .ok (.project p) => [p]
  | _, _ => []

/-- Spaces and projects, in the order in which they were created. -/
structure Places where
  spaces : List Space
  projects : List Project

def Op.renamesPlace : Op → Bool
  | .renameSpace _ _ => true
  | .renameProject _ _ => true
  | _ => false

namespace Places

def empty : Places := ⟨[], []⟩

/-- What an answer says about them.  A space goes with its projects. -/
def after (left : Places) (op : Op) (reply : Except StorageError Reply) : Places :=
  match op, reply with
  | .createSpace _, .ok (.space s) => { left with spaces := left.spaces ++ [s] }
  | .createProject _ _, .ok (.project p) => { left with projects := left.projects ++ [p] }
  | .renameSpace id name, .ok _ =>
    { left with
      spaces := left.spaces.map fun s => if s.id = id then { s with name := name } else s }
  | .renameProject id name, .ok _ =>
    { left with
      projects := left.projects.map fun p => if p.id = id then { p with name := name } else p }
  | .deleteSpace id, .ok _ =>
    ⟨left.spaces.filter (·.id != id), left.projects.filter (·.spaceId != id)⟩
  | .deleteProject id, .ok _ => { left with projects := left.projects.filter (·.id != id) }
  | _, _ => left

end Places

/-- The rows of the tables. -/
def Tables.places (t : Tables) : Places := ⟨t.space, t.project⟩

/-- The tables after some spaces and projects were created, in that order. -/
structure InOrder (t : Tables) (spaces : List Space) (projects : List Project) : Prop where
  spaceOrder : t.space.Pairwise fun a b => a.position < b.position
  projectOrder : t.project.Pairwise fun a b => a.spaceId = b.spaceId → a.position < b.position
  spacesCreated : (t.space.map Space.place).Sublist (spaces.map Space.place)
  projectsCreated : (t.project.map Project.place).Sublist (projects.map Project.place)

namespace InOrder

variable {t t' : Tables} {spaces : List Space} {projects : List Project}

theorem empty : InOrder Tables.empty [] [] where
  spaceOrder := .nil
  projectOrder := .nil
  spacesCreated := List.Sublist.refl _
  projectsCreated := List.Sublist.refl _

/-- The order says nothing about the other tables. -/
theorem congr (h : InOrder t spaces projects) (hspace : t'.space = t.space)
    (hproject : t'.project = t.project) : InOrder t' spaces projects where
  spaceOrder := hspace ▸ h.spaceOrder
  projectOrder := hproject ▸ h.projectOrder
  spacesCreated := hspace ▸ h.spacesCreated
  projectsCreated := hproject ▸ h.projectsCreated

/-- Some rows go. -/
theorem sublist (h : InOrder t spaces projects) (hspace : t'.space.Sublist t.space)
    (hproject : t'.project.Sublist t.project) : InOrder t' spaces projects where
  spaceOrder := h.spaceOrder.sublist hspace
  projectOrder := h.projectOrder.sublist hproject
  spacesCreated := (hspace.map Space.place).trans h.spacesCreated
  projectsCreated := (hproject.map Project.place).trans h.projectsCreated

/-! ## Inserts -/

theorem lt_nextPosition {positions : List Int} {p : Int} (hp : p ∈ positions) :
    p < RusqliteStorage.nextPosition positions.max? :=
  Simulates.lt_nextPosition hp

theorem insertSpace (h : InOrder t spaces projects) {s : Space}
    (hposition : s.position = RusqliteStorage.nextPosition (t.space.map Space.position).max?)
    (hinsert : t.insertSpace s = .ok ((), t')) : InOrder t' (spaces ++ [s]) projects := by
  unfold Tables.insertSpace at hinsert
  split at hinsert
  · cases hinsert
  · cases hinsert
    refine { h with spaceOrder := ?_, spacesCreated := ?_ }
    · refine List.pairwise_append.mpr ⟨h.spaceOrder, List.pairwise_singleton _ s, ?_⟩
      intro a ha b hb
      rw [List.mem_singleton.mp hb, hposition]
      exact lt_nextPosition (List.mem_map_of_mem ha)
    · rw [List.map_append, List.map_append]
      exact h.spacesCreated.append (List.Sublist.refl _)

theorem insertProject (h : InOrder t spaces projects) {p : Project}
    (hposition : p.position = RusqliteStorage.nextPosition
      ((t.project.filter (·.spaceId == p.spaceId)).map Project.position).max?)
    (hinsert : t.insertProject p = .ok ((), t')) : InOrder t' spaces (projects ++ [p]) := by
  unfold Tables.insertProject at hinsert
  split at hinsert
  · cases hinsert
  · split at hinsert
    · cases hinsert
    · cases hinsert
      refine { h with projectOrder := ?_, projectsCreated := ?_ }
      · refine List.pairwise_append.mpr ⟨h.projectOrder, List.pairwise_singleton _ p, ?_⟩
        intro a ha b hb hsame
        rw [List.mem_singleton.mp hb] at hsame ⊢
        rw [hposition]
        exact lt_nextPosition (List.mem_map_of_mem
          (List.mem_filter.mpr ⟨ha, beq_iff_eq.mpr hsame⟩))
      · rw [List.map_append, List.map_append]
        exact h.projectsCreated.append (List.Sublist.refl _)

/-! ## Renames -/

theorem renameSpace (h : InOrder t spaces projects) (id name : String) :
    InOrder (t.updateSpaceName id name).2 spaces projects := by
  have hposition : ∀ s : Space,
      (if s.id = id then { s with name := name } else s).position = s.position := by
    intro s
    split <;> rfl
  refine { h with spaceOrder := ?_, spacesCreated := ?_ }
  · refine List.pairwise_map.mpr (h.spaceOrder.imp fun {a b} hab => ?_)
    rw [hposition, hposition]
    exact hab
  · have hplace : (t.updateSpaceName id name).2.space.map Space.place =
        t.space.map Space.place := by
      refine (List.map_map ..).trans (List.map_congr_left fun s _ => ?_)
      simp only [Function.comp_apply]
      split <;> rfl
    rw [hplace]
    exact h.spacesCreated

theorem renameProject (h : InOrder t spaces projects) (id name : String) :
    InOrder (t.updateProjectName id name).2 spaces projects := by
  have hkeys : ∀ p : Project,
      (if p.id = id then { p with name := name } else p).spaceId = p.spaceId ∧
        (if p.id = id then { p with name := name } else p).position = p.position := by
    intro p
    split <;> exact ⟨rfl, rfl⟩
  refine { h with projectOrder := ?_, projectsCreated := ?_ }
  · refine List.pairwise_map.mpr (h.projectOrder.imp fun {a b} hab => ?_)
    rw [(hkeys a).1, (hkeys b).1, (hkeys a).2, (hkeys b).2]
    exact hab
  · have hplace : (t.updateProjectName id name).2.project.map Project.place =
        t.project.map Project.place := by
      refine (List.map_map ..).trans (List.map_congr_left fun p _ => ?_)
      simp only [Function.comp_apply]
      split <;> rfl
    rw [hplace]
    exact h.projectsCreated

end InOrder

/-! ## Operations -/

namespace Registry

variable {sql : Sqlite} {ambient : Ambient} {t : Tables}

theorem inOrder_createSpace {spaces : List Space} {projects : List Project}
    (h : InOrder t spaces projects) (name : String) :
    InOrder (call sql ambient (.createSpace name) t).2
      (spaces ++ createdSpace (.createSpace name) (call sql ambient (.createSpace name) t).1)
      projects := by
  show InOrder (replyWith .space (createSpace ambient name t)).2
    (spaces ++ createdSpace (.createSpace name) (replyWith .space (createSpace ambient name t)).1)
    projects
  unfold createSpace
  simp only
  generalize hspace : (⟨newId "space" ambient.nanos ambient.counter, name,
    RusqliteStorage.nextPosition (t.space.map Space.position).max?⟩ : Space) = space
  cases hinsert : t.insertSpace space with
  | error e =>
    show InOrder t (spaces ++ []) projects
    rw [List.append_nil]
    exact h
  | ok out => exact h.insertSpace (by rw [← hspace]) hinsert

theorem inOrder_createProject {spaces : List Space} {projects : List Project}
    (h : InOrder t spaces projects) (spaceId name : String) :
    InOrder (call sql ambient (.createProject spaceId name) t).2 spaces
      (projects ++ createdProject (.createProject spaceId name)
        (call sql ambient (.createProject spaceId name) t).1) := by
  have hkeep : InOrder t spaces (projects ++ []) := by
    rw [List.append_nil]
    exact h
  show InOrder (replyWith .project (createProject ambient spaceId name t)).2 spaces
    (projects ++ createdProject (.createProject spaceId name)
      (replyWith .project (createProject ambient spaceId name t)).1)
  unfold createProject
  by_cases hexists : t.hasSpace spaceId = true
  · rw [if_pos hexists]
    simp only
    generalize hproject : (⟨newId "project" ambient.nanos ambient.counter, spaceId, name,
      RusqliteStorage.nextPosition
        ((t.project.filter (·.spaceId == spaceId)).map Project.position).max?⟩ : Project) = project
    cases hinsert : t.insertProject project with
    | error e => exact hkeep
    | ok out => exact h.insertProject (by rw [← hproject]) hinsert
  · rw [if_neg hexists]
    exact hkeep

/-! ## The places after a call -/

theorem places_createSpace (name : String) :
    (call sql ambient (.createSpace name) t).2.places =
      t.places.after (.createSpace name) (call sql ambient (.createSpace name) t).1 := by
  show (replyWith .space (createSpace ambient name t)).2.places =
    t.places.after (.createSpace name) (replyWith .space (createSpace ambient name t)).1
  unfold createSpace Tables.insertSpace
  simp only
  split <;> rfl

theorem places_createProject (spaceId name : String) :
    (call sql ambient (.createProject spaceId name) t).2.places =
      t.places.after (.createProject spaceId name)
        (call sql ambient (.createProject spaceId name) t).1 := by
  show (replyWith .project (createProject ambient spaceId name t)).2.places =
    t.places.after (.createProject spaceId name)
      (replyWith .project (createProject ambient spaceId name t)).1
  unfold createProject
  split
  · unfold Tables.insertProject
    simp only
    split
    · rfl
    · split <;> rfl
  · rfl

/-- The projects of a space go with it. -/
theorem places_deleteSpace (id : String) :
    (call sql ambient (.deleteSpace id) t).2.places =
      t.places.after (.deleteSpace id) (call sql ambient (.deleteSpace id) t).1 := by
  show (replyWith _ (changeRow "space" (·.hasSpace id) id _ t)).2.places =
    t.places.after _ (replyWith _ (changeRow "space" (·.hasSpace id) id _ t)).1
  unfold changeRow
  split
  · next hspace =>
    simp only at hspace
    simp only [replyWith, Tables.places, Tables.deleteSpace, hspace, Bool.true_and]
    rfl
  · rfl

theorem places_deleteProject (id : String) :
    (call sql ambient (.deleteProject id) t).2.places =
      t.places.after (.deleteProject id) (call sql ambient (.deleteProject id) t).1 := by
  show (replyWith _ (changeRow "project" (·.hasProject id) id _ t)).2.places =
    t.places.after _ (replyWith _ (changeRow "project" (·.hasProject id) id _ t)).1
  unfold changeRow
  split <;> rfl

theorem places_renameSpace (id name : String) :
    (call sql ambient (.renameSpace id name) t).2.places =
      t.places.after (.renameSpace id name) (call sql ambient (.renameSpace id name) t).1 := by
  show (replyWith _ (changeRow "space" (·.hasSpace id) id _ t)).2.places =
    t.places.after _ (replyWith _ (changeRow "space" (·.hasSpace id) id _ t)).1
  unfold changeRow
  split <;> rfl

theorem places_renameProject (id name : String) :
    (call sql ambient (.renameProject id name) t).2.places =
      t.places.after (.renameProject id name) (call sql ambient (.renameProject id name) t).1 := by
  show (replyWith _ (changeRow "project" (·.hasProject id) id _ t)).2.places =
    t.places.after _ (replyWith _ (changeRow "project" (·.hasProject id) id _ t)).1
  unfold changeRow
  split <;> rfl

/-! The other operations leave both tables alone. -/

theorem places_createMeetingWithNote (m : MeetingDraft) (n : NoteDraft) (endedAt : Option String)
    (durationMs : Option Nat) :
    (createMeetingWithNote sql ambient m n endedAt durationMs t).2.places = t.places := by
  unfold createMeetingWithNote
  split
  · rfl
  · split
    · rfl
    · split <;> rfl

theorem places_createNote (d : NoteDraft) : (createNote ambient d t).2.places = t.places := by
  unfold createNote
  split
  · split <;> rfl
  · rfl

theorem places_replaceMeetingNote (meetingId : String) (draft : NoteDraft) :
    (replaceMeetingNote ambient meetingId draft t).2.places = t.places := by
  unfold replaceMeetingNote
  split
  · rfl
  · split
    · simp only
      split <;> rfl
    · rfl

theorem places_createTag (name : String) : (createTag ambient name t).2.places = t.places := by
  unfold createTag
  split
  · rfl
  · refine inserted_keeps (P := fun t' => t'.places = t.places) rfl fun t' ht' => ?_
    unfold Tables.insertTag at ht'
    split at ht'
    · cases ht'
    · split at ht'
      · cases ht'
      · cases ht'
        rfl

theorem places_tagMeeting (meetingId tagId : String) :
    (tagMeeting meetingId tagId t).2.places = t.places := by
  unfold tagMeeting withTag
  split
  · split
    · refine inserted_keeps (P := fun t' => t'.places = t.places) rfl fun t' ht' => ?_
      unfold Tables.insertMeetingTag at ht'
      split at ht'
      · cases ht'
        rfl
      · split at ht'
        · cases ht'
        · cases ht'
          rfl
    · rfl
  · rfl

theorem places_untagMeeting (meetingId tagId : String) :
    (untagMeeting meetingId tagId t).2.places = t.places := by
  unfold untagMeeting withTag
  split
  · split <;> rfl
  · rfl

theorem places_assignMeeting (meetingId : String) (spaceId projectId : Option String) :
    (assignMeeting meetingId spaceId projectId t).2.places = t.places := by
  unfold assignMeeting
  split
  · split
    · refine inserted_keeps (P := fun t' => t'.places = t.places) rfl fun t' ht' => ?_
      unfold Tables.updateAssignment at ht'
      split at ht'
      · cases ht'
      · cases ht'
        rfl
    · rfl
  · rfl

/-- One operation, by its answer. -/
theorem places_call (op : Op) :
    (call sql ambient op t).2.places = t.places.after op (call sql ambient op t).1 := by
  let kept := fun t' : Tables => t'.places = t.places
  have hrow : ∀ {kind id : String} {exists_ : Tables → Bool} {f : Tables → Tables},
      (f t).places = t.places → (changeRow kind exists_ id f t).2.places = t.places :=
    fun h => changeRow_keeps (P := kept) rfl h
  cases op with
  | createSpace name => exact places_createSpace name
  | createProject spaceId name => exact places_createProject spaceId name
  | renameSpace id name => exact places_renameSpace id name
  | renameProject id name => exact places_renameProject id name
  | deleteSpace id => exact places_deleteSpace id
  | deleteProject id => exact places_deleteProject id
  | createMeeting d =>
    show (createMeeting sql d t).2.places = t.places
    unfold createMeeting
    split <;> rfl
  | createMeetingWithNote m n endedAt durationMs =>
    exact places_createMeetingWithNote m n endedAt durationMs
  | getMeeting id =>
    show (getMeeting id t).2.places = t.places
    unfold getMeeting
    split <;> rfl
  | updateMeetingEnded id endedAt durationMs => exact changeMeeting_keeps (P := kept) rfl rfl
  | renameMeeting id title => exact changeMeeting_keeps (P := kept) rfl rfl
  | deleteMeeting id => exact hrow rfl
  | deleteTag id => exact hrow rfl
  | createNote d => exact places_createNote d
  | replaceMeetingNote meetingId draft => exact places_replaceMeetingNote meetingId draft
  | createTag name => exact places_createTag name
  | tagMeeting meetingId tagId => exact places_tagMeeting meetingId tagId
  | untagMeeting meetingId tagId => exact places_untagMeeting meetingId tagId
  | listTagsForMeeting meetingId =>
    show (listTagsForMeeting sql meetingId t).2.places = t.places
    unfold listTagsForMeeting
    split <;> rfl
  | assignMeeting meetingId spaceId projectId =>
    exact places_assignMeeting meetingId spaceId projectId
  | listProjects spaceId => cases spaceId <;> rfl
  | listMeetings | listMeetingsFiltered | listNotesForMeeting | listSpaces | listTags => rfl

/-- One operation, with what it created. -/
theorem inOrder_call {spaces : List Space} {projects : List Project}
    (h : InOrder t spaces projects) (op : Op) :
    InOrder (call sql ambient op t).2 (spaces ++ createdSpace op (call sql ambient op t).1)
      (projects ++ createdProject op (call sql ambient op t).1) := by
  have hnone : ∀ {t'}, InOrder t' spaces projects → InOrder t' (spaces ++ []) (projects ++ []) := by
    intro t' h'
    rw [List.append_nil, List.append_nil]
    exact h'
  have hplaces := @places_call sql ambient t op
  let kept := fun t' : Tables => InOrder t' spaces projects
  cases op with
  | createSpace name =>
    show InOrder _ _ (projects ++ [])
    rw [List.append_nil]
    exact inOrder_createSpace h name
  | createProject spaceId name =>
    show InOrder _ (spaces ++ []) _
    rw [List.append_nil]
    exact inOrder_createProject h spaceId name
  | renameSpace id name =>
    exact hnone (changeRow_keeps (P := kept) h (h.renameSpace id name))
  | renameProject id name =>
    exact hnone (changeRow_keeps (P := kept) h (h.renameProject id name))
  | deleteSpace id =>
    exact hnone (changeRow_keeps (P := kept) h (h.sublist List.filter_sublist List.filter_sublist))
  | deleteProject id =>
    exact hnone (changeRow_keeps (P := kept) h
      (h.sublist (List.Sublist.refl _) List.filter_sublist))
  | _ =>
    exact hnone (h.congr (congrArg Places.spaces hplaces) (congrArg Places.projects hplaces))

end Registry

/-! ## Runs -/

namespace RusqliteStorage

variable (sql : Sqlite)

/-- The spaces that the calls of a run created, in that order. -/
def createdSpaces : Tables → List Call → List Space
  | _, [] => []
  | t, c :: rest => createdSpace c.op (step sql t c).1 ++ createdSpaces (step sql t c).2 rest

def createdProjects : Tables → List Call → List Project
  | _, [] => []
  | t, c :: rest => createdProject c.op (step sql t c).1 ++ createdProjects (step sql t c).2 rest

/-- What the answers to the calls of a run leave of the places. -/
def left : Tables → List Call → Places → Places
  | _, [], places => places
  | t, c :: rest, places => left (step sql t c).2 rest (places.after c.op (step sql t c).1)

variable {sql}

theorem createdSpace_error (op : Op) (e : StorageError) : createdSpace op (.error e) = [] := by
  cases op <;> rfl

theorem createdProject_error (op : Op) (e : StorageError) : createdProject op (.error e) = [] := by
  cases op <;> rfl

/-- A call that reads its row back creates none. -/
theorem created_of_readsBack {op : Op} (hback : op.readsBack = true)
    (reply : Except StorageError Reply) :
    createdSpace op reply = [] ∧ createdProject op reply = [] := by
  cases op with
  | updateMeetingEnded id endedAt durationMs => exact ⟨rfl, rfl⟩
  | renameMeeting id title => exact ⟨rfl, rfl⟩
  | _ => cases hback

theorem inOrder_step {t : Tables} {spaces : List Space} {projects : List Project}
    (h : InOrder t spaces projects) (c : Call) :
    InOrder (step sql t c).2 (spaces ++ createdSpace c.op (step sql t c).1)
      (projects ++ createdProject c.op (step sql t c).1) := by
  rcases step_cases t c with hcall | ⟨⟨message, herror⟩, hsame⟩ | ⟨hback, _, hcall⟩
  · rw [hcall]
    exact Registry.inOrder_call h c.op
  · rw [herror, hsame, createdSpace_error, createdProject_error, List.append_nil, List.append_nil]
    exact h
  · have hkept : InOrder (Registry.call sql c.ambient c.op t).2 _ _ := Registry.inOrder_call h c.op
    rw [(created_of_readsBack hback _).1, (created_of_readsBack hback _).2] at hkept ⊢
    rw [hcall]
    exact hkept

theorem inOrder_foldl (calls : List Call) {t : Tables} {spaces : List Space}
    {projects : List Project} (h : InOrder t spaces projects) :
    InOrder (calls.foldl (fun t c => (step sql t c).2) t) (spaces ++ createdSpaces sql t calls)
      (projects ++ createdProjects sql t calls) := by
  induction calls generalizing t spaces projects with
  | nil =>
    show InOrder t (spaces ++ []) (projects ++ [])
    rw [List.append_nil, List.append_nil]
    exact h
  | cons c rest ih =>
    have hrest := ih (@inOrder_step sql _ _ _ h c)
    rw [List.append_assoc, List.append_assoc] at hrest
    exact hrest

/-- Every state of the storage is in order. -/
theorem inOrder_run (calls : List Call) :
    InOrder (run sql calls) (createdSpaces sql Tables.empty calls)
      (createdProjects sql Tables.empty calls) :=
  inOrder_foldl calls InOrder.empty

theorem after_error (places : Places) (op : Op) (e : StorageError) :
    places.after op (.error e) = places := by
  cases op <;> rfl

theorem places_step (t : Tables) (c : Call) :
    (step sql t c).2.places = t.places.after c.op (step sql t c).1 := by
  rcases step_cases t c with hcall | ⟨⟨message, herror⟩, hsame⟩ | ⟨hback, ⟨message, herror⟩, hcall⟩
  · rw [hcall]
    exact Registry.places_call c.op
  · rw [herror, hsame, after_error]
  · have hleft : ∀ reply, t.places.after c.op reply = t.places := by
      cases hop : c.op with
      | updateMeetingEnded | renameMeeting => exact fun _ => rfl
      | _ => cases hop ▸ hback
    rw [hcall, hleft]
    exact (Registry.places_call c.op).trans (hleft _)

theorem places_foldl (calls : List Call) (t : Tables) :
    (calls.foldl (fun t c => (step sql t c).2) t).places = left sql t calls t.places := by
  induction calls generalizing t with
  | nil => rfl
  | cons c rest ih =>
    rw [left, ← places_step]
    exact ih (step sql t c).2

theorem places_run (calls : List Call) :
    (run sql calls).places = left sql Tables.empty calls Places.empty :=
  places_foldl calls Tables.empty

/-- A rename leaves ids, spaces and positions as they are, whatever the answer. -/
theorem map_place_after {op : Op} (hop : op.renamesPlace = true) (places : Places)
    (reply : Except StorageError Reply) :
    (places.after op reply).spaces.map Space.place = places.spaces.map Space.place ∧
      (places.after op reply).projects.map Project.place =
        places.projects.map Project.place := by
  cases reply with
  | error e =>
    rw [after_error]
    exact ⟨rfl, rfl⟩
  | ok reply =>
    cases op with
    | renameSpace id name =>
      refine ⟨(List.map_map ..).trans (List.map_congr_left fun s _ => ?_), rfl⟩
      simp only [Function.comp_apply]
      split <;> rfl
    | renameProject id name =>
      refine ⟨rfl, (List.map_map ..).trans (List.map_congr_left fun p _ => ?_)⟩
      simp only [Function.comp_apply]
      split <;> rfl
    | _ => cases hop

/-! ## Listings -/

theorem nodup_of_increasing {α : Type} {position : α → Int} {rows : List α}
    (h : rows.Pairwise fun a b => position a < position b) : (rows.map position).Nodup :=
  List.pairwise_map.mpr (h.imp fun hlt => ne_of_lt hlt)

/-- Rows whose positions grow are listed as they are. -/
theorem orderBy_position {α : Type} {position : α → Int} {name : α → String} {rows : List α}
    (h : rows.Pairwise fun a b => position a < position b) :
    sql.orderBy (fun a b => position a < position b ∨ position a = position b ∧ name a ≤ name b)
      rows = rows := by
  have hdistinct : (rows.map position).Nodup := nodup_of_increasing h
  have hscan : sql.orderBy
      (fun a b => position a < position b ∨ position a = position b ∧ name a ≤ name b) rows =
      rows.insertionSort
        (fun a b => position a < position b ∨ position a = position b ∧ name a ≤ name b) := by
    refine Lib.Sorting.insertionSort_perm (k := fun a => toLex (position a, name a))
      (Lib.Sorting.lex_le_iff position name) (sql.scan_perm rows) fun a ha b hb hkey => ?_
    have hposition : position a = position b := congrArg (fun k => (ofLex k).1) hkey
    exact List.inj_on_of_nodup_map hdistinct ((sql.scan_perm rows).mem_iff.mp ha)
      ((sql.scan_perm rows).mem_iff.mp hb) hposition
  rw [hscan]
  exact List.Pairwise.insertionSort_eq (h.imp Or.inl)

theorem selectSpaces_of_inOrder {t : Tables} {spaces : List Space} {projects : List Project}
    (h : InOrder t spaces projects) : t.selectSpaces sql = t.space :=
  orderBy_position h.spaceOrder

theorem projectsOf_pairwise {t : Tables} {spaces : List Space} {projects : List Project}
    (h : InOrder t spaces projects) (spaceId : String) :
    (t.project.filter (·.spaceId == spaceId)).Pairwise fun a b => a.position < b.position := by
  refine (h.projectOrder.sublist List.filter_sublist).imp_of_mem ?_
  intro a b ha hb hlt
  have hspace : ∀ {p}, p ∈ t.project.filter (·.spaceId == spaceId) → p.spaceId = spaceId :=
    fun hp => beq_iff_eq.mp (List.mem_filter.mp hp).2
  exact hlt ((hspace ha).trans (hspace hb).symm)

theorem selectProjectsOf_of_inOrder {t : Tables} {spaces : List Space} {projects : List Project}
    (h : InOrder t spaces projects) (spaceId : String) :
    t.selectProjectsOf sql spaceId = t.project.filter (·.spaceId == spaceId) :=
  orderBy_position (projectsOf_pairwise h spaceId)

/-- After any calls the positions tell the spaces apart, and the projects of each space.  A
listing gives what the answers have left, under the last names: every row that was created
and not deleted since, in the order of creation, which a rename does not touch. -/
theorem places_kept (sql : Sqlite) (ambient : Ambient) (calls : List Call) :
    ((run sql calls).space.map Space.position).Nodup ∧
    (∀ spaceId, (((run sql calls).project.filter (·.spaceId == spaceId)).map
      Project.position).Nodup) ∧
    (step sql (run sql calls) ⟨.listSpaces, ambient, []⟩).1 =
      .ok (.spaces (left sql Tables.empty calls Places.empty).spaces) ∧
    (∀ spaceId, (step sql (run sql calls) ⟨.listProjects (some spaceId), ambient, []⟩).1 =
      .ok (.projects ((left sql Tables.empty calls Places.empty).projects.filter
        (·.spaceId == spaceId)))) ∧
    ((left sql Tables.empty calls Places.empty).spaces.map Space.place).Sublist
      ((createdSpaces sql Tables.empty calls).map Space.place) ∧
    ((left sql Tables.empty calls Places.empty).projects.map Project.place).Sublist
      ((createdProjects sql Tables.empty calls).map Project.place) ∧
    ∀ c : Call, c.op.renamesPlace = true →
      (run sql (calls ++ [c])).space.map Space.place = (run sql calls).space.map Space.place ∧
      (run sql (calls ++ [c])).project.map Project.place =
        (run sql calls).project.map Project.place := by
  have h := @inOrder_run sql calls
  have hplaces : (run sql calls).places = left sql Tables.empty calls Places.empty :=
    places_run calls
  rw [← hplaces]
  refine ⟨nodup_of_increasing h.spaceOrder,
    fun spaceId => nodup_of_increasing (projectsOf_pairwise h spaceId), ?_, fun spaceId => ?_,
    h.spacesCreated, h.projectsCreated, fun c hc => ?_⟩
  · rw [step_of_no_faults _ rfl]
    show Except.ok (Reply.spaces ((run sql calls).selectSpaces sql)) = _
    rw [selectSpaces_of_inOrder h]
    rfl
  · rw [step_of_no_faults _ rfl]
    show Except.ok (Reply.projects ((run sql calls).selectProjectsOf sql spaceId)) = _
    rw [selectProjectsOf_of_inOrder h]
    rfl
  · have hstep := @places_step sql (run sql calls) c
    rw [← run_append] at hstep
    have hmap := map_place_after hc (run sql calls).places (step sql (run sql calls) c).1
    rw [← hstep] at hmap
    exact hmap

end RusqliteStorage
end Storage
end Panops
