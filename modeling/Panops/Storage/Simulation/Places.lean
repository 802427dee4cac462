import Panops.Storage.Simulation.Relation

/-!
# Spaces and projects in both stores
-/

namespace Panops
namespace Storage

open Lib (HashMap Mirrors)

variable {ρ : String → String} {clock : String → String → Prop}

namespace Simulates

variable {s : InMemory} {t : Tables} {sql : Sqlite} {order : HashOrder} {ambient : Ambient}

/-! ## Positions -/

theorem nextPosition_eq (positions : List Int) :
    RusqliteStorage.nextPosition positions.max? = InMemory.nextPosition positions := rfl

theorem lt_nextPosition {positions : List Int} {p : Int} (hp : p ∈ positions) :
    p < InMemory.nextPosition positions := by
  unfold InMemory.nextPosition
  cases hmax : positions.max? with
  | none =>
    rw [List.max?_eq_none_iff] at hmax
    rw [hmax] at hp
    exact absurd hp List.not_mem_nil
  | some top =>
    have hle := (List.max?_eq_some_iff.mp hmax).2 p hp
    simp only [Option.map_some, Option.getD_some]
    omega

/-! ## Spaces -/

theorem insertSpace (h : Simulates ρ clock s t) {space : Space}
    (hfresh : s.spaces.containsKey space.id = false) :
    t.insertSpace (space.rename ρ) =
      .ok ((), { t with space := t.space ++ [space.rename ρ] }) := by
  have hnone : t.hasSpace (space.rename ρ).id = false := (h.hasSpace space.id).trans hfresh
  simp only [Tables.insertSpace, hnone, Bool.false_eq_true, if_false]

theorem createSpace (h : Simulates ρ clock s t) (name : String)
    (hid : newId "space" ambient.nanos ambient.counter =
      ρ (InMemory.numberedId "space" s.nextSpaceId)) :
    Agrees ρ clock (fun a b => b = a.rename ρ) (s.createSpace name)
      (Registry.createSpace ambient name t) := by
  have hfresh := h.spaceIds.fresh
  have hpositions : t.space.map Space.position = s.spaces.values.map Space.position := by
    rw [h.space_eq, List.map_map]
    rfl
  have hspace : (⟨newId "space" ambient.nanos ambient.counter, name,
      RusqliteStorage.nextPosition (t.space.map Space.position).max?⟩ : Space) =
      Space.rename ρ ⟨InMemory.numberedId "space" s.nextSpaceId, name,
        InMemory.nextPosition (s.spaces.values.map Space.position)⟩ := by
    rw [hid, hpositions, nextPosition_eq]
    rfl
  unfold InMemory.createSpace Registry.createSpace
  have hinsert : t.insertSpace (Space.rename ρ ⟨InMemory.numberedId "space" s.nextSpaceId, name,
      InMemory.nextPosition (s.spaces.values.map Space.position)⟩) = _ :=
    h.insertSpace hfresh
  simp only [hspace, hinsert, Registry.inserted]
  refine agrees_ok rfl { h with spaces := ?_, spaceIds := ?_, spacePositions := ?_ }
  · exact h.spaces.insert hfresh rfl rfl
  · exact h.spaceIds.insert _
  · rw [values_insert _ hfresh, List.map_append]
    refine nodup_append_new h.spacePositions fun hmem => ?_
    exact lt_irrefl _ (lt_nextPosition hmem)

theorem listSpaces (h : Simulates ρ clock s t) (order : HashOrder) :
    t.selectSpaces sql = (s.listSpaces order).map (Space.rename ρ) := by
  refine Lib.Sorting.map_insertionSort_perm
    (k := fun a : Space => toLex (a.position, a.name))
    (l := fun a : Space => toLex (a.position, a.name))
    (fun a b => Lib.Sorting.lex_le_iff Space.position Space.name a b)
    (fun a b => Lib.Sorting.lex_le_iff Space.position Space.name a b) ?_ ?_ fun _ _ _ _ => Iff.rfl
  · rw [h.space_eq]
    exact (sql.scan_perm _).trans ((order.iterate_perm _).map _).symm
  · intro a ha b hb hkey
    have hposition : a.position = b.position := congrArg (fun k => (ofLex k).1) hkey
    exact List.inj_on_of_nodup_map h.spacePositions ((order.iterate_perm _).mem_iff.mp ha)
      ((order.iterate_perm _).mem_iff.mp hb) hposition

theorem renameSpace (h : Simulates ρ clock s t) (id name : String) :
    Agrees ρ clock Eq (s.renameSpace id name)
      (Registry.changeRow "space" (·.hasSpace (ρ id)) (ρ id)
        (fun t => (t.updateSpaceName (ρ id) name).2) t) := by
  refine agrees_changeRow h (h.hasSpace id) rfl fun _ =>
    { h with spaces := ?_, spaceIds := ?_, spacePositions := ?_ }
  · refine h.spaces.alter (f := fun space => { space with name := name })
      (g := fun space => { space with name := name }) (fun a b hab => ?_) fun _ => rfl
    rw [hab]
    rfl
  · exact h.spaceIds.alter _ _
  · refine nodup_values_alter (fun _ => ?_) h.spacePositions
    rfl

/-! ## Projects -/

theorem insertProject (h : Simulates ρ clock s t) {p : Project}
    (hfresh : s.projects.containsKey p.id = false)
    (hspace : s.spaces.containsKey p.spaceId = true) :
    t.insertProject (p.rename ρ) = .ok ((), { t with project := t.project ++ [p.rename ρ] }) := by
  have hnone : t.hasProject (p.rename ρ).id = false := (h.hasProject p.id).trans hfresh
  have hplace : t.hasSpace (p.rename ρ).spaceId = true := (h.hasSpace p.spaceId).trans hspace
  simp only [Tables.insertProject, hnone, hplace, Bool.not_true, Bool.false_eq_true, if_false]

theorem createProject (h : Simulates ρ clock s t) (spaceId name : String)
    (hid : s.spaces.containsKey spaceId = true →
      newId "project" ambient.nanos ambient.counter =
        ρ (InMemory.numberedId "project" s.nextProjectId)) :
    Agrees ρ clock (fun a b => b = a.rename ρ) (s.createProject spaceId name)
      (Registry.createProject ambient (ρ spaceId) name t) := by
  unfold InMemory.createProject Registry.createProject
  rw [h.hasSpace]
  cases hspace : s.spaces.containsKey spaceId with
  | false => exact agrees_error h rfl
  | true =>
    have hfresh := h.projectIds.fresh
    have hpositions : (t.project.filter (·.spaceId == ρ spaceId)).map Project.position =
        (s.projects.values.filter (·.spaceId == spaceId)).map Project.position := by
      have hsame : ∀ p : Project, ((p.rename ρ).spaceId == ρ spaceId) = (p.spaceId == spaceId) := by
        intro p
        rw [Bool.eq_iff_iff, beq_iff_eq, beq_iff_eq]
        exact h.projects.injective.eq_iff
      rw [h.project_eq, List.filter_map, List.map_map]
      simp only [Function.comp_def, hsame]
      rfl
    have hproject : (⟨newId "project" ambient.nanos ambient.counter, ρ spaceId, name,
        RusqliteStorage.nextPosition
          ((t.project.filter (·.spaceId == ρ spaceId)).map Project.position).max?⟩ : Project) =
        Project.rename ρ ⟨InMemory.numberedId "project" s.nextProjectId, spaceId, name,
          InMemory.nextPosition
            ((s.projects.values.filter (·.spaceId == spaceId)).map Project.position)⟩ := by
      rw [hid hspace, hpositions, nextPosition_eq]
      rfl
    have hinsert : t.insertProject (Project.rename ρ
        ⟨InMemory.numberedId "project" s.nextProjectId, spaceId, name, InMemory.nextPosition
          ((s.projects.values.filter (·.spaceId == spaceId)).map Project.position)⟩) = _ :=
      h.insertProject hfresh hspace
    simp only [if_true, hproject, hinsert, Registry.inserted]
    refine agrees_ok rfl { h with projects := ?_, projectIds := ?_, projectPositions := ?_ }
    · exact h.projects.insert hfresh rfl rfl
    · exact h.projectIds.insert _
    · rw [values_insert _ hfresh, List.map_append]
      refine nodup_append_new h.projectPositions fun hmem => ?_
      obtain ⟨p, hp, hkey⟩ := List.mem_map.mp hmem
      obtain ⟨hspaceId, hposition⟩ := Prod.mk.inj hkey
      have hlt : p.position < InMemory.nextPosition
          ((s.projects.values.filter (·.spaceId == spaceId)).map Project.position) :=
        lt_nextPosition (List.mem_map_of_mem
          (List.mem_filter.mpr ⟨hp, by simpa using hspaceId⟩))
      rw [hposition] at hlt
      exact lt_irrefl _ hlt

/-- The key by which the fake sorts projects. -/
def projectKey (p : Project) : Lex (String × Lex (Int × String)) :=
  toLex (p.spaceId, toLex (p.position, p.name))

theorem projectKey_le_iff (a b : Project) :
    (a.spaceId < b.spaceId ∨ a.spaceId = b.spaceId ∧
      (a.position < b.position ∨ a.position = b.position ∧ a.name ≤ b.name)) ↔
      projectKey a ≤ projectKey b := by
  rw [Lib.Sorting.lex_le_iff Project.position Project.name a b]
  exact Lib.Sorting.lex_le_iff Project.spaceId (fun p => toLex (p.position, p.name)) a b

theorem projectKey_injective (h : Simulates ρ clock s t) {a b : Project}
    (ha : a ∈ s.projects.values) (hb : b ∈ s.projects.values) (hkey : projectKey a = projectKey b) :
    a = b := by
  have hspace : a.spaceId = b.spaceId := congrArg (fun k => (ofLex k).1) hkey
  have hposition : a.position = b.position := congrArg (fun k => (ofLex (ofLex k).2).1) hkey
  exact List.inj_on_of_nodup_map h.projectPositions ha hb (Prod.ext hspace hposition)

theorem listProjects_some (h : Simulates ρ clock s t) (order : HashOrder) (spaceId : String) :
    t.selectProjectsOf sql (ρ spaceId) =
      (s.listProjects order (some spaceId)).map (Project.rename ρ) := by
  have hmem : ∀ p ∈ (order.iterate s.projects.values).filter fun p =>
      (some spaceId).all (p.spaceId == ·), p ∈ s.projects.values ∧ p.spaceId = spaceId := by
    intro p hp
    obtain ⟨hp, hspace⟩ := List.mem_filter.mp hp
    exact ⟨(order.iterate_perm _).mem_iff.mp hp, by simpa using hspace⟩
  refine Lib.Sorting.map_insertionSort_perm (k := projectKey)
    (l := fun a : Project => toLex (a.position, a.name)) projectKey_le_iff
    (fun a b => Lib.Sorting.lex_le_iff Project.position Project.name a b) ?_ ?_ ?_
  · have hrows : t.project.filter (·.spaceId == ρ spaceId) =
        (s.projects.values.filter fun p => (some spaceId).all (p.spaceId == ·)).map
          (Project.rename ρ) := by
      rw [h.project_eq, List.filter_map]
      congr 1
      refine List.filter_congr fun p _ => ?_
      simp only [Function.comp_apply, Option.all_some]
      rw [Bool.eq_iff_iff, beq_iff_eq, beq_iff_eq]
      exact h.projects.injective.eq_iff
    rw [hrows]
    exact (sql.scan_perm _).trans (((order.iterate_perm _).filter _).map _).symm
  · exact fun a ha b hb => h.projectKey_injective (hmem a ha).1 (hmem b hb).1
  · intro a ha b hb
    rw [← projectKey_le_iff, ← Lib.Sorting.lex_le_iff Project.position Project.name]
    have hspaces : a.spaceId = b.spaceId := (hmem a ha).2.trans (hmem b hb).2.symm
    simp only [hspaces, lt_irrefl, false_or, true_and]
    rfl

theorem listProjects_none (h : Simulates ρ clock s t) (order : HashOrder)
    (hmono : ∀ p ∈ s.projects.values, ∀ q ∈ s.projects.values, p.spaceId ≤ q.spaceId →
      ρ p.spaceId ≤ ρ q.spaceId) :
    t.selectProjects sql = (s.listProjects order none).map (Project.rename ρ) := by
  have hmem : ∀ p ∈ (order.iterate s.projects.values).filter fun p =>
      (none : Option String).all (p.spaceId == ·), p ∈ s.projects.values := by
    intro p hp
    exact (order.iterate_perm _).mem_iff.mp (List.mem_filter.mp hp).1
  refine Lib.Sorting.map_insertionSort_perm (k := projectKey) (l := projectKey)
    projectKey_le_iff projectKey_le_iff ?_ ?_ ?_
  · rw [h.project_eq]
    refine (sql.scan_perm _).trans ?_
    simp only [Option.all_none, List.filter_true]
    exact ((order.iterate_perm _).map _).symm
  · exact fun a ha b hb => h.projectKey_injective (hmem a ha) (hmem b hb)
  · intro a ha b hb
    have hle : a.spaceId < b.spaceId ↔ ρ a.spaceId < ρ b.spaceId := by
      have hba := hmono b (hmem b hb) a (hmem a ha)
      have hab := hmono a (hmem a ha) b (hmem b hb)
      constructor
      · intro hlt
        exact lt_of_le_of_ne (hab hlt.le) fun heq => hlt.ne (h.projects.injective heq)
      · intro hlt
        rw [← not_le]
        exact fun hle => absurd (hba hle) (not_le.mpr hlt)
    rw [← projectKey_le_iff, ← projectKey_le_iff]
    simp only [Project.rename, ← hle, h.projects.injective.eq_iff]

theorem renameProject (h : Simulates ρ clock s t) (id name : String) :
    Agrees ρ clock Eq (s.renameProject id name)
      (Registry.changeRow "project" (·.hasProject (ρ id)) (ρ id)
        (fun t => (t.updateProjectName (ρ id) name).2) t) := by
  refine agrees_changeRow h (h.hasProject id) rfl fun _ =>
    { h with projects := ?_, projectIds := ?_, projectPositions := ?_ }
  · refine h.projects.alter (f := fun p => { p with name := name })
      (g := fun p => { p with name := name }) (fun a b hab => ?_) fun _ => rfl
    rw [hab]
    rfl
  · exact h.projectIds.alter _ _
  · refine nodup_values_alter (fun _ => ?_) h.projectPositions
    rfl

/-! ## Deletions -/

theorem mem_keysWith {m : HashMap String String} {key value : String} :
    key ∈ InMemory.keysWith m value ↔ m.get key = some value := by
  rw [HashMap.get_eq_some_iff]
  constructor
  · intro h
    obtain ⟨e, he, rfl⟩ := List.mem_map.mp h
    obtain ⟨he, hvalue⟩ := List.mem_filter.mp he
    have hval : e.2 = value := by simpa using hvalue
    rw [← hval]
    exact he
  · intro h
    exact List.mem_map.mpr ⟨(key, value), List.mem_filter.mpr ⟨h, beq_self_eq_true _⟩, rfl⟩

/-- What is left of the assignments to something that goes. -/
theorem get_clear (m : HashMap String String) (value key : String) :
    (m.removeAll (InMemory.keysWith m value)).get key = (m.get key).filter (· != value) := by
  rw [HashMap.get_removeAll]
  cases hget : m.get key with
  | none => split <;> rfl
  | some v =>
    by_cases hv : v = value
    · rw [if_pos (mem_keysWith.mpr (hv ▸ hget)), hv]
      simp [Option.filter_some]
    · rw [if_neg fun hmem => hv (Option.some.inj (hget.symm.trans (mem_keysWith.mp hmem)))]
      simp [Option.filter_some, hv]

theorem filter_of_none {α : Type} {o : Option α} (p : α → Bool) (h : o = none) :
    o.filter p = none := by
  rw [h]
  rfl

/-- A row whose project goes. -/
theorem rowOf_clear_project {spaces projects projects' : HashMap String String} {m : Meeting}
    {gone : String → Bool}
    (hget : projects'.get m.id = (projects.get m.id).filter fun p => !gone p) :
    (if (projects.get m.id).any gone = true then
      { rowOf ρ spaces projects m with projectId := none }
    else rowOf ρ spaces projects m) = rowOf ρ spaces projects' m := by
  cases hproject : projects.get m.id with
  | none => simp [rowOf, hget, hproject]
  | some p =>
    cases hgone : gone p <;> simp [rowOf, hget, hproject, hgone, Option.filter_some]

/-- A row whose space goes. -/
theorem rowOf_clear_space {spaces spaces' projects : HashMap String String} {m : Meeting}
    {goneRow gone : String → Bool} (hrow : ∀ id, goneRow (ρ id) = gone id)
    (hget : spaces'.get m.id = (spaces.get m.id).filter fun id => !gone id) :
    (if (rowOf ρ spaces projects m).spaceId.any goneRow = true then
      { rowOf ρ spaces projects m with spaceId := none }
    else rowOf ρ spaces projects m) = rowOf ρ spaces' projects m := by
  cases hspace : spaces.get m.id with
  | none => simp [rowOf, hget, hspace]
  | some id =>
    cases hgone : gone id <;> simp [rowOf, hget, hspace, hrow, hgone, Option.filter_some]

theorem deleteProject (h : Simulates ρ clock s t) (id : String) :
    Agrees ρ clock Eq (s.deleteProject id)
      (Registry.changeRow "project" (·.hasProject (ρ id)) (ρ id)
        (fun t => (t.deleteProject (ρ id)).2) t) := by
  refine agrees_changeRow h (h.hasProject id) rfl fun hid => ?_
  have hhere : t.hasProject (ρ id) = true := (h.hasProject id).trans hid
  refine { h with
    meetings := ?_, placed := ?_, projects := ?_, projectIds := ?_, projectPositions := ?_ }
  · refine h.meetings.map_rows (fun e _ row hrow => ?_) fun m row hrow => ?_
    · have hgone : (t.project.any fun p => p.id == ρ id && row.projectId == some p.id) =
          (s.meetingProjects.get e.2.id).any (· == id) := by
        rw [Bool.eq_iff_iff, List.any_eq_true, Option.any_eq_true]
        have hplace : row.projectId = (s.meetingProjects.get e.2.id).map ρ := by rw [hrow]; rfl
        constructor
        · intro hany
          obtain ⟨p, _, hp⟩ := hany
          rw [Bool.and_eq_true, beq_iff_eq, beq_iff_eq, hplace] at hp
          rw [hp.1] at hp
          obtain ⟨old, hold, heq⟩ := Option.map_eq_some_iff.mp hp.2
          exact ⟨old, hold, beq_iff_eq.mpr (h.projects.injective heq)⟩
        · intro hany
          obtain ⟨old, hold, heq⟩ := hany
          obtain ⟨p, hp, hpid⟩ := Tables.hasProject_iff.mp hhere
          refine ⟨p, hp, ?_⟩
          rw [hplace, hold, beq_iff_eq.mp heq, hpid]
          simp
      rw [hgone, hrow]
      exact rowOf_clear_project (get_clear s.meetingProjects id e.2.id)
    · rw [hrow]
      rfl
  · intro key hkey
    simp only [InMemory.clearProjectAssignments, get_clear]
    exact ⟨(h.placed key hkey).1, filter_of_none _ (h.placed key hkey).2⟩
  · exact h.projects.remove id
  · exact h.projectIds.retain _
  · exact nodup_values_retain _ h.projectPositions

/-- What the loop over the projects of a deleted space leaves. -/
theorem removeProjects_eq (ids : List String) (s : InMemory) :
    ∃ placed : HashMap String String,
      InMemory.removeProjects ids s =
          { s with projects := s.projects.removeAll ids, meetingProjects := placed } ∧
        ∀ key, placed.get key = (s.meetingProjects.get key).filter fun p => decide (p ∉ ids) := by
  induction ids generalizing s with
  | nil =>
    refine ⟨s.meetingProjects, rfl, fun key => ?_⟩
    cases s.meetingProjects.get key <;> simp [Option.filter_some]
  | cons id rest ih =>
    obtain ⟨placed, hloop, hplaced⟩ :=
      ih ({ s with projects := s.projects.remove id }.clearProjectAssignments id)
    refine ⟨placed, hloop, fun key => ?_⟩
    rw [hplaced]
    simp only [InMemory.clearProjectAssignments, get_clear]
    cases s.meetingProjects.get key with
    | none => rfl
    | some p => by_cases hp : p = id <;> simp [Option.filter_some, hp]

theorem mem_projectIdsOf (h : Simulates ρ clock s t) {e : String × Project}
    (he : e ∈ s.projects.entries) (spaceId : String) :
    e.1 ∈ s.projectIdsOf spaceId ↔ e.2.spaceId = spaceId := by
  constructor
  · intro hmem
    obtain ⟨p, hp, hid⟩ := List.mem_map.mp hmem
    obtain ⟨hp, hspace⟩ := List.mem_filter.mp hp
    obtain ⟨e', he', rfl⟩ := List.mem_map.mp hp
    have hkey : e'.1 = e.1 := (h.projects.keys e' he').trans hid
    have hsame : e'.2 = e.2 := by
      have hget := HashMap.get_of_mem_entries (m := s.projects) (k := e.1) (v := e'.2) (hkey ▸ he')
      have hget' := HashMap.get_of_mem_entries (m := s.projects) (k := e.1) (v := e.2) he
      exact Option.some.inj (hget.symm.trans hget')
    rw [← hsame]
    simpa using hspace
  · intro hspace
    refine List.mem_map.mpr ⟨e.2, List.mem_filter.mpr ⟨List.mem_map_of_mem he, ?_⟩,
      (h.projects.keys e he).symm⟩
    simpa using hspace

/-- A reference to a space that is deleted. -/
theorem space_gone (h : Simulates ρ clock s t) {id : String} (hhere : t.hasSpace (ρ id) = true)
    (other : String) : (t.hasSpace (ρ id) && ρ other == ρ id) = (other == id) := by
  rw [hhere, Bool.true_and, Bool.eq_iff_iff, beq_iff_eq, beq_iff_eq]
  exact h.spaces.injective.eq_iff

/-- Whether a deleted space takes the project of a meeting with it. -/
theorem any_project_gone (h : Simulates ρ clock s t) {id : String}
    (hhere : t.hasSpace (ρ id) = true) {m : Meeting} {row : MeetingRow}
    (hrow : row = rowOf ρ s.meetingSpaces s.meetingProjects m) :
    (t.project.any fun p => (t.hasSpace (ρ id) && p.spaceId == ρ id) &&
        row.projectId == some p.id) =
      (s.meetingProjects.get m.id).any fun key => decide (key ∈ s.projectIdsOf id) := by
  have hplace : row.projectId = (s.meetingProjects.get m.id).map ρ := by rw [hrow]; rfl
  rw [Bool.eq_iff_iff, List.any_eq_true, Option.any_eq_true, hplace, h.project_eq]
  constructor
  · intro hany
    obtain ⟨_, hp, hboth⟩ := hany
    obtain ⟨p, hvalue, rfl⟩ := List.mem_map.mp hp
    simp only [Project.rename, h.space_gone hhere, Bool.and_eq_true, beq_iff_eq] at hboth
    obtain ⟨key, hkey, heq⟩ := Option.map_eq_some_iff.mp hboth.2
    have hid : key = p.id := h.projects.injective heq
    refine ⟨key, hkey, decide_eq_true ?_⟩
    rw [hid]
    exact List.mem_map_of_mem (List.mem_filter.mpr ⟨hvalue, by simpa using hboth.1⟩)
  · intro hany
    obtain ⟨key, hkey, hmem⟩ := hany
    obtain ⟨p, hp, rfl⟩ := List.mem_map.mp (of_decide_eq_true hmem)
    obtain ⟨hp, hspace⟩ := List.mem_filter.mp hp
    refine ⟨p.rename ρ, List.mem_map_of_mem hp, ?_⟩
    simp only [Project.rename, h.space_gone hhere, hspace, hkey, Option.map_some, Bool.true_and,
      beq_self_eq_true]

theorem deleteSpace (h : Simulates ρ clock s t) (id : String) :
    Agrees ρ clock Eq (s.deleteSpace id)
      (Registry.changeRow "space" (·.hasSpace (ρ id)) (ρ id)
        (fun t => (t.deleteSpace (ρ id)).2) t) := by
  obtain ⟨placed, hloop, hplaced⟩ :=
    removeProjects_eq (s.projectIdsOf id) { s with spaces := s.spaces.remove id }
  unfold InMemory.deleteSpace
  simp only [hloop]
  refine agrees_changeRow h (h.hasSpace id) rfl fun hid => ?_
  have hhere : t.hasSpace (ρ id) = true := (h.hasSpace id).trans hid
  refine { h with
    meetings := ?_, placed := ?_, spaces := ?_, projects := ?_, spaceIds := ?_,
    projectIds := ?_, spacePositions := ?_, projectPositions := ?_ }
  · simp only [Tables.deleteSpace, Tables.clearProjects, List.map_map]
    refine h.meetings.map_rows (fun e _ row hrow => ?_) fun m row hrow => ?_
    · simp only [Function.comp_apply, h.any_project_gone hhere hrow]
      have hproject : placed.get e.2.id = (s.meetingProjects.get e.2.id).filter fun key =>
          !decide (key ∈ s.projectIdsOf id) := by
        rw [hplaced]
        simp
      rw [hrow, rowOf_clear_project hproject]
      exact rowOf_clear_space (h.space_gone hhere) (get_clear s.meetingSpaces id e.2.id)
    · rw [hrow]
      rfl
  · intro key hkey
    simp only [InMemory.clearSpaceAssignments, get_clear, hplaced]
    exact ⟨filter_of_none _ (h.placed key hkey).1, filter_of_none _ (h.placed key hkey).2⟩
  · exact h.spaces.remove id
  · simp only [InMemory.clearSpaceAssignments, HashMap.removeAll_eq_retain]
    refine h.projects.retain fun e he row hrow _ => ?_
    rw [hrow]
    show decide (e.1 ∉ s.projectIdsOf id) = !(t.hasSpace (ρ id) && ρ e.2.spaceId == ρ id)
    rw [h.space_gone hhere, Bool.eq_iff_iff, decide_eq_true_eq, Bool.not_eq_true',
      beq_eq_false_iff_ne]
    exact not_congr (h.mem_projectIdsOf he id)
  · simp only [InMemory.clearSpaceAssignments]
    exact h.spaceIds.retain _
  · simp only [InMemory.clearSpaceAssignments, HashMap.removeAll_eq_retain]
    exact h.projectIds.retain _
  · exact nodup_values_retain _ h.spacePositions
  · simp only [InMemory.clearSpaceAssignments, HashMap.removeAll_eq_retain]
    exact nodup_values_retain _ h.projectPositions

/-! ## Assignments -/

theorem get_setPlace (m : HashMap String String) (meetingId key : String)
    (place : Option String) :
    (InMemory.setPlace m meetingId place).get key =
      if key = meetingId then place else m.get key := by
  cases place with
  | none => exact HashMap.get_remove meetingId key
  | some id => exact HashMap.get_insert meetingId key id

theorem setAssignment (h : Simulates ρ clock s t) {meetingId : String}
    (hmeeting : s.meetings.containsKey meetingId = true) (spaceId projectId : Option String) :
    Simulates ρ clock (s.setAssignment meetingId spaceId projectId)
      (t.updateMeeting meetingId fun row =>
        { row with spaceId := spaceId.map ρ, projectId := projectId.map ρ }).2 := by
  refine { h with meetings := ?_, placed := ?_ }
  · refine h.meetings.map_rows (fun e _ row hrow => ?_) fun m row hrow => ?_
    · by_cases hid : e.2.id = meetingId
      · refine (if_pos ?_).trans ?_
        · rw [hrow]
          exact hid
        · rw [hrow]
          simp only [rowOf, InMemory.setAssignment, get_setPlace, if_pos hid]
      · refine (if_neg ?_).trans ?_
        · rw [hrow]
          exact hid
        · rw [hrow]
          simp only [rowOf, InMemory.setAssignment, get_setPlace, if_neg hid]
    · rw [hrow]
      rfl
  · intro key hkey
    have hne : key ≠ meetingId := by
      intro heq
      rw [heq] at hkey
      exact absurd (hmeeting.symm.trans hkey) (by simp)
    simp only [InMemory.setAssignment, get_setPlace, if_neg hne]
    exact h.placed key hkey

/-- An assignment to what exists goes through. -/
theorem updateAssignment (h : Simulates ρ clock s t) {meetingId : String}
    (hmeeting : s.meetings.containsKey meetingId = true) (spaceId projectId : Option String)
    (hspace : (spaceId.map ρ).all t.hasSpace = true)
    (hproject : (projectId.map ρ).all t.hasProject = true) :
    Agrees ρ clock Eq (.ok (), s.setAssignment meetingId spaceId projectId)
      (Registry.inserted () t
        (t.updateAssignment meetingId (spaceId.map ρ) (projectId.map ρ))) := by
  have hupdate : t.updateAssignment meetingId (spaceId.map ρ) (projectId.map ρ) =
      .ok ((), (t.updateMeeting meetingId fun row =>
        { row with spaceId := spaceId.map ρ, projectId := projectId.map ρ }).2) := by
    simp only [Tables.updateAssignment, hspace, hproject, Bool.and_true, Bool.not_true,
      Bool.and_false, Bool.false_eq_true, if_false]
  rw [hupdate]
  exact agrees_ok rfl (h.setAssignment hmeeting spaceId projectId)

theorem selectProjectSpace_eq (h : Simulates ρ clock s t) (id : String) :
    t.selectProjectSpace (ρ id) = (s.projects.get id).map fun p => ρ p.spaceId := by
  unfold Tables.selectProjectSpace
  rcases h.projects.find_cases id with ⟨hget, hfind⟩ | ⟨p, row, hget, hfind, hrow, _⟩
  · rw [hget, hfind]
    rfl
  · rw [hget, hfind, hrow]
    rfl

theorem assignMeeting (h : Simulates ρ clock s t) (ho : Organised t) (meetingId : String)
    (spaceId projectId : Option String) :
    Agrees ρ clock Eq (s.assignMeeting meetingId spaceId projectId)
      (Registry.assignMeeting meetingId (spaceId.map ρ) (projectId.map ρ) t) := by
  unfold InMemory.assignMeeting Registry.assignMeeting
  rw [h.hasMeeting]
  cases hmeeting : s.meetings.containsKey meetingId with
  | false => exact agrees_error h rfl
  | true =>
    cases projectId with
    | some id =>
      simp only [if_true, Option.map_some, Registry.resolveAssignment, h.selectProjectSpace_eq]
      cases hget : s.projects.get id with
      | none => exact agrees_error h rfl
      | some p =>
        have hkey : id = p.id := h.projects.keys _ (HashMap.mem_entries_of_get hget)
        have hrow : p.rename ρ ∈ t.project := by
          rw [h.project_eq]
          exact List.mem_map_of_mem (List.mem_map_of_mem (HashMap.mem_entries_of_get hget))
        have hspace : t.hasSpace (ρ p.spaceId) = true := ho.projectSpace _ hrow
        have hproject : t.hasProject (ρ p.id) = true := by
          rw [h.hasProject, ← hkey]
          exact HashMap.containsKey_of_get hget
        rw [hkey]
        exact h.updateAssignment hmeeting (some p.spaceId) (some p.id) hspace hproject
    | none =>
      cases spaceId with
      | none => exact h.updateAssignment hmeeting none none rfl rfl
      | some id =>
        simp only [if_true, Option.map_some, Option.map_none, Registry.resolveAssignment,
          h.hasSpace]
        cases hspace : s.spaces.containsKey id with
        | false => exact agrees_error h rfl
        | true =>
          exact h.updateAssignment hmeeting (some id) none ((h.hasSpace id).trans hspace) rfl

end Simulates
end Storage
end Panops
