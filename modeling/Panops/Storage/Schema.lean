import Panops.Lib.Catalog
import Panops.Lib.Recovery

/-!
# Opening the registry

`RusqliteStorage::new`: the schema of a fresh file, and the migration of a file
of version 1.  No transaction spans the statements and the version is stamped
last, so a run that is interrupted leaves a file that the next run finds half
done.
-/

namespace Panops
namespace Storage
namespace Schema

open Lib.Catalog Lib.Database Lib.Database.Db

/-! ## The statements -/

def EXPECTED_SCHEMA_VERSION : Nat := 2

def key (name : String) : Column := ⟨name, "TEXT", [.primaryKey]⟩

def required (name : String) : Column := ⟨name, "TEXT", [.notNull]⟩

def position : Column := ⟨"position", "INTEGER", [.notNull, .default (.integer 0)]⟩

def ownedBy (name table : String) : Column :=
  ⟨name, "TEXT", [.notNull, .references table "id" .cascade]⟩

def spaceId : Column := ⟨"space_id", "TEXT", [.references "space" "id" .setNull]⟩

def projectId : Column := ⟨"project_id", "TEXT", [.references "project" "id" .setNull]⟩

/-- The columns of `meeting` in version 1. -/
def meetingColumns : List Column :=
  [⟨"id", "TEXT", [.primaryKey, .notNull]⟩,
   ⟨"title", "TEXT", [.notNull, .default (.text "")]⟩,
   required "started_at",
   ⟨"ended_at", "TEXT", []⟩,
   ⟨"duration_ms", "INTEGER", []⟩,
   ⟨"language", "TEXT", [.notNull, .default (.text "auto")]⟩,
   ⟨"dir_path", "TEXT", [.notNull, .unique]⟩]

def note : TableDef where
  columns :=
    [⟨"id", "TEXT", [.primaryKey, .notNull]⟩, ownedBy "meeting_id" "meeting", required "dialect",
     required "content_md", required "primary_path", required "created_at"]
  primaryKey := []

def indexes : List Create :=
  [.index "idx_meeting_started_at" ⟨"meeting", [("started_at", .desc)]⟩,
   .table "note" note,
   .index "idx_note_meeting_id" ⟨"note", [("meeting_id", .asc)]⟩]

/-- The statements that made a file of version 1. -/
def DDL_V1 : List Create := .table "meeting" ⟨meetingColumns, []⟩ :: indexes

def MIGRATE_V1_TO_V2 : List Create :=
  [.table "space" ⟨[key "id", required "name", position, required "created_at"], []⟩,
   .table "project"
     ⟨[key "id", ownedBy "space_id" "space", required "name", position, required "created_at"], []⟩,
   .table "tag" ⟨[key "id", ⟨"name", "TEXT", [.notNull, .unique]⟩, required "created_at"], []⟩,
   .table "meeting_tag"
     ⟨[ownedBy "meeting_id" "meeting", ownedBy "tag_id" "tag"], ["meeting_id", "tag_id"]⟩]

def DDL : List Create :=
  .table "meeting" ⟨meetingColumns ++ [spaceId, projectId], []⟩ :: indexes ++ MIGRATE_V1_TO_V2

/-! ## `RusqliteStorage::new` -/

/-- The errors of opening a registry. -/
inductive OpenError where
  | schemaMismatch (actual expected : Nat)
  | sql (message : String)
deriving DecidableEq

/-- `PRAGMA user_version`, read as a `u32`. -/
def userVersion : Db Database OpenError Nat :=
  statement .sql fun db =>
    if 0 ≤ db.userVersion ∧ db.userVersion < 4294967296 then .ok (db.userVersion.toNat, db)
    else .error (.sql s!"Integer {db.userVersion} out of range at index 0")

/-- `PRAGMA user_version = EXPECTED_SCHEMA_VERSION`. -/
def stamp : Db Database OpenError Unit :=
  execute .sql fun db => .ok { db with userVersion := EXPECTED_SCHEMA_VERSION }

def columnExists (table column : String) : Db Database OpenError Bool :=
  query .sql fun db => (tableInfo table db).any (· == column)

/-- `ALTER TABLE table ADD COLUMN`, unless the column exists. -/
def addMissing (table : String) (c : Column) : Db Database OpenError Unit := do
  if !(← columnExists table c.name) then
    execute .sql (addColumn table c)

def migrateV1ToV2 : Db Database OpenError Unit := do
  executeBatch .sql MIGRATE_V1_TO_V2
  addMissing "meeting" spaceId
  addMissing "meeting" projectId

/-- `RusqliteStorage::new` on the file's content.  Opening the file and
`PRAGMA foreign_keys = ON` can fail and do not change it. -/
def new : Db Database OpenError Unit := do
  query .sql fun _ => ()
  query .sql fun _ => ()
  let actual ← userVersion
  if actual = 0 then do
    executeBatch .sql DDL
    stamp
  else if actual = 1 then do
    migrateV1ToV2
    stamp
  else if actual ≠ EXPECTED_SCHEMA_VERSION then
    throw (.schemaMismatch actual EXPECTED_SCHEMA_VERSION)
  else
    pure ()

/-! ## Rules for the statements -/

variable {F : Prop} {Q : Except OpenError Unit → Database → Prop} {db : Database}

theorem wp_userVersion {v : Nat} {Q : Except OpenError Nat → Database → Prop}
    (hversion : db.userVersion = v) (hv : v < 4294967296)
    (hfault : F → ∀ message, Q (.error (.sql message)) db) (h : Q (.ok v) db) :
    wp F userVersion Q db := by
  refine wp_statement hfault ?_
  have hrange : 0 ≤ db.userVersion ∧ db.userVersion < 4294967296 := by omega
  rw [if_pos hrange, hversion]
  exact h

theorem wp_addMissing {table : String} {c : Column} {t : Table} (hadd : c.Addable)
    (ht : db.object table = some (.table t))
    (hfault : F → ∀ message, Q (.error (.sql message)) db)
    (h : Q (.ok ()) { db with
      object := Function.update db.object table (some (.table (t.withColumn c))) }) :
    wp F (addMissing table c) Q db := by
  refine wp_bind (wp_query hfault ?_)
  rw [tableInfo_of_table ht]
  by_cases hc : c.name ∈ t.columnNames
  · have hexists : t.columnNames.any (· == c.name) = true := by simpa using hc
    have hsame : Function.update db.object table (some (.table t)) = db.object := by
      rw [← ht, Function.update_eq_self]
    rw [Table.withColumn_of_mem hc, hsame] at h
    simp only [hexists]
    exact wp_pure h
  · have hmissing : t.columnNames.any (· == c.name) = false := by
      simp only [List.any_eq_false, beq_iff_eq]
      intro name hname heq
      exact hc (heq ▸ hname)
    rw [Table.withColumn_of_not_mem hc] at h
    simp only [hmissing]
    exact wp_execute (addColumn_eq_ok ht hc hadd) hfault h

/-- Before the version is known nothing has been changed. -/
theorem wp_new {v : Nat} (hversion : db.userVersion = v) (hv : v < 4294967296)
    (hfault : F → ∀ message, Q (.error (.sql message)) db)
    (h : wp F (if v = 0 then do
          executeBatch .sql DDL
          stamp
        else if v = 1 then do
          migrateV1ToV2
          stamp
        else if v ≠ EXPECTED_SCHEMA_VERSION then
          throw (.schemaMismatch v EXPECTED_SCHEMA_VERSION)
        else
          pure ()) Q db) : wp F new Q db :=
  wp_bind (wp_query hfault (wp_bind (wp_query hfault
    (wp_bind (wp_userVersion hversion hv hfault h)))))

/-- Opening a file of the current version changes nothing. -/
theorem wp_new_current (h : db.userVersion = EXPECTED_SCHEMA_VERSION) :
    wp F new (fun r db' => db' = db ∧ (F ∨ ∃ a, r = .ok a)) db := by
  refine wp_new (v := 2) h (by omega) (fun hF _ => ⟨rfl, Or.inl hF⟩) ?_
  exact wp_pure ⟨rfl, Or.inr ⟨(), rfl⟩⟩

/-! ## A fresh file -/

def noObjects : Objects := fun _ => none

def fresh : Database := ⟨0, noObjects⟩

/-- A fresh file with some of its objects, not stamped yet. -/
def Initialising (db : Database) : Prop := db.userVersion = 0 ∧ Between noObjects DDL db

def initialised : Database := ⟨EXPECTED_SCHEMA_VERSION, built noObjects DDL⟩

theorem fits_ddl : Fits noObjects DDL [] DDL := by
  have hon : ∀ (columns : List Column) (d : IndexDef) (done : List String),
      declares DDL d.on = some (.table ⟨columns, []⟩) → d.on ∈ done →
      (∀ c ∈ d.columns, c.1 ∈ columns.map Column.name) → ∀ name,
        (Create.index name d).Fits noObjects DDL done := by
    intro columns d done hdeclares hdone hcolumns name
    exact ⟨fun t => by simp [noObjects], Or.inr hdone, _, built_of_none rfl hdeclares, hcolumns⟩
  have htable : ∀ name d done, (Create.table name d).Fits noObjects DDL done := by
    intro name d done d'
    simp [noObjects]
  exact ⟨rfl, htable _ _ _, rfl, hon (meetingColumns ++ [spaceId, projectId]) _ _ rfl (by decide) (by decide) _,
    rfl, htable _ _ _, rfl, hon note.columns _ _ rfl (by decide) (by decide) _, rfl, htable _ _ _,
    rfl, htable _ _ _, rfl, htable _ _ _, rfl, htable _ _ _, trivial⟩

theorem recovers_fresh : Recovers new Initialising (· = initialised) where
  resumes := by
    intro F db hdb
    obtain ⟨hversion, hbetween⟩ := hdb
    have hfault : ∀ db', Initialising db' → F → ∀ message,
        Progress F Initialising (· = initialised)
          (.error (OpenError.sql message) : Except OpenError Unit) db' :=
      fun db' h hF message => Progress.of_fault hF (Or.inl h)
    refine wp_new (v := 0) hversion (by omega) (hfault db ⟨hversion, hbetween⟩) ?_
    refine wp_bind (wp_executeBatch DDL hbetween (by simp) fits_ddl ?_ ?_)
    · intro db' hversion' hbetween'
      exact hfault db' ⟨hversion'.trans hversion, hbetween'⟩
    · intro db' hversion' hbetween' hdone
      refine wp_execute rfl (hfault db' ⟨hversion'.trans hversion, hbetween'⟩) (Progress.of_ok ?_)
      have hbuilt := hbetween'.eq_built_of_done (by simpa using hdone)
      simp only [initialised, hbuilt]
  rests := by
    rintro F db rfl
    exact wp_new_current rfl

/-! ## A file of version 1 -/

/-- A file that the statements of version 1 made, with whatever rows. -/
def Version1 (db : Database) : Prop := db.userVersion = 1 ∧ ∀ name, db.schema name = declares DDL_V1 name

/-- The schema of version 2, complete and stamped. -/
def Version2 (db : Database) : Prop :=
  db.userVersion = EXPECTED_SCHEMA_VERSION ∧ ∀ name, db.schema name = declares DDL name

def withMeeting (db : Database) (t : Table) : Objects :=
  Function.update db.object "meeting" (some (.table t))

/-- The columns that the table `meeting` may have got so far. -/
def Stage (t₀ t : Table) : Prop :=
  t = t₀ ∨ t = t₀.withColumn spaceId ∨ t = (t₀.withColumn spaceId).withColumn projectId

/-- A file of version 1 on its way, not stamped yet. -/
def Migrating (db₀ : Database) (t₀ : Table) (db : Database) : Prop :=
  db.userVersion = 1 ∧ ∃ t, Stage t₀ t ∧ Between (withMeeting db₀ t) MIGRATE_V1_TO_V2 db

/-- The tables of version 2 are there, `meeting` has got as far as `t`. -/
def tablesAdded (db₀ : Database) (version : Int) (t : Table) : Database :=
  ⟨version, built (withMeeting db₀ t) MIGRATE_V1_TO_V2⟩

def migrated (db₀ : Database) (t₀ : Table) : Database :=
  tablesAdded db₀ EXPECTED_SCHEMA_VERSION ((t₀.withColumn spaceId).withColumn projectId)

theorem Stage.space {t₀ t : Table} (h : Stage t₀ t) : Stage t₀ (t.withColumn spaceId) := by
  rcases h with rfl | rfl | rfl
  · exact Or.inr (Or.inl rfl)
  · rw [Table.withColumn_withColumn]
    exact Or.inr (Or.inl rfl)
  · rw [Table.withColumn_of_mem (Table.mem_withColumn (Table.name_mem_withColumn t₀ spaceId) _)]
    exact Or.inr (Or.inr rfl)

theorem Stage.project {t₀ t : Table} (h : Stage t₀ t) :
    (t.withColumn spaceId).withColumn projectId = (t₀.withColumn spaceId).withColumn projectId := by
  rcases h with rfl | rfl | rfl
  · rfl
  · rw [Table.withColumn_withColumn]
  · rw [Table.withColumn_of_mem (Table.mem_withColumn (Table.name_mem_withColumn t₀ spaceId) _),
      Table.withColumn_withColumn]

theorem object_tablesAdded (db₀ : Database) (version : Int) (t : Table) :
    (tablesAdded db₀ version t).object "meeting" = some (.table t) := by
  have hmeeting : withMeeting db₀ t "meeting" = some (.table t) := Function.update_self ..
  show built (withMeeting db₀ t) MIGRATE_V1_TO_V2 "meeting" = _
  exact built_of_some hmeeting

theorem update_tablesAdded (db₀ : Database) (version : Int) (t t' : Table) :
    { tablesAdded db₀ version t with
      object := Function.update (tablesAdded db₀ version t).object "meeting" (some (.table t')) } =
    tablesAdded db₀ version t' := by
  have hobject : Function.update (tablesAdded db₀ version t).object "meeting" (some (.table t')) =
      (tablesAdded db₀ version t').object := by
    funext name
    by_cases hname : name = "meeting"
    · subst hname
      rw [Function.update_self, object_tablesAdded]
    · simp [tablesAdded, built, withMeeting, Function.update_of_ne hname]
  simp only [hobject]
  rfl

theorem between_tablesAdded (db₀ : Database) (version : Int) (t : Table) :
    Between (withMeeting db₀ t) MIGRATE_V1_TO_V2 (tablesAdded db₀ version t) :=
  fun _ => Or.inr rfl

theorem spaceId_addable : spaceId.Addable := by decide

theorem projectId_addable : projectId.Addable := by decide

/-- The tables that the migration creates are not indexes of version 1. -/
theorem fits_migrate {db₀ : Database} (h : Version1 db₀) (t : Table) :
    Fits (withMeeting db₀ t) MIGRATE_V1_TO_V2 [] MIGRATE_V1_TO_V2 := by
  have htable : ∀ name d done, name ≠ "meeting" → declares DDL_V1 name = none →
      (Create.table name d).Fits (withMeeting db₀ t) MIGRATE_V1_TO_V2 done := by
    intro name d done hname hnone d' hindex
    have hschema := h.2 name
    rw [withMeeting, Function.update_of_ne hname] at hindex
    rw [Database.schema, hindex, hnone] at hschema
    cases hschema
  exact ⟨rfl, htable _ _ _ (by decide) rfl, rfl, htable _ _ _ (by decide) rfl,
    rfl, htable _ _ _ (by decide) rfl, rfl, htable _ _ _ (by decide) rfl, trivial⟩

theorem recovers_v1 {db₀ : Database} (h : Version1 db₀) (t₀ : Table) :
    Recovers new (Migrating db₀ t₀) (· = migrated db₀ t₀) where
  resumes := by
    intro F db hdb
    have hfault : ∀ db', Migrating db₀ t₀ db' → F → ∀ message,
        Progress F (Migrating db₀ t₀) (· = migrated db₀ t₀)
          (.error (OpenError.sql message) : Except OpenError Unit) db' :=
      fun db' h hF message => Progress.of_fault hF (Or.inl h)
    have hadded : ∀ t, Stage t₀ t → Migrating db₀ t₀ (tablesAdded db₀ 1 t) :=
      fun t ht => ⟨rfl, t, ht, between_tablesAdded db₀ 1 t⟩
    obtain ⟨hversion, t, ht, hbetween⟩ := hdb
    refine wp_new (v := 1) hversion (by omega) (hfault db ⟨hversion, t, ht, hbetween⟩) ?_
    refine wp_bind (wp_bind (wp_executeBatch _ hbetween (by simp) (fits_migrate h t) ?_ ?_))
    · intro db' hversion' hbetween'
      exact hfault db' ⟨hversion'.trans hversion, t, ht, hbetween'⟩
    · intro db' hversion' hbetween' hdone
      -- The batch has run, so the state is known but for the columns of `meeting`.
      have hdb' : db' = tablesAdded db₀ 1 t := by
        have hbuilt := hbetween'.eq_built_of_done (by simpa using hdone)
        cases db'
        simp only at hbuilt hversion'
        rw [tablesAdded, ← hbuilt, hversion', hversion]
      rw [hdb']
      refine wp_bind (wp_addMissing spaceId_addable (object_tablesAdded db₀ 1 t)
        (hfault _ (hadded t ht)) ?_)
      rw [update_tablesAdded]
      refine wp_addMissing projectId_addable (object_tablesAdded db₀ 1 _)
        (hfault _ (hadded _ ht.space)) ?_
      rw [update_tablesAdded, ht.project]
      exact wp_execute rfl (hfault _ (hadded _ (Or.inr (Or.inr rfl)))) (Progress.of_ok rfl)
  rests := by
    rintro F db rfl
    exact wp_new_current rfl

/-! ## What an opened file holds -/

/-- The schema of version 2 with the old rows, those of `meeting` in no space and
no project. -/
def Upgraded (db₀ db : Database) : Prop :=
  Version2 db ∧ db.rows "meeting" = (db₀.rows "meeting").map (· ++ [.null, .null]) ∧
    ∀ table, table ≠ "meeting" → db.rows table = db₀.rows table

theorem rows_built (old : Objects) (batch : List Create) (version version' : Int) (name : String) :
    (⟨version, built old batch⟩ : Database).rows name = (⟨version', old⟩ : Database).rows name := by
  simp only [Database.rows, built]
  cases old name with
  | some o => rfl
  | none => cases declares batch name <;> simp

theorem schema_built (old : Objects) (batch : List Create) (version : Int) (name : String) :
    (⟨version, built old batch⟩ : Database).schema name =
      ((old name).map Object.definition).or (declares batch name) := by
  simp only [Database.schema, built]
  cases old name with
  | some o => rfl
  | none => cases declares batch name <;> simp

theorem upgraded_initialised : Upgraded fresh initialised := by
  refine ⟨⟨rfl, fun name => ?_⟩, ?_, fun table _ => ?_⟩
  · exact schema_built noObjects DDL _ name
  · rw [initialised, rows_built _ _ _ 0]
    rfl
  · exact rows_built noObjects DDL _ 0 table

theorem Version1.meeting {db₀ : Database} (h : Version1 db₀) :
    ∃ t, db₀.object "meeting" = some (.table t) ∧ t.definition = ⟨meetingColumns, []⟩ := by
  have hschema : (db₀.object "meeting").map Object.definition =
      some (.table ⟨meetingColumns, []⟩) := h.2 "meeting"
  cases hmeeting : db₀.object "meeting" with
  | none =>
    rw [hmeeting] at hschema
    cases hschema
  | some o =>
    rw [hmeeting] at hschema
    cases o with
    | index d => cases hschema
    | table t => exact ⟨t, rfl, ObjectDef.table.inj (Option.some.inj hschema)⟩

theorem upgraded_migrated {db₀ : Database} (h : Version1 db₀) {t₀ : Table}
    (ht₀ : db₀.object "meeting" = some (.table t₀))
    (hcolumns : t₀.definition = ⟨meetingColumns, []⟩) : Upgraded db₀ (migrated db₀ t₀) := by
  have hmeeting : (t₀.withColumn spaceId).withColumn projectId =
      (t₀.addColumn spaceId).addColumn projectId := by
    have hspace : spaceId.name ∉ t₀.columnNames := by
      rw [Table.columnNames, hcolumns]
      decide
    have hproject : projectId.name ∉ (t₀.addColumn spaceId).columnNames := by
      rw [Table.columnNames_addColumn, Table.columnNames, hcolumns]
      decide
    rw [Table.withColumn_of_not_mem hspace, Table.withColumn_of_not_mem hproject]
  unfold migrated tablesAdded
  rw [hmeeting]
  refine ⟨⟨rfl, fun name => ?_⟩, ?_, fun table htable => ?_⟩
  · rw [schema_built]
    by_cases hname : name = "meeting"
    · subst hname
      simp [withMeeting, Object.definition, Table.addColumn, hcolumns, declares, DDL, Create.name,
        Create.definition]
    · have hold : (db₀.object name).map Object.definition = declares indexes name := by
        rw [← declares_cons_of_ne (c := .table "meeting" ⟨meetingColumns, []⟩) (Ne.symm hname)]
        exact h.2 name
      rw [withMeeting, Function.update_of_ne hname, hold, ← declares_append, DDL,
        List.cons_append, declares_cons_of_ne (Ne.symm hname)]
  · rw [rows_built _ _ _ 0]
    simp [Database.rows, withMeeting, ht₀, Object.rows, Column.defaultValue, spaceId, projectId,
      Function.comp_def]
  · rw [rows_built _ _ _ 0]
    simp [Database.rows, withMeeting, Function.update_of_ne htable]

theorem new_recovers {db₀ : Database} (h : db₀ = fresh ∨ Version1 db₀) :
    ∃ Pending Done, Recovers new Pending Done ∧ Pending db₀ ∧ ∀ db, Done db → Upgraded db₀ db := by
  rcases h with rfl | hversion1
  · refine ⟨_, _, recovers_fresh, ⟨rfl, Between.start rfl⟩, ?_⟩
    rintro db rfl
    exact upgraded_initialised
  · obtain ⟨t₀, ht₀, hcolumns⟩ := hversion1.meeting
    have hsame : db₀.object = withMeeting db₀ t₀ := by rw [withMeeting, ← ht₀, Function.update_eq_self]
    refine ⟨_, _, recovers_v1 hversion1 t₀, ⟨hversion1.1, t₀, Or.inl rfl, Between.start hsame⟩, ?_⟩
    rintro db rfl
    exact upgraded_migrated hversion1 ht₀ hcolumns

/-- Whatever interrupted the earlier runs, a run that is not interrupted completes,
every run that completes leaves the schema of version 2 with the old rows, and
every run after it changes nothing. -/
theorem new_survives_crashes (db₀ : Database) (h : db₀ = fresh ∨ Version1 db₀)
    (interrupted : List (List (Option String))) :
    (new ⟨rerun new db₀ interrupted, []⟩).1 = .ok () ∧
    ∀ faults, (new ⟨rerun new db₀ interrupted, faults⟩).1 = .ok () →
      Upgraded db₀ (new ⟨rerun new db₀ interrupted, faults⟩).2.tables ∧
      ∀ further, rerun new (new ⟨rerun new db₀ interrupted, faults⟩).2.tables further =
        (new ⟨rerun new db₀ interrupted, faults⟩).2.tables := by
  obtain ⟨Pending, Done, hrecovers, hpending, hupgraded⟩ := new_recovers h
  have hleft := hrecovers.rerun (Or.inl hpending) interrupted
  refine ⟨?_, fun faults hok => ?_⟩
  · obtain ⟨⟨⟩, hok⟩ := hrecovers.completes hleft
    exact hok
  · have hdone := hrecovers.done_of_ok hleft hok
    exact ⟨hupgraded _ hdone, hrecovers.rerun_done hdone⟩

/-- A file of version 1 with one meeting and its note. -/
def oldFile : Database where
  userVersion := 1
  object := fun name =>
    if name = "meeting" then
      some (.table ⟨⟨meetingColumns, []⟩,
        [[.text "m_old", .text "Old Meeting", .text "2026-05-05T10:00:00+00:00", .null, .null,
          .text "en", .text "/tmp/old"]], by decide⟩)
    else if name = "note" then
      some (.table ⟨note,
        [[.text "n_old", .text "m_old", .text "basic", .text "# old", .text "/tmp/old/notes.md",
          .text "2026-05-05T10:01:00+00:00"]], by decide⟩)
    else (declares indexes name).map ObjectDef.empty

theorem version1_oldFile : Version1 oldFile := by
  refine ⟨rfl, fun name => ?_⟩
  by_cases hmeeting : name = "meeting"
  · subst hmeeting
    rfl
  by_cases hnote : name = "note"
  · subst hnote
    rfl
  rw [DDL_V1, declares_cons_of_ne (Ne.symm hmeeting)]
  simp only [Database.schema, oldFile, hmeeting, hnote, if_false]
  cases declares indexes name <;> simp

/-- Two runs are cut, one between the new tables and one between the new columns;
the third completes. -/
theorem new_survives_crashes_oldFile :
    let cut := [[none, none, none, none, none, some "killed"],
      List.replicate 9 none ++ [some "killed"]]
    ((rerun new oldFile (cut.take 1)).object "project").isSome ∧
      ((rerun new oldFile (cut.take 1)).object "tag").isNone ∧
      (new ⟨rerun new oldFile cut, []⟩).1 = .ok () ∧
      Upgraded oldFile (new ⟨rerun new oldFile cut, []⟩).2.tables := by
  have hrun := new_survives_crashes oldFile (Or.inr version1_oldFile)
    [[none, none, none, none, none, some "killed"], List.replicate 9 none ++ [some "killed"]]
  exact ⟨rfl, rfl, hrun.1, (hrun.2 [] hrun.1).1⟩

end Schema
end Storage
end Panops
