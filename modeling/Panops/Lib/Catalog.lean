import Mathlib.Logic.Function.Basic
import Panops.Lib.Database

/-!
# The catalog of a database

The tables and indexes of a database by name, and the statements that declare
them.  `CREATE … IF NOT EXISTS` leaves alone what is there, so a batch of such
statements can be stopped anywhere and run again.  Names are compared as written.
-/

namespace Panops
namespace Lib
namespace Catalog

open Database Database.Db

inductive Cell where
  | null
  | integer (value : Int)
  /-- A float by its bits. -/
  | real (bits : UInt64)
  | text (value : String)
  | blob (bytes : List UInt8)
deriving DecidableEq

inductive OnDelete where
  | setNull
  | cascade
deriving DecidableEq

inductive ColumnConstraint where
  | primaryKey
  | notNull
  | unique
  | default (value : Cell)
  | references (table column : String) (onDelete : OnDelete)
deriving DecidableEq

structure Column where
  name : String
  type : String
  constraints : List ColumnConstraint
deriving DecidableEq

/-- What a row gets that names no value for the column. -/
def Column.defaultValue (c : Column) : Cell :=
  (c.constraints.findSome? fun k =>
    match k with
    | .default value => some value
    | _ => none).getD .null

def Column.isReference (c : Column) : Bool :=
  c.constraints.any fun k =>
    match k with
    | .references .. => true
    | _ => false

structure TableDef where
  columns : List Column
  /-- The `PRIMARY KEY` clause of the table, if it has one. -/
  primaryKey : List String
deriving DecidableEq

structure Table where
  definition : TableDef
  rows : List (List Cell)
  wide : ∀ row ∈ rows, row.length = definition.columns.length

inductive Order where
  | asc
  | desc
deriving DecidableEq

structure IndexDef where
  on : String
  columns : List (String × Order)
deriving DecidableEq

inductive Object where
  | table (t : Table)
  | index (d : IndexDef)

/-- An object without its rows. -/
inductive ObjectDef where
  | table (d : TableDef)
  | index (d : IndexDef)
deriving DecidableEq

abbrev Objects := String → Option Object

structure Database where
  userVersion : Int
  object : Objects

namespace Table

def empty (d : TableDef) : Table := ⟨d, [], by simp⟩

def columnNames (t : Table) : List String := t.definition.columns.map Column.name

/-- The table with a column more, which the rows it has get the default of. -/
def addColumn (t : Table) (c : Column) : Table where
  definition := { t.definition with columns := t.definition.columns ++ [c] }
  rows := t.rows.map (· ++ [c.defaultValue])
  wide := by
    intro row hrow
    obtain ⟨old, hold, rfl⟩ := List.mem_map.mp hrow
    simp [t.wide old hold]

@[simp] theorem columnNames_addColumn (t : Table) (c : Column) :
    (t.addColumn c).columnNames = t.columnNames ++ [c.name] := by
  simp [columnNames, addColumn]

@[simp] theorem rows_addColumn (t : Table) (c : Column) :
    (t.addColumn c).rows = t.rows.map (· ++ [c.defaultValue]) := rfl

/-- The table with the column, which it may have already. -/
def withColumn (t : Table) (c : Column) : Table :=
  if c.name ∈ t.columnNames then t else t.addColumn c

theorem withColumn_of_mem {t : Table} {c : Column} (h : c.name ∈ t.columnNames) :
    t.withColumn c = t := if_pos h

theorem withColumn_of_not_mem {t : Table} {c : Column} (h : c.name ∉ t.columnNames) :
    t.withColumn c = t.addColumn c := if_neg h

theorem name_mem_withColumn (t : Table) (c : Column) : c.name ∈ (t.withColumn c).columnNames := by
  by_cases h : c.name ∈ t.columnNames
  · rw [withColumn_of_mem h]
    exact h
  · rw [withColumn_of_not_mem h, columnNames_addColumn]
    simp

theorem mem_withColumn {t : Table} {name : String} (h : name ∈ t.columnNames) (c : Column) :
    name ∈ (t.withColumn c).columnNames := by
  by_cases hc : c.name ∈ t.columnNames
  · rw [withColumn_of_mem hc]
    exact h
  · rw [withColumn_of_not_mem hc, columnNames_addColumn]
    exact List.mem_append_left _ h

@[simp] theorem withColumn_withColumn (t : Table) (c : Column) :
    (t.withColumn c).withColumn c = t.withColumn c :=
  withColumn_of_mem (name_mem_withColumn t c)

end Table

def Object.definition : Object → ObjectDef
  | .table t => .table t.definition
  | .index d => .index d

def Object.rows : Object → List (List Cell)
  | .table t => t.rows
  | .index _ => []

def ObjectDef.empty : ObjectDef → Object
  | .table d => .table (.empty d)
  | .index d => .index d

@[simp] theorem ObjectDef.definition_empty (d : ObjectDef) : d.empty.definition = d := by
  cases d <;> rfl

@[simp] theorem ObjectDef.rows_empty (d : ObjectDef) : d.empty.rows = [] := by
  cases d <;> rfl

/-- What is declared, without the rows. -/
def Database.schema (db : Database) : String → Option ObjectDef :=
  fun name => (db.object name).map Object.definition

/-- The rows of a table, none when there is no such table. -/
def Database.rows (db : Database) (name : String) : List (List Cell) :=
  ((db.object name).map Object.rows).getD []

/-! ## Statements -/

/-- `CREATE … IF NOT EXISTS`. -/
inductive Create where
  | table (name : String) (d : TableDef)
  | index (name : String) (d : IndexDef)

namespace Create

def name : Create → String
  | .table name _ => name
  | .index name _ => name

def definition : Create → ObjectDef
  | .table _ d => .table d
  | .index _ d => .index d

def run (db : Database) : Create → Except String Database
  | .table name d =>
    match db.object name with
    | some (.table _) => .ok db
    | some (.index _) => .error s!"there is already an index named {name}"
    | none => .ok { db with object := Function.update db.object name (some (.table (.empty d))) }
  | .index name d =>
    match db.object d.on with
    | some (.table t) =>
      match db.object name with
      | some (.index _) => .ok db
      | some (.table _) => .error s!"there is already a table named {name}"
      | none =>
        match d.columns.find? fun c => !t.columnNames.contains c.1 with
        | some c => .error s!"no such column: {c.1}"
        | none => .ok { db with object := Function.update db.object name (some (.index d)) }
    | _ => .error s!"no such table: {d.on}"

end Create

/-- `ALTER TABLE table ADD COLUMN c`. -/
def addColumn (table : String) (c : Column) (db : Database) : Except String Database :=
  match db.object table with
  | some (.table t) =>
    if c.name ∈ t.columnNames then .error s!"duplicate column name: {c.name}"
    else if .primaryKey ∈ c.constraints then .error "Cannot add a PRIMARY KEY column"
    else if .unique ∈ c.constraints then .error "Cannot add a UNIQUE column"
    else if c.isReference ∧ c.defaultValue ≠ .null then
      .error "Cannot add a REFERENCES column with non-NULL default value"
    else if .notNull ∈ c.constraints ∧ c.defaultValue = .null then
      .error "Cannot add a NOT NULL column with default value NULL"
    else .ok { db with object := Function.update db.object table (some (.table (t.addColumn c))) }
  | _ => .error s!"no such table: {table}"

/-- `PRAGMA table_info(table)`, which of a missing table has no rows. -/
def tableInfo (table : String) (db : Database) : List String :=
  match db.object table with
  | some (.table t) => t.columnNames
  | _ => []

variable {ε : Type}

/-- One statement that changes the catalog. -/
def execute (fault : String → ε) (run : Database → Except String Database) : Db Database ε Unit :=
  statement fault fun db =>
    match run db with
    | .ok db' => .ok ((), db')
    | .error message => .error (fault message)

/-- The statements of a batch one after the other, each on its own. -/
def executeBatch (fault : String → ε) : List Create → Db Database ε Unit
  | [] => pure ()
  | c :: rest => do
    execute fault fun db => c.run db
    executeBatch fault rest

/-! ## Batches -/

/-- What a batch declares. -/
def declares (batch : List Create) (name : String) : Option ObjectDef :=
  (batch.find? fun c => c.name == name).map Create.definition

/-- The objects once a batch has been run. -/
def built (old : Objects) (batch : List Create) : Objects :=
  fun name => (old name).or ((declares batch name).map ObjectDef.empty)

/-- A state that a batch on `old` can be stopped in: every object is there as it
was, or as the batch creates it. -/
def Between (old : Objects) (batch : List Create) (db : Database) : Prop :=
  ∀ name, db.object name = old name ∨ db.object name = built old batch name

theorem declares_append (a b : List Create) (name : String) :
    declares (a ++ b) name = (declares a name).or (declares b name) := by
  unfold declares
  rw [List.find?_append]
  cases a.find? fun c => c.name == name <;> rfl

theorem declares_cons_of_ne {c : Create} {name : String} (h : c.name ≠ name)
    (rest : List Create) : declares (c :: rest) name = declares rest name := by
  simp [declares, h]

theorem built_of_some {old : Objects} {batch : List Create} {name : String} {o : Object}
    (h : old name = some o) : built old batch name = some o := by
  simp [built, h]

theorem built_of_none {old : Objects} {batch : List Create} {name : String} {d : ObjectDef}
    (h : old name = none) (hd : declares batch name = some d) :
    built old batch name = some d.empty := by
  simp [built, h, hd]

theorem built_of_undeclared {old : Objects} {batch : List Create} {name : String}
    (h : declares batch name = none) : built old batch name = old name := by
  simp [built, h]

/-- The statement can be run once the objects `done` are there. -/
def Create.Fits (old : Objects) (batch : List Create) (done : List String) : Create → Prop
  | .table name _ => ∀ d, old name ≠ some (.index d)
  | .index name d =>
    (∀ t, old name ≠ some (.table t)) ∧ (old d.on ≠ none ∨ d.on ∈ done) ∧
      ∃ t, built old batch d.on = some (.table t) ∧ ∀ c ∈ d.columns, c.1 ∈ t.columnNames

/-- Every statement of the batch can be run after the ones before it, and declares
an object of its own. -/
def Fits (old : Objects) (batch : List Create) : List String → List Create → Prop
  | _, [] => True
  | done, c :: rest =>
    declares batch c.name = some c.definition ∧ c.Fits old batch done ∧
      Fits old batch (c.name :: done) rest

variable {old : Objects} {batch : List Create} {done : List String} {db : Database} {F : Prop}

theorem Between.start (h : db.object = old) : Between old batch db :=
  fun name => Or.inl (by rw [h])

/-- Where the old objects and the batch agree there is nothing between them. -/
theorem Between.eq_built (h : Between old batch db) {name : String} (hold : old name ≠ none) :
    db.object name = built old batch name := by
  cases hname : old name with
  | none => exact absurd hname hold
  | some o =>
    rcases h name with hdb | hdb
    · rw [hdb, hname, built_of_some hname]
    · exact hdb

/-- What one statement adds. -/
theorem Between.update (h : Between old batch db) {name : String} {o : Object}
    (ho : built old batch name = some o) :
    Between old batch { db with object := Function.update db.object name (some o) } := by
  intro other
  by_cases hname : other = name
  · subst hname
    right
    simp [ho]
  · simpa [Function.update_of_ne hname] using h other

/-- An object that is there was there before, or the batch has created it. -/
theorem Between.of_some (h : Between old batch db) {name : String} {d : ObjectDef} {o : Object}
    (hdeclares : declares batch name = some d) (ho : db.object name = some o) :
    (old name = some o ∨ o = d.empty) ∧ db.object name = built old batch name := by
  cases hold : old name with
  | none =>
    have hbuilt := built_of_none hold hdeclares
    rcases h name with hdb | hdb
    · rw [ho, hold] at hdb
      cases hdb
    · refine ⟨Or.inr ?_, hdb⟩
      rw [ho, hbuilt] at hdb
      exact Option.some.inj hdb
  | some o' =>
    have hdb := @Between.eq_built _ _ _ h name (by simp [hold])
    refine ⟨Or.inl ?_, hdb⟩
    rw [← ho, hdb, built_of_some hold]

theorem Between.of_none (h : Between old batch db) {name : String} {d : ObjectDef}
    (hdeclares : declares batch name = some d) (hnone : db.object name = none) :
    built old batch name = some d.empty := by
  refine built_of_none ?_ hdeclares
  cases hold : old name with
  | none => rfl
  | some o =>
    have hdb := @Between.eq_built _ _ _ h name (by simp [hold])
    rw [hnone, built_of_some hold] at hdb
    cases hdb

/-- A statement of the batch never fails, and adds its object when it is missing. -/
theorem Create.run_fits (c : Create) (h : Between old batch db)
    (hdone : ∀ name ∈ done, db.object name = built old batch name)
    (hdeclares : declares batch c.name = some c.definition) (hfits : c.Fits old batch done) :
    ∃ db', c.run db = .ok db' ∧ db'.userVersion = db.userVersion ∧ Between old batch db' ∧
      ∀ name ∈ c.name :: done, db'.object name = built old batch name := by
  have hkept : db.object c.name = built old batch c.name →
      ∀ name ∈ c.name :: done, db.object name = built old batch name := by
    intro hc name hname
    rcases List.mem_cons.mp hname with rfl | hname
    · exact hc
    · exact hdone name hname
  have hcreated : db.object c.name = none →
      ∀ name ∈ c.name :: done, Function.update db.object c.name (some c.definition.empty) name =
        built old batch name := by
    intro hnone name hname
    by_cases hc : name = c.name
    · subst hc
      rw [Function.update_self, h.of_none hdeclares hnone]
    · rw [Function.update_of_ne hc]
      rcases List.mem_cons.mp hname with heq | hname
      · exact absurd heq hc
      · exact hdone name hname
  cases c with
  | table name d =>
    simp only [Create.run]
    cases hdb : db.object name with
    | none => exact ⟨_, rfl, rfl, h.update (h.of_none hdeclares hdb), hcreated hdb⟩
    | some o =>
      obtain ⟨hwhich, hbuilt⟩ := h.of_some hdeclares hdb
      cases o with
      | table t => exact ⟨db, rfl, rfl, h, hkept hbuilt⟩
      | index d' =>
        rcases hwhich with hold | hempty
        · exact absurd hold (hfits d')
        · cases hempty
  | index name d =>
    obtain ⟨hkind, hon, t, ht, hcolumns⟩ := hfits
    have htable : db.object d.on = some (.table t) := by
      rcases hon with hold | hon
      · rw [h.eq_built hold, ht]
      · rw [hdone d.on hon, ht]
    have hknown : d.columns.find? (fun c => !t.columnNames.contains c.1) = none := by
      simpa using hcolumns
    simp only [Create.run, htable, hknown]
    cases hdb : db.object name with
    | none => exact ⟨_, rfl, rfl, h.update (h.of_none hdeclares hdb), hcreated hdb⟩
    | some o =>
      obtain ⟨hwhich, hbuilt⟩ := h.of_some hdeclares hdb
      cases o with
      | index d' => exact ⟨db, rfl, rfl, h, hkept hbuilt⟩
      | table t' =>
        rcases hwhich with hold | hempty
        · exact absurd hold (hkind t')
        · cases hempty

theorem wp_execute {fault : String → ε} {run : Database → Except String Database}
    {Q : Except ε Unit → Database → Prop} {db' : Database} (hrun : run db = .ok db')
    (hfault : F → ∀ message, Q (.error (fault message)) db) (h : Q (.ok ()) db') :
    wp F (execute fault run) Q db := by
  refine wp_statement hfault ?_
  rw [hrun]
  exact h

/-- A batch that is stopped leaves a state between the old objects and the new
ones; one that runs to its end has built all of them. -/
theorem wp_executeBatch {fault : String → ε} (rest : List Create)
    {Q : Except ε Unit → Database → Prop} (h : Between old batch db)
    (hdone : ∀ name ∈ done, db.object name = built old batch name)
    (hfits : Fits old batch done rest)
    (hfault : ∀ db', db'.userVersion = db.userVersion → Between old batch db' →
      F → ∀ message, Q (.error (fault message)) db')
    (hok : ∀ db', db'.userVersion = db.userVersion → Between old batch db' →
      (∀ name ∈ rest.map Create.name ++ done, db'.object name = built old batch name) →
        Q (.ok ()) db') :
    wp F (executeBatch fault rest) Q db := by
  induction rest generalizing db done with
  | nil => exact wp_pure (hok db rfl h hdone)
  | cons c rest ih =>
    obtain ⟨hdeclares, hc, hrest⟩ := hfits
    obtain ⟨db', hrun, hversion, hbetween, hdone'⟩ := c.run_fits h hdone hdeclares hc
    refine wp_bind (wp_execute hrun (hfault db rfl h) ?_)
    refine ih hbetween hdone' hrest ?_ ?_
    · intro db'' hversion' hbetween'
      exact hfault db'' (hversion'.trans hversion) hbetween'
    · intro db'' hversion' hbetween' hall
      refine hok db'' (hversion'.trans hversion) hbetween' ?_
      intro name hname
      refine hall name ?_
      simp only [List.map_cons, List.cons_append, List.mem_cons, List.mem_append] at hname ⊢
      rcases hname with rfl | hname | hname
      · exact Or.inr (Or.inl rfl)
      · exact Or.inl hname
      · exact Or.inr (Or.inr hname)

/-- Between a batch's start and its end, an object that the batch does not declare
is as it was. -/
theorem Between.eq_built_of_done (h : Between old batch db)
    (hdone : ∀ name ∈ batch.map Create.name, db.object name = built old batch name) :
    db.object = built old batch := by
  funext name
  by_cases hname : name ∈ batch.map Create.name
  · exact hdone name hname
  · rcases h name with hdb | hdb
    · rw [hdb, built_of_undeclared]
      simp only [declares, Option.map_eq_none_iff, List.find?_eq_none, beq_iff_eq]
      intro c hc heq
      exact hname (heq ▸ List.mem_map_of_mem hc)
    · exact hdb

/-- Every table takes the column. -/
def Column.Addable (c : Column) : Prop :=
  .primaryKey ∉ c.constraints ∧ .unique ∉ c.constraints ∧ .notNull ∉ c.constraints ∧
    c.defaultValue = .null

instance (c : Column) : Decidable c.Addable :=
  inferInstanceAs (Decidable (_ ∧ _ ∧ _ ∧ _))

theorem addColumn_eq_ok {table : String} {c : Column} {t : Table}
    (ht : db.object table = some (.table t)) (hc : c.name ∉ t.columnNames) (hadd : c.Addable) :
    addColumn table c db =
      .ok { db with object := Function.update db.object table (some (.table (t.addColumn c))) } := by
  obtain ⟨hprimary, hunique, hnull, hdefault⟩ := hadd
  simp [addColumn, ht, hc, hprimary, hunique, hnull, hdefault]

theorem tableInfo_of_table {table : String} {t : Table}
    (ht : db.object table = some (.table t)) : tableInfo table db = t.columnNames := by
  simp [tableInfo, ht]

end Catalog
end Lib
end Panops
