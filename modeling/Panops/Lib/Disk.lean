import Mathlib.Data.Finset.Dedup
import Panops.Lib.Copies

/-!
# A disk

Files and directories under their paths, and the operations a program makes on
them one after the other.  An operation that fails ends the program and leaves
what the earlier ones did.
-/

namespace Panops
namespace Lib

/-- The normal components of an absolute path. -/
abbrev Path := List String

namespace Path

/-- `Path::file_name`. -/
def fileName (p : Path) : Option String := p.getLast?

/-- The part of a file name after its last dot; a name that only starts with a
dot has none. -/
def extensionOfName (name : List Char) : Option (List Char) :=
  let back := name.reverse
  match back.dropWhile (· ≠ '.') with
  | [] => none
  | [_] => none
  | _ => some (back.takeWhile (· ≠ '.')).reverse

/-- `Path::extension`. -/
def extension (p : Path) : Option String :=
  p.fileName.bind fun name => (extensionOfName name.toList).map String.ofList

def join (p : Path) (component : String) : Path := p ++ [component]

@[simp] theorem join_ne_nil (p : Path) (component : String) : p.join component ≠ [] := by
  simp [join]

@[simp] theorem dropLast_join (p : Path) (component : String) :
    (p.join component).dropLast = p := by
  simp [join]

@[simp] theorem getLast?_join (p : Path) (component : String) :
    (p.join component).getLast? = some component := by
  simp [join]

@[simp] theorem join_right_inj {p : Path} {a b : String} : p.join a = p.join b ↔ a = b := by
  simp [join]

/-- `Path::display`. -/
def display (p : Path) : String := "/" ++ String.intercalate "/" p

end Path

inductive Kind where
  | file
  | dir
deriving DecidableEq

inductive Node (β : Type) where
  | file (bytes : β)
  | dir

def Node.kind {β : Type} : Node β → Kind
  | file _ => .file
  | dir => .dir

/-- What is on a disk, the latest change first. -/
abbrev Disk (β : Type) := List (Path × Node β)

inductive IoError where
  | notFound
  | notADirectory
  | isADirectory
  | invalidInput
deriving DecidableEq

namespace Disk

variable {β : Type}

def node (d : Disk β) (p : Path) : Option (Node β) :=
  if p = [] then some .dir else d.lookup p

def kind (d : Disk β) (p : Path) : Option Kind := (d.node p).map Node.kind

def read (d : Disk β) (p : Path) : Option β :=
  match d.node p with
  | some (.file bytes) => some bytes
  | _ => none

theorem node_cons {p : Path} (hp : p ≠ []) (n : Node β) (d : Disk β) (q : Path) :
    node ((p, n) :: d) q = if q = p then some n else d.node q := by
  unfold node
  by_cases hq : q = []
  · subst hq
    rw [if_pos rfl, if_pos rfl, if_neg (Ne.symm hp)]
  · rw [if_neg hq, if_neg hq, List.lookup_cons]
    by_cases heq : q = p
    · subst heq
      simp
    · simp [heq, beq_false_of_ne heq]

theorem kind_eq_file_iff {d : Disk β} {p : Path} :
    d.kind p = some .file ↔ ∃ bytes, d.read p = some bytes := by
  unfold kind read
  cases d.node p with
  | none => simp
  | some n => cases n <;> simp [Node.kind]

theorem read_eq_none_of_kind {d : Disk β} {p : Path} (h : d.kind p ≠ some .file) :
    d.read p = none := by
  cases hread : d.read p with
  | none => rfl
  | some bytes => exact absurd (kind_eq_file_iff.mpr ⟨bytes, hread⟩) h

theorem read_congr {d d' : Disk β} {p : Path} (h : d'.node p = d.node p) :
    d'.read p = d.read p := by
  rw [read, read, h]

theorem kind_congr {d d' : Disk β} {p : Path} (h : d'.node p = d.node p) :
    d'.kind p = d.kind p := by
  rw [kind, kind, h]

/-- The bytes of a file, and nothing elsewhere. -/
def contents [EmptyCollection β] (d : Disk β) (p : Path) : β := (d.read p).getD ∅

theorem contents_of_node [EmptyCollection β] {d : Disk β} {p : Path} {bytes : β}
    (h : d.node p = some (.file bytes)) : d.contents p = bytes := by
  rw [contents, read, h]
  rfl

theorem read_eq_some_contents [EmptyCollection β] {d : Disk β} {p : Path}
    (h : d.kind p = some .file) : d.read p = some (d.contents p) := by
  obtain ⟨bytes, hread⟩ := kind_eq_file_iff.mp h
  rw [contents, hread, Option.getD_some]

theorem ne_nil_of_kind_ne_dir {d : Disk β} {p : Path} (h : d.kind p ≠ some .dir) : p ≠ [] := by
  intro hnil
  exact h (by rw [kind, node, if_pos hnil]; rfl)

/-! ## Listing a directory -/

/-- The names of the files right inside a directory. -/
def fileNames (d : Disk β) (dir : Path) : Finset String :=
  (d.filterMap fun entry =>
    if entry.1 = dir.join (entry.1.getLast?.getD "") ∧ d.kind entry.1 = some .file then
      entry.1.getLast?
    else none).toFinset

theorem mem_of_kind {d : Disk β} {p : Path} (hp : p ≠ []) {k : Kind} (h : d.kind p = some k) :
    ∃ n, (p, n) ∈ d := by
  rw [kind, node, if_neg hp] at h
  obtain ⟨n, hn, _⟩ := Option.map_eq_some_iff.mp h
  obtain ⟨l, r, hsplit, _⟩ := List.lookup_eq_some_iff.mp hn
  exact ⟨n, hsplit ▸ List.mem_append_right l List.mem_cons_self⟩

theorem mem_fileNames {d : Disk β} {dir : Path} {name : String} :
    name ∈ d.fileNames dir ↔ d.kind (dir.join name) = some .file := by
  unfold fileNames
  rw [List.mem_toFinset, List.mem_filterMap]
  constructor
  · intro h
    obtain ⟨entry, _, hname⟩ := h
    obtain ⟨⟨hjoin, hkind⟩, hlast⟩ := Option.ite_none_right_eq_some.mp hname
    rw [hlast, Option.getD_some] at hjoin
    rwa [← hjoin]
  · intro h
    obtain ⟨n, hn⟩ := mem_of_kind (Path.join_ne_nil dir name) h
    exact ⟨_, hn, by simp [h]⟩

/-! ## Operations -/

/-- The loop of `create_dir_all`, below the directory `done`. -/
def createDirs (done : Path) : List String → Disk β → Except IoError Unit × Disk β
  | [], d => (.ok (), d)
  | name :: rest, d =>
    match d.kind (done.join name) with
    | some .dir => createDirs (done.join name) rest d
    | some .file => (.error .notADirectory, d)
    | none => createDirs (done.join name) rest ((done.join name, .dir) :: d)

def createDirAll (p : Path) (d : Disk β) : Except IoError Unit × Disk β := createDirs [] p d

/-- Whether a file can be written at the path. -/
def create (d : Disk β) (p : Path) : Except IoError Unit :=
  match d.kind p.dropLast with
  | none => .error .notFound
  | some .file => .error .notADirectory
  | some .dir => if d.kind p = some .dir then .error .isADirectory else .ok ()

def write (p : Path) (bytes : β) (d : Disk β) : Except IoError Unit × Disk β :=
  match d.create p with
  | .error e => (.error e, d)
  | .ok () => (.ok (), (p, .file bytes) :: d)

/-- `fs::copy`; the target is emptied before the source is read. -/
def copy [EmptyCollection β] (src dst : Path) (d : Disk β) : Except IoError Unit × Disk β :=
  match d.read src with
  | none => (.error (if d.kind src = some .dir then .invalidInput else .notFound), d)
  | some bytes => write dst (if src = dst then ∅ else bytes) d

theorem create_eq_ok_iff {d : Disk β} {p : Path} :
    d.create p = .ok () ↔ d.kind p.dropLast = some .dir ∧ d.kind p ≠ some .dir := by
  unfold create
  cases d.kind p.dropLast with
  | none => simp
  | some k => cases k <;> simp

/-- Either nothing was written, or the file is there and nothing else changed. -/
theorem write_cases (p : Path) (bytes : β) (d : Disk β) :
    (∃ e, d.create p = .error e ∧ write p bytes d = (.error e, d)) ∨
      d.create p = .ok () ∧ (write p bytes d).1 = .ok () ∧
        ∀ q, (write p bytes d).2.node q = if q = p then some (.file bytes) else d.node q := by
  unfold write
  cases h : d.create p with
  | error e => exact Or.inl ⟨e, rfl, rfl⟩
  | ok u =>
    obtain ⟨_, hkind⟩ := create_eq_ok_iff.mp h
    exact Or.inr ⟨rfl, rfl, node_cons (ne_nil_of_kind_ne_dir hkind) _ d⟩

theorem copy_cases [EmptyCollection β] (src dst : Path) (d : Disk β) :
    (∃ e, copy src dst d = (.error e, d)) ∧ (d.read src = none ∨ d.create dst ≠ .ok ()) ∨
      ∃ bytes, d.read src = some bytes ∧ d.create dst = .ok () ∧ (copy src dst d).1 = .ok () ∧
        ∀ q, (copy src dst d).2.node q =
          if q = dst then some (.file (if src = dst then ∅ else bytes)) else d.node q := by
  unfold copy
  cases hread : d.read src with
  | none => exact Or.inl ⟨⟨_, rfl⟩, Or.inl rfl⟩
  | some bytes =>
    rcases write_cases dst (if src = dst then ∅ else bytes) d with ⟨e, hcreate, hfail⟩ | hok
    · exact Or.inl ⟨⟨e, hfail⟩, Or.inr (by simp [hcreate])⟩
    · exact Or.inr ⟨bytes, rfl, hok⟩

/-- Creating directories adds directories where nothing was, and nothing else. -/
theorem node_createDirs (done : Path) (names : List String) (d : Disk β) (q : Path) :
    (createDirs done names d).2.node q = d.node q ∨
      d.node q = none ∧ (createDirs done names d).2.node q = some .dir := by
  induction names generalizing done d with
  | nil => exact Or.inl rfl
  | cons name rest ih =>
    rw [createDirs]
    cases hkind : d.kind (done.join name) with
    | some k =>
      cases k with
      | file => exact Or.inl rfl
      | dir => exact ih (done.join name) d
    | none =>
      have hne := Path.join_ne_nil done name
      have hnone : d.node (done.join name) = none := by simpa [kind] using hkind
      show (createDirs (done.join name) rest ((done.join name, .dir) :: d)).2.node q = d.node q ∨
        d.node q = none ∧
          (createDirs (done.join name) rest ((done.join name, .dir) :: d)).2.node q = some .dir
      rcases ih (done.join name) ((done.join name, .dir) :: d) with hsame | ⟨hwas, hnow⟩
      · rw [hsame, node_cons hne]
        by_cases heq : q = done.join name
        · exact Or.inr (by simp [heq, hnone])
        · exact Or.inl (if_neg heq)
      · rw [node_cons hne] at hwas
        by_cases heq : q = done.join name
        · simp [heq] at hwas
        · rw [if_neg heq] at hwas
          exact Or.inr ⟨hwas, hnow⟩

/-! ## Disks of the same shape -/

/-- The same files and directories, whatever the files hold. -/
def SameShape (d d' : Disk β) : Prop := ∀ p, d.kind p = d'.kind p

theorem create_congr {d d' : Disk β} (h : SameShape d d') (p : Path) :
    d.create p = d'.create p := by
  rw [create, create, h p, h p.dropLast]

theorem kind_cons {p : Path} (hp : p ≠ []) (n : Node β) (d : Disk β) (q : Path) :
    kind ((p, n) :: d) q = if q = p then some n.kind else d.kind q := by
  rw [kind, node_cons hp]
  split <;> rfl

theorem createDirs_congr (done : Path) (names : List String) {d d' : Disk β}
    (h : SameShape d d') :
    (createDirs done names d).1 = (createDirs done names d').1 ∧
      SameShape (createDirs done names d).2 (createDirs done names d').2 := by
  induction names generalizing done d d' with
  | nil => exact ⟨rfl, h⟩
  | cons name rest ih =>
    rw [createDirs, createDirs, ← h (done.join name)]
    cases d.kind (done.join name) with
    | some k =>
      cases k with
      | file => exact ⟨rfl, h⟩
      | dir => exact ih (done.join name) h
    | none =>
      refine ih (done.join name) fun q => ?_
      rw [kind_cons (Path.join_ne_nil _ _), kind_cons (Path.join_ne_nil _ _), h q]

/-- The same files and directories, with the files filled by `m`. -/
def fill (m : Path → β) (d : Disk β) : Disk β :=
  d.map fun entry =>
    match entry.2 with
    | .file _ => (entry.1, .file (m entry.1))
    | .dir => (entry.1, .dir)

theorem node_fill (m : Path → β) (d : Disk β) (p : Path) :
    (fill m d).node p =
      match d.node p with
      | some (.file _) => some (.file (m p))
      | other => other := by
  unfold node
  by_cases hp : p = []
  · simp only [if_pos hp]
  · simp only [if_neg hp]
    induction d with
    | nil => rfl
    | cons entry d ih =>
      obtain ⟨q, n⟩ := entry
      by_cases hq : p = q
      · subst hq
        cases n <;> simp [fill]
      · have hbeq : (p == q) = false := beq_false_of_ne hq
        cases n <;> simpa [fill, List.lookup_cons, hbeq] using ih

theorem sameShape_fill (m : Path → β) (d : Disk β) : SameShape d (fill m d) := by
  intro p
  rw [kind, kind, node_fill]
  cases d.node p with
  | none => rfl
  | some n => cases n <;> rfl

theorem read_fill (m : Path → β) (d : Disk β) (p : Path) :
    (fill m d).read p = (d.read p).map fun _ => m p := by
  rw [read, read, node_fill]
  cases d.node p with
  | none => rfl
  | some n => cases n <;> rfl

end Disk
end Lib
end Panops
