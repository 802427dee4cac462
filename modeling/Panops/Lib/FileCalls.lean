import Panops.Lib.Symlinks

/-!
# Calls that change a tree

Making, writing and removing by path, as the system and the standard library do
it, and what such calls keep of a tree.
-/

namespace Panops
namespace Lib
namespace Symlinks

variable {N β : Type} [DecidableEq N]

namespace Tree

def set (t : Tree N β) (l : Location N) (e : Entry N β) : Tree N β :=
  { t with entry := fun x => if x = l then some e else t.entry x }

def erase (t : Tree N β) (l : Location N) : Tree N β :=
  { t with entry := fun x => if x = l then none else t.entry x }

def eraseBelow (t : Tree N β) (l : Location N) : Tree N β :=
  { t with entry := fun x => if l <+: x ∧ x ≠ l then none else t.entry x }

omit [DecidableEq N] in
def lookup (t : Tree N β) (m : Mode) (p : Pathname N) : Except Errno (Location N) :=
  if p.pieces.isEmpty then .error .enoent else walk t m t.maxLinks (p.start t.cwd) p.pieces

end Tree

/-- The last component, when it is a name, and the pieces before it. -/
def splitLast (ps : List (Piece N)) : Option (List (Piece N) × N) :=
  match ps.reverse.dropWhile (· = .slash) with
  | .name n :: front => some (front.reverse, n)
  | _ => none

namespace Tree

/-- `Path::is_dir`. -/
def isDir (t : Tree N β) (p : Pathname N) : Bool :=
  match t.lookup .existing p with
  | .error _ => false
  | .ok l =>
    match t.entry l with
    | some .dir => true
    | _ => false

/-- Where the last component of `p` is or would be, with a link there not
followed. -/
def slot (t : Tree N β) (p : Pathname N) : Except Errno (Location N) :=
  match splitLast p.pieces with
  | none =>
    match t.lookup .existing p with
    | .error e => .error e
    | .ok _ => .error .eexist
  | some (front, n) =>
    match walk t .existing t.maxLinks (p.start t.cwd) front with
    | .error e => .error e
    | .ok parent =>
      match t.entry parent with
      | some .dir => .ok (parent ++ [n])
      | _ => .error .enotdir

def mkdir (t : Tree N β) (p : Pathname N) : Except Errno (Tree N β) :=
  match t.slot p with
  | .error e => .error e
  | .ok l =>
    match t.entry l with
    | none => .ok (t.set l .dir)
    | some _ => .error .eexist

/-- Removes a directory with nothing in it. -/
def rmdir (t : Tree N β) (p : Pathname N) : Except Errno (Tree N β) :=
  match t.slot p with
  | .error e => .error e
  | .ok l =>
    match t.entry l with
    | none => .error .enoent
    | some .dir => .ok (t.erase l)
    | some _ => .error .enotdir

/-- A trailing slash makes the system follow a link. -/
def lstat (t : Tree N β) (p : Pathname N) : Except Errno (Location N × Entry N β) :=
  let found :=
    match p.pieces.getLast? with
    | some (.name _) => t.slot p
    | _ => t.lookup .existing p
  match found with
  | .error e => .error e
  | .ok l =>
    match t.entry l with
    | none => .error .enoent
    | some e => .ok (l, e)

/-- Open for writing, made when missing and cut to nothing when not, and write. -/
def write (t : Tree N β) (p : Pathname N) (bytes : β) : Except Errno (Tree N β) :=
  match t.lookup .create p with
  | .error e => .error e
  | .ok l =>
    match t.entry l with
    | some .dir => .error .eisdir
    | some (.link _) => .error .eloop
    | _ => .ok (t.set l (.file bytes))

/-- `rename` of a file or a link; directories are not moved here.  A link at either
end is not followed. -/
def rename (t : Tree N β) (p q : Pathname N) : Except Errno (Tree N β) :=
  match t.slot p, t.slot q with
  | .error e, _ => .error e
  | _, .error e => .error e
  | .ok l, .ok l' =>
    match t.entry l, t.entry l' with
    | none, _ => .error .enoent
    | some .dir, _ => .error .einval
    | _, some .dir => .error .eisdir
    | some e, _ => .ok ((t.erase l).set l' e)

/-- `fs::remove_dir_all`: a link is removed itself; a directory is emptied, which
follows no links, and then removed under its path. -/
def removeDirAll (t : Tree N β) (p : Pathname N) : Except Errno Unit × Tree N β :=
  match t.lstat p with
  | .error e => (.error e, t)
  | .ok (l, .link _) => (.ok (), t.erase l)
  | .ok (_, .file _) => (.error .enotdir, t)
  | .ok (l, .dir) =>
    match (t.eraseBelow l).rmdir p with
    | .error e => (.error e, t.eraseBelow l)
    | .ok t' => (.ok (), t')

/-- `fs::create_dir_all`, for a path and its ancestors, nearest first: goes up to
where a directory can be made, then makes the missing ones on the way down. -/
def createDirs (t : Tree N β) : List (Pathname N) → Except Errno Unit × Tree N β
  | [] => (.ok (), t)
  | p :: ps =>
    match t.mkdir p with
    | .ok t' => (.ok (), t')
    | .error .enoent =>
      match createDirs t ps with
      | (.error e, t') => (.error e, t')
      | (.ok (), t') =>
        match t'.mkdir p with
        | .ok t'' => (.ok (), t'')
        | .error e => (if e = .eexist ∧ t'.isDir p then .ok () else .error e, t')
    | .error e => (if e = .eexist ∧ t.isDir p then .ok () else .error e, t)

end Tree

/-- The paths that `Path::ancestors` goes through above a path given by its
pieces, last one first, short of the root and the empty path. -/
def ancestors : List (Piece N) → List (List (Piece N))
  | [] => []
  | p :: rev =>
    if p.isHere then ancestors rev
    else
      match rev.dropWhile Piece.isHere with
      | [] => []
      | q :: front => (q :: front).reverse :: ancestors rev

def Tree.createDirAll (t : Tree N β) (p : Pathname N) : Except Errno Unit × Tree N β :=
  t.createDirs (p :: (ancestors p.pieces.reverse).map fun ps => { p with pieces := ps })

/-- `Path::join` with names. -/
def Pathname.join (p : Pathname N) (names : List N) : Pathname N :=
  { p with pieces := p.pieces ++ names.map .name }

/-- What a program makes in a directory. -/
inductive Output (N β : Type) where
  | dirs (name : N) (names : List N)
  | file (name : N) (names : List N) (bytes : β)

def Output.names : Output N β → List N
  | dirs name names => name :: names
  | file name names _ => name :: names

/-- One output; one that fails is left out. -/
def Tree.emit (t : Tree N β) (dir : Pathname N) : Output N β → Tree N β
  | .dirs name names => (t.createDirAll (dir.join (name :: names))).2
  | .file name names bytes =>
    match t.write (dir.join (name :: names)) bytes with
    | .ok t' => t'
    | .error _ => t

def Tree.emitAll (t : Tree N β) (dir : Pathname N) (outputs : List (Output N β)) : Tree N β :=
  outputs.foldl (fun t output => t.emit dir output) t

/-! ## Below a location -/

/-- Strictly below. -/
def Inside (B l : Location N) : Prop := B <+: l ∧ l ≠ B

instance (B l : Location N) : Decidable (Inside B l) :=
  inferInstanceAs (Decidable (_ ∧ _))

def Untouched (B : Location N) (t t' : Tree N β) : Prop :=
  ∀ x, ¬ Inside B x → t'.entry x = t.entry x

/-- Directories appear and files change; no link does, and nothing goes. -/
structure Grows (t t' : Tree N β) : Prop where
  cwd : t'.cwd = t.cwd
  maxLinks : t'.maxLinks = t.maxLinks
  dir : ∀ x, t.entry x = some .dir → t'.entry x = some .dir
  file : ∀ x bytes, t.entry x = some (.file bytes) → ∃ bytes', t'.entry x = some (.file bytes')
  link : ∀ x target, t.entry x = some (.link target) ↔ t'.entry x = some (.link target)

omit [DecidableEq N] in
theorem inside_append {B l : Location N} (h : B <+: l) (n : N) : Inside B (l ++ [n]) := by
  refine ⟨h.trans (List.prefix_append l [n]), fun heq => ?_⟩
  have hlen := congrArg List.length heq
  have hle := h.length_le
  simp at hlen
  omega

namespace Untouched

variable {B : Location N} {t t' t'' : Tree N β}

omit [DecidableEq N] in
theorem refl (B : Location N) (t : Tree N β) : Untouched B t t := fun _ _ => rfl

omit [DecidableEq N] in
theorem trans (h : Untouched B t t') (h' : Untouched B t' t'') : Untouched B t t'' :=
  fun x hx => (h' x hx).trans (h x hx)

theorem set {l : Location N} (h : Inside B l) (e : Entry N β) : Untouched B t (t.set l e) := by
  intro x hx
  have hne : x ≠ l := fun heq => hx (heq ▸ h)
  simp [Tree.set, hne]

theorem erase {l : Location N} (h : Inside B l) : Untouched B t (t.erase l) := by
  intro x hx
  have hne : x ≠ l := fun heq => hx (heq ▸ h)
  simp [Tree.erase, hne]

theorem eraseBelow {l : Location N} (h : B <+: l) : Untouched B t (t.eraseBelow l) := by
  intro x hx
  have hout : ¬ (l <+: x ∧ x ≠ l) := by
    intro hbelow
    apply hx
    refine ⟨h.trans hbelow.1, fun heq => hbelow.2 ?_⟩
    subst heq
    exact hbelow.1.eq_of_length_le h.length_le |>.symm
  simp only [Tree.eraseBelow, if_neg hout]

end Untouched

namespace Grows

variable {t t' t'' : Tree N β} {cur l : Location N} {ps : List (Piece N)}

omit [DecidableEq N] in
theorem refl (t : Tree N β) : Grows t t :=
  ⟨rfl, rfl, fun _ h => h, fun _ bytes h => ⟨bytes, h⟩, fun _ _ => Iff.rfl⟩

omit [DecidableEq N] in
theorem trans (h : Grows t t') (h' : Grows t' t'') : Grows t t'' where
  cwd := h'.cwd.trans h.cwd
  maxLinks := h'.maxLinks.trans h.maxLinks
  dir x hx := h'.dir x (h.dir x hx)
  file x bytes hx := by
    obtain ⟨bytes', hx'⟩ := h.file x bytes hx
    exact h'.file x bytes' hx'
  link x target := (h.link x target).trans (h'.link x target)

theorem set_dir (h : t.entry l = none) : Grows t (t.set l .dir) where
  cwd := rfl
  maxLinks := rfl
  dir x hx := by
    by_cases heq : x = l
    · simp [Tree.set, heq]
    · simpa [Tree.set, heq] using hx
  file x bytes hx := by
    have hne : x ≠ l := fun heq => by simp [heq, h] at hx
    exact ⟨bytes, by simpa [Tree.set, hne] using hx⟩
  link x target := by
    by_cases heq : x = l
    · simp [Tree.set, heq, h]
    · simp [Tree.set, heq]

theorem set_file (hdir : t.entry l ≠ some .dir) (hlink : ∀ target, t.entry l ≠ some (.link target))
    (bytes : β) : Grows t (t.set l (.file bytes)) where
  cwd := rfl
  maxLinks := rfl
  dir x hx := by
    have hne : x ≠ l := fun heq => hdir (heq ▸ hx)
    simpa [Tree.set, hne] using hx
  file x bytes' hx := by
    by_cases heq : x = l
    · exact ⟨bytes, by simp [Tree.set, heq]⟩
    · exact ⟨bytes', by simpa [Tree.set, heq] using hx⟩
  link x target := by
    by_cases heq : x = l
    · simp [Tree.set, heq, hlink target]
    · simp [Tree.set, heq]

omit [DecidableEq N] in
theorem not_file (h : Grows t t') (hfile : ∀ bytes, t'.entry l ≠ some (.file bytes)) :
    ∀ bytes, t.entry l ≠ some (.file bytes) := by
  intro bytes hl
  obtain ⟨bytes', hl'⟩ := h.file l bytes hl
  exact hfile bytes' hl'

omit [DecidableEq N] in
/-- What a path denotes it denoted before. -/
theorem leads (h : Grows t t') (hl : Leads t' cur ps l) : Leads t cur ps l := by
  induction hl with
  | done cur => exact .done cur
  | here hp _ ih => exact .here hp ih
  | up hfile _ ih => exact .up (h.not_file hfile) ih
  | enter hfile hlink _ ih =>
    exact .enter (h.not_file hfile) (fun target hn => hlink target ((h.link _ _).mp hn)) ih
  | follow hfile hn _ ih => exact .follow (h.not_file hfile) ((h.link _ _).mpr hn) ih

omit [DecidableEq N] in
theorem resolves {k : Nat} (h : Grows t t') (hl : Resolves t .existing k cur ps l) :
    Resolves t' .existing k cur ps l := by
  induction hl with
  | done k cur => exact .done k cur
  | here hcur hp _ ih => exact .here (h.dir _ hcur) hp ih
  | up hcur _ ih => exact .up (h.dir _ hcur) ih
  | @enter k cur l n ps hcur hsome hlink _ ih =>
    refine .enter (h.dir _ hcur) ?_ (fun target hn => hlink target ((h.link _ _).mpr hn)) ih
    cases hn : t.entry (cur ++ [n]) with
    | none => exact absurd hn hsome
    | some e =>
      cases e with
      | file bytes =>
        obtain ⟨bytes', hn'⟩ := h.file _ bytes hn
        simp [hn']
      | dir => simp [h.dir _ hn]
      | link target => simp [(h.link _ target).mp hn]
  | follow hcur hn _ ih => exact .follow (h.dir _ hcur) ((h.link _ _).mp hn) ih
  | make hm _ _ => cases hm

end Grows

end Symlinks
end Lib
end Panops
