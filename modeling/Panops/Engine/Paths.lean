import Panops.Lib.Confinement

/-!
# Paths

`OsStr` and `Path` of the standard library on Unix, and the calls on the file
system that take them.
-/

namespace Panops
namespace Engine

open Lib.Symlinks

/-- A character, or a byte that is not part of one. -/
inductive OsChar where
  | char (c : Char)
  | invalid (byte : UInt8)
deriving DecidableEq

abbrev OsStr := List OsChar

/-- By name, so that a tree whose places are listed carries no proof of its own. -/
instance lawfulBEq_location : LawfulBEq (Location OsStr) := inferInstance

namespace OsStr

def ofString (s : String) : OsStr := s.toList.map .char

/-- `OsStr::to_string_lossy`. -/
def toStringLossy (s : OsStr) : String :=
  String.ofList (s.map fun
    | .char c => c
    | .invalid _ => '\uFFFD')

/-- No byte in it that is not part of a character. -/
def IsUtf8 (s : OsStr) : Prop := ∀ c ∈ s, ∃ character, c = .char character

theorem isUtf8_ofString (s : String) : IsUtf8 (ofString s) := by
  intro c hc
  obtain ⟨character, -, rfl⟩ := List.mem_map.mp hc
  exact ⟨character, rfl⟩

theorem ofString_toStringLossy {s : OsStr} (h : IsUtf8 s) : ofString s.toStringLossy = s := by
  unfold ofString toStringLossy
  rw [String.toList_ofList, List.map_map]
  refine (List.map_congr_left fun c hc => ?_).trans (List.map_id s)
  obtain ⟨character, rfl⟩ := h c hc
  rfl

/-- What stands between the slashes. -/
def segments : OsStr → List OsStr
  | [] => [[]]
  | c :: s =>
    if c = .char '/' then [] :: segments s
    else
      match segments s with
      | [] => [[c]]
      | segment :: rest => (c :: segment) :: rest

def toPiece (segment : OsStr) : Piece OsStr :=
  if segment = [] then .slash
  else if segment = [.char '.'] then .dot
  else if segment = [.char '.', .char '.'] then .up
  else .name segment

end OsStr

abbrev PathBuf := OsStr

namespace PathBuf

def pathname (p : PathBuf) : Pathname OsStr where
  absolute := p.head? = some (.char '/')
  pieces := if p = [] then [] else (OsStr.segments p).map OsStr.toPiece

/-- `Path::join` with a relative component. -/
def join (p : PathBuf) (component : String) : PathBuf :=
  if p = [] ∨ p.getLast? = some (.char '/') then p ++ OsStr.ofString component
  else p ++ .char '/' :: OsStr.ofString component

/-- The system takes no path with this character in it. -/
def hasNul (p : PathBuf) : Bool := p.contains (.char '\x00')

end PathBuf

inductive Component where
  | rootDir
  | curDir
  | parentDir
  | normal (name : OsStr)
deriving DecidableEq

/-- The component for a piece that leads somewhere; any other `.` is one for the
current directory. -/
def toComponent : Piece OsStr → Component
  | .up => .parentDir
  | .name n => .normal n
  | .dot => .curDir
  | .slash => .curDir

/-- A `.` only counts at the start of a relative path. -/
def components (p : Pathname OsStr) : List Component :=
  (if p.absolute then [.rootDir] else if p.pieces.head? = some .dot then [.curDir] else []) ++
    (steps p.pieces).map toComponent

/-- `Path::starts_with`. -/
def startsWith (p base : Pathname OsStr) : Bool := (components base).isPrefixOf (components p)

/-- The path that `fs::canonicalize` returns for a location. -/
def ofLocation (l : Location OsStr) : Pathname OsStr := ⟨true, l.map .name⟩

abbrev Bytes := List UInt8

/-- `str::as_bytes`. -/
def asBytes (s : String) : Bytes := s.toUTF8.data.toList

variable {β : Type}

def canonicalize (t : Tree OsStr β) (p : PathBuf) : Except Errno (Location OsStr) :=
  if p.hasNul then .error .einval else t.lookup .existing p.pathname

/-- `Path::exists`. -/
def pathExists (t : Tree OsStr β) (p : PathBuf) : Bool :=
  match canonicalize t p with
  | .ok _ => true
  | .error _ => false

def removeDirAll (t : Tree OsStr β) (p : PathBuf) : Except Errno Unit × Tree OsStr β :=
  if p.hasNul then (.error .einval, t) else t.removeDirAll p.pathname

def createDirAll (t : Tree OsStr β) (p : PathBuf) : Except Errno Unit × Tree OsStr β :=
  if p.hasNul then (.error .einval, t) else t.createDirAll p.pathname

def lstat (t : Tree OsStr β) (p : PathBuf) :
    Except Errno (Location OsStr × Entry OsStr β) :=
  if p.hasNul then .error .einval else t.lstat p.pathname

def write (t : Tree OsStr β) (p : PathBuf) (bytes : β) : Except Errno (Tree OsStr β) :=
  if p.hasNul then .error .einval else t.write p.pathname bytes

def rename (t : Tree OsStr β) (p q : PathBuf) : Except Errno (Tree OsStr β) :=
  if p.hasNul || q.hasNul then .error .einval else t.rename p.pathname q.pathname

def emitAll (t : Tree OsStr β) (dir : PathBuf) (outputs : List (Output OsStr β)) :
    Tree OsStr β :=
  if dir.hasNul then t else t.emitAll dir.pathname outputs

/-- The location that a path denotes. -/
def Denotes (t : Tree OsStr β) (p : PathBuf) (l : Location OsStr) : Prop :=
  p.hasNul = false ∧ Leads t (p.pathname.start t.cwd) p.pathname.pieces l

theorem Denotes.deterministic {t : Tree OsStr β} {p : PathBuf} {l l' : Location OsStr}
    (h : Denotes t p l) (h' : Denotes t p l') : l = l' :=
  h.2.deterministic h'.2

theorem canonicalize_denotes {t : Tree OsStr β} {p : PathBuf} {l : Location OsStr}
    (h : canonicalize t p = .ok l) : Denotes t p l := by
  unfold canonicalize at h
  split at h
  · cases h
  · next hnul => exact ⟨by simpa using hnul, lookup_leads h⟩

theorem canonicalize_eq_ok_iff {t : Tree OsStr β} {p : PathBuf} {l : Location OsStr} :
    canonicalize t p = .ok l ↔ p.hasNul = false ∧ t.lookup .existing p.pathname = .ok l := by
  unfold canonicalize
  cases p.hasNul with
  | true => simp
  | false => simp

/-! ## Components -/

theorem toComponent_ne_rootDir (p : Piece OsStr) : toComponent p ≠ .rootDir := by
  cases p <;> simp [toComponent]

theorem toComponent_ne_curDir {p : Piece OsStr} (hp : p.isHere = false) :
    toComponent p ≠ .curDir := by
  cases p <;> simp_all [toComponent, Piece.isHere]

theorem toComponent_inj {p q : Piece OsStr} (hp : p.isHere = false) (hq : q.isHere = false)
    (h : toComponent p = toComponent q) : p = q := by
  cases p <;> cases q <;> simp_all [toComponent, Piece.isHere]

theorem prefix_of_components {ps qs : List (Piece OsStr)} (hps : ∀ p ∈ ps, p.isHere = false)
    (hqs : ∀ q ∈ qs, q.isHere = false) (h : ps.map toComponent <+: qs.map toComponent) :
    ps <+: qs := by
  induction ps generalizing qs with
  | nil => exact List.nil_prefix
  | cons p ps ih =>
    cases qs with
    | nil => simp at h
    | cons q qs =>
      rw [List.map_cons, List.map_cons, List.cons_prefix_cons] at h
      rw [toComponent_inj (hps p List.mem_cons_self) (hqs q List.mem_cons_self) h.1,
        List.cons_prefix_cons]
      exact ⟨rfl, ih (fun p hp => hps p (List.mem_cons_of_mem _ hp))
        (fun q hq => hqs q (List.mem_cons_of_mem _ hq)) h.2⟩

theorem not_isHere_of_mem_steps {ps : List (Piece OsStr)} {p : Piece OsStr} (h : p ∈ steps ps) :
    p.isHere = false := by
  simpa using (List.mem_filter.mp h).2

/-- A path with steps of its own starts another one when that is as absolute and
goes through these steps first. -/
theorem startsWith_steps {p base : Pathname OsStr} (hbase : steps base.pieces ≠ [])
    (h : startsWith p base = true) :
    p.absolute = base.absolute ∧ steps base.pieces <+: steps p.pieces := by
  have hpre : components base <+: components p := List.isPrefixOf_iff_prefix.mp h
  obtain ⟨b, bs, hb⟩ := List.exists_cons_of_ne_nil hbase
  have hroot := toComponent_ne_rootDir b
  have hcur := toComponent_ne_curDir
    (@not_isHere_of_mem_steps base.pieces b (hb ▸ List.mem_cons_self))
  have hdone (h : (steps base.pieces).map toComponent <+: (steps p.pieces).map toComponent) :
      steps base.pieces <+: steps p.pieces :=
    prefix_of_components (fun _ => not_isHere_of_mem_steps)
      (fun _ => not_isHere_of_mem_steps) h
  unfold components at hpre
  by_cases hbabs : base.absolute <;> by_cases hpabs : p.absolute
  · simp only [hbabs, hpabs, if_true, List.prefix_append_right_inj] at hpre
    exact ⟨by rw [hbabs, hpabs], hdone hpre⟩
  · -- a relative path has no root component
    simp only [hbabs, hpabs, if_true, Bool.false_eq_true, if_false] at hpre
    split at hpre
    · simp at hpre
    · cases hsteps : steps p.pieces with
      | nil => simp [hsteps] at hpre
      | cons q qs =>
        rw [hsteps, List.nil_append, List.map_cons, List.singleton_append,
          List.cons_prefix_cons] at hpre
        exact absurd hpre.1.symm (toComponent_ne_rootDir q)
  · simp only [hbabs, hpabs, if_true, Bool.false_eq_true, if_false] at hpre
    split at hpre
    · simp at hpre
    · rw [hb, List.nil_append, List.map_cons, List.singleton_append, List.cons_prefix_cons] at hpre
      exact absurd hpre.1 hroot
  · have habs : p.absolute = base.absolute := by simp_all
    simp only [hbabs, hpabs, Bool.false_eq_true, if_false] at hpre
    refine ⟨habs, hdone ?_⟩
    split at hpre <;> split at hpre
    · exact (List.prefix_append_right_inj [Component.curDir]).mp hpre
    · cases hsteps : steps p.pieces with
      | nil => simp [hsteps] at hpre
      | cons q qs =>
        rw [hsteps, List.nil_append, List.map_cons, List.singleton_append,
          List.cons_prefix_cons] at hpre
        have hq := @not_isHere_of_mem_steps p.pieces q (hsteps ▸ List.mem_cons_self)
        exact absurd hpre.1.symm (toComponent_ne_curDir hq)
    · rw [hb, List.nil_append, List.map_cons, List.singleton_append, List.cons_prefix_cons] at hpre
      exact absurd hpre.1 hcur
    · exact hpre

/-- A location is a path of its own names. -/
theorem startsWith_ofLocation {l r : Location OsStr} :
    startsWith (ofLocation l) (ofLocation r) = true ↔ r <+: l := by
  have hcomps : ∀ l : Location OsStr,
      components (ofLocation l) = .rootDir :: l.map Component.normal := by
    intro l
    simp [components, ofLocation, toComponent, Function.comp_def]
  unfold startsWith
  rw [List.isPrefixOf_iff_prefix, hcomps, hcomps, List.cons_prefix_cons]
  constructor
  · intro h
    obtain ⟨m, hm, heq⟩ := List.prefix_map_iff.mp h.2
    have hsame : r = m := List.map_injective_iff.mpr (fun _ _ => Component.normal.inj) heq
    exact hsame ▸ hm
  · intro h
    exact ⟨rfl, h.map _⟩

/-! ## Joining -/

theorem segments_cons (c : OsChar) (p : OsStr) : OsStr.segments (c :: p) =
    if c = .char '/' then [] :: OsStr.segments p
    else
      match OsStr.segments p with
      | [] => [[c]]
      | segment :: rest => (c :: segment) :: rest := rfl

theorem segments_ne_nil (p : OsStr) : OsStr.segments p ≠ [] := by
  cases p with
  | nil => exact List.cons_ne_nil [] []
  | cons c p =>
    rw [segments_cons]
    split
    · simp
    · split <;> simp

theorem segments_append (p s : OsStr) :
    OsStr.segments (p ++ .char '/' :: s) = OsStr.segments p ++ OsStr.segments s := by
  induction p with
  | nil => rfl
  | cons c p ih =>
    rw [List.cons_append, segments_cons, segments_cons]
    by_cases hc : c = .char '/'
    · rw [if_pos hc, if_pos hc, ih, List.cons_append]
    · rw [if_neg hc, if_neg hc, ih]
      cases hp : OsStr.segments p with
      | nil => exact absurd hp (segments_ne_nil p)
      | cons segment rest => rfl

theorem segments_of_no_slash {s : OsStr} (h : .char '/' ∉ s) : OsStr.segments s = [s] := by
  induction s with
  | nil => rfl
  | cons c s ih =>
    rw [List.mem_cons, not_or] at h
    rw [segments_cons, if_neg (Ne.symm h.1), ih h.2]

theorem mem_segments {p : OsStr} {c : OsChar} (hc : c ≠ .char '/') :
    c ∈ p ↔ ∃ segment ∈ OsStr.segments p, c ∈ segment := by
  induction p with
  | nil => simp [show OsStr.segments [] = [[]] from rfl]
  | cons c' p ih =>
    rw [segments_cons]
    by_cases hc' : c' = .char '/'
    · rw [if_pos hc', List.mem_cons, ih]
      simp [hc', hc]
    · rw [if_neg hc', List.mem_cons, ih]
      cases OsStr.segments p with
      | nil => simp
      | cons segment rest =>
        simp only [List.mem_cons, exists_eq_or_imp]
        exact or_assoc.symm

theorem toPiece_eq_name {segment n : OsStr} (h : OsStr.toPiece segment = .name n) :
    segment = n := by
  unfold OsStr.toPiece at h
  split at h
  · cases h
  · split at h
    · cases h
    · split at h
      · cases h
      · exact Piece.name.inj h

theorem PathBuf.pieces_eq (p : PathBuf) :
    steps p.pathname.pieces = steps ((OsStr.segments p).map OsStr.toPiece) := by
  unfold pathname
  split
  · next hnil =>
    subst hnil
    rfl
  · rfl

/-- The steps of a path hold all that is in it but slashes and dots. -/
theorem hasNul_iff (p : PathBuf) : p.hasNul = true ↔
    ∃ n, Piece.name n ∈ steps p.pathname.pieces ∧ .char '\x00' ∈ n := by
  have hne : OsChar.char '\x00' ≠ .char '/' := by decide
  unfold PathBuf.hasNul
  rw [List.contains_iff_mem, mem_segments hne]
  constructor
  · intro h
    obtain ⟨segment, hsegment, hnul⟩ := h
    have hpiece : OsStr.toPiece segment = .name segment := by
      unfold OsStr.toPiece
      rw [if_neg, if_neg, if_neg]
      · intro heq
        simp [heq] at hnul
      · intro heq
        simp [heq] at hnul
      · intro heq
        simp [heq] at hnul
    refine ⟨segment, ?_, hnul⟩
    rw [PathBuf.pieces_eq]
    refine List.mem_filter.mpr ⟨?_, rfl⟩
    exact hpiece ▸ List.mem_map_of_mem hsegment
  · intro h
    obtain ⟨n, hn, hnul⟩ := h
    rw [PathBuf.pieces_eq] at hn
    obtain ⟨segment, hsegment, hpiece⟩ := List.mem_map.mp (List.mem_filter.mp hn).1
    exact ⟨segment, hsegment, toPiece_eq_name hpiece ▸ hnul⟩

/-- A component that is a name. -/
structure IsName (component : String) : Prop where
  no_slash : .char '/' ∉ OsStr.ofString component
  toPiece : OsStr.toPiece (OsStr.ofString component) = .name (OsStr.ofString component)

theorem IsName.ne_nil {component : String} (h : IsName component) :
    OsStr.ofString component ≠ [] := by
  intro hnil
  have hpiece := h.toPiece
  rw [hnil] at hpiece
  simp [OsStr.toPiece] at hpiece

namespace PathBuf

theorem join_ne_nil (p : PathBuf) {component : String} (h : IsName component) :
    p.join component ≠ [] := by
  unfold join
  split
  · simp [h.ne_nil]
  · simp

theorem pieces_join (p : PathBuf) {component : String} (h : IsName component) :
    ∃ front, (p.join component).pathname.pieces = front ++ [.name (OsStr.ofString component)] ∧
      steps front = steps p.pathname.pieces := by
  have hlast : ∀ q : PathBuf, (OsStr.segments (q ++ .char '/' :: OsStr.ofString component)).map
      OsStr.toPiece = (OsStr.segments q).map OsStr.toPiece ++
        [.name (OsStr.ofString component)] := by
    intro q
    rw [segments_append, segments_of_no_slash h.no_slash, List.map_append, List.map_singleton,
      h.toPiece]
  have hpieces : (p.join component).pathname.pieces =
      (OsStr.segments (p.join component)).map OsStr.toPiece :=
    if_neg (p.join_ne_nil h)
  by_cases hnil : p = []
  · refine ⟨[], ?_, by subst hnil; rfl⟩
    rw [hpieces, join, if_pos (Or.inl hnil), hnil, List.nil_append,
      segments_of_no_slash h.no_slash, List.map_singleton, h.toPiece, List.nil_append]
  · by_cases hslash : p.getLast? = some (.char '/')
    · obtain ⟨q, rfl⟩ := List.getLast?_eq_some_iff.mp hslash
      refine ⟨(OsStr.segments q).map OsStr.toPiece, ?_, ?_⟩
      · rw [hpieces, join, if_pos (Or.inr hslash), List.append_assoc, List.singleton_append, hlast]
      · rw [pieces_eq, segments_append, List.map_append, steps_append]
        simp [OsStr.segments, OsStr.toPiece, steps, Piece.isHere]
    · refine ⟨(OsStr.segments p).map OsStr.toPiece, ?_, (pieces_eq p).symm⟩
      rw [hpieces, join, if_neg (by simp [hnil, hslash]), hlast]

/-- Joining to a path that does not end in a slash puts one piece more. -/
theorem pathname_join {p : PathBuf} (hne : p ≠ []) (hlast : p.getLast? ≠ some (.char '/'))
    {component : String} (h : IsName component) : (p.join component).pathname =
      ⟨p.pathname.absolute, p.pathname.pieces ++ [.name (OsStr.ofString component)]⟩ := by
  have hjoin : p.join component = p ++ .char '/' :: OsStr.ofString component :=
    if_neg (by simp [hne, hlast])
  have hhead : (p ++ .char '/' :: OsStr.ofString component).head? = p.head? := by
    cases p with
    | nil => exact absurd rfl hne
    | cons c p => rfl
  unfold pathname
  rw [if_neg (p.join_ne_nil h), if_neg hne, hjoin, hhead, segments_append,
    segments_of_no_slash h.no_slash, List.map_append, List.map_singleton, h.toPiece]

theorem isUtf8_join {p : PathBuf} (h : OsStr.IsUtf8 p) (component : String) :
    OsStr.IsUtf8 (p.join component) := by
  intro c hc
  unfold join at hc
  split at hc
  · rcases List.mem_append.mp hc with hc | hc
    · exact h c hc
    · exact OsStr.isUtf8_ofString component c hc
  · rcases List.mem_append.mp hc with hc | hc
    · exact h c hc
    · rcases List.mem_cons.mp hc with rfl | hc
      · exact ⟨'/', rfl⟩
      · exact OsStr.isUtf8_ofString component c hc

theorem getLast?_join (p : PathBuf) {component : String} (h : IsName component) :
    (p.join component).getLast? = (OsStr.ofString component).getLast? := by
  unfold join
  split
  · exact List.getLast?_append_of_ne_nil _ h.ne_nil
  · rw [List.append_cons]
    exact List.getLast?_append_of_ne_nil _ h.ne_nil

theorem steps_join (p : PathBuf) {component : String} (h : IsName component) :
    steps (p.join component).pathname.pieces =
      steps p.pathname.pieces ++ [.name (OsStr.ofString component)] := by
  obtain ⟨front, hpieces, hfront⟩ := p.pieces_join h
  rw [hpieces, steps_append, hfront, steps_name]

theorem sharp_join (p : PathBuf) {component : String} (h : IsName component) :
    Sharp (p.join component).pathname.pieces := by
  obtain ⟨front, hpieces, -⟩ := p.pieces_join h
  rw [hpieces]
  exact sharp_append_name front _

theorem absolute_join {p : PathBuf} (hne : p ≠ []) (component : String) :
    (p.join component).pathname.absolute = p.pathname.absolute := by
  unfold join pathname
  cases p with
  | nil => exact absurd rfl hne
  | cons c p =>
    split
    · rfl
    · rfl

theorem hasNul_join (p : PathBuf) {component : String}
    (h : .char '\x00' ∉ OsStr.ofString component) : (p.join component).hasNul = p.hasNul := by
  unfold join hasNul
  rw [Bool.eq_iff_iff, List.contains_iff_mem, List.contains_iff_mem]
  split
  · simp [h]
  · simp [h]

end PathBuf

/-! ## In a directory -/

/-- `dir` leads to the directory at `D`. -/
structure InDir (t : Tree OsStr β) (dir : PathBuf) (D : Location OsStr) : Prop where
  found : canonicalize t dir = .ok D
  entry : t.entry D = some .dir

/-- The name of a file. -/
structure IsFileName (component : String) : Prop extends IsName component where
  no_nul : .char '\x00' ∉ OsStr.ofString component

section InDir

variable {t t' : Tree OsStr β} {dir : PathBuf} {D D' l : Location OsStr} {component : String}

theorem InDir.unique (h : InDir t dir D) (h' : InDir t dir D') : D = D' :=
  Except.ok.inj (h.found.symm.trans h'.found)

theorem InDir.grows (h : InDir t dir D) (hgrows : Grows t t') : InDir t' dir D where
  found := by
    obtain ⟨hnul, hlookup⟩ := canonicalize_eq_ok_iff.mp h.found
    have hres := hgrows.resolves (lookup_resolves hlookup)
    have hne : dir.pathname.pieces ≠ [] := by
      intro hnil
      simp [Tree.lookup, hnil] at hlookup
    refine canonicalize_eq_ok_iff.mpr ⟨hnul, lookup_of_resolves hne ?_⟩
    rw [hgrows.maxLinks, hgrows.cwd]
    exact hres
  entry := hgrows.dir D h.entry

/-- A path joined to one that leads to a directory. -/
theorem InDir.front (h : InDir t dir D) (hc : IsFileName component) :
    ∃ front, (dir.join component).pathname.pieces =
        front ++ [.name (OsStr.ofString component)] ∧
      Resolves t .existing t.maxLinks ((dir.join component).pathname.start t.cwd) front D := by
  obtain ⟨front, hpieces, hfront⟩ := dir.pieces_join hc.toIsName
  refine ⟨front, hpieces, ?_⟩
  obtain ⟨-, hlookup⟩ := canonicalize_eq_ok_iff.mp h.found
  have hne : dir ≠ [] := by
    intro hnil
    simp [Tree.lookup, hnil, PathBuf.pathname] at hlookup
  have hres := (lookup_resolves hlookup).of_steps_eq h.entry hfront
  unfold Pathname.start at hres ⊢
  rw [PathBuf.absolute_join hne]
  exact hres

theorem splitLast_name (front : List (Piece OsStr)) (n : OsStr) :
    splitLast (front ++ [.name n]) = some (front, n) := by
  simp [splitLast]

theorem InDir.slot (h : InDir t dir D) (hc : IsFileName component) :
    t.slot (dir.join component).pathname = .ok (D ++ [OsStr.ofString component]) := by
  obtain ⟨front, hpieces, hres⟩ := h.front hc
  simp only [Tree.slot, hpieces, splitLast_name, walk_eq_ok_iff.mpr hres, h.entry]

theorem InDir.lookup (h : InDir t dir D) (hc : IsFileName component)
    (hfree : t.entry (D ++ [OsStr.ofString component]) = none) :
    t.lookup .create (dir.join component).pathname = .ok (D ++ [OsStr.ofString component]) := by
  obtain ⟨front, hpieces, hres⟩ := h.front hc
  refine lookup_of_resolves (by simp [hpieces]) ?_
  rw [hpieces]
  exact hres.trans (.make rfl h.entry hfree)

theorem InDir.hasNul_join (h : InDir t dir D) (hc : IsFileName component) :
    (dir.join component).hasNul = false := by
  rw [PathBuf.hasNul_join dir hc.no_nul]
  exact (canonicalize_eq_ok_iff.mp h.found).1

/-- A new file. -/
theorem InDir.write (h : InDir t dir D) (hc : IsFileName component)
    (hfree : t.entry (D ++ [OsStr.ofString component]) = none) (bytes : β) :
    Engine.write t (dir.join component) bytes =
      .ok (t.set (D ++ [OsStr.ofString component]) (.file bytes)) := by
  simp [Engine.write, h.hasNul_join hc, Tree.write, h.lookup hc hfree, hfree]

/-- A file is made in nothing but a directory. -/
theorem InDir.of_write {bytes : β} (hne : dir ≠ []) (hc : IsFileName component)
    (h : Engine.write t (dir.join component) bytes = .ok t') : ∃ D, InDir t dir D := by
  unfold Engine.write at h
  split at h
  · cases h
  · next hnul =>
    rw [PathBuf.hasNul_join dir hc.no_nul] at hnul
    unfold Tree.write at h
    cases hlookup : t.lookup .create (dir.join component).pathname with
    | error e => simp [hlookup] at h
    | ok l =>
      obtain ⟨front, hpieces, hfront⟩ := dir.pieces_join hc.toIsName
      have hres := lookup_resolves hlookup
      rw [hpieces] at hres
      obtain ⟨D, hD, hdir, -⟩ := hres.of_append_name
      have hdirD := hD.of_steps_eq hdir hfront.symm
      unfold Pathname.start at hdirD
      rw [PathBuf.absolute_join hne] at hdirD
      have hne' : dir.pathname.pieces ≠ [] := by
        simp [PathBuf.pathname, hne, segments_ne_nil]
      exact ⟨D, canonicalize_eq_ok_iff.mpr ⟨by simpa using hnul, lookup_of_resolves hne' hdirD⟩,
        hdir⟩

/-- A file takes the place of what is no directory. -/
theorem InDir.rename {component' : String} {bytes : β} (h : InDir t dir D)
    (hc : IsFileName component) (hc' : IsFileName component')
    (hfile : t.entry (D ++ [OsStr.ofString component]) = some (.file bytes))
    (hdir : t.entry (D ++ [OsStr.ofString component']) ≠ some .dir) :
    Engine.rename t (dir.join component) (dir.join component') =
      .ok ((t.erase (D ++ [OsStr.ofString component])).set (D ++ [OsStr.ofString component'])
        (.file bytes)) := by
  simp only [Engine.rename, h.hasNul_join hc, h.hasNul_join hc', Bool.or_self, Bool.false_eq_true,
    if_false, Tree.rename, h.slot hc, h.slot hc', hfile]

theorem InDir.rename_dir {component' : String} {bytes : β} (h : InDir t dir D)
    (hc : IsFileName component) (hc' : IsFileName component')
    (hfile : t.entry (D ++ [OsStr.ofString component]) = some (.file bytes))
    (hdir : t.entry (D ++ [OsStr.ofString component']) = some .dir) :
    Engine.rename t (dir.join component) (dir.join component') = .error .eisdir := by
  simp only [Engine.rename, h.hasNul_join hc, h.hasNul_join hc', Bool.or_self, Bool.false_eq_true,
    if_false, Tree.rename, h.slot hc, h.slot hc', hfile, hdir]

end InDir

end Engine
end Panops
