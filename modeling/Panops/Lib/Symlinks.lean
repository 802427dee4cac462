import Mathlib.Data.List.Basic
import Mathlib.Data.List.Infix

/-!
# Paths and symbolic links

A tree of directories, files and symbolic links, and how a path leads through
it.  `walk` is the lookup of the system, which fails at what is missing and
follows a bounded number of links.  `Leads` says what location a path denotes,
with a missing component taken for a directory still to be made.
-/

namespace Panops
namespace Lib
namespace Symlinks

variable {N β : Type}

/-- The names from the root down. -/
abbrev Location (N : Type) := List N

/-- What stands between two slashes of a path. -/
inductive Piece (N : Type) where
  | slash
  | dot
  | up
  | name (n : N)
deriving DecidableEq

def Piece.isHere : Piece N → Bool
  | slash => true
  | dot => true
  | _ => false

structure Pathname (N : Type) where
  absolute : Bool
  pieces : List (Piece N)
deriving DecidableEq

/-- Where a path starts when `cur` is the current directory. -/
def Pathname.start (p : Pathname N) (cur : Location N) : Location N :=
  if p.absolute then [] else cur

inductive Entry (N β : Type) where
  | file (bytes : β)
  | dir
  | link (target : Pathname N)
deriving DecidableEq

/-- What is at each location, the current directory, and how many links one
lookup follows. -/
structure Tree (N β : Type) where
  entry : Location N → Option (Entry N β)
  cwd : Location N
  maxLinks : Nat

inductive Errno where
  | enoent
  | enotdir
  | eisdir
  | eexist
  | eloop
  | einval
deriving DecidableEq

/-- Whether the last component may be missing, as for a file to be created. -/
inductive Mode where
  | existing
  | create
deriving DecidableEq

/-! ## Lookup -/

def walkFrom (t : Tree N β) (m : Mode)
    (follow : Location N → List (Piece N) → Except Errno (Location N)) :
    Location N → List (Piece N) → Except Errno (Location N)
  | cur, [] => .ok cur
  | cur, p :: ps =>
    match t.entry cur with
    | none => .error .enoent
    | some (.file _) => .error .enotdir
    | some (.link _) => .error .enotdir
    | some .dir =>
      match p with
      | .slash => walkFrom t m follow cur ps
      | .dot => walkFrom t m follow cur ps
      | .up => walkFrom t m follow cur.dropLast ps
      | .name n =>
        match t.entry (cur ++ [n]) with
        | some (.link target) => follow (target.start cur) (target.pieces ++ ps)
        | some _ => walkFrom t m follow (cur ++ [n]) ps
        | none =>
          match m, ps with
          | .create, [] => .ok (cur ++ [n])
          | _, _ => .error .enoent

/-- The location that `ps` leads to from `cur`, through at most `k` links. -/
def walk (t : Tree N β) (m : Mode) : Nat → Location N → List (Piece N) →
    Except Errno (Location N)
  | 0 => walkFrom t m fun _ _ => .error .eloop
  | k + 1 => walkFrom t m (walk t m k)

/-- A lookup that succeeds, step by step. -/
inductive Resolves (t : Tree N β) (m : Mode) :
    Nat → Location N → List (Piece N) → Location N → Prop
  | done (k : Nat) (cur : Location N) : Resolves t m k cur [] cur
  | here {k : Nat} {cur l : Location N} {p : Piece N} {ps : List (Piece N)} :
      t.entry cur = some .dir → p.isHere → Resolves t m k cur ps l →
      Resolves t m k cur (p :: ps) l
  | up {k : Nat} {cur l : Location N} {ps : List (Piece N)} :
      t.entry cur = some .dir → Resolves t m k cur.dropLast ps l →
      Resolves t m k cur (.up :: ps) l
  | enter {k : Nat} {cur l : Location N} {n : N} {ps : List (Piece N)} :
      t.entry cur = some .dir → t.entry (cur ++ [n]) ≠ none →
      (∀ target, t.entry (cur ++ [n]) ≠ some (.link target)) →
      Resolves t m k (cur ++ [n]) ps l → Resolves t m k cur (.name n :: ps) l
  | follow {k : Nat} {cur l : Location N} {n : N} {ps : List (Piece N)} {target : Pathname N} :
      t.entry cur = some .dir → t.entry (cur ++ [n]) = some (.link target) →
      Resolves t m k (target.start cur) (target.pieces ++ ps) l →
      Resolves t m (k + 1) cur (.name n :: ps) l
  | make {k : Nat} {cur : Location N} {n : N} :
      m = .create → t.entry cur = some .dir → t.entry (cur ++ [n]) = none →
      Resolves t m k cur [.name n] (cur ++ [n])

theorem walkFrom_sound {t : Tree N β} {m : Mode} {k : Nat}
    {follow : Location N → List (Piece N) → Except Errno (Location N)}
    (hfollow : ∀ {cur n target ps l}, t.entry cur = some .dir →
      t.entry (cur ++ [n]) = some (.link target) →
      follow (target.start cur) (target.pieces ++ ps) = .ok l →
      Resolves t m k cur (.name n :: ps) l)
    {ps : List (Piece N)} {cur l : Location N} (h : walkFrom t m follow cur ps = .ok l) :
    Resolves t m k cur ps l := by
  induction ps generalizing cur with
  | nil =>
    cases h
    exact .done k _
  | cons p ps ih =>
    unfold walkFrom at h
    cases hcur : t.entry cur with
    | none => simp [hcur] at h
    | some e =>
      cases e with
      | file bytes => simp [hcur] at h
      | link target => simp [hcur] at h
      | dir =>
        simp only [hcur] at h
        cases p with
        | slash => exact .here hcur rfl (ih h)
        | dot => exact .here hcur rfl (ih h)
        | up => exact .up hcur (ih h)
        | name n =>
          simp only at h
          cases hn : t.entry (cur ++ [n]) with
          | none =>
            simp only [hn] at h
            cases m with
            | existing => cases h
            | create =>
              cases ps with
              | nil =>
                cases h
                exact .make rfl hcur hn
              | cons p' ps' => cases h
          | some e' =>
            simp only [hn] at h
            cases e' with
            | link target => exact hfollow hcur hn h
            | file bytes => exact .enter hcur (by simp [hn]) (by simp [hn]) (ih h)
            | dir => exact .enter hcur (by simp [hn]) (by simp [hn]) (ih h)

theorem walk_sound {t : Tree N β} {m : Mode} {k : Nat} {cur l : Location N}
    {ps : List (Piece N)} (h : walk t m k cur ps = .ok l) : Resolves t m k cur ps l := by
  induction k generalizing cur ps l with
  | zero =>
    refine walkFrom_sound (fun _ _ h' => ?_) h
    cases h'
  | succ k ih => exact walkFrom_sound (fun hcur hn h' => .follow hcur hn (ih h')) h

theorem walk_nil {t : Tree N β} {m : Mode} {k : Nat} {cur : Location N} :
    walk t m k cur [] = .ok cur := by
  cases k with
  | zero => rfl
  | succ k => rfl

theorem walk_complete {t : Tree N β} {m : Mode} {k : Nat} {cur l : Location N}
    {ps : List (Piece N)} (h : Resolves t m k cur ps l) : walk t m k cur ps = .ok l := by
  induction h with
  | done k cur => exact walk_nil
  | @here k cur l p ps hcur hp _ ih =>
    cases p with
    | slash => cases k <;> simpa [walk, walkFrom, hcur] using ih
    | dot => cases k <;> simpa [walk, walkFrom, hcur] using ih
    | up => simp [Piece.isHere] at hp
    | name n => simp [Piece.isHere] at hp
  | @up k cur l ps hcur _ ih => cases k <;> simpa [walk, walkFrom, hcur] using ih
  | @enter k cur l n ps hcur hsome hlink _ ih =>
    cases hn : t.entry (cur ++ [n]) with
    | none => exact absurd hn hsome
    | some e =>
      cases e with
      | link target => exact absurd hn (hlink target)
      | file bytes => cases k <;> simpa [walk, walkFrom, hcur, hn] using ih
      | dir => cases k <;> simpa [walk, walkFrom, hcur, hn] using ih
  | @follow k cur l n ps target hcur hn _ ih => simpa [walk, walkFrom, hcur, hn] using ih
  | @make k cur n hm hcur hn => cases k <;> simp [walk, walkFrom, hcur, hn, hm]

theorem walk_eq_ok_iff {t : Tree N β} {m : Mode} {k : Nat} {cur l : Location N}
    {ps : List (Piece N)} : walk t m k cur ps = .ok l ↔ Resolves t m k cur ps l :=
  ⟨walk_sound, walk_complete⟩

/-! ## What a path denotes -/

/-- `ps` leads from `cur` to `l`.  A missing component counts as a directory;
nothing lies below a file. -/
inductive Leads (t : Tree N β) : Location N → List (Piece N) → Location N → Prop
  | done (cur : Location N) : Leads t cur [] cur
  | here {cur l : Location N} {p : Piece N} {ps : List (Piece N)} :
      p.isHere → Leads t cur ps l → Leads t cur (p :: ps) l
  | up {cur l : Location N} {ps : List (Piece N)} :
      (∀ bytes, t.entry cur ≠ some (.file bytes)) → Leads t cur.dropLast ps l →
      Leads t cur (.up :: ps) l
  | enter {cur l : Location N} {n : N} {ps : List (Piece N)} :
      (∀ bytes, t.entry cur ≠ some (.file bytes)) →
      (∀ target, t.entry (cur ++ [n]) ≠ some (.link target)) →
      Leads t (cur ++ [n]) ps l → Leads t cur (.name n :: ps) l
  | follow {cur l : Location N} {n : N} {ps : List (Piece N)} {target : Pathname N} :
      (∀ bytes, t.entry cur ≠ some (.file bytes)) →
      t.entry (cur ++ [n]) = some (.link target) →
      Leads t (target.start cur) (target.pieces ++ ps) l → Leads t cur (.name n :: ps) l

/-- The pieces that lead somewhere. -/
def steps (ps : List (Piece N)) : List (Piece N) := ps.filter fun p => !p.isHere

@[simp] theorem steps_append (ps qs : List (Piece N)) : steps (ps ++ qs) = steps ps ++ steps qs :=
  List.filter_append ..

@[simp] theorem steps_reverse (ps : List (Piece N)) : steps ps.reverse = (steps ps).reverse :=
  List.filter_reverse ..

@[simp] theorem steps_name (n : N) : steps [Piece.name n] = [.name n] := rfl

@[simp] theorem steps_names (names : List N) :
    steps (names.map Piece.name) = names.map Piece.name := by
  simp [steps, Piece.isHere]

theorem steps_eq_nil {ps : List (Piece N)} (h : ∀ p ∈ ps, p.isHere) : steps ps = [] := by
  rw [steps, List.filter_eq_nil_iff]
  intro p hp
  simp [h p hp]

theorem steps_dropWhile (ps : List (Piece N)) :
    steps (ps.dropWhile Piece.isHere) = steps ps := by
  have hsplit := congrArg steps (List.takeWhile_append_dropWhile (p := Piece.isHere) (l := ps))
  rw [steps_append, steps_eq_nil (List.all_eq_true.mp List.all_takeWhile), List.nil_append] at hsplit
  exact hsplit

theorem Resolves.leads {t : Tree N β} {m : Mode} {k : Nat} {cur l : Location N}
    {ps : List (Piece N)} (h : Resolves t m k cur ps l) : Leads t cur ps l := by
  induction h with
  | done k cur => exact .done cur
  | here _ hp _ ih => exact .here hp ih
  | up hcur _ ih => exact .up (by simp [hcur]) ih
  | enter hcur _ hlink _ ih => exact .enter (by simp [hcur]) hlink ih
  | follow hcur hn _ ih => exact .follow (by simp [hcur]) hn ih
  | make _ hcur hn => exact .enter (by simp [hcur]) (by simp [hn]) (.done _)

namespace Leads

variable {t : Tree N β} {cur l l' : Location N} {ps qs : List (Piece N)}

theorem deterministic (h : Leads t cur ps l) (h' : Leads t cur ps l') : l = l' := by
  induction h with
  | done cur =>
    cases h'
    rfl
  | here hp _ ih =>
    cases h' with
    | here _ h' => exact ih h'
    | up _ _ => simp [Piece.isHere] at hp
    | enter _ _ _ => simp [Piece.isHere] at hp
    | follow _ _ _ => simp [Piece.isHere] at hp
  | up _ _ ih =>
    cases h' with
    | here hp _ => simp [Piece.isHere] at hp
    | up _ h' => exact ih h'
  | enter _ hlink _ ih =>
    cases h' with
    | here hp _ => simp [Piece.isHere] at hp
    | enter _ _ h' => exact ih h'
    | follow _ hn _ => exact absurd hn (hlink _)
  | follow _ hn _ ih =>
    cases h' with
    | here hp _ => simp [Piece.isHere] at hp
    | enter _ hlink _ => exact absurd hn (hlink _)
    | follow _ hn' h' =>
      rw [hn] at hn'
      cases hn'
      exact ih h'

theorem trans {m : Location N} (h : Leads t cur ps m) (h' : Leads t m qs l) :
    Leads t cur (ps ++ qs) l := by
  induction h with
  | done cur => exact h'
  | here hp _ ih => exact .here hp (ih h')
  | up hfile _ ih => exact .up hfile (ih h')
  | enter hfile hlink _ ih => exact .enter hfile hlink (ih h')
  | follow hfile hn _ ih =>
    refine .follow hfile hn ?_
    have hrest := ih h'
    rw [List.append_assoc] at hrest
    exact hrest

theorem split (h : Leads t cur (ps ++ qs) l) : ∃ m, Leads t cur ps m ∧ Leads t m qs l := by
  generalize hrs : ps ++ qs = rs at h
  induction h generalizing ps with
  | done cur =>
    obtain ⟨rfl, rfl⟩ := List.append_eq_nil_iff.mp hrs
    exact ⟨cur, .done cur, .done cur⟩
  | @here cur l p rs hp h ih =>
    cases ps with
    | nil =>
      cases hrs
      exact ⟨cur, .done cur, .here hp h⟩
    | cons q ps =>
      cases hrs
      obtain ⟨m, hm, hml⟩ := ih rfl
      exact ⟨m, .here hp hm, hml⟩
  | @up cur l rs hfile h ih =>
    cases ps with
    | nil =>
      cases hrs
      exact ⟨cur, .done cur, .up hfile h⟩
    | cons q ps =>
      cases hrs
      obtain ⟨m, hm, hml⟩ := ih rfl
      exact ⟨m, .up hfile hm, hml⟩
  | @enter cur l n rs hfile hlink h ih =>
    cases ps with
    | nil =>
      cases hrs
      exact ⟨cur, .done cur, .enter hfile hlink h⟩
    | cons q ps =>
      cases hrs
      obtain ⟨m, hm, hml⟩ := ih rfl
      exact ⟨m, .enter hfile hlink hm, hml⟩
  | @follow cur l n rs target hfile hn h ih =>
    cases ps with
    | nil =>
      cases hrs
      exact ⟨cur, .done cur, .follow hfile hn h⟩
    | cons q ps =>
      cases hrs
      obtain ⟨m, hm, hml⟩ := ih (List.append_assoc target.pieces ps qs)
      exact ⟨m, .follow hfile hn hm, hml⟩

end Leads

/-- `qs` is `ps` with some of the pieces left out that lead nowhere. -/
inductive Thinner : List (Piece N) → List (Piece N) → Prop
  | nil : Thinner [] []
  | drop {p : Piece N} {ps qs : List (Piece N)} : p.isHere → Thinner ps qs → Thinner (p :: ps) qs
  | keep {p : Piece N} {ps qs : List (Piece N)} : Thinner ps qs → Thinner (p :: ps) (p :: qs)

namespace Thinner

variable {ps qs : List (Piece N)}

theorem refl (ps : List (Piece N)) : Thinner ps ps := by
  induction ps with
  | nil => exact .nil
  | cons p ps ih => exact .keep ih

theorem append_left (rs : List (Piece N)) (h : Thinner ps qs) : Thinner (rs ++ ps) (rs ++ qs) := by
  induction rs with
  | nil => exact h
  | cons p rs ih => exact .keep ih

theorem of_steps (ps : List (Piece N)) : Thinner ps (steps ps) := by
  induction ps with
  | nil => exact .nil
  | cons p ps ih =>
    by_cases hp : p.isHere
    · rw [steps, List.filter_cons_of_neg (by simpa using hp)]
      exact .drop hp ih
    · rw [steps, List.filter_cons_of_pos (by simpa using hp)]
      exact .keep ih

/-- What was left out before the first piece. -/
theorem peel {q : Piece N} (h : Thinner ps (q :: qs)) :
    ∃ ds ps', ps = ds ++ q :: ps' ∧ (∀ d ∈ ds, d.isHere) ∧ Thinner ps' qs := by
  generalize hrs : q :: qs = rs at h
  induction h with
  | nil => cases hrs
  | @drop p ps rs hp _ ih =>
    obtain ⟨ds, ps', rfl, hds, hps'⟩ := ih hrs
    refine ⟨p :: ds, ps', rfl, fun d hd => ?_, hps'⟩
    rcases List.mem_cons.mp hd with rfl | hd
    · exact hp
    · exact hds d hd
  | @keep p ps rs h _ =>
    cases hrs
    exact ⟨[], ps, rfl, by simp, h⟩

theorem all_here (h : Thinner ps []) : ∀ p ∈ ps, p.isHere := by
  generalize hrs : ([] : List (Piece N)) = rs at h
  induction h with
  | nil => simp
  | drop hp _ ih =>
    intro d hd
    rcases List.mem_cons.mp hd with rfl | hd
    · exact hp
    · exact ih hrs d hd
  | keep _ _ => cases hrs

theorem of_all_here (h : ∀ p ∈ ps, p.isHere) : Thinner ps [] := by
  induction ps with
  | nil => exact .nil
  | cons p ps ih =>
    exact .drop (h p List.mem_cons_self) (ih fun q hq => h q (List.mem_cons_of_mem _ hq))

theorem cons_of_not_here {p : Piece N} (hp : p.isHere = false) (h : Thinner (p :: ps) qs) :
    ∃ qs', qs = p :: qs' ∧ Thinner ps qs' := by
  cases h with
  | drop hp' _ => simp [hp] at hp'
  | keep h => exact ⟨_, rfl, h⟩

end Thinner

/-- Empty, or ending in a piece that leads somewhere. -/
def Sharp (ps : List (Piece N)) : Prop := ∀ p ∈ ps.getLast?, p.isHere = false

theorem sharp_append_name (ps : List (Piece N)) (n : N) : Sharp (ps ++ [.name n]) := by
  simp [Sharp, Piece.isHere]

theorem Sharp.of_append {ps qs : List (Piece N)} (h : Sharp (ps ++ qs)) : Sharp qs := by
  intro p hp
  apply h
  rw [List.getLast?_append, hp]
  rfl

theorem Sharp.of_append_cons {ps qs : List (Piece N)} {p : Piece N}
    (h : Sharp (ps ++ p :: qs)) : Sharp qs := by
  rw [List.append_cons] at h
  exact h.of_append

theorem Sharp.append {qs : List (Piece N)} (h : Sharp qs) (hne : qs ≠ []) (ps : List (Piece N)) :
    Sharp (ps ++ qs) := by
  intro p hp
  apply h
  rwa [List.getLast?_append_of_ne_nil ps hne] at hp

theorem Sharp.eq_nil {ps : List (Piece N)} (h : Sharp ps) (hall : ∀ p ∈ ps, p.isHere) :
    ps = [] := by
  cases hlast : ps.getLast? with
  | none => exact List.getLast?_eq_none_iff.mp hlast
  | some p =>
    have hfalse := h p hlast
    rw [hall p (List.mem_of_getLast? hlast)] at hfalse
    cases hfalse

theorem sharp_reverse_dropWhile (rev : List (Piece N)) :
    Sharp (rev.dropWhile Piece.isHere).reverse := by
  intro p hp
  rw [List.getLast?_reverse] at hp
  have hhead := List.head?_dropWhile_not Piece.isHere rev
  simp only [Option.mem_def.mp hp] at hhead
  exact hhead

namespace Leads

variable {t : Tree N β} {cur l : Location N} {ps qs : List (Piece N)}

theorem heres {ds : List (Piece N)} (hds : ∀ d ∈ ds, d.isHere) (h : Leads t cur ps l) :
    Leads t cur (ds ++ ps) l := by
  induction ds with
  | nil => exact h
  | cons d ds ih =>
    exact .here (hds d List.mem_cons_self) (ih fun d' hd' => hds d' (List.mem_cons_of_mem _ hd'))

theorem thin (h : Leads t cur ps l) (hthin : Thinner ps qs) : Leads t cur qs l := by
  induction h generalizing qs with
  | done cur =>
    cases hthin
    exact .done cur
  | here hp _ ih =>
    cases hthin with
    | drop _ hthin => exact ih hthin
    | keep hthin => exact .here hp (ih hthin)
  | up hfile _ ih =>
    obtain ⟨qs', rfl, hrest⟩ := hthin.cons_of_not_here rfl
    exact .up hfile (ih hrest)
  | enter hfile hlink _ ih =>
    obtain ⟨qs', rfl, hrest⟩ := hthin.cons_of_not_here rfl
    exact .enter hfile hlink (ih hrest)
  | follow hfile hn _ ih =>
    obtain ⟨qs', rfl, hrest⟩ := hthin.cons_of_not_here rfl
    exact .follow hfile hn (ih (hrest.append_left _))

theorem thick (h : Leads t cur qs l) (hthin : Thinner ps qs) : Leads t cur ps l := by
  induction h generalizing ps with
  | done cur =>
    have hall := heres hthin.all_here (.done cur : Leads t cur [] cur)
    rwa [List.append_nil] at hall
  | here hp _ ih =>
    obtain ⟨ds, ps', rfl, hds, hthin⟩ := hthin.peel
    exact heres hds (.here hp (ih hthin))
  | up hfile _ ih =>
    obtain ⟨ds, ps', rfl, hds, hthin⟩ := hthin.peel
    exact heres hds (.up hfile (ih hthin))
  | enter hfile hlink _ ih =>
    obtain ⟨ds, ps', rfl, hds, hthin⟩ := hthin.peel
    exact heres hds (.enter hfile hlink (ih hthin))
  | follow hfile hn _ ih =>
    obtain ⟨ds, ps', rfl, hds, hthin⟩ := hthin.peel
    exact heres hds (.follow hfile hn (ih (hthin.append_left _)))

end Leads

/-- Pieces that lead nowhere do not matter to what a path denotes. -/
theorem leads_steps_iff {t : Tree N β} {cur l : Location N} {ps : List (Piece N)} :
    Leads t cur (steps ps) l ↔ Leads t cur ps l :=
  ⟨fun h => h.thick (Thinner.of_steps ps), fun h => h.thin (Thinner.of_steps ps)⟩

/-! ## Lookups that share a prefix -/

namespace Resolves

variable {t : Tree N β} {m : Mode} {k : Nat} {cur l : Location N} {ps qs : List (Piece N)}

theorem heres {ds : List (Piece N)} (hcur : t.entry cur = some .dir) (hds : ∀ d ∈ ds, d.isHere)
    (h : Resolves t m k cur ps l) : Resolves t m k cur (ds ++ ps) l := by
  induction ds with
  | nil => exact h
  | cons d ds ih =>
    exact .here hcur (hds d List.mem_cons_self)
      (ih fun d' hd' => hds d' (List.mem_cons_of_mem _ hd'))

theorem thin (h : Resolves t m k cur ps l) (hthin : Thinner ps qs) : Resolves t m k cur qs l := by
  induction h generalizing qs with
  | done k cur =>
    cases hthin
    exact .done k cur
  | here hcur hp _ ih =>
    cases hthin with
    | drop _ hthin => exact ih hthin
    | keep hthin => exact .here hcur hp (ih hthin)
  | up hcur _ ih =>
    obtain ⟨qs', rfl, hrest⟩ := hthin.cons_of_not_here rfl
    exact .up hcur (ih hrest)
  | enter hcur hsome hlink _ ih =>
    obtain ⟨qs', rfl, hrest⟩ := hthin.cons_of_not_here rfl
    exact .enter hcur hsome hlink (ih hrest)
  | follow hcur hn _ ih =>
    obtain ⟨qs', rfl, hrest⟩ := hthin.cons_of_not_here rfl
    exact .follow hcur hn (ih (hrest.append_left _))
  | make hm hcur hn =>
    obtain ⟨qs', rfl, hrest⟩ := hthin.cons_of_not_here rfl
    cases hrest
    exact .make hm hcur hn

theorem thick (h : Resolves t m k cur qs l) (hthin : Thinner ps qs) (hps : Sharp ps) :
    Resolves t m k cur ps l := by
  induction h generalizing ps with
  | done k cur =>
    rw [hps.eq_nil hthin.all_here]
    exact .done k cur
  | here hcur hp _ ih =>
    obtain ⟨ds, ps', rfl, hds, hthin⟩ := hthin.peel
    have hps' : Sharp ps' := hps.of_append_cons
    exact heres hcur hds (.here hcur hp (ih hthin hps'))
  | up hcur _ ih =>
    obtain ⟨ds, ps', rfl, hds, hthin⟩ := hthin.peel
    have hps' : Sharp ps' := hps.of_append_cons
    exact heres hcur hds (.up hcur (ih hthin hps'))
  | enter hcur hsome hlink _ ih =>
    obtain ⟨ds, ps', rfl, hds, hthin⟩ := hthin.peel
    have hps' : Sharp ps' := hps.of_append_cons
    exact heres hcur hds (.enter hcur hsome hlink (ih hthin hps'))
  | @follow k cur l n qs target hcur hn h ih =>
    obtain ⟨ds, ps', rfl, hds, hthin⟩ := hthin.peel
    have hps' : Sharp ps' := hps.of_append_cons
    apply heres hcur hds
    cases hempty : ps' with
    | nil =>
      subst hempty
      cases hthin
      exact .follow hcur hn h
    | cons p ps =>
      rw [← hempty]
      exact .follow hcur hn
        (ih (hthin.append_left _) (hps'.append (by simp [hempty]) target.pieces))
  | make hm hcur hn =>
    obtain ⟨ds, ps', rfl, hds, hthin⟩ := hthin.peel
    have hps' : Sharp ps' := hps.of_append_cons
    rw [hps'.eq_nil hthin.all_here]
    exact heres hcur hds (.make hm hcur hn)

/-- A lookup goes through a directory wherever it goes on from. -/
theorem of_append (h : Resolves t m k cur (ps ++ qs) l) :
    ∃ l', Resolves t m k cur ps l' ∧ (qs ≠ [] → t.entry l' = some .dir) := by
  generalize hrs : ps ++ qs = rs at h
  induction h generalizing ps with
  | done k cur =>
    obtain ⟨rfl, rfl⟩ := List.append_eq_nil_iff.mp hrs
    exact ⟨cur, .done k cur, by simp⟩
  | @here k cur l p rs hcur hp _ ih =>
    cases ps with
    | nil => exact ⟨cur, .done k cur, fun _ => hcur⟩
    | cons q ps =>
      cases hrs
      obtain ⟨l', h', hdir⟩ := ih rfl
      exact ⟨l', .here hcur hp h', hdir⟩
  | @up k cur l rs hcur _ ih =>
    cases ps with
    | nil => exact ⟨cur, .done k cur, fun _ => hcur⟩
    | cons q ps =>
      cases hrs
      obtain ⟨l', h', hdir⟩ := ih rfl
      exact ⟨l', .up hcur h', hdir⟩
  | @enter k cur l n rs hcur hsome hlink _ ih =>
    cases ps with
    | nil => exact ⟨cur, .done k cur, fun _ => hcur⟩
    | cons q ps =>
      cases hrs
      obtain ⟨l', h', hdir⟩ := ih rfl
      exact ⟨l', .enter hcur hsome hlink h', hdir⟩
  | @follow k cur l n rs target hcur hn _ ih =>
    cases ps with
    | nil => exact ⟨cur, .done (k + 1) cur, fun _ => hcur⟩
    | cons q ps =>
      cases hrs
      obtain ⟨l', h', hdir⟩ := ih (List.append_assoc target.pieces ps qs)
      exact ⟨l', .follow hcur hn h', hdir⟩
  | @make k cur n hm hcur hn =>
    cases ps with
    | nil => exact ⟨cur, .done k cur, fun _ => hcur⟩
    | cons q ps =>
      obtain ⟨rfl, hnil⟩ := List.cons.inj hrs
      obtain ⟨rfl, rfl⟩ := List.append_eq_nil_iff.mp hnil
      exact ⟨_, .make hm hcur hn, by simp⟩

/-- More links may be followed than there are. -/
theorem mono (h : Resolves t m k cur ps l) (j : Nat) : Resolves t m (k + j) cur ps l := by
  induction h with
  | done k cur => exact .done _ cur
  | here hcur hp _ ih => exact .here hcur hp ih
  | up hcur _ ih => exact .up hcur ih
  | enter hcur hsome hlink _ ih => exact .enter hcur hsome hlink ih
  | @follow k cur l n ps target hcur hn _ ih =>
    rw [Nat.add_right_comm]
    exact .follow hcur hn ih
  | make hm hcur hn => exact .make hm hcur hn

/-- Going on without links. -/
theorem trans {l' : Location N} (h : Resolves t .existing k cur ps l)
    (h' : Resolves t m 0 l qs l') : Resolves t m k cur (ps ++ qs) l' := by
  induction h with
  | done k cur =>
    have hmono := h'.mono k
    rwa [Nat.zero_add] at hmono
  | here hcur hp _ ih => exact .here hcur hp (ih h')
  | up hcur _ ih => exact .up hcur (ih h')
  | enter hcur hsome hlink _ ih => exact .enter hcur hsome hlink (ih h')
  | follow hcur hn _ ih =>
    have hrest := ih h'
    rw [List.append_assoc] at hrest
    exact .follow hcur hn hrest
  | make hm _ _ => cases hm

/-- A lookup passes through every path that the looked up one extends. -/
theorem of_front_steps (h : Resolves t m k cur ps l) (hsteps : steps qs <+: steps ps)
    (hqs : Sharp qs) : ∃ l', Resolves t m k cur qs l' ∧
      (steps qs ≠ steps ps → t.entry l' = some .dir) := by
  obtain ⟨rest, hrest⟩ := hsteps
  have hthin := h.thin (Thinner.of_steps ps)
  rw [← hrest] at hthin
  obtain ⟨l', hl', hdir⟩ := hthin.of_append
  refine ⟨l', hl'.thick (Thinner.of_steps qs) hqs, fun hne => hdir fun hnil => hne ?_⟩
  rw [← hrest, hnil, List.append_nil]

/-- Two paths with the same steps lead to the same directory. -/
theorem of_steps_eq (h : Resolves t .existing k cur ps l) (hl : t.entry l = some .dir)
    (hsteps : steps qs = steps ps) : Resolves t .existing k cur qs l := by
  let front := (qs.reverse.dropWhile Piece.isHere).reverse
  have hsplit := congrArg List.reverse
    (List.takeWhile_append_dropWhile (p := Piece.isHere) (l := qs.reverse))
  rw [List.reverse_append, List.reverse_reverse] at hsplit
  have hsharp : Sharp front := sharp_reverse_dropWhile _
  have hfront : steps front = steps ps := by
    rw [steps_reverse, steps_dropWhile, steps_reverse, List.reverse_reverse, hsteps]
  have hthin : Thinner front (steps ps) := hfront ▸ Thinner.of_steps front
  have hreach := (h.thin (Thinner.of_steps ps)).thick hthin hsharp
  have hhere : ∀ d ∈ (qs.reverse.takeWhile Piece.isHere).reverse, d.isHere :=
    fun d hd => List.all_eq_true.mp List.all_takeWhile d (List.mem_reverse.mp hd)
  have hrest : Resolves t .existing 0 l ((qs.reverse.takeWhile Piece.isHere).reverse ++ []) l :=
    heres hl hhere (.done 0 l)
  rw [List.append_nil] at hrest
  rw [← hsplit]
  exact hreach.trans hrest

/-- The directory of what is found or made, and the thing itself. -/
theorem of_append_name {n : N} (h : Resolves t m k cur (ps ++ [.name n]) l) :
    ∃ parent, Resolves t .existing k cur ps parent ∧ t.entry parent = some .dir ∧
      (m = .existing → t.entry (parent ++ [n]) ≠ none) ∧
      ((∀ target, t.entry (parent ++ [n]) ≠ some (.link target)) → parent ++ [n] = l) := by
  generalize hrs : ps ++ [.name n] = rs at h
  induction h generalizing ps with
  | done k cur => simp at hrs
  | @here k cur l p rs hcur hp _ ih =>
    cases ps with
    | nil =>
      cases hrs
      simp [Piece.isHere] at hp
    | cons q ps =>
      cases hrs
      obtain ⟨parent, h', hparent⟩ := ih rfl
      exact ⟨parent, .here hcur hp h', hparent⟩
  | @up k cur l rs hcur _ ih =>
    cases ps with
    | nil => cases hrs
    | cons q ps =>
      cases hrs
      obtain ⟨parent, h', hparent⟩ := ih rfl
      exact ⟨parent, .up hcur h', hparent⟩
  | @enter k cur l n' rs hcur hsome hlink h ih =>
    cases ps with
    | nil =>
      cases hrs
      cases h
      exact ⟨cur, .done k cur, hcur, fun _ => hsome, fun _ => rfl⟩
    | cons q ps =>
      cases hrs
      obtain ⟨parent, h', hparent⟩ := ih rfl
      exact ⟨parent, .enter hcur hsome hlink h', hparent⟩
  | @follow k cur l n' rs target hcur hn _ ih =>
    cases ps with
    | nil =>
      cases hrs
      exact ⟨cur, .done (k + 1) cur, hcur, fun _ => by simp [hn],
        fun hlink => absurd hn (hlink target)⟩
    | cons q ps =>
      cases hrs
      obtain ⟨parent, h', hparent⟩ := ih (List.append_assoc target.pieces ps _)
      exact ⟨parent, .follow hcur hn h', hparent⟩
  | @make k cur n' hm hcur hn =>
    cases ps with
    | nil =>
      cases hrs
      exact ⟨cur, .done k cur, hcur, fun hex => by simp [hm] at hex, fun _ => rfl⟩
    | cons q ps => simp at hrs

end Resolves

end Symlinks
end Lib
end Panops
