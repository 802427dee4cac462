import Panops.Lib.FileCalls

/-!
# Calls on confined paths

The rest of a path from a location `R` on is confined to `B` when no part of it
leads out of `B`.  A call on such a path leaves what is not below `B` as it is.
-/

namespace Panops
namespace Lib
namespace Symlinks

variable {N β : Type} [DecidableEq N]

/-- No part of `rest`, walked from `R`, leads out of `B`. -/
def Confined (t : Tree N β) (B R : Location N) (rest : List (Piece N)) : Prop :=
  ∀ ps, ps <+: rest → ∀ l, Leads t R ps l → B <+: l

omit [DecidableEq N] in
theorem Grows.confined {t t' : Tree N β} {B R : Location N} {ps : List (Piece N)}
    (h : Grows t t') (hrest : Confined t B R ps) : Confined t' B R ps :=
  fun qs hqs l hl => hrest qs hqs l (h.leads hl)

omit [DecidableEq N] in
/-- Where there are no links, names lead down. -/
theorem confined_names {t : Tree N β} (hlink : ∀ l target, t.entry l ≠ some (.link target))
    {B R : Location N} (h : B <+: R) (names : List N) :
    Confined t B R (names.map .name) := by
  intro ps hps l hl
  obtain ⟨names', -, rfl⟩ := List.prefix_map_iff.mp hps
  clear hps
  induction names' generalizing R with
  | nil =>
    cases hl
    exact h
  | cons n names' ih =>
    cases hl with
    | here hhere _ => simp [Piece.isHere] at hhere
    | enter _ _ hl => exact ih (h.trans (List.prefix_append _ _)) hl
    | follow _ hn _ => exact absurd hn (hlink _ _)

theorem of_splitLast {ps front : List (Piece N)} {n : N} (h : splitLast ps = some (front, n)) :
    ∃ slashes, (∀ p ∈ slashes, p.isHere) ∧ ps = front ++ .name n :: slashes := by
  have hslashes : ∀ p ∈ ps.reverse.takeWhile (· = Piece.slash), p.isHere := by
    intro p hp
    have heq : p = .slash := by simpa using List.all_eq_true.mp List.all_takeWhile p hp
    rw [heq]
    rfl
  have hsplit := congrArg List.reverse
    (List.takeWhile_append_dropWhile (p := (· = Piece.slash)) (l := ps.reverse))
  rw [List.reverse_append, List.reverse_reverse] at hsplit
  unfold splitLast at h
  cases hrest : ps.reverse.dropWhile (· = Piece.slash) with
  | nil => simp [hrest] at h
  | cons p rev =>
    cases p with
    | slash => simp [hrest] at h
    | dot => simp [hrest] at h
    | up => simp [hrest] at h
    | name n' =>
      simp only [hrest, Option.some.injEq, Prod.mk.injEq] at h
      obtain ⟨rfl, rfl⟩ := h
      refine ⟨(ps.reverse.takeWhile (· = Piece.slash)).reverse,
        fun p hp => hslashes p (List.mem_reverse.mp hp), ?_⟩
      rw [hrest, List.reverse_cons, List.append_assoc] at hsplit
      exact hsplit.symm

theorem steps_of_splitLast {ps front : List (Piece N)} {n : N}
    (h : splitLast ps = some (front, n)) : steps ps = steps front ++ [.name n] := by
  obtain ⟨slashes, hslashes, rfl⟩ := of_splitLast h
  rw [List.append_cons, steps_append, steps_eq_nil hslashes, List.append_nil, steps_append,
    steps_name]

theorem thinner_of_splitLast {ps front : List (Piece N)} {n : N}
    (h : splitLast ps = some (front, n)) : Thinner ps (front ++ [.name n]) := by
  obtain ⟨slashes, hslashes, rfl⟩ := of_splitLast h
  exact Thinner.append_left front (.keep (.of_all_here hslashes))

omit [DecidableEq N] in
theorem lookup_leads {t : Tree N β} {m : Mode} {p : Pathname N} {l : Location N}
    (h : t.lookup m p = .ok l) : Leads t (p.start t.cwd) p.pieces l := by
  unfold Tree.lookup at h
  split at h
  · cases h
  · exact (walk_sound h).leads

omit [DecidableEq N] in
theorem lookup_resolves {t : Tree N β} {m : Mode} {p : Pathname N} {l : Location N}
    (h : t.lookup m p = .ok l) : Resolves t m t.maxLinks (p.start t.cwd) p.pieces l := by
  unfold Tree.lookup at h
  split at h
  · cases h
  · exact walk_sound h

theorem slot_leads {t : Tree N β} {p : Pathname N} {l : Location N} (h : t.slot p = .ok l) :
    ∃ front n parent, steps p.pieces = steps front ++ [.name n] ∧
      Leads t (p.start t.cwd) front parent ∧ l = parent ++ [n] := by
  unfold Tree.slot at h
  cases hsplit : splitLast p.pieces with
  | none =>
    simp only [hsplit] at h
    split at h <;> cases h
  | some last =>
    obtain ⟨front, n⟩ := last
    simp only [hsplit] at h
    cases hwalk : walk t .existing t.maxLinks (p.start t.cwd) front with
    | error e => simp [hwalk] at h
    | ok parent =>
      simp only [hwalk] at h
      split at h
      · cases h
        exact ⟨front, n, parent, steps_of_splitLast hsplit, (walk_sound hwalk).leads, rfl⟩
      · cases h

/-- `root` is found at `R`, and `B` is a directory. -/
structure RootAt (t : Tree N β) (root : Pathname N) (R B : Location N) : Prop where
  found : t.lookup .existing root = .ok R
  dir : t.entry B = some .dir

/-- `p` goes on from `root` with `rest`. -/
structure Extends (root p : Pathname N) (rest : List (Piece N)) : Prop where
  absolute : p.absolute = root.absolute
  steps : steps p.pieces = steps root.pieces ++ rest

section Confinement

variable {t t' : Tree N β} {root p : Pathname N} {R B l : Location N} {rest : List (Piece N)}

omit [DecidableEq N] in
theorem RootAt.grows (h : RootAt t root R B) (hgrows : Grows t t') : RootAt t' root R B where
  found := by
    have hres := walk_complete (hgrows.resolves (lookup_resolves h.found))
    have hfound := h.found
    unfold Tree.lookup at hfound ⊢
    rw [hgrows.cwd, hgrows.maxLinks]
    by_cases hempty : root.pieces.isEmpty
    · simp [hempty] at hfound
    · rw [if_neg hempty]
      exact hres
  dir := hgrows.dir B h.dir

omit [DecidableEq N] in
theorem Extends.start (h : Extends root p rest) (cur : Location N) :
    p.start cur = root.start cur := by
  simp [Pathname.start, h.absolute]

omit [DecidableEq N] in
/-- What leads on from `root` leads on from `R`. -/
theorem RootAt.leads_rest (h : RootAt t root R B) {ps : List (Piece N)}
    (hl : Leads t (root.start t.cwd) (steps root.pieces ++ ps) l) : Leads t R ps l := by
  obtain ⟨m, hm, hml⟩ := hl.split
  have heq := (leads_steps_iff.mp hm).deterministic (lookup_leads h.found)
  exact heq ▸ hml

omit [DecidableEq N] in
theorem RootAt.leads (h : RootAt t root R B) (hp : Extends root p rest)
    (hl : Leads t (p.start t.cwd) p.pieces l) : Leads t R rest l := by
  apply h.leads_rest
  rw [← hp.steps, ← hp.start]
  exact leads_steps_iff.mpr hl

theorem slot_inside (h : RootAt t root R B) (hp : Extends root p rest) (hne : rest ≠ [])
    (hrest : Confined t B R rest) (hl : t.slot p = .ok l) : Inside B l := by
  obtain ⟨front, n, parent, hsteps, hparent, rfl⟩ := slot_leads hl
  obtain ⟨rest', last, rfl⟩ : ∃ rest' last, rest = rest' ++ [last] :=
    ⟨rest.dropLast, rest.getLast hne, (List.dropLast_append_getLast hne).symm⟩
  have hboth := hp.steps.symm.trans hsteps
  rw [← List.append_assoc] at hboth
  obtain ⟨hfront, -⟩ := List.append_inj' hboth rfl
  apply inside_append
  apply hrest rest' (List.prefix_append _ _)
  apply h.leads_rest
  rw [hfront, ← hp.start]
  exact leads_steps_iff.mpr hparent

omit [DecidableEq N] in
theorem lookup_of_resolves {m : Mode} (hne : p.pieces ≠ [])
    (h : Resolves t m t.maxLinks (p.start t.cwd) p.pieces l) : t.lookup m p = .ok l := by
  unfold Tree.lookup
  rw [if_neg (by simpa using hne)]
  exact walk_complete h

/-- What is there is not made. -/
theorem mkdir_of_lookup (h : t.lookup .existing p = .ok l) : t.mkdir p = .error .eexist := by
  have hslot : t.slot p = .error .eexist ∨
      ∃ parent n, t.slot p = .ok (parent ++ [n]) ∧ t.entry (parent ++ [n]) ≠ none := by
    unfold Tree.slot
    cases hsplit : splitLast p.pieces with
    | none => exact Or.inl (by simp only [h])
    | some last =>
      obtain ⟨front, n⟩ := last
      have hres := (lookup_resolves h).thin (thinner_of_splitLast hsplit)
      obtain ⟨parent, hparent, hdir, hsome, -⟩ := hres.of_append_name
      refine Or.inr ⟨parent, n, ?_, hsome rfl⟩
      simp only [walk_complete hparent, hdir]
  unfold Tree.mkdir
  rcases hslot with hslot | ⟨parent, n, hslot, hsome⟩
  · simp only [hslot]
  · cases hl : t.entry (parent ++ [n]) with
    | none => exact absurd hl hsome
    | some e => simp only [hslot, hl]

/-- The root itself is there. -/
theorem mkdir_root (h : RootAt t root R B) (hp : Extends root p []) (hsharp : Sharp p.pieces)
    (hne : p.pieces ≠ []) : t.mkdir p = .error .eexist := by
  have hthin := (lookup_resolves h.found).thin (Thinner.of_steps root.pieces)
  have heq : steps root.pieces = steps p.pieces := by rw [hp.steps, List.append_nil]
  rw [heq, ← hp.start] at hthin
  exact mkdir_of_lookup (lookup_of_resolves hne (hthin.thick (Thinner.of_steps p.pieces) hsharp))

theorem mkdir_confined (h : RootAt t root R B) (hp : Extends root p rest) (hne : rest ≠ [])
    (hrest : Confined t B R rest) (hmkdir : t.mkdir p = .ok t') : Untouched B t t' ∧ Grows t t' := by
  unfold Tree.mkdir at hmkdir
  cases hslot : t.slot p with
  | error e => simp [hslot] at hmkdir
  | ok l =>
    simp only [hslot] at hmkdir
    cases hl : t.entry l with
    | some e => simp [hl] at hmkdir
    | none =>
      simp only [hl, Except.ok.injEq] at hmkdir
      subst hmkdir
      exact ⟨.set (slot_inside h hp hne hrest hslot) .dir, .set_dir hl⟩

theorem createDirs_cons (h : RootAt t root R B) (hp : Extends root p rest) (hne : rest ≠ [])
    (hrest : Confined t B R rest) {ps : List (Pathname N)}
    (hps : Untouched B t (t.createDirs ps).2 ∧ Grows t (t.createDirs ps).2) :
    Untouched B t (t.createDirs (p :: ps)).2 ∧ Grows t (t.createDirs (p :: ps)).2 := by
  have hrefl : Untouched B t t ∧ Grows t t := ⟨.refl B t, .refl t⟩
  unfold Tree.createDirs
  cases hmkdir : t.mkdir p with
  | ok t' => exact mkdir_confined h hp hne hrest hmkdir
  | error e =>
    cases e with
    | enoent =>
      cases hup : t.createDirs ps with
      | mk r t' =>
        rw [hup] at hps
        cases r with
        | error e => exact hps
        | ok u =>
          have hp' : Extends root p rest := hp
          cases hdown : t'.mkdir p with
          | error e => simpa only [hdown] using hps
          | ok t'' =>
            have hnext := mkdir_confined (h.grows hps.2) hp' hne (hps.2.confined hrest) hdown
            simpa only [hdown] using And.intro (hps.1.trans hnext.1) (hps.2.trans hnext.2)
    | enotdir => exact hrefl
    | eisdir => exact hrefl
    | eexist => exact hrefl
    | eloop => exact hrefl
    | einval => exact hrefl

theorem createDirs_root (h : RootAt t root R B) (hp : Extends root p []) (hsharp : Sharp p.pieces)
    (hne : p.pieces ≠ []) (ps : List (Pathname N)) : (t.createDirs (p :: ps)).2 = t := by
  unfold Tree.createDirs
  rw [mkdir_root h hp hsharp hne]

/-- Going up stops at the root at the latest.  By induction on what is above the
path; each step up takes one piece off `rest`. -/
theorem createDirs_confined (h : RootAt t root R B) {rev ps : List (Piece N)}
    (hps : steps ps = steps rev.reverse) (hp : Extends root ⟨root.absolute, ps⟩ rest)
    (hne : rest ≠ []) (hrest : Confined t B R rest) :
    Untouched B t (t.createDirs (⟨root.absolute, ps⟩ ::
        (ancestors rev).map fun qs => ⟨root.absolute, qs⟩)).2 ∧
      Grows t (t.createDirs (⟨root.absolute, ps⟩ ::
        (ancestors rev).map fun qs => ⟨root.absolute, qs⟩)).2 := by
  induction rev generalizing ps rest with
  | nil =>
    have hnil := hp.steps
    rw [hps] at hnil
    exact absurd (List.append_eq_nil_iff.mp hnil.symm).2 hne
  | cons p rev ih =>
    by_cases hhere : p.isHere
    · rw [ancestors, if_pos hhere]
      refine ih ?_ hp hne hrest
      rw [hps]
      simp [steps, hhere]
    · rw [ancestors, if_neg hhere]
      refine createDirs_cons h hp hne hrest ?_
      cases hup : rev.dropWhile Piece.isHere with
      | nil => exact ⟨.refl B t, .refl t⟩
      | cons q front =>
        have hsteps : steps (q :: front).reverse = steps rev.reverse := by
          rw [← hup, steps_reverse, steps_reverse, steps_dropWhile]
        obtain ⟨rest', last, rfl⟩ : ∃ rest' last, rest = rest' ++ [last] :=
          ⟨rest.dropLast, rest.getLast hne, (List.dropLast_append_getLast hne).symm⟩
        have hfront : steps rev.reverse = steps root.pieces ++ rest' := by
          have hboth := hps.symm.trans hp.steps
          rw [List.reverse_cons, steps_append, ← List.append_assoc] at hboth
          have hone : steps [p] = [p] := by simp [steps, hhere]
          rw [hone] at hboth
          exact (List.append_inj' hboth rfl).1
        have hext : Extends root ⟨root.absolute, (q :: front).reverse⟩ rest' :=
          ⟨rfl, hsteps.trans hfront⟩
        cases hrest' : rest' with
        | nil =>
          subst hrest'
          rw [List.map_cons, createDirs_root h hext (hup ▸ sharp_reverse_dropWhile rev) (by simp)]
          exact ⟨.refl B t, .refl t⟩
        | cons r rs =>
          refine ih hsteps hext (by simp [hrest']) fun qs hqs => ?_
          exact hrest qs (hqs.trans (List.prefix_append _ _))

theorem createDirAll_confined (h : RootAt t root R B) (hp : Extends root p rest) (hne : rest ≠ [])
    (hrest : Confined t B R rest) :
    Untouched B t (t.createDirAll p).2 ∧ Grows t (t.createDirAll p).2 := by
  obtain ⟨absolute, pieces⟩ := p
  obtain rfl : absolute = root.absolute := hp.absolute
  exact createDirs_confined h (by rw [List.reverse_reverse]) hp hne hrest

theorem write_confined (h : RootAt t root R B) (hp : Extends root p rest)
    (hrest : Confined t B R rest) {bytes : β} (hwrite : t.write p bytes = .ok t') :
    Untouched B t t' ∧ Grows t t' := by
  unfold Tree.write at hwrite
  cases hl : t.lookup .create p with
  | error e => simp [hl] at hwrite
  | ok l =>
    simp only [hl] at hwrite
    have hbelow : B <+: l := hrest rest (List.prefix_refl rest) l (h.leads hp (lookup_leads hl))
    have hdir : t.entry l ≠ some .dir := by
      intro hdir
      simp [hdir] at hwrite
    have hlink : ∀ target, t.entry l ≠ some (.link target) := by
      intro target hlink
      simp [hlink] at hwrite
    have hset : t' = t.set l (.file bytes) := by
      split at hwrite
      · cases hwrite
      · cases hwrite
      · exact (Except.ok.inj hwrite).symm
    subst hset
    exact ⟨.set ⟨hbelow, fun heq => hdir (heq ▸ h.dir)⟩ _, .set_file hdir hlink bytes⟩

omit [DecidableEq N] in
theorem Extends.join (hp : Extends root p rest) (names : List N) :
    Extends root (p.join names) (rest ++ names.map .name) where
  absolute := hp.absolute
  steps := by
    rw [Pathname.join, steps_append, steps_names, hp.steps, List.append_assoc]

theorem emit_confined (h : RootAt t root R B) (hp : Extends root p rest) {output : Output N β}
    (hrest : Confined t B R (rest ++ output.names.map .name)) :
    Untouched B t (t.emit p output) ∧ Grows t (t.emit p output) := by
  cases output with
  | dirs name names => exact createDirAll_confined h (hp.join (name :: names)) (by simp) hrest
  | file name names bytes =>
    cases hwrite : t.write (p.join (name :: names)) bytes with
    | error e =>
      simp only [Tree.emit, hwrite]
      exact ⟨.refl B t, .refl t⟩
    | ok t' =>
      simp only [Tree.emit, hwrite]
      exact write_confined h (hp.join (name :: names)) hrest hwrite

/-- Outputs on confined paths leave everything alone that is not below `B`. -/
theorem emitAll_confined (h : RootAt t root R B) (hp : Extends root p rest)
    {outputs : List (Output N β)}
    (hrest : ∀ output ∈ outputs, Confined t B R (rest ++ output.names.map .name)) :
    Untouched B t (t.emitAll p outputs) := by
  induction outputs generalizing t with
  | nil => exact .refl B t
  | cons output outputs ih =>
    have hone := emit_confined h hp (hrest output List.mem_cons_self)
    exact hone.1.trans (ih (h.grows hone.2) fun output' houtput' =>
      hone.2.confined (hrest output' (List.mem_cons_of_mem _ houtput')))

theorem eraseBelow_entry {x : Location N} {e : Entry N β}
    (h : (t.eraseBelow l).entry x = some e) : t.entry x = some e := by
  simp only [Tree.eraseBelow] at h
  split at h
  · cases h
  · exact h

/-- What is found in an emptied directory was there before. -/
theorem resolves_of_eraseBelow {k : Nat} {cur l' : Location N} {ps : List (Piece N)}
    (h : Resolves (t.eraseBelow l) .existing k cur ps l') : Resolves t .existing k cur ps l' := by
  induction h with
  | done k cur => exact .done k cur
  | here hcur hp _ ih => exact .here (eraseBelow_entry hcur) hp ih
  | up hcur _ ih => exact .up (eraseBelow_entry hcur) ih
  | @enter k cur l' n ps hcur hsome hlink _ ih =>
    obtain ⟨e, he⟩ := Option.ne_none_iff_exists'.mp hsome
    have hsame := eraseBelow_entry he
    refine .enter (eraseBelow_entry hcur) (by simp [hsame]) (fun target hn => ?_) ih
    rw [hsame] at hn
    exact hlink target (he.trans hn)
  | follow hcur hn _ ih => exact .follow (eraseBelow_entry hcur) (eraseBelow_entry hn) ih
  | make hm _ _ => cases hm

theorem slot_of_eraseBelow {l' : Location N} (h : (t.eraseBelow l).slot p = .ok l') :
    t.slot p = .ok l' := by
  unfold Tree.slot at h ⊢
  cases hsplit : splitLast p.pieces with
  | none =>
    simp only [hsplit] at h
    split at h <;> cases h
  | some last =>
    obtain ⟨front, n⟩ := last
    simp only [hsplit] at h ⊢
    cases hwalk : walk (t.eraseBelow l) .existing t.maxLinks (p.start t.cwd) front with
    | error e =>
      have hsame : (t.eraseBelow l).maxLinks = t.maxLinks ∧ (t.eraseBelow l).cwd = t.cwd :=
        ⟨rfl, rfl⟩
      simp [hsame, hwalk] at h
    | ok parent =>
      have hsame : (t.eraseBelow l).maxLinks = t.maxLinks ∧ (t.eraseBelow l).cwd = t.cwd :=
        ⟨rfl, rfl⟩
      simp only [hsame, hwalk] at h
      rw [walk_complete (resolves_of_eraseBelow (walk_sound hwalk))]
      split at h
      · next hdir =>
        simp only [eraseBelow_entry hdir]
        exact h
      · cases h

theorem lstat_eq_ok {e : Entry N β} (h : t.lstat p = .ok (l, e)) :
    (t.slot p = .ok l ∨ t.lookup .existing p = .ok l) ∧ t.entry l = some e := by
  simp only [Tree.lstat] at h
  split at h
  · cases h
  · next found l' hl =>
    have hentry : l' = l ∧ t.entry l = some e := by
      cases hl' : t.entry l' with
      | none => simp [hl'] at h
      | some e' =>
        simp only [hl', Except.ok.injEq, Prod.mk.injEq] at h
        obtain ⟨rfl, rfl⟩ := h
        exact ⟨rfl, hl'⟩
    obtain ⟨rfl, hentry⟩ := hentry
    refine ⟨?_, hentry⟩
    split at hl
    · exact Or.inl hl
    · exact Or.inr hl

/-- A path whose own last component is no link leads to that component. -/
theorem slot_eq_of_lookup {l' : Location N} (h : t.lookup .existing p = .ok l)
    (hslot : t.slot p = .ok l') (hlink : ∀ target, t.entry l' ≠ some (.link target)) : l' = l := by
  unfold Tree.slot at hslot
  cases hsplit : splitLast p.pieces with
  | none => simp only [hsplit, h] at hslot; cases hslot
  | some last =>
    obtain ⟨front, n⟩ := last
    have hres := (lookup_resolves h).thin (thinner_of_splitLast hsplit)
    obtain ⟨parent, hparent, hdir, -, heq⟩ := hres.of_append_name
    simp only [hsplit, walk_complete hparent, hdir, Except.ok.injEq] at hslot
    subst hslot
    exact heq hlink

/-- A directory that a path names can be found under it. -/
theorem lookup_of_slot (hslot : t.slot p = .ok l) (hdir : t.entry l = some .dir) :
    t.lookup .existing p = .ok l := by
  unfold Tree.slot at hslot
  cases hsplit : splitLast p.pieces with
  | none =>
    simp only [hsplit] at hslot
    split at hslot <;> cases hslot
  | some last =>
    obtain ⟨front, n⟩ := last
    simp only [hsplit] at hslot
    cases hwalk : walk t .existing t.maxLinks (p.start t.cwd) front with
    | error e => simp [hwalk] at hslot
    | ok parent =>
      simp only [hwalk] at hslot
      split at hslot
      · next hparent =>
        cases hslot
        obtain ⟨slashes, hslashes, hpieces⟩ := of_splitLast hsplit
        have hhere : Resolves t .existing 0 (parent ++ [n]) (slashes ++ []) (parent ++ [n]) :=
          .heres hdir hslashes (.done 0 _)
        rw [List.append_nil] at hhere
        have hlast : Resolves t .existing 0 parent (.name n :: slashes) (parent ++ [n]) :=
          .enter hparent (by simp [hdir]) (by simp [hdir]) hhere
        refine lookup_of_resolves (by simp [hpieces]) ?_
        rw [hpieces]
        exact (walk_sound hwalk).trans hlast
      · cases hslot

/-- What `removeDirAll` takes away: a link, or a directory with what is below it
when its own path leads there. -/
theorem removeDirAll_untouched
    (hlink : ∀ l target, t.lstat p = .ok (l, .link target) → Inside B l)
    (hdir : ∀ l, t.lstat p = .ok (l, .dir) → B <+: l)
    (hslot : ∀ l, t.slot p = .ok l → t.entry l = some .dir → Inside B l) :
    Untouched B t (t.removeDirAll p).2 := by
  unfold Tree.removeDirAll
  cases hstat : t.lstat p with
  | error e => exact .refl B t
  | ok found =>
    obtain ⟨l, e⟩ := found
    cases e with
    | file bytes => exact .refl B t
    | link target => exact .erase (hlink l target hstat)
    | dir =>
      have hempty : Untouched B t (t.eraseBelow l) := .eraseBelow (hdir l hstat)
      simp only
      cases hrmdir : (t.eraseBelow l).rmdir p with
      | error e => exact hempty
      | ok t' =>
        refine hempty.trans ?_
        unfold Tree.rmdir at hrmdir
        cases hl' : (t.eraseBelow l).slot p with
        | error e => simp [hl'] at hrmdir
        | ok l' =>
          simp only [hl'] at hrmdir
          split at hrmdir
          · cases hrmdir
          · next hentry =>
            cases hrmdir
            exact .erase (hslot l' (slot_of_eraseBelow hl') (eraseBelow_entry hentry))
          · cases hrmdir

/-- Removing what is found strictly below `B`, when the path is no link itself
or a link that lies below `B`. -/
theorem removeDirAll_found (hfound : t.lookup .existing p = .ok l) (hl : Inside B l)
    (hlink : ∀ l' target, t.lstat p = .ok (l', .link target) → Inside B l') :
    Untouched B t (t.removeDirAll p).2 := by
  have hsame : ∀ l', t.slot p = .ok l' → t.entry l' = some .dir → l' = l := by
    intro l' hslot hdir
    exact slot_eq_of_lookup hfound hslot (by simp [hdir])
  refine removeDirAll_untouched hlink (fun l' hstat => ?_) fun l' hslot hdir => ?_
  · obtain ⟨hslot | hlookup, hdir⟩ := lstat_eq_ok hstat
    · rw [hsame l' hslot hdir]
      exact hl.1
    · rw [hfound] at hlookup
      cases hlookup
      exact hl.1
  · rw [hsame l' hslot hdir]
    exact hl

end Confinement

end Symlinks
end Lib
end Panops
