import Panops.Lib.Disk

/-!
# Scripts of disk operations

What a program does to the disk as a list of acts, carried out until one fails.
No act removes anything, so what a path is stays as it is.  A further part says
when the copies of a script that succeeds keep every source, and the last one
when a program follows a script.
-/

namespace Panops
namespace Lib

inductive Act (β ε : Type) where
  /-- Errs when the path is a file. -/
  | requireDir (p : Path) (err : ε)
  /-- Creates the directory where nothing is. -/
  | ensureDir (p : Path)
  | copy (src dst : Path)
  | write (p : Path) (bytes : β)
  | fail (err : ε)

namespace Act

variable {β ε : Type}

/-- The file that the act writes. -/
def target : Act β ε → Option Path
  | copy _ dst => some dst
  | write p _ => some p
  | _ => none

def copies : Act β ε → List (Path × Path)
  | copy src dst => [(src, dst)]
  | _ => []

def IsWrite : Act β ε → Prop
  | write _ _ => True
  | _ => False

variable [EmptyCollection β] (io : IoError → ε)

def run : Act β ε → Disk β → Except ε Unit × Disk β
  | requireDir p err, d => (if d.kind p = some .file then .error err else .ok (), d)
  | ensureDir p, d =>
    if d.kind p = none then ((d.createDirAll p).1.mapError io, (d.createDirAll p).2)
    else (.ok (), d)
  | copy src dst, d => ((d.copy src dst).1.mapError io, (d.copy src dst).2)
  | write p bytes, d => ((d.write p bytes).1.mapError io, (d.write p bytes).2)
  | fail err, d => (.error err, d)

/-! ## One act -/

/-- What a successful act does to the contents of the files. -/
def apply : Act β ε → (Path → β) → Path → β
  | copy src dst, m => Copies.step m (src, dst)
  | write p bytes, m => Function.update m p bytes
  | _, m => m

/-- An act that writes a file fails and changes nothing, or puts the file there
and changes nothing else. -/
theorem run_of_target {a : Act β ε} {p : Path} (h : a.target = some p) (d : Disk β) :
    (∃ e, a.run io d = (.error e, d)) ∧
        ((∃ c ∈ a.copies, d.kind c.1 ≠ some .file) ∨ d.create p ≠ .ok ()) ∨
      (∀ c ∈ a.copies, d.kind c.1 = some .file) ∧ d.create p = .ok () ∧
        (a.run io d).1 = .ok () ∧
        ∀ q, (a.run io d).2.node q =
          if q = p then some (.file (a.apply d.contents p)) else d.node q := by
  cases a with
  | copy src dst =>
    obtain rfl : dst = p := Option.some.inj h
    rcases Disk.copy_cases src dst d with ⟨⟨e, hfail⟩, hwhy⟩ | ⟨bytes, hread, hcreate, hok, hnode⟩
    · refine Or.inl ⟨⟨io e, by rw [run, hfail]; rfl⟩, hwhy.imp_left fun hnone => ?_⟩
      refine ⟨(src, dst), List.mem_singleton_self _, fun hfile => ?_⟩
      obtain ⟨bytes, hread⟩ := Disk.kind_eq_file_iff.mp hfile
      simp [hread] at hnone
    · refine Or.inr ⟨?_, hcreate, by rw [run, hok]; rfl, fun q => ?_⟩
      · intro c hc
        obtain rfl := List.mem_singleton.mp hc
        exact Disk.kind_eq_file_iff.mpr ⟨bytes, hread⟩
      · have hvalue : (copy src dst : Act β ε).apply d.contents dst =
            if src = dst then ∅ else bytes := by
          rw [apply, Copies.step, Function.update_self, Disk.contents, hread, Option.getD_some]
        rw [hvalue]
        exact hnode q
  | write p' bytes =>
    obtain rfl : p' = p := Option.some.inj h
    rcases Disk.write_cases p' bytes d with ⟨e, hcreate, hfail⟩ | ⟨hcreate, hok, hnode⟩
    · exact Or.inl ⟨⟨io e, by rw [run, hfail]; rfl⟩, Or.inr (by simp [hcreate])⟩
    · refine Or.inr ⟨by simp [copies], hcreate, by rw [run, hok]; rfl, fun q => ?_⟩
      rw [apply, Function.update_self]
      exact hnode q
  | _ => simp [target] at h

/-- An act that writes no file adds directories where nothing was. -/
theorem run_of_no_target {a : Act β ε} (h : a.target = none) (d : Disk β) (q : Path) :
    (a.run io d).2.node q = d.node q ∨
      d.node q = none ∧ (a.run io d).2.node q = some .dir := by
  cases a with
  | requireDir p err => exact Or.inl rfl
  | fail err => exact Or.inl rfl
  | ensureDir p =>
    rw [run]
    split
    · exact Disk.node_createDirs [] p d q
    · exact Or.inl rfl
  | _ => simp [target] at h

/-- An act leaves a path alone, or writes the file there, or creates the
directory there where nothing was. -/
theorem node_run (a : Act β ε) (d : Disk β) (q : Path) :
    (a.run io d).2.node q = d.node q ∨
      (a.target = some q ∧ d.kind q ≠ some .dir ∧ (a.run io d).2.kind q = some .file) ∨
      d.kind q = none ∧ (a.run io d).2.kind q = some .dir := by
  cases h : a.target with
  | none =>
    rcases run_of_no_target io h d q with hsame | ⟨hnone, hdir⟩
    · exact Or.inl hsame
    · exact Or.inr (Or.inr ⟨by simp [Disk.kind, hnone], by rw [Disk.kind, hdir]; rfl⟩)
  | some p =>
    rcases run_of_target io h d with ⟨⟨e, hfail⟩, _⟩ | ⟨_, hcreate, _, hnode⟩
    · exact Or.inl (by rw [hfail])
    · by_cases heq : q = p
      · refine Or.inr (Or.inl ⟨congrArg some heq.symm, ?_, ?_⟩)
        · exact heq ▸ (Disk.create_eq_ok_iff.mp hcreate).2
        · rw [Disk.kind, hnode, if_pos heq]
          rfl
      · exact Or.inl ((hnode q).trans (if_neg heq))

variable {io}

/-- Nothing is removed and nothing changes between file and directory. -/
theorem kind_run_of_kind {a : Act β ε} {d : Disk β} {q : Path} {k : Kind}
    (h : d.kind q = some k) : (a.run io d).2.kind q = some k := by
  rcases node_run io a d q with hsame | ⟨_, hwas, hnow⟩ | ⟨hnone, _⟩
  · rw [Disk.kind_congr hsame, h]
  · cases k with
    | file => exact hnow
    | dir => exact absurd h hwas
  · simp [h] at hnone

/-- A new file is one that the act writes. -/
theorem kind_of_kind_run {a : Act β ε} {d : Disk β} {q : Path}
    (h : (a.run io d).2.kind q = some .file) : d.kind q = some .file ∨ a.target = some q := by
  rcases node_run io a d q with hsame | ⟨htarget, _⟩ | ⟨_, hdir⟩
  · exact Or.inl (by rw [← Disk.kind_congr hsame, h])
  · exact Or.inr htarget
  · simp [h] at hdir

/-- What an act does not write keeps its bytes. -/
theorem read_run_of_not_target {a : Act β ε} {d : Disk β} {q : Path} (h : a.target ≠ some q) :
    (a.run io d).2.read q = d.read q := by
  rcases node_run io a d q with hsame | ⟨htarget, _⟩ | ⟨hnone, hdir⟩
  · exact Disk.read_congr hsame
  · exact absurd htarget h
  · rw [Disk.read_eq_none_of_kind (by simp [hdir]), Disk.read_eq_none_of_kind (by simp [hnone])]

/-! ## Successful acts -/

/-- After a successful act its target is a file. -/
theorem kind_target_run {a : Act β ε} {d : Disk β} {p : Path} (h : (a.run io d).1 = .ok ())
    (htarget : a.target = some p) : (a.run io d).2.kind p = some .file := by
  rcases run_of_target io htarget d with ⟨⟨e, hfail⟩, _⟩ | ⟨_, _, _, hnode⟩
  · simp [hfail] at h
  · rw [Disk.kind, hnode, if_pos rfl]
    rfl

/-- A successful copy found its source. -/
theorem kind_source_of_run {a : Act β ε} {d : Disk β} {c : Path × Path}
    (h : (a.run io d).1 = .ok ()) (hc : c ∈ a.copies) : d.kind c.1 = some .file := by
  cases htarget : a.target with
  | none => cases a <;> simp [target, copies] at htarget hc
  | some p =>
    rcases run_of_target io htarget d with ⟨⟨e, hfail⟩, _⟩ | ⟨hsource, _⟩
    · simp [hfail] at h
    · exact hsource c hc

theorem contents_run {a : Act β ε} {d : Disk β} (h : (a.run io d).1 = .ok ()) :
    (a.run io d).2.contents = a.apply d.contents := by
  funext q
  by_cases hq : a.target = some q
  · rcases run_of_target io hq d with ⟨⟨e, hfail⟩, _⟩ | ⟨_, _, _, hnode⟩
    · simp [hfail] at h
    · exact Disk.contents_of_node ((hnode q).trans (if_pos rfl))
  · have hkeep : (a.run io d).2.contents q = d.contents q := by
      rw [Disk.contents, Disk.contents, read_run_of_not_target hq]
    rw [hkeep]
    cases a with
    | copy src dst => exact (Function.update_of_ne (fun heq => hq (congrArg some heq.symm)) _ _).symm
    | write p bytes => exact (Function.update_of_ne (fun heq => hq (congrArg some heq.symm)) _ _).symm
    | _ => rfl

/-- The act has what it needs on the disk. -/
def Enabled (d : Disk β) : Act β ε → Prop
  | requireDir p _ => d.kind p = some .dir
  | ensureDir p => d.kind p = some .dir
  | copy src dst =>
    d.kind src = some .file ∧ d.kind dst.dropLast = some .dir ∧ d.kind dst ≠ some .dir
  | write p _ => d.kind p.dropLast = some .dir ∧ d.kind p ≠ some .dir
  | fail _ => False

/-- An act that has what it needs succeeds and creates no directory. -/
theorem run_of_enabled {a : Act β ε} {d : Disk β} (h : a.Enabled d) :
    (a.run io d).1 = .ok () ∧
      ∀ q, (a.run io d).2.kind q = some .dir → d.kind q = some .dir := by
  cases htarget : a.target with
  | none =>
    have hrun : a.run io d = (.ok (), d) := by
      cases a with
      | requireDir p err => simp [run, show d.kind p = some .dir from h]
      | ensureDir p => simp [run, show d.kind p = some .dir from h]
      | fail err => exact h.elim
      | _ => simp [target] at htarget
    rw [hrun]
    exact ⟨rfl, fun q hq => hq⟩
  | some p =>
    have hneeds : (∀ c ∈ a.copies, d.kind c.1 = some .file) ∧ d.create p = .ok () := by
      rw [Disk.create_eq_ok_iff]
      cases a with
      | copy src dst =>
        obtain rfl : dst = p := Option.some.inj htarget
        exact ⟨by simpa [copies] using h.1, h.2⟩
      | write p' bytes =>
        obtain rfl : p' = p := Option.some.inj htarget
        exact ⟨by simp [copies], h⟩
      | _ => simp [target] at htarget
    rcases run_of_target io htarget d with ⟨_, hwhy⟩ | ⟨_, _, hok, hnode⟩
    · rcases hwhy with ⟨c, hc, hnot⟩ | hnot
      · exact absurd (hneeds.1 c hc) hnot
      · exact absurd hneeds.2 hnot
    · refine ⟨hok, fun q hdir => ?_⟩
      rw [Disk.kind, hnode] at hdir
      split at hdir
      · simp [Node.kind] at hdir
      · exact hdir

/-- What an act needs is still there after another one has succeeded. -/
theorem Enabled.run {a b : Act β ε} {d : Disk β} (ha : a.Enabled d) (hb : b.Enabled d) :
    b.Enabled (a.run io d).2 := by
  have hnew : ∀ {q}, d.kind q ≠ some .dir → (a.run io d).2.kind q ≠ some .dir :=
    fun hq hdir => hq ((run_of_enabled ha).2 _ hdir)
  cases b with
  | requireDir p err => exact kind_run_of_kind hb
  | ensureDir p => exact kind_run_of_kind hb
  | copy src dst => exact ⟨kind_run_of_kind hb.1, kind_run_of_kind hb.2.1, hnew hb.2.2⟩
  | write p bytes => exact ⟨kind_run_of_kind hb.1, hnew hb.2⟩
  | fail err => exact hb.elim

/-- Whether an act succeeds depends on the shape of the disk only. -/
theorem run_congr {a : Act β ε} {d d' : Disk β} (h : Disk.SameShape d d')
    (hok : (a.run io d).1 = .ok ()) :
    (a.run io d').1 = .ok () ∧ Disk.SameShape (a.run io d).2 (a.run io d').2 := by
  cases htarget : a.target with
  | none =>
    cases a with
    | requireDir p err =>
      rw [run, h p] at hok
      exact ⟨hok, h⟩
    | ensureDir p =>
      obtain ⟨hsame, hshape⟩ := Disk.createDirs_congr [] p h
      rw [run] at hok
      rw [run, run, ← h p]
      split at hok
      · next hnone =>
        rw [if_pos hnone]
        refine ⟨?_, by rw [if_pos hnone]; exact hshape⟩
        rw [← hok]
        show (d'.createDirAll p).1.mapError io = (d.createDirAll p).1.mapError io
        rw [Disk.createDirAll, Disk.createDirAll, hsame]
      · next hsome =>
        rw [if_neg hsome, if_neg hsome]
        exact ⟨rfl, h⟩
    | fail err => simp [run] at hok
    | _ => simp [target] at htarget
  | some p =>
    rcases run_of_target io htarget d with ⟨⟨e, hfail⟩, _⟩ | ⟨hsource, hcreate, _, hnode⟩
    · simp [hfail] at hok
    · rcases run_of_target io htarget d' with ⟨_, hwhy⟩ | ⟨_, _, hok', hnode'⟩
      · rcases hwhy with ⟨c, hc, hnot⟩ | hnot
        · exact absurd ((h c.1).symm.trans (hsource c hc)) hnot
        · exact absurd ((Disk.create_congr h p).symm.trans hcreate) hnot
      · refine ⟨hok', fun q => ?_⟩
        rw [Disk.kind, Disk.kind, hnode, hnode']
        by_cases heq : q = p
        · rw [if_pos heq, if_pos heq]
          rfl
        · rw [if_neg heq, if_neg heq]
          exact h q

end Act

namespace Script

open Act

variable {β ε : Type} [EmptyCollection β] (io : IoError → ε)

/-- Carries out the acts until one fails. -/
def runAll : List (Act β ε) → Disk β → Except ε Unit × Disk β
  | [], d => (.ok (), d)
  | a :: acts, d =>
    match a.run io d with
    | (.error e, d) => (.error e, d)
    | (.ok (), d) => runAll acts d

theorem runAll_cons (a : Act β ε) (acts : List (Act β ε)) (d : Disk β) :
    runAll io (a :: acts) d =
      match a.run io d with
      | (.error e, d) => (.error e, d)
      | (.ok (), d) => runAll io acts d := rfl

/-- What every act preserves, the script preserves, also when it fails. -/
theorem runAll_invariant {P : Disk β → Prop} {acts : List (Act β ε)}
    (h : ∀ a ∈ acts, ∀ d, P d → P (a.run io d).2) {d : Disk β} (hd : P d) :
    P (runAll io acts d).2 := by
  induction acts generalizing d with
  | nil => exact hd
  | cons a acts ih =>
    have hnext := h a List.mem_cons_self d hd
    rw [runAll_cons]
    split
    · next e d' hrun => rwa [hrun] at hnext
    · next d' hrun =>
      rw [hrun] at hnext
      exact ih (fun b hb => h b (List.mem_cons_of_mem a hb)) hnext

theorem runAll_append (acts acts' : List (Act β ε)) (d : Disk β) :
    runAll io (acts ++ acts') d =
      match runAll io acts d with
      | (.error e, d) => (.error e, d)
      | (.ok (), d) => runAll io acts' d := by
  induction acts generalizing d with
  | nil => rfl
  | cons a acts ih =>
    rw [List.cons_append, runAll_cons, runAll_cons]
    split
    · rfl
    · exact ih _

variable {io}

/-- A script that succeeds is its first act and then the rest. -/
theorem runAll_cons_ok {a : Act β ε} {acts : List (Act β ε)} {d : Disk β}
    (h : (runAll io (a :: acts) d).1 = .ok ()) :
    (a.run io d).1 = .ok () ∧ runAll io (a :: acts) d = runAll io acts (a.run io d).2 := by
  rw [runAll_cons] at h ⊢
  cases hrun : a.run io d with
  | mk result d' =>
    rw [hrun] at h
    cases result with
    | error e => simp at h
    | ok u => exact ⟨rfl, rfl⟩

theorem runAll_cons_of_ok {a : Act β ε} {d : Disk β} (h : (a.run io d).1 = .ok ())
    (acts : List (Act β ε)) : runAll io (a :: acts) d = runAll io acts (a.run io d).2 := by
  rw [runAll_cons]
  cases hrun : a.run io d with
  | mk result d' =>
    rw [hrun] at h
    obtain rfl : result = .ok () := h
    rfl

/-! ## Runs -/

theorem kind_runAll_of_kind {acts : List (Act β ε)} {d : Disk β} {q : Path} {k : Kind}
    (h : d.kind q = some k) : (runAll io acts d).2.kind q = some k :=
  runAll_invariant io (P := fun d' => d'.kind q = some k) (fun _ _ _ => kind_run_of_kind) h

theorem kind_of_kind_runAll {acts : List (Act β ε)} {d : Disk β} {q : Path}
    (h : (runAll io acts d).2.kind q = some .file) :
    d.kind q = some .file ∨ ∃ a ∈ acts, a.target = some q := by
  have hstep : ∀ a ∈ acts, ∀ d' : Disk β,
      (d'.kind q = some .file → d.kind q = some .file ∨ ∃ a ∈ acts, a.target = some q) →
      (a.run io d').2.kind q = some .file →
      d.kind q = some .file ∨ ∃ a ∈ acts, a.target = some q := by
    intro a ha d' hd' hfile
    rcases kind_of_kind_run hfile with hwas | htarget
    · exact hd' hwas
    · exact Or.inr ⟨a, ha, htarget⟩
  exact runAll_invariant io hstep Or.inl h

theorem read_runAll_of_not_target {acts : List (Act β ε)} {q : Path}
    (h : ∀ a ∈ acts, a.target ≠ some q) (d : Disk β) :
    (runAll io acts d).2.read q = d.read q :=
  runAll_invariant io (P := fun d' => d'.read q = d.read q)
    (fun a ha _ hd' => (read_run_of_not_target (h a ha)).trans hd') rfl

/-- After a script that succeeds every target is a file. -/
theorem kind_target_runAll {acts : List (Act β ε)} {d : Disk β}
    (h : (runAll io acts d).1 = .ok ()) {a : Act β ε} (ha : a ∈ acts) {q : Path}
    (htarget : a.target = some q) : (runAll io acts d).2.kind q = some .file := by
  induction acts generalizing d with
  | nil => simp at ha
  | cons b acts ih =>
    obtain ⟨hb, hrest⟩ := runAll_cons_ok h
    rw [hrest] at h ⊢
    rcases List.mem_cons.mp ha with rfl | ha
    · exact kind_runAll_of_kind (kind_target_run hb htarget)
    · exact ih h ha

theorem fail_not_mem_of_runAll {acts : List (Act β ε)} {d : Disk β}
    (h : (runAll io acts d).1 = .ok ()) (err : ε) : Act.fail err ∉ acts := by
  induction acts generalizing d with
  | nil => simp
  | cons a acts ih =>
    obtain ⟨ha, hrest⟩ := runAll_cons_ok h
    rw [hrest] at h
    intro hmem
    rcases List.mem_cons.mp hmem with rfl | hmem
    · simp [run] at ha
    · exact ih h hmem

theorem runAll_append_ok {acts acts' : List (Act β ε)} {d : Disk β}
    (h : (runAll io (acts ++ acts') d).1 = .ok ()) :
    (runAll io acts d).1 = .ok () ∧
      runAll io (acts ++ acts') d = runAll io acts' (runAll io acts d).2 := by
  rw [runAll_append] at h ⊢
  cases hrun : runAll io acts d with
  | mk result d' =>
    rw [hrun] at h
    cases result with
    | error e => simp at h
    | ok u => exact ⟨rfl, rfl⟩

/-- What a script that succeeds writes last stays. -/
theorem read_runAll_write {acts : List (Act β ε)} {p : Path} {bytes : β} {d : Disk β}
    (h : (runAll io (acts ++ [.write p bytes]) d).1 = .ok ()) :
    (runAll io (acts ++ [.write p bytes]) d).2.read p = some bytes := by
  obtain ⟨_, hrest⟩ := runAll_append_ok h
  rw [hrest] at h ⊢
  obtain ⟨hlast, hrun⟩ := runAll_cons_ok h
  rw [hrun]
  show ((Act.write p bytes).run io _).2.read p = some bytes
  rcases run_of_target io (a := .write p bytes) rfl (runAll io acts d).2 with
    ⟨⟨e, hfail⟩, _⟩ | ⟨_, _, _, hnode⟩
  · rw [hfail] at hlast
    cases hlast
  · rw [Disk.read, hnode p, if_pos rfl]
    simp [Act.apply]

theorem runAll_of_enabled {acts : List (Act β ε)} {d : Disk β} (h : ∀ a ∈ acts, a.Enabled d) :
    (runAll io acts d).1 = .ok () := by
  induction acts generalizing d with
  | nil => rfl
  | cons a acts ih =>
    have ha := h a List.mem_cons_self
    rw [runAll_cons_of_ok (run_of_enabled ha).1]
    exact ih fun b hb => ha.run (h b (List.mem_cons_of_mem a hb))

theorem runAll_congr {acts : List (Act β ε)} {d d' : Disk β} (h : Disk.SameShape d d')
    (hok : (runAll io acts d).1 = .ok ()) : (runAll io acts d').1 = .ok () := by
  induction acts generalizing d d' with
  | nil => rfl
  | cons a acts ih =>
    obtain ⟨ha, hrest⟩ := runAll_cons_ok hok
    obtain ⟨ha', hshape⟩ := run_congr h ha
    rw [hrest] at hok
    rw [runAll_cons_of_ok ha']
    exact ih hshape hok

/-! ## Copies -/

/-- The copies of a script. -/
def copiesOf (acts : List (Act β ε)) : List (Path × Path) := acts.flatMap Act.copies

/-- A script without plain writes changes the contents by its copies. -/
theorem contents_runAll {acts : List (Act β ε)} (hwrite : ∀ a ∈ acts, ¬ a.IsWrite)
    {d : Disk β} (h : (runAll io acts d).1 = .ok ()) :
    (runAll io acts d).2.contents = Copies.run (copiesOf acts) d.contents := by
  induction acts generalizing d with
  | nil => rfl
  | cons a acts ih =>
    obtain ⟨ha, hrest⟩ := runAll_cons_ok h
    rw [hrest] at h ⊢
    rw [ih (fun b hb => hwrite b (List.mem_cons_of_mem a hb)) h, contents_run ha]
    have hnot := hwrite a List.mem_cons_self
    cases a with
    | copy src dst => rfl
    | write p bytes => exact absurd trivial hnot
    | _ => rfl

omit [EmptyCollection β] in
theorem exists_target_of_mem_copiesOf {acts : List (Act β ε)} {c : Path × Path}
    (hc : c ∈ copiesOf acts) : ∃ a ∈ acts, c ∈ a.copies ∧ a.target = some c.2 := by
  obtain ⟨a, ha, hca⟩ := List.mem_flatMap.mp hc
  refine ⟨a, ha, hca, ?_⟩
  cases a with
  | copy src dst =>
    obtain rfl : c = (src, dst) := List.mem_singleton.mp hca
    rfl
  | _ => simp [copies] at hca

/-- The sources of clean copies that succeed were there from the start. -/
theorem kind_source_of_runAll {acts : List (Act β ε)} (hwrite : ∀ a ∈ acts, ¬ a.IsWrite)
    (hclean : Copies.Clean (copiesOf acts)) {d : Disk β} (h : (runAll io acts d).1 = .ok ())
    {c : Path × Path} (hc : c ∈ copiesOf acts) : d.kind c.1 = some .file := by
  induction acts generalizing d with
  | nil => simp [copiesOf] at hc
  | cons a acts ih =>
    obtain ⟨ha, hrest⟩ := runAll_cons_ok h
    rw [hrest] at h
    rw [copiesOf, List.flatMap_cons] at hc hclean
    obtain ⟨hpair, hself⟩ := hclean
    obtain ⟨_, hpair', hacross⟩ := List.pairwise_append.mp hpair
    rcases List.mem_append.mp hc with hhere | hlater
    · exact kind_source_of_run ha hhere
    · have hclean' : Copies.Clean (copiesOf acts) :=
        ⟨hpair', fun e he => hself e (List.mem_append_right _ he)⟩
      have hfile := ih (fun b hb => hwrite b (List.mem_cons_of_mem a hb)) hclean' h hlater
      refine (kind_of_kind_run hfile).resolve_right fun htarget => ?_
      have hnot := hwrite a List.mem_cons_self
      cases a with
      | copy src dst =>
        obtain rfl : dst = c.1 := Option.some.inj htarget
        exact hacross (src, c.1) (List.mem_singleton_self _) c hlater rfl
      | write p bytes => exact hnot trivial
      | _ => simp [target] at htarget

/-- Clean copies with different targets leave every source to its target. -/
theorem read_of_clean {acts : List (Act β ε)} (hwrite : ∀ a ∈ acts, ¬ a.IsWrite)
    (hnodup : ((copiesOf acts).map Prod.snd).Nodup) (hclean : Copies.Clean (copiesOf acts))
    {d : Disk β} (h : (runAll io acts d).1 = .ok ()) {c : Path × Path} (hc : c ∈ copiesOf acts) :
    (runAll io acts d).2.read c.2 = d.read c.1 := by
  obtain ⟨a, ha, _, htarget⟩ := exists_target_of_mem_copiesOf hc
  rw [Disk.read_eq_some_contents (kind_target_runAll h ha htarget),
    Disk.read_eq_some_contents (kind_source_of_runAll hwrite hclean h hc),
    contents_runAll hwrite h, Copies.faithful_of_clean hnodup hclean _ c hc]

/-- Copies that leave every source to its target whatever the files hold are
clean. -/
theorem clean_of_read {x y : β} (hxy : x ≠ y) (hx : x ≠ ∅) {acts : List (Act β ε)}
    (hwrite : ∀ a ∈ acts, ¬ a.IsWrite) (hnodup : ((copiesOf acts).map Prod.snd).Nodup)
    {d : Disk β} (hok : (runAll io acts d).1 = .ok ())
    (h : ∀ m : Path → β, ∀ c ∈ copiesOf acts,
      (runAll io acts (d.fill m)).2.read c.2 = (d.fill m).read c.1) :
    Copies.Clean (copiesOf acts) := by
  refine Copies.clean_of_faithful hxy hx hnodup fun m => ?_
  have hokm : (runAll io acts (d.fill m)).1 = .ok () := runAll_congr (d.sameShape_fill m) hok
  have hafter : ∀ c ∈ copiesOf acts, (runAll io acts (d.fill m)).2.kind c.2 = some .file := by
    intro c hc
    obtain ⟨a, ha, _, htarget⟩ := exists_target_of_mem_copiesOf hc
    exact kind_target_runAll hokm ha htarget
  have hsource : ∀ c ∈ copiesOf acts, (d.fill m).contents c.1 = m c.1 := by
    intro c hc
    have hread := h m c hc
    rw [Disk.read_eq_some_contents (hafter c hc), Disk.read_fill] at hread
    obtain ⟨bytes, hbytes, _⟩ := Option.map_eq_some_iff.mp hread.symm
    rw [Disk.contents, Disk.read_fill, hbytes]
    rfl
  intro c hc
  have hkeep : Copies.run (copiesOf acts) (d.fill m).contents c.2 = (d.fill m).contents c.1 := by
    rw [← contents_runAll hwrite hokm, Disk.contents, h m c hc, Disk.contents]
  rw [Copies.run_congr (fun e he => (hsource e he).symm) (Or.inr ⟨c, hc, rfl⟩), hkeep,
    hsource c hc]

/-! ## Programs -/

end Script

/-- A program that changes the disk and may fail, with what it did until then
left behind. -/
def DiskM (β ε α : Type) := Disk β → Except ε α × Disk β

namespace DiskM

variable {β ε α γ : Type}

instance : Monad (DiskM β ε) where
  pure a := fun d => (.ok a, d)
  bind x f := fun d =>
    match x d with
    | (.ok a, d) => f a d
    | (.error e, d) => (.error e, d)

def throw (err : ε) : DiskM β ε α := fun d => (.error err, d)

variable [EmptyCollection β] (io : IoError → ε)

def perform (a : Act β ε) : DiskM β ε Unit := a.run io

/-- The program carries out the script and, when that succeeds, returns the
value. -/
def Follows (x : DiskM β ε α) (acts : List (Act β ε)) (value : α) : Prop :=
  ∀ d, x d =
    match Script.runAll io acts d with
    | (.ok (), d) => (.ok value, d)
    | (.error e, d) => (.error e, d)

variable {io}

theorem Follows.pure (value : α) : Follows io (Pure.pure value : DiskM β ε α) [] value :=
  fun _ => rfl

theorem Follows.throw (err : ε) (value : α) :
    Follows io (DiskM.throw err : DiskM β ε α) [.fail err] value :=
  fun _ => rfl

theorem Follows.perform (a : Act β ε) : Follows io (DiskM.perform io a) [a] () := by
  intro d
  show a.run io d = _
  rw [Script.runAll_cons]
  cases a.run io d with
  | mk result d' => cases result <;> rfl

theorem Follows.bind {x : DiskM β ε α} {f : α → DiskM β ε γ} {acts acts' : List (Act β ε)}
    {a : α} {value : γ} (hx : Follows io x acts a) (hf : Follows io (f a) acts' value) :
    Follows io (x >>= f) (acts ++ acts') value := by
  intro d
  rw [Script.runAll_append]
  show (match x d with
    | (.ok a, d) => f a d
    | (.error e, d) => (.error e, d)) = _
  rw [hx d]
  cases Script.runAll io acts d with
  | mk result d' =>
    cases result with
    | error e => rfl
    | ok u => exact hf d'

theorem Follows.perform_bind (a : Act β ε) {f : Unit → DiskM β ε γ} {acts : List (Act β ε)}
    {value : γ} (hf : Follows io (f ()) acts value) :
    Follows io (DiskM.perform io a >>= f) (a :: acts) value :=
  (Follows.perform a).bind hf

theorem Follows.bind_pure {x : DiskM β ε α} {acts : List (Act β ε)} {a : α}
    (hx : Follows io x acts a) (f : α → γ) :
    Follows io (x >>= fun a => Pure.pure (f a)) acts (f a) := by
  have hbind : Follows io (x >>= fun a => Pure.pure (f a)) (acts ++ []) (f a) := hx.bind (.pure _)
  rwa [List.append_nil] at hbind

/-- A loop follows the scripts of its rounds one after the other. -/
theorem Follows.mapM' {f : γ → DiskM β ε α} {acts : γ → List (Act β ε)} {value : γ → α}
    {xs : List γ} (h : ∀ x ∈ xs, Follows io (f x) (acts x) (value x)) :
    Follows io (xs.mapM' f) (xs.flatMap acts) (xs.map value) := by
  induction xs with
  | nil => exact .pure []
  | cons x xs ih =>
    have hrest := ih fun y hy => h y (List.mem_cons_of_mem x hy)
    exact (h x List.mem_cons_self).bind (hrest.bind_pure (value x :: ·))

/-- A program that follows a script succeeds when the script does and leaves the
disk that the script leaves. -/
theorem Follows.eq_ok_iff {x : DiskM β ε α} {acts : List (Act β ε)} {value : α}
    (h : Follows io x acts value) {d d' : Disk β} {result : α} :
    x d = (.ok result, d') ↔
      result = value ∧ (Script.runAll io acts d).1 = .ok () ∧ d' = (Script.runAll io acts d).2 := by
  rw [h d]
  cases Script.runAll io acts d with
  | mk outcome d'' =>
    cases outcome with
    | error e => simp
    | ok u => simp [eq_comm]

theorem Follows.snd {x : DiskM β ε α} {acts : List (Act β ε)} {value : α}
    (h : Follows io x acts value) (d : Disk β) : (x d).2 = (Script.runAll io acts d).2 := by
  rw [h d]
  cases Script.runAll io acts d with
  | mk outcome d'' => cases outcome <;> rfl

end DiskM
end Lib
end Panops
