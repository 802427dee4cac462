import Panops.Engine.Ipc
import Panops.Engine.Paths

/-!
# The directory of a meeting

The registry says where a meeting lies; what is done there is checked first.
The check looks at the path as written, and at where it leads when something is
there.
-/

namespace Panops
namespace Engine

open Lib.Symlinks

variable {β : Type}

def meetingsRoot (dataDir : PathBuf) : PathBuf := dataDir.join "meetings"

def registryPathInvalid : IpcError := .internal "registry path invalid"

def validateMeetingDir (t : Tree OsStr β) (dataDir : PathBuf) (dirPath : String) :
    Except IpcError PathBuf :=
  let dir : PathBuf := OsStr.ofString dirPath
  let allowedRoot := meetingsRoot dataDir
  if !startsWith dir.pathname allowedRoot.pathname then .error registryPathInvalid
  else if pathExists t dir then
    match canonicalize t dir with
    | .error _ => .error registryPathInvalid
    | .ok canonicalDir =>
      let canonicalRoot :=
        match canonicalize t allowedRoot with
        | .ok l => ofLocation l
        | .error _ => allowedRoot.pathname
      if !startsWith (ofLocation canonicalDir) canonicalRoot then .error registryPathInvalid
      else .ok dir
  else .ok dir

/-- What `meeting.delete` does to the file system, when the row could be deleted. -/
def meetingDeleteDir (t : Tree OsStr β) (dataDir : PathBuf) (dirPath : String)
    (deleteMeeting : Except IpcError Unit) : Except IpcError Unit × Tree OsStr β :=
  match validateMeetingDir t dataDir dirPath with
  | .error e => (.error e, t)
  | .ok safeDir =>
    match deleteMeeting with
    | .error e => (.error e, t)
    | .ok () => (.ok (), (removeDirAll t safeDir).2)

/-- What `notes.generate` does to the file system for a meeting that exists: the
directory is made when nothing is there, and the outputs go into it. -/
def notesGenerateDir (t : Tree OsStr β) (dataDir : PathBuf) (dirPath : String)
    (outputs : List (Output OsStr β)) : Except IpcError Unit × Tree OsStr β :=
  match validateMeetingDir t dataDir dirPath with
  | .error e => (.error e, t)
  | .ok outDir =>
    if pathExists t outDir then (.ok (), emitAll t outDir outputs)
    else
      match createDirAll t outDir with
      | (.error _, t') => (.error (.internal "failed to prepare output directory"), t')
      | (.ok (), t') => (.ok (), emitAll t' outDir outputs)

/-! ## What the check lets through -/

/-- Strictly inside `data_dir/meetings`. -/
def InsideMeetings (t : Tree OsStr β) (dataDir : PathBuf) (l : Location OsStr) : Prop :=
  ∃ R, Denotes t (meetingsRoot dataDir) R ∧ Inside R l

/-- The path is refused as written; or it leads somewhere, and not to the root
itself; or nothing is there, and its part after the root leads into the root. -/
def Guarded (t : Tree OsStr β) (dataDir : PathBuf) (dirPath : String) : Prop :=
  let dir : PathBuf := OsStr.ofString dirPath
  let root := meetingsRoot dataDir
  startsWith dir.pathname root.pathname = false ∨
    match canonicalize t dir with
    | .ok l => canonicalize t root ≠ .ok l
    | .error _ => ∀ R rest l, dir.hasNul = false → Denotes t root R →
        steps dir.pathname.pieces = steps root.pathname.pieces ++ rest → Leads t R rest l →
        Inside R l

/-- The directory is no link that lies outside. -/
def LinkInside (t : Tree OsStr β) (dataDir : PathBuf) (dirPath : String) : Prop :=
  ∀ dir l target, validateMeetingDir t dataDir dirPath = .ok dir →
    lstat t dir = .ok (l, .link target) → InsideMeetings t dataDir l

/-- No output leads out of the root through a link; and when the directory is
still to be made, the root is there and no part of the path leads out of it. -/
def OutputsInside (t : Tree OsStr β) (dataDir : PathBuf) (dirPath : String)
    (outputs : List (Output OsStr β)) : Prop :=
  let dir : PathBuf := OsStr.ofString dirPath
  let root := meetingsRoot dataDir
  match canonicalize t dir with
  | .ok l => ∀ R, canonicalize t root = .ok R →
      ∀ output ∈ outputs, Confined t R l (output.names.map .name)
  | .error _ => ∀ rest, steps dir.pathname.pieces = steps root.pathname.pieces ++ rest →
      ∃ R, canonicalize t root = .ok R ∧ t.entry R = some .dir ∧ Confined t R R rest ∧
        ∀ output ∈ outputs, Confined t R R (rest ++ output.names.map .name)

/-- Only what is strictly inside `data_dir/meetings` is not as it was. -/
def OnlyInside (t : Tree OsStr β) (dataDir : PathBuf) (t' : Tree OsStr β) : Prop :=
  ∀ x, ¬ InsideMeetings t dataDir x → t'.entry x = t.entry x

theorem isName_meetings : IsName "meetings" where
  no_slash := by decide
  toPiece := by decide

section Check

variable {t : Tree OsStr β} {dataDir dir : PathBuf} {rest : List (Piece OsStr)}
  {l : Location OsStr}

theorem steps_meetingsRoot_ne_nil (dataDir : PathBuf) :
    steps (meetingsRoot dataDir).pathname.pieces ≠ [] := by
  simp [meetingsRoot, PathBuf.steps_join dataDir isName_meetings]

/-- A path that passes as written goes on from the root. -/
theorem extends_meetingsRoot
    (h : startsWith dir.pathname (meetingsRoot dataDir).pathname = true) :
    ∃ rest, Extends (meetingsRoot dataDir).pathname dir.pathname rest := by
  obtain ⟨habs, rest, hrest⟩ := startsWith_steps (steps_meetingsRoot_ne_nil dataDir) h
  exact ⟨rest, habs, hrest.symm⟩

theorem meetingsRoot_hasNul (h : Extends (meetingsRoot dataDir).pathname dir.pathname rest)
    (hdir : dir.hasNul = false) : (meetingsRoot dataDir).hasNul = false := by
  rw [← Bool.not_eq_true] at hdir ⊢
  intro hroot
  obtain ⟨n, hn, hnul⟩ := (hasNul_iff _).mp hroot
  refine hdir ((hasNul_iff _).mpr ⟨n, ?_, hnul⟩)
  rw [h.steps]
  exact List.mem_append_left _ hn

theorem Denotes.from_root (h : Extends (meetingsRoot dataDir).pathname dir.pathname rest)
    (hl : Denotes t dir l) : ∃ R, Denotes t (meetingsRoot dataDir) R ∧ Leads t R rest l := by
  have hsteps := leads_steps_iff.mpr hl.2
  rw [h.steps, h.start] at hsteps
  obtain ⟨R, hR, hrest⟩ := hsteps.split
  exact ⟨R, ⟨meetingsRoot_hasNul h hl.1, leads_steps_iff.mp hR⟩, hrest⟩

theorem denotes_of_rest (h : Extends (meetingsRoot dataDir).pathname dir.pathname rest)
    (hdir : dir.hasNul = false) {R : Location OsStr} (hR : Denotes t (meetingsRoot dataDir) R)
    (hl : Leads t R rest l) : Denotes t dir l := by
  refine ⟨hdir, leads_steps_iff.mp ?_⟩
  rw [h.steps, h.start]
  exact (leads_steps_iff.mpr hR.2).trans hl

/-- A directory that can be found under the root has the root found as well. -/
theorem canonicalize_meetingsRoot
    (h : Extends (meetingsRoot dataDir).pathname dir.pathname rest)
    (hl : canonicalize t dir = .ok l) : ∃ R, canonicalize t (meetingsRoot dataDir) = .ok R ∧
      (rest ≠ [] → t.entry R = some .dir) := by
  obtain ⟨hnul, hlookup⟩ := canonicalize_eq_ok_iff.mp hl
  have hpre : steps (meetingsRoot dataDir).pathname.pieces <+: steps dir.pathname.pieces := by
    rw [h.steps]
    exact List.prefix_append _ _
  obtain ⟨R, hR, hdir⟩ := (lookup_resolves hlookup).of_front_steps hpre
    (PathBuf.sharp_join dataDir isName_meetings)
  rw [h.start] at hR
  have hne : (meetingsRoot dataDir).pathname.pieces ≠ [] := by
    intro hnil
    apply steps_meetingsRoot_ne_nil dataDir
    rw [hnil]
    rfl
  refine ⟨R, canonicalize_eq_ok_iff.mpr ⟨meetingsRoot_hasNul h hnul, lookup_of_resolves hne hR⟩,
    fun hrest => hdir fun heq => hrest ?_⟩
  rw [h.steps] at heq
  exact List.self_eq_append_right.mp heq

/-- What the check comes to. -/
theorem validateMeetingDir_eq_ok {dirPath : String} :
    validateMeetingDir t dataDir dirPath = .ok dir ↔
      dir = OsStr.ofString dirPath ∧
      startsWith dir.pathname (meetingsRoot dataDir).pathname = true ∧
      ∀ l R, canonicalize t dir = .ok l → canonicalize t (meetingsRoot dataDir) = .ok R →
        R <+: l := by
  unfold validateMeetingDir pathExists
  cases hstarts : startsWith (PathBuf.pathname (OsStr.ofString dirPath))
      (meetingsRoot dataDir).pathname with
  | false =>
    simp only [hstarts, Bool.not_false, if_true, reduceCtorEq, false_iff]
    intro h
    rw [h.1, hstarts] at h
    cases h.2.1
  | true =>
    obtain ⟨rest, hext⟩ := extends_meetingsRoot hstarts
    cases hdir : canonicalize t (OsStr.ofString dirPath) with
    | error e =>
      simp only [hstarts, hdir, Bool.not_true, Bool.false_eq_true, if_false, Except.ok.injEq]
      constructor
      · intro h
        subst h
        refine ⟨rfl, hstarts, fun l R hl => ?_⟩
        rw [hdir] at hl
        cases hl
      · exact fun h => h.1.symm
    | ok l =>
      obtain ⟨R, hR, -⟩ := canonicalize_meetingsRoot hext hdir
      simp only [hstarts, hdir, hR, Bool.not_true, Bool.false_eq_true, if_false, if_true]
      by_cases hpre : R <+: l
      · rw [startsWith_ofLocation.mpr hpre]
        simp only [Bool.not_true, Bool.false_eq_true, if_false, Except.ok.injEq]
        constructor
        · intro h
          subst h
          refine ⟨rfl, hstarts, fun l' R' hl' hR' => ?_⟩
          rw [hdir] at hl'
          cases hl'
          cases hR'
          exact hpre
        · exact fun h => h.1.symm
      · rw [Bool.eq_false_iff.mpr (mt startsWith_ofLocation.mp hpre)]
        simp only [Bool.not_false, if_true, reduceCtorEq, false_iff]
        intro h
        rw [h.1] at h
        exact hpre (h.2.2 l R hdir rfl)

/-- What the check does not see is a path to the root itself and a path to what is
not there. -/
theorem denotes_inside_iff {dirPath : String} :
    (∀ dir, validateMeetingDir t dataDir dirPath = .ok dir →
      ∀ l, Denotes t dir l → InsideMeetings t dataDir l) ↔ Guarded t dataDir dirPath := by
  unfold Guarded
  constructor
  · intro h
    by_cases hstarts : startsWith (PathBuf.pathname (OsStr.ofString dirPath))
        (meetingsRoot dataDir).pathname = true
    · refine Or.inr ?_
      obtain ⟨rest, hext⟩ := extends_meetingsRoot hstarts
      cases hdir : canonicalize t (OsStr.ofString dirPath) with
      | ok l =>
        intro hroot
        have hok : validateMeetingDir t dataDir dirPath = .ok (OsStr.ofString dirPath) := by
          refine validateMeetingDir_eq_ok.mpr ⟨rfl, hstarts, fun l' R' hl' hR' => ?_⟩
          rw [hdir] at hl'
          rw [hroot] at hR'
          cases hl'
          cases hR'
          exact List.prefix_refl l
        obtain ⟨R, hR, hinside⟩ := h _ hok l (canonicalize_denotes hdir)
        exact hinside.2 ((canonicalize_denotes hroot).deterministic hR)
      | error e =>
        intro R rest' l hnul hR hrest' hl
        have hok : validateMeetingDir t dataDir dirPath = .ok (OsStr.ofString dirPath) := by
          refine validateMeetingDir_eq_ok.mpr ⟨rfl, hstarts, fun l' R' hl' => ?_⟩
          rw [hdir] at hl'
          cases hl'
        obtain ⟨R', hR', hinside⟩ :=
          h _ hok l (denotes_of_rest ⟨hext.absolute, hrest'⟩ hnul hR hl)
        exact hR'.deterministic hR ▸ hinside
    · exact Or.inl (by simpa using hstarts)
  · intro h dir hok l hl
    obtain ⟨rfl, hstarts, hcanonical⟩ := validateMeetingDir_eq_ok.mp hok
    obtain ⟨rest, hext⟩ := extends_meetingsRoot hstarts
    obtain ⟨R, hR, hrest⟩ := hl.from_root hext
    refine ⟨R, hR, ?_⟩
    rcases h with hfalse | h
    · rw [hstarts] at hfalse
      cases hfalse
    · cases hdir : canonicalize t (OsStr.ofString dirPath) with
      | ok l' =>
        simp only [hdir] at h
        obtain ⟨R', hR', -⟩ := canonicalize_meetingsRoot hext hdir
        obtain rfl := (canonicalize_denotes hdir).deterministic hl
        obtain rfl := (canonicalize_denotes hR').deterministic hR
        exact ⟨hcanonical l' R' hdir hR', fun heq => h (heq ▸ hR')⟩
      | error e =>
        simp only [hdir] at h
        exact h R rest l hl.1 hR hext.steps hrest

/-! ## What is done in the directory -/

theorem OnlyInside.refl (t : Tree OsStr β) (dataDir : PathBuf) : OnlyInside t dataDir t :=
  fun _ _ => rfl

theorem OnlyInside.of_untouched {R : Location OsStr} {t' : Tree OsStr β}
    (hR : Denotes t (meetingsRoot dataDir) R) (h : Untouched R t t') : OnlyInside t dataDir t' :=
  fun x hx => h x fun hinside => hx ⟨R, hR, hinside⟩

theorem OnlyInside.erase (h : InsideMeetings t dataDir l) : OnlyInside t dataDir (t.erase l) := by
  obtain ⟨R, hR, hinside⟩ := h
  exact .of_untouched hR (.erase hinside)

/-- Nothing but a link is removed under a path that nothing is found at. -/
theorem removeDirAll_of_not_found {p : Pathname OsStr} {e : Errno}
    (hlookup : t.lookup .existing p = .error e)
    (hlink : ∀ l target, t.lstat p = .ok (l, .link target) → InsideMeetings t dataDir l) :
    OnlyInside t dataDir (t.removeDirAll p).2 := by
  unfold Tree.removeDirAll
  cases hstat : t.lstat p with
  | error e => exact .refl t dataDir
  | ok found =>
    obtain ⟨l, e⟩ := found
    cases e with
    | file bytes => exact .refl t dataDir
    | link target => exact .erase (hlink l target hstat)
    | dir =>
      obtain ⟨hslot | hfound, hentry⟩ := lstat_eq_ok hstat
      · rw [lookup_of_slot hslot hentry] at hlookup
        cases hlookup
      · rw [hfound] at hlookup
        cases hlookup

theorem removeDirAll_onlyInside_iff {dirPath : String} (hguard : Guarded t dataDir dirPath)
    (hok : validateMeetingDir t dataDir dirPath = .ok dir) :
    OnlyInside t dataDir (removeDirAll t dir).2 ↔
      ∀ l target, lstat t dir = .ok (l, .link target) → InsideMeetings t dataDir l := by
  constructor
  · intro h l target hstat
    by_contra hout
    have hsame := h l hout
    unfold lstat at hstat
    unfold removeDirAll at hsame
    split at hstat
    · cases hstat
    · next hnul =>
      rw [if_neg hnul] at hsame
      simp [Tree.removeDirAll, hstat, Tree.erase, (lstat_eq_ok hstat).2] at hsame
  · intro h
    unfold removeDirAll
    unfold lstat at h
    by_cases hnul : dir.hasNul
    · rw [if_pos hnul]
      exact .refl t dataDir
    · rw [if_neg hnul] at h ⊢
      cases hlookup : t.lookup .existing dir.pathname with
      | error e => exact removeDirAll_of_not_found hlookup h
      | ok l =>
        have hl : canonicalize t dir = .ok l :=
          canonicalize_eq_ok_iff.mpr ⟨by simpa using hnul, hlookup⟩
        obtain ⟨R, hR, hinside⟩ :=
          denotes_inside_iff.mpr hguard dir hok l (canonicalize_denotes hl)
        refine .of_untouched hR (removeDirAll_found hlookup hinside fun l' target hstat => ?_)
        obtain ⟨R', hR', hinside'⟩ := h l' target hstat
        exact hR'.deterministic hR ▸ hinside'

/-- A path that goes on with nothing leads to the root. -/
theorem rest_ne_nil {R : Location OsStr}
    (hext : Extends (meetingsRoot dataDir).pathname dir.pathname rest)
    (hnul : dir.hasNul = false) (hR : Denotes t (meetingsRoot dataDir) R)
    (hinside : ∀ l, Denotes t dir l → InsideMeetings t dataDir l) : rest ≠ [] := by
  intro hnil
  have hroot : Leads t R rest R := by
    rw [hnil]
    exact .done R
  obtain ⟨R', hR', hne⟩ := hinside R (denotes_of_rest hext hnul hR hroot)
  exact hne.2 (hR.deterministic hR')

/-- Outputs into a directory that is there. -/
theorem emitAll_onlyInside {outputs : List (Output OsStr β)} {R : Location OsStr}
    (hdir : canonicalize t dir = .ok l) (hroot : canonicalize t (meetingsRoot dataDir) = .ok R)
    (hentry : t.entry R = some .dir)
    (houtputs : ∀ output ∈ outputs, Confined t R l (output.names.map .name)) :
    OnlyInside t dataDir (emitAll t dir outputs) := by
  obtain ⟨hnul, hlookup⟩ := canonicalize_eq_ok_iff.mp hdir
  unfold emitAll
  rw [hnul, if_neg Bool.false_ne_true]
  have hself : Extends dir.pathname dir.pathname [] := ⟨rfl, (List.append_nil _).symm⟩
  exact .of_untouched (canonicalize_denotes hroot)
    (emitAll_confined ⟨hlookup, hentry⟩ hself houtputs)

/-- A directory that is to be made below the root, and outputs into it. -/
theorem createDirAll_onlyInside {outputs : List (Output OsStr β)} {R : Location OsStr}
    (hext : Extends (meetingsRoot dataDir).pathname dir.pathname rest) (hne : rest ≠ [])
    (hroot : canonicalize t (meetingsRoot dataDir) = .ok R) (hentry : t.entry R = some .dir)
    (hrest : Confined t R R rest)
    (houtputs : ∀ output ∈ outputs, Confined t R R (rest ++ output.names.map .name)) :
    OnlyInside t dataDir (createDirAll t dir).2 ∧
      OnlyInside t dataDir (emitAll (createDirAll t dir).2 dir outputs) := by
  have hR := canonicalize_denotes hroot
  have hat : RootAt t (meetingsRoot dataDir).pathname R R :=
    ⟨(canonicalize_eq_ok_iff.mp hroot).2, hentry⟩
  unfold createDirAll emitAll
  by_cases hnul : dir.hasNul
  · rw [if_pos hnul, if_pos hnul]
    exact ⟨.refl t dataDir, .refl t dataDir⟩
  · rw [if_neg hnul, if_neg hnul]
    have hmade := createDirAll_confined hat hext hne hrest
    have hall := emitAll_confined (hat.grows hmade.2) hext fun output houtput =>
      hmade.2.confined (houtputs output houtput)
    exact ⟨.of_untouched hR hmade.1, .of_untouched hR (hmade.1.trans hall)⟩

theorem notesGenerateDir_onlyInside {dirPath : String} {outputs : List (Output OsStr β)}
    (hguard : Guarded t dataDir dirPath)
    (houtputs : OutputsInside t dataDir dirPath outputs) :
    OnlyInside t dataDir (notesGenerateDir t dataDir dirPath outputs).2 := by
  unfold notesGenerateDir
  cases hok : validateMeetingDir t dataDir dirPath with
  | error e => exact .refl t dataDir
  | ok dir =>
    obtain ⟨rfl, hstarts, -⟩ := validateMeetingDir_eq_ok.mp hok
    obtain ⟨rest, hext⟩ := extends_meetingsRoot hstarts
    have hinside := denotes_inside_iff.mpr hguard _ hok
    unfold OutputsInside at houtputs
    cases hdir : canonicalize t (OsStr.ofString dirPath) with
    | ok l =>
      have hexists : pathExists t (OsStr.ofString dirPath) = true := by simp [pathExists, hdir]
      simp only [hdir] at houtputs
      simp only [hexists, if_true]
      obtain ⟨R, hR, hentry⟩ := canonicalize_meetingsRoot hext hdir
      have hne := rest_ne_nil hext (canonicalize_denotes hdir).1 (canonicalize_denotes hR) hinside
      exact emitAll_onlyInside hdir hR (hentry hne) (houtputs R hR)
    | error e =>
      have hexists : pathExists t (OsStr.ofString dirPath) = false := by simp [pathExists, hdir]
      simp only [hdir] at houtputs
      obtain ⟨R, hR, hentry, hrest, houtputs⟩ := houtputs rest hext.steps
      simp only [hexists, Bool.false_eq_true, if_false]
      by_cases hnul : PathBuf.hasNul (OsStr.ofString dirPath)
      · simp only [createDirAll, hnul, if_true]
        exact .refl t dataDir
      · have hne := rest_ne_nil hext (by simpa using hnul) (canonicalize_denotes hR) hinside
        have hboth := createDirAll_onlyInside hext hne hR hentry hrest houtputs
        cases hmade : createDirAll t (OsStr.ofString dirPath) with
        | mk r t' =>
          rw [hmade] at hboth
          cases r with
          | error e => exact hboth.1
          | ok u => exact hboth.2

end Check

/-- The check keeps a path inside `data_dir/meetings` exactly when it is guarded.
A guarded directory can be deleted with nothing outside touched exactly when it is
no link that lies outside; and its notes are generated with nothing outside
touched when no output leads out. -/
theorem validateMeetingDir_guards (t : Tree OsStr β) (dataDir : PathBuf) (dirPath : String) :
    ((∀ dir, validateMeetingDir t dataDir dirPath = .ok dir →
        ∀ l, Denotes t dir l → InsideMeetings t dataDir l) ↔ Guarded t dataDir dirPath) ∧
      (Guarded t dataDir dirPath →
        ((∀ deleteMeeting,
            OnlyInside t dataDir (meetingDeleteDir t dataDir dirPath deleteMeeting).2) ↔
          LinkInside t dataDir dirPath) ∧
        ∀ outputs, OutputsInside t dataDir dirPath outputs →
          OnlyInside t dataDir (notesGenerateDir t dataDir dirPath outputs).2) := by
  refine ⟨denotes_inside_iff, fun hguard => ⟨?_, fun outputs houtputs =>
    notesGenerateDir_onlyInside hguard houtputs⟩⟩
  constructor
  · intro h dir l target hok hstat
    have hdelete := h (.ok ())
    unfold meetingDeleteDir at hdelete
    rw [hok] at hdelete
    exact (removeDirAll_onlyInside_iff hguard hok).mp hdelete l target hstat
  · intro h deleteMeeting
    unfold meetingDeleteDir
    cases hok : validateMeetingDir t dataDir dirPath with
    | error e => exact .refl t dataDir
    | ok dir =>
      cases deleteMeeting with
      | error e => exact .refl t dataDir
      | ok u =>
        exact (removeDirAll_onlyInside_iff hguard hok).mpr fun l target hstat =>
          h dir l target hok hstat

/-- One meeting under `/d/meetings`. -/
def oneMeeting : Tree OsStr String where
  entry l :=
    if l ∈ ([[], ["d"], ["d", "meetings"], ["d", "meetings", "m1"]] :
        List (List String)).map fun names => names.map OsStr.ofString then some .dir
    else none
  cwd := []
  maxLinks := 40

/-- A row whose directory is the root itself is let through, and deleting that
meeting takes every other one with it. -/
theorem validateMeetingDir_accepts_root :
    ¬ (∀ dir, validateMeetingDir oneMeeting (OsStr.ofString "/d") "/d/meetings" = .ok dir →
      ∀ l, Denotes oneMeeting dir l → InsideMeetings oneMeeting (OsStr.ofString "/d") l) ∧
    (meetingDeleteDir oneMeeting (OsStr.ofString "/d") "/d/meetings" (.ok ())).2.entry
      (["d", "meetings"].map OsStr.ofString) = none ∧
    (meetingDeleteDir oneMeeting (OsStr.ofString "/d") "/d/meetings" (.ok ())).2.entry
      (["d", "meetings", "m1"].map OsStr.ofString) = none := by
  let root : Location OsStr := ["d", "meetings"].map OsStr.ofString
  let path : PathBuf := OsStr.ofString "/d/meetings"
  have hok : validateMeetingDir oneMeeting (OsStr.ofString "/d") "/d/meetings" = .ok path := rfl
  have hroot : canonicalize oneMeeting path = .ok root := rfl
  have hnul : path.hasNul = false := rfl
  have hstat : oneMeeting.lstat path.pathname = .ok (root, .dir) := rfl
  have hslot : (oneMeeting.eraseBelow root).slot path.pathname = .ok root := rfl
  have hempty : (oneMeeting.eraseBelow root).entry root = some .dir := rfl
  have hdelete : (meetingDeleteDir oneMeeting (OsStr.ofString "/d") "/d/meetings" (.ok ())).2 =
      (oneMeeting.eraseBelow root).erase root := by
    simp only [meetingDeleteDir, hok, removeDirAll, hnul, Bool.false_eq_true, if_false,
      Tree.removeDirAll, hstat, Tree.rmdir, hslot, hempty]
  rw [hdelete]
  refine ⟨fun h => ?_, rfl, rfl⟩
  obtain ⟨R, hR, hinside⟩ := h path hok root (canonicalize_denotes hroot)
  exact hinside.2 ((canonicalize_denotes hroot).deterministic hR)

theorem oneMeeting_no_link (l : Location OsStr) (target : Pathname OsStr) :
    oneMeeting.entry l ≠ some (.link target) := by
  unfold oneMeeting
  simp only
  split <;> simp

theorem validateMeetingDir_guards_meeting :
    OnlyInside oneMeeting (OsStr.ofString "/d")
      (meetingDeleteDir oneMeeting (OsStr.ofString "/d") "/d/meetings/m1" (.ok ())).2 ∧
    OnlyInside oneMeeting (OsStr.ofString "/d")
      (notesGenerateDir oneMeeting (OsStr.ofString "/d") "/d/meetings/m1"
        [.file (OsStr.ofString "notes.md") [] "# Notes"]).2 := by
  let meeting : Location OsStr := ["d", "meetings", "m1"].map OsStr.ofString
  let root : Location OsStr := ["d", "meetings"].map OsStr.ofString
  have hdir : canonicalize oneMeeting (OsStr.ofString "/d/meetings/m1") = .ok meeting := rfl
  have hroot : canonicalize oneMeeting (meetingsRoot (OsStr.ofString "/d")) = .ok root := rfl
  have hguard : Guarded oneMeeting (OsStr.ofString "/d") "/d/meetings/m1" := by
    refine Or.inr ?_
    simp only [hdir, hroot]
    intro h
    have hlength : root.length = meeting.length := congrArg List.length (Except.ok.inj h)
    exact absurd hlength (by decide)
  have hboth := (validateMeetingDir_guards oneMeeting (OsStr.ofString "/d") "/d/meetings/m1").2
    hguard
  refine ⟨hboth.1.mpr (fun dir l target hok hstat => ?_) _, hboth.2 _ ?_⟩
  · unfold lstat at hstat
    split at hstat
    · cases hstat
    · exact absurd (lstat_eq_ok hstat).2 (oneMeeting_no_link l target)
  · unfold OutputsInside
    simp only [hdir]
    intro R hR output _
    rw [hroot] at hR
    cases hR
    exact confined_names oneMeeting_no_link (List.prefix_append root _) _

end Engine
end Panops
