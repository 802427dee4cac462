import Mathlib.Logic.Function.Basic
import Panops.Storage.Atomicity

/-!
# Notes jobs on one meeting

A save and a generation of notes both change `notes.md` first and the registry
later.  Any number of them take their steps in any order.
-/

namespace Panops
namespace Engine

open Storage

inductive NotesJob where
  /-- `notes.save`: write a partial file, rename it to `notes.md`, replace the row. -/
  | save (noteId markdown primaryPath : String)
  /-- `notes.generate`: export `notes.md`, read it back, add a row. -/
  | generate (noteId dialect markdown primaryPath : String)

namespace NotesJob

/-- What the job puts into `notes.md`. -/
def markdown : NotesJob → String
  | save _ markdown _ => markdown
  | generate _ _ markdown _ => markdown

/-- How many of its steps a job has taken when it puts it there. -/
def publishesAt : NotesJob → Nat
  | save .. => 1
  | generate .. => 0

def draft (meetingId contentMd : String) : NotesJob → NoteDraft
  | save noteId _ primaryPath =>
    { id := noteId, meetingId := meetingId, dialect := "basic", contentMd := contentMd,
      primaryPath := primaryPath }
  | generate noteId dialect _ primaryPath =>
    { id := noteId, meetingId := meetingId, dialect := dialect, contentMd := contentMd,
      primaryPath := primaryPath }

def record (ambient : Ambient) (meetingId contentMd : String) (job : NotesJob) (t : Tables) :
    Except StorageError Note × Tables :=
  match job with
  | save .. => Registry.replaceMeetingNote ambient meetingId (job.draft meetingId contentMd) t
  | generate .. => Registry.createNote ambient (job.draft meetingId contentMd) t

end NotesJob

/-- How far a job is.  A job that is to write its row has the content for it. -/
inductive Phase where
  | ready
  | written
  | taken (contentMd : String)
  | done
deriving DecidableEq

def Phase.steps : Phase → Nat
  | ready => 0
  | written => 1
  | taken _ => 2
  | done => 3

structure Board (ι : Type) where
  notesMd : Option String
  tables : Tables
  phase : ι → Phase

variable {ι : Type} [DecidableEq ι]

section Steps

variable (meetingId : String) (jobs : ι → NotesJob)

/-- The next step of job `i`; none when it fails or has no step left. -/
def nextStep (s : Board ι) (i : ι) (ambient : Ambient) : Option (Board ι) :=
  match s.phase i, jobs i with
  | .ready, .save .. => some { s with phase := Function.update s.phase i .written }
  | .written, .save _ markdown _ =>
    some { s with
      notesMd := some markdown
      phase := Function.update s.phase i (.taken markdown) }
  | .ready, .generate _ _ markdown _ =>
    some { s with
      notesMd := some markdown
      phase := Function.update s.phase i .written }
  | .written, .generate .. =>
    s.notesMd.map fun contentMd =>
      { s with phase := Function.update s.phase i (.taken contentMd) }
  | .taken contentMd, job =>
    match job.record ambient meetingId contentMd s.tables with
    | (.error _, _) => none
    | (.ok _, t) => some { s with tables := t, phase := Function.update s.phase i .done }
  | .done, _ => none

/-- A schedule, its latest step first. -/
def runJobs (start : Board ι) : List (ι × Ambient) → Option (Board ι)
  | [] => some start
  | (i, ambient) :: earlier =>
    (runJobs start earlier).bind fun s => nextStep meetingId jobs s i ambient

end Steps

/-- The newest row of the meeting has what is on disk. -/
def Agrees (meetingId : String) (s : Board ι) : Prop :=
  (RusqliteStorage.notesOf meetingId s.tables).getLast?.map Note.contentMd = s.notesMd

/-! ## What a schedule says -/

/-- What was put into `notes.md` last, the latest step first. -/
def lastPublished (jobs : ι → NotesJob) : List ι → Option String
  | [] => none
  | i :: earlier =>
    if earlier.count i = (jobs i).publishesAt then some (jobs i).markdown
    else lastPublished jobs earlier

/-- What was in `notes.md` after the second step of job `i`: what the job itself has
put there, or what it has read back. -/
def takenBy (jobs : ι → NotesJob) (i : ι) : List ι → Option String
  | [] => none
  | j :: earlier =>
    if j = i ∧ earlier.count i = 1 then lastPublished jobs (j :: earlier)
    else takenBy jobs i earlier

variable {meetingId : String} {jobs : ι → NotesJob} {i : ι} {order : List ι}

theorem lastPublished_of_count (h : (jobs i).publishesAt < order.count i) :
    ∃ markdown, lastPublished jobs order = some markdown := by
  induction order with
  | nil => simp at h
  | cons j earlier ih =>
    unfold lastPublished
    by_cases hj : earlier.count j = (jobs j).publishesAt
    · exact ⟨_, if_pos hj⟩
    · rw [if_neg hj]
      apply ih
      by_cases heq : j = i
      · subst heq
        rw [List.count_cons_self] at h
        omega
      · rwa [List.count_cons_of_ne heq] at h

structure Inv (jobs : ι → NotesJob) (s : Board ι) (order : List ι) : Prop where
  steps : ∀ i, (s.phase i).steps = order.count i
  notesMd : ∀ markdown, lastPublished jobs order = some markdown → s.notesMd = some markdown
  taken : ∀ i contentMd, s.phase i = .taken contentMd → takenBy jobs i order = some contentMd

/-! ## Steps -/

/-- All that a step can do. -/
theorem nextStep_cases {s s' : Board ι} {ambient : Ambient}
    (h : nextStep meetingId jobs s i ambient = some s') :
    (s.phase i = .ready ∧ (jobs i).publishesAt = 1 ∧
      s' = { s with phase := Function.update s.phase i .written }) ∨
    (s.phase i = .ready ∧ (jobs i).publishesAt = 0 ∧
      s' = { s with
        notesMd := some (jobs i).markdown
        phase := Function.update s.phase i .written }) ∨
    (s.phase i = .written ∧ (jobs i).publishesAt = 1 ∧
      s' = { s with
        notesMd := some (jobs i).markdown
        phase := Function.update s.phase i (.taken (jobs i).markdown) }) ∨
    (∃ contentMd, s.phase i = .written ∧ (jobs i).publishesAt = 0 ∧ s.notesMd = some contentMd ∧
      s' = { s with phase := Function.update s.phase i (.taken contentMd) }) ∨
    ∃ contentMd note t, s.phase i = .taken contentMd ∧
      (jobs i).record ambient meetingId contentMd s.tables = (.ok note, t) ∧
      s' = { s with tables := t, phase := Function.update s.phase i .done } := by
  unfold nextStep at h
  cases hphase : s.phase i with
  | ready =>
    cases hjob : jobs i with
    | save noteId markdown primaryPath =>
      simp only [hphase, hjob, Option.some.injEq] at h
      exact Or.inl ⟨rfl, rfl, h.symm⟩
    | generate noteId dialect markdown primaryPath =>
      simp only [hphase, hjob, Option.some.injEq] at h
      exact Or.inr (Or.inl ⟨rfl, rfl, h.symm⟩)
  | written =>
    cases hjob : jobs i with
    | save noteId markdown primaryPath =>
      simp only [hphase, hjob, Option.some.injEq] at h
      exact Or.inr (Or.inr (Or.inl ⟨rfl, rfl, h.symm⟩))
    | generate noteId dialect markdown primaryPath =>
      simp only [hphase, hjob, Option.map_eq_some_iff] at h
      obtain ⟨contentMd, hcontent, hs'⟩ := h
      exact Or.inr (Or.inr (Or.inr (Or.inl ⟨contentMd, rfl, rfl, hcontent, hs'.symm⟩)))
  | taken contentMd =>
    simp only [hphase] at h
    split at h
    · cases h
    · next note t hrecord =>
      exact Or.inr (Or.inr (Or.inr (Or.inr ⟨contentMd, note, t, rfl, hrecord,
        (Option.some.inj h).symm⟩)))
  | done => simp [hphase] at h

theorem steps_update {s : Board ι} (hsteps : ∀ j, (s.phase j).steps = order.count j) {p : Phase}
    (hp : p.steps = (s.phase i).steps + 1) :
    ∀ j, (Function.update s.phase i p j).steps = (i :: order).count j := by
  intro j
  by_cases heq : j = i
  · subst heq
    rw [Function.update_self, List.count_cons_self, hp, hsteps]
  · rw [Function.update_of_ne heq, List.count_cons_of_ne (Ne.symm heq), hsteps]

theorem takenBy_cons_of_count {j : ι} (h : order.count i ≠ 1 ∨ j ≠ i) :
    takenBy jobs j (i :: order) = takenBy jobs j order := by
  rw [takenBy, if_neg]
  intro hboth
  obtain ⟨rfl, hcount⟩ := hboth
  rcases h with h | h
  · exact h hcount
  · exact h rfl

theorem takenBy_second (h : order.count i = 1) :
    takenBy jobs i (i :: order) = lastPublished jobs (i :: order) := by
  rw [takenBy, if_pos ⟨rfl, h⟩]

theorem lastPublished_publish (h : order.count i = (jobs i).publishesAt) :
    lastPublished jobs (i :: order) = some (jobs i).markdown := by
  rw [lastPublished, if_pos h]

theorem lastPublished_other (h : order.count i ≠ (jobs i).publishesAt) :
    lastPublished jobs (i :: order) = lastPublished jobs order := by
  rw [lastPublished, if_neg h]

/-- The phases after a step of job `i`, when the step takes no content. -/
theorem taken_update {s : Board ι} {p : Phase} (hp : ∀ contentMd, p ≠ .taken contentMd)
    (hcount : order.count i ≠ 1) (h : ∀ j c, s.phase j = .taken c → takenBy jobs j order = some c) :
    ∀ j c, Function.update s.phase i p j = .taken c → takenBy jobs j (i :: order) = some c := by
  intro j c hj
  rw [takenBy_cons_of_count (Or.inl hcount)]
  by_cases heq : j = i
  · subst heq
    rw [Function.update_self] at hj
    exact absurd hj (hp c)
  · rw [Function.update_of_ne heq] at hj
    exact h j c hj

/-- And when it does. -/
theorem taken_second {s : Board ι} {contentMd : String}
    (hcount : order.count i = 1) (hlast : lastPublished jobs (i :: order) = some contentMd)
    (h : ∀ j c, s.phase j = .taken c → takenBy jobs j order = some c) :
    ∀ j c, Function.update s.phase i (.taken contentMd) j = .taken c →
      takenBy jobs j (i :: order) = some c := by
  intro j c hj
  by_cases heq : j = i
  · subst heq
    rw [Function.update_self] at hj
    rw [takenBy_second hcount, hlast, Phase.taken.inj hj]
  · rw [Function.update_of_ne heq] at hj
    rw [takenBy_cons_of_count (Or.inr heq)]
    exact h j c hj

theorem inv_step {s s' : Board ι} {ambient : Ambient} (hinv : Inv jobs s order)
    (h : nextStep meetingId jobs s i ambient = some s') : Inv jobs s' (i :: order) := by
  have hcount := hinv.steps i
  rcases nextStep_cases h with ⟨hphase, hat, rfl⟩ | ⟨hphase, hat, rfl⟩ | ⟨hphase, hat, rfl⟩ |
    ⟨contentMd, hphase, hat, hmd, rfl⟩ | ⟨contentMd, note, t, hphase, hrecord, rfl⟩
  · rw [hphase, Phase.steps] at hcount
    refine ⟨steps_update hinv.steps (by rw [hphase]; rfl), fun markdown hlast => ?_,
      taken_update (by simp) (by omega) hinv.taken⟩
    rw [lastPublished_other (by omega)] at hlast
    exact hinv.notesMd markdown hlast
  · rw [hphase, Phase.steps] at hcount
    refine ⟨steps_update hinv.steps (by rw [hphase]; rfl), fun markdown hlast => ?_,
      taken_update (by simp) (by omega) hinv.taken⟩
    rw [lastPublished_publish (by omega)] at hlast
    exact hlast
  · rw [hphase, Phase.steps] at hcount
    have hlast : lastPublished jobs (i :: order) = some (jobs i).markdown :=
      lastPublished_publish (by omega)
    refine ⟨steps_update hinv.steps (by rw [hphase]; rfl), fun markdown hmarkdown => ?_,
      taken_second hcount.symm hlast hinv.taken⟩
    rw [hlast] at hmarkdown
    exact hmarkdown
  · rw [hphase, Phase.steps] at hcount
    obtain ⟨markdown, hpublished⟩ := @lastPublished_of_count _ _ jobs i order (by omega)
    have hsame : lastPublished jobs (i :: order) = lastPublished jobs order :=
      lastPublished_other (by omega)
    have hlast : lastPublished jobs (i :: order) = some contentMd := by
      rw [hsame, hpublished, ← hinv.notesMd markdown hpublished, hmd]
    refine ⟨steps_update hinv.steps (by rw [hphase]; rfl), fun markdown hmarkdown => ?_,
      taken_second hcount.symm hlast hinv.taken⟩
    rw [hsame] at hmarkdown
    exact hinv.notesMd markdown hmarkdown
  · rw [hphase, Phase.steps] at hcount
    have hat : (jobs i).publishesAt < 2 := by cases jobs i <;> simp [NotesJob.publishesAt]
    refine ⟨steps_update hinv.steps (by rw [hphase]; rfl), fun markdown hlast => ?_,
      taken_update (by simp) (by omega) hinv.taken⟩
    rw [lastPublished_other (by omega)] at hlast
    exact hinv.notesMd markdown hlast

theorem inv_run {start s : Board ι} (hstart : ∀ i, start.phase i = .ready)
    {schedule : List (ι × Ambient)} (h : runJobs meetingId jobs start schedule = some s) :
    Inv jobs s (schedule.map Prod.fst) := by
  induction schedule generalizing s with
  | nil =>
    cases h
    refine ⟨fun i => ?_, fun _ hlast => (nomatch hlast), fun i c hphase => ?_⟩
    · rw [hstart]
      rfl
    · rw [hstart] at hphase
      cases hphase
  | cons last earlier ih =>
    obtain ⟨before, hbefore, hlast⟩ := Option.bind_eq_some_iff.mp h
    exact inv_step (ih hbefore) hlast

/-- The row that a job writes has the content that it took. -/
theorem newest_of_record {job : NotesJob} {ambient : Ambient} {contentMd : String}
    {note : Note} {t t' : Tables}
    (h : job.record ambient meetingId contentMd t = (.ok note, t')) :
    (RusqliteStorage.notesOf meetingId t').getLast?.map Note.contentMd = some contentMd := by
  cases job with
  | save noteId markdown primaryPath =>
    have hok := Registry.replaceMeetingNote_ok (congrArg Prod.fst h)
    have ht : t' = _ := (congrArg Prod.snd h).symm.trans hok.2
    have hone := @RusqliteStorage.notesOf_replaced meetingId
      ((NotesJob.draft meetingId contentMd (.save noteId markdown primaryPath)).toNote
        ambient.now) rfl t
    rw [ht, hone]
    rfl
  | generate noteId dialect markdown primaryPath =>
    simp only [NotesJob.record, Registry.createNote] at h
    split at h
    · split at h
      · cases h
      · cases h
        rw [RusqliteStorage.notesOf, List.filter_append, List.filter_singleton]
        simp [NotesJob.draft, NoteDraft.toNote]
    · cases h

/-- When every job is done, the newest row has what is on disk exactly when the job
that wrote its row last had taken what was published last. -/
theorem agrees_iff {start s : Board ι} (hstart : ∀ i, start.phase i = .ready)
    {last : ι} {ambient : Ambient} {earlier : List (ι × Ambient)}
    (hrun : runJobs meetingId jobs start ((last, ambient) :: earlier) = some s)
    (hdone : ∀ i, s.phase i = .done) :
    Agrees meetingId s ↔
      takenBy jobs last (earlier.map Prod.fst) = lastPublished jobs (earlier.map Prod.fst) := by
  obtain ⟨before, hbefore, hlast⟩ := Option.bind_eq_some_iff.mp hrun
  have hinv := inv_run hstart hbefore
  have hphase := hdone last
  have hcount := hinv.steps last
  rcases nextStep_cases hlast with ⟨-, -, rfl⟩ | ⟨-, -, rfl⟩ | ⟨-, -, rfl⟩ | ⟨_, -, -, -, rfl⟩ |
    ⟨contentMd, note, t, htaken, hrecord, rfl⟩
  · simp at hphase
  · simp at hphase
  · simp at hphase
  · simp at hphase
  · have hat : (jobs last).publishesAt < 2 := by cases jobs last <;> simp [NotesJob.publishesAt]
    rw [htaken, Phase.steps] at hcount
    obtain ⟨markdown, hpublished⟩ := @lastPublished_of_count _ _ jobs last
      (earlier.map Prod.fst) (by omega)
    have hnewest := newest_of_record hrecord
    have hdisk := hinv.notesMd markdown hpublished
    unfold Agrees
    rw [hinv.taken last contentMd htaken, hpublished]
    simp only [hnewest, hdisk]

/-! ## Two saves -/

def twoSaves : Bool → NotesJob
  | false => .save "n0" "# A" "/data/meetings/m/notes.md"
  | true => .save "n1" "# B" "/data/meetings/m/notes.md"

def twoSavesStart : Board Bool where
  notesMd := none
  tables := { Tables.empty with meeting := [RusqliteStorage.weekly.row none none] }
  phase := fun _ => .ready

/-- The jobs in turn as given, the latest first. -/
def inOrder (order : List Bool) : List (Bool × Ambient) :=
  order.map fun i => (i, RusqliteStorage.atNine)

/-- The second save renames its file after the first, and the first writes its row
after the second. -/
def crossed : List (Bool × Ambient) := inOrder [false, true, true, false, true, false]

theorem crossed_runs : (runJobs "m" twoSaves twoSavesStart crossed).isSome = true := by
  decide +kernel

theorem not_agrees_crossed : ¬ ∀ (schedule : List (Bool × Ambient)) (s : Board Bool),
    runJobs "m" twoSaves twoSavesStart schedule = some s → (∀ i, s.phase i = .done) →
      Agrees "m" s := by
  intro h
  have hagrees := h crossed _ (Option.some_get crossed_runs).symm (by decide +kernel)
  unfold Agrees at hagrees
  revert hagrees
  decide +kernel

/-- One after the other. -/
def apart : List (Bool × Ambient) := inOrder [true, true, true, false, false, false]

theorem apart_runs : (runJobs "m" twoSaves twoSavesStart apart).isSome = true := by
  decide +kernel

theorem agrees_apart : Agrees "m" ((runJobs "m" twoSaves twoSavesStart apart).get apart_runs) :=
  (agrees_iff (fun _ => rfl) (Option.some_get apart_runs).symm (by decide +kernel)).mpr
    (by decide +kernel)

end Engine
end Panops
