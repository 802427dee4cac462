import Mathlib.Logic.Function.Basic
import Panops.Engine.Ipc
import Panops.Lib.Semaphore
import Panops.Lib.Transitions

/-!
# Tasks that generate notes

`enqueue_notes_job` answers with the id of a job at once.  The task of the job waits
for a permit, runs the pipeline on a thread of its own and reports what became of it.
-/

namespace Panops
namespace Engine

open Lib
open Lib.Transitions

def maxConcurrentNotesJobs : Nat := 2

structure JobProgress where
  stage : String
  current : Option Nat
  total : Option Nat
  message : Option String
deriving DecidableEq

inductive JobEventKind (ρ : Type) where
  | progress (report : JobProgress)
  | done (result : ρ)
  | error (error : IpcError)
deriving DecidableEq

structure JobEvent (ρ : Type) where
  jobId : String
  kind : JobEventKind ρ
deriving DecidableEq

/-- Why the thread of a pipeline gives no result. -/
inductive JoinError where
  | panic
  | cancelled (text : String)
deriving DecidableEq

/-- How far the task of a job is. -/
inductive TaskStage (ρ : Type) where
  | idle
  | accepted
  | waiting
  /-- The semaphore is closed. -/
  | refused
  | granted
  | running
  /-- The pipeline is over, its event is not sent. -/
  | returned (outcome : Except IpcError ρ)
  /-- What the thread has taken with it is still to be dropped. -/
  | sent
  | joinFailed (e : JoinError)
  | finished
deriving DecidableEq

structure NotesTasks (ι ρ : Type) where
  semaphore : Semaphore ι
  /-- What has been sent to `events_tx`, the first event first. -/
  log : List (JobEvent ρ)
  stage : ι → TaskStage ρ

inductive TaskStep (ρ : Type) where
  | accept
  /-- `acquire_owned`, asked for and answered. -/
  | join
  | grant
  | refuse
  /-- The task sends the event of a refusal or of a thread that failed. -/
  | report
  | spawn
  | cancel (text : String)
  | progress (report : JobProgress)
  | return (outcome : Except IpcError ρ)
  | panic
  | send
  | drop
deriving DecidableEq

inductive TaskEvent (ι ρ : Type) where
  | task (i : ι) (step : TaskStep ρ)
  | closeSemaphore
deriving DecidableEq

def closedError : IpcError := .internal "notes.generate internal error"

def JoinError.error : JoinError → IpcError
  | .panic => .internal "pipeline panicked"
  | .cancelled text => .internal ("pipeline cancelled: " ++ text)

def outcomeKind {ρ : Type} : Except IpcError ρ → JobEventKind ρ
  | .ok result => .done result
  | .error e => .error e

variable {ι ρ : Type} [DecidableEq ι]

section Steps

/- `jobId` draws the ids.  `dropPanics` are the jobs for which the destructor of
something the thread has taken with it panics.  The `Drop` implementations of the source,
which run with the last of the services, ignore every error and do not panic. -/
variable (jobId : ι → String) (dropPanics : ι → Bool)

def notesStep (s : NotesTasks ι ρ) : TaskEvent ι ρ → Option (NotesTasks ι ρ)
  | .closeSemaphore => some { s with semaphore := s.semaphore.close }
  | .task i step =>
    match s.stage i, step with
    | .idle, .accept => some { s with stage := Function.update s.stage i .accepted }
    | .accepted, .join =>
      if s.semaphore.closed then
        some { s with stage := Function.update s.stage i .refused }
      else
        some { s with
          semaphore := s.semaphore.join i
          stage := Function.update s.stage i .waiting }
    | .waiting, .grant =>
      match s.semaphore.grant i with
      | none => none
      | some semaphore =>
        some { s with semaphore := semaphore, stage := Function.update s.stage i .granted }
    | .waiting, .refuse =>
      match s.semaphore.refuse i with
      | none => none
      | some semaphore =>
        some { s with semaphore := semaphore, stage := Function.update s.stage i .refused }
    | .refused, .report =>
      some { s with
        log := s.log ++ [⟨jobId i, .error closedError⟩]
        stage := Function.update s.stage i .finished }
    | .granted, .spawn => some { s with stage := Function.update s.stage i .running }
    | .granted, .cancel text =>
      some { s with
        semaphore := s.semaphore.release
        stage := Function.update s.stage i (.joinFailed (.cancelled text)) }
    | .running, .progress report => some { s with log := s.log ++ [⟨jobId i, .progress report⟩] }
    | .running, .return outcome =>
      some { s with stage := Function.update s.stage i (.returned outcome) }
    | .running, .panic =>
      some { s with
        semaphore := s.semaphore.release
        stage := Function.update s.stage i (.joinFailed .panic) }
    | .returned _, .panic =>
      some { s with
        semaphore := s.semaphore.release
        stage := Function.update s.stage i (.joinFailed .panic) }
    | .returned outcome, .send =>
      some { s with
        log := s.log ++ [⟨jobId i, outcomeKind outcome⟩]
        stage := Function.update s.stage i .sent }
    | .sent, .drop =>
      some { s with
        semaphore := s.semaphore.release
        stage := Function.update s.stage i
          (if dropPanics i then .joinFailed .panic else .finished) }
    | .joinFailed e, .report =>
      some { s with
        log := s.log ++ [⟨jobId i, .error e.error⟩]
        stage := Function.update s.stage i .finished }
    | _, _ => none

end Steps

def NotesTasks.start : NotesTasks ι ρ where
  semaphore := Semaphore.new maxConcurrentNotesJobs
  log := []
  stage _ := .idle

/-! ## What a step can do -/

/-- A permit is with the task. -/
def TaskStage.Holds : TaskStage ρ → Prop
  | .granted => True
  | .running => True
  | .returned _ => True
  | .sent => True
  | _ => False

/-- One constructor for each way in which the task `i` goes on: what it makes of the
semaphore, what it sends and where it is then. -/
inductive Turn (i : ι) (dropPanics : Bool) (sem : Semaphore ι) :
    TaskStage ρ → TaskStep ρ → Semaphore ι → List (JobEventKind ρ) → TaskStage ρ → Prop
  | accept : Turn i dropPanics sem .idle .accept sem [] .accepted
  | tooLate : sem.closed = true → Turn i dropPanics sem .accepted .join sem [] .refused
  | join : sem.closed = false → Turn i dropPanics sem .accepted .join (sem.join i) [] .waiting
  | grant {sem' : Semaphore ι} :
      sem.grant i = some sem' → Turn i dropPanics sem .waiting .grant sem' [] .granted
  | refuse {sem' : Semaphore ι} :
      sem.refuse i = some sem' → Turn i dropPanics sem .waiting .refuse sem' [] .refused
  | reportClosed : Turn i dropPanics sem .refused .report sem [.error closedError] .finished
  | spawn : Turn i dropPanics sem .granted .spawn sem [] .running
  | cancel {text : String} :
      Turn i dropPanics sem .granted (.cancel text) sem.release [] (.joinFailed (.cancelled text))
  | progress {report : JobProgress} :
      Turn i dropPanics sem .running (.progress report) sem [.progress report] .running
  | return {outcome : Except IpcError ρ} :
      Turn i dropPanics sem .running (.return outcome) sem [] (.returned outcome)
  | panic : Turn i dropPanics sem .running .panic sem.release [] (.joinFailed .panic)
  | panicReturned {outcome : Except IpcError ρ} :
      Turn i dropPanics sem (.returned outcome) .panic sem.release [] (.joinFailed .panic)
  | send {outcome : Except IpcError ρ} :
      Turn i dropPanics sem (.returned outcome) .send sem [outcomeKind outcome] .sent
  | drop : dropPanics = false → Turn i dropPanics sem .sent .drop sem.release [] .finished
  | panicSent : dropPanics = true →
      Turn i dropPanics sem .sent .drop sem.release [] (.joinFailed .panic)
  | reportJoin {e : JoinError} :
      Turn i dropPanics sem (.joinFailed e) .report sem [.error e.error] .finished

section Inversion

variable {jobId : ι → String} {dropPanics : ι → Bool} {s s' : NotesTasks ι ρ} {i : ι}

theorem turn_of_notesStep {step : TaskStep ρ}
    (h : notesStep jobId dropPanics s (.task i step) = some s') :
    ∃ sem kinds st, Turn i (dropPanics i) s.semaphore (s.stage i) step sem kinds st ∧
      s' = ⟨sem, s.log ++ kinds.map fun kind => ⟨jobId i, kind⟩, Function.update s.stage i st⟩ := by
  have hself : ∀ {st}, s.stage i = st → Function.update s.stage i st = s.stage := by
    intro st hst
    rw [← hst, Function.update_eq_self]
  unfold notesStep at h
  cases hstage : s.stage i <;> cases step <;> simp only [hstage] at h
  all_goals try cases h
  case idle.accept => exact ⟨_, [], _, .accept, by simp⟩
  case accepted.join =>
    split at h
    · next hclosed =>
      cases h
      exact ⟨_, [], _, .tooLate hclosed, by simp⟩
    · next hopen =>
      cases h
      exact ⟨_, [], _, .join (by simpa using hopen), by simp⟩
  case waiting.grant =>
    split at h
    · cases h
    · next hgrant =>
      cases h
      exact ⟨_, [], _, .grant hgrant, by simp⟩
  case waiting.refuse =>
    split at h
    · cases h
    · next hrefuse =>
      cases h
      exact ⟨_, [], _, .refuse hrefuse, by simp⟩
  case refused.report => exact ⟨_, _, _, .reportClosed, by simp⟩
  case granted.spawn => exact ⟨_, [], _, .spawn, by simp⟩
  case granted.cancel text =>
    exact ⟨_, [], .joinFailed (.cancelled text), .cancel, by simp⟩
  case running.progress report =>
    exact ⟨_, [.progress report], _, .progress, by simp [hself hstage]⟩
  case running.return outcome => exact ⟨_, [], .returned outcome, .return, by simp⟩
  case running.panic => exact ⟨_, [], _, .panic, by simp⟩
  case returned.panic => exact ⟨_, [], _, .panicReturned, by simp⟩
  case returned.send outcome => exact ⟨_, [outcomeKind outcome], _, .send, by simp⟩
  case sent.drop =>
    cases hdrop : dropPanics i with
    | false => exact ⟨_, [], _, .drop rfl, by simp⟩
    | true => exact ⟨_, [], _, .panicSent rfl, by simp⟩
  case joinFailed.report e => exact ⟨_, [.error e.error], _, .reportJoin, by simp⟩

/-- Every turn is a step. -/
theorem notesStep_of_turn {step : TaskStep ρ} {sem : Semaphore ι} {kinds : List (JobEventKind ρ)}
    {st st' : TaskStage ρ} (hstage : s.stage i = st)
    (h : Turn i (dropPanics i) s.semaphore st step sem kinds st') :
    notesStep jobId dropPanics s (.task i step) =
      some ⟨sem, s.log ++ kinds.map fun kind => ⟨jobId i, kind⟩,
        Function.update s.stage i st'⟩ := by
  cases h with
  | grant hgrant => simp [notesStep, hstage, hgrant]
  | refuse hrefuse => simp [notesStep, hstage, hrefuse]
  | progress =>
    have hself : Function.update s.stage i .running = s.stage := by
      rw [← hstage, Function.update_eq_self]
    simp [notesStep, hstage, hself]
  | _ => simp_all [notesStep]

theorem run_turn {step : TaskStep ρ} {sem : Semaphore ι} {kinds : List (JobEventKind ρ)}
    {st st' : TaskStage ρ} (events : List (TaskEvent ι ρ)) (hstage : s.stage i = st)
    (h : Turn i (dropPanics i) s.semaphore st step sem kinds st') :
    run (notesStep jobId dropPanics) s (.task i step :: events) =
      run (notesStep jobId dropPanics) ⟨sem, s.log ++ kinds.map fun kind => ⟨jobId i, kind⟩,
        Function.update s.stage i st'⟩ events := by
  rw [run, notesStep_of_turn hstage h]

end Inversion

/-! ## Permits and the queue -/

namespace Turn

variable {i : ι} {dropPanics : Bool} {sem sem' : Semaphore ι} {st st' : TaskStage ρ}
  {step : TaskStep ρ} {kinds : List (JobEventKind ρ)}

/-- A permit comes with a grant and goes with a release. -/
theorem holds (h : Turn i dropPanics sem st step sem' kinds st') :
    ((st'.Holds ↔ st.Holds) ∧ sem'.permits = sem.permits) ∨
      (¬ st.Holds ∧ st'.Holds ∧ sem.grant i = some sem') ∨
      (st.Holds ∧ ¬ st'.Holds ∧ sem' = sem.release) := by
  cases h with
  | refuse hrefuse =>
    obtain ⟨-, -, rfl⟩ := Semaphore.refuse_eq_some_iff.mp hrefuse
    exact Or.inl ⟨Iff.rfl, rfl⟩
  | _ => simp_all [TaskStage.Holds, Semaphore.join]

/-- The task is in the queue from its `join` to a grant or a refusal. -/
theorem waits (h : Turn i dropPanics sem st step sem' kinds st') :
    ((st' = .waiting ↔ st = .waiting) ∧ sem'.waiters = sem.waiters) ∨
      (st ≠ .waiting ∧ st' = .waiting ∧ sem' = sem.join i) ∨
      (st' ≠ .waiting ∧ (sem.grant i = some sem' ∨ sem.refuse i = some sem')) := by
  cases h <;> simp_all [Semaphore.release]

end Turn

structure TasksInv (s : NotesTasks ι ρ) : Prop where
  keeps : s.semaphore.Keeps maxConcurrentNotesJobs fun i => (s.stage i).Holds
  queues : s.semaphore.Queues fun i => s.stage i = .waiting

section Inv

variable {jobId : ι → String} {dropPanics : ι → Bool}

omit [DecidableEq ι] in
theorem tasksInv_start : TasksInv (NotesTasks.start : NotesTasks ι ρ) where
  keeps := Semaphore.keeps_new.congr rfl fun _ => Iff.rfl
  queues := Semaphore.queues_new.congr rfl fun _ => by simp [NotesTasks.start]

theorem tasksInv_step (s : NotesTasks ι ρ) (event : TaskEvent ι ρ) (s' : NotesTasks ι ρ)
    (hinv : TasksInv s) (h : notesStep jobId dropPanics s event = some s') : TasksInv s' := by
  obtain ⟨hkeeps, hqueues⟩ := hinv
  cases event with
  | closeSemaphore =>
    cases h
    exact ⟨hkeeps.congr rfl fun _ => Iff.rfl, hqueues.congr rfl fun _ => Iff.rfl⟩
  | task i step =>
    obtain ⟨sem, kinds, st, hturn, rfl⟩ := turn_of_notesStep h
    constructor
    · rcases hturn.holds with ⟨hholds, hpermits⟩ | ⟨hnot, hholds, hgrant⟩ | ⟨hholds, hnot, rfl⟩
      · exact hkeeps.congr hpermits (by grind -ring -linarith [Function.update_apply])
      · exact hkeeps.grant hgrant hnot (by grind -ring -linarith [Function.update_apply])
      · exact hkeeps.release hholds (by grind -ring -linarith [Function.update_apply])
    · rcases hturn.waits with ⟨hwaits, hwaiters⟩ | ⟨hnot, hwaits, rfl⟩ | ⟨hnot, hgrant | hrefuse⟩
      · exact hqueues.congr hwaiters (by grind -ring -linarith [Function.update_apply])
      · exact hqueues.join hnot (by grind -ring -linarith [Function.update_apply])
      · exact hqueues.grant hgrant (by grind -ring -linarith [Function.update_apply])
      · exact hqueues.refuse hrefuse (by grind -ring -linarith [Function.update_apply])

end Inv

/-! ## What is sent -/

def JobEventKind.IsProgress : JobEventKind ρ → Prop
  | .progress _ => True
  | _ => False

/-- The events of one job, the first one first. -/
def kindsOf (id : String) (log : List (JobEvent ρ)) : List (JobEventKind ρ) :=
  (log.filter fun event => event.jobId = id).map fun event => event.kind

omit [DecidableEq ι] in
theorem kindsOf_append {jobId : ι → String} (hid : Function.Injective jobId) [DecidableEq ι]
    (i j : ι) (log : List (JobEvent ρ)) (kinds : List (JobEventKind ρ)) :
    kindsOf (jobId j) (log ++ kinds.map fun kind => ⟨jobId i, kind⟩) =
      kindsOf (jobId j) log ++ if j = i then kinds else [] := by
  by_cases hij : j = i
  · subst hij
    simp [kindsOf, List.filter_map, Function.comp_def]
  · have hne : jobId i ≠ jobId j := fun heq => hij (hid heq.symm)
    simp [kindsOf, List.filter_map, Function.comp_def, hne, hij]

/-- Reports of progress, and after all of them one last event. -/
def Complete (kinds : List (JobEventKind ρ)) : Prop :=
  ∃ progress last, kinds = progress ++ [last] ∧ (∀ kind ∈ progress, kind.IsProgress) ∧
    ¬ last.IsProgress

/-- What a task has sent when it is in the stage. -/
def Emitted (kinds : List (JobEventKind ρ)) : TaskStage ρ → Prop
  | .running => ∀ kind ∈ kinds, kind.IsProgress
  | .returned _ => ∀ kind ∈ kinds, kind.IsProgress
  | .joinFailed _ => ∀ kind ∈ kinds, kind.IsProgress
  | .sent => Complete kinds
  | .finished => Complete kinds
  | _ => kinds = []

omit [DecidableEq ι] in
theorem not_isProgress_outcomeKind (outcome : Except IpcError ρ) :
    ¬ (outcomeKind outcome).IsProgress := by
  cases outcome <;> simp [outcomeKind, JobEventKind.IsProgress]

theorem Turn.emitted {i : ι} {sem sem' : Semaphore ι} {st st' : TaskStage ρ}
    {step : TaskStep ρ} {kinds before : List (JobEventKind ρ)} (h : Turn i false sem st step sem' kinds st')
    (hbefore : Emitted before st) : Emitted (before ++ kinds) st' := by
  cases h with
  | @progress report =>
    intro kind hkind
    rcases List.mem_append.mp hkind with hold | hnew
    · exact hbefore kind hold
    · rw [List.mem_singleton.mp hnew]
      trivial
  | @send outcome => exact ⟨before, _, rfl, hbefore, not_isProgress_outcomeKind outcome⟩
  | reportJoin => exact ⟨before, _, rfl, hbefore, by simp [JobEventKind.IsProgress]⟩
  | reportClosed => exact ⟨[], _, by rw [show before = [] from hbefore], by simp, by simp [JobEventKind.IsProgress]⟩
  | _ => simp_all [Emitted]

omit [DecidableEq ι] in
theorem Emitted.split {kinds : List (JobEventKind ρ)} {st : TaskStage ρ} (h : Emitted kinds st) :
    ∃ progress terminal, kinds = progress ++ terminal ∧ (∀ kind ∈ progress, kind.IsProgress) ∧
      (∀ kind ∈ terminal, ¬ kind.IsProgress) ∧ terminal.length ≤ 1 ∧
      (st = .finished → terminal.length = 1) := by
  have hcomplete : Complete kinds →
      ∃ progress terminal, kinds = progress ++ terminal ∧ (∀ kind ∈ progress, kind.IsProgress) ∧
        (∀ kind ∈ terminal, ¬ kind.IsProgress) ∧ terminal.length ≤ 1 ∧
        (st = .finished → terminal.length = 1) := by
    intro ⟨progress, last, hkinds, hprogress, hlast⟩
    refine ⟨progress, [last], hkinds, hprogress, ?_, Nat.le_refl 1, fun _ => rfl⟩
    intro kind hkind
    rw [List.mem_singleton.mp hkind]
    exact hlast
  cases st with
  | sent => exact hcomplete h
  | finished => exact hcomplete h
  | running => exact ⟨kinds, [], by simp, h, by simp, by simp, by simp⟩
  | returned => exact ⟨kinds, [], by simp, h, by simp, by simp, by simp⟩
  | joinFailed => exact ⟨kinds, [], by simp, h, by simp, by simp, by simp⟩
  | _ => exact ⟨[], [], h, by simp, by simp, by simp, by simp⟩

section Emitted

variable {jobId : ι → String} {dropPanics : ι → Bool}

theorem emitted_step (hid : Function.Injective jobId) (hdrop : ∀ i, dropPanics i = false)
    (s : NotesTasks ι ρ) (event : TaskEvent ι ρ) (s' : NotesTasks ι ρ)
    (hinv : ∀ j, Emitted (kindsOf (jobId j) s.log) (s.stage j))
    (h : notesStep jobId dropPanics s event = some s') (j : ι) :
    Emitted (kindsOf (jobId j) s'.log) (s'.stage j) := by
  cases event with
  | closeSemaphore =>
    cases h
    exact hinv j
  | task i step =>
    obtain ⟨sem, kinds, st, hturn, rfl⟩ := turn_of_notesStep h
    rw [hdrop i] at hturn
    show Emitted (kindsOf (jobId j) (s.log ++ kinds.map fun kind => ⟨jobId i, kind⟩))
      (Function.update s.stage i st j)
    rw [kindsOf_append hid]
    by_cases hji : j = i
    · subst hji
      rw [if_pos rfl, Function.update_self]
      exact hturn.emitted (hinv j)
    · rw [if_neg hji, List.append_nil, Function.update_of_ne hji]
      exact hinv j

end Emitted

/-! ## Going on -/

section GoingOn

variable {jobId : ι → String} {dropPanics : ι → Bool} {s : NotesTasks ι ρ} {i : ι}

/-- A task that is under way can take a step of its own, unless it is in the queue of
an open semaphore. -/
theorem exists_notesStep (hinv : TasksInv s) (hidle : s.stage i ≠ .idle)
    (hfinished : s.stage i ≠ .finished)
    (hopen : s.stage i = .waiting → s.semaphore.closed = true) :
    ∃ step s', step ≠ .accept ∧ notesStep jobId dropPanics s (.task i step) = some s' := by
  cases hstage : s.stage i with
  | idle => exact absurd hstage hidle
  | finished => exact absurd hstage hfinished
  | accepted =>
    cases hclosed : s.semaphore.closed with
    | true => exact ⟨.join, _, by simp, notesStep_of_turn hstage (.tooLate hclosed)⟩
    | false => exact ⟨.join, _, by simp, notesStep_of_turn hstage (.join hclosed)⟩
  | waiting =>
    have hrefuse := Semaphore.refuse_eq_some_iff.mpr
      ⟨hopen hstage, (hinv.queues.mem i).mpr hstage, rfl⟩
    exact ⟨.refuse, _, by simp, notesStep_of_turn hstage (.refuse hrefuse)⟩
  | refused => exact ⟨.report, _, by simp, notesStep_of_turn hstage .reportClosed⟩
  | granted => exact ⟨.spawn, _, by simp, notesStep_of_turn hstage .spawn⟩
  | running => exact ⟨.panic, _, by simp, notesStep_of_turn hstage .panic⟩
  | returned outcome => exact ⟨.send, _, by simp, notesStep_of_turn hstage .send⟩
  | sent =>
    cases hdrop : dropPanics i with
    | false => exact ⟨.drop, _, by simp, notesStep_of_turn hstage (.drop hdrop)⟩
    | true => exact ⟨.drop, _, by simp, notesStep_of_turn hstage (.panicSent hdrop)⟩
  | joinFailed e => exact ⟨.report, _, by simp, notesStep_of_turn hstage .reportJoin⟩

/-- No task is stuck: when none can go on, all have finished. -/
theorem finished_of_settled (hinv : TasksInv s)
    (hsettled : ∀ i step, step ≠ .accept → notesStep jobId dropPanics s (.task i step) = none)
    (hidle : s.stage i ≠ .idle) : s.stage i = .finished := by
  have hnone : ∀ j, s.stage j ≠ .idle → s.stage j ≠ .finished →
      s.stage j = .waiting ∧ s.semaphore.closed = false := by
    intro j hj hfin
    by_contra hnot
    obtain ⟨step, s', hstep, hnext⟩ : ∃ step s', step ≠ .accept ∧
        notesStep jobId dropPanics s (.task j step) = some s' := by
      refine exists_notesStep hinv hj hfin fun hwait => ?_
      cases hclosed : s.semaphore.closed with
      | true => rfl
      | false => exact absurd ⟨hwait, hclosed⟩ hnot
    rw [hsettled j step hstep] at hnext
    cases hnext
  by_contra hfin
  have hwait := hnone i hidle hfin
  -- a permit is free, since whoever holds one can go on
  have hpermits : s.semaphore.permits ≠ 0 := by
    intro hzero
    obtain ⟨j, hholds⟩ := hinv.keeps.exists_holder (by decide) hzero
    have hj := hnone j (by grind -ring -linarith [TaskStage.Holds])
      (by grind -ring -linarith [TaskStage.Holds])
    rw [hj.1] at hholds
    exact hholds
  have hin : i ∈ s.semaphore.waiters := (hinv.queues.mem i).mpr hwait.1
  obtain ⟨j, sem, hj, hgrant⟩ :=
    Semaphore.exists_grant hwait.2 hpermits (List.ne_nil_of_mem hin)
  have hstuck := hsettled j .grant (by simp)
  rw [notesStep_of_turn ((hinv.queues.mem j).mp hj) (.grant hgrant)] at hstuck
  cases hstuck

end GoingOn

/-! ## The turn of a task in the queue -/

section Queue

variable {jobId : ι → String} {dropPanics : ι → Bool} {s s' : NotesTasks ι ρ} {i : ι}

/-- The steps in which a task that has a permit comes to give it back. -/
def wayOut (e : IpcError) : TaskStage ρ → List (TaskStep ρ)
  | .granted => [.spawn, .return (.error e), .send, .drop]
  | .running => [.return (.error e), .send, .drop]
  | .returned _ => [.send, .drop]
  | .sent => [.drop]
  | _ => []

theorem run_wayOut (hdrop : dropPanics i = false) (e : IpcError) (hholds : (s.stage i).Holds) :
    ∃ s', run (notesStep jobId dropPanics) s
        ((wayOut e (s.stage i)).map fun step => .task i step) = some s' ∧
      s'.semaphore = s.semaphore.release ∧ s'.stage = Function.update s.stage i .finished := by
  have hsent : ∀ {s : NotesTasks ι ρ}, s.stage i = .sent →
      ∃ s', run (notesStep jobId dropPanics) s [.task i .drop] = some s' ∧
        s'.semaphore = s.semaphore.release ∧ s'.stage = Function.update s.stage i .finished :=
    fun hstage => ⟨_, run_turn [] hstage (.drop hdrop), rfl, rfl⟩
  have hreturned : ∀ {s : NotesTasks ι ρ} {outcome}, s.stage i = .returned outcome →
      ∃ s', run (notesStep jobId dropPanics) s [.task i .send, .task i .drop] = some s' ∧
        s'.semaphore = s.semaphore.release ∧
          s'.stage = Function.update s.stage i .finished := by
    intro s outcome hstage
    rw [run_turn _ hstage .send]
    have hlast := @hsent ⟨s.semaphore, s.log ++ [⟨jobId i, outcomeKind outcome⟩],
      Function.update s.stage i .sent⟩ (Function.update_self ..)
    simpa using hlast
  have hrunning : ∀ {s : NotesTasks ι ρ}, s.stage i = .running →
      ∃ s', run (notesStep jobId dropPanics) s
          [.task i (.return (.error e)), .task i .send, .task i .drop] = some s' ∧
        s'.semaphore = s.semaphore.release ∧
          s'.stage = Function.update s.stage i .finished := by
    intro s hstage
    rw [run_turn _ hstage .return]
    have hlast := @hreturned ⟨s.semaphore, s.log, Function.update s.stage i (.returned (.error e))⟩
      (.error e) (Function.update_self ..)
    simpa using hlast
  cases hstage : s.stage i with
  | granted =>
    have hlast := @hrunning ⟨s.semaphore, s.log, Function.update s.stage i .running⟩
      (Function.update_self ..)
    rw [wayOut, List.map_cons, run_turn _ hstage .spawn]
    simpa using hlast
  | running => exact hrunning hstage
  | returned outcome => exact hreturned hstage
  | sent => exact hsent hstage
  | _ => simp [hstage, TaskStage.Holds] at hholds

theorem notesStep_grant {j : ι} {rest : List ι} (hstage : s.stage j = .waiting)
    (hopen : s.semaphore.closed = false) (hwaiters : s.semaphore.waiters = j :: rest)
    (hpermits : s.semaphore.permits ≠ 0) :
    ∃ s', notesStep jobId dropPanics s (.task j .grant) = some s' ∧
      s'.stage j = .granted ∧ s'.semaphore.closed = false ∧ s'.semaphore.waiters = rest := by
  have hgrant : s.semaphore.grant j =
      some { s.semaphore with permits := s.semaphore.permits - 1, waiters := rest } := by
    simp [Semaphore.grant, hopen, hpermits, hwaiters]
  exact ⟨_, notesStep_of_turn hstage (.grant hgrant), Function.update_self .., hopen, rfl⟩

/-- The next one in the queue can have its turn. -/
theorem exists_run_grant (hinv : TasksInv s) (hdrop : ∀ i, dropPanics i = false)
    (hopen : s.semaphore.closed = false) {j : ι} {rest : List ι}
    (hwaiters : s.semaphore.waiters = j :: rest) :
    ∃ events s', run (notesStep jobId dropPanics) s events = some s' ∧
      s'.stage j = .granted ∧ s'.semaphore.closed = false ∧ s'.semaphore.waiters = rest := by
  have hj : s.stage j = .waiting := by
    apply (hinv.queues.mem j).mp
    simp [hwaiters]
  by_cases hpermits : s.semaphore.permits = 0
  · obtain ⟨k, hholds⟩ := hinv.keeps.exists_holder (by decide) hpermits
    obtain ⟨s₁, hrun, hsem, hstage⟩ := @run_wayOut _ _ _ jobId _ s k (hdrop k) closedError hholds
    have hjk : j ≠ k := by
      intro heq
      rw [← heq, hj] at hholds
      exact hholds
    obtain ⟨s₂, hnext, hrest⟩ := @notesStep_grant _ _ _ jobId dropPanics s₁ j rest
      (by rw [hstage, Function.update_of_ne hjk, hj]) (by rw [hsem]; exact hopen)
      (by rw [hsem]; exact hwaiters) (by simp [hsem, Semaphore.release])
    refine ⟨(wayOut closedError (s.stage k)).map (fun step => .task k step) ++
      [.task j .grant], s₂, ?_, hrest⟩
    simp [run_append, hrun, run, hnext]
  · obtain ⟨s₂, hnext, hrest⟩ := @notesStep_grant _ _ _ jobId dropPanics s j rest hj hopen
      hwaiters hpermits
    exact ⟨[.task j .grant], s₂, by simp [run, hnext], hrest⟩

theorem exists_run_running (hinv : TasksInv s) (hdrop : ∀ i, dropPanics i = false)
    (hopen : s.semaphore.closed = false) (hi : s.stage i = .waiting) :
    ∃ events s', run (notesStep jobId dropPanics) s events = some s' ∧ s'.stage i = .running := by
  have hin : i ∈ s.semaphore.waiters := (hinv.queues.mem i).mpr hi
  clear hi
  generalize hwaiters : s.semaphore.waiters = waiters at hin
  -- on the queue: those before it have their turns first
  induction waiters generalizing s with
  | nil => cases hin
  | cons j rest ih =>
    obtain ⟨events, s₁, hrun, hgranted, hopen₁, hwaiters₁⟩ :=
      @exists_run_grant _ _ _ jobId dropPanics s hinv hdrop hopen j rest hwaiters
    rcases List.mem_cons.mp hin with heq | hrest
    · subst heq
      refine ⟨events ++ [.task i .spawn], ⟨s₁.semaphore, s₁.log ++ [],
        Function.update s₁.stage i .running⟩, ?_, Function.update_self ..⟩
      rw [run_append, hrun]
      exact run_turn [] hgranted .spawn
    · have hinv₁ : TasksInv s₁ := run_invariant tasksInv_step hinv hrun
      obtain ⟨events', s₂, hrun', hrunning⟩ := ih hinv₁ hopen₁ hwaiters₁ hrest
      exact ⟨events ++ events', s₂, by rw [run_append, hrun]; exact hrun', hrunning⟩

def TaskStep.IsGrant : TaskStep ρ → Bool
  | .grant => true
  | _ => false

def TaskEvent.IsGrant : TaskEvent ι ρ → Bool
  | .task _ step => step.IsGrant
  | .closeSemaphore => false

/-- What happens to the queue while a task waits in it. -/
theorem Turn.position {k : ι} {b : Bool} {sem sem' : Semaphore ι} {st st' : TaskStage ρ}
    {step : TaskStep ρ} {kinds : List (JobEventKind ρ)}
    (h : Turn k b sem st step sem' kinds st') (hopen : sem.closed = false)
    (hin : i ∈ sem.waiters) (hki : k ≠ i) :
    sem'.closed = false ∧ sem'.waiters.idxOf i + (if step.IsGrant then 1 else 0) =
      sem.waiters.idxOf i := by
  cases h with
  | join =>
    refine ⟨hopen, ?_⟩
    show (sem.waiters ++ [k]).idxOf i + 0 = sem.waiters.idxOf i
    rw [List.idxOf_append_of_mem hin, Nat.add_zero]
  | grant hgrant =>
    obtain ⟨permits, waiters, rfl, rfl⟩ := Semaphore.grant_eq_some_iff.mp hgrant
    exact ⟨rfl, (List.idxOf_cons_ne waiters hki).symm⟩
  | refuse hrefuse =>
    obtain ⟨hclosed, -, -⟩ := Semaphore.refuse_eq_some_iff.mp hrefuse
    rw [hopen] at hclosed
    cases hclosed
  | _ => exact ⟨hopen, rfl⟩

theorem position_step {event : TaskEvent ι ρ} (hinv : TasksInv s) (hi : s.stage i = .waiting)
    (hopen : s.semaphore.closed = false) (hgrant : event ≠ .task i .grant)
    (hclose : event ≠ .closeSemaphore) (h : notesStep jobId dropPanics s event = some s') :
    s'.stage i = .waiting ∧ s'.semaphore.closed = false ∧
      s'.semaphore.waiters.idxOf i + (if event.IsGrant then 1 else 0) =
        s.semaphore.waiters.idxOf i := by
  cases event with
  | closeSemaphore => exact absurd rfl hclose
  | task k step =>
    obtain ⟨sem, kinds, st, hturn, rfl⟩ := turn_of_notesStep h
    by_cases hki : k = i
    · subst hki
      rw [hi] at hturn
      cases hturn with
      | grant => exact absurd rfl hgrant
      | refuse hrefuse =>
        obtain ⟨hclosed, -, -⟩ := Semaphore.refuse_eq_some_iff.mp hrefuse
        rw [hopen] at hclosed
        cases hclosed
    · have hposition := hturn.position hopen ((hinv.queues.mem i).mpr hi) hki
      exact ⟨by simp [Function.update_of_ne (Ne.symm hki), hi], hposition⟩

/-- A task that waits is passed by those before it in the queue and by no others. -/
theorem position_run {events : List (TaskEvent ι ρ)} (hinv : TasksInv s)
    (hi : s.stage i = .waiting) (hopen : s.semaphore.closed = false)
    (hgrant : ∀ event ∈ events, event ≠ .task i .grant)
    (hclose : ∀ event ∈ events, event ≠ .closeSemaphore)
    (hrun : run (notesStep jobId dropPanics) s events = some s') :
    s'.stage i = .waiting ∧ s'.semaphore.waiters.idxOf i + events.countP (·.IsGrant) =
      s.semaphore.waiters.idxOf i := by
  induction events generalizing s with
  | nil =>
    cases hrun
    exact ⟨hi, rfl⟩
  | cons event rest ih =>
    unfold run at hrun
    cases hnext : notesStep jobId dropPanics s event with
    | none => simp [hnext] at hrun
    | some s₁ =>
      simp only [hnext] at hrun
      obtain ⟨hi₁, hopen₁, hposition⟩ := position_step hinv hi hopen
        (hgrant event List.mem_cons_self) (hclose event List.mem_cons_self) hnext
      obtain ⟨hi', hrest⟩ := ih (tasksInv_step s event s₁ hinv hnext) hi₁ hopen₁
        (fun e he => hgrant e (List.mem_cons_of_mem event he))
        (fun e he => hclose e (List.mem_cons_of_mem event he)) hrun
      refine ⟨hi', ?_⟩
      rw [List.countP_cons]
      omega

end Queue

/-- A destructor that panics after the event is sent would make the task send another. -/
theorem second_error_of_dropPanics {jobId : ι → String} {dropPanics : ι → Bool}
    {s : NotesTasks ι ρ} {i : ι} (hdrop : dropPanics i = true) (hsent : s.stage i = .sent) :
    ∃ s', run (notesStep jobId dropPanics) s [.task i .drop, .task i .report] = some s' ∧
      s'.log = s.log ++ [⟨jobId i, .error JoinError.panic.error⟩] := by
  rw [run_turn _ hsent (.panicSent hdrop), run_turn _ (Function.update_self ..) .reportJoin]
  exact ⟨_, rfl, by simp⟩

/-- In every run each job sends reports of progress and then at most one other event,
exactly one when its task has finished.  No more pipelines run than there are permits,
and none of these is ever lost: tasks that cannot go on have finished, and one that
waits can have its turn and is passed only by those before it. -/
theorem one_terminal_event {jobId : ι → String} (hid : Function.Injective jobId)
    {dropPanics : ι → Bool} (hdrop : ∀ i, dropPanics i = false)
    {events : List (TaskEvent ι ρ)} {s : NotesTasks ι ρ}
    (hrun : run (notesStep jobId dropPanics) NotesTasks.start events = some s) :
    (∀ i, ∃ progress terminal, kindsOf (jobId i) s.log = progress ++ terminal ∧
      (∀ kind ∈ progress, kind.IsProgress) ∧ (∀ kind ∈ terminal, ¬ kind.IsProgress) ∧
      terminal.length ≤ 1 ∧ (s.stage i = .finished → terminal.length = 1)) ∧
    (∀ l : List ι, l.Nodup → (∀ i ∈ l, s.stage i = .running) →
      l.length ≤ maxConcurrentNotesJobs) ∧
    (s.semaphore.Keeps maxConcurrentNotesJobs fun i => (s.stage i).Holds) ∧
    ((∀ i step, step ≠ .accept → notesStep jobId dropPanics s (.task i step) = none) →
      ∀ i, s.stage i ≠ .idle → s.stage i = .finished) ∧
    (∀ i, s.stage i = .waiting → s.semaphore.closed = false →
      (∃ later s', run (notesStep jobId dropPanics) s later = some s' ∧ s'.stage i = .running) ∧
      ∀ later s', (∀ event ∈ later, event ≠ .task i .grant) →
        (∀ event ∈ later, event ≠ .closeSemaphore) →
        run (notesStep jobId dropPanics) s later = some s' →
        later.countP (·.IsGrant) ≤ s.semaphore.waiters.idxOf i) := by
  have hinv : TasksInv s := run_invariant tasksInv_step tasksInv_start hrun
  have hemitted : ∀ i, Emitted (kindsOf (jobId i) s.log) (s.stage i) :=
    @run_invariant _ _ _ _ s events (fun s => ∀ i, Emitted (kindsOf (jobId i) s.log) (s.stage i))
      (emitted_step hid hdrop) (fun i => show Emitted (kindsOf (jobId i) []) .idle from rfl) hrun
  refine ⟨fun i => (hemitted i).split, ?_, hinv.keeps, ?_, ?_⟩
  · intro l hl hrunning
    exact hinv.keeps.length_le hl fun i hi => by rw [hrunning i hi]; trivial
  · intro hsettled i hi
    exact finished_of_settled hinv hsettled hi
  · intro i hi hopen
    refine ⟨exists_run_running hinv hdrop hopen hi, ?_⟩
    intro later s' hgrant hclose hlater
    have hposition := (position_run hinv hi hopen hgrant hclose hlater).2
    omega

/-- Three jobs: one gives a result, one panics, and the third has its turn after them. -/
def threeJobs : List (TaskEvent (Fin 3) String) :=
  [.task 0 .accept, .task 1 .accept, .task 2 .accept, .task 0 .join, .task 1 .join, .task 2 .join,
    .task 0 .grant, .task 1 .grant, .task 0 .spawn, .task 1 .spawn,
    .task 0 (.progress ⟨"loading", none, none, none⟩), .task 0 (.return (.ok "notes.md")),
    .task 0 .send, .task 1 .panic, .task 1 .report, .task 0 .drop, .task 2 .grant]

def threeIds : Fin 3 → String
  | 0 => "a"
  | 1 => "b"
  | 2 => "c"

theorem one_terminal_event_threeJobs : ∃ s,
    run (notesStep threeIds fun _ => false) NotesTasks.start threeJobs = some s ∧
      kindsOf "b" s.log = [.error (.internal "pipeline panicked")] ∧
      (s.stage 0 = .finished ∧ ∃ progress terminal, kindsOf "a" s.log = progress ++ terminal ∧
        terminal.length = 1) := by
  have hvalues : (run (notesStep threeIds fun _ => false) NotesTasks.start threeJobs).map
      (fun s => (s.stage 0, kindsOf "b" s.log)) =
        some (.finished, [.error (.internal "pipeline panicked")]) := by
    decide +kernel
  obtain ⟨s, hs, hpair⟩ := Option.map_eq_some_iff.mp hvalues
  obtain ⟨hstage, hkinds⟩ := Prod.mk.inj hpair
  have hid : ∀ i j, threeIds i = threeIds j → i = j := by decide
  obtain ⟨progress, terminal, hsplit, -, -, -, hone⟩ :=
    (one_terminal_event (fun i j => hid i j) (fun _ => rfl) hs).1 0
  exact ⟨s, hs, hkinds, hstage, progress, terminal, hsplit, hone hstage⟩

end Engine
end Panops
