import Panops.App.JobOrder

/-!
# How tracked jobs end

What a run of the view model shows of its jobs: when the state becomes `.done`, what a
`job.error` comes to, and that no job is forgotten.
-/

namespace Panops
namespace App

open Lib.Transitions

variable {ι : Type}

/-- A task that polls finds a `notes.md` only when its job has sent `job.done`. -/
def PollsRight (s : ViewModel ι) (event : AppEvent ι) : Prop :=
  ∀ n poll, event = .poll n .finds → s.polls[n]? = some poll →
    ∃ result, .jobDone poll.jobId result ∈ s.emitted

/-- A `job.error` has been delivered and its task has not run. -/
def Due (s : ViewModel ι) (jobId : String) : Prop :=
  ∃ handler error, (handler, .jobError jobId error) ∈ s.stream.made

/-- The state becomes `.done` only for a job that has sent `job.done`.  A tracked job
whose `job.error` is delivered stays tracked until the state is `.error`. -/
structure DoneMeansDone (s s' : ViewModel ι) : Prop where
  done : ∀ notesPath, s'.state = .done notesPath → s.state = .done notesPath ∨
    ∃ jobId result, s.job = some jobId ∧ .jobDone jobId result ∈ s.emitted
  error : ∀ jobId, s.job = some jobId → Due s jobId →
    (s'.job = some jobId ∧ Due s' jobId) ∨ ∃ kind message, s'.state = .error kind message

section Endings

variable {actions : ι → Action} {meetingOf notesPath : String → String} {s s' : ViewModel ι}

/-- Either the meeting is the one that is worked on, or nothing happens. -/
theorem finishGeneration_cases (s : ViewModel ι) (meetingId : String) (id : Option String)
    (state : AppState) :
    (∃ audioName, s.state = .working meetingId audioName ∧
      (s.finishGeneration meetingId id state).state = state) ∨
    (∀ audioName, s.state ≠ .working meetingId audioName) ∧
      s.finishGeneration meetingId id state = s := by
  unfold ViewModel.finishGeneration
  cases hstate : s.state with
  | working current audioName =>
    by_cases hcurrent : current = meetingId
    · subst hcurrent
      exact Or.inl ⟨audioName, rfl, by simp⟩
    · refine Or.inr ⟨fun name hname => ?_, by simp [hcurrent]⟩
      injection hname with hsame
      exact hcurrent hsame
  | _ => exact Or.inr ⟨nofun, rfl⟩

/-- A job does not send both ends. -/
theorem StreamInv.not_done_of_due (h : StreamInv meetingOf s) {jobId : String}
    (hdue : Due s jobId) {result : JobDoneResult} : .jobDone jobId result ∉ s.emitted := by
  intro hdone
  obtain ⟨handler, error, hmade⟩ := hdue
  have hsame := h.once _ hdone _ (h.made _ hmade).2.2 jobId rfl rfl
  cases hsame

/-- The other tasks of callbacks run, and it is still due. -/
theorem Due.eraseIdx {jobId : String} (h : Due s jobId) {n : Nat} {call : Handler × IpcEvent}
    (hcall : s.stream.made[n]? = some call) (hne : ∀ error, call.2 ≠ .jobError jobId error) :
    Due { s with stream := { s.stream with made := s.stream.made.eraseIdx n } } jobId := by
  obtain ⟨handler, error, hmade⟩ := h
  refine ⟨handler, error, ?_⟩
  obtain ⟨m, hm⟩ := List.mem_iff_getElem?.mp hmade
  have hmn : m ≠ n := by
    intro heq
    rw [heq, hcall] at hm
    exact hne error (by rw [Option.some.inj hm])
  exact List.mem_eraseIdx_iff_getElem?.mpr ⟨m, hmn, hm⟩

theorem Due.mono {jobId : String} (h : Due s jobId)
    (hmade : ∀ call ∈ s.stream.made, call ∈ s'.stream.made) : Due s' jobId := by
  obtain ⟨handler, error, hmem⟩ := h
  exact ⟨handler, error, hmade _ hmem⟩

namespace DoneMeansDone

theorem of_same
    (hstate : ∀ notesPath, s'.state = .done notesPath → s.state = .done notesPath)
    (hjob : ∀ jobId, s.job = some jobId → s'.job = some jobId)
    (hdue : ∀ jobId, s.job = some jobId → Due s jobId → Due s' jobId) : DoneMeansDone s s' where
  done notesPath hdone := Or.inl (hstate notesPath hdone)
  error jobId hsome h := Or.inl ⟨hjob jobId hsome, hdue jobId hsome h⟩

theorem of_frame (h : KeepsJob s s') : DoneMeansDone s s' := by
  refine of_same (fun path hdone => ?_) (fun jobId hjob => h.job.trans hjob) ?_
  · rcases h.state with hsame | ⟨-, -, hnot⟩
    · exact hsame.symm.trans hdone
    · exact absurd hdone (hnot path)
  · exact fun _ _ hdue => hdue.mono h.made

/-- A step that leaves another state than `.working` behind, and not for `.done`. -/
theorem of_idle (htrack : TrackInv actions meetingOf s)
    (hidle : s.state.isNotesJobActive = false)
    (hstate : ∀ notesPath, s'.state ≠ .done notesPath) : DoneMeansDone s s' where
  done notesPath hdone := absurd hdone (hstate notesPath)
  error jobId hjob _ := by
    rw [htrack.job_eq_none hidle] at hjob
    cases hjob

/-- The end of a generation with an error. -/
theorem of_error {s₁ : ViewModel ι} (h : DoneMeansDone s s₁) (meetingId : String)
    (id : Option String) (kind message : String) :
    DoneMeansDone s (s₁.finishGeneration meetingId id (.error kind message)) := by
  rcases finishGeneration_cases s₁ meetingId id (.error kind message) with
    ⟨audioName, -, hstate⟩ | ⟨-, hnone⟩
  · refine ⟨fun notesPath hdone => ?_, fun _ _ _ => Or.inr ⟨kind, message, hstate⟩⟩
    rw [hstate] at hdone
    cases hdone
  · rw [hnone]
    exact h

/-- The end of a generation with the notes of a job that has sent `job.done`. -/
theorem of_done (h : OrderInv actions meetingOf s) {s₁ : ViewModel ι} (hsame : DoneMeansDone s s₁)
    (hstate : s₁.state = s.state) {jobId : String} (hwatch : Watches s jobId)
    {result : JobDoneResult} (hresult : .jobDone jobId result ∈ s.emitted) (id : Option String)
    (path : String) : DoneMeansDone s (s₁.finishGeneration (meetingOf jobId) id (.done path)) := by
  rcases finishGeneration_cases s₁ (meetingOf jobId) id (.done path) with
    ⟨audioName, hworking, -⟩ | ⟨-, hnone⟩
  · have htracked : s.job = some jobId := h.tracked hwatch (hstate.symm.trans hworking)
    refine ⟨fun _ _ => Or.inr ⟨jobId, result, htracked, hresult⟩, fun other hjob hdue => ?_⟩
    rw [htracked] at hjob
    obtain rfl := Option.some.inj hjob
    exact absurd hresult (h.track.stream.not_done_of_due hdue)
  · rw [hnone]
    exact hsame

end DoneMeansDone

/-- An error of the tracked job is not passed over. -/
theorem OrderInv.handled_error_right (h : OrderInv actions meetingOf s) {n : Nat}
    {handler : Handler} {jobId : String} {error : JobErrorPayload}
    (hmade : s.stream.made[n]? = some (handler, .jobError jobId error)) :
    DoneMeansDone s ({ s with stream := { s.stream with made := s.stream.made.eraseIdx n } }.handle
      handler (.jobError jobId error)) := by
  obtain ⟨hid, hmeeting, -⟩ := h.track.stream.made _ (List.mem_of_getElem? hmade)
  obtain rfl : jobId = handler.jobId := Option.some.inj hid
  show DoneMeansDone s (ViewModel.finishGeneration handler.meetingId _ _ _)
  rcases finishGeneration_cases
    { s with stream := { s.stream with made := s.stream.made.eraseIdx n } } handler.meetingId
    (some handler.jobId) (.error error.kind error.message) with
    ⟨audioName, -, hstate⟩ | ⟨hnot, hnone⟩
  · refine ⟨fun notesPath hdone => ?_, fun _ _ _ => Or.inr ⟨_, _, hstate⟩⟩
    rw [hstate] at hdone
    cases hdone
  · rw [hnone]
    refine .of_same (fun _ hdone => hdone) (fun _ hjob => hjob) fun tracked hjob hdue => ?_
    refine hdue.eraseIdx hmade fun error' heq => ?_
    injection heq with hsame
    obtain ⟨audioName, hworking⟩ := h.track.job tracked hjob
    rw [← hsame, show meetingOf handler.jobId = handler.meetingId from hmeeting.symm] at hworking
    exact hnot audioName hworking

/-! ## Steps -/

theorem DoneMeansDone.suspend [DecidableEq ι] (h : DoneMeansDone s s') (i : ι) (await : Await) :
    DoneMeansDone s (s'.suspend i await) := ⟨h.done, h.error⟩

theorem doneMeansDone_rfl (s : ViewModel ι) : DoneMeansDone s s := .of_frame (.refl s)

variable [DecidableEq ι] {i : ι}

theorem DoneMeansDone.watchNotesJob (h : DoneMeansDone s s') (i : ι) (meetingId jobId : String)
    (wsOk : Bool) : DoneMeansDone s (s'.watchNotesJob i meetingId jobId wsOk) := by
  unfold ViewModel.watchNotesJob
  split
  · exact h.suspend i _
  · exact ⟨h.done, h.error⟩

theorem OrderInv.turnedAway_right (h : OrderInv actions meetingOf s)
    (hstep : appStep actions meetingOf notesPath s (.turnedAway i) = some s') :
    DoneMeansDone s s' := by
  obtain ⟨-, rfl | ⟨hidle, kind, message, rfl⟩⟩ := turnedAway_cases hstep
  · exact (doneMeansDone_rfl s).suspend i _
  · exact .of_idle h.track hidle nofun

theorem subscribed_right {wsOk : Bool}
    (hstep : appStep actions meetingOf notesPath s (.subscribed i wsOk) = some s') :
    DoneMeansDone s s' := by
  rcases subscribed_cases hstep with ⟨audio, -, rfl⟩ | ⟨jobId, -, rfl⟩
  · exact (doneMeansDone_rfl s).suspend i _
  · exact (doneMeansDone_rfl s).watchNotesJob i _ _ _

theorem OrderInv.answered_right (h : OrderInv actions meetingOf s) {jobId : String}
    (hstep : appStep actions meetingOf notesPath s (.answered i jobId) = some s') :
    DoneMeansDone s s' := by
  obtain ⟨audio, wsOk, hawait, -, rfl⟩ := answered_cases hstep
  have hnone : s.job = none := (h.held i).asking (by rw [hawait]; trivial)
  have hworking : DoneMeansDone s (s.setWorking (actions i).meetingId audio jobId) :=
    .of_idle h.track (h.track.idle_of_none hnone) nofun
  exact hworking.watchNotesJob i _ _ _

theorem OrderInv.refused_right (h : OrderInv actions meetingOf s) {kind message : String}
    (hstep : appStep actions meetingOf notesPath s (.refused i kind message) = some s') :
    DoneMeansDone s s' := by
  obtain ⟨hasking, rfl⟩ := refused_cases hstep
  exact .of_idle h.track (h.track.idle_of_none ((h.held i).asking hasking)) nofun

theorem registers_right (hstep : appStep actions meetingOf notesPath s (.registers i) = some s') :
    DoneMeansDone s s' := by
  obtain ⟨jobId, -, rfl⟩ := registers_cases hstep
  refine .of_same (fun _ hdone => hdone) (fun _ hjob => hjob) fun _ _ hdue => ?_
  exact hdue.mono fun _ => EventStream.mem_made_registerCallback

theorem resumes_right (hstep : appStep actions meetingOf notesPath s (.resumes i) = some s') :
    DoneMeansDone s s' := by
  rcases resumes_cases hstep with ⟨jobId, -, rfl⟩ | ⟨-, rfl | rfl⟩
  · exact .of_same (fun _ hdone => hdone) (fun _ hjob => hjob) fun _ _ hdue => hdue
  · exact (DoneMeansDone.of_frame (frame_shown s)).suspend i _
  · exact (doneMeansDone_rfl s).suspend i _

theorem OrderInv.recordingStarted_right (h : OrderInv actions meetingOf s)
    (hidle : s.state.isNotesJobActive = false)
    (hstep : appStep actions meetingOf notesPath s (.recordingStarted i) = some s') :
    DoneMeansDone s s' := by
  obtain ⟨-, meetingId, rfl⟩ := recordingStarted_cases hstep
  exact .of_idle h.track hidle nofun

theorem OrderInv.refreshed_right (h : OrderInv actions meetingOf s)
    (hidle : Leaves actions s (.refreshed i) → s.state.isNotesJobActive = false)
    (hstep : appStep actions meetingOf notesPath s (.refreshed i) = some s') :
    DoneMeansDone s s' := by
  obtain ⟨-, audioName, s₁, rfl, hcases⟩ := refreshed_cases hstep
  have hframe : KeepsJob s (s.finishLiveRecording (actions i).meetingId) :=
    h.track.frame_finishLiveRecording hidle
  have hafter := DoneMeansDone.of_frame hframe
  rcases hcases with ⟨-, rfl⟩ | ⟨jobId, -, ⟨-, rfl⟩ | ⟨hactive, -, rfl⟩⟩
  · exact hafter.suspend i _
  · exact ⟨hafter.done, hafter.error⟩
  · refine .of_idle h.track ?_ nofun
    rcases hframe.state with hsame | ⟨hbefore, -⟩
    · exact hsame ▸ hactive
    · exact hbefore

theorem OrderInv.polled_right (h : OrderInv actions meetingOf s) {n : Nat} {step : PollStep}
    (hright : PollsRight s (.poll n step))
    (hstep : appStep actions meetingOf notesPath s (.poll n step) = some s') :
    DoneMeansDone s s' := by
  obtain ⟨poll, hpoll, hcases⟩ := poll_cases hstep
  have hsame : DoneMeansDone s { s with polls := s.polls.eraseIdx n } :=
    .of_same (fun _ hdone => hdone) (fun _ hjob => hjob) fun _ _ hdue => hdue
  rcases hcases with ⟨id, state, hstate, rfl⟩ | ⟨-, rfl⟩
  · rcases hstate with ⟨kind, message, rfl⟩ | ⟨hfinds, path, rfl⟩
    · exact hsame.of_error _ _ _ _
    · obtain ⟨result, hresult⟩ := hright n poll (by rw [hfinds]) hpoll
      rw [h.track.stream.polls poll (List.mem_of_getElem? hpoll)]
      exact .of_done h hsame rfl (watches_of_poll hpoll) hresult _ _
  · exact hsame

theorem OrderInv.handled_right (h : OrderInv actions meetingOf s) {n : Nat}
    (hstep : appStep actions meetingOf notesPath s (.handler n) = some s') :
    DoneMeansDone s s' := by
  obtain ⟨handler, event, hmade, rfl⟩ := handler_cases hstep
  have hmem := List.mem_of_getElem? hmade
  have hsame : (∀ jobId error, event ≠ .jobError jobId error) →
      DoneMeansDone s { s with stream := { s.stream with made := s.stream.made.eraseIdx n } } :=
    fun hne => .of_same (fun _ hdone => hdone) (fun _ hjob => hjob)
      fun jobId _ hdue => hdue.eraseIdx hmade (hne jobId)
  cases event with
  | jobProgress => exact hsame nofun
  | unknown => exact hsame nofun
  | jobDone jobId result =>
    obtain ⟨rfl, hresult⟩ := h.track.stream.result_of_made hmem
    show DoneMeansDone s (ViewModel.finishGeneration result.meetingId _ _ _)
    rw [hresult]
    exact .of_done h (hsame nofun) rfl (watches_of_made hmade) (h.track.stream.made _ hmem).2.2 _ _
  | jobError jobId error => exact h.handled_error_right hmade

theorem doneMeansDone_step {event : AppEvent ι} (h : OrderInv actions meetingOf s)
    (hok : Orderly actions meetingOf s event) (hright : PollsRight s event)
    (hstep : appStep actions meetingOf notesPath s event = some s') : DoneMeansDone s s' := by
  have haside : event.Aside → DoneMeansDone s s' := fun haside =>
    .of_frame (h.track.frame_of_aside haside hok.1 hstep)
  cases event with
  | begin i =>
    obtain ⟨-, -, await, -, rfl⟩ := begin_cases hstep
    exact (doneMeansDone_rfl s).suspend i _
  | turnedAway i => exact h.turnedAway_right hstep
  | meetingStarted i =>
    obtain ⟨audio, -, rfl⟩ := meetingStarted_cases hstep
    exact (doneMeansDone_rfl s).suspend i _
  | subscribed i wsOk => exact subscribed_right hstep
  | answered i jobId => exact h.answered_right hstep
  | refused i kind message => exact h.refused_right hstep
  | registers i => exact registers_right hstep
  | resumes i => exact resumes_right hstep
  | recordingStarted i => exact h.recordingStarted_right (hok.1 trivial) hstep
  | meetingStopped i =>
    obtain ⟨-, rfl⟩ := meetingStopped_cases hstep
    exact (doneMeansDone_rfl s).suspend i _
  | refreshed i => exact h.refreshed_right hok.1 hstep
  | poll n step => exact h.polled_right hright hstep
  | handler n => exact h.handled_right hstep
  | _ => exact haside trivial

end Endings

/-- In every run in which a job is begun only when nothing of another one is left,
nothing leaves a tracked job for another state, and a task that polls finds a `notes.md`
only when its job has sent `job.done`: done means done, and a `job.error` of the tracked
job that is delivered ends in an error. -/
theorem done_means_done [DecidableEq ι] (actions : ι → Action)
    (meetingOf notesPath : String → String) (notesMd : String → Bool)
    {events : List (AppEvent ι)} {s s' : ViewModel ι} {event : AppEvent ι}
    (hmeets : Meets (appStep actions meetingOf notesPath)
      (fun s event => Orderly actions meetingOf s event ∧ PollsRight s event)
      (ViewModel.start notesMd) (events ++ [event]))
    (hrun : run (appStep actions meetingOf notesPath) (ViewModel.start notesMd) events = some s)
    (hstep : appStep actions meetingOf notesPath s event = some s') : DoneMeansDone s s' := by
  obtain ⟨hbefore, hlast⟩ := (meets_append hrun).mp hmeets
  have hinv : OrderInv actions meetingOf s :=
    run_invariant_of_meets orderInv_step orderInv_start (hbefore.mono fun _ _ h => h.1) hrun
  exact doneMeansDone_step hinv hlast.1.1 hlast.1.2 hstep

/-- Notes of `m` are generated from `a.wav`. -/
def generateM : Fin 1 → Action := fun _ => .generateNotes "m" (some "a.wav")

def jobOfM : String → String := fun _ => "m"

def notesPathOf (meetingId : String) : String := "/" ++ meetingId ++ "/notes.md"

def watched : List (AppEvent (Fin 1)) :=
  [.begin 0, .subscribed 0 true, .answered 0 "j", .registers 0, .resumes 0]

def failure : IpcEvent := .jobError "j" ⟨"internal", "pipeline panicked"⟩

/-- With a `notes.md` of `m` from before, the job fails, its `job.error` is delivered,
and the task that polls makes the state `.done` before the one of the callback runs. -/
theorem done_of_old_notes : ∃ s s',
    run (appStep generateM jobOfM notesPathOf) (ViewModel.start fun _ => true)
      (watched ++ [.emits failure, .routed failure]) = some s ∧
    appStep generateM jobOfM notesPathOf s (.poll 0 .finds) = some s' ∧
    s.job = some "j" ∧ Due s "j" ∧ s.emitted = [failure] ∧ s'.state = .done "/m/notes.md" ∧
    ¬ DoneMeansDone s s' := by
  have hbefore : (run (appStep generateM jobOfM notesPathOf) (ViewModel.start fun _ => true)
      (watched ++ [.emits failure, .routed failure])).map
        (fun s => (s.state, s.job, s.stream.made, s.emitted)) =
      some (.working "m" "a.wav", some "j", [(⟨"m", "j"⟩, failure)], [failure]) := by
    decide +kernel
  have hafter : (run (appStep generateM jobOfM notesPathOf) (ViewModel.start fun _ => true)
      (watched ++ [.emits failure, .routed failure] ++ [.poll 0 .finds])).map
        (fun s => s.state) = some (.done "/m/notes.md") := by
    decide +kernel
  obtain ⟨s, hs, hvalues⟩ := Option.map_eq_some_iff.mp hbefore
  simp only [Prod.mk.injEq] at hvalues
  obtain ⟨hstate, hjob, hmade, hemitted⟩ := hvalues
  rw [run_append, hs, Option.bind_some, run] at hafter
  cases hstep : appStep generateM jobOfM notesPathOf s (.poll 0 .finds) with
  | none =>
    rw [hstep] at hafter
    cases hafter
  | some s' =>
    rw [hstep] at hafter
    have hdone : s'.state = .done "/m/notes.md" := Option.some.inj hafter
    have hdue : Due s "j" := ⟨⟨"m", "j"⟩, _, by rw [hmade]; exact List.mem_singleton.mpr rfl⟩
    refine ⟨s, s', hs, hstep, hjob, hdue, hemitted, hdone, fun hright => ?_⟩
    rcases hright.done _ hdone with hsame | ⟨jobId, result, -, hresult⟩
    · rw [hstate] at hsame
      cases hsame
    · rw [hemitted, List.mem_singleton] at hresult
      cases hresult

def success : IpcEvent := .jobDone "j" ⟨"/m/notes.md", [], "m"⟩

def writesAndSends : List (AppEvent (Fin 1)) :=
  watched ++ [.writes "j", .emits success, .routed success]

/-- A job that writes its `notes.md`, sends `job.done` and is heard. -/
theorem done_means_done_success : ∃ s s',
    run (appStep generateM jobOfM notesPathOf) (ViewModel.start fun _ => false) writesAndSends =
      some s ∧
    appStep generateM jobOfM notesPathOf s (.handler 0) = some s' ∧
    s'.state = .done "/m/notes.md" ∧ DoneMeansDone s s' := by
  have hafter : (run (appStep generateM jobOfM notesPathOf) (ViewModel.start fun _ => false)
      (writesAndSends ++ [.handler 0])).map (fun s => s.state) = some (.done "/m/notes.md") := by
    decide +kernel
  have hmeets : Meets (appStep generateM jobOfM notesPathOf)
      (fun s event => Orderly generateM jobOfM s event ∧ PollsRight s event)
      (ViewModel.start fun _ => false) (writesAndSends ++ [.handler 0]) := by
    apply meets_cons_of_mem
    · refine ⟨⟨fun hleaves => hleaves.elim, fun k => ?_, fun jobId hwatch => ?_⟩,
        fun _ _ h => (by cases h)⟩
      · simp [ViewModel.start, Await.Busy, Await.Asking, Await.Carries]
      · simp [Watches, ViewModel.start, EventStream.start] at hwatch
    · intro event hevent s
      replace hevent : event ∈ [.subscribed 0 true, .answered 0 "j", .registers 0, .resumes 0,
        .writes "j", .emits success, .routed success, .handler 0] := hevent
      simp only [List.mem_cons, List.not_mem_nil, or_false] at hevent
      rcases hevent with rfl | rfl | rfl | rfl | rfl | rfl | rfl | rfl <;>
        exact ⟨⟨fun hleaves => hleaves.elim, trivial⟩, fun _ _ h => by cases h⟩
  rw [run_append] at hafter
  cases hs : run (appStep generateM jobOfM notesPathOf) (ViewModel.start fun _ => false)
      writesAndSends with
  | none =>
    rw [hs] at hafter
    cases hafter
  | some s =>
    rw [hs, Option.bind_some, run] at hafter
    cases hstep : appStep generateM jobOfM notesPathOf s (.handler 0) with
    | none =>
      rw [hstep] at hafter
      cases hafter
    | some s' =>
      rw [hstep] at hafter
      exact ⟨s, s', rfl, hstep, Option.some.inj hafter,
        done_means_done generateM jobOfM notesPathOf _ hmeets hs hstep⟩

end App
end Panops
