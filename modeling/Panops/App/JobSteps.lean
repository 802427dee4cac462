import Panops.App.JobTracking

/-!
# What each event does

The steps of the view model from the state before to the state after, and what every run
of them keeps, whatever their order.
-/

namespace Panops
namespace App

open Lib.Transitions

variable {ι : Type}

/-- Between the guard of an action and the answer to its request. -/
def Await.Asking : Await → Prop
  | .starting _ => True
  | .subscribing _ => True
  | .requested _ _ => True
  | _ => False

/-- Between `.working` for the job and the start of its polling. -/
def Await.Carries (jobId : String) : Await → Prop
  | .adopting id => id = jobId
  | .registering id => id = jobId
  | .registered id => id = jobId
  | _ => False

theorem Await.Carries.eq {await : Await} {jobId other : String} (h : await.Carries jobId)
    (hother : await.Carries other) : jobId = other := by
  cases await with
  | adopting => exact h.symm.trans hother
  | registering => exact h.symm.trans hother
  | registered => exact h.symm.trans hother
  | _ => exact h.elim

theorem Await.Asking.not_carries {await : Await} {jobId : String} (h : await.Asking) :
    ¬ await.Carries jobId := by
  cases await with
  | starting => exact fun hcarries => hcarries
  | subscribing => exact fun hcarries => hcarries
  | requested => exact fun hcarries => hcarries
  | _ => exact h.elim

/-- The step sets the state, whatever it has been. -/
def Leaves (actions : ι → Action) (s : ViewModel ι) : AppEvent ι → Prop
  | .pickAudio _ => True
  | .startNewGenerationFlow => True
  | .deleted meetingId => s.selectedMeetingId = some meetingId
  | .reset => True
  | .setEngineNotConnected => True
  | .reconnected => True
  | .recordingStarted _ => True
  | .refreshed i => s.selectedMeetingId = some (actions i).meetingId
  | _ => False

/-! ## What the engine sends -/

section Sent

variable [DecidableEq ι] {actions : ι → Action} {meetingOf notesPath : String → String}
  {s s' : ViewModel ι}

theorem emits_cases {event : IpcEvent}
    (h : appStep actions meetingOf notesPath s (.emits event) = some s') :
    Emits meetingOf s event ∧ s' = { s with emitted := s.emitted ++ [event] } := by
  simp only [appStep] at h
  split at h
  · next hemits =>
    cases h
    exact ⟨hemits, rfl⟩
  · cases h

theorem routed_cases {event : IpcEvent}
    (h : appStep actions meetingOf notesPath s (.routed event) = some s') :
    event ∈ s.emitted ∧ s' = { s with stream := s.stream.route event } := by
  simp only [appStep] at h
  split at h
  · next hevent =>
    cases h
    exact ⟨hevent, rfl⟩
  · cases h

end Sent

/-! ## Watchers -/

/-- Something can still end the job: a task that polls, a callback, or a task that a
callback has started. -/
def Watches (s : ViewModel ι) (jobId : String) : Prop :=
  (∃ poll ∈ s.polls, poll.jobId = jobId) ∨
    (∃ id handler, s.stream.callbacks id = some handler ∧ handler.jobId = jobId) ∨
    ∃ call ∈ s.stream.made, call.1.jobId = jobId

section Watches

variable {s : ViewModel ι} {jobId other : String}

theorem watches_startPolling {meetingId : String} {wsOk : Bool} :
    Watches (s.startPolling meetingId jobId wsOk) other ↔ Watches s other ∨ other = jobId := by
  have hpolls : (∃ poll ∈ (s.startPolling meetingId jobId wsOk).polls, poll.jobId = other) ↔
      (∃ poll ∈ s.polls, poll.jobId = other) ∨ other = jobId := by
    constructor
    · rintro ⟨poll, hpoll, rfl⟩
      rcases ViewModel.mem_polls_startPolling hpoll with ⟨before, hbefore, -, hid⟩ | ⟨-, hid⟩
      · exact Or.inl ⟨before, hbefore, hid⟩
      · exact Or.inr hid
    · rintro (⟨poll, hpoll, hid⟩ | rfl)
      · exact ⟨{ poll with cancelled := true },
          List.mem_append_left _ (List.mem_map_of_mem hpoll), hid⟩
      · exact ⟨_, List.mem_append_right _ (List.mem_singleton_self _), rfl⟩
  unfold Watches
  rw [hpolls, or_right_comm]
  rfl

/-- A task that is cancelled is still there. -/
theorem watches_cancelled :
    Watches { s with polls := s.polls.map fun poll => { poll with cancelled := true } } other ↔
      Watches s other := by
  have hpolls : (∃ poll ∈ s.polls.map fun poll => ({ poll with cancelled := true } : Poll),
      poll.jobId = other) ↔ ∃ poll ∈ s.polls, poll.jobId = other := by
    constructor
    · rintro ⟨poll, hpoll, rfl⟩
      obtain ⟨before, hbefore, rfl⟩ := List.mem_map.mp hpoll
      exact ⟨before, hbefore, rfl⟩
    · rintro ⟨poll, hpoll, hid⟩
      exact ⟨_, List.mem_map_of_mem hpoll, hid⟩
  exact or_congr_left hpolls

theorem watches_finishGeneration {meetingId : String} {id : Option String} {state : AppState} :
    Watches (s.finishGeneration meetingId id state) other ↔ Watches s other := by
  unfold ViewModel.finishGeneration
  split
  · split
    · exact watches_cancelled
    · rfl
  · rfl

theorem watches_of_register {handler : Handler}
    (h : Watches { s with stream := s.stream.registerCallback jobId handler } other) :
    Watches s other ∨ other = handler.jobId := by
  rcases h with hpoll | ⟨id, h, hcallback, hid⟩ | ⟨call, hcall, hid⟩
  · exact Or.inl (Or.inl hpoll)
  · rcases EventStream.callbacks_registerCallback hcallback with hold | ⟨-, rfl⟩
    · exact Or.inl (Or.inr (Or.inl ⟨id, h, hold, hid⟩))
    · exact Or.inr hid.symm
  · rcases EventStream.made_registerCallback hcall with hold | ⟨heq, -⟩
    · exact Or.inl (Or.inr (Or.inr ⟨call, hold, hid⟩))
    · exact Or.inr (heq ▸ hid.symm)

theorem watches_of_route {event : IpcEvent}
    (h : Watches { s with stream := s.stream.route event } other) : Watches s other := by
  rcases h with hpoll | ⟨id, h, hcallback, hid⟩ | ⟨call, hcall, hid⟩
  · exact Or.inl hpoll
  · exact Or.inr (Or.inl ⟨id, h, EventStream.callbacks_route hcallback, hid⟩)
  · rcases EventStream.made_route hcall with hold | ⟨id, -, hcallback, -⟩
    · exact Or.inr (Or.inr ⟨call, hold, hid⟩)
    · exact Or.inr (Or.inl ⟨id, call.1, hcallback, hid⟩)

theorem watches_of_unregister {unregistering : List String}
    (h : Watches { s with
      stream := s.stream.unregisterCallback jobId, unregistering := unregistering } other) :
    Watches s other := by
  rcases h with hpoll | ⟨id, h, hcallback, hid⟩ | ⟨call, hcall, hid⟩
  · exact Or.inl hpoll
  · exact Or.inr (Or.inl ⟨id, h, EventStream.callbacks_unregisterCallback hcallback, hid⟩)
  · exact Or.inr (Or.inr ⟨call, hcall, hid⟩)

theorem watches_of_stop (h : Watches { s with stream := s.stream.stop } other) :
    Watches s other := by
  rcases h with hpoll | ⟨id, h, hcallback, hid⟩ | ⟨call, hcall, hid⟩
  · exact Or.inl hpoll
  · exact absurd hcallback EventStream.callbacks_stop
  · exact Or.inr (Or.inr ⟨call, hcall, hid⟩)

theorem watches_of_erase_poll {n : Nat}
    (h : Watches { s with polls := s.polls.eraseIdx n } other) : Watches s other := by
  rcases h with ⟨poll, hpoll, hid⟩ | h
  · exact Or.inl ⟨poll, List.mem_of_mem_eraseIdx hpoll, hid⟩
  · exact Or.inr h

theorem watches_of_erase_made {n : Nat}
    (h : Watches { s with stream := { s.stream with made := s.stream.made.eraseIdx n } } other) :
    Watches s other := by
  rcases h with h | h | ⟨call, hcall, hid⟩
  · exact Or.inl h
  · exact Or.inr (Or.inl h)
  · exact Or.inr (Or.inr ⟨call, List.mem_of_mem_eraseIdx hcall, hid⟩)

theorem watches_of_poll {n : Nat} {poll : Poll} (h : s.polls[n]? = some poll) :
    Watches s poll.jobId :=
  Or.inl ⟨poll, List.mem_of_getElem? h, rfl⟩

theorem watches_of_made {n : Nat} {call : Handler × IpcEvent} (h : s.stream.made[n]? = some call) :
    Watches s call.1.jobId :=
  Or.inr (Or.inr ⟨call, List.mem_of_getElem? h, rfl⟩)

end Watches

/-! ## Events and handlers -/

/-- Every call, made or to be made, is of a job by itself and with what the engine has
sent. -/
structure StreamInv (meetingOf : String → String) (s : ViewModel ι) : Prop where
  callbacks : ∀ id handler, s.stream.callbacks id = some handler →
    handler.jobId = id ∧ handler.meetingId = meetingOf id
  made : ∀ call ∈ s.stream.made, call.2.jobId = some call.1.jobId ∧
    call.1.meetingId = meetingOf call.1.jobId ∧ call.2 ∈ s.emitted
  buffer : ∀ entry ∈ s.stream.eventBuffer, entry.2.terminalId = some entry.1 ∧
    entry.2 ∈ s.emitted
  polls : ∀ poll ∈ s.polls, poll.meetingId = meetingOf poll.jobId
  once : ∀ event ∈ s.emitted, ∀ other ∈ s.emitted, ∀ id, event.terminalId = some id →
    other.terminalId = some id → event = other
  result : ∀ jobId result, .jobDone jobId result ∈ s.emitted →
    result.meetingId = meetingOf jobId

namespace StreamInv

variable {meetingOf : String → String} {s s' : ViewModel ι}

theorem congr (h : StreamInv meetingOf s) (hstream : s'.stream = s.stream)
    (hemitted : s'.emitted = s.emitted)
    (hpolls : ∀ poll ∈ s'.polls, poll.meetingId = meetingOf poll.jobId) :
    StreamInv meetingOf s' where
  callbacks := hstream ▸ h.callbacks
  made := by rw [hstream, hemitted]; exact h.made
  buffer := by rw [hstream, hemitted]; exact h.buffer
  polls := hpolls
  once := hemitted ▸ h.once
  result := hemitted ▸ h.result

theorem finishGeneration (h : StreamInv meetingOf s) (meetingId : String) (id : Option String)
    (state : AppState) : StreamInv meetingOf (s.finishGeneration meetingId id state) := by
  refine h.congr ViewModel.stream_finishGeneration ViewModel.emitted_finishGeneration ?_
  intro poll hpoll
  obtain ⟨before, hbefore, hmeeting, hid⟩ := ViewModel.mem_polls_finishGeneration hpoll
  rw [← hmeeting, ← hid]
  exact h.polls before hbefore

theorem startPolling (h : StreamInv meetingOf s) {meetingId jobId : String} {wsOk : Bool}
    (hmeeting : meetingOf jobId = meetingId) :
    StreamInv meetingOf (s.startPolling meetingId jobId wsOk) := by
  refine @congr ι meetingOf s (s.startPolling meetingId jobId wsOk) h rfl rfl ?_
  intro poll hpoll
  rcases ViewModel.mem_polls_startPolling hpoll with ⟨before, hbefore, hm, hid⟩ | ⟨hm, hid⟩
  · rw [← hm, ← hid]
    exact h.polls before hbefore
  · rw [hm, hid, hmeeting]

theorem erasePoll (h : StreamInv meetingOf s) (n : Nat) :
    StreamInv meetingOf { s with polls := s.polls.eraseIdx n } :=
  h.congr rfl rfl fun poll hpoll => h.polls poll (List.mem_of_mem_eraseIdx hpoll)

theorem eraseMade (h : StreamInv meetingOf s) (n : Nat) :
    StreamInv meetingOf
      { s with stream := { s.stream with made := s.stream.made.eraseIdx n } } :=
  ⟨h.callbacks, fun call hcall => h.made call (List.mem_of_mem_eraseIdx hcall), h.buffer, h.polls,
    h.once, h.result⟩

theorem registers (h : StreamInv meetingOf s) {meetingId jobId : String}
    (hmeeting : meetingOf jobId = meetingId) :
    StreamInv meetingOf
      { s with stream := s.stream.registerCallback jobId ⟨meetingId, jobId⟩ } where
  callbacks id handler hcallback := by
    rcases EventStream.callbacks_registerCallback hcallback with hold | ⟨rfl, rfl⟩
    · exact h.callbacks id handler hold
    · exact ⟨rfl, hmeeting.symm⟩
  made call hcall := by
    rcases EventStream.made_registerCallback hcall with hold | ⟨hhandler, hbuffer⟩
    · exact h.made call hold
    · obtain ⟨hterminal, hemitted⟩ := h.buffer _ hbuffer
      rw [hhandler]
      exact ⟨IpcEvent.jobId_of_terminalId hterminal, hmeeting.symm, hemitted⟩
  buffer entry hentry := h.buffer entry (EventStream.eventBuffer_registerCallback hentry)
  polls := h.polls
  once := h.once
  result := h.result

theorem routes (h : StreamInv meetingOf s) {event : IpcEvent} (hevent : event ∈ s.emitted) :
    StreamInv meetingOf { s with stream := s.stream.route event } where
  callbacks id handler hcallback := h.callbacks id handler (EventStream.callbacks_route hcallback)
  made call hcall := by
    rcases EventStream.made_route hcall with hold | ⟨id, hid, hcallback, hsame⟩
    · exact h.made call hold
    · obtain ⟨rfl, hmeeting⟩ := h.callbacks id call.1 hcallback
      exact ⟨hsame ▸ hid, hmeeting, hsame ▸ hevent⟩
  buffer entry hentry := by
    rcases EventStream.eventBuffer_route hentry with hold | ⟨hterminal, hsame⟩
    · exact h.buffer entry hold
    · exact ⟨hsame ▸ hterminal, hsame ▸ hevent⟩
  polls := h.polls
  once := h.once
  result := h.result

theorem unregisters (h : StreamInv meetingOf s) (jobId : String) (unregistering : List String) :
    StreamInv meetingOf { s with
      stream := s.stream.unregisterCallback jobId, unregistering := unregistering } where
  callbacks id handler hcallback :=
    h.callbacks id handler (EventStream.callbacks_unregisterCallback hcallback)
  made := h.made
  buffer entry hentry := h.buffer entry (EventStream.eventBuffer_unregisterCallback hentry)
  polls := h.polls
  once := h.once
  result := h.result

theorem stopped (h : StreamInv meetingOf s) :
    StreamInv meetingOf { s with stream := s.stream.stop } where
  callbacks _ _ hcallback := absurd hcallback EventStream.callbacks_stop
  made := h.made
  buffer _ hentry := absurd hentry List.not_mem_nil
  polls := h.polls
  once := h.once
  result := h.result

theorem cancelled (h : StreamInv meetingOf s) :
    StreamInv meetingOf
      { s with polls := s.polls.map fun poll => { poll with cancelled := true } } := by
  refine h.congr rfl rfl fun poll hpoll => ?_
  obtain ⟨before, hbefore, rfl⟩ := List.mem_map.mp hpoll
  exact h.polls before hbefore

theorem emits (h : StreamInv meetingOf s) {event : IpcEvent} (hevent : Emits meetingOf s event) :
    StreamInv meetingOf { s with emitted := s.emitted ++ [event] } where
  callbacks := h.callbacks
  made call hcall := by
    obtain ⟨hid, hmeeting, hemitted⟩ := h.made call hcall
    exact ⟨hid, hmeeting, List.mem_append_left _ hemitted⟩
  buffer entry hentry := by
    obtain ⟨hterminal, hemitted⟩ := h.buffer entry hentry
    exact ⟨hterminal, List.mem_append_left _ hemitted⟩
  polls := h.polls
  once first hfirst second hsecond id hid hid' := by
    obtain ⟨hnew, -⟩ := hevent
    simp only [List.mem_append, List.mem_singleton] at hfirst hsecond
    rcases hfirst with hfirst | rfl <;> rcases hsecond with hsecond | rfl
    · exact h.once first hfirst second hsecond id hid hid'
    · rcases hnew first hfirst with hnone | hother
      · rw [hid] at hnone
        cases hnone
      · exact absurd (hid.trans hid'.symm) hother
    · rcases hnew second hsecond with hnone | hother
      · rw [hid'] at hnone
        cases hnone
      · exact absurd (hid'.trans hid.symm) hother
    · rfl
  result jobId result hresult := by
    simp only [List.mem_append, List.mem_singleton] at hresult
    rcases hresult with hold | hnew
    · exact h.result jobId result hold
    · exact hevent.2 jobId result hnew.symm

theorem suspend [DecidableEq ι] (h : StreamInv meetingOf s) (i : ι) (await : Await) :
    StreamInv meetingOf (s.suspend i await) :=
  h.congr rfl rfl h.polls

theorem shown (h : StreamInv meetingOf s) :
    StreamInv meetingOf s.showSelectedMeetingAfterTerminalState := by
  unfold ViewModel.showSelectedMeetingAfterTerminalState
  split
  · exact h.congr rfl rfl h.polls
  · exact h.congr rfl rfl h.polls
  · exact h

/-- A callback is called with the event of its job. -/
theorem result_of_made (h : StreamInv meetingOf s) {handler : Handler} {jobId : String}
    {result : JobDoneResult} (hmade : (handler, .jobDone jobId result) ∈ s.stream.made) :
    jobId = handler.jobId ∧ result.meetingId = meetingOf handler.jobId := by
  obtain ⟨hid, -, hemitted⟩ := h.made _ hmade
  have hsame : jobId = handler.jobId := Option.some.inj hid
  exact ⟨hsame, hsame ▸ h.result jobId result hemitted⟩

end StreamInv

/-! ## The steps -/

section Cases

variable [DecidableEq ι] {actions : ι → Action} {meetingOf notesPath : String → String}
  {s s' : ViewModel ι} {i : ι}

theorem begin_cases (h : appStep actions meetingOf notesPath s (.begin i) = some s') :
    s.await i = .ready ∧ s.state.isNotesJobActive = false ∧
      ∃ await, await.Asking ∧ s' = s.suspend i await := by
  simp only [appStep] at h
  split at h
  · next audio haction hready =>
    split at h
    · cases h
    · next hidle =>
      cases h
      exact ⟨hready, by simpa using hidle, .subscribing audio, trivial, rfl⟩
  · next haction hready =>
    split at h
    · next audio hstate =>
      cases h
      exact ⟨hready, by rw [hstate]; rfl, .starting audio, trivial, rfl⟩
    · cases h
  · cases h

theorem turnedAway_cases (h : appStep actions meetingOf notesPath s (.turnedAway i) = some s') :
    s.await i = .ready ∧ (s' = s.suspend i .finished ∨
      s.state.isNotesJobActive = false ∧
        ∃ kind message, s' = (s.failNotesStart kind message).suspend i .finished) := by
  simp only [appStep] at h
  split at h
  · next meetingId audio haction hready =>
    split at h
    · cases h
      exact ⟨hready, Or.inl rfl⟩
    · next hidle =>
      cases audio with
      | none =>
        cases h
        exact ⟨hready, Or.inr ⟨by simpa using hidle, _, _, rfl⟩⟩
      | some audio => cases h
  · next haction hready =>
    split at h
    · cases h
    · cases h
      exact ⟨hready, Or.inl rfl⟩
  · cases h

theorem meetingStarted_cases
    (h : appStep actions meetingOf notesPath s (.meetingStarted i) = some s') :
    ∃ audio, s.await i = .starting audio ∧ s' = s.suspend i (.subscribing audio) := by
  simp only [appStep] at h
  split at h
  · next audio hawait =>
    cases h
    exact ⟨audio, hawait, rfl⟩
  · cases h

theorem subscribed_cases {wsOk : Bool}
    (h : appStep actions meetingOf notesPath s (.subscribed i wsOk) = some s') :
    (∃ audio, s.await i = .subscribing audio ∧ s' = s.suspend i (.requested audio wsOk)) ∨
      ∃ jobId, s.await i = .adopting jobId ∧
        s' = s.watchNotesJob i (actions i).meetingId jobId wsOk := by
  simp only [appStep] at h
  split at h
  · next audio hawait =>
    cases h
    exact Or.inl ⟨audio, hawait, rfl⟩
  · next jobId hawait =>
    cases h
    exact Or.inr ⟨jobId, hawait, rfl⟩
  · cases h

theorem answered_cases {jobId : String}
    (h : appStep actions meetingOf notesPath s (.answered i jobId) = some s') :
    ∃ audio wsOk, s.await i = .requested audio wsOk ∧
      Fresh meetingOf s (actions i).meetingId jobId ∧
      s' = (s.setWorking (actions i).meetingId audio jobId).watchNotesJob i
        (actions i).meetingId jobId wsOk := by
  simp only [appStep] at h
  split at h
  · next audio wsOk hawait =>
    split at h
    · next hfresh =>
      cases h
      exact ⟨audio, wsOk, hawait, hfresh, rfl⟩
    · cases h
  · cases h

theorem refused_cases {kind message : String}
    (h : appStep actions meetingOf notesPath s (.refused i kind message) = some s') :
    (s.await i).Asking ∧ s' = (s.failNotesStart kind message).suspend i .finished := by
  simp only [appStep] at h
  split at h
  · next hawait =>
    cases h
    exact ⟨by rw [hawait]; trivial, rfl⟩
  · next hawait =>
    cases h
    exact ⟨by rw [hawait]; trivial, rfl⟩
  · cases h

theorem registers_cases (h : appStep actions meetingOf notesPath s (.registers i) = some s') :
    ∃ jobId, s.await i = .registering jobId ∧
      s' = { s with
        stream := s.stream.registerCallback jobId ⟨(actions i).meetingId, jobId⟩ }.suspend i
          (.registered jobId) := by
  simp only [appStep] at h
  split at h
  · next jobId hawait =>
    cases h
    exact ⟨jobId, hawait, rfl⟩
  · cases h

theorem resumes_cases (h : appStep actions meetingOf notesPath s (.resumes i) = some s') :
    (∃ jobId, s.await i = .registered jobId ∧
      s' = (s.startPolling (actions i).meetingId jobId true).suspend i .finished) ∨
    s.await i = .selecting ∧
      (s' = s.showSelectedMeetingAfterTerminalState.suspend i .finished ∨
        s' = s.suspend i .finished) := by
  simp only [appStep] at h
  split at h
  · next jobId hawait =>
    cases h
    exact Or.inl ⟨jobId, hawait, rfl⟩
  · next hawait =>
    split at h
    · cases h
      exact Or.inr ⟨hawait, Or.inl rfl⟩
    · cases h
      exact Or.inr ⟨hawait, Or.inr rfl⟩
  · cases h

theorem recordingStarted_cases
    (h : appStep actions meetingOf notesPath s (.recordingStarted i) = some s') :
    s.await i = .ready ∧ ∃ meetingId,
      s' = { s.setIdle with selectedMeetingId := some meetingId }.suspend i .selecting := by
  simp only [appStep] at h
  split at h
  · next meetingId haction hready =>
    cases h
    exact ⟨hready, meetingId, rfl⟩
  · cases h

theorem meetingStopped_cases
    (h : appStep actions meetingOf notesPath s (.meetingStopped i) = some s') :
    s.await i = .ready ∧ s' = s.suspend i .refreshing := by
  simp only [appStep] at h
  split at h
  · next haction hready =>
    cases h
    exact ⟨hready, rfl⟩
  · cases h

theorem refreshed_cases (h : appStep actions meetingOf notesPath s (.refreshed i) = some s') :
    s.await i = .refreshing ∧ ∃ audioName s₁, s₁ = s.finishLiveRecording (actions i).meetingId ∧
      ((actions i).notesJobId = none ∧ s' = s₁.suspend i .finished ∨
        ∃ jobId, (actions i).notesJobId = some jobId ∧
          (s₁.state.isNotesJobActive = true ∧
              s' = { s₁ with obtained := s₁.obtained ++ [jobId] }.suspend i .finished ∨
            s₁.state.isNotesJobActive = false ∧ Fresh meetingOf s₁ (actions i).meetingId jobId ∧
              s' = (s₁.setWorking (actions i).meetingId audioName jobId).suspend i
                (.adopting jobId))) := by
  simp only [appStep] at h
  split at h
  · next meetingId notesJobId audioName haction hrefreshing =>
    have hmeeting : (actions i).meetingId = meetingId := by rw [haction]; rfl
    have hjobId : (actions i).notesJobId = notesJobId := by rw [haction]; rfl
    rw [hmeeting, hjobId]
    refine ⟨hrefreshing, audioName, _, rfl, ?_⟩
    cases notesJobId with
    | none =>
      cases h
      exact Or.inl ⟨rfl, rfl⟩
    | some jobId =>
      refine Or.inr ⟨jobId, rfl, ?_⟩
      simp only at h
      split at h
      · next hactive =>
        cases h
        exact Or.inl ⟨hactive, rfl⟩
      · next hidle =>
        split at h
        · next hfresh =>
          cases h
          exact Or.inr ⟨by simpa using hidle, hfresh, rfl⟩
        · cases h
  · cases h

/-- A task that polls ends the job of its meeting, or stops. -/
theorem poll_cases {n : Nat} {step : PollStep}
    (h : appStep actions meetingOf notesPath s (.poll n step) = some s') :
    ∃ poll, s.polls[n]? = some poll ∧
      ((∃ id state, ((∃ kind message, state = .error kind message) ∨
          step = .finds ∧ ∃ path, state = .done path) ∧
        s' = { s with polls := s.polls.eraseIdx n }.finishGeneration poll.meetingId id state) ∨
      poll.cancelled = true ∧ s' = { s with polls := s.polls.eraseIdx n }) := by
  simp only [appStep] at h
  split at h
  · cases h
  · next poll hpoll =>
    refine ⟨poll, hpoll, ?_⟩
    cases step with
    | lost =>
      cases h
      exact Or.inl ⟨_, _, Or.inl ⟨_, _, rfl⟩, rfl⟩
    | stalls message =>
      cases h
      exact Or.inl ⟨_, _, Or.inl ⟨_, _, rfl⟩, rfl⟩
    | finds =>
      simp only [pollStep] at h
      split at h
      · cases h
        exact Or.inl ⟨_, _, Or.inr ⟨rfl, _, rfl⟩, rfl⟩
      · cases h
    | quits =>
      simp only [pollStep] at h
      split at h
      · next hcancelled =>
        cases h
        exact Or.inr ⟨hcancelled, rfl⟩
      · cases h

theorem handler_cases {n : Nat}
    (h : appStep actions meetingOf notesPath s (.handler n) = some s') :
    ∃ handler event, s.stream.made[n]? = some (handler, event) ∧
      s' = { s with stream := { s.stream with made := s.stream.made.eraseIdx n } }.handle
        handler event := by
  simp only [appStep] at h
  split at h
  · cases h
  · next handler event hmade =>
    cases h
    exact ⟨handler, event, hmade, rfl⟩

theorem unregister_cases {n : Nat}
    (h : appStep actions meetingOf notesPath s (.unregister n) = some s') :
    ∃ jobId, s' = { s with
      stream := s.stream.unregisterCallback jobId
      unregistering := s.unregistering.eraseIdx n } := by
  simp only [appStep] at h
  split at h
  · cases h
  · next jobId hjob =>
    cases h
    exact ⟨jobId, rfl⟩

end Cases

/-! ## What every run keeps -/

/-- What is tracked and what is on its way, whatever the order of the events. -/
structure TrackInv (actions : ι → Action) (meetingOf : String → String) (s : ViewModel ι) :
    Prop where
  stream : StreamInv meetingOf s
  carried : ∀ i jobId, (s.await i).Carries jobId → meetingOf jobId = (actions i).meetingId
  job : ∀ jobId, s.job = some jobId → ∃ audioName, s.state = .working (meetingOf jobId) audioName
  working : s.state.isNotesJobActive = true → s.job ≠ none

section Track

variable {actions : ι → Action} {meetingOf notesPath : String → String} {s s' : ViewModel ι}

theorem trackInv_start {notesMd : String → Bool} :
    TrackInv actions meetingOf (ViewModel.start notesMd : ViewModel ι) where
  stream := by constructor <;> simp [ViewModel.start, EventStream.start]
  carried _ _ hcarries := hcarries.elim
  job _ hjob := nomatch hjob
  working hactive := nomatch hactive

namespace TrackInv

theorem job_eq_none (h : TrackInv actions meetingOf s)
    (hidle : s.state.isNotesJobActive = false) : s.job = none := by
  cases hjob : s.job with
  | none => rfl
  | some jobId =>
    obtain ⟨audioName, hworking⟩ := h.job jobId hjob
    rw [hworking] at hidle
    cases hidle

theorem idle_of_none (h : TrackInv actions meetingOf s) (hnone : s.job = none) :
    s.state.isNotesJobActive = false := by
  cases hactive : s.state.isNotesJobActive with
  | false => rfl
  | true => exact absurd hnone (h.working hactive)

/-- The job for which the state is `.working` is of that meeting. -/
theorem tracked_of_working (h : TrackInv actions meetingOf s) {meetingId audioName : String}
    (hworking : s.state = .working meetingId audioName) :
    ∃ jobId, s.job = some jobId ∧ meetingOf jobId = meetingId := by
  obtain ⟨jobId, hjob⟩ := Option.ne_none_iff_exists'.mp (h.working (by rw [hworking]; rfl))
  obtain ⟨name, hname⟩ := h.job jobId hjob
  rw [hworking] at hname
  injection hname with hmeeting
  exact ⟨jobId, hjob, hmeeting.symm⟩

/-- The state stays with its job, or is another one without a job. -/
theorem congr (h : TrackInv actions meetingOf s) (hstream : StreamInv meetingOf s')
    (hawait : s'.await = s.await)
    (hstate : s'.state = s.state ∧ s'.job = s.job ∨
      s'.state.isNotesJobActive = false ∧ s'.job = none) : TrackInv actions meetingOf s' where
  stream := hstream
  carried i jobId hcarries := h.carried i jobId (hawait ▸ hcarries)
  job jobId hjob := by
    rcases hstate with ⟨hstate, hsame⟩ | ⟨-, hnone⟩
    · rw [hstate]
      exact h.job jobId (hsame ▸ hjob)
    · rw [hnone] at hjob
      cases hjob
  working hactive := by
    rcases hstate with ⟨hstate, hsame⟩ | ⟨hidle, -⟩
    · rw [hsame]
      exact h.working (hstate ▸ hactive)
    · rw [hidle] at hactive
      cases hactive

theorem setState (h : TrackInv actions meetingOf s) {state : AppState}
    (hstate : state.isNotesJobActive = false) : TrackInv actions meetingOf (s.setState state) :=
  h.congr (h.stream.congr rfl rfl h.stream.polls) rfl (Or.inr ⟨hstate, rfl⟩)

theorem setWorking (h : TrackInv actions meetingOf s) {meetingId audioName jobId : String}
    (hmeeting : meetingOf jobId = meetingId) :
    TrackInv actions meetingOf (s.setWorking meetingId audioName jobId) where
  stream := h.stream.congr rfl rfl h.stream.polls
  carried := h.carried
  job other hother := by
    obtain rfl := Option.some.inj hother
    exact ⟨audioName, by rw [hmeeting]; rfl⟩
  working _ := nofun

theorem finishGeneration (h : TrackInv actions meetingOf s) {meetingId : String}
    {id : Option String} {state : AppState} (hstate : state.isNotesJobActive = false) :
    TrackInv actions meetingOf (s.finishGeneration meetingId id state) := by
  have hstream := h.stream.finishGeneration meetingId id state
  unfold ViewModel.finishGeneration at hstream ⊢
  split at hstream
  · split at hstream
    · next hcurrent =>
      simp only [if_pos hcurrent]
      exact h.congr hstream rfl (Or.inr ⟨hstate, rfl⟩)
    · next hcurrent =>
      simp only [if_neg hcurrent]
      exact h
  · exact h

theorem startPolling (h : TrackInv actions meetingOf s) {meetingId jobId : String} {wsOk : Bool}
    (hmeeting : meetingOf jobId = meetingId) :
    TrackInv actions meetingOf (s.startPolling meetingId jobId wsOk) :=
  h.congr (h.stream.startPolling hmeeting) rfl (Or.inl ⟨rfl, rfl⟩)

theorem shown (h : TrackInv actions meetingOf s) :
    TrackInv actions meetingOf s.showSelectedMeetingAfterTerminalState := by
  have hstream := h.stream.shown
  unfold ViewModel.showSelectedMeetingAfterTerminalState at hstream ⊢
  cases hstate : s.state with
  | done =>
    rw [hstate] at hstream
    exact h.congr hstream rfl (Or.inr ⟨rfl, h.job_eq_none (by rw [hstate]; rfl)⟩)
  | error =>
    rw [hstate] at hstream
    exact h.congr hstream rfl (Or.inr ⟨rfl, h.job_eq_none (by rw [hstate]; rfl)⟩)
  | _ => exact h

theorem finishLiveRecording (h : TrackInv actions meetingOf s) {meetingId : String} :
    TrackInv actions meetingOf (s.finishLiveRecording meetingId) := by
  unfold ViewModel.finishLiveRecording
  split
  · exact h.setState rfl
  · exact h

theorem handle (h : TrackInv actions meetingOf s) {handler : Handler} {event : IpcEvent} :
    TrackInv actions meetingOf (s.handle handler event) := by
  cases event with
  | jobDone => exact h.finishGeneration rfl
  | jobError => exact h.finishGeneration rfl
  | jobProgress => exact h
  | unknown => exact h

variable [DecidableEq ι] {i : ι}

theorem suspend (h : TrackInv actions meetingOf s) {await : Await}
    (hcarried : ∀ jobId, await.Carries jobId → meetingOf jobId = (actions i).meetingId) :
    TrackInv actions meetingOf (s.suspend i await) where
  stream := h.stream.suspend i await
  carried k jobId hcarries := by
    by_cases hki : k = i
    · subst hki
      exact hcarried jobId (by simpa [ViewModel.suspend] using hcarries)
    · exact h.carried k jobId (by simpa [ViewModel.suspend, hki] using hcarries)
  job := h.job
  working := h.working

theorem watchNotesJob (h : TrackInv actions meetingOf s) {jobId : String} {wsOk : Bool}
    (hmeeting : meetingOf jobId = (actions i).meetingId) :
    TrackInv actions meetingOf (s.watchNotesJob i (actions i).meetingId jobId wsOk) := by
  unfold ViewModel.watchNotesJob
  split
  · exact h.suspend fun other hother => hother ▸ hmeeting
  · exact (h.startPolling hmeeting).suspend fun _ hcarries => hcarries.elim

theorem subscribed (h : TrackInv actions meetingOf s) {wsOk : Bool}
    (hstep : appStep actions meetingOf notesPath s (.subscribed i wsOk) = some s') :
    TrackInv actions meetingOf s' := by
  rcases subscribed_cases hstep with ⟨audio, -, rfl⟩ | ⟨jobId, hawait, rfl⟩
  · exact h.suspend fun _ hcarries => hcarries.elim
  · exact h.watchNotesJob (h.carried i jobId (by rw [hawait]; rfl))

theorem registers (h : TrackInv actions meetingOf s)
    (hstep : appStep actions meetingOf notesPath s (.registers i) = some s') :
    TrackInv actions meetingOf s' := by
  obtain ⟨jobId, hawait, rfl⟩ := registers_cases hstep
  have hmeeting := h.carried i jobId (by rw [hawait]; rfl)
  have hregistered : TrackInv actions meetingOf
      { s with stream := s.stream.registerCallback jobId ⟨(actions i).meetingId, jobId⟩ } :=
    h.congr (h.stream.registers hmeeting) rfl (Or.inl ⟨rfl, rfl⟩)
  exact hregistered.suspend fun other hother => hother ▸ hmeeting

theorem resumes (h : TrackInv actions meetingOf s)
    (hstep : appStep actions meetingOf notesPath s (.resumes i) = some s') :
    TrackInv actions meetingOf s' := by
  rcases resumes_cases hstep with ⟨jobId, hawait, rfl⟩ | ⟨-, rfl | rfl⟩
  · have hmeeting := h.carried i jobId (by rw [hawait]; rfl)
    exact (h.startPolling hmeeting).suspend fun _ hcarries => hcarries.elim
  · exact h.shown.suspend fun _ hcarries => hcarries.elim
  · exact h.suspend fun _ hcarries => hcarries.elim

theorem refreshed (h : TrackInv actions meetingOf s)
    (hstep : appStep actions meetingOf notesPath s (.refreshed i) = some s') :
    TrackInv actions meetingOf s' := by
  obtain ⟨-, audioName, s₁, rfl, hcases⟩ := refreshed_cases hstep
  have hafter : TrackInv actions meetingOf (s.finishLiveRecording (actions i).meetingId) :=
    h.finishLiveRecording
  rcases hcases with ⟨-, rfl⟩ | ⟨jobId, -, ⟨-, rfl⟩ | ⟨-, hfresh, rfl⟩⟩
  · exact hafter.suspend fun _ hcarries => hcarries.elim
  · have hobtained : TrackInv actions meetingOf
        { s.finishLiveRecording (actions i).meetingId with
          obtained := (s.finishLiveRecording (actions i).meetingId).obtained ++ [jobId] } :=
      hafter.congr (hafter.stream.congr rfl rfl hafter.stream.polls) rfl (Or.inl ⟨rfl, rfl⟩)
    exact hobtained.suspend fun _ hcarries => hcarries.elim
  · exact (hafter.setWorking hfresh.1).suspend fun other hother => hother ▸ hfresh.1

theorem polled (h : TrackInv actions meetingOf s) {n : Nat} {step : PollStep}
    (hstep : appStep actions meetingOf notesPath s (.poll n step) = some s') :
    TrackInv actions meetingOf s' := by
  obtain ⟨poll, -, hcases⟩ := poll_cases hstep
  have herased : TrackInv actions meetingOf { s with polls := s.polls.eraseIdx n } :=
    h.congr (h.stream.erasePoll n) rfl (Or.inl ⟨rfl, rfl⟩)
  rcases hcases with ⟨id, state, hstate, rfl⟩ | ⟨-, rfl⟩
  · rcases hstate with ⟨kind, message, rfl⟩ | ⟨-, path, rfl⟩
    · exact herased.finishGeneration rfl
    · exact herased.finishGeneration rfl
  · exact herased

end TrackInv

variable [DecidableEq ι]

theorem trackInv_step (s : ViewModel ι) (event : AppEvent ι) (s' : ViewModel ι)
    (h : TrackInv actions meetingOf s)
    (hstep : appStep actions meetingOf notesPath s event = some s') :
    TrackInv actions meetingOf s' := by
  cases event with
  | begin i =>
    obtain ⟨-, -, await, hasking, rfl⟩ := begin_cases hstep
    exact h.suspend fun _ hcarries => absurd hcarries hasking.not_carries
  | turnedAway i =>
    obtain ⟨-, rfl | ⟨-, kind, message, rfl⟩⟩ := turnedAway_cases hstep
    · exact h.suspend fun _ hcarries => hcarries.elim
    · exact TrackInv.suspend (h.setState rfl) fun _ hcarries => hcarries.elim
  | meetingStarted i =>
    obtain ⟨audio, -, rfl⟩ := meetingStarted_cases hstep
    exact h.suspend fun _ hcarries => hcarries.elim
  | subscribed i wsOk => exact h.subscribed hstep
  | answered i jobId =>
    obtain ⟨audio, wsOk, -, hfresh, rfl⟩ := answered_cases hstep
    exact (h.setWorking hfresh.1).watchNotesJob hfresh.1
  | refused i kind message =>
    obtain ⟨-, rfl⟩ := refused_cases hstep
    exact TrackInv.suspend (h.setState rfl) fun _ hcarries => hcarries.elim
  | registers i => exact h.registers hstep
  | resumes i => exact h.resumes hstep
  | recordingStarted i =>
    obtain ⟨-, meetingId, rfl⟩ := recordingStarted_cases hstep
    have hidle : TrackInv actions meetingOf
        { s.setIdle with selectedMeetingId := some meetingId } :=
      h.congr (h.stream.congr rfl rfl h.stream.polls) rfl (Or.inr ⟨rfl, rfl⟩)
    exact hidle.suspend fun _ hcarries => hcarries.elim
  | meetingStopped i =>
    obtain ⟨-, rfl⟩ := meetingStopped_cases hstep
    exact h.suspend fun _ hcarries => hcarries.elim
  | refreshed i => exact h.refreshed hstep
  | select id =>
    cases hstep
    exact h.congr (h.stream.congr rfl rfl h.stream.polls) rfl (Or.inl ⟨rfl, rfl⟩)
  | shown =>
    cases hstep
    exact h.shown
  | pickAudio audio =>
    cases hstep
    exact h.setState rfl
  | startNewGenerationFlow =>
    cases hstep
    exact h.congr (h.stream.congr rfl rfl h.stream.polls) rfl (Or.inr ⟨rfl, rfl⟩)
  | deleted meetingId =>
    cases hstep
    unfold ViewModel.deleted
    split
    · exact h.congr (h.stream.congr rfl rfl h.stream.polls) rfl (Or.inr ⟨rfl, rfl⟩)
    · exact h
  | reset =>
    cases hstep
    exact h.congr (h.stream.cancelled.congr rfl rfl h.stream.cancelled.polls) rfl
      (Or.inr ⟨rfl, rfl⟩)
  | setEngineNotConnected =>
    cases hstep
    exact h.setState rfl
  | reconnected =>
    cases hstep
    exact h.setState rfl
  | stopped =>
    cases hstep
    exact h.congr h.stream.stopped rfl (Or.inl ⟨rfl, rfl⟩)
  | poll n step => exact h.polled hstep
  | handler n =>
    obtain ⟨handler, event, -, rfl⟩ := handler_cases hstep
    have herased : TrackInv actions meetingOf
        { s with stream := { s.stream with made := s.stream.made.eraseIdx n } } :=
      h.congr (h.stream.eraseMade n) rfl (Or.inl ⟨rfl, rfl⟩)
    exact herased.handle
  | unregister n =>
    obtain ⟨jobId, rfl⟩ := unregister_cases hstep
    exact h.congr (h.stream.unregisters _ _) rfl (Or.inl ⟨rfl, rfl⟩)
  | writes jobId =>
    cases hstep
    exact h.congr (h.stream.congr rfl rfl h.stream.polls) rfl (Or.inl ⟨rfl, rfl⟩)
  | emits event =>
    obtain ⟨hemits, rfl⟩ := emits_cases hstep
    exact h.congr (h.stream.emits hemits) rfl (Or.inl ⟨rfl, rfl⟩)
  | routed event =>
    obtain ⟨hevent, rfl⟩ := routed_cases hstep
    exact h.congr (h.stream.routes hevent) rfl (Or.inl ⟨rfl, rfl⟩)

end Track

/-! ## Steps that leave the tracked job alone -/

/-- Neither of an action nor of a task that can end a job. -/
def AppEvent.Aside : AppEvent ι → Prop
  | .select _ => True
  | .shown => True
  | .pickAudio _ => True
  | .startNewGenerationFlow => True
  | .deleted _ => True
  | .reset => True
  | .setEngineNotConnected => True
  | .reconnected => True
  | .stopped => True
  | .unregister _ => True
  | .writes _ => True
  | .emits _ => True
  | .routed _ => True
  | _ => False

/-- The tracked job, its polling and what is on its way are left alone. -/
structure KeepsJob (s s' : ViewModel ι) : Prop where
  state : s'.state = s.state ∨ s.state.isNotesJobActive = false ∧
    s'.state.isNotesJobActive = false ∧ ∀ path, s'.state ≠ .done path
  job : s'.job = s.job
  await : s'.await = s.await
  obtained : s'.obtained = s.obtained
  ended : s'.ended = s.ended
  watches : ∀ jobId, Watches s' jobId → Watches s jobId
  polls : s.job ≠ none → s'.polls = s.polls
  made : ∀ call ∈ s.stream.made, call ∈ s'.stream.made

section Frames

variable {actions : ι → Action} {meetingOf notesPath : String → String} {s s' : ViewModel ι}

theorem KeepsJob.refl (s : ViewModel ι) : KeepsJob s s :=
  ⟨Or.inl rfl, rfl, rfl, rfl, rfl, fun _ hwatch => hwatch, fun _ => rfl, fun _ hmade => hmade⟩

theorem TrackInv.frame_setState (h : TrackInv actions meetingOf s)
    (hidle : s.state.isNotesJobActive = false) {state : AppState}
    (hstate : state.isNotesJobActive = false) (hdone : ∀ path, state ≠ .done path) :
    KeepsJob s (s.setState state) :=
  ⟨Or.inr ⟨hidle, hstate, hdone⟩, (h.job_eq_none hidle).symm, rfl, rfl, rfl,
    fun _ hwatch => hwatch, fun _ => rfl, fun _ hmade => hmade⟩

theorem TrackInv.frame_startNewGenerationFlow (h : TrackInv actions meetingOf s)
    (hidle : s.state.isNotesJobActive = false) : KeepsJob s s.startNewGenerationFlow :=
  ⟨Or.inr ⟨hidle, rfl, nofun⟩, (h.job_eq_none hidle).symm, rfl, rfl, rfl,
    fun _ hwatch => hwatch, fun _ => rfl, fun _ hmade => hmade⟩

theorem TrackInv.frame_reset (h : TrackInv actions meetingOf s)
    (hidle : s.state.isNotesJobActive = false) : KeepsJob s s.reset :=
  ⟨Or.inr ⟨hidle, rfl, nofun⟩, (h.job_eq_none hidle).symm, rfl, rfl, rfl,
    fun _ hwatch => watches_cancelled.mp hwatch,
    fun htracked => absurd (h.job_eq_none hidle) htracked, fun _ hmade => hmade⟩

theorem TrackInv.frame_finishLiveRecording (h : TrackInv actions meetingOf s) {meetingId : String}
    (hidle : s.selectedMeetingId = some meetingId → s.state.isNotesJobActive = false) :
    KeepsJob s (s.finishLiveRecording meetingId) := by
  unfold ViewModel.finishLiveRecording
  split
  · next hselected => exact h.frame_setState (hidle hselected) rfl nofun
  · exact .refl s

theorem frame_shown (s : ViewModel ι) : KeepsJob s s.showSelectedMeetingAfterTerminalState := by
  unfold ViewModel.showSelectedMeetingAfterTerminalState
  cases hstate : s.state with
  | done =>
    exact ⟨Or.inr ⟨by rw [hstate]; rfl, rfl, nofun⟩, rfl, rfl, rfl, rfl, fun _ hwatch => hwatch,
      fun _ => rfl, fun _ hmade => hmade⟩
  | error =>
    exact ⟨Or.inr ⟨by rw [hstate]; rfl, rfl, nofun⟩, rfl, rfl, rfl, rfl, fun _ hwatch => hwatch,
      fun _ => rfl, fun _ hmade => hmade⟩
  | _ => exact .refl s

variable [DecidableEq ι]

theorem TrackInv.frame_of_aside (h : TrackInv actions meetingOf s) {event : AppEvent ι}
    (haside : event.Aside) (hidle : Leaves actions s event → s.state.isNotesJobActive = false)
    (hstep : appStep actions meetingOf notesPath s event = some s') : KeepsJob s s' := by
  cases event with
  | select id =>
    cases hstep
    exact ⟨Or.inl rfl, rfl, rfl, rfl, rfl, fun _ hwatch => hwatch, fun _ => rfl,
      fun _ hmade => hmade⟩
  | shown =>
    cases hstep
    exact frame_shown s
  | pickAudio audio =>
    cases hstep
    exact h.frame_setState (hidle trivial) rfl nofun
  | startNewGenerationFlow =>
    cases hstep
    exact h.frame_startNewGenerationFlow (hidle trivial)
  | deleted meetingId =>
    cases hstep
    unfold ViewModel.deleted
    split
    · next hselected => exact h.frame_startNewGenerationFlow (hidle hselected)
    · exact .refl s
  | reset =>
    cases hstep
    exact h.frame_reset (hidle trivial)
  | setEngineNotConnected =>
    cases hstep
    exact h.frame_setState (hidle trivial) rfl nofun
  | reconnected =>
    cases hstep
    exact h.frame_setState (hidle trivial) rfl nofun
  | stopped =>
    cases hstep
    exact ⟨Or.inl rfl, rfl, rfl, rfl, rfl, fun _ => watches_of_stop, fun _ => rfl,
      fun _ hmade => hmade⟩
  | unregister n =>
    obtain ⟨jobId, rfl⟩ := unregister_cases hstep
    exact ⟨Or.inl rfl, rfl, rfl, rfl, rfl, fun _ => watches_of_unregister, fun _ => rfl,
      fun _ hmade => hmade⟩
  | writes jobId =>
    cases hstep
    exact ⟨Or.inl rfl, rfl, rfl, rfl, rfl, fun _ hwatch => hwatch, fun _ => rfl,
      fun _ hmade => hmade⟩
  | emits event =>
    obtain ⟨-, rfl⟩ := emits_cases hstep
    exact ⟨Or.inl rfl, rfl, rfl, rfl, rfl, fun _ hwatch => hwatch, fun _ => rfl,
      fun _ hmade => hmade⟩
  | routed event =>
    obtain ⟨-, rfl⟩ := routed_cases hstep
    exact ⟨Or.inl rfl, rfl, rfl, rfl, rfl, fun _ => watches_of_route, fun _ => rfl,
      fun _ => EventStream.mem_made_route⟩
  | _ => exact haside.elim

end Frames

end App
end Panops
