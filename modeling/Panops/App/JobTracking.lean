import Mathlib.Logic.Function.Basic
import Panops.App.EventStream
import Panops.Lib.Transitions

/-!
# Tracking a notes job

What the view model does between `notes.generate` and the end of the job, from one
suspension to the next: its actions, the tasks that poll for `notes.md`, the callbacks
for events, everything else that sets the state, and what the engine writes and sends
meanwhile.
-/

namespace Panops
namespace App

open Lib.Transitions

inductive AppState where
  | engineNotConnected
  | idle (audio : Option String)
  | working (meetingId audioName : String)
  | done (notesPath : String)
  | error (kind message : String)
deriving DecidableEq

def AppState.isNotesJobActive : AppState → Bool
  | .working _ _ => true
  | _ => false

/-- What the callback of `watchNotesJob` captures. -/
structure Handler where
  meetingId : String
  jobId : String
deriving DecidableEq

/-- A task of `startPolling`. -/
structure Poll where
  meetingId : String
  jobId : String
  wsOk : Bool
  cancelled : Bool
deriving DecidableEq

inductive Action where
  /-- With the audio that `locateAudio` finds. -/
  | generateNotes (meetingId : String) (audio : Option String)
  /-- With the meeting that the engine makes for it. -/
  | generate (meetingId : String)
  | startNewRecording (meetingId : String)
  /-- With the job that the engine has enqueued for the recording. -/
  | finishActiveLiveRecording (meetingId : String) (notesJobId : Option String)
      (audioName : String)
deriving DecidableEq

def Action.meetingId : Action → String
  | .generateNotes meetingId _ => meetingId
  | .generate meetingId => meetingId
  | .startNewRecording meetingId => meetingId
  | .finishActiveLiveRecording meetingId _ _ => meetingId

def Action.notesJobId : Action → Option String
  | .finishActiveLiveRecording _ notesJobId _ => notesJobId
  | _ => none

/-- Where an action is suspended. -/
inductive Await where
  | ready
  /-- In the `meeting.start` of `generate`. -/
  | starting (audio : String)
  /-- In `ensureWsSubscription`, and in `notes.generate`. -/
  | subscribing (audio : String)
  | requested (audio : String) (wsOk : Bool)
  /-- In `ensureWsSubscription` with a job that the engine has enqueued. -/
  | adopting (jobId : String)
  /-- In `registerCallback`, before and after the call of the actor. -/
  | registering (jobId : String)
  | registered (jobId : String)
  /-- In `meeting.get`, after a recording has started. -/
  | selecting
  /-- In `refreshMeetings`, after a recording has stopped. -/
  | refreshing
  | finished
deriving DecidableEq

structure ViewModel (ι : Type) where
  state : AppState
  selectedMeetingId : Option String
  polls : List Poll
  /-- `made` are the calls whose task has not run on the main actor yet. -/
  stream : EventStream Handler
  /-- Tasks that are to call `unregisterCallback`. -/
  unregistering : List String
  await : ι → Await
  /-- The meetings whose directory has a `notes.md`. -/
  notesMd : String → Bool
  /-- What the engine has sent. -/
  emitted : List IpcEvent
  /- Not in the source: the job for which the state is `.working`, the jobs of which the
  app has been given the id, and those that have ended with the state `.done` or
  `.error`. -/
  job : Option String
  obtained : List String
  ended : List String

namespace ViewModel

variable {ι : Type}

def startPolling (meetingId jobId : String) (wsOk : Bool) (s : ViewModel ι) : ViewModel ι :=
  { s with
    polls := s.polls.map (fun poll => { poll with cancelled := true }) ++
      [⟨meetingId, jobId, wsOk, false⟩] }

/-- `finishGenerationDone` and `finishGenerationError`. -/
def finishGeneration (meetingId : String) (jobId : Option String) (state : AppState)
    (s : ViewModel ι) : ViewModel ι :=
  match s.state with
  | .working current _ =>
    if current = meetingId then
      { s with
        state := state
        polls := s.polls.map fun poll => { poll with cancelled := true }
        unregistering := s.unregistering ++ jobId.toList
        job := none
        ended := s.ended ++ s.job.toList }
    else s
  | _ => s

def finishGenerationDone (meetingId : String) (jobId : Option String) (notesPath : String)
    (s : ViewModel ι) : ViewModel ι :=
  s.finishGeneration meetingId jobId (.done notesPath)

def finishGenerationError (meetingId : String) (jobId : Option String) (kind message : String)
    (s : ViewModel ι) : ViewModel ι :=
  s.finishGeneration meetingId jobId (.error kind message)

/-- The task that a callback starts on the main actor. -/
def handle (handler : Handler) (event : IpcEvent) (s : ViewModel ι) : ViewModel ι :=
  match event with
  | .jobDone _ result =>
    s.finishGenerationDone result.meetingId (some handler.jobId) result.primaryFile
  | .jobError _ payload =>
    s.finishGenerationError handler.meetingId (some handler.jobId) payload.kind payload.message
  | .jobProgress _ => s
  | .unknown _ => s

def showSelectedMeetingAfterTerminalState (s : ViewModel ι) : ViewModel ι :=
  match s.state with
  | .done _ => { s with state := .idle none }
  | .error _ _ => { s with state := .idle none }
  | _ => s

/-- `state = .working`, for this job. -/
def setWorking (meetingId audioName jobId : String) (s : ViewModel ι) : ViewModel ι :=
  { s with
    state := .working meetingId audioName
    job := some jobId
    obtained := s.obtained ++ [jobId] }

/-- The state is set, whatever it has been. -/
def setState (state : AppState) (s : ViewModel ι) : ViewModel ι :=
  { s with state := state, job := none }

def setIdle (s : ViewModel ι) : ViewModel ι := s.setState (.idle none)

def failNotesStart (kind message : String) (s : ViewModel ι) : ViewModel ι :=
  s.setState (.error kind message)

def pickAudio (audio : String) (s : ViewModel ι) : ViewModel ι := s.setState (.idle (some audio))

def setEngineNotConnected (s : ViewModel ι) : ViewModel ι := s.setState .engineNotConnected

def startNewGenerationFlow (s : ViewModel ι) : ViewModel ι :=
  { s.setIdle with selectedMeetingId := none }

/-- The rest of `deleteMeeting` when the engine has deleted the meeting. -/
def deleted (meetingId : String) (s : ViewModel ι) : ViewModel ι :=
  if s.selectedMeetingId = some meetingId then s.startNewGenerationFlow else s

/-- The end of `finishLiveRecording`. -/
def finishLiveRecording (meetingId : String) (s : ViewModel ι) : ViewModel ι :=
  if s.selectedMeetingId = some meetingId then s.setIdle else s

/-- The task that stops the stream is a step of its own. -/
def reset (s : ViewModel ι) : ViewModel ι :=
  { s.startNewGenerationFlow with
    polls := s.polls.map fun poll => { poll with cancelled := true } }

section Fields

variable {s : ViewModel ι} {meetingId jobId : String} {id : Option String} {state : AppState}

@[simp] theorem stream_finishGeneration :
    (s.finishGeneration meetingId id state).stream = s.stream := by
  unfold finishGeneration
  split
  · split <;> rfl
  · rfl

@[simp] theorem await_finishGeneration :
    (s.finishGeneration meetingId id state).await = s.await := by
  unfold finishGeneration
  split
  · split <;> rfl
  · rfl

@[simp] theorem emitted_finishGeneration :
    (s.finishGeneration meetingId id state).emitted = s.emitted := by
  unfold finishGeneration
  split
  · split <;> rfl
  · rfl

theorem mem_polls_finishGeneration {poll : Poll}
    (h : poll ∈ (s.finishGeneration meetingId id state).polls) :
    ∃ before ∈ s.polls, before.meetingId = poll.meetingId ∧ before.jobId = poll.jobId := by
  unfold finishGeneration at h
  split at h
  · split at h
    · obtain ⟨before, hbefore, rfl⟩ := List.mem_map.mp h
      exact ⟨before, hbefore, rfl, rfl⟩
    · exact ⟨poll, h, rfl, rfl⟩
  · exact ⟨poll, h, rfl, rfl⟩

theorem mem_polls_startPolling {wsOk : Bool} {poll : Poll}
    (h : poll ∈ (s.startPolling meetingId jobId wsOk).polls) :
    (∃ before ∈ s.polls, before.meetingId = poll.meetingId ∧ before.jobId = poll.jobId) ∨
      poll.meetingId = meetingId ∧ poll.jobId = jobId := by
  rcases List.mem_append.mp h with hold | hnew
  · obtain ⟨before, hbefore, rfl⟩ := List.mem_map.mp hold
    exact Or.inl ⟨before, hbefore, rfl, rfl⟩
  · rw [List.mem_singleton.mp hnew]
    exact Or.inr ⟨rfl, rfl⟩

end Fields

variable [DecidableEq ι]

def suspend (i : ι) (await : Await) (s : ViewModel ι) : ViewModel ι :=
  { s with await := Function.update s.await i await }

def watchNotesJob (i : ι) (meetingId jobId : String) (wsOk : Bool) (s : ViewModel ι) :
    ViewModel ι :=
  if wsOk then s.suspend i (.registering jobId)
  else (s.startPolling meetingId jobId wsOk).suspend i .finished

end ViewModel

/-- What a task that polls comes to. -/
inductive PollStep where
  /-- `meeting.get` fails. -/
  | lost
  /-- There is a `notes.md`; the task looks once more when it is cancelled. -/
  | finds
  | stalls (message : String)
  | quits
deriving DecidableEq

inductive AppEvent (ι : Type) where
  /-- `generateNotes` or `generate` gets past its guard, with audio. -/
  | begin (i : ι)
  | turnedAway (i : ι)
  /-- The engine has made the meeting of `generate`. -/
  | meetingStarted (i : ι)
  | subscribed (i : ι) (wsOk : Bool)
  | answered (i : ι) (jobId : String)
  | refused (i : ι) (kind message : String)
  | registers (i : ι)
  | resumes (i : ι)
  | recordingStarted (i : ι)
  | meetingStopped (i : ι)
  | refreshed (i : ι)
  | select (id : Option String)
  /-- The meeting of the selection is loaded. -/
  | shown
  | pickAudio (audio : String)
  | startNewGenerationFlow
  | deleted (meetingId : String)
  | reset
  | setEngineNotConnected
  /-- The end of `retryConnect`. -/
  | reconnected
  /-- The stream is stopped, by `reset` or when it could not be set up in time. -/
  | stopped
  | poll (n : Nat) (step : PollStep)
  | handler (n : Nat)
  | unregister (n : Nat)
  /-- The engine creates the `notes.md` of the job, or sends an event. -/
  | writes (jobId : String)
  | emits (event : IpcEvent)
  | routed (event : IpcEvent)

variable {ι : Type} [DecidableEq ι]

section Steps

variable (actions : ι → Action) (meetingOf notesPath : String → String)

def pollStep (s : ViewModel ι) (poll : Poll) : PollStep → Option (ViewModel ι)
  | .lost =>
    some (s.finishGenerationError poll.meetingId (if poll.wsOk then some poll.jobId else none)
      "internal" "Lost contact with the engine.")
  | .finds =>
    if s.notesMd poll.meetingId then
      some (s.finishGenerationDone poll.meetingId (if poll.wsOk then some poll.jobId else none)
        (notesPath poll.meetingId))
    else none
  | .stalls message =>
    some (s.finishGenerationError poll.meetingId (if poll.wsOk then some poll.jobId else none)
      "timeout" message)
  | .quits => if poll.cancelled then some s else none

/-- The engine ends a job once, and sends with a result the meeting of the job. -/
def Emits (s : ViewModel ι) (event : IpcEvent) : Prop :=
  (∀ other ∈ s.emitted, other.terminalId = none ∨ other.terminalId ≠ event.terminalId) ∧
    ∀ jobId result, event = .jobDone jobId result → result.meetingId = meetingOf jobId

omit [DecidableEq ι] in
theorem emits_jobDone (s : ViewModel ι) (jobId : String) (result : JobDoneResult) :
    (∀ other ∈ s.emitted, other.terminalId = none ∨ other.terminalId ≠ some jobId) ∧
      result.meetingId = meetingOf jobId ↔ Emits meetingOf s (.jobDone jobId result) := by
  simp [Emits, IpcEvent.terminalId]

omit [DecidableEq ι] in
theorem emits_jobError (s : ViewModel ι) (jobId : String) (error : JobErrorPayload) :
    (∀ other ∈ s.emitted, other.terminalId = none ∨ other.terminalId ≠ some jobId) ↔
      Emits meetingOf s (.jobError jobId error) := by
  simp [Emits, IpcEvent.terminalId]

omit [DecidableEq ι] in
theorem emits_of_terminalId_none (s : ViewModel ι) {event : IpcEvent}
    (h : event.terminalId = none) : Emits meetingOf s event := by
  refine ⟨fun other _ => ?_, fun jobId result hdone => ?_⟩
  · rw [h]
    exact Decidable.em (other.terminalId = none)
  · subst hdone
    cases h

instance (s : ViewModel ι) (event : IpcEvent) : Decidable (Emits meetingOf s event) :=
  match event with
  | .jobDone jobId result => decidable_of_iff _ (emits_jobDone meetingOf s jobId result)
  | .jobError jobId error => decidable_of_iff _ (emits_jobError meetingOf s jobId error)
  | .jobProgress _ => .isTrue (emits_of_terminalId_none meetingOf s rfl)
  | .unknown _ => .isTrue (emits_of_terminalId_none meetingOf s rfl)

/-- The engine draws a new id for each job, and it is a job of the meeting. -/
def Fresh (s : ViewModel ι) (meetingId jobId : String) : Prop :=
  meetingOf jobId = meetingId ∧ jobId ∉ s.obtained

instance (s : ViewModel ι) (meetingId jobId : String) :
    Decidable (Fresh meetingOf s meetingId jobId) :=
  inferInstanceAs (Decidable (_ ∧ _))

def appStep (s : ViewModel ι) : AppEvent ι → Option (ViewModel ι)
  | .begin i =>
    match actions i, s.await i with
    | .generateNotes _ (some audio), .ready =>
      if s.state.isNotesJobActive then none else some (s.suspend i (.subscribing audio))
    | .generate _, .ready =>
      match s.state with
      | .idle (some audio) => some (s.suspend i (.starting audio))
      | _ => none
    | _, _ => none
  | .turnedAway i =>
    match actions i, s.await i with
    | .generateNotes _ audio, .ready =>
      if s.state.isNotesJobActive then some (s.suspend i .finished)
      else
        match audio with
        | none =>
          some ((s.failNotesStart "no_audio"
            "No recorded audio was found for this meeting.").suspend i .finished)
        | some _ => none
    | .generate _, .ready =>
      match s.state with
      | .idle (some _) => none
      | _ => some (s.suspend i .finished)
    | _, _ => none
  | .meetingStarted i =>
    match s.await i with
    | .starting audio => some (s.suspend i (.subscribing audio))
    | _ => none
  | .subscribed i wsOk =>
    match s.await i with
    | .subscribing audio => some (s.suspend i (.requested audio wsOk))
    | .adopting jobId => some (s.watchNotesJob i (actions i).meetingId jobId wsOk)
    | _ => none
  | .answered i jobId =>
    match s.await i with
    | .requested audio wsOk =>
      if Fresh meetingOf s (actions i).meetingId jobId then
        some ((s.setWorking (actions i).meetingId audio jobId).watchNotesJob i
          (actions i).meetingId jobId wsOk)
      else none
    | _ => none
  | .refused i kind message =>
    match s.await i with
    | .starting _ => some ((s.failNotesStart kind message).suspend i .finished)
    | .requested _ _ => some ((s.failNotesStart kind message).suspend i .finished)
    | _ => none
  | .registers i =>
    match s.await i with
    | .registering jobId =>
      some ({ s with
        stream := s.stream.registerCallback jobId ⟨(actions i).meetingId, jobId⟩ }.suspend i
          (.registered jobId))
    | _ => none
  | .resumes i =>
    match s.await i with
    | .registered jobId =>
      some ((s.startPolling (actions i).meetingId jobId true).suspend i .finished)
    | .selecting =>
      if s.selectedMeetingId = some (actions i).meetingId then
        some (s.showSelectedMeetingAfterTerminalState.suspend i .finished)
      else some (s.suspend i .finished)
    | _ => none
  | .recordingStarted i =>
    match actions i, s.await i with
    | .startNewRecording meetingId, .ready =>
      some ({ s.setIdle with selectedMeetingId := some meetingId }.suspend i .selecting)
    | _, _ => none
  | .meetingStopped i =>
    match actions i, s.await i with
    | .finishActiveLiveRecording .., .ready => some (s.suspend i .refreshing)
    | _, _ => none
  | .refreshed i =>
    match actions i, s.await i with
    | .finishActiveLiveRecording meetingId notesJobId audioName, .refreshing =>
      let s := s.finishLiveRecording meetingId
      match notesJobId with
      | none => some (s.suspend i .finished)
      | some jobId =>
        if s.state.isNotesJobActive then
          some ({ s with obtained := s.obtained ++ [jobId] }.suspend i .finished)
        else if Fresh meetingOf s meetingId jobId then
          some ((s.setWorking meetingId audioName jobId).suspend i (.adopting jobId))
        else none
    | _, _ => none
  | .select id => some { s with selectedMeetingId := id }
  | .shown => some s.showSelectedMeetingAfterTerminalState
  | .pickAudio audio => some (s.pickAudio audio)
  | .startNewGenerationFlow => some s.startNewGenerationFlow
  | .deleted meetingId => some (s.deleted meetingId)
  | .reset => some s.reset
  | .setEngineNotConnected => some s.setEngineNotConnected
  | .reconnected => some s.setIdle
  | .stopped => some { s with stream := s.stream.stop }
  | .poll n step =>
    match s.polls[n]? with
    | none => none
    | some poll => pollStep notesPath { s with polls := s.polls.eraseIdx n } poll step
  | .handler n =>
    match s.stream.made[n]? with
    | none => none
    | some (handler, event) =>
      some ({ s with stream := { s.stream with made := s.stream.made.eraseIdx n } }.handle
        handler event)
  | .unregister n =>
    match s.unregistering[n]? with
    | none => none
    | some jobId =>
      some { s with
        stream := s.stream.unregisterCallback jobId
        unregistering := s.unregistering.eraseIdx n }
  | .writes jobId => some { s with notesMd := Function.update s.notesMd (meetingOf jobId) true }
  | .emits event =>
    if Emits meetingOf s event then some { s with emitted := s.emitted ++ [event] } else none
  | .routed event =>
    if event ∈ s.emitted then some { s with stream := s.stream.route event } else none

end Steps

/-- Meetings may have a `notes.md` from before. -/
def ViewModel.start (notesMd : String → Bool) : ViewModel ι where
  state := .idle none
  selectedMeetingId := none
  polls := []
  stream := .start
  unregistering := []
  await _ := .ready
  notesMd := notesMd
  emitted := []
  job := none
  obtained := []
  ended := []

end App
end Panops
