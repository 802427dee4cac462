import Panops.App.JobEndings

/-!
# One job at a time

No second request for notes while one is outstanding, and no job that is forgotten, when
the calls come one after another.
-/

namespace Panops
namespace App

open Lib.Transitions

variable {ι : Type}

/-- The engine has answered the request of the action. -/
def Answered (past : List (AppEvent ι)) (i : ι) : Prop :=
  (∃ jobId, .answered i jobId ∈ past) ∨ ∃ kind message, .refused i kind message ∈ past

/-- Every call that has got past its guard has been answered. -/
def AllAnswered (past : List (AppEvent ι)) : Prop := ∀ i, .begin i ∈ past → Answered past i

/-- The job for which the event starts the polling, and its action. -/
def startsPolling (s : ViewModel ι) : AppEvent ι → Option (ι × String)
  | .subscribed i false =>
    match s.await i with
    | .adopting jobId => some (i, jobId)
    | _ => none
  | .resumes i =>
    match s.await i with
    | .registered jobId => some (i, jobId)
    | _ => none
  | _ => none

/-- The tracked job is this one, or another action is yet to start the polling of it. -/
def NotCancelled (s : ViewModel ι) (i : ι) (jobId : String) : Prop :=
  ∀ other, s.job = some other → other = jobId ∨ ∃ k, k ≠ i ∧ (s.await k).Carries other

/-- A call of `generateNotes` or `generate` gets past its guard only when those before it
have been answered, and so does the job of a recording, and only when no other is tracked;
a tracked job is not left for another state, and the polling of a job does not start
again what is polled for a later one. -/
structure InTurn (actions : ι → Action) (now : ViewModel ι × List (AppEvent ι))
    (event : AppEvent ι) : Prop where
  leaves : Leaves actions now.1 event → now.1.state.isNotesJobActive = false
  begin : ∀ i, event = .begin i → AllAnswered now.2
  refreshed : ∀ i, event = .refreshed i → (actions i).notesJobId ≠ none →
    AllAnswered now.2 ∧ now.1.state.isNotesJobActive = false
  polling : ∀ i jobId, startsPolling now.1 event = some (i, jobId) → NotCancelled now.1 i jobId

/-- An action starts the polling of the job, or a task polls for it. -/
def Live (s : ViewModel ι) (jobId : String) : Prop :=
  (∃ k, (s.await k).Carries jobId) ∨ ∃ poll ∈ s.polls, poll.jobId = jobId ∧ poll.cancelled = false

/-- One request is on its way, and none while a job is tracked; every job is the tracked
one or has ended. -/
structure LimitInv (actions : ι → Action) (meetingOf : String → String)
    (now : ViewModel ι × List (AppEvent ι)) : Prop where
  track : TrackInv actions meetingOf now.1
  begun : ∀ i, (now.1.await i).Asking → .begin i ∈ now.2
  unanswered : ∀ i, now.1.await i = .ready ∨ (now.1.await i).Asking → ¬ Answered now.2 i
  one : ∀ i k, (now.1.await i).Asking → (now.1.await k).Asking → i = k
  asking : ∀ i, (now.1.await i).Asking → now.1.job = none
  obtained : ∀ jobId ∈ now.1.obtained, now.1.job = some jobId ∨ jobId ∈ now.1.ended
  live : ∀ jobId, now.1.job = some jobId → Live now.1 jobId

section Limit

variable {actions : ι → Action} {meetingOf notesPath : String → String} {s s' : ViewModel ι}
  {past : List (AppEvent ι)} {i : ι}

namespace LimitInv

/-- Nobody asks when all calls have been answered. -/
theorem quiet (h : LimitInv actions meetingOf (s, past)) (hall : AllAnswered past) (k : ι) :
    ¬ (s.await k).Asking :=
  fun hasking => h.unanswered k (Or.inr hasking) (hall k (h.begun k hasking))

theorem answered_append {event : AppEvent ι} {k : ι} (h : Answered (past ++ [event]) k) :
    Answered past k ∨ (∃ jobId, event = .answered k jobId) ∨
      ∃ kind message, event = .refused k kind message := by
  rcases h with ⟨jobId, hmem⟩ | ⟨kind, message, hmem⟩
  · rcases List.mem_append.mp hmem with hold | hnew
    · exact Or.inl (Or.inl ⟨jobId, hold⟩)
    · exact Or.inr (Or.inl ⟨jobId, (List.mem_singleton.mp hnew).symm⟩)
  · rcases List.mem_append.mp hmem with hold | hnew
    · exact Or.inl (Or.inr ⟨kind, message, hold⟩)
    · exact Or.inr (Or.inr ⟨kind, message, (List.mem_singleton.mp hnew).symm⟩)

/-- An event takes its place in the past, and whom it answers asks no more. -/
theorem after (h : LimitInv actions meetingOf (s, past)) (event : AppEvent ι)
    (hanswers : ∀ k, ((∃ jobId, event = .answered k jobId) ∨
      ∃ kind message, event = .refused k kind message) →
        s.await k ≠ .ready ∧ ¬ (s.await k).Asking) :
    LimitInv actions meetingOf (s, past ++ [event]) where
  track := h.track
  begun k hasking := List.mem_append_left _ (h.begun k hasking)
  unanswered k hopen hanswered := by
    rcases answered_append hanswered with hold | hnew
    · exact h.unanswered k hopen hold
    · obtain ⟨hready, hasking⟩ := hanswers k hnew
      exact hopen.elim hready hasking
  one := h.one
  asking := h.asking
  obtained := h.obtained
  live := h.live

/-- Nothing is told of the job that is not so before. -/
theorem frame (h : LimitInv actions meetingOf (s, past)) (htrack : TrackInv actions meetingOf s')
    (hjob : s'.job = s.job) (hawait : s'.await = s.await) (hobtained : s'.obtained = s.obtained)
    (hended : s'.ended = s.ended)
    (hpolls : ∀ poll ∈ s.polls, poll.cancelled = false → s.job = some poll.jobId →
      poll ∈ s'.polls) : LimitInv actions meetingOf (s', past) where
  track := htrack
  begun k hasking := h.begun k (hawait ▸ hasking)
  unanswered k hopen := h.unanswered k (hawait ▸ hopen)
  one k l hk hl := h.one k l (hawait ▸ hk) (hawait ▸ hl)
  asking k hasking := hjob.trans (h.asking k (hawait ▸ hasking))
  obtained jobId hmem := by
    show s'.job = some jobId ∨ jobId ∈ s'.ended
    rw [hjob, hended]
    exact h.obtained jobId (hobtained ▸ hmem)
  live jobId hsome := by
    replace hsome : s.job = some jobId := hjob.symm.trans hsome
    rcases h.live jobId hsome with ⟨k, hk⟩ | ⟨poll, hpoll, hid, hcancelled⟩
    · exact Or.inl ⟨k, hawait ▸ hk⟩
    · exact Or.inr ⟨poll, hpolls poll hpoll hcancelled (hid ▸ hsome), hid, hcancelled⟩

theorem of_frame (h : LimitInv actions meetingOf (s, past))
    (htrack : TrackInv actions meetingOf s') (hframe : KeepsJob s s') :
    LimitInv actions meetingOf (s', past) := by
  refine h.frame htrack hframe.job hframe.await hframe.obtained hframe.ended ?_
  intro poll hpoll _ hjob
  rw [hframe.polls (by rw [hjob]; nofun)]
  exact hpoll

/-- The tracked job ends. -/
theorem ends (h : LimitInv actions meetingOf (s, past)) (htrack : TrackInv actions meetingOf s')
    (hawait : s'.await = s.await) (hjob : s'.job = none) (hobtained : s'.obtained = s.obtained)
    (hended : s'.ended = s.ended ++ s.job.toList) : LimitInv actions meetingOf (s', past) where
  track := htrack
  begun k hasking := h.begun k (hawait ▸ hasking)
  unanswered k hopen := h.unanswered k (hawait ▸ hopen)
  one k l hk hl := h.one k l (hawait ▸ hk) (hawait ▸ hl)
  asking _ _ := hjob
  obtained jobId hmem := by
    right
    show jobId ∈ s'.ended
    rw [hended]
    rcases h.obtained jobId (hobtained ▸ hmem) with htracked | hold
    · exact List.mem_append_right _ (by rw [htracked]; exact List.mem_singleton_self jobId)
    · exact List.mem_append_left _ hold
  live jobId hsome := by
    rw [show s'.job = none from hjob] at hsome
    cases hsome

theorem finishGeneration_of_working {meetingId audioName : String} {id : Option String}
    {state : AppState} (hworking : s.state = .working meetingId audioName) :
    (s.finishGeneration meetingId id state).await = s.await ∧
      (s.finishGeneration meetingId id state).job = none ∧
      (s.finishGeneration meetingId id state).obtained = s.obtained ∧
      (s.finishGeneration meetingId id state).ended = s.ended ++ s.job.toList := by
  simp [ViewModel.finishGeneration, hworking]

theorem finishGeneration (h : LimitInv actions meetingOf (s, past)) {meetingId : String}
    {id : Option String} {state : AppState} (hstate : state.isNotesJobActive = false) :
    LimitInv actions meetingOf (s.finishGeneration meetingId id state, past) := by
  have htrack : TrackInv actions meetingOf (s.finishGeneration meetingId id state) :=
    h.track.finishGeneration hstate
  unfold ViewModel.finishGeneration at htrack ⊢
  split at htrack
  · split at htrack
    · next hcurrent =>
      simp only [if_pos hcurrent]
      exact h.ends htrack rfl rfl rfl rfl
    · next hcurrent =>
      simp only [if_neg hcurrent]
      exact h
  · exact h

variable [DecidableEq ι]

theorem await_suspend (s : ViewModel ι) (i k : ι) (await : Await) :
    (s.suspend i await).await k = if k = i then await else s.await k := by
  by_cases hki : k = i
  · subst hki
    simp [ViewModel.suspend]
  · simp [ViewModel.suspend, hki]

/-- An action goes on to another suspension. -/
theorem suspend (h : LimitInv actions meetingOf (s, past)) {await : Await}
    (hready : await ≠ .ready)
    (hcarried : ∀ jobId, await.Carries jobId → meetingOf jobId = (actions i).meetingId)
    (hasking : await.Asking → s.job = none ∧ .begin i ∈ past ∧ ¬ Answered past i ∧
      ∀ k, (s.await k).Asking → k = i)
    (hlive : ∀ jobId, s.job = some jobId → (s.await i).Carries jobId → await.Carries jobId) :
    LimitInv actions meetingOf (s.suspend i await, past) where
  track := h.track.suspend hcarried
  begun k hk := by
    rw [await_suspend] at hk
    split at hk
    · next hki => exact hki ▸ (hasking hk).2.1
    · exact h.begun k hk
  unanswered k hopen := by
    rw [await_suspend] at hopen
    split at hopen
    · next hki => exact hki ▸ (hasking (hopen.resolve_left hready)).2.2.1
    · exact h.unanswered k hopen
  one k l hk hl := by
    rw [await_suspend] at hk hl
    split at hk
    · next hki =>
      split at hl
      · next hli => exact hki.trans hli.symm
      · exact hki.trans ((hasking hk).2.2.2 l hl).symm
    · split at hl
      · next hli => exact ((hasking hl).2.2.2 k hk).trans hli.symm
      · exact h.one k l hk hl
  asking k hk := by
    rw [await_suspend] at hk
    split at hk
    · exact (hasking hk).1
    · exact h.asking k hk
  obtained := h.obtained
  live jobId hjob := by
    rcases h.live jobId hjob with ⟨k, hk⟩ | hpoll
    · left
      by_cases hki : k = i
      · subst hki
        exact ⟨k, by rw [await_suspend, if_pos rfl]; exact hlive jobId hjob hk⟩
      · exact ⟨k, by rw [await_suspend, if_neg hki]; exact hk⟩
    · exact Or.inr hpoll

/-- An action that carries no job goes on to what is not of a job either. -/
theorem rests (h : LimitInv actions meetingOf (s, past)) {await : Await}
    (hready : await ≠ .ready) (hnot : ∀ jobId, ¬ await.Carries jobId) (hquiet : ¬ await.Asking)
    (hbefore : ∀ jobId, ¬ (s.await i).Carries jobId) :
    LimitInv actions meetingOf (s.suspend i await, past) :=
  h.suspend hready (fun jobId hcarries => absurd hcarries (hnot jobId))
    (fun hasking => absurd hasking hquiet) fun jobId _ hcarries => absurd hcarries (hbefore jobId)

theorem finishes (h : LimitInv actions meetingOf (s, past))
    (hbefore : ∀ jobId, ¬ (s.await i).Carries jobId) :
    LimitInv actions meetingOf (s.suspend i .finished, past) :=
  h.rests nofun (fun _ hcarries => hcarries) (fun hasking => hasking) hbefore

/-- An action that asks goes on asking. -/
theorem asks_on (h : LimitInv actions meetingOf (s, past)) {await : Await}
    (hbefore : (s.await i).Asking) (hasking : await.Asking) :
    LimitInv actions meetingOf (s.suspend i await, past) := by
  refine h.suspend ?_ (fun _ hcarries => absurd hcarries hasking.not_carries) (fun _ => ?_) ?_
  · rintro rfl
    exact hasking
  · exact ⟨h.asking i hbefore, h.begun i hbefore, h.unanswered i (Or.inr hbefore),
      fun k hk => h.one k i hk hbefore⟩
  · exact fun jobId _ hcarries => absurd hcarries hbefore.not_carries

/-- The state becomes `.working` for a new job when nobody else asks. -/
theorem adopts (h : LimitInv actions meetingOf (s, past)) {audioName jobId : String}
    (hnone : s.job = none) (hquiet : ∀ k, (s.await k).Asking → k = i)
    (hmeeting : meetingOf jobId = (actions i).meetingId) :
    LimitInv actions meetingOf
      ((s.setWorking (actions i).meetingId audioName jobId).suspend i (.adopting jobId), past) where
  track := TrackInv.suspend (h.track.setWorking hmeeting) fun other hother => hother ▸ hmeeting
  begun k hk := by
    rw [await_suspend] at hk
    split at hk
    · exact hk.elim
    · exact h.begun k hk
  unanswered k hopen := by
    rw [await_suspend] at hopen
    split at hopen
    · rcases hopen with hready | hasking
      · cases hready
      · exact hasking.elim
    · exact h.unanswered k hopen
  one k l hk hl := by
    rw [await_suspend] at hk hl
    split at hk
    · exact hk.elim
    · split at hl
      · exact hl.elim
      · exact h.one k l hk hl
  asking k hk := by
    rw [await_suspend] at hk
    split at hk
    · exact hk.elim
    · next hki => exact absurd (hquiet k hk) hki
  obtained other hmem := by
    rcases List.mem_append.mp hmem with hold | hnew
    · right
      rcases h.obtained other hold with hjob | hended
      · rw [show s.job = none from hnone] at hjob
        cases hjob
      · exact hended
    · exact Or.inl (by rw [List.mem_singleton.mp hnew]; rfl)
  live other hother := by
    refine Or.inl ⟨i, ?_⟩
    rw [await_suspend, if_pos rfl]
    exact Option.some.inj hother

/-- The polling of the job of an action starts. -/
theorem polls (h : LimitInv actions meetingOf (s, past)) {jobId : String} {wsOk : Bool}
    (hcarries : (s.await i).Carries jobId) (hother : NotCancelled s i jobId) :
    LimitInv actions meetingOf
      ((s.startPolling (actions i).meetingId jobId wsOk).suspend i .finished, past) where
  track := TrackInv.suspend (h.track.startPolling (h.track.carried i jobId hcarries))
    fun _ hcarries => hcarries.elim
  begun k hk := by
    rw [await_suspend] at hk
    split at hk
    · exact hk.elim
    · exact h.begun k hk
  unanswered k hopen := by
    rw [await_suspend] at hopen
    split at hopen
    · rcases hopen with hready | hasking
      · cases hready
      · exact hasking.elim
    · exact h.unanswered k hopen
  one k l hk hl := by
    rw [await_suspend] at hk hl
    split at hk
    · exact hk.elim
    · split at hl
      · exact hl.elim
      · exact h.one k l hk hl
  asking k hk := by
    rw [await_suspend] at hk
    split at hk
    · exact hk.elim
    · exact h.asking k hk
  obtained := h.obtained
  live other hjob := by
    rcases hother other hjob with rfl | ⟨k, hki, hk⟩
    · exact Or.inr ⟨_, List.mem_append_right _ (List.mem_singleton_self _), rfl, rfl⟩
    · refine Or.inl ⟨k, ?_⟩
      rw [await_suspend, if_neg hki]
      exact hk

theorem watchNotesJob (h : LimitInv actions meetingOf (s, past)) {jobId : String} {wsOk : Bool}
    (hi : s.await i = .adopting jobId) (hother : wsOk = false → NotCancelled s i jobId) :
    LimitInv actions meetingOf
      (s.watchNotesJob i (actions i).meetingId jobId wsOk, past) := by
  have hcarries : (s.await i).Carries jobId := by rw [hi]; rfl
  unfold ViewModel.watchNotesJob
  cases wsOk with
  | true =>
    refine h.suspend nofun (fun other hsame => hsame ▸ h.track.carried i jobId hcarries)
      (fun hasking => hasking.elim) fun other _ hsame => ?_
    exact hcarries.eq hsame
  | false => exact h.polls hcarries (hother rfl)

/-! ## Steps -/

theorem begins (h : LimitInv actions meetingOf (s, past)) (hall : AllAnswered past)
    (hstep : appStep actions meetingOf notesPath s (.begin i) = some s') :
    LimitInv actions meetingOf (s', past ++ [.begin i]) := by
  obtain ⟨hready, hidle, await, hasking, rfl⟩ := begin_cases hstep
  have hafter : LimitInv actions meetingOf (s, past ++ [.begin i]) :=
    h.after _ fun k hk => by
      rcases hk with ⟨jobId, hk⟩ | ⟨kind, message, hk⟩
      · cases hk
      · cases hk
  refine hafter.suspend ?_ (fun _ hcarries => absurd hcarries hasking.not_carries) (fun _ => ?_) ?_
  · rintro rfl
    exact hasking
  · refine ⟨h.track.job_eq_none hidle, List.mem_append_right _ (List.mem_singleton_self _),
      hafter.unanswered i (Or.inl hready), fun k hk => absurd hk (h.quiet hall k)⟩
  · intro jobId _ hcarries
    rw [hready] at hcarries
    exact hcarries.elim

theorem failNotesStart (h : LimitInv actions meetingOf (s, past))
    (hidle : s.state.isNotesJobActive = false) {kind message : String}
    (hbefore : ∀ jobId, ¬ (s.await i).Carries jobId) :
    LimitInv actions meetingOf ((s.failNotesStart kind message).suspend i .finished, past) := by
  have hfailed : LimitInv actions meetingOf (s.failNotesStart kind message, past) :=
    h.of_frame (h.track.setState rfl) (h.track.frame_setState hidle rfl nofun)
  exact hfailed.finishes hbefore

theorem turnedAway (h : LimitInv actions meetingOf (s, past))
    (hstep : appStep actions meetingOf notesPath s (.turnedAway i) = some s') :
    LimitInv actions meetingOf (s', past) := by
  obtain ⟨hready, hcases⟩ := turnedAway_cases hstep
  have hbefore : ∀ jobId, ¬ (s.await i).Carries jobId := fun jobId hcarries => by
    rw [hready] at hcarries
    exact hcarries
  rcases hcases with rfl | ⟨hidle, kind, message, rfl⟩
  · exact h.finishes hbefore
  · exact h.failNotesStart hidle hbefore

theorem meetingStarted (h : LimitInv actions meetingOf (s, past))
    (hstep : appStep actions meetingOf notesPath s (.meetingStarted i) = some s') :
    LimitInv actions meetingOf (s', past) := by
  obtain ⟨audio, hawait, rfl⟩ := meetingStarted_cases hstep
  exact h.asks_on (by rw [hawait]; trivial) trivial

theorem subscribed (h : LimitInv actions meetingOf (s, past)) {wsOk : Bool}
    (hok : InTurn actions (s, past) (.subscribed i wsOk))
    (hstep : appStep actions meetingOf notesPath s (.subscribed i wsOk) = some s') :
    LimitInv actions meetingOf (s', past) := by
  rcases subscribed_cases hstep with ⟨audio, hawait, rfl⟩ | ⟨jobId, hawait, rfl⟩
  · exact h.asks_on (by rw [hawait]; trivial) trivial
  · refine h.watchNotesJob hawait fun hws => hok.polling i jobId ?_
    subst hws
    simp [startsPolling, hawait]

theorem answered (h : LimitInv actions meetingOf (s, past)) {jobId : String}
    (hstep : appStep actions meetingOf notesPath s (.answered i jobId) = some s') :
    LimitInv actions meetingOf (s', past ++ [.answered i jobId]) := by
  obtain ⟨audio, wsOk, hawait, hfresh, rfl⟩ := answered_cases hstep
  have hasking : (s.await i).Asking := by rw [hawait]; trivial
  have hadopts : LimitInv actions meetingOf
      ((s.setWorking (actions i).meetingId audio jobId).suspend i (.adopting jobId), past) :=
    h.adopts (h.asking i hasking) (fun k hk => h.one k i hk hasking) hfresh.1
  have hwatches : LimitInv actions meetingOf
      (((s.setWorking (actions i).meetingId audio jobId).suspend i (.adopting jobId)).watchNotesJob
        i (actions i).meetingId jobId wsOk, past) :=
    hadopts.watchNotesJob (Function.update_self ..) fun _ other hother =>
      Or.inl (Option.some.inj hother).symm
  have hsame : ((s.setWorking (actions i).meetingId audio jobId).suspend i
      (.adopting jobId)).watchNotesJob i (actions i).meetingId jobId wsOk =
        (s.setWorking (actions i).meetingId audio jobId).watchNotesJob i (actions i).meetingId jobId
          wsOk := by
    cases wsOk <;> simp [ViewModel.watchNotesJob, ViewModel.suspend, ViewModel.startPolling]
  rw [hsame] at hwatches
  refine hwatches.after _ fun k hk => ?_
  obtain rfl : k = i := by
    rcases hk with ⟨other, hk⟩ | ⟨kind, message, hk⟩
    · cases hk
      rfl
    · cases hk
  cases wsOk <;> simp [ViewModel.watchNotesJob, ViewModel.suspend, Await.Asking]

theorem refused (h : LimitInv actions meetingOf (s, past)) {kind message : String}
    (hstep : appStep actions meetingOf notesPath s (.refused i kind message) = some s') :
    LimitInv actions meetingOf (s', past ++ [.refused i kind message]) := by
  obtain ⟨hasking, rfl⟩ := refused_cases hstep
  have hfailed : LimitInv actions meetingOf
      ((s.failNotesStart kind message).suspend i .finished, past) :=
    h.failNotesStart (h.track.idle_of_none (h.asking i hasking)) fun _ => hasking.not_carries
  refine hfailed.after _ fun k hk => ?_
  obtain rfl : k = i := by
    rcases hk with ⟨other, hk⟩ | ⟨kind', message', hk⟩
    · cases hk
    · cases hk
      rfl
  rw [await_suspend, if_pos rfl]
  exact ⟨nofun, fun hasking => hasking⟩

theorem registers (h : LimitInv actions meetingOf (s, past))
    (hstep : appStep actions meetingOf notesPath s (.registers i) = some s') :
    LimitInv actions meetingOf (s', past) := by
  obtain ⟨jobId, hawait, rfl⟩ := registers_cases hstep
  have hcarries : (s.await i).Carries jobId := by rw [hawait]; rfl
  have hmeeting := h.track.carried i jobId hcarries
  have hregistered : LimitInv actions meetingOf
      ({ s with stream := s.stream.registerCallback jobId ⟨(actions i).meetingId, jobId⟩ }, past) :=
    h.frame (h.track.congr (h.track.stream.registers hmeeting) rfl (Or.inl ⟨rfl, rfl⟩)) rfl rfl rfl
      rfl fun _ hpoll _ _ => hpoll
  exact hregistered.suspend nofun (fun other hsame => hsame ▸ hmeeting)
    (fun hasking => hasking.elim) fun other _ hsame => hcarries.eq hsame

theorem resumes (h : LimitInv actions meetingOf (s, past))
    (hok : InTurn actions (s, past) (.resumes i))
    (hstep : appStep actions meetingOf notesPath s (.resumes i) = some s') :
    LimitInv actions meetingOf (s', past) := by
  rcases resumes_cases hstep with ⟨jobId, hawait, rfl⟩ | ⟨hselecting, hcases⟩
  · exact h.polls (by rw [hawait]; rfl) (hok.polling i jobId (by simp [startsPolling, hawait]))
  · have hbefore : ∀ jobId, ¬ (s.await i).Carries jobId := fun jobId hcarries => by
      rw [hselecting] at hcarries
      exact hcarries
    rcases hcases with rfl | rfl
    · have hshown : LimitInv actions meetingOf (s.showSelectedMeetingAfterTerminalState, past) :=
        h.of_frame h.track.shown (frame_shown s)
      exact hshown.finishes fun jobId hcarries =>
        hbefore jobId ((frame_shown s).await ▸ hcarries)
    · exact h.finishes hbefore

theorem recordingStarted (h : LimitInv actions meetingOf (s, past))
    (hidle : s.state.isNotesJobActive = false)
    (hstep : appStep actions meetingOf notesPath s (.recordingStarted i) = some s') :
    LimitInv actions meetingOf (s', past) := by
  obtain ⟨hready, meetingId, rfl⟩ := recordingStarted_cases hstep
  have hselects : LimitInv actions meetingOf
      ({ s.setIdle with selectedMeetingId := some meetingId }, past) :=
    h.frame
      (h.track.congr (h.track.stream.congr rfl rfl h.track.stream.polls) rfl (Or.inr ⟨rfl, rfl⟩))
      (h.track.job_eq_none hidle).symm rfl rfl rfl fun _ hpoll _ _ => hpoll
  refine hselects.rests nofun (fun _ hcarries => hcarries) (fun hasking => hasking) ?_
  intro jobId hcarries
  replace hcarries : (s.await i).Carries jobId := hcarries
  rw [hready] at hcarries
  exact hcarries

theorem meetingStopped (h : LimitInv actions meetingOf (s, past))
    (hstep : appStep actions meetingOf notesPath s (.meetingStopped i) = some s') :
    LimitInv actions meetingOf (s', past) := by
  obtain ⟨hready, rfl⟩ := meetingStopped_cases hstep
  refine h.rests nofun (fun _ hcarries => hcarries) (fun hasking => hasking) ?_
  intro jobId hcarries
  rw [hready] at hcarries
  exact hcarries

theorem refreshed (h : LimitInv actions meetingOf (s, past))
    (hok : InTurn actions (s, past) (.refreshed i))
    (hstep : appStep actions meetingOf notesPath s (.refreshed i) = some s') :
    LimitInv actions meetingOf (s', past) := by
  obtain ⟨hrefreshing, audioName, s₁, rfl, hcases⟩ := refreshed_cases hstep
  have hframe : KeepsJob s (s.finishLiveRecording (actions i).meetingId) :=
    h.track.frame_finishLiveRecording hok.leaves
  have hafter : LimitInv actions meetingOf (s.finishLiveRecording (actions i).meetingId, past) :=
    h.of_frame h.track.finishLiveRecording hframe
  rcases hcases with ⟨-, rfl⟩ | ⟨jobId, hjobId, hcases⟩
  · refine hafter.finishes fun jobId hcarries => ?_
    rw [hframe.await, hrefreshing] at hcarries
    exact hcarries
  · obtain ⟨hall, hidle⟩ := hok.refreshed i rfl (by simp [hjobId])
    rcases hcases with ⟨hactive, -⟩ | ⟨-, hfresh, rfl⟩
    · rcases hframe.state with hsame | ⟨-, hnot, -⟩
      · rw [hsame, show s.state.isNotesJobActive = false from hidle] at hactive
        cases hactive
      · rw [hnot] at hactive
        cases hactive
    · apply hafter.adopts (hframe.job.trans (h.track.job_eq_none hidle)) _ hfresh.1
      exact fun k hk => absurd (hframe.await ▸ hk) (h.quiet hall k)

theorem mem_eraseIdx_of_ne {α : Type} {l : List α} {n : Nat} {a b : α} (hb : b ∈ l)
    (ha : l[n]? = some a) (hne : b ≠ a) : b ∈ l.eraseIdx n := by
  obtain ⟨m, hm⟩ := List.mem_iff_getElem?.mp hb
  have hmn : m ≠ n := by
    intro heq
    rw [heq, ha] at hm
    exact hne (Option.some.inj hm).symm
  exact List.mem_eraseIdx_iff_getElem?.mpr ⟨m, hmn, hm⟩

/-- The polling of the tracked job ends the job. -/
theorem polled (h : LimitInv actions meetingOf (s, past)) {n : Nat} {step : PollStep}
    (hstep : appStep actions meetingOf notesPath s (.poll n step) = some s') :
    LimitInv actions meetingOf (s', past) := by
  have htrack : TrackInv actions meetingOf s' := h.track.polled hstep
  obtain ⟨poll, hpoll, hcases⟩ := poll_cases hstep
  have herased : TrackInv actions meetingOf { s with polls := s.polls.eraseIdx n } :=
    h.track.congr (h.track.stream.erasePoll n) rfl (Or.inl ⟨rfl, rfl⟩)
  rcases hcases with ⟨id, state, hstate, rfl⟩ | ⟨hcancelled, rfl⟩
  · have hactive : state.isNotesJobActive = false := by
      rcases hstate with ⟨kind, message, rfl⟩ | ⟨-, path, rfl⟩
      · rfl
      · rfl
    by_cases hjob : s.job = some poll.jobId
    · obtain ⟨audioName, hworking⟩ := h.track.job poll.jobId hjob
      have hmeeting := h.track.stream.polls poll (List.mem_of_getElem? hpoll)
      rw [← hmeeting] at hworking
      obtain ⟨hawait, hnone, hobtained, hended⟩ :=
        @finishGeneration_of_working ι { s with polls := s.polls.eraseIdx n } _ _ id state hworking
      exact h.ends htrack hawait hnone hobtained hended
    · have hothers : LimitInv actions meetingOf ({ s with polls := s.polls.eraseIdx n }, past) :=
        h.frame herased rfl rfl rfl rfl fun other hother _ hsome =>
          mem_eraseIdx_of_ne hother hpoll fun heq => hjob (heq ▸ hsome)
      exact hothers.finishGeneration hactive
  · refine h.frame herased rfl rfl rfl rfl fun other hother hnot _ => ?_
    refine mem_eraseIdx_of_ne hother hpoll fun heq => ?_
    rw [heq, hcancelled] at hnot
    cases hnot

theorem handled (h : LimitInv actions meetingOf (s, past)) {n : Nat}
    (hstep : appStep actions meetingOf notesPath s (.handler n) = some s') :
    LimitInv actions meetingOf (s', past) := by
  obtain ⟨handler, event, -, rfl⟩ := handler_cases hstep
  have herased : LimitInv actions meetingOf
      ({ s with stream := { s.stream with made := s.stream.made.eraseIdx n } }, past) :=
    h.frame (h.track.congr (h.track.stream.eraseMade n) rfl (Or.inl ⟨rfl, rfl⟩)) rfl rfl rfl rfl
      fun _ hpoll _ _ => hpoll
  cases event with
  | jobDone => exact herased.finishGeneration rfl
  | jobError => exact herased.finishGeneration rfl
  | jobProgress => exact herased
  | unknown => exact herased

end LimitInv

variable [DecidableEq ι]

end Limit

/-- A job ends in the step in which it is the tracked one and the state becomes `.done`
or `.error`. -/
def Ends (s s' : ViewModel ι) : Prop :=
  ∀ jobId ∈ s'.ended, jobId ∈ s.ended ∨ s.job = some jobId ∧
    ((∃ notesPath, s'.state = .done notesPath) ∨ ∃ kind message, s'.state = .error kind message)

section Ends

variable {actions : ι → Action} {meetingOf notesPath : String → String} {s s' : ViewModel ι}

theorem Ends.of_same (h : s'.ended = s.ended) : Ends s s' := fun _ hended =>
  Or.inl (h ▸ hended)

variable [DecidableEq ι]

end Ends

end App
end Panops
