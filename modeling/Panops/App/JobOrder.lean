import Panops.App.JobSteps

/-!
# Jobs in order

What the tracking of jobs keeps as long as a job is only begun when nothing of another
one is left, and a tracked job is not left for another state.
-/

namespace Panops
namespace App

open Lib.Transitions

variable {ι : Type}

/-- Between the guard of an action and the start of its polling. -/
def Await.Busy (await : Await) : Prop := await.Asking ∨ ∃ jobId, await.Carries jobId

/-- No job is on its way, and nothing of an earlier job of the meeting is left. -/
def Clear (meetingOf : String → String) (s : ViewModel ι) (meetingId : String) : Prop :=
  (∀ k, ¬ (s.await k).Busy) ∧ ∀ jobId, Watches s jobId → meetingOf jobId ≠ meetingId

/-- The app does not leave a job that it tracks for another state, and a job is begun when
the way is clear. -/
def Orderly (actions : ι → Action) (meetingOf : String → String) (s : ViewModel ι)
    (event : AppEvent ι) : Prop :=
  (Leaves actions s event → s.state.isNotesJobActive = false) ∧
    match event with
    | .begin i => Clear meetingOf s (actions i).meetingId
    | .refreshed i => (actions i).notesJobId ≠ none → s.state.isNotesJobActive = false →
      Clear meetingOf s (actions i).meetingId
    | _ => True

/-- What holds for an action that is suspended there. -/
structure Held (actions : ι → Action) (meetingOf : String → String) (s : ViewModel ι) (i : ι)
    (await : Await) : Prop where
  asking : await.Asking → s.job = none
  tracked : ∀ jobId, await = .adopting jobId ∨ await = .registering jobId → s.job = some jobId
  carried : ∀ jobId, await.Carries jobId → ∀ other, s.job = some other → other = jobId
  unwatched : await.Busy → (∀ jobId, await ≠ .registered jobId) →
    ∀ jobId, Watches s jobId → meetingOf jobId ≠ (actions i).meetingId

/-- One action is on its way, and the tracked job is the only one of its meeting. -/
structure OrderInv (actions : ι → Action) (meetingOf : String → String) (s : ViewModel ι) :
    Prop where
  track : TrackInv actions meetingOf s
  one : ∀ i k, (s.await i).Busy → (s.await k).Busy → i = k
  held : ∀ i, Held actions meetingOf s i (s.await i)
  own : ∀ jobId other, s.job = some jobId → Watches s other →
    meetingOf other = meetingOf jobId → other = jobId

section Held

variable {actions : ι → Action} {meetingOf : String → String} {s s' : ViewModel ι} {i : ι}
  {await : Await} {jobId : String}

theorem Held.of_not_busy (hrest : ¬ await.Busy) : Held actions meetingOf s i await where
  asking hasking := absurd (Or.inl hasking) hrest
  tracked jobId hawait := by
    refine absurd (Or.inr ⟨jobId, ?_⟩) hrest
    rcases hawait with rfl | rfl
    · rfl
    · rfl
  carried jobId hcarries := absurd (Or.inr ⟨jobId, hcarries⟩) hrest
  unwatched hbusy := absurd hbusy hrest

theorem Held.of_asking (hasking : await.Asking) (hnone : s.job = none)
    (hclear : ∀ jobId, Watches s jobId → meetingOf jobId ≠ (actions i).meetingId) :
    Held actions meetingOf s i await where
  asking _ := hnone
  tracked jobId hawait := by
    have hcarries : await.Carries jobId := by
      rcases hawait with rfl | rfl
      · rfl
      · rfl
    exact absurd hcarries hasking.not_carries
  carried _ hcarries := absurd hcarries hasking.not_carries
  unwatched _ _ := hclear

/-- The job is tracked, and its callback is not registered yet. -/
theorem Held.of_tracked (hawait : await = .adopting jobId ∨ await = .registering jobId)
    (hjob : s.job = some jobId)
    (hclear : ∀ jobId, Watches s jobId → meetingOf jobId ≠ (actions i).meetingId) :
    Held actions meetingOf s i await where
  asking hasking := by
    rcases hawait with rfl | rfl
    · exact hasking.elim
    · exact hasking.elim
  tracked other hother := by
    rcases hawait with rfl | rfl
    · rcases hother with hother | hother
      · cases hother
        exact hjob
      · cases hother
    · rcases hother with hother | hother
      · cases hother
      · cases hother
        exact hjob
  carried other hcarries third hthird := by
    have hsame : other = jobId := by
      rcases hawait with rfl | rfl
      · exact hcarries.symm
      · exact hcarries.symm
    rw [hsame]
    exact Option.some.inj (hthird.symm.trans hjob)
  unwatched _ _ := hclear

/-- The callback is registered. -/
theorem Held.of_registered (hjob : ∀ other, s.job = some other → other = jobId) :
    Held actions meetingOf s i (.registered jobId) where
  asking hasking := hasking.elim
  tracked _ hawait := by
    rcases hawait with hawait | hawait
    · cases hawait
    · cases hawait
  carried other hcarries third hthird := (hjob third hthird).trans hcarries
  unwatched _ hnot := absurd rfl (hnot jobId)

theorem Held.frame (h : Held actions meetingOf s i await) (hjob : s'.job = s.job)
    (hwatches : ∀ jobId, Watches s' jobId → Watches s jobId) :
    Held actions meetingOf s' i await where
  asking hasking := hjob.trans (h.asking hasking)
  tracked jobId hawait := hjob.trans (h.tracked jobId hawait)
  carried jobId hcarries other hother := h.carried jobId hcarries other (hjob.symm.trans hother)
  unwatched hbusy hnot jobId hwatch := h.unwatched hbusy hnot jobId (hwatches jobId hwatch)

end Held

/-! ## What is tracked -/

section Order

variable {actions : ι → Action} {meetingOf notesPath : String → String} {s s' : ViewModel ι} {i : ι}

theorem orderInv_start {notesMd : String → Bool} :
    OrderInv actions meetingOf (ViewModel.start notesMd : ViewModel ι) := by
  have hrest : ¬ Await.ready.Busy := by
    rintro (hasking | ⟨jobId, hcarries⟩)
    · exact hasking
    · exact hcarries
  exact ⟨trackInv_start, fun _ _ hbusy => absurd hbusy hrest, fun _ => .of_not_busy hrest, nofun⟩

theorem OrderInv.frame (h : OrderInv actions meetingOf s) (htrack : TrackInv actions meetingOf s')
    (hjob : s'.job = s.job) (hawait : s'.await = s.await)
    (hwatches : ∀ jobId, Watches s' jobId → Watches s jobId) : OrderInv actions meetingOf s' where
  track := htrack
  one := hawait ▸ h.one
  held k := by
    rw [hawait]
    exact (h.held k).frame hjob hwatches
  own jobId other hsome hwatch hmeeting :=
    h.own jobId other (hjob.symm.trans hsome) (hwatches other hwatch) hmeeting

/-- The job that is tracked is the one of the watcher. -/
theorem OrderInv.tracked (h : OrderInv actions meetingOf s) {jobId : String}
    (hwatch : Watches s jobId) {audioName : String}
    (hworking : s.state = .working (meetingOf jobId) audioName) : s.job = some jobId := by
  obtain ⟨tracked, htracked, hmeeting⟩ := h.track.tracked_of_working hworking
  rw [htracked, h.own tracked jobId htracked hwatch hmeeting.symm]

/-- A job that is watched is not one whose polling has yet to be set up. -/
theorem OrderInv.not_waiting (h : OrderInv actions meetingOf s) {jobId other : String}
    (hwatch : Watches s jobId) (hjob : s.job = some jobId) (k : ι) :
    ¬ (s.await k = .adopting other ∨ s.await k = .registering other) := by
  intro hawait
  have hsame : other = jobId := Option.some.inj (((h.held k).tracked other hawait).symm.trans hjob)
  subst hsame
  have hcarries : (s.await k).Carries other := by
    rcases hawait with hawait | hawait
    · rw [hawait]
      rfl
    · rw [hawait]
      rfl
  refine (h.held k).unwatched (Or.inr ⟨other, hcarries⟩) ?_ other hwatch
    (h.track.carried k other hcarries)
  rintro third hthird
  rw [hthird] at hawait
  rcases hawait with hawait | hawait
  · cases hawait
  · cases hawait

/-- The end of a job comes from a watcher of its meeting. -/
theorem OrderInv.finishGeneration (h : OrderInv actions meetingOf s) {jobId : String}
    (hwatch : Watches s jobId) {s₁ : ViewModel ι} (hframe : OrderInv actions meetingOf s₁)
    (hstate₁ : s₁.state = s.state) (hawait : s₁.await = s.await) {id : Option String}
    {state : AppState} (hstate : state.isNotesJobActive = false) :
    OrderInv actions meetingOf (s₁.finishGeneration (meetingOf jobId) id state) := by
  have htrack : TrackInv actions meetingOf (s₁.finishGeneration (meetingOf jobId) id state) :=
    hframe.track.finishGeneration hstate
  have hwatches : ∀ other, Watches (s₁.finishGeneration (meetingOf jobId) id state) other ↔
      Watches s₁ other := fun other => watches_finishGeneration
  unfold ViewModel.finishGeneration at htrack hwatches ⊢
  split at htrack
  · next current audioName hworking =>
    split at htrack
    · next hcurrent =>
      simp only [hworking, if_pos hcurrent] at hwatches ⊢
      have htracked : s.job = some jobId := by
        rw [hcurrent] at hworking
        exact h.tracked hwatch (hstate₁.symm.trans hworking)
      refine ⟨htrack, hframe.one, fun k => ?_, nofun⟩
      exact {
        asking := fun _ => rfl
        tracked := fun other hother =>
          absurd (hawait ▸ hother) (h.not_waiting hwatch htracked k)
        carried := nofun
        unwatched := fun hbusy hnot other hother =>
          (hframe.held k).unwatched hbusy hnot other ((hwatches other).mp hother) }
    · next hcurrent =>
      simp only [if_neg hcurrent]
      exact hframe
  · exact hframe

/-- The state becomes `.working` for a new job. -/
theorem OrderInv.setWorking (h : OrderInv actions meetingOf s)
    {meetingId audioName jobId : String} (hmeeting : meetingOf jobId = meetingId)
    (hclear : Clear meetingOf s meetingId) :
    OrderInv actions meetingOf (s.setWorking meetingId audioName jobId) where
  track := h.track.setWorking hmeeting
  one k _ hbusy := absurd hbusy (hclear.1 k)
  held k := .of_not_busy (hclear.1 k)
  own tracked other htracked hwatch hsame := by
    obtain rfl := Option.some.inj htracked
    exact absurd (hsame.trans hmeeting) (hclear.2 other hwatch)

/-- The job of an action that has registered its callback gets a watcher. -/
theorem OrderInv.gains (h : OrderInv actions meetingOf s) (htrack : TrackInv actions meetingOf s')
    {jobId : String} (hi : s.await i = .registered jobId) (hjob : s'.job = s.job)
    (hawait : s'.await = s.await)
    (hwatches : ∀ other, Watches s' other → Watches s other ∨ other = jobId) :
    OrderInv actions meetingOf s' where
  track := htrack
  one := hawait ▸ h.one
  held k := by
    rw [hawait]
    by_cases hbusy : (s.await k).Busy
    · have hki : k = i := h.one k i hbusy (by rw [hi]; exact Or.inr ⟨jobId, rfl⟩)
      subst hki
      rw [hi]
      apply Held.of_registered
      intro other hother
      exact (h.held k).carried jobId (by rw [hi]; rfl) other (hjob.symm.trans hother)
    · exact .of_not_busy hbusy
  own tracked other htracked hwatch hmeeting := by
    rw [hjob] at htracked
    rcases hwatches other hwatch with hold | rfl
    · exact h.own tracked other htracked hold hmeeting
    · exact ((h.held i).carried other (by rw [hi]; rfl) tracked htracked).symm

variable [DecidableEq ι]

theorem suspend_suspend (s : ViewModel ι) (i : ι) (await await' : Await) :
    (s.suspend i await).suspend i await' = s.suspend i await' := by
  simp [ViewModel.suspend]

theorem OrderInv.suspend (h : OrderInv actions meetingOf s) {await : Await}
    (hcarried : ∀ jobId, await.Carries jobId → meetingOf jobId = (actions i).meetingId)
    (hone : await.Busy → ∀ k, (s.await k).Busy → k = i)
    (hheld : Held actions meetingOf s i await) :
    OrderInv actions meetingOf (s.suspend i await) where
  track := h.track.suspend hcarried
  one k l hk hl := by
    have hself : ∀ k, ((s.suspend i await).await k).Busy → k = i ∨ (s.await k).Busy := by
      intro k hk
      by_cases hki : k = i
      · exact Or.inl hki
      · exact Or.inr (by simpa [ViewModel.suspend, hki] using hk)
    have hboth : ∀ k, k = i → ((s.suspend i await).await k).Busy → await.Busy := by
      rintro k rfl hk
      simpa [ViewModel.suspend] using hk
    rcases hself k hk with rfl | hkbusy
    · rcases hself l hl with rfl | hlbusy
      · rfl
      · exact (hone (hboth k rfl hk) l hlbusy).symm
    · rcases hself l hl with rfl | hlbusy
      · exact hone (hboth l rfl hl) k hkbusy
      · exact h.one k l hkbusy hlbusy
  held k := by
    by_cases hki : k = i
    · subst hki
      rw [show (s.suspend k await).await k = await by simp [ViewModel.suspend]]
      exact hheld.frame rfl fun _ hwatch => hwatch
    · rw [show (s.suspend i await).await k = s.await k by simp [ViewModel.suspend, hki]]
      exact (h.held k).frame rfl fun _ hwatch => hwatch
  own := h.own

/-- An action that is over, or waits for something that is not of a job. -/
theorem OrderInv.rests (h : OrderInv actions meetingOf s) {await : Await} (hrest : ¬ await.Busy) :
    OrderInv actions meetingOf (s.suspend i await) :=
  h.suspend (fun jobId hcarries => absurd (Or.inr ⟨jobId, hcarries⟩) hrest)
    (fun hbusy => absurd hbusy hrest) (.of_not_busy hrest)

theorem not_busy_finished : ¬ Await.finished.Busy := by
  rintro (hasking | ⟨jobId, hcarries⟩)
  · exact hasking
  · exact hcarries

/-- From the guard of an action to its request. -/
theorem OrderInv.asks (h : OrderInv actions meetingOf s) {await : Await} (hasking : await.Asking)
    (hnone : s.job = none) (hone : ∀ k, (s.await k).Busy → k = i)
    (hclear : ∀ jobId, Watches s jobId → meetingOf jobId ≠ (actions i).meetingId) :
    OrderInv actions meetingOf (s.suspend i await) :=
  h.suspend (fun _ hcarries => absurd hcarries hasking.not_carries) (fun _ => hone)
    (.of_asking hasking hnone hclear)

/-- An action that asks goes on asking. -/
theorem OrderInv.asks_on (h : OrderInv actions meetingOf s) {await : Await}
    (hbefore : (s.await i).Asking) (hasking : await.Asking) :
    OrderInv actions meetingOf (s.suspend i await) := by
  have hbusy : (s.await i).Busy := Or.inl hbefore
  have hnot : ∀ jobId, s.await i ≠ .registered jobId := by
    intro jobId hregistered
    rw [hregistered] at hbefore
    exact hbefore
  exact h.asks hasking ((h.held i).asking hbefore) (fun k hk => h.one k i hk hbusy)
    ((h.held i).unwatched hbusy hnot)

/-- The job of an action that adopts it is watched. -/
theorem OrderInv.watchNotesJob (h : OrderInv actions meetingOf s) {jobId : String} {wsOk : Bool}
    (hi : s.await i = .adopting jobId) :
    OrderInv actions meetingOf (s.watchNotesJob i (actions i).meetingId jobId wsOk) := by
  have hcarries : (s.await i).Carries jobId := by rw [hi]; rfl
  have hbusy : (s.await i).Busy := Or.inr ⟨jobId, hcarries⟩
  have hone : ∀ k, (s.await k).Busy → k = i := fun k hk => h.one k i hk hbusy
  have hmeeting := h.track.carried i jobId hcarries
  unfold ViewModel.watchNotesJob
  split
  · refine h.suspend (fun other hother => hother ▸ hmeeting) (fun _ => hone) ?_
    refine .of_tracked (Or.inr rfl) ((h.held i).tracked jobId (Or.inl hi)) ?_
    exact (h.held i).unwatched hbusy (by simp [hi])
  · have hregistered : OrderInv actions meetingOf (s.suspend i (.registered jobId)) :=
      h.suspend (fun other hother => hother ▸ hmeeting) (fun _ => hone)
        (.of_registered ((h.held i).carried jobId hcarries))
    have hpolls : OrderInv actions meetingOf
        ((s.suspend i (.registered jobId)).startPolling (actions i).meetingId jobId wsOk) :=
      hregistered.gains (hregistered.track.startPolling hmeeting)
        (show (s.suspend i (.registered jobId)).await i = _ by simp [ViewModel.suspend]) rfl rfl
        fun other hwatch => watches_startPolling.mp hwatch
    have hfinished := hpolls.rests (i := i) not_busy_finished
    exact suspend_suspend (s.startPolling (actions i).meetingId jobId wsOk) i _ _ ▸ hfinished

/-! ## Steps -/

theorem OrderInv.begins (h : OrderInv actions meetingOf s)
    (hok : Orderly actions meetingOf s (.begin i))
    (hstep : appStep actions meetingOf notesPath s (.begin i) = some s') :
    OrderInv actions meetingOf s' := by
  obtain ⟨-, hidle, await, hasking, rfl⟩ := begin_cases hstep
  obtain ⟨hnone, hclear⟩ := hok.2
  exact h.asks hasking (h.track.job_eq_none hidle) (fun k hk => absurd hk (hnone k)) hclear

theorem OrderInv.failNotesStart (h : OrderInv actions meetingOf s)
    (hidle : s.state.isNotesJobActive = false) {kind message : String} :
    OrderInv actions meetingOf ((s.failNotesStart kind message).suspend i .finished) := by
  have hframe : KeepsJob s (s.failNotesStart kind message) :=
    h.track.frame_setState hidle rfl nofun
  have hfailed : OrderInv actions meetingOf (s.failNotesStart kind message) :=
    h.frame (h.track.setState rfl) hframe.job hframe.await hframe.watches
  exact hfailed.rests not_busy_finished

theorem OrderInv.turnedAway (h : OrderInv actions meetingOf s)
    (hstep : appStep actions meetingOf notesPath s (.turnedAway i) = some s') :
    OrderInv actions meetingOf s' := by
  obtain ⟨-, rfl | ⟨hidle, kind, message, rfl⟩⟩ := turnedAway_cases hstep
  · exact h.rests not_busy_finished
  · exact h.failNotesStart hidle

theorem OrderInv.meetingStarted (h : OrderInv actions meetingOf s)
    (hstep : appStep actions meetingOf notesPath s (.meetingStarted i) = some s') :
    OrderInv actions meetingOf s' := by
  obtain ⟨audio, hawait, rfl⟩ := meetingStarted_cases hstep
  exact h.asks_on (by rw [hawait]; trivial) trivial

theorem OrderInv.subscribed (h : OrderInv actions meetingOf s) {wsOk : Bool}
    (hstep : appStep actions meetingOf notesPath s (.subscribed i wsOk) = some s') :
    OrderInv actions meetingOf s' := by
  rcases subscribed_cases hstep with ⟨audio, hawait, rfl⟩ | ⟨jobId, hawait, rfl⟩
  · exact h.asks_on (by rw [hawait]; trivial) trivial
  · exact h.watchNotesJob hawait

/-- The action adopts the job, and goes on to its callback or its polling. -/
theorem OrderInv.adopts (h : OrderInv actions meetingOf s) {audioName jobId : String}
    (hmeeting : meetingOf jobId = (actions i).meetingId)
    (hclear : Clear meetingOf s (actions i).meetingId) :
    OrderInv actions meetingOf
      ((s.setWorking (actions i).meetingId audioName jobId).suspend i (.adopting jobId)) := by
  have hworking : OrderInv actions meetingOf (s.setWorking (actions i).meetingId audioName jobId) :=
    h.setWorking hmeeting hclear
  refine hworking.suspend (fun other hother => hother ▸ hmeeting) (fun _ k hk => ?_) ?_
  · exact absurd hk (hclear.1 k)
  · exact .of_tracked (Or.inl rfl) rfl hclear.2

theorem OrderInv.answered (h : OrderInv actions meetingOf s) {jobId : String}
    (hstep : appStep actions meetingOf notesPath s (.answered i jobId) = some s') :
    OrderInv actions meetingOf s' := by
  obtain ⟨audio, wsOk, hawait, hfresh, rfl⟩ := answered_cases hstep
  have hasking : (s.await i).Asking := by rw [hawait]; trivial
  -- the request is over, and none other is on its way
  have hclear : Clear meetingOf (s.suspend i .finished) (actions i).meetingId := by
    refine ⟨fun k hk => ?_, (h.held i).unwatched (Or.inl hasking) (by simp [hawait])⟩
    by_cases hki : k = i
    · subst hki
      exact not_busy_finished (by simpa [ViewModel.suspend] using hk)
    · exact hki (h.one k i (by simpa [ViewModel.suspend, hki] using hk) (Or.inl hasking))
  have hadopts : OrderInv actions meetingOf
      (((s.suspend i .finished).setWorking (actions i).meetingId audio jobId).suspend i
        (.adopting jobId)) :=
    OrderInv.adopts (h.rests not_busy_finished) hfresh.1 hclear
  have hwatches : OrderInv actions meetingOf
      ((((s.suspend i .finished).setWorking (actions i).meetingId audio jobId).suspend i
        (.adopting jobId)).watchNotesJob i (actions i).meetingId jobId wsOk) :=
    hadopts.watchNotesJob (Function.update_self ..)
  have hsame : (((s.suspend i .finished).setWorking (actions i).meetingId audio jobId).suspend i
      (.adopting jobId)).watchNotesJob i (actions i).meetingId jobId wsOk =
        (s.setWorking (actions i).meetingId audio jobId).watchNotesJob i (actions i).meetingId jobId
          wsOk := by
    cases wsOk <;>
      simp [ViewModel.watchNotesJob, ViewModel.suspend, ViewModel.setWorking,
        ViewModel.startPolling]
  exact hsame ▸ hwatches

theorem OrderInv.refused (h : OrderInv actions meetingOf s) {kind message : String}
    (hstep : appStep actions meetingOf notesPath s (.refused i kind message) = some s') :
    OrderInv actions meetingOf s' := by
  obtain ⟨hasking, rfl⟩ := refused_cases hstep
  exact h.failNotesStart (h.track.idle_of_none ((h.held i).asking hasking))

theorem OrderInv.registers (h : OrderInv actions meetingOf s)
    (hstep : appStep actions meetingOf notesPath s (.registers i) = some s') :
    OrderInv actions meetingOf s' := by
  have htrack : TrackInv actions meetingOf s' := h.track.registers hstep
  obtain ⟨jobId, hawait, rfl⟩ := registers_cases hstep
  have hcarries : (s.await i).Carries jobId := by rw [hawait]; rfl
  have hregistered : OrderInv actions meetingOf (s.suspend i (.registered jobId)) := by
    refine h.suspend (fun other hother => hother ▸ h.track.carried i jobId hcarries) ?_ ?_
    · exact fun _ k hk => h.one k i hk (Or.inr ⟨jobId, hcarries⟩)
    · exact .of_registered ((h.held i).carried jobId hcarries)
  have hi : (s.suspend i (.registered jobId)).await i = .registered jobId :=
    Function.update_self ..
  refine hregistered.gains htrack hi rfl rfl fun other hwatch => ?_
  exact @watches_of_register ι s jobId other ⟨(actions i).meetingId, jobId⟩ hwatch

theorem OrderInv.resumes (h : OrderInv actions meetingOf s)
    (hstep : appStep actions meetingOf notesPath s (.resumes i) = some s') :
    OrderInv actions meetingOf s' := by
  rcases resumes_cases hstep with ⟨jobId, hawait, rfl⟩ | ⟨-, rfl | rfl⟩
  · have hmeeting := h.track.carried i jobId (by rw [hawait]; rfl)
    have hpolls : OrderInv actions meetingOf
        (s.startPolling (actions i).meetingId jobId true) :=
      h.gains (h.track.startPolling hmeeting) hawait rfl rfl fun other hwatch =>
        watches_startPolling.mp hwatch
    exact hpolls.rests not_busy_finished
  · have hframe := frame_shown s
    have hshown : OrderInv actions meetingOf s.showSelectedMeetingAfterTerminalState :=
      h.frame h.track.shown hframe.job hframe.await hframe.watches
    exact hshown.rests not_busy_finished
  · exact h.rests not_busy_finished

theorem not_busy_of_ready {await : Await} (hawait : await = .selecting ∨ await = .refreshing) :
    ¬ await.Busy := by
  rintro (hasking | ⟨jobId, hcarries⟩)
  · rcases hawait with rfl | rfl
    · exact hasking
    · exact hasking
  · rcases hawait with rfl | rfl
    · exact hcarries
    · exact hcarries

theorem OrderInv.recordingStarted (h : OrderInv actions meetingOf s)
    (hok : Orderly actions meetingOf s (.recordingStarted i))
    (hstep : appStep actions meetingOf notesPath s (.recordingStarted i) = some s') :
    OrderInv actions meetingOf s' := by
  obtain ⟨-, meetingId, rfl⟩ := recordingStarted_cases hstep
  have hidle := hok.1 trivial
  have hselects : OrderInv actions meetingOf
      { s.setIdle with selectedMeetingId := some meetingId } :=
    h.frame
      (h.track.congr (h.track.stream.congr rfl rfl h.track.stream.polls) rfl (Or.inr ⟨rfl, rfl⟩))
      (h.track.job_eq_none hidle).symm rfl fun _ hwatch => hwatch
  exact hselects.rests (not_busy_of_ready (Or.inl rfl))

theorem OrderInv.refreshed (h : OrderInv actions meetingOf s)
    (hok : Orderly actions meetingOf s (.refreshed i))
    (hstep : appStep actions meetingOf notesPath s (.refreshed i) = some s') :
    OrderInv actions meetingOf s' := by
  obtain ⟨-, audioName, s₁, rfl, hcases⟩ := refreshed_cases hstep
  obtain ⟨hidle, hbegin⟩ := hok
  have hframe : KeepsJob s (s.finishLiveRecording (actions i).meetingId) :=
    h.track.frame_finishLiveRecording hidle
  have hafter : OrderInv actions meetingOf (s.finishLiveRecording (actions i).meetingId) :=
    h.frame h.track.finishLiveRecording hframe.job hframe.await hframe.watches
  rcases hcases with ⟨-, rfl⟩ | ⟨jobId, hjobId, ⟨-, rfl⟩ | ⟨hactive, hfresh, rfl⟩⟩
  · exact hafter.rests not_busy_finished
  · have hobtained : OrderInv actions meetingOf
        { s.finishLiveRecording (actions i).meetingId with
          obtained := (s.finishLiveRecording (actions i).meetingId).obtained ++ [jobId] } :=
      hafter.frame
        (hafter.track.congr
          (hafter.track.stream.congr rfl rfl hafter.track.stream.polls) rfl (Or.inl ⟨rfl, rfl⟩))
        rfl rfl fun _ hwatch => hwatch
    exact hobtained.rests not_busy_finished
  · have hbefore : s.state.isNotesJobActive = false := by
      rcases hframe.state with hsame | ⟨hbefore, -⟩
      · exact hsame ▸ hactive
      · exact hbefore
    obtain ⟨hnone, hclear⟩ := hbegin (by simp [hjobId]) hbefore
    apply hafter.adopts hfresh.1
    refine ⟨fun k hk => hnone k (hframe.await ▸ hk), fun other hwatch => ?_⟩
    exact hclear other (hframe.watches other hwatch)

theorem OrderInv.polled (h : OrderInv actions meetingOf s) {n : Nat} {step : PollStep}
    (hstep : appStep actions meetingOf notesPath s (.poll n step) = some s') :
    OrderInv actions meetingOf s' := by
  obtain ⟨poll, hpoll, hcases⟩ := poll_cases hstep
  have herased : OrderInv actions meetingOf { s with polls := s.polls.eraseIdx n } :=
    h.frame (h.track.congr (h.track.stream.erasePoll n) rfl (Or.inl ⟨rfl, rfl⟩)) rfl rfl
      fun _ => watches_of_erase_poll
  rcases hcases with ⟨id, state, hstate, rfl⟩ | ⟨-, rfl⟩
  · have hactive : state.isNotesJobActive = false := by
      rcases hstate with ⟨kind, message, rfl⟩ | ⟨-, path, rfl⟩
      · rfl
      · rfl
    rw [h.track.stream.polls poll (List.mem_of_getElem? hpoll)]
    exact h.finishGeneration (watches_of_poll hpoll) herased rfl rfl hactive
  · exact herased

theorem OrderInv.handled (h : OrderInv actions meetingOf s) {n : Nat}
    (hstep : appStep actions meetingOf notesPath s (.handler n) = some s') :
    OrderInv actions meetingOf s' := by
  obtain ⟨handler, event, hmade, rfl⟩ := handler_cases hstep
  have hmem := List.mem_of_getElem? hmade
  have herased : OrderInv actions meetingOf
      { s with stream := { s.stream with made := s.stream.made.eraseIdx n } } :=
    h.frame (h.track.congr (h.track.stream.eraseMade n) rfl (Or.inl ⟨rfl, rfl⟩)) rfl rfl
      fun _ => watches_of_erase_made
  cases event with
  | jobDone jobId result =>
    show OrderInv actions meetingOf (ViewModel.finishGeneration result.meetingId _ _ _)
    rw [(h.track.stream.result_of_made hmem).2]
    exact h.finishGeneration (watches_of_made hmade) herased rfl rfl rfl
  | jobError jobId error =>
    have hmeeting : handler.meetingId = meetingOf handler.jobId := (h.track.stream.made _ hmem).2.1
    show OrderInv actions meetingOf (ViewModel.finishGeneration handler.meetingId _ _ _)
    rw [hmeeting]
    exact h.finishGeneration (watches_of_made hmade) herased rfl rfl rfl
  | jobProgress => exact herased
  | unknown => exact herased

theorem orderInv_step (s : ViewModel ι) (event : AppEvent ι) (s' : ViewModel ι)
    (h : OrderInv actions meetingOf s) (hok : Orderly actions meetingOf s event)
    (hstep : appStep actions meetingOf notesPath s event = some s') :
    OrderInv actions meetingOf s' := by
  have haside : event.Aside → OrderInv actions meetingOf s' := by
    intro haside
    have hframe := h.track.frame_of_aside haside hok.1 hstep
    exact h.frame (trackInv_step s event s' h.track hstep) hframe.job hframe.await hframe.watches
  cases event with
  | begin i => exact h.begins hok hstep
  | turnedAway i => exact h.turnedAway hstep
  | meetingStarted i => exact h.meetingStarted hstep
  | subscribed i wsOk => exact h.subscribed hstep
  | answered i jobId => exact h.answered hstep
  | refused i kind message => exact h.refused hstep
  | registers i => exact h.registers hstep
  | resumes i => exact h.resumes hstep
  | recordingStarted i => exact h.recordingStarted hok hstep
  | meetingStopped i =>
    obtain ⟨-, rfl⟩ := meetingStopped_cases hstep
    exact h.rests (not_busy_of_ready (Or.inr rfl))
  | refreshed i => exact h.refreshed hok hstep
  | poll n step => exact h.polled hstep
  | handler n => exact h.handled hstep
  | _ => exact haside trivial

end Order

end App
end Panops
