import Panops.App.CaptureController

/-!
# The preview of the capture

At most one stream is left running when nothing is in flight.  That it shows the latest
pick and its crop depends on when the tasks of the controller come back.
-/

namespace Panops
namespace App
namespace Capture

open Lib.Transitions

variable {ι : Type}

/-- The rectangle of a target that is not a whole source. -/
def CaptureTargetDTO.sourceRect : CaptureTargetDTO → Option CGRect
  | .region _ x y w h => some ⟨x.toNat, y.toNat, w.toNat, h.toNat⟩
  | _ => none

/-- The filter of the latest pick, unless it was rejected or torn down. -/
def pickAfter (readable : Bool) (latest : Option SCContentFilter) : Call → Option SCContentFilter
  | .didPick filter => if (captureTarget readable filter).isSome then some filter else none
  | .teardown => none
  | _ => latest

def Event.pickAfter (readable : Bool) (latest : Option SCContentFilter) :
    Event ι → Option SCContentFilter
  | .call _ c => Capture.pickAfter readable latest c
  | .resume _ _ => latest

def latestPick (readable : Bool) (events : List (Event ι)) : Option SCContentFilter :=
  events.foldl (Event.pickAfter readable) none

/-! ## Tasks -/

namespace CaptureTask

/-- The filter and the epoch of a restart that has begun. -/
def attempt : CaptureTask ι → Option (SCContentFilter × Nat)
  | stopping filter epoch _ => some (filter, epoch)
  | starting filter epoch _ => some (filter, epoch)
  | _ => none

/-- The stream that the task stops. -/
def stops : CaptureTask ι → Option ι
  | stopping _ _ old => some old
  | stopCapture stream => stream
  | _ => none

/-- The filter of a restart that has not begun. -/
def restarts : CaptureTask ι → Option SCContentFilter
  | restart filter => some filter
  | _ => none

/-- The stream that the task changes. -/
def updates : CaptureTask ι → Option ι
  | updating stream _ => some stream
  | _ => none

/-- The task has the source rectangle still to read. -/
def rereads (previewEpoch : Nat) : CaptureTask ι → Prop
  | restart _ => True
  | stopping _ epoch _ => epoch = previewEpoch
  | update => True
  | _ => False

end CaptureTask

namespace Preview

/-- Nothing is in flight. -/
def Quiet (s : Preview ι) : Prop := ∀ i, s.task i = .ready ∨ s.task i = .finished

/-- Another task than `i` reads the source rectangle later. -/
def RereadBeside (s : Preview ι) (i : ι) : Prop :=
  ∃ j, j ≠ i ∧ (s.task j).rereads s.controller.previewEpoch

/-- Another task than `i` gives the stream the source rectangle. -/
def UpdatedBeside (s : Preview ι) (i stream : ι) : Prop :=
  ∃ j config, j ≠ i ∧ s.task j = .updating stream config ∧
    config.sourceRect = s.controller.sourceRect

/-- The rectangle of a stream after an update. -/
def rectAfter (s : Preview ι) (stream : ι) (config : SCStreamConfiguration) :
    Except StreamError Unit → Option (Option CGRect)
  | .ok () => some config.sourceRect
  | .error _ => (s.running stream).map (·.config.sourceRect)

/-- The step comes in time: a restart begins while its filter is the picked one, an
update finds no stream that starts with another rectangle, and what an update leaves is
the current rectangle.  Or else another task makes up for it. -/
def Timely (s : Preview ι) : Event ι → Prop
  | .call _ _ => True
  | .resume i outcome =>
    match s.task i with
    | .restart filter =>
      s.controller.currentFilter = some filter ∨
        ∃ j other, j ≠ i ∧ s.task j = .restart other ∧ s.controller.currentFilter = some other
    | .update =>
      s.controller.stream = none → s.RereadBeside i ∨
        ∀ j filter config, s.task j = .starting filter s.controller.previewEpoch config →
          config.sourceRect = s.controller.sourceRect
    | .updating stream config =>
      s.controller.stream = some stream →
        s.rectAfter stream config outcome = some s.controller.sourceRect ∨
        s.RereadBeside i ∨ s.UpdatedBeside i stream
    | _ => True

/-! ## Steps -/

variable [DecidableEq ι]

/-- What a task that goes on can do. -/
inductive Resumed (i : ι) (outcome : Except StreamError Unit) (s : Preview ι) : Preview ι → Prop
  | replaces {filter : SCContentFilter} {old : ι} (htask : s.task i = .restart filter)
      (hstream : s.controller.stream = some old) :
      Resumed i outcome s (s.become i
        ({ s.controller with previewEpoch := s.controller.previewEpoch + 1, stream := none },
          .stopping filter (s.controller.previewEpoch + 1) old))
  | begins {filter : SCContentFilter} (htask : s.task i = .restart filter)
      (hstream : s.controller.stream = none) :
      Resumed i outcome s (s.become i
        ({ s.controller with
            previewEpoch := s.controller.previewEpoch + 1, stream := none, state := .starting },
          .starting filter (s.controller.previewEpoch + 1)
            (makeConfig filter s.controller.sourceRect)))
  | replaced {filter : SCContentFilter} {old : ι}
      (htask : s.task i = .stopping filter s.controller.previewEpoch old) :
      Resumed i outcome s ((s.capture old none).become i
        ({ s.controller with state := .starting },
          .starting filter s.controller.previewEpoch (makeConfig filter s.controller.sourceRect)))
  | superseded {filter : SCContentFilter} {epoch : Nat} {old : ι}
      (htask : s.task i = .stopping filter epoch old) (hepoch : epoch ≠ s.controller.previewEpoch) :
      Resumed i outcome s ((s.capture old none).become i (s.controller, .finished))
  | adopts {filter : SCContentFilter} {config : SCStreamConfiguration}
      (htask : s.task i = .starting filter s.controller.previewEpoch config) :
      Resumed i outcome s ((s.capture i (some ⟨filter, config⟩)).become i
        ({ s.controller with stream := some i, state := .live }, .finished))
  | discards {filter : SCContentFilter} {epoch : Nat} {config : SCStreamConfiguration}
      (htask : s.task i = .starting filter epoch config)
      (hepoch : epoch ≠ s.controller.previewEpoch) :
      Resumed i outcome s ((s.capture i (some ⟨filter, config⟩)).become i
        (s.controller, .stopCapture (some i)))
  | fails {filter : SCContentFilter} {epoch : Nat} {config : SCStreamConfiguration}
      {state : CapturePreviewState} (htask : s.task i = .starting filter epoch config) :
      Resumed i outcome s (s.become i ({ s.controller with state := state }, .finished))
  | idles (htask : s.task i = .stopCapture none) :
      Resumed i outcome s (s.become i (s.controller, .finished))
  | stopped {stream : ι} (htask : s.task i = .stopCapture (some stream)) :
      Resumed i outcome s ((s.capture stream none).become i (s.controller, .finished))
  | updates {filter : SCContentFilter} {stream : ι} (htask : s.task i = .update)
      (hfilter : s.controller.currentFilter = some filter)
      (hstream : s.controller.stream = some stream) :
      Resumed i outcome s (s.become i
        (s.controller, .updating stream (makeConfig filter s.controller.sourceRect)))
  | skips (htask : s.task i = .update)
      (hnone : s.controller.currentFilter = none ∨ s.controller.stream = none) :
      Resumed i outcome s (s.become i (s.controller, .finished))
  | updated {stream : ι} {config : SCStreamConfiguration}
      (htask : s.task i = .updating stream config) (hok : outcome = .ok ()) :
      Resumed i outcome s ((s.capture stream ((s.running stream).map fun r =>
        { r with config := config })).become i (s.controller, .finished))
  | notUpdated {stream : ι} {config : SCStreamConfiguration} {state : CapturePreviewState}
      {error : StreamError} (htask : s.task i = .updating stream config)
      (herror : outcome = .error error) :
      Resumed i outcome s (s.become i ({ s.controller with state := state }, .finished))

theorem resume_cases {s s' : Preview ι} {i : ι} {outcome : Except StreamError Unit}
    (h : s.resume i outcome = some s') : Resumed i outcome s s' := by
  unfold resume at h
  cases htask : s.task i with
  | ready => simp only [htask, reduceCtorEq] at h
  | restart filter =>
    simp only [htask] at h
    cases hstream : s.controller.stream with
    | none =>
      simp only [hstream, Controller.proceed, if_true, Option.some.injEq] at h
      exact h ▸ .begins htask hstream
    | some old =>
      simp only [hstream, Option.some.injEq] at h
      exact h ▸ .replaces htask hstream
  | stopping filter epoch old =>
    simp only [htask, Controller.proceed, Option.some.injEq] at h
    by_cases hepoch : epoch = s.controller.previewEpoch
    · subst hepoch
      rw [if_pos rfl] at h
      exact h ▸ .replaced htask
    · rw [if_neg hepoch] at h
      exact h ▸ .superseded htask hepoch
  | starting filter epoch config =>
    simp only [htask] at h
    by_cases hepoch : epoch = s.controller.previewEpoch
    · subst hepoch
      cases outcome with
      | ok _ =>
        simp only [if_true, Option.some.injEq] at h
        exact h ▸ .adopts htask
      | error error =>
        simp only [if_true, Option.some.injEq] at h
        exact h ▸ .fails htask
    · cases outcome with
      | ok _ =>
        simp only [hepoch, if_false, Option.some.injEq] at h
        exact h ▸ .discards htask hepoch
      | error error =>
        simp only [hepoch, if_false, Option.some.injEq] at h
        exact h ▸ .fails htask
  | stopCapture stream =>
    cases stream with
    | none =>
      simp only [htask, Option.some.injEq] at h
      exact h ▸ .idles htask
    | some k =>
      simp only [htask, Option.some.injEq] at h
      exact h ▸ .stopped htask
  | update =>
    simp only [htask] at h
    cases hfilter : s.controller.currentFilter with
    | none =>
      simp only [hfilter, Option.some.injEq] at h
      exact h ▸ .skips htask (.inl hfilter)
    | some filter =>
      cases hstream : s.controller.stream with
      | none =>
        simp only [hfilter, hstream, Option.some.injEq] at h
        exact h ▸ .skips htask (.inr hstream)
      | some stream =>
        simp only [hfilter, hstream, Option.some.injEq] at h
        exact h ▸ .updates htask hfilter hstream
  | updating stream config =>
    cases outcome with
    | ok _ =>
      simp only [htask, Option.some.injEq] at h
      exact h ▸ .updated htask rfl
    | error error =>
      simp only [htask, Option.some.injEq] at h
      exact h ▸ .notUpdated htask rfl
  | finished => simp only [htask, reduceCtorEq] at h

end Preview

/-- What a call can do. -/
theorem Controller.call_cases (readable : Bool) (c : Controller ι) (call : Call) :
    ((c.call readable call).1.previewEpoch = c.previewEpoch + 1 ∧
      (c.call readable call).1.stream = none ∧
      (c.call readable call).1.currentFilter = none ∧
      (c.call readable call).2 = .stopCapture c.stream) ∨
    ((c.call readable call).1.previewEpoch = c.previewEpoch ∧
      (c.call readable call).1.stream = c.stream ∧
      ((∃ filter, (c.call readable call).1.currentFilter = some filter ∧
          (c.call readable call).2 = .restart filter) ∨
        ((c.call readable call).1.currentFilter = c.currentFilter ∧
          ((c.call readable call).2 = .update ∨
            (c.call readable call).1.sourceRect = c.sourceRect ∧
              (c.call readable call).2 = .finished)))) := by
  have hretry : ∀ result, c.retry = result →
      result.1.previewEpoch = c.previewEpoch ∧ result.1.stream = c.stream ∧
      ((∃ filter, result.1.currentFilter = some filter ∧ result.2 = .restart filter) ∨
        (result.1.currentFilter = c.currentFilter ∧
          (result.2 = .update ∨ result.1.sourceRect = c.sourceRect ∧ result.2 = .finished))) := by
    intro result hresult
    subst hresult
    unfold Controller.retry
    cases hfilter : c.currentFilter with
    | none => exact ⟨rfl, rfl, .inr ⟨hfilter, .inr ⟨rfl, rfl⟩⟩⟩
    | some filter => exact ⟨rfl, rfl, .inl ⟨filter, hfilter, rfl⟩⟩
  cases call with
  | retry => exact .inr (hretry _ rfl)
  | retryIfPermissionDenied =>
    simp only [Controller.call, Controller.retryIfPermissionDenied]
    split
    · exact .inr (hretry _ rfl)
    · exact .inr ⟨rfl, rfl, .inr ⟨rfl, .inr ⟨rfl, rfl⟩⟩⟩
  | teardown => exact .inl ⟨rfl, rfl, rfl, rfl⟩
  | didPick filter =>
    simp only [Controller.call, Controller.didPick]
    cases htarget : captureTarget readable filter with
    | none => exact .inl ⟨rfl, rfl, rfl, rfl⟩
    | some dto =>
      refine .inr ?_
      unfold Controller.shown
      cases dto <;> exact ⟨rfl, rfl, .inl ⟨filter, rfl, rfl⟩⟩
  | applyCrop rect =>
    simp only [Controller.call, Controller.applyCrop]
    split
    · exact .inr ⟨rfl, rfl, .inr ⟨rfl, .inl rfl⟩⟩
    · exact .inr ⟨rfl, rfl, .inr ⟨rfl, .inr ⟨rfl, rfl⟩⟩⟩
  | clearCrop => exact .inr ⟨rfl, rfl, .inr ⟨rfl, .inl rfl⟩⟩
  | didCancelPick => exact .inr ⟨rfl, rfl, .inr ⟨rfl, .inr ⟨rfl, rfl⟩⟩⟩
  | pickerFailed error => exact .inr ⟨rfl, rfl, .inr ⟨rfl, .inr ⟨rfl, rfl⟩⟩⟩

namespace Preview

variable [DecidableEq ι] {s s' : Preview ι} {i : ι}

@[simp] theorem become_controller (next : Controller ι × CaptureTask ι) :
    (s.become i next).controller = next.1 := rfl

@[simp] theorem become_running (next : Controller ι × CaptureTask ι) :
    (s.become i next).running = s.running := rfl

@[simp] theorem become_task_self (next : Controller ι × CaptureTask ι) :
    (s.become i next).task i = next.2 := Function.update_self ..

theorem become_task_of_ne (next : Controller ι × CaptureTask ι) {j : ι} (hj : j ≠ i) :
    (s.become i next).task j = s.task j := Function.update_of_ne hj ..

@[simp] theorem capture_controller (stream : Option Running) :
    (s.capture i stream).controller = s.controller := rfl

@[simp] theorem capture_task (stream : Option Running) : (s.capture i stream).task = s.task := rfl

@[simp] theorem capture_running_self (stream : Option Running) :
    (s.capture i stream).running i = stream := Function.update_self ..

theorem capture_running_of_ne (stream : Option Running) {j : ι} (hj : j ≠ i) :
    (s.capture i stream).running j = s.running j := Function.update_of_ne hj ..

/-! ## At most one stream

Every stream that runs is the controller's, or some task stops it. -/

structure Owned (s : Preview ι) : Prop where
  epochs : ∀ j filter epoch, (s.task j).attempt = some (filter, epoch) →
    epoch ≤ s.controller.previewEpoch
  alone : ∀ j k filter other epoch, (s.task j).attempt = some (filter, epoch) →
    (s.task k).attempt = some (other, epoch) → j = k
  /-- A restart that is not superseded finds no stream in the way. -/
  waits : ∀ j filter, (s.task j).attempt = some (filter, s.controller.previewEpoch) →
    s.controller.stream = none
  adopted : ∀ k, s.controller.stream = some k → s.task k = .finished
  owned : ∀ k, s.running k ≠ none →
    s.controller.stream = some k ∨ ∃ j, (s.task j).stops = some k

namespace Owned

omit [DecidableEq ι] in
theorem initial : Owned (Preview.initial : Preview ι) where
  epochs := fun _ _ _ h => by cases h
  alone := fun _ _ _ _ _ h => by cases h
  waits := fun _ _ h => by cases h
  adopted := fun _ h => by cases h
  owned := fun _ h => absurd rfl h

/-- A step that leaves the epoch and the stream, and begins no restart. -/
theorem keep (h : Owned s) (hopen : s.task i ≠ .finished)
    (hothers : ∀ j, j ≠ i → s'.task j = s.task j)
    (hepoch : s'.controller.previewEpoch = s.controller.previewEpoch)
    (hstream : s'.controller.stream = s.controller.stream)
    (hattempt : ∀ a, (s'.task i).attempt = some a → (s.task i).attempt = some a)
    (hrunning : ∀ k, s'.running k ≠ none → (s'.task i).stops = some k ∨
      s.running k ≠ none ∧ (s.task i).stops ≠ some k) : Owned s' := by
  have hattempts : ∀ j a, (s'.task j).attempt = some a → (s.task j).attempt = some a := by
    intro j a ha
    by_cases hj : j = i
    · subst hj
      exact hattempt a ha
    · rwa [hothers j hj] at ha
  refine ⟨?_, ?_, ?_, ?_, ?_⟩
  · intro j filter epoch hj
    rw [hepoch]
    exact h.epochs j filter epoch (hattempts j _ hj)
  · intro j k filter other epoch hj hk
    exact h.alone j k filter other epoch (hattempts j _ hj) (hattempts k _ hk)
  · intro j filter hj
    rw [hepoch] at hj
    rw [hstream]
    exact h.waits j filter (hattempts j _ hj)
  · intro k hk
    rw [hstream] at hk
    have hfinished := h.adopted k hk
    have hne : k ≠ i := fun hki => hopen (hki ▸ hfinished)
    rw [hothers k hne]
    exact hfinished
  · intro k hk
    rcases hrunning k hk with hstops | ⟨hk, hnot⟩
    · exact .inr ⟨i, hstops⟩
    · rw [hstream]
      refine (h.owned k hk).imp_right fun ⟨j, hj⟩ => ⟨j, ?_⟩
      have hne : j ≠ i := fun hji => hnot (hji ▸ hj)
      rw [hothers j hne]
      exact hj

/-- A step that takes the stream away and begins a new epoch. -/
theorem advance (h : Owned s) (hothers : ∀ j, j ≠ i → s'.task j = s.task j)
    (hnot : (s.task i).stops = none)
    (hepoch : s'.controller.previewEpoch = s.controller.previewEpoch + 1)
    (hstream : s'.controller.stream = none) (hrunning : s'.running = s.running)
    (hstops : ∀ k, s.controller.stream = some k → (s'.task i).stops = some k)
    (hattempt : ∀ filter epoch, (s'.task i).attempt = some (filter, epoch) →
      epoch = s.controller.previewEpoch + 1) : Owned s' := by
  have hold : ∀ j filter epoch, j ≠ i → (s'.task j).attempt = some (filter, epoch) →
      epoch ≤ s.controller.previewEpoch := by
    intro j filter epoch hj ha
    rw [hothers j hj] at ha
    exact h.epochs j filter epoch ha
  refine ⟨?_, ?_, fun _ _ _ => hstream, ?_, ?_⟩
  · intro j filter epoch hj
    rw [hepoch]
    by_cases hji : j = i
    · subst hji
      exact (hattempt filter epoch hj).le
    · have := hold j filter epoch hji hj
      omega
  · intro j k filter other epoch hj hk
    by_cases hji : j = i
    · by_cases hki : k = i
      · exact hji.trans hki.symm
      · subst hji
        have := hattempt filter epoch hj
        have := hold k other epoch hki hk
        omega
    · by_cases hki : k = i
      · subst hki
        have := hattempt other epoch hk
        have := hold j filter epoch hji hj
        omega
      · rw [hothers j hji] at hj
        rw [hothers k hki] at hk
        exact h.alone j k filter other epoch hj hk
  · intro k hk
    rw [hstream] at hk
    cases hk
  · intro k hk
    rw [hrunning] at hk
    refine .inr ?_
    rcases h.owned k hk with hcurrent | ⟨j, hj⟩
    · exact ⟨i, hstops k hcurrent⟩
    · have hne : j ≠ i := by
        intro hji
        rw [hji, hnot] at hj
        cases hj
      exact ⟨j, by rw [hothers j hne]; exact hj⟩

theorem call (h : Owned s) (readable : Bool) (c : Call) (hready : s.task i = .ready) :
    Owned (s.become i (s.controller.call readable c)) := by
  have hothers : ∀ j, j ≠ i → (s.become i (s.controller.call readable c)).task j = s.task j :=
    fun j hj => become_task_of_ne _ hj
  have hnone : (s.task i).stops = none := by rw [hready]; rfl
  rcases s.controller.call_cases readable c with
    ⟨hepoch, hstream, _, htask⟩ | ⟨hepoch, hstream, htask⟩
  · refine h.advance hothers hnone hepoch hstream rfl ?_ ?_
    · intro k hk
      rw [become_task_self, htask]
      exact hk
    · intro filter epoch ha
      rw [become_task_self, htask] at ha
      cases ha
  · have hattempt : (s.controller.call readable c).2.attempt = none := by
      rcases htask with ⟨filter, _, htask⟩ | ⟨_, htask | ⟨_, htask⟩⟩
      · rw [htask]; rfl
      · rw [htask]; rfl
      · rw [htask]; rfl
    refine h.keep (fun heq => ?_) hothers hepoch hstream ?_ ?_
    · rw [hready] at heq
      cases heq
    · intro a ha
      rw [become_task_self, hattempt] at ha
      cases ha
    · intro k hk
      rw [hnone]
      exact .inr ⟨hk, nofun⟩

/-- The stream of a restart that was not superseded is the controller's. -/
theorem adopt (h : Owned s) {filter : SCContentFilter} {config : SCStreamConfiguration}
    (htask : s.task i = .starting filter s.controller.previewEpoch config)
    {state : CapturePreviewState} :
    Owned ((s.capture i (some ⟨filter, config⟩)).become i
      ({ s.controller with stream := some i, state := state }, .finished)) := by
  have hmine : (s.task i).attempt = some (filter, s.controller.previewEpoch) := by rw [htask]; rfl
  have hattempts : ∀ j a, (((s.capture i (some ⟨filter, config⟩)).become i
      ({ s.controller with stream := some i, state := state }, .finished)).task j).attempt =
        some a → j ≠ i ∧ (s.task j).attempt = some a := by
    intro j a ha
    by_cases hj : j = i
    · rw [hj, become_task_self] at ha
      cases ha
    · rw [become_task_of_ne _ hj] at ha
      exact ⟨hj, ha⟩
  refine ⟨?_, ?_, ?_, ?_, ?_⟩
  · intro j filter' epoch hj
    exact h.epochs j filter' epoch (hattempts j _ hj).2
  · intro j k filter' other epoch hj hk
    exact h.alone j k filter' other epoch (hattempts j _ hj).2 (hattempts k _ hk).2
  · intro j filter' hj
    obtain ⟨hne, hj⟩ := hattempts j _ hj
    exact absurd (h.alone j i filter' filter _ hj hmine) hne
  · intro k hk
    obtain rfl : i = k := Option.some.inj hk
    exact become_task_self _
  · intro k hk
    by_cases hki : k = i
    · exact .inl (congrArg some hki.symm)
    · rw [become_running, capture_running_of_ne _ hki] at hk
      rcases h.owned k hk with hcurrent | ⟨j, hj⟩
      · rw [h.waits i filter hmine] at hcurrent
        cases hcurrent
      · refine .inr ⟨j, ?_⟩
        have hne : j ≠ i := by
          intro hji
          rw [hji, htask] at hj
          cases hj
        rw [become_task_of_ne _ hne]
        exact hj

theorem resume (h : Owned s) {outcome : Except StreamError Unit}
    (hresumed : Resumed i outcome s s') : Owned s' := by
  have hopen : ∀ {t}, s.task i = t → t ≠ .finished → s.task i ≠ .finished :=
    fun htask hne heq => hne (htask.symm.trans heq)
  have hgone : ∀ {old k : ι}, (s.capture old none).running k ≠ none →
      k ≠ old ∧ s.running k ≠ none := by
    intro old k hk
    by_cases hko : k = old
    · rw [hko, capture_running_self] at hk
      exact absurd rfl hk
    · rw [capture_running_of_ne _ hko] at hk
      exact ⟨hko, hk⟩
  have hothers : ∀ {s₁ : Preview ι} {next}, s₁.task = s.task →
      ∀ j, j ≠ i → (s₁.become i next).task j = s.task j := by
    intro s₁ next hs₁ j hj
    rw [become_task_of_ne _ hj, hs₁]
  have hfinished : ∀ {s₁ : Preview ι} {c : Controller ι} {t : CaptureTask ι}, t.attempt = none →
      ∀ a, ((s₁.become i (c, t)).task i).attempt = some a → (s.task i).attempt = some a := by
    intro s₁ c t ht a ha
    rw [become_task_self, ht] at ha
    cases ha
  cases hresumed with
  | @replaces filter old htask hstream =>
    refine h.advance (hothers rfl) (by rw [htask]; rfl) rfl rfl rfl ?_ ?_
    · intro k hk
      rw [become_task_self]
      exact hstream.symm.trans hk
    · intro _ _ ha
      rw [become_task_self] at ha
      cases ha
      rfl
  | @begins filter htask hstream =>
    refine h.advance (hothers rfl) (by rw [htask]; rfl) rfl rfl rfl ?_ ?_
    · intro k hk
      rw [hstream] at hk
      cases hk
    · intro _ _ ha
      rw [become_task_self] at ha
      cases ha
      rfl
  | @replaced filter old htask =>
    refine h.keep (hopen htask nofun) (hothers rfl) rfl rfl ?_ ?_
    · intro a ha
      rw [become_task_self] at ha
      rw [htask]
      exact ha
    · intro k hk
      obtain ⟨hne, hk⟩ := hgone hk
      refine .inr ⟨hk, fun hstops => hne ?_⟩
      rw [htask] at hstops
      exact (Option.some.inj hstops).symm
  | @superseded filter epoch old htask hepoch =>
    refine h.keep (hopen htask nofun) (hothers rfl) rfl rfl (hfinished rfl) ?_
    intro k hk
    obtain ⟨hne, hk⟩ := hgone hk
    refine .inr ⟨hk, fun hstops => hne ?_⟩
    rw [htask] at hstops
    exact (Option.some.inj hstops).symm
  | adopts htask => exact h.adopt htask
  | @discards filter epoch config htask hepoch =>
    refine h.keep (hopen htask nofun) (hothers rfl) rfl rfl (hfinished rfl) ?_
    intro k hk
    by_cases hki : k = i
    · left
      rw [become_task_self, hki]
      rfl
    · rw [become_running, capture_running_of_ne _ hki] at hk
      refine .inr ⟨hk, ?_⟩
      rw [htask]
      nofun
  | @fails filter epoch config state htask =>
    refine h.keep (hopen htask nofun) (hothers rfl) rfl rfl (hfinished rfl) ?_
    intro k hk
    rw [htask]
    exact .inr ⟨hk, nofun⟩
  | idles htask =>
    refine h.keep (hopen htask nofun) (hothers rfl) rfl rfl (hfinished rfl) ?_
    intro k hk
    rw [htask]
    exact .inr ⟨hk, nofun⟩
  | @stopped stream htask =>
    refine h.keep (hopen htask nofun) (hothers rfl) rfl rfl (hfinished rfl) ?_
    intro k hk
    obtain ⟨hne, hk⟩ := hgone hk
    refine .inr ⟨hk, fun hstops => hne ?_⟩
    rw [htask] at hstops
    exact (Option.some.inj hstops).symm
  | @updates filter stream htask hfilter hstream =>
    refine h.keep (hopen htask nofun) (hothers rfl) rfl rfl (hfinished rfl) ?_
    intro k hk
    rw [htask]
    exact .inr ⟨hk, nofun⟩
  | skips htask hnone =>
    refine h.keep (hopen htask nofun) (hothers rfl) rfl rfl (hfinished rfl) ?_
    intro k hk
    rw [htask]
    exact .inr ⟨hk, nofun⟩
  | @updated stream config htask hok =>
    refine h.keep (hopen htask nofun) (hothers rfl) rfl rfl (hfinished rfl) ?_
    intro k hk
    rw [htask]
    refine .inr ⟨fun hnone => hk ?_, nofun⟩
    by_cases hks : k = stream
    · rw [← hks, become_running, capture_running_self, hnone]
      rfl
    · rw [become_running, capture_running_of_ne _ hks, hnone]
  | @notUpdated stream config state error htask herror =>
    refine h.keep (hopen htask nofun) (hothers rfl) rfl rfl (hfinished rfl) ?_
    intro k hk
    rw [htask]
    exact .inr ⟨hk, nofun⟩

end Owned

/-! ## The latest pick -/

/-- A restart with the current filter is to begin, or no other filter starts or shows. -/
def PickFollows (s : Preview ι) : Prop :=
  (∃ j filter, s.task j = .restart filter ∧ s.controller.currentFilter = some filter) ∨
  (∀ j filter, (s.task j).attempt = some (filter, s.controller.previewEpoch) →
    s.controller.currentFilter = some filter) ∧
  ∀ k r, s.controller.stream = some k → s.running k = some r →
    s.controller.currentFilter = some r.filter

namespace PickFollows

/-- A step that neither picks nor begins a restart. -/
theorem keep (h : PickFollows s) {t : CaptureTask ι} (htask : s.task i = t)
    (hnot : t.restarts = none) (hothers : ∀ j, j ≠ i → s'.task j = s.task j)
    (hepoch : s'.controller.previewEpoch = s.controller.previewEpoch)
    (hfilter : s'.controller.currentFilter = s.controller.currentFilter)
    (hattempt : ∀ a, (s'.task i).attempt = some a → (s.task i).attempt = some a)
    (hrunning : ∀ k r, s'.controller.stream = some k → s'.running k = some r →
      s.controller.stream = some k ∧ ∃ r', s.running k = some r' ∧ r'.filter = r.filter) :
    PickFollows s' := by
  rcases h with ⟨j, filter, hj, hcurrent⟩ | ⟨hattempts, hshown⟩
  · have hne : j ≠ i := by
      intro hji
      rw [← htask, ← hji, hj] at hnot
      cases hnot
    exact .inl ⟨j, filter, (hothers j hne).trans hj, hfilter.trans hcurrent⟩
  · refine .inr ⟨?_, ?_⟩
    · intro j filter hj
      rw [hepoch] at hj
      rw [hfilter]
      by_cases hji : j = i
      · subst hji
        exact hattempts j filter (hattempt _ hj)
      · rw [hothers j hji] at hj
        exact hattempts j filter hj
    · intro k r hk hr
      obtain ⟨hk, r', hr', heq⟩ := hrunning k r hk hr
      rw [hfilter, ← heq]
      exact hshown k r' hk hr'

/-- A restart begins. -/
theorem begin (howned : Owned s) {filter : SCContentFilter}
    (hothers : ∀ j, j ≠ i → s'.task j = s.task j)
    (htimely : s.controller.currentFilter = some filter ∨
      ∃ j other, j ≠ i ∧ s.task j = .restart other ∧ s.controller.currentFilter = some other)
    (hepoch : s'.controller.previewEpoch = s.controller.previewEpoch + 1)
    (hfilter : s'.controller.currentFilter = s.controller.currentFilter)
    (hstream : s'.controller.stream = none)
    (hattempt : ∀ a, (s'.task i).attempt = some a → a.1 = filter) : PickFollows s' := by
  rcases htimely with hcurrent | ⟨j, other, hne, hj, hcurrent⟩
  · refine .inr ⟨?_, ?_⟩
    · intro j filter' hj
      rw [hfilter, hcurrent]
      by_cases hji : j = i
      · subst hji
        exact congrArg some (hattempt _ hj).symm
      · rw [hothers j hji, hepoch] at hj
        have := howned.epochs j filter' _ hj
        omega
    · intro k r hk
      rw [hstream] at hk
      cases hk
  · exact .inl ⟨j, other, (hothers j hne).trans hj, hfilter.trans hcurrent⟩

theorem call (h : PickFollows s) (howned : Owned s) (readable : Bool) (c : Call)
    (hready : s.task i = .ready) :
    PickFollows (s.become i (s.controller.call readable c)) := by
  have hothers : ∀ j, j ≠ i → (s.become i (s.controller.call readable c)).task j = s.task j :=
    fun j hj => become_task_of_ne _ hj
  rcases s.controller.call_cases readable c with
    ⟨hepoch, hstream, hfilter, htask⟩ | ⟨hepoch, hstream, htask⟩
  · refine .inr ⟨?_, ?_⟩
    · intro j filter hj
      by_cases hji : j = i
      · rw [hji, become_task_self, htask] at hj
        cases hj
      · rw [hothers j hji, become_controller, hepoch] at hj
        have := howned.epochs j filter _ hj
        omega
    · intro k r hk
      rw [become_controller, hstream] at hk
      cases hk
  · rcases htask with ⟨filter, hfilter, htask⟩ | ⟨hfilter, htask⟩
    · exact .inl ⟨i, filter, (become_task_self _).trans htask, hfilter⟩
    · refine h.keep hready rfl hothers hepoch hfilter ?_ fun k r hk hr => ⟨?_, r, hr, rfl⟩
      · intro a ha
        rw [become_task_self] at ha
        rcases htask with htask | ⟨_, htask⟩
        · rw [htask] at ha
          cases ha
        · rw [htask] at ha
          cases ha
      · rw [become_controller, hstream] at hk
        exact hk

theorem resume (h : PickFollows s) (howned : Owned s) {outcome : Except StreamError Unit}
    (htimely : Timely s (.resume i outcome)) (hresumed : Resumed i outcome s s') :
    PickFollows s' := by
  have hothers : ∀ {s₁ : Preview ι} {next}, s₁.task = s.task →
      ∀ j, j ≠ i → (s₁.become i next).task j = s.task j := by
    intro s₁ next hs₁ j hj
    rw [become_task_of_ne _ hj, hs₁]
  have hfinished : ∀ {s₁ : Preview ι} {c : Controller ι} {t : CaptureTask ι}, t.attempt = none →
      ∀ a, ((s₁.become i (c, t)).task i).attempt = some a → (s.task i).attempt = some a := by
    intro s₁ c t ht a ha
    rw [become_task_self, ht] at ha
    cases ha
  have hsame : ∀ k r, s.controller.stream = some k → s.running k = some r →
      s.controller.stream = some k ∧ ∃ r', s.running k = some r' ∧ r'.filter = r.filter :=
    fun k r hk hr => ⟨hk, r, hr, rfl⟩
  have hgone : ∀ old k r, s.controller.stream = some k → (s.capture old none).running k = some r →
      s.controller.stream = some k ∧ ∃ r', s.running k = some r' ∧ r'.filter = r.filter := by
    intro old k r hk hr
    by_cases hko : k = old
    · rw [hko, capture_running_self] at hr
      cases hr
    · rw [capture_running_of_ne _ hko] at hr
      exact ⟨hk, r, hr, rfl⟩
  cases hresumed with
  | @replaces filter old htask hstream =>
    simp only [Timely, htask] at htimely
    refine begin howned (hothers rfl) htimely rfl rfl rfl ?_
    intro a ha
    rw [become_task_self] at ha
    cases ha
    rfl
  | @begins filter htask hstream =>
    simp only [Timely, htask] at htimely
    refine begin howned (hothers rfl) htimely rfl rfl rfl ?_
    intro a ha
    rw [become_task_self] at ha
    cases ha
    rfl
  | @replaced filter old htask =>
    refine h.keep htask rfl (hothers rfl) rfl rfl ?_ (hgone old)
    intro a ha
    rw [become_task_self] at ha
    rw [htask]
    exact ha
  | @superseded filter epoch old htask hepoch =>
    exact h.keep htask rfl (hothers rfl) rfl rfl (hfinished rfl) (hgone old)
  | @adopts filter config htask =>
    have hmine : (s.task i).attempt = some (filter, s.controller.previewEpoch) := by
      rw [htask]
      rfl
    rcases h with ⟨j, other, hj, hcurrent⟩ | ⟨hattempts, hshown⟩
    · have hne : j ≠ i := by
        intro hji
        rw [hji, htask] at hj
        cases hj
      exact .inl ⟨j, other, (become_task_of_ne _ hne).trans hj, hcurrent⟩
    · refine .inr ⟨?_, ?_⟩
      · intro j other hj
        by_cases hji : j = i
        · rw [hji, become_task_self] at hj
          cases hj
        · rw [become_task_of_ne _ hji] at hj
          exact absurd (howned.alone j i other filter _ hj hmine) hji
      · intro k r hk hr
        obtain rfl : i = k := Option.some.inj hk
        rw [become_running, capture_running_self] at hr
        cases hr
        exact hattempts i filter hmine
  | @discards filter epoch config htask hepoch =>
    refine h.keep htask rfl (hothers rfl) rfl rfl (hfinished rfl) ?_
    intro k r hk hr
    have hne : k ≠ i := by
      intro hki
      have hdone := howned.adopted k hk
      rw [hki, htask] at hdone
      cases hdone
    rw [become_running, capture_running_of_ne _ hne] at hr
    exact ⟨hk, r, hr, rfl⟩
  | @fails filter epoch config state htask =>
    exact h.keep htask rfl (hothers rfl) rfl rfl (hfinished rfl) hsame
  | idles htask => exact h.keep htask rfl (hothers rfl) rfl rfl (hfinished rfl) hsame
  | @stopped stream htask =>
    exact h.keep htask rfl (hothers rfl) rfl rfl (hfinished rfl) (hgone stream)
  | @updates filter stream htask hfilter hstream =>
    exact h.keep htask rfl (hothers rfl) rfl rfl (hfinished rfl) hsame
  | skips htask hnone =>
    exact h.keep htask rfl (hothers rfl) rfl rfl (hfinished rfl) hsame
  | @updated stream config htask hok =>
    refine h.keep htask rfl (hothers rfl) rfl rfl (hfinished rfl) ?_
    intro k r hk hr
    refine ⟨hk, ?_⟩
    by_cases hks : k = stream
    · subst hks
      rw [become_running, capture_running_self] at hr
      obtain ⟨r', hr', rfl⟩ := Option.map_eq_some_iff.mp hr
      exact ⟨r', hr', rfl⟩
    · rw [become_running, capture_running_of_ne _ hks] at hr
      exact ⟨r, hr, rfl⟩
  | @notUpdated stream config state error htask herror =>
    exact h.keep htask rfl (hothers rfl) rfl rfl (hfinished rfl) hsame

end PickFollows

/-! ## The crop -/

/-- A task reads the source rectangle later, or what starts and shows has it, or is given
it. -/
def CropFollows (s : Preview ι) : Prop :=
  (∃ j, (s.task j).rereads s.controller.previewEpoch) ∨
  (∀ j filter config, s.task j = .starting filter s.controller.previewEpoch config →
    config.sourceRect = s.controller.sourceRect) ∧
  ∀ k r, s.controller.stream = some k → s.running k = some r →
    r.config.sourceRect = s.controller.sourceRect ∨
    ∃ j config, s.task j = .updating k config ∧ config.sourceRect = s.controller.sourceRect

namespace CropFollows

/-- A step of a task that does not read the rectangle. -/
theorem keep (h : CropFollows s) {t : CaptureTask ι} (htask : s.task i = t)
    (hnot : ¬ t.rereads s.controller.previewEpoch) (hupdates : t.updates = none)
    (hothers : ∀ j, j ≠ i → s'.task j = s.task j)
    (hepoch : s'.controller.previewEpoch = s.controller.previewEpoch)
    (hrect : s'.controller.sourceRect = s.controller.sourceRect)
    (hattempt : (s'.task i).attempt = none)
    (hrunning : ∀ k r, s'.controller.stream = some k → s'.running k = some r →
      s.controller.stream = some k ∧ s.running k = some r) : CropFollows s' := by
  rcases h with ⟨j, hj⟩ | ⟨hstart, hshown⟩
  · have hne : j ≠ i := fun hji => hnot (htask ▸ hji ▸ hj)
    refine .inl ⟨j, ?_⟩
    rw [hothers j hne, hepoch]
    exact hj
  · refine .inr ⟨?_, ?_⟩
    · intro j filter config hj
      rw [hepoch] at hj
      rw [hrect]
      by_cases hji : j = i
      · rw [← hji, hj] at hattempt
        cases hattempt
      · exact hstart j filter config ((hothers j hji).symm.trans hj)
    · intro k r hk hr
      obtain ⟨hk, hr⟩ := hrunning k r hk hr
      rw [hrect]
      refine (hshown k r hk hr).imp_right fun ⟨j, config, hj, hconfig⟩ => ⟨j, config, ?_, hconfig⟩
      have hne : j ≠ i := by
        intro hji
        rw [← htask, ← hji, hj] at hupdates
        cases hupdates
      exact (hothers j hne).trans hj

omit [DecidableEq ι] in
/-- A restart that is not superseded has read the rectangle. -/
theorem start (howned : Owned s') {filter : SCContentFilter} {config : SCStreamConfiguration}
    (htask : s'.task i = .starting filter s'.controller.previewEpoch config)
    (hconfig : config.sourceRect = s'.controller.sourceRect) : CropFollows s' := by
  have hmine : (s'.task i).attempt = some (filter, s'.controller.previewEpoch) := by
    rw [htask]
    rfl
  refine .inr ⟨?_, ?_⟩
  · intro j other config' hj
    have hji : j = i := howned.alone j i other filter _ (by rw [hj]; rfl) hmine
    rw [hji, htask] at hj
    cases hj
    exact hconfig
  · intro k r hk
    rw [howned.waits i filter hmine] at hk
    cases hk

theorem call (h : CropFollows s) (howned : Owned s) (readable : Bool) (c : Call)
    (hready : s.task i = .ready) :
    CropFollows (s.become i (s.controller.call readable c)) := by
  have hothers : ∀ j, j ≠ i → (s.become i (s.controller.call readable c)).task j = s.task j :=
    fun j hj => become_task_of_ne _ hj
  rcases s.controller.call_cases readable c with
    ⟨hepoch, hstream, _, htask⟩ | ⟨hepoch, hstream, htask⟩
  · refine .inr ⟨?_, ?_⟩
    · intro j filter config hj
      by_cases hji : j = i
      · rw [hji, become_task_self, htask] at hj
        cases hj
      · rw [hothers j hji, become_controller, hepoch] at hj
        have := howned.epochs j filter _ (by rw [hj]; rfl)
        omega
    · intro k r hk
      rw [become_controller, hstream] at hk
      cases hk
  · rcases htask with ⟨filter, _, htask⟩ | ⟨_, htask | ⟨hrect, htask⟩⟩
    · refine .inl ⟨i, ?_⟩
      rw [become_task_self, htask]
      trivial
    · refine .inl ⟨i, ?_⟩
      rw [become_task_self, htask]
      trivial
    · refine h.keep hready not_false rfl hothers hepoch hrect ?_ fun k r hk hr => ⟨?_, hr⟩
      · rw [become_task_self, htask]
        rfl
      · rw [become_controller, hstream] at hk
        exact hk

/-- An update of the stream comes back. -/
theorem update (h : CropFollows s) {stream : ι} {config : SCStreamConfiguration}
    {outcome : Except StreamError Unit} (htask : s.task i = .updating stream config)
    (htimely : s.controller.stream = some stream →
      s.rectAfter stream config outcome = some s.controller.sourceRect ∨
      s.RereadBeside i ∨ s.UpdatedBeside i stream)
    (hothers : ∀ j, j ≠ i → s'.task j = s.task j) (hdone : s'.task i = .finished)
    (hepoch : s'.controller.previewEpoch = s.controller.previewEpoch)
    (hrect : s'.controller.sourceRect = s.controller.sourceRect)
    (hstream : s'.controller.stream = s.controller.stream)
    (hrunning : ∀ k, k ≠ stream → s'.running k = s.running k)
    (hafter : ∀ r, s'.running stream = some r →
      s.rectAfter stream config outcome = some r.config.sourceRect) : CropFollows s' := by
  have hread : s.RereadBeside i → CropFollows s' := by
    rintro ⟨j, hne, hj⟩
    refine .inl ⟨j, ?_⟩
    rw [hothers j hne, hepoch]
    exact hj
  rcases h with ⟨j, hj⟩ | ⟨hstart, hshown⟩
  · refine hread ⟨j, ?_, hj⟩
    intro hji
    rw [hji, htask] at hj
    exact hj
  · have hstarting : ∀ j filter config', s'.task j = .starting filter s'.controller.previewEpoch
        config' → config'.sourceRect = s'.controller.sourceRect := by
      intro j filter config' hj
      rw [hepoch] at hj
      rw [hrect]
      by_cases hji : j = i
      · rw [hji, hdone] at hj
        cases hj
      · exact hstart j filter config' ((hothers j hji).symm.trans hj)
    have hother : ∀ k r, k ≠ stream → s'.controller.stream = some k → s'.running k = some r →
        r.config.sourceRect = s'.controller.sourceRect ∨ ∃ j config', s'.task j =
          .updating k config' ∧ config'.sourceRect = s'.controller.sourceRect := by
      intro k r hne hk hr
      rw [hstream] at hk
      rw [hrunning k hne] at hr
      rw [hrect]
      refine (hshown k r hk hr).imp_right fun ⟨j, config', hj, hconfig⟩ => ⟨j, config', ?_, hconfig⟩
      refine (hothers j fun hji => ?_).trans hj
      rw [hji, htask] at hj
      cases hj
      exact hne rfl
    by_cases hmine : s.controller.stream = some stream
    · rcases htimely hmine with hleft | hbeside | ⟨j, config', hne, hj, hconfig⟩
      · refine .inr ⟨hstarting, fun k r hk hr => ?_⟩
        by_cases hks : k = stream
        · subst hks
          rw [hafter r hr] at hleft
          exact .inl ((Option.some.inj hleft).trans hrect.symm)
        · exact hother k r hks hk hr
      · exact hread hbeside
      · refine .inr ⟨hstarting, fun k r hk hr => ?_⟩
        by_cases hks : k = stream
        · subst hks
          exact .inr ⟨j, config', (hothers j hne).trans hj, hconfig.trans hrect.symm⟩
        · exact hother k r hks hk hr
    · refine .inr ⟨hstarting, fun k r hk hr => hother k r ?_ hk hr⟩
      intro hks
      rw [hstream, hks] at hk
      exact hmine hk

/-- The stream that a restart leaves started with the rectangle of its restart. -/
theorem adopt (h : CropFollows s) {filter : SCContentFilter} {config : SCStreamConfiguration}
    (htask : s.task i = .starting filter s.controller.previewEpoch config)
    {state : CapturePreviewState} :
    CropFollows ((s.capture i (some ⟨filter, config⟩)).become i
      ({ s.controller with stream := some i, state := state }, .finished)) := by
  rcases h with ⟨j, hj⟩ | ⟨hstart, _⟩
  · refine .inl ⟨j, ?_⟩
    rw [become_task_of_ne]
    · exact hj
    · intro hji
      rw [hji, htask] at hj
      exact hj
  · refine .inr ⟨?_, ?_⟩
    · intro j other config' hj
      by_cases hji : j = i
      · rw [hji, become_task_self] at hj
        cases hj
      · rw [become_task_of_ne _ hji] at hj
        exact hstart j other config' hj
    · intro k r hk hr
      obtain rfl : i = k := Option.some.inj hk
      rw [become_running, capture_running_self] at hr
      cases hr
      exact .inl (hstart i filter config htask)

/-- An update that finds the stream gives it the rectangle. -/
theorem give (howned : Owned s) {filter : SCContentFilter} {stream : ι}
    (hstream : s.controller.stream = some stream) :
    CropFollows (s.become i
      (s.controller, .updating stream (makeConfig filter s.controller.sourceRect))) := by
  refine .inr ⟨?_, ?_⟩
  · intro j other config' hj
    by_cases hji : j = i
    · rw [hji, become_task_self] at hj
      cases hj
    · -- no restart waits while there is a stream
      rw [become_task_of_ne _ hji] at hj
      have hnone := howned.waits j other (by rw [hj]; rfl)
      rw [hstream] at hnone
      cases hnone
  · intro k r hk hr
    obtain rfl : stream = k := Option.some.inj (hstream.symm.trans hk)
    exact .inr ⟨i, makeConfig filter s.controller.sourceRect, become_task_self _, rfl⟩

/-- An update that finds no stream does nothing. -/
theorem skip (hpick : PickFollows s)
    (htimely : s.controller.stream = none → s.RereadBeside i ∨
      ∀ j filter config, s.task j = .starting filter s.controller.previewEpoch config →
        config.sourceRect = s.controller.sourceRect)
    (hnone : s.controller.currentFilter = none ∨ s.controller.stream = none) :
    CropFollows (s.become i (s.controller, .finished)) := by
  have hothers : ∀ {j t}, (s.become i (s.controller, .finished)).task j = t → t ≠ .finished →
      s.task j = t := by
    intro j t hj ht
    by_cases hji : j = i
    · rw [hji, become_task_self] at hj
      exact absurd hj.symm ht
    · rwa [become_task_of_ne _ hji] at hj
  rcases hnone with hfilter | hstream
  · -- without a filter nothing starts and nothing shows
    rcases hpick with ⟨j, other, _, hcurrent⟩ | ⟨hattempts, hshown⟩
    · rw [hfilter] at hcurrent
      cases hcurrent
    · refine .inr ⟨?_, ?_⟩
      · intro j other config' hj
        have hcurrent := hattempts j other (by rw [hothers hj nofun]; rfl)
        rw [hfilter] at hcurrent
        cases hcurrent
      · intro k r hk hr
        have hcurrent := hshown k r hk hr
        rw [hfilter] at hcurrent
        cases hcurrent
  · rcases htimely hstream with ⟨j, hne, hj⟩ | hstart
    · refine .inl ⟨j, ?_⟩
      rw [become_task_of_ne _ hne]
      exact hj
    · refine .inr ⟨fun j other config' hj => hstart j other config' (hothers hj nofun), ?_⟩
      intro k r hk
      rw [become_controller, hstream] at hk
      cases hk

theorem resume (h : CropFollows s) (howned : Owned s) (howned' : Owned s') (hpick : PickFollows s)
    {outcome : Except StreamError Unit} (htimely : Timely s (.resume i outcome))
    (hresumed : Resumed i outcome s s') : CropFollows s' := by
  have hothers : ∀ {s₁ : Preview ι} {next}, s₁.task = s.task →
      ∀ j, j ≠ i → (s₁.become i next).task j = s.task j := by
    intro s₁ next hs₁ j hj
    rw [become_task_of_ne _ hj, hs₁]
  have hdone : ∀ {s₁ : Preview ι} {c : Controller ι} {t : CaptureTask ι}, t.attempt = none →
      ((s₁.become i (c, t)).task i).attempt = none := by
    intro s₁ c t ht
    rw [become_task_self]
    exact ht
  have hsame : ∀ k r, s.controller.stream = some k → s.running k = some r →
      s.controller.stream = some k ∧ s.running k = some r := fun k r hk hr => ⟨hk, hr⟩
  have hgone : ∀ old k r, s.controller.stream = some k → (s.capture old none).running k = some r →
      s.controller.stream = some k ∧ s.running k = some r := by
    intro old k r hk hr
    by_cases hko : k = old
    · rw [hko, capture_running_self] at hr
      cases hr
    · rw [capture_running_of_ne _ hko] at hr
      exact ⟨hk, hr⟩
  cases hresumed with
  | @replaces filter old htask hstream =>
    refine .inl ⟨i, ?_⟩
    rw [become_task_self]
    rfl
  | @begins filter htask hstream => exact start howned' (become_task_self _) rfl
  | @replaced filter old htask => exact start howned' (become_task_self _) rfl
  | @superseded filter epoch old htask hepoch =>
    exact h.keep htask hepoch rfl (hothers rfl) rfl rfl (hdone rfl) (hgone old)
  | @adopts filter config htask =>
    exact h.adopt htask
  | @discards filter epoch config htask hepoch =>
    refine h.keep htask not_false rfl (hothers rfl) rfl rfl (hdone rfl) ?_
    intro k r hk hr
    have hne : k ≠ i := by
      intro hki
      have hdone := howned.adopted k hk
      rw [hki, htask] at hdone
      cases hdone
    rw [become_running, capture_running_of_ne _ hne] at hr
    exact ⟨hk, hr⟩
  | @fails filter epoch config state htask =>
    exact h.keep htask not_false rfl (hothers rfl) rfl rfl (hdone rfl) hsame
  | idles htask =>
    exact h.keep htask not_false rfl (hothers rfl) rfl rfl (hdone rfl) hsame
  | @stopped stream htask =>
    exact h.keep htask not_false rfl (hothers rfl) rfl rfl (hdone rfl) (hgone stream)
  | @updates filter stream htask hfilter hstream =>
    exact give howned hstream
  | skips htask hnone =>
    simp only [Timely, htask] at htimely
    exact skip hpick htimely hnone
  | @updated stream config htask hok =>
    simp only [Timely, htask] at htimely
    refine h.update htask htimely (hothers rfl) (become_task_self _) rfl rfl rfl ?_ ?_
    · intro k hks
      exact capture_running_of_ne _ hks
    · intro r hr
      rw [become_running, capture_running_self] at hr
      obtain ⟨r', _, rfl⟩ := Option.map_eq_some_iff.mp hr
      rw [hok]
      rfl
  | @notUpdated stream config state error htask herror =>
    simp only [Timely, htask] at htimely
    refine h.update htask htimely (hothers rfl) (become_task_self _) rfl rfl rfl
      (fun _ _ => rfl) ?_
    intro r hr
    rw [become_running] at hr
    rw [herror, rectAfter, hr]
    rfl

end CropFollows

/-! ## The selection -/

/-- A task changes nothing of the selection. -/
theorem resumed_controller {outcome : Except StreamError Unit} (h : Resumed i outcome s s') :
    ∃ state previewEpoch stream, s'.controller =
      { s.controller with state := state, previewEpoch := previewEpoch, stream := stream } := by
  cases h <;> exact ⟨_, _, _, rfl⟩

end Preview

/-- There is a target for a filter, and the source rectangle is the target's. -/
structure Controller.Selected (c : Controller ι) : Prop where
  target : c.currentFilter.isSome → c.target.isSome
  rect : c.sourceRect = c.target.bind CaptureTargetDTO.sourceRect

theorem sourceRect_captureTarget {readable : Bool} {filter : SCContentFilter}
    {dto : CaptureTargetDTO} (h : captureTarget readable filter = some dto) :
    dto.sourceRect = none := by
  unfold captureTarget at h
  split at h
  · split at h
    · obtain ⟨_, _, rfl⟩ := Option.map_eq_some_iff.mp h
      rfl
    · obtain ⟨_, _, rfl⟩ := Option.map_eq_some_iff.mp h
      rfl
    · obtain ⟨_, _, rfl⟩ := Option.map_eq_some_iff.mp h
      rfl
    · cases h
  · cases h

theorem Controller.selected_call {c : Controller ι} (h : c.Selected) (readable : Bool)
    (call : Call) : (c.call readable call).1.Selected := by
  have hretry : c.retry.1.Selected := by
    unfold Controller.retry
    split <;> exact h
  cases call with
  | retry => exact hretry
  | retryIfPermissionDenied =>
    simp only [Controller.call, Controller.retryIfPermissionDenied]
    split
    · exact hretry
    · exact h
  | teardown => exact ⟨nofun, rfl⟩
  | didPick filter =>
    simp only [Controller.call, Controller.didPick]
    cases htarget : captureTarget readable filter with
    | none => exact ⟨nofun, rfl⟩
    | some dto =>
      have hrect := sourceRect_captureTarget htarget
      unfold Controller.shown
      cases dto <;> exact ⟨fun _ => rfl, hrect.symm⟩
  | applyCrop rect =>
    simp only [Controller.call, Controller.applyCrop]
    split
    · exact ⟨fun _ => rfl, rfl⟩
    · exact h
  | clearCrop => exact ⟨fun _ => rfl, rfl⟩
  | didCancelPick => exact h
  | pickerFailed error => exact ⟨h.target, h.rect⟩

/-- The current filter follows the picks. -/
theorem Controller.currentFilter_call (c : Controller ι) (readable : Bool) (call : Call) :
    (c.call readable call).1.currentFilter = pickAfter readable c.currentFilter call := by
  have hretry : c.retry.1.currentFilter = c.currentFilter := by
    unfold Controller.retry
    split <;> rfl
  cases call with
  | retry => exact hretry
  | retryIfPermissionDenied =>
    simp only [Controller.call, Controller.retryIfPermissionDenied]
    split
    · exact hretry
    · rfl
  | teardown => rfl
  | didPick filter =>
    simp only [Controller.call, Controller.didPick, pickAfter]
    cases htarget : captureTarget readable filter with
    | none => rfl
    | some dto =>
      unfold Controller.shown
      cases dto <;> rfl
  | applyCrop rect =>
    simp only [Controller.call, Controller.applyCrop]
    split <;> rfl
  | clearCrop => rfl
  | didCancelPick => rfl
  | pickerFailed error => rfl

/-! ## Runs -/

variable [DecidableEq ι]

theorem step_cases {readable : Bool} {s s' : Preview ι} {e : Event ι}
    (h : step readable s e = some s') :
    (∃ i c, e = .call i c ∧ s.task i = .ready ∧
      s' = s.become i (s.controller.call readable c)) ∨
    ∃ i outcome, e = .resume i outcome ∧ Preview.Resumed i outcome s s' := by
  cases e with
  | call i c =>
    simp only [step] at h
    split at h
    case h_1 hready =>
      cases h
      exact .inl ⟨i, c, rfl, hready, rfl⟩
    case h_2 => cases h
  | resume i outcome => exact .inr ⟨i, outcome, rfl, Preview.resume_cases h⟩

/-- What holds in every state, whenever the tasks come back. -/
structure Preview.Sound (s : Preview ι) : Prop where
  owned : s.Owned
  selected : s.controller.Selected

theorem Preview.Sound.step {readable : Bool} {s s' : Preview ι} {e : Event ι} (h : s.Sound)
    (hstep : step readable s e = some s') : s'.Sound := by
  rcases step_cases hstep with ⟨i, c, rfl, hready, rfl⟩ | ⟨i, outcome, rfl, hresumed⟩
  · exact ⟨h.owned.call readable c hready, Controller.selected_call h.selected readable c⟩
  · refine ⟨h.owned.resume hresumed, ?_⟩
    obtain ⟨state, previewEpoch, stream, hcontroller⟩ := Preview.resumed_controller hresumed
    rw [hcontroller]
    exact ⟨h.selected.target, h.selected.rect⟩

omit [DecidableEq ι] in
theorem Preview.Sound.initial : (Preview.initial : Preview ι).Sound :=
  ⟨Owned.initial, ⟨nofun, rfl⟩⟩

theorem currentFilter_step {readable : Bool} {s s' : Preview ι} {e : Event ι}
    (h : step readable s e = some s') :
    s'.controller.currentFilter = e.pickAfter readable s.controller.currentFilter := by
  rcases step_cases h with ⟨i, c, rfl, _, rfl⟩ | ⟨i, outcome, rfl, hresumed⟩
  · exact Controller.currentFilter_call s.controller readable c
  · obtain ⟨state, previewEpoch, stream, hcontroller⟩ := Preview.resumed_controller hresumed
    rw [hcontroller]
    rfl

theorem currentFilter_run {readable : Bool} {s s' : Preview ι} {events : List (Event ι)}
    (h : run (step readable) s events = some s') :
    s'.controller.currentFilter =
      events.foldl (Event.pickAfter readable) s.controller.currentFilter := by
  induction events generalizing s with
  | nil =>
    cases h
    rfl
  | cons e events ih =>
    unfold run at h
    cases hnext : step readable s e with
    | none => simp [hnext] at h
    | some s₁ =>
      simp only [hnext] at h
      rw [ih h, currentFilter_step hnext]
      rfl

namespace Preview

/-- What holds as long as the steps come in time. -/
structure Follows (s : Preview ι) : Prop where
  sound : s.Sound
  pick : s.PickFollows
  crop : s.CropFollows

omit [DecidableEq ι] in
theorem Follows.initial : (Preview.initial : Preview ι).Follows where
  sound := Sound.initial
  pick := by
    refine .inr ⟨?_, ?_⟩
    · intro _ _ h
      cases h
    · intro _ _ h
      cases h
  crop := by
    refine .inr ⟨?_, ?_⟩
    · intro _ _ _ h
      cases h
    · intro _ _ h
      cases h

theorem Follows.step {readable : Bool} {s s' : Preview ι} {e : Event ι} (h : s.Follows)
    (htimely : Timely s e) (hstep : step readable s e = some s') : s'.Follows := by
  have hsound := h.sound.step hstep
  rcases step_cases hstep with ⟨i, c, rfl, hready, rfl⟩ | ⟨i, outcome, rfl, hresumed⟩
  · exact ⟨hsound, h.pick.call h.sound.owned readable c hready,
      h.crop.call h.sound.owned readable c hready⟩
  · exact ⟨hsound, h.pick.resume h.sound.owned htimely hresumed,
      h.crop.resume h.sound.owned hsound.owned h.pick htimely hresumed⟩

omit [DecidableEq ι] in
/-- When nothing is in flight only the controller's stream runs. -/
theorem Owned.stream_of_quiet {s : Preview ι} (h : s.Owned) (hquiet : s.Quiet) {k : ι}
    (hk : s.running k ≠ none) : s.controller.stream = some k := by
  rcases h.owned k hk with hstream | ⟨j, hj⟩
  · exact hstream
  · rcases hquiet j with hready | hfinished
    · rw [hready] at hj
      cases hj
    · rw [hfinished] at hj
      cases hj

omit [DecidableEq ι] in
theorem Follows.shown {s : Preview ι} (h : s.Follows) (hquiet : s.Quiet) {k : ι} {r : Running}
    (hr : s.running k = some r) :
    s.controller.currentFilter = some r.filter ∧
      ∃ target, s.controller.target = some target ∧ r.config.sourceRect = target.sourceRect := by
  have hstream := h.sound.owned.stream_of_quiet hquiet (k := k) (by rw [hr]; nofun)
  have hfilter : s.controller.currentFilter = some r.filter := by
    rcases h.pick with ⟨j, filter, hj, _⟩ | ⟨_, hshown⟩
    · rcases hquiet j with hready | hfinished
      · rw [hready] at hj
        cases hj
      · rw [hfinished] at hj
        cases hj
    · exact hshown k r hstream hr
  have hrect : r.config.sourceRect = s.controller.sourceRect := by
    rcases h.crop with ⟨j, hj⟩ | ⟨_, hshown⟩
    · rcases hquiet j with hready | hfinished
      · rw [hready] at hj
        exact hj.elim
      · rw [hfinished] at hj
        exact hj.elim
    · rcases hshown k r hstream hr with hrect | ⟨j, config, hj, _⟩
      · exact hrect
      · rcases hquiet j with hready | hfinished
        · rw [hready] at hj
          cases hj
        · rw [hfinished] at hj
          cases hj
  obtain ⟨target, htarget⟩ := Option.isSome_iff_exists.mp
    (h.sound.selected.target (by rw [hfilter]; rfl))
  refine ⟨hfilter, target, htarget, ?_⟩
  rw [hrect, h.sound.selected.rect, htarget]
  rfl

end Preview

/-- What runs shows the latest pick, as far as its target says. -/
def ShowsPick (readable : Bool) (events : List (Event ι)) (s : Preview ι) : Prop :=
  (∀ i j, s.running i ≠ none → s.running j ≠ none → i = j) ∧
  (∀ i r, s.running i = some r → latestPick readable events = some r.filter ∧
    ∃ target, s.controller.target = some target ∧ r.config.sourceRect = target.sourceRect) ∧
  (latestPick readable events = none → ∀ i, s.running i = none)

omit [DecidableEq ι] in
theorem one_stream_of_quiet {s : Preview ι} (h : s.Owned) (hquiet : s.Quiet) {i j : ι}
    (hi : s.running i ≠ none) (hj : s.running j ≠ none) : i = j :=
  Option.some.inj ((h.stream_of_quiet hquiet hi).symm.trans (h.stream_of_quiet hquiet hj))

/-- Whenever the tasks come back, at most one stream is left running. -/
theorem one_stream {readable : Bool} {s : Preview ι} {events : List (Event ι)}
    (hrun : run (step readable) Preview.initial events = some s) (hquiet : s.Quiet) {i j : ι}
    (hi : s.running i ≠ none) (hj : s.running j ≠ none) : i = j :=
  have hsound : s.Sound :=
    run_invariant (fun _ _ _ h hstep => h.step hstep) Preview.Sound.initial hrun
  one_stream_of_quiet hsound.owned hquiet hi hj

/-- If every task comes back in time, the preview shows the latest pick and its crop
whenever nothing is in flight. -/
theorem preview_shows_pick {readable : Bool} {s : Preview ι} {events : List (Event ι)}
    (hrun : run (step readable) Preview.initial events = some s)
    (htimely : Meets (step readable) Preview.Timely Preview.initial events)
    (hquiet : s.Quiet) : ShowsPick readable events s := by
  have hfollows : s.Follows :=
    run_invariant_of_meets (fun _ _ _ h ht hstep => h.step ht hstep) Preview.Follows.initial
      htimely hrun
  have hfilter : s.controller.currentFilter = latestPick readable events := currentFilter_run hrun
  refine ⟨fun i j hi hj => one_stream_of_quiet hfollows.sound.owned hquiet hi hj, ?_, ?_⟩
  · intro i r hr
    obtain ⟨hcurrent, htarget⟩ := hfollows.shown hquiet hr
    exact ⟨hfilter.symm.trans hcurrent, htarget⟩
  · intro hnone i
    cases hr : s.running i with
    | none => rfl
    | some r =>
      have hcurrent := (hfollows.shown hquiet hr).1
      rw [hfilter, hnone] at hcurrent
      cases hcurrent

/-! ## Tasks that come back late -/

/-- A display of 100 by 100 points. -/
def oneDisplay : SCContentFilter := ⟨.display, [], [], [1], 100, 100, 1⟩

def oneCrop : CaptureRect := ⟨10, 10, 50, 50⟩

def lostStream : StreamError := ⟨true, 0, "The stream is gone."⟩

theorem quiet_of_two {s : Preview (Fin 2)} (h : (s.task 0, s.task 1) = (.finished, .finished)) :
    s.Quiet :=
  Fin.forall_fin_two.mpr ⟨.inr (congrArg Prod.fst h), .inr (congrArg Prod.snd h)⟩

/-- A crop of a display that shows. -/
def croppedInTime : List (Event (Fin 2)) :=
  [.call 0 (.didPick oneDisplay), .resume 0 (.ok ()), .resume 0 (.ok ()),
    .call 1 (.applyCrop oneCrop), .resume 1 (.ok ()), .resume 1 (.ok ())]

theorem preview_shows_crop : ∃ s, run (step true) Preview.initial croppedInTime = some s ∧
    (s.running 0).isSome ∧ ShowsPick true croppedInTime s := by
  refine ⟨_, rfl, rfl, preview_shows_pick rfl ?_ (quiet_of_two rfl)⟩
  refine .cons trivial rfl (.cons (Or.inl rfl) rfl (.cons trivial rfl (.cons trivial rfl ?_)))
  exact .cons (fun h => nomatch h) rfl (.cons (fun _ => Or.inl rfl) rfl trivial)

/-- The restart of a pick begins after the sheet was torn down. -/
def resurrected : List (Event (Fin 2)) :=
  [.call 0 (.didPick oneDisplay), .call 1 .teardown, .resume 1 (.ok ()), .resume 0 (.ok ()),
    .resume 0 (.ok ())]

/-- The crop comes while the stream starts without one. -/
def croppedAtStart : List (Event (Fin 2)) :=
  [.call 0 (.didPick oneDisplay), .resume 0 (.ok ()), .call 1 (.applyCrop oneCrop),
    .resume 1 (.ok ()), .resume 0 (.ok ())]

/-- The update for the crop fails, and the stream goes on without it. -/
def cropFailed : List (Event (Fin 2)) :=
  [.call 0 (.didPick oneDisplay), .resume 0 (.ok ()), .resume 0 (.ok ()),
    .call 1 (.applyCrop oneCrop), .resume 1 (.ok ()), .resume 1 (.error lostStream)]

/-- A stream runs after the teardown, and a stream runs without the crop of its target. -/
theorem not_preview_shows_pick :
    (∃ s, run (step true) Preview.initial resurrected = some s ∧ s.Quiet ∧
      ¬ ShowsPick true resurrected s) ∧
    (∃ s, run (step true) Preview.initial croppedAtStart = some s ∧ s.Quiet ∧
      ¬ ShowsPick true croppedAtStart s) ∧
    ∃ s, run (step true) Preview.initial cropFailed = some s ∧ s.Quiet ∧
      ¬ ShowsPick true cropFailed s := by
  refine ⟨⟨_, rfl, quiet_of_two rfl, fun h => ?_⟩, ⟨_, rfl, quiet_of_two rfl, fun h => ?_⟩,
    ⟨_, rfl, quiet_of_two rfl, fun h => ?_⟩⟩
  · cases h.2.2 rfl 0
  · obtain ⟨target, htarget, hrect⟩ := (h.2.1 0 _ rfl).2
    cases htarget
    cases hrect
  · obtain ⟨target, htarget, hrect⟩ := (h.2.1 0 _ rfl).2
    cases htarget
    cases hrect

end Capture
end App
end Panops
