import Panops.Engine.NotesTasks
import Panops.Lib.Broadcast

/-!
# Subscriptions to events

`subscribe_events` answers the client, subscribes to the channel and hands on what it
receives until the client or the connection goes away.  The tasks of the jobs send to
the same channel and wait for no subscriber.
-/

namespace Panops
namespace Engine

open Lib
open Lib.Transitions
open Lib.Broadcast

def eventChannelCapacity : Nat := 256

/-- How far a call of `subscribe_events` is. -/
inductive SubscriptionPhase (ρ : Type) where
  | pending
  /-- The client has its answer, the channel is not subscribed to yet. -/
  | accepted
  | receiving
  | sending (event : JobEvent ρ)
  | over
deriving DecidableEq

structure Subscription (ρ : Type) where
  phase : SubscriptionPhase ρ
  /-- How many events were sent before the call subscribed. -/
  start : Nat
  /-- The position of its receiver. -/
  next : Nat
  /-- What its receiver has given. -/
  received : List (Item (JobEvent ρ))
  /-- What the sink has taken. -/
  delivered : List (JobEvent ρ)
deriving DecidableEq

inductive SubscriptionStep where
  | accept
  | reject
  | subscribe
  | recv
  | send
  | sendFails
  | closed
deriving DecidableEq

variable {ι κ ρ : Type}

def Subscription.pending : Subscription ρ := ⟨.pending, 0, 0, [], []⟩

/-- What is received: an event is written out, one that cannot be is dropped, and who
lags behind goes on. -/
def onReceived (serialises : JobEvent ρ → Bool) : Item (JobEvent ρ) → SubscriptionPhase ρ
  | .value event => if serialises event then .sending event else .receiving
  | .lagged _ => .receiving

def subscriptionStep (serialises : JobEvent ρ → Bool) (log : List (JobEvent ρ))
    (sub : Subscription ρ) (step : SubscriptionStep) : Option (Subscription ρ) :=
  match sub.phase, step with
  | .pending, .accept => some { sub with phase := .accepted }
  | .pending, .reject => some { sub with phase := .over }
  | .accepted, .subscribe =>
    some { sub with phase := .receiving, start := log.length, next := log.length }
  | .receiving, .recv =>
    match recv eventChannelCapacity log sub.next with
    | none => none
    | some (item, next) =>
      some { sub with
        phase := onReceived serialises item
        next := next
        received := sub.received ++ [item] }
  | .receiving, .closed => some { sub with phase := .over }
  | .sending event, .send =>
    some { sub with phase := .receiving, delivered := sub.delivered ++ [event] }
  | .sending _, .sendFails => some { sub with phase := .over }
  | _, _ => none

structure EventServer (ι κ ρ : Type) where
  tasks : NotesTasks ι ρ
  subscription : κ → Subscription ρ

inductive ServerEvent (ι κ ρ : Type) where
  | notes (event : TaskEvent ι ρ)
  | subscription (k : κ) (step : SubscriptionStep)
deriving DecidableEq

def EventServer.start : EventServer ι κ ρ := ⟨NotesTasks.start, fun _ => .pending⟩

variable [DecidableEq ι] [DecidableEq κ]

def serverStep (jobId : ι → String) (dropPanics : ι → Bool) (serialises : JobEvent ρ → Bool)
    (s : EventServer ι κ ρ) : ServerEvent ι κ ρ → Option (EventServer ι κ ρ)
  | .notes event =>
    match notesStep jobId dropPanics s.tasks event with
    | none => none
    | some tasks => some { s with tasks := tasks }
  | .subscription k step =>
    match subscriptionStep serialises s.tasks.log (s.subscription k) step with
    | none => none
    | some sub => some { s with subscription := Function.update s.subscription k sub }

/-! ## One subscription -/

/-- The event that is on its way to the sink. -/
def SubscriptionPhase.holding : SubscriptionPhase ρ → List (JobEvent ρ)
  | .sending event => [event]
  | _ => []

def SubscriptionPhase.Live : SubscriptionPhase ρ → Prop
  | .receiving => True
  | .sending _ => True
  | _ => False

def SubscriptionPhase.Fresh : SubscriptionPhase ρ → Prop
  | .pending => True
  | .accepted => True
  | _ => False

structure SubscriptionInv (serialises : JobEvent ρ → Bool) (log : List (JobEvent ρ))
    (sub : Subscription ρ) : Prop where
  fresh : sub.phase.Fresh → sub.received = [] ∧ sub.delivered = []
  start_le : sub.start ≤ sub.next
  next_le : sub.next ≤ log.length
  accounts : Accounts sub.received (between log sub.start sub.next)
  kept : ∀ n, .lagged n ∈ sub.received → sub.start + eventChannelCapacity < log.length
  delivered : sub.delivered ++ sub.phase.holding <+:
    (sub.received.filterMap Item.toValue).filter serialises
  live : sub.phase.Live → sub.delivered ++ sub.phase.holding =
    (sub.received.filterMap Item.toValue).filter serialises

section One

variable {serialises : JobEvent ρ → Bool} {log : List (JobEvent ρ)} {sub sub' : Subscription ρ}

theorem subscriptionInv_pending : SubscriptionInv serialises log Subscription.pending where
  fresh _ := ⟨rfl, rfl⟩
  start_le := Nat.le_refl 0
  next_le := Nat.zero_le _
  accounts := by
    show Accounts [] (between log 0 0)
    rw [between_self]
    exact .nil
  kept n hn := by cases hn
  delivered := List.nil_prefix
  live h := h.elim

/-- Events that are sent later change nothing of what a subscription has. -/
theorem SubscriptionInv.append (h : SubscriptionInv serialises log sub)
    (more : List (JobEvent ρ)) : SubscriptionInv serialises (log ++ more) sub where
  fresh := h.fresh
  start_le := h.start_le
  next_le := by
    rw [List.length_append]
    exact Nat.le_add_right_of_le h.next_le
  accounts := by
    rw [between_append more h.next_le]
    exact h.accounts
  kept n hn := by
    rw [List.length_append]
    exact Nat.lt_add_right _ (h.kept n hn)
  delivered := h.delivered
  live := h.live

/-- A phase that holds nothing and is not fresh can be ended or gone on with. -/
theorem SubscriptionInv.withPhase (h : SubscriptionInv serialises log sub)
    {phase : SubscriptionPhase ρ} (hholding : phase.holding = [])
    (hfresh : phase.Fresh → sub.phase.Fresh) (hlive : ¬ phase.Live) :
    SubscriptionInv serialises log { sub with phase := phase } where
  fresh hphase := h.fresh (hfresh hphase)
  start_le := h.start_le
  next_le := h.next_le
  accounts := h.accounts
  kept := h.kept
  delivered := by
    show sub.delivered ++ phase.holding <+: _
    rw [hholding, List.append_nil]
    exact (List.prefix_append _ _).trans h.delivered
  live hphase := absurd hphase hlive

/-- What is received is held, or it is passed over. -/
theorem holding_onReceived (item : Item (JobEvent ρ)) :
    (onReceived serialises item).holding = (([item].filterMap Item.toValue).filter serialises) := by
  cases item with
  | lagged n => rfl
  | value event =>
    show (if serialises event then SubscriptionPhase.sending event else .receiving).holding =
      [event].filter serialises
    rw [List.filter_singleton]
    cases serialises event <;> rfl

theorem onReceived_eq (item : Item (JobEvent ρ)) :
    onReceived serialises item = .receiving ∨
      ∃ event, onReceived serialises item = .sending event := by
  cases item with
  | lagged n => exact Or.inl rfl
  | value event =>
    cases hok : serialises event with
    | true => exact Or.inr ⟨event, if_pos hok⟩
    | false => exact Or.inl (if_neg (by simp [hok]))

theorem subscriptionInv_recv (h : SubscriptionInv serialises log sub)
    (hphase : sub.phase = .receiving) {item : Item (JobEvent ρ)} {next : Nat}
    (hrecv : recv eventChannelCapacity log sub.next = some (item, next)) :
    SubscriptionInv serialises log
      { sub with
        phase := onReceived serialises item
        next := next
        received := sub.received ++ [item] } := by
  obtain ⟨hlt, hle, haccounts⟩ := recv_accounts hrecv
  have hlive : sub.delivered = (sub.received.filterMap Item.toValue).filter serialises := by
    have heq := h.live (by rw [hphase]; trivial)
    rw [hphase] at heq
    rw [← heq]
    exact (List.append_nil _).symm
  have hnow : sub.delivered ++ (onReceived serialises item).holding =
      ((sub.received ++ [item]).filterMap Item.toValue).filter serialises := by
    rw [List.filterMap_append, List.filter_append, ← hlive, holding_onReceived]
  have hfresh : ¬ (onReceived serialises item).Fresh := by
    rcases @onReceived_eq _ serialises item with heq | ⟨event, heq⟩ <;> rw [heq] <;> exact id
  refine ⟨fun h => absurd h hfresh, ?_, hle, ?_, ?_, ?_, fun _ => hnow⟩
  · exact Nat.le_of_lt (Nat.lt_of_le_of_lt h.start_le hlt)
  · show Accounts (sub.received ++ [item]) (between log sub.start next)
    rw [← between_trans h.start_le (Nat.le_of_lt hlt) hle]
    exact h.accounts.append haccounts
  · intro n hn
    rcases List.mem_append.mp hn with hold | hnew
    · exact h.kept n hold
    · rw [← List.mem_singleton.mp hnew] at hrecv
      have hbehind := lt_of_recv_lagged hrecv
      have hstart := h.start_le
      show sub.start + eventChannelCapacity < log.length
      omega
  · exact ⟨[], (List.append_nil _).trans hnow⟩

theorem subscriptionInv_step {step : SubscriptionStep} (h : SubscriptionInv serialises log sub)
    (hstep : subscriptionStep serialises log sub step = some sub') :
    SubscriptionInv serialises log sub' := by
  unfold subscriptionStep at hstep
  split at hstep
  case h_1 hphase =>
    cases hstep
    exact h.withPhase rfl (fun _ => by rw [hphase]; trivial) id
  case h_2 hphase =>
    cases hstep
    exact h.withPhase rfl False.elim id
  case h_3 hphase =>
    cases hstep
    obtain ⟨hreceived, hdelivered⟩ := h.fresh (by rw [hphase]; trivial)
    -- nothing has been received, and the receiver starts at the end of the log
    refine ⟨False.elim, Nat.le_refl _, Nat.le_refl _, ?_, ?_, ?_, fun _ => ?_⟩
    · show Accounts sub.received (between log log.length log.length)
      rw [hreceived, between_self]
      exact .nil
    · intro n hn
      rw [show _ = [] from hreceived] at hn
      cases hn
    · show sub.delivered ++ [] <+: _
      rw [hdelivered]
      exact List.nil_prefix
    · show sub.delivered ++ [] = (sub.received.filterMap Item.toValue).filter serialises
      rw [hreceived, hdelivered]
      rfl
  case h_4 hphase =>
    split at hstep
    · cases hstep
    · next item next hrecv =>
      cases hstep
      exact subscriptionInv_recv h hphase hrecv
  case h_5 hphase =>
    cases hstep
    exact h.withPhase rfl False.elim id
  case h_6 event hphase =>
    cases hstep
    have heq := h.live (by rw [hphase]; trivial)
    rw [hphase] at heq
    have hnow : (sub.delivered ++ [event]) ++ [] =
        (sub.received.filterMap Item.toValue).filter serialises := by
      rw [List.append_nil]
      exact heq
    exact ⟨False.elim, h.start_le, h.next_le, h.accounts, h.kept,
      ⟨[], (List.append_nil _).trans hnow⟩, fun _ => hnow⟩
  case h_7 event hphase =>
    cases hstep
    exact h.withPhase rfl False.elim id
  case h_8 => cases hstep

/-- One that is receiving can go on to the end of the log. -/
theorem exists_run_of_receiving (hinv : SubscriptionInv serialises log sub)
    (hphase : sub.phase = .receiving) :
    ∃ steps sub', run (subscriptionStep serialises log) sub steps = some sub' ∧
      sub'.phase = .receiving ∧ sub'.next = log.length := by
  -- on how much is left to receive
  generalize hleft : log.length - sub.next = left
  induction left using Nat.strongRecOn generalizing sub with
  | ind left ih =>
    by_cases hend : sub.next = log.length
    · exact ⟨[], sub, rfl, hphase, hend⟩
    · obtain ⟨item, next, hrecv⟩ := @exists_recv _ eventChannelCapacity _ _
        (Nat.lt_of_le_of_ne hinv.next_le hend)
      obtain ⟨hlt, hle, -⟩ := recv_accounts hrecv
      have hstep : subscriptionStep serialises log sub .recv = some
          { sub with
            phase := onReceived serialises item, next := next,
            received := sub.received ++ [item] } := by
        simp only [subscriptionStep, hphase, hrecv]
      have hinv₁ := subscriptionInv_step hinv hstep
      rcases @onReceived_eq _ serialises item with hitem | ⟨event, hitem⟩
      · rw [hitem] at hstep hinv₁
        obtain ⟨steps, sub', hrun, hend⟩ := ih (log.length - next) (by omega) hinv₁ rfl rfl
        refine ⟨.recv :: steps, sub', ?_, hend⟩
        rw [run, hstep]
        exact hrun
      · rw [hitem] at hstep hinv₁
        obtain ⟨steps, sub', hrun, hend⟩ := ih (log.length - next) (by omega)
          (@subscriptionInv_step _ _ _ _ _ .send hinv₁ rfl) rfl rfl
        refine ⟨.recv :: .send :: steps, sub', ?_, hend⟩
        rw [run, hstep]
        exact hrun

/-- A live one sends what it holds before that. -/
theorem exists_run_of_live (hinv : SubscriptionInv serialises log sub) (hlive : sub.phase.Live) :
    ∃ steps sub', run (subscriptionStep serialises log) sub steps = some sub' ∧
      sub'.phase = .receiving ∧ sub'.next = log.length := by
  cases hphase : sub.phase with
  | receiving => exact exists_run_of_receiving hinv hphase
  | sending event =>
    have hstep : subscriptionStep serialises log sub .send = some
        { sub with phase := .receiving, delivered := sub.delivered ++ [event] } := by
      simp only [subscriptionStep, hphase]
    obtain ⟨steps, sub', hrun, hend⟩ :=
      exists_run_of_receiving (subscriptionInv_step hinv hstep) rfl
    refine ⟨.send :: steps, sub', ?_, hend⟩
    rw [run, hstep]
    exact hrun
  | _ =>
    rw [hphase] at hlive
    exact hlive.elim

end One

/-! ## Runs of the server -/

section Runs

variable {jobId : ι → String} {dropPanics : ι → Bool} {serialises : JobEvent ρ → Bool}

omit [DecidableEq κ] in
theorem exists_log_of_notesStep {s s' : NotesTasks ι ρ} {event : TaskEvent ι ρ}
    (h : notesStep jobId dropPanics s event = some s') : ∃ more, s'.log = s.log ++ more := by
  cases event with
  | closeSemaphore =>
    cases h
    exact ⟨[], (List.append_nil _).symm⟩
  | task i step =>
    obtain ⟨sem, kinds, st, -, rfl⟩ := turn_of_notesStep h
    exact ⟨_, rfl⟩

/-- What a step of the server is. -/
theorem cases_of_serverStep {s s' : EventServer ι κ ρ} {event : ServerEvent ι κ ρ}
    (h : serverStep jobId dropPanics serialises s event = some s') :
    (∃ e tasks, event = .notes e ∧ notesStep jobId dropPanics s.tasks e = some tasks ∧
      s' = { s with tasks := tasks }) ∨
    (∃ k step sub, event = .subscription k step ∧
      subscriptionStep serialises s.tasks.log (s.subscription k) step = some sub ∧
      s' = { s with subscription := Function.update s.subscription k sub }) := by
  cases event with
  | notes e =>
    unfold serverStep at h
    cases hnext : notesStep jobId dropPanics s.tasks e with
    | none => simp [hnext] at h
    | some tasks =>
      simp only [hnext, Option.some.injEq] at h
      exact Or.inl ⟨e, tasks, rfl, hnext, h.symm⟩
  | subscription k step =>
    unfold serverStep at h
    cases hnext : subscriptionStep serialises s.tasks.log (s.subscription k) step with
    | none => simp [hnext] at h
    | some sub =>
      simp only [hnext, Option.some.injEq] at h
      exact Or.inr ⟨k, step, sub, rfl, hnext, h.symm⟩

structure ServerInv (jobId : ι → String) (serialises : JobEvent ρ → Bool)
    (s : EventServer ι κ ρ) : Prop where
  tasks : ∀ i, Emitted (kindsOf (jobId i) s.tasks.log) (s.tasks.stage i)
  subscriptions : ∀ k, SubscriptionInv serialises s.tasks.log (s.subscription k)

omit [DecidableEq ι] [DecidableEq κ] in
theorem serverInv_start : ServerInv jobId serialises (EventServer.start : EventServer ι κ ρ) where
  tasks i := show Emitted (kindsOf (jobId i) []) .idle from rfl
  subscriptions _ := subscriptionInv_pending

theorem serverInv_step (hid : Function.Injective jobId) (hdrop : ∀ i, dropPanics i = false)
    (s : EventServer ι κ ρ) (event : ServerEvent ι κ ρ) (s' : EventServer ι κ ρ)
    (hinv : ServerInv jobId serialises s)
    (h : serverStep jobId dropPanics serialises s event = some s') :
    ServerInv jobId serialises s' := by
  rcases cases_of_serverStep h with ⟨e, tasks, rfl, hnext, rfl⟩ | ⟨k, step, sub, rfl, hnext, rfl⟩
  · refine ⟨emitted_step hid hdrop s.tasks e tasks hinv.tasks hnext, fun k => ?_⟩
    obtain ⟨more, hlog⟩ := exists_log_of_notesStep hnext
    show SubscriptionInv serialises tasks.log (s.subscription k)
    rw [hlog]
    exact (hinv.subscriptions k).append more
  · refine ⟨hinv.tasks, fun k' => ?_⟩
    show SubscriptionInv serialises s.tasks.log (Function.update s.subscription k sub k')
    by_cases hk : k' = k
    · rw [hk, Function.update_self]
      exact subscriptionInv_step (hinv.subscriptions k) hnext
    · rw [Function.update_of_ne hk]
      exact hinv.subscriptions k'

/-- What one subscription does by itself, it does within the server. -/
theorem run_subscription {k : κ} {steps : List SubscriptionStep} {s : EventServer ι κ ρ}
    {sub : Subscription ρ}
    (hrun : run (subscriptionStep serialises s.tasks.log) (s.subscription k) steps = some sub) :
    ∃ s', run (serverStep jobId dropPanics serialises) s
        (steps.map fun step => .subscription k step) = some s' ∧
      s'.tasks = s.tasks ∧ s'.subscription k = sub := by
  induction steps generalizing s with
  | nil =>
    cases hrun
    exact ⟨s, rfl, rfl, rfl⟩
  | cons step steps ih =>
    unfold run at hrun
    cases hnext : subscriptionStep serialises s.tasks.log (s.subscription k) step with
    | none => simp [hnext] at hrun
    | some sub₁ =>
      simp only [hnext] at hrun
      have hself : Function.update s.subscription k sub₁ k = sub₁ := Function.update_self ..
      rw [← hself] at hrun
      obtain ⟨s', hs', htasks, hsub⟩ :=
        @ih { s with subscription := Function.update s.subscription k sub₁ } hrun
      refine ⟨s', ?_, htasks, hsub⟩
      rw [List.map_cons, run]
      simp only [serverStep, hnext]
      exact hs'

omit [DecidableEq κ] in
theorem exists_job_of_notesStep {s s' : NotesTasks ι ρ} {event : TaskEvent ι ρ}
    (hlog : ∀ e ∈ s.log, ∃ i, e.jobId = jobId i)
    (h : notesStep jobId dropPanics s event = some s') : ∀ e ∈ s'.log, ∃ i, e.jobId = jobId i := by
  cases event with
  | closeSemaphore =>
    cases h
    exact hlog
  | task i step =>
    obtain ⟨sem, kinds, st, -, rfl⟩ := turn_of_notesStep h
    intro e he
    rcases List.mem_append.mp he with hold | hnew
    · exact hlog e hold
    · obtain ⟨kind, -, rfl⟩ := List.mem_map.mp hnew
      exact ⟨i, rfl⟩

/-- Only events of jobs are sent. -/
theorem exists_job_of_run {events : List (ServerEvent ι κ ρ)} {s : EventServer ι κ ρ}
    (hrun : run (serverStep jobId dropPanics serialises) EventServer.start events = some s) :
    ∀ e ∈ s.tasks.log, ∃ i, e.jobId = jobId i := by
  refine @run_invariant _ _ _ _ s events
    (fun s => ∀ e ∈ s.tasks.log, ∃ i, e.jobId = jobId i) ?_
    (fun _ he => absurd he List.not_mem_nil) hrun
  intro s event s' hlog h
  rcases cases_of_serverStep h with ⟨e, tasks, rfl, hnext, rfl⟩ | ⟨k, step, sub, rfl, hnext, rfl⟩
  · exact exists_job_of_notesStep hlog hnext
  · exact hlog

/-- Reports of progress, and after all of them at most one other event. -/
def OneEnding (kinds : List (JobEventKind ρ)) : Prop :=
  ∃ progress terminal, kinds = progress ++ terminal ∧ (∀ kind ∈ progress, kind.IsProgress) ∧
    (∀ kind ∈ terminal, ¬ kind.IsProgress) ∧ terminal.length ≤ 1

theorem OneEnding.sublist {kinds some : List (JobEventKind ρ)} (h : OneEnding kinds)
    (hsub : some.Sublist kinds) : OneEnding some := by
  obtain ⟨progress, terminal, rfl, hprogress, hterminal, hone⟩ := h
  obtain ⟨l₁, l₂, rfl, h₁, h₂⟩ := List.sublist_append_iff.mp hsub
  exact ⟨l₁, l₂, rfl, fun kind hk => hprogress kind (h₁.subset hk),
    fun kind hk => hterminal kind (h₂.subset hk), Nat.le_trans h₂.length_le hone⟩

omit [DecidableEq ι] [DecidableEq κ] in
theorem kindsOf_append_log (id : String) (log more : List (JobEvent ρ)) :
    kindsOf id (log ++ more) = kindsOf id log ++ kindsOf id more := by
  rw [kindsOf, List.filter_append, List.map_append]
  rfl

omit [DecidableEq ι] [DecidableEq κ] in
theorem kindsOf_sublist {id : String} {log some : List (JobEvent ρ)} (h : some.Sublist log) :
    (kindsOf id some).Sublist (kindsOf id log) :=
  (h.filter _).map _

/-- No job ends twice in what is sent. -/
theorem oneEnding_of_run (hid : Function.Injective jobId) (hdrop : ∀ i, dropPanics i = false)
    {events : List (ServerEvent ι κ ρ)} {s : EventServer ι κ ρ}
    (hrun : run (serverStep jobId dropPanics serialises) EventServer.start events = some s)
    (id : String) : OneEnding (kindsOf id s.tasks.log) := by
  by_cases hjob : ∃ i, jobId i = id
  · obtain ⟨i, rfl⟩ := hjob
    have hinv : ServerInv jobId serialises s :=
      run_invariant (serverInv_step hid hdrop) serverInv_start hrun
    obtain ⟨progress, terminal, hkinds, hprogress, hterminal, hone, -⟩ := (hinv.tasks i).split
    exact ⟨progress, terminal, hkinds, hprogress, hterminal, hone⟩
  · have hnone : s.tasks.log.filter (fun e => e.jobId = id) = [] := by
      rw [List.filter_eq_nil_iff]
      intro e he heq
      obtain ⟨i, hi⟩ := exists_job_of_run hrun e he
      exact hjob ⟨i, hi.symm.trans (by simpa using heq)⟩
    rw [kindsOf, hnone]
    exact ⟨[], [], rfl, fun _ h => absurd h List.not_mem_nil,
      fun _ h => absurd h List.not_mem_nil, Nat.zero_le 1⟩

/-- What has been delivered comes from the log after the start, in its order. -/
theorem SubscriptionInv.delivered_sublist {log : List (JobEvent ρ)} {sub : Subscription ρ}
    (h : SubscriptionInv serialises log sub) :
    sub.delivered.Sublist (log.drop sub.start) := by
  have htake : (between log sub.start sub.next).Sublist (log.drop sub.start) :=
    (List.take_sublist _ _).drop _
  exact ((List.prefix_append _ _).trans h.delivered).sublist.trans
    (List.filter_sublist.trans (h.accounts.sublist.trans htake))

/-- One that has kept up has delivered what was sent since its start. -/
theorem SubscriptionInv.delivered_eq {log : List (JobEvent ρ)} {sub : Subscription ρ}
    (h : SubscriptionInv serialises log sub) (hphase : sub.phase = .receiving)
    (hnext : sub.next = log.length) (hkeeps : log.length ≤ sub.start + eventChannelCapacity) :
    sub.delivered = (log.drop sub.start).filter serialises := by
  have hlive := h.live (by rw [hphase]; trivial)
  have hlag : ∀ n, .lagged n ∉ sub.received := fun n hn => by
    have := h.kept n hn
    omega
  rw [hphase, h.accounts.eq_of_not_lagged hlag, hnext, between_length] at hlive
  rw [← hlive]
  exact (List.append_nil _).symm

/-- It has seen a job of which nothing was sent before its start as it went. -/
theorem SubscriptionInv.kindsOf_delivered {log : List (JobEvent ρ)} {sub : Subscription ρ}
    (h : SubscriptionInv serialises log sub) (hphase : sub.phase = .receiving)
    (hnext : sub.next = log.length) (hkeeps : log.length ≤ sub.start + eventChannelCapacity)
    (hall : ∀ event ∈ log, serialises event = true) :
    sub.delivered = log.drop sub.start ∧
      ∀ id, kindsOf id (log.take sub.start) = [] →
        kindsOf id sub.delivered = kindsOf id log := by
  have hdelivered : sub.delivered = log.drop sub.start := by
    rw [h.delivered_eq hphase hnext hkeeps, List.filter_eq_self]
    exact fun event he => hall event (List.mem_of_mem_drop he)
  refine ⟨hdelivered, fun id hbefore => ?_⟩
  -- the log is what came before the start and what was delivered
  have hlog := kindsOf_append_log id (log.take sub.start) (log.drop sub.start)
  rw [List.take_append_drop, hbefore, List.nil_append] at hlog
  rw [hdelivered, hlog]

/-- Subscribers in every run of the server.  What reaches one is what was sent since it
subscribed, in order and without repetition, and nothing of it is missing while no more
was sent than the channel keeps; no job ends twice for it.  A live subscriber can always
come to the end of what was sent, by steps of its own, and one that is there and has
kept up has seen each job that began after it subscribed exactly as it went, to its end
when it has finished. -/
theorem subscribe_events {jobId : ι → String} (hid : Function.Injective jobId)
    {dropPanics : ι → Bool} (hdrop : ∀ i, dropPanics i = false)
    {serialises : JobEvent ρ → Bool} {events : List (ServerEvent ι κ ρ)} {s : EventServer ι κ ρ}
    (hrun : run (serverStep jobId dropPanics serialises) EventServer.start events = some s)
    (k : κ) :
    (s.subscription k).delivered.Sublist (s.tasks.log.drop (s.subscription k).start) ∧
    (∀ i, OneEnding (kindsOf (jobId i) (s.subscription k).delivered)) ∧
    Accounts (s.subscription k).received
      (between s.tasks.log (s.subscription k).start (s.subscription k).next) ∧
    (∀ n, .lagged n ∈ (s.subscription k).received →
      (s.subscription k).start + eventChannelCapacity < s.tasks.log.length) ∧
    ((s.subscription k).phase.Live →
      (s.subscription k).delivered ++ (s.subscription k).phase.holding =
          ((s.subscription k).received.filterMap Item.toValue).filter serialises ∧
        ∃ (steps : List SubscriptionStep) (s' : EventServer ι κ ρ),
          run (serverStep jobId dropPanics serialises) s
              (steps.map fun step => .subscription k step) = some s' ∧
            s'.tasks = s.tasks ∧ (s'.subscription k).phase = .receiving ∧
            (s'.subscription k).next = s.tasks.log.length) ∧
    ((s.subscription k).phase = .receiving →
      (s.subscription k).next = s.tasks.log.length →
      s.tasks.log.length ≤ (s.subscription k).start + eventChannelCapacity →
      (∀ event ∈ s.tasks.log, serialises event = true) →
      (s.subscription k).delivered = s.tasks.log.drop (s.subscription k).start ∧
        ∀ i, kindsOf (jobId i) (s.tasks.log.take (s.subscription k).start) = [] →
          kindsOf (jobId i) (s.subscription k).delivered = kindsOf (jobId i) s.tasks.log ∧
          (s.tasks.stage i = .finished →
            Complete (kindsOf (jobId i) (s.subscription k).delivered))) := by
  have hinv : ServerInv jobId serialises s :=
    run_invariant (serverInv_step hid hdrop) serverInv_start hrun
  have hsub := hinv.subscriptions k
  have hsublist := hsub.delivered_sublist
  refine ⟨hsublist, fun i => ?_, hsub.accounts, hsub.kept,
    fun hlive => ⟨hsub.live hlive, ?_⟩, ?_⟩
  · exact (oneEnding_of_run hid hdrop hrun (jobId i)).sublist
      (kindsOf_sublist (hsublist.trans (List.drop_sublist _ _)))
  · obtain ⟨steps, sub, hsteps, hphase, hnext⟩ := exists_run_of_live hsub hlive
    obtain ⟨s', hs', htasks, hsub'⟩ := @run_subscription _ _ _ _ _ jobId dropPanics serialises
      k steps s sub hsteps
    exact ⟨steps, s', hs', htasks, by rw [hsub', hphase], by rw [hsub', hnext]⟩
  · intro hphase hnext hkeeps hall
    obtain ⟨hdelivered, hjobs⟩ := hsub.kindsOf_delivered hphase hnext hkeeps hall
    refine ⟨hdelivered, fun i hbefore => ?_⟩
    have hkinds := hjobs (jobId i) hbefore
    refine ⟨hkinds, fun hfinished => ?_⟩
    have hemitted := hinv.tasks i
    rw [hfinished] at hemitted
    rw [hkinds]
    exact hemitted

end Runs

/-- Two subscribers have their answers before a job is accepted.  One subscribes at once,
the other one only when the job is over, and nothing of the job reaches it. -/
def twoSubscribers : List (ServerEvent (Fin 3) (Fin 2) String) :=
  [.subscription 0 .accept, .subscription 1 .accept, .subscription 0 .subscribe,
    .notes (.task 0 .accept), .notes (.task 0 .join), .notes (.task 0 .grant),
    .notes (.task 0 .spawn), .notes (.task 0 (.progress ⟨"loading", none, none, none⟩)),
    .subscription 0 .recv, .notes (.task 0 (.return (.ok "notes.md"))), .notes (.task 0 .send),
    .notes (.task 0 .drop), .subscription 1 .subscribe, .subscription 0 .send,
    .subscription 0 .recv, .subscription 0 .send]

theorem subscribe_events_twoSubscribers : ∃ s,
    run (serverStep threeIds (fun _ => false) fun _ => true) EventServer.start twoSubscribers =
        some s ∧
      (s.subscription 1).phase = .receiving ∧ (s.subscription 1).delivered = [] ∧
      kindsOf "a" (s.subscription 0).delivered =
        [.progress ⟨"loading", none, none, none⟩, .done "notes.md"] ∧
      Complete (kindsOf "a" (s.subscription 0).delivered) := by
  have hsubs : (run (serverStep threeIds (fun _ => false) fun _ => true) EventServer.start
      twoSubscribers).map (fun s => (((s.subscription 1).phase, (s.subscription 1).delivered),
        (s.subscription 0).phase, (s.subscription 0).start, (s.subscription 0).next)) =
      some ((.receiving, []), .receiving, 0, 2) := by
    decide +kernel
  have htasks : (run (serverStep threeIds (fun _ => false) fun _ => true) EventServer.start
      twoSubscribers).map (fun s => (s.tasks.log, s.tasks.stage 0)) =
      some ([⟨"a", .progress ⟨"loading", none, none, none⟩⟩, ⟨"a", .done "notes.md"⟩],
        .finished) := by
    decide +kernel
  obtain ⟨s, hs, hsub⟩ := Option.map_eq_some_iff.mp hsubs
  rw [hs] at htasks
  simp only [Option.map_some, Option.some.injEq, Prod.mk.injEq] at hsub htasks
  obtain ⟨⟨hphase₁, hdelivered₁⟩, hphase, hstart, hnext⟩ := hsub
  obtain ⟨hlog, hfinished⟩ := htasks
  have hid : ∀ i j, threeIds i = threeIds j → i = j := by decide
  obtain ⟨-, -, -, -, -, hkept⟩ := subscribe_events (fun i j => hid i j) (fun _ => rfl) hs 0
  obtain ⟨-, hjobs⟩ := hkept hphase (by rw [hnext, hlog]; rfl)
    (by rw [hstart, hlog]; decide) (fun _ _ => rfl)
  obtain ⟨hkinds, hcomplete⟩ := hjobs 0 (by rw [hstart]; rfl)
  refine ⟨s, hs, hphase₁, hdelivered₁, ?_, hcomplete hfinished⟩
  show kindsOf (threeIds 0) _ = _
  rw [hkinds, hlog]
  rfl

end Engine
end Panops
