import Panops.App.EventDecoding
import Panops.App.EventStream
import Panops.Engine.Events

/-!
# From the task of a job to its callback

What the engine sends to a subscriber reaches the app as notifications.  The app decodes
them one after the other, until one cannot be decoded, and routes the events while its
callbacks are registered.
-/

namespace Panops
namespace App

open Engine (JobEvent JobEventKind JobEventKind.IsProgress kindsOf EventServer ServerEvent
  serverStep OneEnding eventChannelCapacity)
open EventStream
open Lib.Codable Lib.Serde Lib.Transitions
open Protocol (Event NotesGenerateResult writeEvent)

/-! ## On the wire -/

/-- The `Event` that is sent to `events_tx`. -/
def toEvent (e : JobEvent NotesGenerateResult) : Event :=
  match e.kind with
  | .progress report =>
    .jobProgress ⟨e.jobId, report.stage, report.current.map UInt32.ofNat,
      report.total.map UInt32.ofNat, report.message⟩
  | .done result => .jobDone ⟨e.jobId, result⟩
  | .error error => .jobError ⟨e.jobId, error⟩

/-- `NotificationParams`; the `subscription` is not read. -/
def decodeNotificationParams (v : Value) : Option IpcEvent := do
  let c ← container v
  decode decodeIpcEvent c "result"

/-- `JsonRpcNotification`, of which only the event is used. -/
def decodeNotification (v : Value) : Option IpcEvent := do
  let c ← container v
  let _ ← decode Value.asStr c "jsonrpc"
  let _ ← decode Value.asStr c "method"
  decode decodeNotificationParams c "params"

/-- The stream of `subscribeEvents` ends with the first notification that cannot be decoded. -/
def eventsOf : List Value → List IpcEvent
  | [] => []
  | v :: vs =>
    match decodeNotification v with
    | none => []
    | some event => event :: eventsOf vs

/-- The sink wraps what it is given in a notification of its subscription. -/
def Notifies (notify : Value → Value) : Prop :=
  ∀ result, ∃ version method subscription, notify result =
    .object [("jsonrpc", .string version), ("method", .string method),
      ("params", .object [("subscription", subscription), ("result", result)])]

/-- What the app is told of the event. -/
def told (e : JobEvent NotesGenerateResult) : IpcEvent :=
  match e.kind with
  | .progress report =>
    .jobProgress (progressEvent ⟨e.jobId, report.stage, report.current.map UInt32.ofNat,
      report.total.map UInt32.ofNat, report.message⟩)
  | .done result => .jobDone e.jobId (doneResult result)
  | .error error => .jobError e.jobId { kind := kindOf error, message := messageOf error }

theorem decode_toEvent (e : JobEvent NotesGenerateResult) :
    decodeIpcEvent (writeEvent (toEvent e)) = some (told e) := by
  obtain ⟨jobId, kind⟩ := e
  cases kind with
  | progress report => exact decode_jobProgress _
  | done result => exact decode_jobDone _
  | error error => exact decode_jobError _

theorem decodeNotification_notify {notify : Value → Value} (hnotify : Notifies notify)
    (result : Value) : decodeNotification (notify result) = decodeIpcEvent result := by
  obtain ⟨version, method, subscription, hresult⟩ := hnotify result
  have hparams : decodeNotificationParams
      (.object [("subscription", subscription), ("result", result)]) = decodeIpcEvent result := by
    simp [decodeNotificationParams, container, Value.asObject, decode_cons_self,
      decode_cons_of_ne]
  rw [hresult, decodeNotification]
  simp [container, Value.asObject, decode_cons_self, decode_cons_of_ne, asStr_string, hparams]

/-- What the engine sends never ends the stream. -/
theorem eventsOf_notify {notify : Value → Value} (hnotify : Notifies notify)
    (sent : List (JobEvent NotesGenerateResult)) :
    eventsOf (sent.map fun e => notify (writeEvent (toEvent e))) = sent.map told := by
  induction sent with
  | nil => rfl
  | cons e sent ih =>
    have hdecode := (decodeNotification_notify hnotify _).trans (decode_toEvent e)
    rw [List.map_cons, eventsOf, hdecode, List.map_cons, ← ih]

/-! ## Ends of jobs -/

/-- The event is the end of its job. -/
def ends {ρ : Type} : JobEventKind ρ → Bool
  | .progress _ => false
  | _ => true

theorem ends_of_isProgress {ρ : Type} {kind : JobEventKind ρ} (h : kind.IsProgress) :
    ends kind = false := by
  cases kind with
  | progress => rfl
  | done | error => exact h.elim

theorem terminalId_told (e : JobEvent NotesGenerateResult) :
    (told e).terminalId = if ends e.kind then some e.jobId else none := by
  obtain ⟨jobId, kind⟩ := e
  cases kind with
  | progress | done | error => rfl

theorem countP_ends_le {ρ : Type} {kinds : List (JobEventKind ρ)} (h : OneEnding kinds) :
    kinds.countP ends ≤ 1 := by
  obtain ⟨progress, terminal, rfl, hprogress, -, hone⟩ := h
  have hzero : progress.countP ends = 0 := by
    rw [List.countP_eq_zero]
    intro kind hkind
    rw [ends_of_isProgress (hprogress kind hkind)]
    exact Bool.false_ne_true
  rw [List.countP_append, hzero, Nat.zero_add]
  exact Nat.le_trans List.countP_le_length hone

/-- The ends of a job among the events are those among its own. -/
theorem count_terminalId (id : String) (sent : List (JobEvent NotesGenerateResult)) :
    ((sent.map told).filterMap IpcEvent.terminalId).count id = (kindsOf id sent).countP ends := by
  induction sent with
  | nil => rfl
  | cons e sent ih =>
    rw [List.map_cons, List.filterMap_cons, terminalId_told]
    by_cases hid : e.jobId = id
    · have hkinds : kindsOf id (e :: sent) = e.kind :: kindsOf id sent := by simp [kindsOf, hid]
      rw [hkinds, List.countP_cons, ← ih]
      cases ends e.kind with
      | true => simp [hid]
      | false => simp
    · have hkinds : kindsOf id (e :: sent) = kindsOf id sent := by simp [kindsOf, hid]
      rw [hkinds, ← ih]
      cases ends e.kind with
      | true => simp [hid]
      | false => rfl

theorem nodup_terminalId {sent : List (JobEvent NotesGenerateResult)}
    (h : ∀ id, OneEnding (kindsOf id sent)) :
    ((sent.map told).filterMap IpcEvent.terminalId).Nodup := by
  rw [List.nodup_iff_count_le_one]
  intro id
  rw [count_terminalId]
  exact countP_ends_le (h id)

/-! ## Calls of the dispatcher -/

namespace EventStream

variable {η : Type}

/-- The event that the call routes. -/
def Call.routed : Call η → Option IpcEvent
  | .route event => some event
  | .register _ _ => none

theorem fst_terminals (calls : List (Call η)) :
    (terminals calls).map Prod.fst =
      (calls.filterMap Call.routed).filterMap IpcEvent.terminalId := by
  rw [terminals, List.map_filterMap, List.filterMap_filterMap]
  congr 1
  funext c
  cases c with
  | register => rfl
  | route event =>
    show ((event.terminalId.map fun id => (id, event)).map Prod.fst) = event.terminalId
    cases event.terminalId with
    | none | some => rfl

/-- A job is told to have ended once at most. -/
theorem Settled.length_endings_le {calls : List (Call η)} {s : EventStream η}
    (h : Settled calls s) (id : String) : (endings id s.made).length ≤ 1 := by
  by_cases hend : id ∈ (terminals calls).map Prod.fst
  · cases hreg : registered id calls with
    | false =>
      rw [h.silent id (Or.inr hreg)]
      exact Nat.zero_le 1
    | true =>
      obtain ⟨⟨_, event⟩, hevent, rfl⟩ := List.mem_map.mp hend
      obtain ⟨handler, -, hendings⟩ := h.once _ event hevent hreg
      rw [hendings]
      exact Nat.le_refl 1
  · rw [h.silent id (Or.inl hend)]
    exact Nat.zero_le 1

end EventStream

/-! ## The whole way -/

section Way

variable {ι κ η : Type} [DecidableEq ι] [DecidableEq κ] {jobId : ι → String}
  {dropPanics : ι → Bool} {events : List (ServerEvent ι κ NotesGenerateResult)}
  {s : EventServer ι κ NotesGenerateResult} {k : κ} {calls : List (Call η)}

theorem mem_of_mem_kindsOf {id : String} {sent : List (JobEvent NotesGenerateResult)}
    {kind : JobEventKind NotesGenerateResult} (h : kind ∈ kindsOf id sent) :
    (⟨id, kind⟩ : JobEvent NotesGenerateResult) ∈ sent := by
  obtain ⟨e, he, rfl⟩ := List.mem_map.mp h
  obtain ⟨hmem, hid⟩ := List.mem_filter.mp he
  have hid : e.jobId = id := by simpa using hid
  rw [← hid]
  exact hmem

theorem terminals_nodup (hid : Function.Injective jobId) (hdrop : ∀ i, dropPanics i = false)
    (hrun : run (serverStep jobId dropPanics fun _ => true) EventServer.start events = some s)
    (harrived : calls.filterMap Call.routed <+: (s.subscription k).delivered.map told) :
    ((terminals calls).map Prod.fst).Nodup := by
  have hinv := run_invariant (Engine.serverInv_step hid hdrop) Engine.serverInv_start hrun
  have hsublist := (hinv.subscriptions k).delivered_sublist.trans (List.drop_sublist _ _)
  rw [fst_terminals]
  apply List.Nodup.sublist (harrived.sublist.filterMap _)
  apply nodup_terminalId
  exact fun id => (Engine.oneEnding_of_run hid hdrop hrun id).sublist
    (Engine.kindsOf_sublist hsublist)

/-- From the tasks of jobs to the callbacks in the app, in every run of the server and every
order in which the app gets to the events and registers callbacks, while there is room for
those that no callback waits for.  No callback is told of a job that it is not registered
for, none of an end twice; and when the app has got everything from a subscriber that kept
up, a job that began after it subscribed and has finished was told once to a callback of it,
with what its task sent last. -/
theorem job_ends_at_callback (hid : Function.Injective jobId)
    (hdrop : ∀ i, dropPanics i = false) {notify : Value → Value} (hnotify : Notifies notify)
    (hrun : run (serverStep jobId dropPanics fun _ => true) EventServer.start events = some s)
    (harrived : calls.filterMap Call.routed <+: eventsOf
      ((s.subscription k).delivered.map fun e => notify (writeEvent (toEvent e))))
    (hroom : ∀ before after, calls = before ++ after →
      (unclaimed before).length < maxBufferSize) :
    (∀ id, (endings id (runCalls calls).made).length ≤ 1) ∧
    (∀ handler event, (handler, event) ∈ (runCalls calls).made →
      ∃ id, event.jobId = some id ∧ .register id handler ∈ calls) ∧
    ((s.subscription k).phase = .receiving →
      (s.subscription k).next = s.tasks.log.length →
      s.tasks.log.length ≤ (s.subscription k).start + eventChannelCapacity →
      (calls.filterMap Call.routed).length = (s.subscription k).delivered.length →
      ∀ i, kindsOf (jobId i) (s.tasks.log.take (s.subscription k).start) = [] →
        s.tasks.stage i = .finished → registered (jobId i) calls = true →
        ∃ handler progress last, .register (jobId i) handler ∈ calls ∧
          kindsOf (jobId i) s.tasks.log = progress ++ [last] ∧
          endings (jobId i) (runCalls calls).made = [(handler, told ⟨jobId i, last⟩)]) := by
  rw [eventsOf_notify hnotify] at harrived
  have hsettled := settled_runCalls (terminals_nodup hid hdrop hrun harrived) hroom
  refine ⟨hsettled.length_endings_le, hsettled.own, ?_⟩
  intro hphase hnext hkeeps hall i hbefore hfinished hreg
  have hinv := run_invariant (Engine.serverInv_step hid hdrop) Engine.serverInv_start hrun
  obtain ⟨-, hjobs⟩ := (hinv.subscriptions k).kindsOf_delivered hphase hnext hkeeps
    fun _ _ => rfl
  have hcomplete : Engine.Complete (kindsOf (jobId i) s.tasks.log) := by
    have hemitted := hinv.tasks i
    rwa [hfinished] at hemitted
  obtain ⟨progress, last, hkinds, -, hlast⟩ := hcomplete
  -- the last event was delivered, so it was routed
  have hdelivered : (⟨jobId i, last⟩ : JobEvent NotesGenerateResult) ∈
      (s.subscription k).delivered := by
    apply mem_of_mem_kindsOf
    rw [hjobs (jobId i) hbefore, hkinds]
    exact List.mem_append_right _ (List.mem_singleton_self last)
  have hrouted : told ⟨jobId i, last⟩ ∈ calls.filterMap Call.routed := by
    rw [harrived.eq_of_length (by rw [hall, List.length_map])]
    exact List.mem_map_of_mem hdelivered
  have hend : (told ⟨jobId i, last⟩).terminalId = some (jobId i) := by
    cases last with
    | progress => exact absurd trivial hlast
    | done | error => rfl
  have hterminal : (jobId i, told ⟨jobId i, last⟩) ∈ terminals calls := by
    rw [mem_terminals]
    refine ⟨?_, hend⟩
    obtain ⟨c, hc, hevent⟩ := List.mem_filterMap.mp hrouted
    cases c with
    | register => cases hevent
    | route event =>
      rw [← Option.some.inj hevent]
      exact hc
  obtain ⟨handler, hcall, hendings⟩ := hsettled.once _ _ hterminal hreg
  exact ⟨handler, progress, last, hcall, hkinds, hendings⟩

end Way

/-- A subscriber that is there before the job, and a callback that comes after its end. -/
def oneJob : List (ServerEvent (Fin 3) (Fin 2) NotesGenerateResult) :=
  [.subscription 0 .accept, .subscription 0 .subscribe, .notes (.task 0 .accept),
    .notes (.task 0 .join), .notes (.task 0 .grant), .notes (.task 0 .spawn),
    .notes (.task 0 (.progress ⟨"loading", none, none, none⟩)), .subscription 0 .recv,
    .subscription 0 .send, .notes (.task 0 (.return (.ok ⟨"/m/notes.md", [], "m", none⟩))),
    .notes (.task 0 .send), .notes (.task 0 .drop), .subscription 0 .recv, .subscription 0 .send]

def lateCallback : List (Call Nat) :=
  [.route (.jobProgress ⟨"a", "loading", none, none, none⟩),
    .route (.jobDone "a" ⟨"/m/notes.md", [], "m"⟩), .register "a" 7]

def notified (result : Value) : Value :=
  .object [("jsonrpc", .string "2.0"), ("method", .string "events"),
    ("params", .object [("subscription", .string "s"), ("result", result)])]

theorem job_ends_at_callback_oneJob : ∃ s handler last,
    run (serverStep Engine.threeIds (fun _ => false) fun _ => true) EventServer.start oneJob =
        some s ∧
      (s.subscription 0).delivered.length = 2 ∧
      endings "a" (runCalls lateCallback).made = [(handler, told ⟨"a", last⟩)] := by
  have hsubs : (run (serverStep Engine.threeIds (fun _ => false) fun _ => true)
      EventServer.start oneJob).map (fun s => ((s.subscription 0).phase, (s.subscription 0).start,
        (s.subscription 0).next, (s.subscription 0).delivered)) =
      some (.receiving, 0, 2, [⟨"a", .progress ⟨"loading", none, none, none⟩⟩,
        ⟨"a", .done ⟨"/m/notes.md", [], "m", none⟩⟩]) := by
    decide +kernel
  have htasks : (run (serverStep Engine.threeIds (fun _ => false) fun _ => true)
      EventServer.start oneJob).map (fun s => (s.tasks.log.length, s.tasks.stage 0)) =
      some (2, .finished) := by
    decide +kernel
  obtain ⟨s, hs, hsub⟩ := Option.map_eq_some_iff.mp hsubs
  rw [hs] at htasks
  simp only [Option.map_some, Option.some.injEq, Prod.mk.injEq] at hsub htasks
  obtain ⟨hphase, hstart, hnext, hdelivered⟩ := hsub
  obtain ⟨hlog, hfinished⟩ := htasks
  have hid : ∀ i j, Engine.threeIds i = Engine.threeIds j → i = j := by decide
  have hroom : ∀ before after, lateCallback = before ++ after →
      (unclaimed before).length < maxBufferSize := by
    intro before after hsplit
    have hlength := congrArg List.length hsplit
    have hle : (unclaimed before).length ≤ before.length :=
      Nat.le_trans (List.length_filter_le _ _) (List.length_filterMap_le _ _)
    simp only [List.length_append, show lateCallback.length = 3 from rfl] at hlength
    have hsmall : 3 < maxBufferSize := by decide
    omega
  obtain ⟨-, -, hends⟩ := @job_ends_at_callback _ _ _ _ _ _ _ _ s 0 lateCallback
    (fun i j => hid i j) (fun _ => rfl) notified (fun result => ⟨_, _, _, rfl⟩) hs
    (by rw [hdelivered]; exact ⟨[], by decide +kernel⟩) hroom
  obtain ⟨handler, progress, last, -, -, hendings⟩ := hends hphase (by rw [hnext, hlog])
    (by rw [hstart, hlog]; decide) (by rw [hdelivered]; rfl) 0 (by rw [hstart]; rfl) hfinished
    (by decide +kernel)
  exact ⟨s, handler, last, hs, by rw [hdelivered]; rfl, hendings⟩

end App
end Panops
