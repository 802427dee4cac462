import Mathlib.Data.List.Induction
import Mathlib.Data.List.Nodup
import Mathlib.Logic.Function.Basic
import Panops.App.Models

/-!
# The dispatcher of events

Events go to the callback that is registered for their job.  The last event of a job
that has none yet is kept for it.
-/

namespace Panops
namespace App

structure EventStream (η : Type) where
  callbacks : String → Option η
  eventBuffer : List (String × IpcEvent)
  /-- The calls of handlers that have been made, the first call first. -/
  made : List (η × IpcEvent)

namespace EventStream

def maxBufferSize : Nat := 64

variable {η : Type}

def start : EventStream η where
  callbacks _ := none
  eventBuffer := []
  made := []

def registerCallback (jobId : String) (handler : η) (s : EventStream η) : EventStream η :=
  match s.eventBuffer.find? fun entry => entry.1 = jobId with
  | some entry =>
    { s with
      eventBuffer := s.eventBuffer.eraseP fun entry => entry.1 = jobId
      made := s.made ++ [(handler, entry.2)] }
  | none => { s with callbacks := Function.update s.callbacks jobId (some handler) }

def unregisterCallback (jobId : String) (s : EventStream η) : EventStream η :=
  { s with
    callbacks := Function.update s.callbacks jobId none
    eventBuffer := s.eventBuffer.filter fun entry => entry.1 ≠ jobId }

def stop (s : EventStream η) : EventStream η :=
  { s with callbacks := fun _ => none, eventBuffer := [] }

def routeTerminal (jobId : String) (event : IpcEvent) (s : EventStream η) : EventStream η :=
  match s.callbacks jobId with
  | some handler =>
    { s with
      callbacks := Function.update s.callbacks jobId none
      made := s.made ++ [(handler, event)] }
  | none =>
    let kept := if maxBufferSize ≤ s.eventBuffer.length then s.eventBuffer.tail else s.eventBuffer
    { s with eventBuffer := kept ++ [(jobId, event)] }

def route (event : IpcEvent) (s : EventStream η) : EventStream η :=
  match event with
  | .jobDone jobId _ => routeTerminal jobId event s
  | .jobError jobId _ => routeTerminal jobId event s
  | .jobProgress progress =>
    match s.callbacks progress.jobId with
    | some handler => { s with made := s.made ++ [(handler, event)] }
    | none => s
  | .unknown _ => s

/-! ## What a call can do -/

section Calls

variable {s : EventStream η} {jobId id : String} {handler : η} {event : IpcEvent}
  {made : η × IpcEvent} {entry : String × IpcEvent}

theorem callbacks_registerCallback {h : η}
    (hcallback : (s.registerCallback jobId handler).callbacks id = some h) :
    s.callbacks id = some h ∨ id = jobId ∧ h = handler := by
  unfold registerCallback at hcallback
  split at hcallback
  · exact Or.inl hcallback
  · grind -ring -linarith [Function.update_apply]

theorem made_registerCallback (hmade : made ∈ (s.registerCallback jobId handler).made) :
    made ∈ s.made ∨ made.1 = handler ∧ (jobId, made.2) ∈ s.eventBuffer := by
  unfold registerCallback at hmade
  split at hmade
  · next entry hfind =>
    have hid : entry.1 = jobId := by simpa using List.find?_some hfind
    have hmem := List.mem_of_find?_eq_some hfind
    rcases List.mem_append.mp hmade with hold | hnew
    · exact Or.inl hold
    · rw [List.mem_singleton.mp hnew]
      exact Or.inr ⟨rfl, hid ▸ hmem⟩
  · exact Or.inl hmade

theorem mem_made_registerCallback (hmade : made ∈ s.made) :
    made ∈ (s.registerCallback jobId handler).made := by
  unfold registerCallback
  split
  · exact List.mem_append_left _ hmade
  · exact hmade

theorem mem_made_route (hmade : made ∈ s.made) : made ∈ (s.route event).made := by
  have hterminal : ∀ id, made ∈ (s.routeTerminal id event).made := by
    intro id
    unfold routeTerminal
    split
    · exact List.mem_append_left _ hmade
    · exact hmade
  cases event with
  | jobDone => exact hterminal _
  | jobError => exact hterminal _
  | jobProgress progress =>
    unfold route
    cases hp : s.callbacks progress.jobId with
    | none => simpa only [hp] using hmade
    | some handler =>
      simp only [hp]
      exact List.mem_append_left _ hmade
  | unknown => exact hmade

theorem eventBuffer_registerCallback
    (hentry : entry ∈ (s.registerCallback jobId handler).eventBuffer) :
    entry ∈ s.eventBuffer := by
  unfold registerCallback at hentry
  split at hentry
  · exact List.mem_of_mem_eraseP hentry
  · exact hentry

theorem callbacks_routeTerminal {h : η}
    (hcallback : (s.routeTerminal jobId event).callbacks id = some h) :
    s.callbacks id = some h := by
  unfold routeTerminal at hcallback
  split at hcallback
  · grind -ring -linarith [Function.update_apply]
  · exact hcallback

theorem made_routeTerminal (hmade : made ∈ (s.routeTerminal jobId event).made) :
    made ∈ s.made ∨ s.callbacks jobId = some made.1 ∧ made.2 = event := by
  unfold routeTerminal at hmade
  split at hmade
  · grind -ring -linarith
  · exact Or.inl hmade

theorem eventBuffer_routeTerminal (hentry : entry ∈ (s.routeTerminal jobId event).eventBuffer) :
    entry ∈ s.eventBuffer ∨ entry = (jobId, event) := by
  unfold routeTerminal at hentry
  split at hentry
  · exact Or.inl hentry
  · rcases List.mem_append.mp hentry with hold | hnew
    · left
      split at hold
      · exact List.mem_of_mem_tail hold
      · exact hold
    · exact Or.inr (List.mem_singleton.mp hnew)

/-- An event that ends a job. -/
theorem route_of_terminalId (hid : event.terminalId = some id) :
    s.route event = s.routeTerminal id event := by
  cases event with
  | jobDone jobId result =>
    obtain rfl : jobId = id := Option.some.inj hid
    rfl
  | jobError jobId error =>
    obtain rfl : jobId = id := Option.some.inj hid
    rfl
  | jobProgress => cases hid
  | unknown => cases hid

theorem callbacks_route {h : η} (hcallback : (s.route event).callbacks id = some h) :
    s.callbacks id = some h := by
  cases event with
  | jobDone => exact callbacks_routeTerminal hcallback
  | jobError => exact callbacks_routeTerminal hcallback
  | jobProgress progress =>
    unfold route at hcallback
    cases hp : s.callbacks progress.jobId <;> simpa only [hp] using hcallback
  | unknown => exact hcallback

theorem made_route (hmade : made ∈ (s.route event).made) :
    made ∈ s.made ∨ ∃ id, event.jobId = some id ∧ s.callbacks id = some made.1 ∧ made.2 = event := by
  cases event with
  | jobDone jobId => exact (made_routeTerminal hmade).imp_right fun h => ⟨jobId, rfl, h⟩
  | jobError jobId => exact (made_routeTerminal hmade).imp_right fun h => ⟨jobId, rfl, h⟩
  | jobProgress progress =>
    unfold route at hmade
    cases hp : s.callbacks progress.jobId with
    | none => simp only [hp] at hmade; exact Or.inl hmade
    | some handler =>
      simp only [hp] at hmade
      rcases List.mem_append.mp hmade with hold | hnew
      · exact Or.inl hold
      · rw [List.mem_singleton.mp hnew]
        exact Or.inr ⟨progress.jobId, rfl, hp, rfl⟩
  | unknown => exact Or.inl hmade

theorem eventBuffer_route (hentry : entry ∈ (s.route event).eventBuffer) :
    entry ∈ s.eventBuffer ∨ event.terminalId = some entry.1 ∧ entry.2 = event := by
  cases event with
  | jobDone jobId =>
    refine (eventBuffer_routeTerminal hentry).imp_right fun h => ?_
    rw [h]
    exact ⟨rfl, rfl⟩
  | jobError jobId =>
    refine (eventBuffer_routeTerminal hentry).imp_right fun h => ?_
    rw [h]
    exact ⟨rfl, rfl⟩
  | jobProgress progress =>
    left
    unfold route at hentry
    cases hp : s.callbacks progress.jobId <;> simpa only [hp] using hentry
  | unknown => exact Or.inl hentry

theorem callbacks_stop {h : η} : s.stop.callbacks id ≠ some h := nofun

theorem callbacks_unregisterCallback {h : η}
    (hcallback : (s.unregisterCallback jobId).callbacks id = some h) :
    s.callbacks id = some h := by
  unfold unregisterCallback at hcallback
  grind -ring -linarith [Function.update_apply]

theorem eventBuffer_unregisterCallback
    (hentry : entry ∈ (s.unregisterCallback jobId).eventBuffer) : entry ∈ s.eventBuffer :=
  List.mem_of_mem_filter hentry

end Calls

/-! ## Runs -/

inductive Call (η : Type) where
  | route (event : IpcEvent)
  | register (jobId : String) (handler : η)

def call (s : EventStream η) : Call η → EventStream η
  | .route event => s.route event
  | .register jobId handler => s.registerCallback jobId handler

def runCalls (calls : List (Call η)) : EventStream η := calls.foldl call start

def Call.terminal : Call η → Option (String × IpcEvent)
  | .route event => event.terminalId.map fun id => (id, event)
  | .register _ _ => none

def Call.registers (jobId : String) : Call η → Bool
  | .route _ => false
  | .register id _ => id = jobId

/-- The last events of jobs that have been routed. -/
def terminals (calls : List (Call η)) : List (String × IpcEvent) := calls.filterMap Call.terminal

def registered (jobId : String) (calls : List (Call η)) : Bool := calls.any (Call.registers jobId)

/-- Those of jobs for which no callback has been registered. -/
def unclaimed (calls : List (Call η)) : List (String × IpcEvent) :=
  (terminals calls).filter fun entry => !registered entry.1 calls

/-- The calls of handlers with the last event of the job. -/
def endings (jobId : String) (made : List (η × IpcEvent)) : List (η × IpcEvent) :=
  made.filter fun call => call.2.terminalId = some jobId

/-! ## The buffer -/

section Lists

variable {calls : List (Call η)} {c : Call η}

theorem terminals_append : terminals (calls ++ [c]) = terminals calls ++ c.terminal.toList := by
  cases h : c.terminal <;> simp [terminals, h]

theorem registered_append {id : String} :
    registered id (calls ++ [c]) = (registered id calls || c.registers id) := by
  simp [registered]

theorem mem_unclaimed {entry : String × IpcEvent} :
    entry ∈ unclaimed calls ↔ entry ∈ terminals calls ∧ registered entry.1 calls = false := by
  simp [unclaimed]

theorem unclaimed_register {id : String} {handler : η} :
    unclaimed (calls ++ [.register id handler]) =
      (unclaimed calls).filter fun entry => entry.1 ≠ id := by
  rw [unclaimed, unclaimed, terminals_append, List.filter_filter]
  simp only [Call.terminal, Option.toList_none, List.append_nil]
  apply List.filter_congr
  intro entry _
  rw [registered_append]
  cases registered entry.1 calls <;> simp [Call.registers, eq_comm]

theorem unclaimed_route {event : IpcEvent} :
    unclaimed (calls ++ [.route event]) =
      unclaimed calls ++ (Call.terminal (η := η) (.route event)).toList.filter
        fun entry => !registered entry.1 calls := by
  have hsame : ∀ entry : String × IpcEvent,
      registered entry.1 (calls ++ [.route event]) = registered entry.1 calls := by
    intro entry
    rw [registered_append]
    simp [Call.registers]
  simp only [unclaimed, terminals_append, List.filter_append, hsame]

/-- Removing the first entry of a key removes all of them when keys occur once. -/
theorem eraseP_key_eq_filter {l : List (String × IpcEvent)} (hnodup : (l.map Prod.fst).Nodup)
    (id : String) :
    l.eraseP (fun entry => entry.1 = id) = l.filter fun entry => entry.1 ≠ id := by
  induction l with
  | nil => rfl
  | cons entry rest ih =>
    rw [List.map_cons, List.nodup_cons] at hnodup
    by_cases hid : entry.1 = id
    · have hrest : ∀ other ∈ rest, other.1 ≠ id := by
        intro other hother heq
        exact hnodup.1 (List.mem_map.mpr ⟨other, hother, heq.trans hid.symm⟩)
      rw [List.eraseP_cons_of_pos (by simpa using hid), List.filter_cons_of_neg (by simpa using hid)]
      exact (List.filter_eq_self.mpr (by simpa using hrest)).symm
    · rw [List.eraseP_cons_of_neg (by simpa using hid), List.filter_cons_of_pos (by simpa using hid),
        ih hnodup.2]

end Lists

/-- What a run of calls leaves behind. -/
structure Settled (calls : List (Call η)) (s : EventStream η) : Prop where
  buffer : s.eventBuffer = unclaimed calls
  callback : ∀ id handler, s.callbacks id = some handler → .register id handler ∈ calls
  listens : ∀ id, registered id calls = true → id ∉ (terminals calls).map Prod.fst →
    s.callbacks id ≠ none
  once : ∀ id event, (id, event) ∈ terminals calls → registered id calls = true →
    ∃ handler, .register id handler ∈ calls ∧ endings id s.made = [(handler, event)]
  silent : ∀ id, id ∉ (terminals calls).map Prod.fst ∨ registered id calls = false →
    endings id s.made = []
  own : ∀ handler event, (handler, event) ∈ s.made →
    ∃ id, event.jobId = some id ∧ .register id handler ∈ calls

theorem settled_start : Settled ([] : List (Call η)) start := by
  constructor <;> simp [start, unclaimed, terminals, registered, endings]

section Steps

variable {calls : List (Call η)} {s : EventStream η} {id : String} {handler : η} {event : IpcEvent}

theorem mem_terminals {entry : String × IpcEvent} :
    entry ∈ terminals calls ↔ .route entry.2 ∈ calls ∧ entry.2.terminalId = some entry.1 := by
  rw [terminals, List.mem_filterMap]
  constructor
  · intro ⟨c, hc, hentry⟩
    cases c with
    | register => cases hentry
    | route event =>
      obtain ⟨id, hid, rfl⟩ := Option.map_eq_some_iff.mp hentry
      exact ⟨hc, hid⟩
  · intro ⟨hc, hid⟩
    exact ⟨_, hc, by simp [Call.terminal, hid]⟩

theorem registered_iff : registered id calls = true ↔ ∃ handler, .register id handler ∈ calls := by
  simp only [registered, List.any_eq_true]
  constructor
  · intro ⟨c, hc, hid⟩
    cases c with
    | route => cases hid
    | register jobId handler =>
      have heq : jobId = id := by simpa [Call.registers] using hid
      exact ⟨handler, heq ▸ hc⟩
  · intro ⟨handler, hc⟩
    exact ⟨_, hc, by simp [Call.registers]⟩

theorem endings_append (made : List (η × IpcEvent)) (call : η × IpcEvent) :
    endings id (made ++ [call]) =
      endings id made ++ if call.2.terminalId = some id then [call] else [] := by
  by_cases h : call.2.terminalId = some id <;> simp [endings, h]

/-- What was made, and who listens, comes from the calls before as well. -/
theorem Settled.own_append (h : Settled calls s) (c : Call η) {handler : η} {event : IpcEvent}
    (hmade : (handler, event) ∈ s.made) :
    ∃ id, event.jobId = some id ∧ .register id handler ∈ calls ++ [c] := by
  obtain ⟨id, hid, hcall⟩ := h.own handler event hmade
  exact ⟨id, hid, List.mem_append_left _ hcall⟩

theorem Settled.callback_append (h : Settled calls s) (c : Call η) {id : String} {handler : η}
    (hcallback : s.callbacks id = some handler) : .register id handler ∈ calls ++ [c] :=
  List.mem_append_left _ (h.callback id handler hcallback)

theorem Settled.register (h : Settled calls s) (hnodup : ((terminals calls).map Prod.fst).Nodup) :
    Settled (calls ++ [.register id handler]) (s.registerCallback id handler) := by
  have hterminals : terminals (calls ++ [.register id handler]) = terminals calls := by
    simp [terminals_append, Call.terminal]
  have hregistered : ∀ id', registered id' (calls ++ [.register id handler]) =
      (registered id' calls || decide (id = id')) := by
    intro id'
    simp [registered_append, Call.registers]
  have hkeys : (s.eventBuffer.map Prod.fst).Nodup := by
    rw [h.buffer, unclaimed]
    exact hnodup.sublist (List.filter_sublist.map Prod.fst)
  unfold registerCallback
  cases hfind : s.eventBuffer.find? fun entry => entry.1 = id with
  | some entry =>
    obtain ⟨id', e⟩ := entry
    have hid : id' = id := by simpa using List.find?_some hfind
    subst hid
    have hmem := List.mem_of_find?_eq_some hfind
    rw [h.buffer, mem_unclaimed] at hmem
    obtain ⟨hterminal, hnot⟩ := hmem
    have he := (mem_terminals.mp hterminal).2
    constructor
    case buffer =>
      rw [unclaimed_register, ← h.buffer]
      exact eraseP_key_eq_filter hkeys id'
    case once =>
      intro other event hevent hreg
      rw [hterminals] at hevent
      rw [endings_append]
      by_cases hother : other = id'
      · subst hother
        have hsame : event = e := by
          have := List.inj_on_of_nodup_map hnodup hevent hterminal rfl
          simpa using this
        subst hsame
        refine ⟨handler, by simp, ?_⟩
        rw [h.silent other (Or.inr hnot), if_pos he, List.nil_append]
      · rw [hregistered, decide_eq_false (Ne.symm hother), Bool.or_false] at hreg
        obtain ⟨handler', hcall, hendings⟩ := h.once other event hevent hreg
        refine ⟨handler', List.mem_append_left _ hcall, ?_⟩
        rw [hendings, he, if_neg (by simpa using Ne.symm hother), List.append_nil]
    case silent =>
      intro other hother
      have hne : other ≠ id' := by
        intro heq
        subst heq
        rcases hother with hnotin | hnotreg
        · exact hnotin (hterminals ▸ List.mem_map_of_mem hterminal)
        · simp [hregistered] at hnotreg
      rw [endings_append, he, if_neg (by simpa using Ne.symm hne), List.append_nil]
      apply h.silent
      rw [hterminals, hregistered, decide_eq_false (Ne.symm hne), Bool.or_false] at hother
      exact hother
    case own =>
      intro handler' event hmade
      rcases List.mem_append.mp hmade with hold | hnew
      · exact h.own_append _ hold
      · obtain ⟨rfl, rfl⟩ := Prod.mk.inj (List.mem_singleton.mp hnew)
        exact ⟨id', IpcEvent.jobId_of_terminalId he, by simp⟩
    case callback => exact fun other handler' hcallback => h.callback_append _ hcallback
    case listens =>
      intro other hreg hnotin
      rw [hterminals] at hnotin
      have hne : other ≠ id' := fun heq => hnotin (heq ▸ List.mem_map_of_mem hterminal)
      rw [hregistered, decide_eq_false (Ne.symm hne), Bool.or_false] at hreg
      exact h.listens other hreg hnotin
  | none =>
    have hnotin : ∀ entry ∈ unclaimed calls, entry.1 ≠ id := by
      intro entry hentry heq
      have hall := List.find?_eq_none.mp hfind entry (h.buffer ▸ hentry)
      simp [heq] at hall
    constructor
    case buffer =>
      show s.eventBuffer = _
      rw [unclaimed_register, h.buffer]
      exact (List.filter_eq_self.mpr (by simpa using hnotin)).symm
    case once =>
      intro other event hevent hreg
      rw [hterminals] at hevent
      have hold : registered other calls = true := by
        cases hcalls : registered other calls with
        | true => rfl
        | false =>
          have hne := hnotin (other, event) (mem_unclaimed.mpr ⟨hevent, hcalls⟩)
          simp [hregistered, hcalls, Ne.symm hne] at hreg
      obtain ⟨handler', hcall, hendings⟩ := h.once other event hevent hold
      exact ⟨handler', List.mem_append_left _ hcall, hendings⟩
    case silent =>
      intro other hother
      apply h.silent other
      rw [hterminals] at hother
      refine hother.imp_right fun hnotreg => ?_
      rw [hregistered, Bool.or_eq_false_iff] at hnotreg
      exact hnotreg.1
    case own => exact fun handler' event hmade => h.own_append _ hmade
    case callback =>
      intro other handler' hcallback
      replace hcallback : Function.update s.callbacks id (some handler) other = some handler' :=
        hcallback
      by_cases hother : other = id
      · subst hother
        rw [Function.update_self] at hcallback
        obtain rfl := Option.some.inj hcallback
        simp
      · rw [Function.update_of_ne hother] at hcallback
        exact h.callback_append _ hcallback
    case listens =>
      intro other hreg hnotin'
      by_cases hother : other = id
      · subst hother
        simp
      · rw [hterminals] at hnotin'
        rw [hregistered, decide_eq_false (Ne.symm hother), Bool.or_false] at hreg
        show Function.update s.callbacks id (some handler) other ≠ none
        rw [Function.update_of_ne hother]
        exact h.listens other hreg hnotin'

theorem Settled.routeTerminal (h : Settled calls s) (hid : event.terminalId = some id)
    (hnew : id ∉ (terminals calls).map Prod.fst)
    (hroom : (unclaimed calls).length < maxBufferSize) :
    Settled (calls ++ [.route event]) (s.routeTerminal id event) := by
  have hterminal : Call.terminal (η := η) (.route event) = some (id, event) := by
    simp [Call.terminal, hid]
  have hterminals : terminals (calls ++ [.route event]) = terminals calls ++ [(id, event)] := by
    rw [terminals_append, hterminal, Option.toList_some]
  have hregistered : ∀ id', registered id' (calls ++ [.route event]) = registered id' calls := by
    intro id'
    simp [registered_append, Call.registers]
  have hold : ∀ other e, (other, e) ∈ terminals calls → other ≠ id :=
    fun other e hmem heq => hnew (heq ▸ List.mem_map_of_mem hmem)
  unfold EventStream.routeTerminal
  cases hcallback : s.callbacks id with
  | some handler =>
    have hcall := h.callback id handler hcallback
    have hreg : registered id calls = true := registered_iff.mpr ⟨handler, hcall⟩
    constructor
    case buffer =>
      show s.eventBuffer = _
      rw [unclaimed_route, hterminal, h.buffer]
      simp [hreg]
    case once =>
      intro other e he hreg'
      rw [hregistered] at hreg'
      rw [endings_append]
      rw [hterminals] at he
      rcases List.mem_append.mp he with hbefore | hlast
      · obtain ⟨handler', hcall', hendings⟩ := h.once other e hbefore hreg'
        refine ⟨handler', List.mem_append_left _ hcall', ?_⟩
        rw [hendings, hid, if_neg (by simpa using Ne.symm (hold other e hbefore)), List.append_nil]
      · obtain ⟨rfl, rfl⟩ := Prod.mk.inj (List.mem_singleton.mp hlast)
        refine ⟨handler, List.mem_append_left _ hcall, ?_⟩
        rw [h.silent other (Or.inl hnew), hid, if_pos rfl, List.nil_append]
    case silent =>
      intro other hother
      rw [hterminals, hregistered] at hother
      have hne : other ≠ id := by
        intro heq
        subst heq
        rcases hother with hnotin | hnotreg
        · simp at hnotin
        · rw [hreg] at hnotreg
          cases hnotreg
      rw [endings_append, hid, if_neg (by simpa using Ne.symm hne), List.append_nil]
      exact h.silent other (hother.imp_left fun hnotin hmem => hnotin (by simp [hmem]))
    case own =>
      intro handler' e hmade
      rcases List.mem_append.mp hmade with hbefore | hlast
      · exact h.own_append _ hbefore
      · obtain ⟨rfl, rfl⟩ := Prod.mk.inj (List.mem_singleton.mp hlast)
        exact ⟨id, IpcEvent.jobId_of_terminalId hid, List.mem_append_left _ hcall⟩
    case callback =>
      intro other handler' hcallback'
      replace hcallback' : Function.update s.callbacks id none other = some handler' := hcallback'
      by_cases hother : other = id
      · subst hother
        simp at hcallback'
      · rw [Function.update_of_ne hother] at hcallback'
        exact h.callback_append _ hcallback'
    case listens =>
      intro other hreg' hnotin
      rw [hregistered] at hreg'
      rw [hterminals] at hnotin
      have hother : other ≠ id := by
        intro heq
        simp [heq] at hnotin
      show Function.update s.callbacks id none other ≠ none
      rw [Function.update_of_ne hother]
      exact h.listens other hreg' fun hmem => hnotin (by simp [hmem])
  | none =>
    have hreg : registered id calls = false := by
      cases hcalls : registered id calls with
      | false => rfl
      | true => exact absurd hcallback (h.listens id hcalls hnew)
    have hfits : ¬ maxBufferSize ≤ s.eventBuffer.length := by
      rw [h.buffer]
      omega
    constructor
    case buffer =>
      show (if maxBufferSize ≤ s.eventBuffer.length then s.eventBuffer.tail else s.eventBuffer) ++
        [(id, event)] = _
      rw [if_neg hfits, unclaimed_route, hterminal, h.buffer]
      simp [hreg]
    case once =>
      intro other e he hreg'
      rw [hregistered] at hreg'
      rw [hterminals] at he
      rcases List.mem_append.mp he with hbefore | hlast
      · obtain ⟨handler', hcall', hendings⟩ := h.once other e hbefore hreg'
        exact ⟨handler', List.mem_append_left _ hcall', hendings⟩
      · obtain ⟨rfl, rfl⟩ := Prod.mk.inj (List.mem_singleton.mp hlast)
        rw [hreg] at hreg'
        cases hreg'
    case silent =>
      intro other hother
      rw [hterminals, hregistered] at hother
      exact h.silent other (hother.imp_left fun hnotin hmem => hnotin (by simp [hmem]))
    case own => exact fun handler' e hmade => h.own_append _ hmade
    case callback => exact fun other handler' hcallback' => h.callback_append _ hcallback'
    case listens =>
      intro other hreg' hnotin
      rw [hregistered] at hreg'
      rw [hterminals] at hnotin
      exact h.listens other hreg' fun hmem => hnotin (by simp [hmem])

/-- Reports of progress go to the callback and are not kept. -/
theorem Settled.routeOther (h : Settled calls s) (hid : event.terminalId = none) :
    Settled (calls ++ [.route event]) (s.route event) := by
  have hterminals : terminals (calls ++ [.route event]) = terminals calls := by
    simp [terminals_append, Call.terminal, hid]
  have hregistered : ∀ id', registered id' (calls ++ [.route event]) = registered id' calls := by
    intro id'
    simp [registered_append, Call.registers]
  have hunclaimed : unclaimed (calls ++ [.route event]) = unclaimed calls := by
    rw [unclaimed_route]
    simp [Call.terminal, hid]
  have hkept : ∀ made, (∀ id', endings id' made = endings id' s.made) →
      (∀ handler e, (handler, e) ∈ made → ∃ id', e.jobId = some id' ∧ .register id' handler ∈ calls) →
      Settled (calls ++ [.route event]) { s with made := made } := by
    intro made hendings hown
    constructor
    case buffer => exact h.buffer.trans hunclaimed.symm
    case once =>
      intro other e he hreg
      rw [hterminals] at he
      rw [hregistered] at hreg
      obtain ⟨handler, hcall, hlast⟩ := h.once other e he hreg
      exact ⟨handler, List.mem_append_left _ hcall, (hendings other).trans hlast⟩
    case silent =>
      intro other hother
      rw [hterminals, hregistered] at hother
      exact (hendings other).trans (h.silent other hother)
    case own =>
      intro handler e hmade
      obtain ⟨other, hother, hcall⟩ := hown handler e hmade
      exact ⟨other, hother, List.mem_append_left _ hcall⟩
    case callback => exact fun other handler hcallback => h.callback_append _ hcallback
    case listens =>
      intro other hreg hnotin
      rw [hterminals] at hnotin
      rw [hregistered] at hreg
      exact h.listens other hreg hnotin
  cases event with
  | jobDone => cases hid
  | jobError => cases hid
  | unknown => exact hkept s.made (fun _ => rfl) h.own
  | jobProgress progress =>
    unfold route
    cases hcallback : s.callbacks progress.jobId with
    | none => simpa only [hcallback] using hkept s.made (fun _ => rfl) h.own
    | some handler =>
      simp only [hcallback]
      apply hkept
      · intro id'
        rw [endings_append, hid, if_neg (by simp), List.append_nil]
      · intro handler' e hmade
        rcases List.mem_append.mp hmade with hbefore | hlast
        · exact h.own handler' e hbefore
        · obtain ⟨rfl, rfl⟩ := Prod.mk.inj (List.mem_singleton.mp hlast)
          exact ⟨progress.jobId, rfl, h.callback progress.jobId handler' hcallback⟩

theorem Settled.call {c : Call η} (h : Settled calls s)
    (hnodup : ((terminals (calls ++ [c])).map Prod.fst).Nodup)
    (hroom : (unclaimed calls).length < maxBufferSize) : Settled (calls ++ [c]) (s.call c) := by
  rw [terminals_append, List.map_append, List.nodup_append] at hnodup
  cases c with
  | register jobId handler => exact h.register hnodup.1
  | route event =>
    cases hid : event.terminalId with
    | none => exact h.routeOther hid
    | some id =>
      have hnew : id ∉ (terminals calls).map Prod.fst := by
        intro hmem
        exact hnodup.2.2 id hmem id (by simp [Call.terminal, hid]) rfl
      have hroute : s.call (.route event) = s.routeTerminal id event := route_of_terminalId hid
      rw [hroute]
      exact h.routeTerminal hid hnew hroom

end Steps

theorem settled_runCalls {calls : List (Call η)}
    (honce : ((terminals calls).map Prod.fst).Nodup)
    (hroom : ∀ before after, calls = before ++ after →
      (unclaimed before).length < maxBufferSize) : Settled calls (runCalls calls) := by
  induction calls using List.reverseRecOn with
  | nil => exact settled_start
  | append_singleton calls c ih =>
    have hbefore : Settled calls (runCalls calls) := by
      apply ih
      · rw [terminals_append, List.map_append, List.nodup_append] at honce
        exact honce.1
      · intro before after hsplit
        exact hroom before (after ++ [c]) (by rw [hsplit, List.append_assoc])
    rw [runCalls, List.foldl_append]
    exact hbefore.call honce (hroom calls [c] rfl)

/-- In every order of events and registrations in which no job ends twice and the
buffer does not run full: the end of a registered job is told exactly once, to a
callback of that job, and no callback is told of another job. -/
theorem delivered_once {calls : List (Call η)} (honce : ((terminals calls).map Prod.fst).Nodup)
    (hroom : ∀ before after, calls = before ++ after →
      (unclaimed before).length < maxBufferSize) :
    (∀ id event, (id, event) ∈ terminals calls → registered id calls = true →
      ∃ handler, .register id handler ∈ calls ∧
        endings id (runCalls calls).made = [(handler, event)]) ∧
    ∀ handler event, (handler, event) ∈ (runCalls calls).made →
      ∃ id, event.jobId = some id ∧ .register id handler ∈ calls := by
  have hsettled := settled_runCalls honce hroom
  exact ⟨hsettled.once, hsettled.own⟩

/-- The event of `a` comes after its registration and that of `b` before. -/
def aThenB : List (Call Nat) :=
  [.register "a" 1, .route (.jobError "b" ⟨"internal", "pipeline panicked"⟩),
    .route (.jobProgress ⟨"a", "loading", none, none, none⟩),
    .route (.jobDone "a" ⟨"/m/notes.md", [], "m"⟩), .register "b" 2]

theorem delivered_once_aThenB :
    ∃ handler, .register "b" handler ∈ aThenB ∧ endings "b" (runCalls aThenB).made =
      [(handler, .jobError "b" ⟨"internal", "pipeline panicked"⟩)] := by
  have hroom : ∀ n ≤ 5, (unclaimed (aThenB.take n)).length < maxBufferSize := by decide +kernel
  have hall := @delivered_once Nat aThenB (by decide +kernel) fun before after hsplit => by
    have hlength : before.length ≤ 5 := by
      have := congrArg List.length hsplit
      simp only [List.length_append, show aThenB.length = 5 from rfl] at this
      omega
    have htake : aThenB.take before.length = before := by rw [hsplit, List.take_left']; rfl
    exact htake ▸ hroom before.length hlength
  exact hall.1 "b" _ (by decide +kernel) (by decide +kernel)

end EventStream
end App
end Panops
