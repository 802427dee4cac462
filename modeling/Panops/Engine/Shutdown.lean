import Panops.Engine.SocketLifecycle
import Panops.Lib.Watch

/-!
# The shutdown of the engine

`run_serve_in_process` binds the socket and accepts connections until its watch channel
says that it shall end.  The handler of the signals and the forwarder of an external
shutdown send to the channel; the accept loop and the bridge that stops the connections
receive from it.
-/

namespace Panops
namespace Engine
namespace Shutdown

open Lib Lib.Transitions
open SocketLifecycle (BindError)

/-- Where `run_serve_in_process` is. -/
inductive Main where
  | installing
  | forwarding
  | binding
  | bound
  | bridged
  /-- At the top of the loop. -/
  | polling
  /-- The shutdown has been polled and is pending. -/
  | accepting
  | stopping
  /-- With the code of an error. -/
  | exited (error : Option Nat)
deriving DecidableEq

/-- The task that waits for SIGINT and SIGTERM. -/
inductive Waiter where
  | uninstalled
  | listening
  | arrived
  | done
deriving DecidableEq

/-- The task that forwards an external shutdown. -/
inductive Forwarder where
  | absent
  | unspawned (seen : Nat)
  | reading (seen : Nat)
  | waiting (seen : Nat)
  | woken (seen : Nat)
  | done
deriving DecidableEq

def Forwarder.spawn : Forwarder → Forwarder
  | .unspawned seen => .reading seen
  | forwarder => forwarder

/-- The task that drops the server handle. -/
inductive Bridge where
  | unspawned
  | waiting (seen : Nat)
  | woken (seen : Nat)
  | stopped
deriving DecidableEq

inductive SocketCall where
  | bind
  | removeFile
deriving DecidableEq

structure Serve where
  main : Main
  /-- What `shutdown_rx` has seen. -/
  seen : Nat
  shutdown : Watch Bool
  external : Watch Bool
  /-- The sender of the external shutdown is still there. -/
  externalOpen : Bool
  waiter : Waiter
  forwarder : Forwarder
  bridge : Bridge
  calls : List SocketCall
  accepted : Nat
  /-- Not in the source: how many were accepted after the shutdown was sent. -/
  late : Nat
deriving DecidableEq

inductive Event where
  | install (ok : Bool)
  | forward
  | bind (error : Option BindError)
  | subscribe
  | check
  | poll
  /-- `accept` is ready with a connection, fails or is pending. -/
  | accept (connection : Bool)
  | remove
  | signal
  | fire
  | externalSend (value : Bool)
  | externalDrop
  | forwarderRead
  | forwarderChanged
  | forwarderBorrow
  | bridgeChanged
  | bridgeBorrow
deriving DecidableEq

/-- The receiver of an external shutdown. -/
structure External where
  channel : Watch Bool
  seen : Nat
  le : seen ≤ channel.version

def Serve.start (external : Option External) : Serve where
  main := .installing
  seen := 0
  shutdown := .new false
  external := (external.map External.channel).getD (.new false)
  externalOpen := external.isSome
  waiter := .uninstalled
  forwarder := (external.map fun e => Forwarder.unspawned e.seen).getD .absent
  bridge := .unspawned
  calls := []
  accepted := 0
  late := 0

def exitCode : BindError → Nat
  | .engineAlreadyRunning => 1
  | .bind _ => 3

/-- A sender of the shutdown is left. -/
def Serve.senders (s : Serve) : Bool :=
  (match s.main with
    | .exited _ => false
    | _ => true) ||
  (match s.waiter with
    | .listening => true
    | .arrived => true
    | _ => false) ||
  (match s.forwarder with
    | .absent => false
    | .done => false
    | _ => true)

/-- What the forwarder does with the value that it has read. -/
def Serve.forwarded (s : Serve) (seen : Nat) : Serve :=
  if s.external.value then { s with shutdown := s.shutdown.send true, forwarder := .done }
  else { s with forwarder := .waiting seen }

def step (s : Serve) : Event → Option Serve
  | .install ok =>
    match s.main with
    | .installing =>
      if ok then some { s with main := .forwarding, waiter := .listening }
      else some { s with main := .exited (some 3) }
    | _ => none
  | .forward =>
    match s.main with
    | .forwarding => some { s with main := .binding, forwarder := s.forwarder.spawn }
    | _ => none
  | .bind error =>
    match s.main, error with
    | .binding, none => some { s with main := .bound, calls := s.calls ++ [.bind] }
    | .binding, some e => some { s with main := .exited (some (exitCode e)) }
    | _, _ => none
  | .subscribe =>
    match s.main with
    | .bound => some { s with main := .bridged, bridge := .waiting s.shutdown.version }
    | _ => none
  | .check =>
    match s.main with
    | .bridged => some { s with main := if s.shutdown.value then .stopping else .polling }
    | _ => none
  | .poll =>
    match s.main, s.shutdown.changed s.seen with
    | .polling, none => some { s with main := .accepting }
    | .polling, some seen =>
      some { s with main := if s.shutdown.value then .stopping else .polling, seen := seen }
    | _, _ => none
  | .accept connection =>
    match s.main with
    | .accepting =>
      some { s with
        main := .polling
        accepted := s.accepted + if connection then 1 else 0
        late := s.late + if connection && s.shutdown.value then 1 else 0 }
    | _ => none
  | .remove =>
    match s.main with
    | .stopping => some { s with main := .exited none, calls := s.calls ++ [.removeFile] }
    | _ => none
  | .signal =>
    match s.waiter with
    | .listening => some { s with waiter := .arrived }
    | _ => none
  | .fire =>
    match s.waiter with
    | .arrived => some { s with waiter := .done, shutdown := s.shutdown.send true }
    | _ => none
  | .externalSend value =>
    if s.externalOpen then some { s with external := s.external.send value } else none
  | .externalDrop =>
    if s.externalOpen then some { s with externalOpen := false } else none
  | .forwarderRead =>
    match s.forwarder with
    | .reading seen => some (s.forwarded seen)
    | _ => none
  | .forwarderChanged =>
    match s.forwarder with
    | .waiting seen =>
      match s.external.changed seen with
      | some now => some { s with forwarder := .woken now }
      | none => if s.externalOpen then none else some { s with forwarder := .done }
    | _ => none
  | .forwarderBorrow =>
    match s.forwarder with
    | .woken seen => some (s.forwarded seen)
    | _ => none
  | .bridgeChanged =>
    match s.bridge with
    | .waiting seen =>
      match s.shutdown.changed seen with
      | some now => some { s with bridge := .woken now }
      | none => if s.senders then none else some { s with bridge := .stopped }
    | _ => none
  | .bridgeBorrow =>
    match s.bridge with
    | .woken seen =>
      some { s with bridge := if s.shutdown.value then .stopped else .waiting seen }
    | _ => none

/-! ## Who takes a step -/

/-- A step of `run_serve_in_process` itself. -/
def Event.isMain : Event → Bool
  | .install _ => true
  | .forward => true
  | .bind _ => true
  | .subscribe => true
  | .check => true
  | .poll => true
  | .accept _ => true
  | .remove => true
  | _ => false

variable {s s' : Serve} {event : Event}

/-- What the other tasks can do. -/
inductive Move (s : Serve) : Event → Serve → Prop
  | signalled : s.waiter = .listening → Move s .signal { s with waiter := .arrived }
  | fires : s.waiter = .arrived →
      Move s .fire { s with waiter := .done, shutdown := s.shutdown.send true }
  | sends (value : Bool) : s.externalOpen = true →
      Move s (.externalSend value) { s with external := s.external.send value }
  | drops : s.externalOpen = true → Move s .externalDrop { s with externalOpen := false }
  | reads (seen : Nat) : s.forwarder = .reading seen →
      Move s .forwarderRead (s.forwarded seen)
  | wakes (seen : Nat) : s.forwarder = .waiting seen → seen ≠ s.external.version →
      Move s .forwarderChanged { s with forwarder := .woken s.external.version }
  | closes (seen : Nat) : s.forwarder = .waiting seen → seen = s.external.version →
      s.externalOpen = false →
      Move s .forwarderChanged { s with forwarder := .done }
  | borrows (seen : Nat) : s.forwarder = .woken seen →
      Move s .forwarderBorrow (s.forwarded seen)
  | bridgeWakes (seen : Nat) : s.bridge = .waiting seen → seen ≠ s.shutdown.version →
      Move s .bridgeChanged { s with bridge := .woken s.shutdown.version }
  | bridgeCloses (seen : Nat) : s.bridge = .waiting seen → s.senders = false →
      Move s .bridgeChanged { s with bridge := .stopped }
  | bridgeStops (seen : Nat) : s.bridge = .woken seen → s.shutdown.value = true →
      Move s .bridgeBorrow { s with bridge := .stopped }
  | bridgeSleeps (seen : Nat) : s.bridge = .woken seen → s.shutdown.value = false →
      Move s .bridgeBorrow { s with bridge := .waiting seen }

theorem move_of_step (hevent : event.isMain = false) (h : step s event = some s') :
    Move s event s' := by
  cases event with
  | signal =>
    cases hwaiter : s.waiter <;> simp only [step, hwaiter] at h <;> cases h
    exact .signalled hwaiter
  | fire =>
    cases hwaiter : s.waiter <;> simp only [step, hwaiter] at h <;> cases h
    exact .fires hwaiter
  | externalSend value =>
    simp only [step] at h
    split at h
    · next hopen =>
      cases h
      exact .sends value hopen
    · cases h
  | externalDrop =>
    simp only [step] at h
    split at h
    · next hopen =>
      cases h
      exact .drops hopen
    · cases h
  | forwarderRead =>
    cases hforwarder : s.forwarder <;> simp only [step, hforwarder] at h <;> cases h
    exact .reads _ hforwarder
  | forwarderBorrow =>
    cases hforwarder : s.forwarder <;> simp only [step, hforwarder] at h <;> cases h
    exact .borrows _ hforwarder
  | forwarderChanged =>
    cases hforwarder : s.forwarder <;> simp only [step, hforwarder] at h <;> try cases h
    split at h
    · next now hchanged =>
      obtain ⟨rfl, hne⟩ := Watch.changed_eq_some hchanged
      cases h
      exact .wakes _ hforwarder hne
    · next hchanged =>
      split at h
      · cases h
      · next hopen =>
        cases h
        exact .closes _ hforwarder (Watch.changed_eq_none_iff.mp hchanged) (by simpa using hopen)
  | bridgeChanged =>
    cases hbridge : s.bridge <;> simp only [step, hbridge] at h <;> try cases h
    split at h
    · next now hchanged =>
      obtain ⟨rfl, hne⟩ := Watch.changed_eq_some hchanged
      cases h
      exact .bridgeWakes _ hbridge hne
    · split at h
      · cases h
      · next hsenders =>
        cases h
        exact .bridgeCloses _ hbridge (by simpa using hsenders)
  | bridgeBorrow =>
    cases hbridge : s.bridge <;> simp only [step, hbridge] at h <;> cases h
    cases hvalue : s.shutdown.value with
    | true => exact .bridgeStops _ hbridge hvalue
    | false => exact .bridgeSleeps _ hbridge hvalue
  | _ => cases hevent

/-- They leave `run_serve_in_process` where it is, and tell it at most to end. -/
structure Aside (s s' : Serve) : Prop where
  main : s'.main = s.main
  seen : s'.seen = s.seen
  calls : s'.calls = s.calls
  accepted : s'.accepted = s.accepted
  late : s'.late = s.late
  shutdown : s'.shutdown = s.shutdown ∨ s'.shutdown = s.shutdown.send true

theorem aside_forwarded (s : Serve) (seen : Nat) : Aside s (s.forwarded seen) := by
  unfold Serve.forwarded
  split
  · exact ⟨rfl, rfl, rfl, rfl, rfl, Or.inr rfl⟩
  · exact ⟨rfl, rfl, rfl, rfl, rfl, Or.inl rfl⟩

theorem Move.aside (h : Move s event s') : Aside s s' := by
  cases h with
  | fires => exact ⟨rfl, rfl, rfl, rfl, rfl, Or.inr rfl⟩
  | reads seen => exact aside_forwarded s seen
  | borrows seen => exact aside_forwarded s seen
  | _ => exact ⟨rfl, rfl, rfl, rfl, rfl, Or.inl rfl⟩

/-- What is sent is never taken back. -/
theorem Aside.sent (h : Aside s s') (hsent : s.shutdown.value = true) :
    s'.shutdown.value = true := by
  rcases h.shutdown with heq | heq <;> rw [heq]
  · exact hsent
  · rfl

/-- What `run_serve_in_process` can do. -/
inductive Advance (s : Serve) : Event → Serve → Prop
  | installed : s.main = .installing →
      Advance s (.install true) { s with main := .forwarding, waiter := .listening }
  | notInstalled : s.main = .installing →
      Advance s (.install false) { s with main := .exited (some 3) }
  | forwards : s.main = .forwarding →
      Advance s .forward { s with main := .binding, forwarder := s.forwarder.spawn }
  | bound : s.main = .binding →
      Advance s (.bind none) { s with main := .bound, calls := s.calls ++ [.bind] }
  | notBound (e : BindError) : s.main = .binding →
      Advance s (.bind (some e)) { s with main := .exited (some (exitCode e)) }
  | subscribes : s.main = .bound →
      Advance s .subscribe { s with main := .bridged, bridge := .waiting s.shutdown.version }
  | leaves : s.main = .bridged → s.shutdown.value = true →
      Advance s .check { s with main := .stopping }
  | enters : s.main = .bridged → s.shutdown.value = false →
      Advance s .check { s with main := .polling }
  | pends : s.main = .polling → s.seen = s.shutdown.version →
      Advance s .poll { s with main := .accepting }
  | breaks : s.main = .polling → s.seen ≠ s.shutdown.version → s.shutdown.value = true →
      Advance s .poll { s with main := .stopping, seen := s.shutdown.version }
  | polls : s.main = .polling → s.seen ≠ s.shutdown.version → s.shutdown.value = false →
      Advance s .poll { s with main := .polling, seen := s.shutdown.version }
  | accepts (connection : Bool) : s.main = .accepting →
      Advance s (.accept connection) { s with
        main := .polling
        accepted := s.accepted + if connection then 1 else 0
        late := s.late + if connection && s.shutdown.value then 1 else 0 }
  | removes : s.main = .stopping →
      Advance s .remove { s with main := .exited none, calls := s.calls ++ [.removeFile] }

theorem advance_of_step (hevent : event.isMain = true) (h : step s event = some s') :
    Advance s event s' := by
  cases event with
  | install ok =>
    cases hmain : s.main <;> simp only [step, hmain] at h <;> try cases h
    cases ok with
    | true => cases h; exact .installed hmain
    | false => cases h; exact .notInstalled hmain
  | forward =>
    cases hmain : s.main <;> simp only [step, hmain] at h <;> cases h
    exact .forwards hmain
  | bind error =>
    cases hmain : s.main <;> simp only [step, hmain] at h <;> try cases h
    cases error with
    | none => cases h; exact .bound hmain
    | some e => cases h; exact .notBound e hmain
  | subscribe =>
    cases hmain : s.main <;> simp only [step, hmain] at h <;> cases h
    exact .subscribes hmain
  | check =>
    cases hmain : s.main <;> simp only [step, hmain] at h <;> try cases h
    cases hvalue : s.shutdown.value with
    | true => exact .leaves hmain hvalue
    | false => exact .enters hmain hvalue
  | poll =>
    cases hchanged : s.shutdown.changed s.seen with
    | none =>
      cases hmain : s.main <;> simp only [step, hmain, hchanged] at h <;> cases h
      exact .pends hmain (Watch.changed_eq_none_iff.mp hchanged)
    | some seen =>
      obtain ⟨rfl, hne⟩ := Watch.changed_eq_some hchanged
      cases hmain : s.main <;> simp only [step, hmain, hchanged] at h <;> try cases h
      cases hvalue : s.shutdown.value with
      | true => exact .breaks hmain hne hvalue
      | false => exact .polls hmain hne hvalue
  | accept connection =>
    cases hmain : s.main <;> simp only [step, hmain] at h <;> cases h
    exact .accepts connection hmain
  | remove =>
    cases hmain : s.main <;> simp only [step, hmain] at h <;> cases h
    exact .removes hmain
  | _ => cases hevent

/-! ## The accept loop -/

/-- It has seen that it shall end. -/
def Main.Ends : Main → Prop
  | .stopping => True
  | .exited none => True
  | _ => False

/-- It is in the loop. -/
def Main.Loops : Main → Prop
  | .polling => True
  | .accepting => True
  | _ => False

def Main.calls : Main → List SocketCall
  | .bound => [.bind]
  | .bridged => [.bind]
  | .polling => [.bind]
  | .accepting => [.bind]
  | .stopping => [.bind]
  | .exited none => [.bind, .removeFile]
  | _ => []

structure MainInv (s : Serve) : Prop where
  sent : s.shutdown.value = true ↔ 0 < s.shutdown.version
  seen : ¬ s.main.Ends → s.seen = 0
  ends : s.main.Ends → s.shutdown.value = true
  calls : s.calls = s.main.calls
  idle : ¬ s.main.Loops → ¬ s.main.Ends → s.accepted = 0
  late : s.late ≤ 1
  lateSent : s.late = 1 → s.shutdown.value = true
  notLate : s.main = .accepting → s.late = 0

theorem mainInv_start (external : Option External) : MainInv (Serve.start external) := by
  constructor <;> simp [Serve.start, Watch.new, Main.Ends, Main.calls]

theorem mainInv_step (hinv : MainInv s) (h : step s event = some s') : MainInv s' := by
  obtain ⟨hsent, hseen, hends, hcalls, hidle, hlate, hlateSent, hnotLate⟩ := hinv
  cases hevent : event.isMain with
  | false =>
    have haside := (move_of_step hevent h).aside
    constructor
    case sent =>
      rcases haside.shutdown with heq | heq <;> rw [heq]
      · exact hsent
      · simp [Watch.send]
    case seen =>
      rw [haside.main, haside.seen]
      exact hseen
    case ends =>
      rw [haside.main]
      exact fun h => haside.sent (hends h)
    case calls =>
      rw [haside.main, haside.calls]
      exact hcalls
    case idle =>
      rw [haside.main, haside.accepted]
      exact hidle
    case late =>
      rw [haside.late]
      exact hlate
    case lateSent =>
      rw [haside.late]
      exact fun h => haside.sent (hlateSent h)
    case notLate =>
      rw [haside.main, haside.late]
      exact hnotLate
  | true =>
    have hadvance := advance_of_step hevent h
    clear h hevent
    cases hadvance with
    | pends hmain hversion =>
      have hzero : s.seen = 0 := hseen (by simp [hmain, Main.Ends])
      have hnot : s.late ≠ 1 := fun hone => by
        have := hsent.mp (hlateSent hone)
        omega
      rw [hmain] at hcalls
      constructor
      case sent => exact hsent
      case seen => exact fun _ => hzero
      case ends => exact fun hends => hends.elim
      case calls => exact hcalls
      case idle => exact fun hnot => absurd trivial hnot
      case late => exact hlate
      case lateSent => exact hlateSent
      case notLate =>
        show _ → s.late = 0
        omega
    | accepts connection hmain =>
      have hnone := hnotLate hmain
      rw [hmain] at hcalls
      have hnow : (if connection && s.shutdown.value then 1 else 0) ≤ 1 ∧
          ((if connection && s.shutdown.value then 1 else 0) = 1 →
            s.shutdown.value = true) := by
        cases connection <;> cases s.shutdown.value <;> simp
      constructor
      case late =>
        show s.late + _ ≤ 1
        rw [hnone, Nat.zero_add]
        exact hnow.1
      case lateSent =>
        show s.late + _ = 1 → _
        rw [hnone, Nat.zero_add]
        exact hnow.2
      case sent => exact hsent
      case seen => exact fun _ => hseen (by simp [hmain, Main.Ends])
      case ends => exact fun hends => hends.elim
      case calls => exact hcalls
      case idle => exact fun hnot => absurd trivial hnot
      case notLate => exact nofun
    | _ =>
      constructor
      case sent => exact hsent
      case late => exact hlate
      case lateSent => exact hlateSent
      all_goals
        clear hlate hlateSent
        simp_all [Main.Ends, Main.Loops, Main.calls]

/-! ## The other receivers -/

/-- The bridge has nothing to wake up for, or it came too late and there is no loop. -/
structure BridgeInv (s : Serve) : Prop where
  unspawned : s.bridge = .unspawned → ¬ s.main.Loops ∧ ¬ s.main.Ends ∧ s.main ≠ .bridged
  waits : ∀ n, s.bridge = .waiting n → n ≤ s.shutdown.version ∧
    (n = 0 ∨ s.shutdown.value = true ∧ s.accepted = 0 ∧ ¬ s.main.Loops)
  woken : ∀ n, s.bridge = .woken n → s.shutdown.value = true

structure ForwarderInv (s : Serve) : Prop where
  unspawned : ∀ n, s.forwarder = .unspawned n → n ≤ s.external.version
  reading : ∀ n, s.forwarder = .reading n → n ≤ s.external.version
  waits : ∀ n, s.forwarder = .waiting n → s.external.Rests n (· = false)
  woken : ∀ n, s.forwarder = .woken n → n ≤ s.external.version
  done : s.forwarder = .done →
    s.shutdown.value = true ∨ s.externalOpen = false ∧ s.external.value = false

theorem forwarderInv_start (external : Option External) : ForwarderInv (Serve.start external) := by
  cases external with
  | none => constructor <;> simp [Serve.start]
  | some e =>
    constructor <;> simp [Serve.start]
    exact e.le

/-- A value that has been read sends the shutdown or puts the forwarder to sleep. -/
theorem forwarderInv_forwarded {seen : Nat} (hle : seen ≤ s.external.version) :
    ForwarderInv (s.forwarded seen) := by
  unfold Serve.forwarded
  split
  · constructor <;> simp [Watch.send]
  · next hvalue =>
    constructor <;> simp
    exact Watch.rests_of_value hle (by simpa using hvalue)

theorem forwarderInv_step (hinv : ForwarderInv s) (h : step s event = some s') :
    ForwarderInv s' := by
  obtain ⟨hunspawned, hreading, hwaits, hwoken, hdone⟩ := hinv
  cases hevent : event.isMain with
  | true =>
    cases advance_of_step hevent h with
    | forwards =>
      have hspawn : ∀ f : Forwarder, f.spawn = f ∨
          ∃ n, f = .unspawned n ∧ f.spawn = .reading n := by
        intro f
        cases f with
        | unspawned n => exact Or.inr ⟨n, rfl, rfl⟩
        | _ => exact Or.inl rfl
      rcases hspawn s.forwarder with heq | ⟨n, hn, heq⟩ <;> rw [heq]
      · exact ⟨hunspawned, hreading, hwaits, hwoken, hdone⟩
      · constructor <;> simp
        exact hunspawned n hn
    | _ => exact ⟨hunspawned, hreading, hwaits, hwoken, hdone⟩
  | false =>
    have haside := (move_of_step hevent h).aside
    cases move_of_step hevent h with
    | fires => exact ⟨hunspawned, hreading, hwaits, hwoken, fun h => Or.inl rfl⟩
    | sends value hopen =>
      refine ⟨fun n hn => Nat.le_succ_of_le (hunspawned n hn),
        fun n hn => Nat.le_succ_of_le (hreading n hn), fun n hn => (hwaits n hn).send value,
        fun n hn => Nat.le_succ_of_le (hwoken n hn), fun h => Or.inl ?_⟩
      -- whoever can still send has not been given up
      refine (hdone h).resolve_right fun hclosed => ?_
      rw [hopen] at hclosed
      cases hclosed.1
    | drops =>
      exact ⟨hunspawned, hreading, hwaits, hwoken, fun h => (hdone h).imp_right fun hclosed =>
        ⟨rfl, hclosed.2⟩⟩
    | reads seen hseen => exact forwarderInv_forwarded (hreading seen hseen)
    | borrows seen hseen => exact forwarderInv_forwarded (hwoken seen hseen)
    | wakes => constructor <;> simp
    | closes seen hseen hversion hopen =>
      constructor <;> simp
      exact Or.inr ⟨hopen, (hwaits seen hseen).value hversion⟩
    | _ => exact ⟨hunspawned, hreading, hwaits, hwoken, hdone⟩

theorem bridgeInv_start (external : Option External) : BridgeInv (Serve.start external) := by
  constructor <;> simp [Serve.start, Main.Loops, Main.Ends]

theorem BridgeInv.aside (hinv : BridgeInv s) (h : Aside s s') (hbridge : s'.bridge = s.bridge) :
    BridgeInv s' where
  unspawned := by
    rw [hbridge, h.main]
    exact hinv.unspawned
  waits n hn := by
    obtain ⟨hle, hreason⟩ := hinv.waits n (hbridge ▸ hn)
    rw [h.accepted, h.main]
    refine ⟨?_, hreason.imp_right fun hlate => ⟨h.sent hlate.1, hlate.2⟩⟩
    rcases h.shutdown with heq | heq <;> rw [heq]
    · exact hle
    · exact Nat.le_succ_of_le hle
  woken n hn := h.sent (hinv.woken n (hbridge ▸ hn))

theorem bridge_forwarded (s : Serve) (seen : Nat) : (s.forwarded seen).bridge = s.bridge := by
  unfold Serve.forwarded
  split <;> rfl

theorem bridgeInv_step (hmain : MainInv s) (hinv : BridgeInv s) (h : step s event = some s') :
    BridgeInv s' := by
  cases hevent : event.isMain with
  | true =>
    obtain ⟨hunspawned, hwaits, hwoken⟩ := hinv
    have hadvance := advance_of_step hevent h
    clear h hevent
    cases hadvance with
    | subscribes hbound =>
      refine ⟨fun h => (by cases h), ?_, fun _ h => (by cases h)⟩
      rintro n ⟨⟩
      refine ⟨Nat.le_refl _, (Nat.eq_zero_or_pos _).imp_right fun hpos => ?_⟩
      exact ⟨hmain.sent.mpr hpos, hmain.idle (by simp [hbound, Main.Loops])
        (by simp [hbound, Main.Ends]), id⟩
    | _ => constructor <;> simp_all [Main.Ends, Main.Loops]
  | false =>
    have haside := (move_of_step hevent h).aside
    cases move_of_step hevent h with
    | bridgeWakes seen hseen hne =>
      have hpos : 0 < s.shutdown.version := by
        have := (hinv.waits seen hseen).1
        omega
      exact ⟨fun h => (by cases h), fun _ h => (by cases h), fun _ _ => hmain.sent.mpr hpos⟩
    | bridgeCloses | bridgeStops =>
      exact ⟨fun h => (by cases h), fun _ h => (by cases h), fun _ h => (by cases h)⟩
    | bridgeSleeps seen hseen hvalue =>
      rw [hinv.woken seen hseen] at hvalue
      cases hvalue
    | reads seen => exact hinv.aside haside (bridge_forwarded s seen)
    | borrows seen => exact hinv.aside haside (bridge_forwarded s seen)
    | _ => exact hinv.aside haside rfl

/-! ## Coming to the end -/

/-- How many steps it has left when it has been told to end. -/
def Main.rank : Main → Nat
  | .installing => 6
  | .forwarding => 5
  | .binding => 4
  | .bound => 3
  | .bridged => 2
  | .polling => 2
  | .accepting => 3
  | .stopping => 1
  | .exited _ => 0

theorem rank_advance (hinv : MainInv s) (hsent : s.shutdown.value = true)
    (h : Advance s event s') : s'.main.rank < s.main.rank := by
  have hpos := hinv.sent.mp hsent
  cases h with
  | pends hmain hversion =>
    have hzero := hinv.seen (by simp [hmain, Main.Ends])
    omega
  | enters _ hvalue | polls _ _ hvalue =>
    rw [hsent] at hvalue
    cases hvalue
  | _ => simp_all [Main.rank]

/-- From then on every one of its own steps brings it closer to the end. -/
theorem rank_run {later : List Event} (hinv : MainInv s) (hsent : s.shutdown.value = true)
    (hrun : run step s later = some s') :
    later.countP Event.isMain + s'.main.rank ≤ s.main.rank := by
  induction later generalizing s with
  | nil =>
    cases hrun
    exact Nat.le_of_eq (Nat.zero_add _)
  | cons event later ih =>
    unfold run at hrun
    cases hnext : step s event with
    | none => simp [hnext] at hrun
    | some s₁ =>
      simp only [hnext] at hrun
      have hinv₁ := mainInv_step hinv hnext
      rw [List.countP_cons]
      cases hevent : event.isMain with
      | true =>
        have hadvance := advance_of_step hevent hnext
        have hlt := rank_advance hinv hsent hadvance
        have hsent₁ : s₁.shutdown.value = true := by
          cases hadvance <;> exact hsent
        have hrest := ih hinv₁ hsent₁ hrun
        simp only [if_true]
        omega
      | false =>
        have haside := (move_of_step hevent hnext).aside
        have hrest := ih hinv₁ (haside.sent hsent) hrun
        rw [haside.main] at hrest
        simpa using hrest

/-- It always has a step to take. -/
theorem exists_advance (hmain : ∀ error, s.main ≠ .exited error) :
    ∃ event, event.isMain = true ∧ (step s event).isSome = true := by
  cases h : s.main with
  | installing => exact ⟨.install true, rfl, by simp [step, h]⟩
  | forwarding => exact ⟨.forward, rfl, by simp [step, h]⟩
  | binding => exact ⟨.bind none, rfl, by simp [step, h]⟩
  | bound => exact ⟨.subscribe, rfl, by simp [step, h]⟩
  | bridged => exact ⟨.check, rfl, by simp [step, h]⟩
  | polling =>
    refine ⟨.poll, rfl, ?_⟩
    cases hchanged : s.shutdown.changed s.seen with
    | none | some => simp [step, h, hchanged]
  | accepting => exact ⟨.accept false, rfl, by simp [step, h]⟩
  | stopping => exact ⟨.remove, rfl, by simp [step, h]⟩
  | exited error => exact absurd h (hmain error)

def Event.isForwarder : Event → Bool
  | .forwarderRead => true
  | .forwarderChanged => true
  | .forwarderBorrow => true
  | _ => false

def Event.isBridge : Event → Bool
  | .bridgeChanged => true
  | .bridgeBorrow => true
  | _ => false

/-- The forwarder has been spawned. -/
def Forwarder.Spawned : Forwarder → Prop
  | .absent => False
  | .unspawned _ => False
  | _ => True

theorem forwarded_sends (s : Serve) (seen : Nat) (hvalue : s.external.value = true) :
    (s.forwarded seen).shutdown.value = true := by
  unfold Serve.forwarded
  rw [if_pos hvalue]
  rfl

/-- An external shutdown is not slept through. -/
theorem exists_run_forwarder (hinv : ForwarderInv s) (hvalue : s.external.value = true)
    (hspawned : s.forwarder.Spawned) :
    ∃ own s', (∀ event ∈ own, event.isForwarder = true) ∧ run step s own = some s' ∧
      s'.shutdown.value = true := by
  cases hforwarder : s.forwarder with
  | absent | unspawned =>
    rw [hforwarder] at hspawned
    exact hspawned.elim
  | done =>
    refine ⟨[], s, fun _ h => absurd h List.not_mem_nil, rfl, ?_⟩
    refine (hinv.done hforwarder).resolve_right fun hclosed => ?_
    rw [hvalue] at hclosed
    cases hclosed.2
  | reading seen =>
    refine ⟨[.forwarderRead], s.forwarded seen, by simp [Event.isForwarder], ?_,
      forwarded_sends s seen hvalue⟩
    simp only [run, step, hforwarder]
  | woken seen =>
    refine ⟨[.forwarderBorrow], s.forwarded seen, by simp [Event.isForwarder], ?_,
      forwarded_sends s seen hvalue⟩
    simp only [run, step, hforwarder]
  | waiting seen =>
    have hchanged := (hinv.waits seen hforwarder).exists_changed (by simp [hvalue])
    refine ⟨[.forwarderChanged, .forwarderBorrow], _, by simp [Event.isForwarder], ?_,
      forwarded_sends { s with forwarder := .woken s.external.version } s.external.version hvalue⟩
    simp only [run, step, hforwarder, hchanged]

/-- Nor is it by the bridge while there are connections. -/
theorem exists_run_bridge (hmain : MainInv s) (hinv : BridgeInv s)
    (hsent : s.shutdown.value = true) (haccepted : 0 < s.accepted) :
    ∃ own s', (∀ event ∈ own, event.isBridge = true) ∧ run step s own = some s' ∧
      s'.bridge = .stopped := by
  cases hbridge : s.bridge with
  | unspawned =>
    obtain ⟨hloops, hends, -⟩ := hinv.unspawned hbridge
    have hnone := hmain.idle hloops hends
    omega
  | stopped => exact ⟨[], s, fun _ h => absurd h List.not_mem_nil, rfl, hbridge⟩
  | woken seen =>
    refine ⟨[.bridgeBorrow], { s with bridge := .stopped }, by simp [Event.isBridge], ?_, rfl⟩
    simp only [run, step, hbridge, hsent, if_true]
  | waiting seen =>
    obtain ⟨-, hzero | ⟨-, hnone, -⟩⟩ := hinv.waits seen hbridge
    · have hpos := hmain.sent.mp hsent
      have hchanged : s.shutdown.changed seen = some s.shutdown.version := by
        unfold Watch.changed
        rw [if_neg (by omega)]
      refine ⟨[.bridgeChanged, .bridgeBorrow], { s with bridge := .stopped },
        by simp [Event.isBridge], ?_, rfl⟩
      simp only [run, step, hbridge, hchanged, hsent, if_true]
    · omega

/-- In every order in which signals, an external shutdown, connections and the tasks of the
server follow each other: the socket is bound and removed once, and removed only after a
shutdown was sent; at most one connection is accepted after that.  A shutdown is never lost:
an external one that stands is sent by the forwarder's own next steps, whatever was sent
ends `run_serve_in_process` after no more than six steps of its own, with a step to take
until it has ended, and tells the connections that were accepted to stop. -/
theorem shutdown_is_never_lost (external : Option External) {events : List Event} {s : Serve}
    (hrun : run step (Serve.start external) events = some s) :
    s.calls = s.main.calls ∧ (s.main.Ends → s.shutdown.value = true) ∧ s.late ≤ 1 ∧
    (s.external.value = true → s.forwarder.Spawned →
      ∃ own s', (∀ event ∈ own, event.isForwarder = true) ∧ run step s own = some s' ∧
        s'.shutdown.value = true) ∧
    (s.shutdown.value = true →
      (∀ later s', run step s later = some s' → later.countP Event.isMain ≤ 6 ∧
        ((∃ error, s'.main = .exited error) ∨
          ∃ event, event.isMain = true ∧ (step s' event).isSome = true)) ∧
      (0 < s.accepted → ∃ own s', (∀ event ∈ own, event.isBridge = true) ∧
        run step s own = some s' ∧ s'.bridge = .stopped)) := by
  obtain ⟨hmain, hbridge⟩ := @run_invariant _ _ _ _ _ _ (fun s => MainInv s ∧ BridgeInv s)
    (fun _ _ _ hinv h => ⟨mainInv_step hinv.1 h, bridgeInv_step hinv.1 hinv.2 h⟩)
    ⟨mainInv_start external, bridgeInv_start external⟩ hrun
  have hforwarder : ForwarderInv s := run_invariant
    (fun _ _ _ hinv h => forwarderInv_step hinv h) (forwarderInv_start external) hrun
  refine ⟨hmain.calls, hmain.ends, hmain.late, exists_run_forwarder hforwarder, fun hsent => ?_⟩
  refine ⟨fun later s' hlater => ⟨?_, ?_⟩, exists_run_bridge hmain hbridge hsent⟩
  · have hrank := rank_run hmain hsent hlater
    have hsix : s.main.rank ≤ 6 := by
      cases s.main <;> simp [Main.rank]
    omega
  · by_cases hexited : ∃ error, s'.main = .exited error
    · exact Or.inl hexited
    · exact Or.inr (exists_advance fun error h => hexited ⟨error, h⟩)

/-- A connection is accepted between the signal and the next poll. -/
def lateConnection : List Event :=
  [.install true, .forward, .bind none, .subscribe, .check, .poll, .signal, .fire, .accept true,
    .poll]

def untouched : External := ⟨.new false, 0, Nat.le_refl _⟩

/-- The sender shuts down and goes away while the forwarder waits. -/
def sentAndDropped : List Event :=
  [.install true, .forward, .forwarderRead, .bind none, .externalSend true, .externalDrop]

theorem shutdown_is_never_lost_signalAndExternal :
    (∃ s, run step (Serve.start none) lateConnection = some s ∧ s.late = 1 ∧ s.calls = [.bind] ∧
      (∃ own s', (∀ event ∈ own, event.isBridge = true) ∧ run step s own = some s' ∧
        s'.bridge = .stopped)) ∧
    ∃ s, run step (Serve.start (some untouched)) sentAndDropped = some s ∧
      s.shutdown.value = false ∧ ∃ own s', (∀ event ∈ own, event.isForwarder = true) ∧
        run step s own = some s' ∧ s'.shutdown.value = true := by
  constructor
  · have hvalues : (run step (Serve.start none) lateConnection).map (fun s =>
        (s.late, s.main, s.accepted, s.shutdown.value)) = some (1, .stopping, 1, true) := by
      decide +kernel
    obtain ⟨s, hs, hvalue⟩ := Option.map_eq_some_iff.mp hvalues
    simp only [Prod.mk.injEq] at hvalue
    obtain ⟨hlate, hmain, haccepted, hsent⟩ := hvalue
    obtain ⟨hcalls, -, -, -, hends⟩ := shutdown_is_never_lost none hs
    refine ⟨s, hs, hlate, ?_, (hends hsent).2 (by omega)⟩
    rw [hcalls, hmain]
    rfl
  · have hvalues : (run step (Serve.start (some untouched)) sentAndDropped).map (fun s =>
        (s.external.value, s.forwarder, s.shutdown.value)) = some (true, .waiting 0, false) := by
      decide +kernel
    obtain ⟨s, hs, hvalue⟩ := Option.map_eq_some_iff.mp hvalues
    simp only [Prod.mk.injEq] at hvalue
    obtain ⟨hexternal, hforwarder, hquiet⟩ := hvalue
    have hspawned : s.forwarder.Spawned := by
      rw [hforwarder]
      trivial
    obtain ⟨-, -, -, hforwards, -⟩ := shutdown_is_never_lost (some untouched) hs
    exact ⟨s, hs, hquiet, hforwards hexternal hspawned⟩

end Shutdown
end Engine
end Panops
