import Mathlib.Logic.Function.Basic
import Panops.Lib.Transitions

/-!
# The life of the socket

`bind_with_lifecycle` probes the socket path, unlinks a stale file and binds; the engine
unlinks the path again when it shuts down.  Each of these is a step of its own, and any
number of engines take them on one path.
-/

namespace Panops
namespace Engine
namespace SocketLifecycle

open Lib.Transitions

/-- What is at the path before any engine starts. -/
inductive Leftover where
  /-- A socket on which nobody listens. -/
  | stale
  /-- Not a socket. -/
  | regular
  /-- `connect` fails in another way. -/
  | other
deriving DecidableEq

inductive File (ι : Type) where
  | leftover (kind : Leftover)
  | socket (engine : ι)
deriving DecidableEq

/-- The call of `bind_with_lifecycle` that failed. -/
inductive BindCall where
  | createParent
  | unlinkStale
  | bind
  | chmod
deriving DecidableEq

inductive BindError where
  | engineAlreadyRunning
  | bind (call : BindCall)
deriving DecidableEq

/-- Where an engine is.  The numbers count binds. -/
inductive EngineState where
  | fresh
  | checking
  /-- The path exists. -/
  | probing
  /-- The probe found nobody, and the unlink is to come. -/
  | refused (since : Nat)
  | binding
  /-- It listens, and the `chmod` is to come. -/
  | bound (number : Nat)
  | serving (number : Nat)
  /-- The `chmod` failed and the listener is dropped, and the unlink is to come. -/
  | abandoned (since : Nat)
  /-- The accept loop is over, and the unlink is to come. -/
  | stopping (number : Nat)
  | exited (error : Option BindError)
  | crashed
deriving DecidableEq

namespace EngineState

/-- The engine listens, since this bind. -/
def listening : EngineState → Option Nat
  | bound number => some number
  | serving number => some number
  | stopping number => some number
  | _ => none

/-- It unlinks a path that it does not listen on, as it found it after this bind. -/
def unlinking : EngineState → Option Nat
  | refused since => some since
  | abandoned since => some since
  | _ => none

end EngineState

structure World (ι : Type) where
  file : Option (File ι)
  engine : ι → EngineState
  /-- Not in the source: the number of binds so far. -/
  binds : Nat

inductive Event (ι : Type) where
  | start (i : ι) (parent : Bool)
  | exists (i : ι)
  /-- Without an answer the probe times out, or fails in some other way. -/
  | probe (i : ι) (answer : Bool)
  | bind (i : ι) (ok : Bool)
  | chmod (i : ι) (ok : Bool)
  | shutdown (i : ι)
  /-- `remove_file`, of a stale file, after a failed `chmod` or at the shutdown. -/
  | unlink (i : ι) (ok : Bool)
  | crash (i : ι)
deriving DecidableEq

variable {ι : Type}

/-- The engine that takes the step. -/
def Event.engine : Event ι → ι
  | start i _ => i
  | .exists i => i
  | probe i _ => i
  | bind i _ => i
  | chmod i _ => i
  | shutdown i => i
  | unlink i _ => i
  | crash i => i

inductive Connect where
  | connected
  | refused
  | notSocket
  | failed
deriving DecidableEq

namespace World

def initial (left : Option Leftover) : World ι := ⟨left.map .leftover, fun _ => .fresh, 0⟩

/-- `connect` to the path. -/
def connect (w : World ι) : Connect :=
  match w.file with
  | none => .failed
  | some (.leftover .stale) => .refused
  | some (.leftover .regular) => .notSocket
  | some (.leftover .other) => .failed
  | some (.socket j) => if (w.engine j).listening.isSome then .connected else .refused

/-- What the probe decides. -/
def probed (w : World ι) (answer : Bool) : EngineState :=
  if answer then
    match w.connect with
    | .connected => .exited (some .engineAlreadyRunning)
    | .refused => .refused w.binds
    | .notSocket => .refused w.binds
    | .failed => .exited (some .engineAlreadyRunning)
  else .exited (some .engineAlreadyRunning)

def removeFile (ok : Bool) (w : World ι) : World ι :=
  if ok then { w with file := none } else w

variable [DecidableEq ι]

def become (i : ι) (e : EngineState) (w : World ι) : World ι :=
  { w with engine := Function.update w.engine i e }

end World

variable [DecidableEq ι]

def step (w : World ι) : Event ι → Option (World ι)
  | .start i parent =>
    match w.engine i with
    | .fresh =>
      some (w.become i (if parent then .checking else .exited (some (.bind .createParent))))
    | _ => none
  | .exists i =>
    match w.engine i with
    | .checking => some (w.become i (if w.file.isSome then .probing else .binding))
    | _ => none
  | .probe i answer =>
    match w.engine i with
    | .probing => some (w.become i (w.probed answer))
    | _ => none
  | .bind i ok =>
    match w.engine i with
    | .binding =>
      if ok = true ∧ w.file = none then
        some ({ w with file := some (.socket i), binds := w.binds + 1 }.become i
          (.bound (w.binds + 1)))
      else some (w.become i (.exited (some (.bind .bind))))
    | _ => none
  | .chmod i ok =>
    match w.engine i with
    | .bound number =>
      if ok = true ∧ w.file.isSome then some (w.become i (.serving number))
      else some (w.become i (.abandoned w.binds))
    | _ => none
  | .shutdown i =>
    match w.engine i with
    | .serving number => some (w.become i (.stopping number))
    | _ => none
  | .unlink i ok =>
    match w.engine i with
    | .refused _ =>
      some ((w.removeFile ok).become i
        (if ok = true ∧ w.file.isSome then .binding
          else .exited (some (.bind .unlinkStale))))
    | .abandoned _ => some ((w.removeFile ok).become i (.exited (some (.bind .chmod))))
    | .stopping _ => some ((w.removeFile ok).become i (.exited none))
    | _ => none
  | .crash i => some (w.become i .crashed)

/-- The step takes the path away from another engine that listens on it. -/
def Steals (w : World ι) (e : Event ι) : Prop :=
  ∃ j, w.file = some (.socket j) ∧ j ≠ e.engine ∧ (w.engine j).listening.isSome ∧
    ∃ w', step w e = some w' ∧ w'.file ≠ some (.socket j)

/-- Nobody who bound since the engine found the path without a listener still runs when
the engine unlinks it. -/
def Timely (w : World ι) : Event ι → Prop
  | .unlink i ok =>
    ok = true → ∀ since, (w.engine i).unlinking = some since →
      ∀ j number, (w.engine j).listening = some number → number ≤ since
  | _ => True

/-! ## One step -/

theorem listening_of_unlinking {e : EngineState} {since : Nat} (h : e.unlinking = some since) :
    e.listening = none := by
  cases e with
  | refused since' => rfl
  | abandoned since' => rfl
  | _ => cases h

namespace World

variable {w : World ι} {i : ι}

@[simp] theorem become_file (e : EngineState) : (w.become i e).file = w.file := rfl

@[simp] theorem become_binds (e : EngineState) : (w.become i e).binds = w.binds := rfl

@[simp] theorem become_engine_self (e : EngineState) : (w.become i e).engine i = e :=
  Function.update_self ..

theorem become_engine_of_ne (e : EngineState) {j : ι} (hj : j ≠ i) :
    (w.become i e).engine j = w.engine j := Function.update_of_ne hj ..

omit [DecidableEq ι] in
@[simp] theorem removeFile_false : w.removeFile false = w := rfl

omit [DecidableEq ι] in
@[simp] theorem removeFile_true : w.removeFile true = { w with file := none } := rfl

end World

/-- The path names every engine that listens, and an engine that unlinks the path found
it before all of them. -/
structure Named (w : World ι) : Prop where
  named : ∀ j number, (w.engine j).listening = some number → w.file = some (.socket j)
  later : ∀ i since j number, (w.engine i).unlinking = some since →
    (w.engine j).listening = some number → since < number
  counted : ∀ i since, (w.engine i).unlinking = some since → since ≤ w.binds

namespace Named

variable {w : World ι} {i : ι}

omit [DecidableEq ι] in
theorem initial (left : Option Leftover) : Named (World.initial left : World ι) where
  named := fun _ _ h => by cases h
  later := fun _ _ _ _ h => by cases h
  counted := fun _ _ h => by cases h

omit [DecidableEq ι] in
/-- There is one path. -/
theorem alone (h : Named w) {number : Nat} (hi : (w.engine i).listening = some number) {j : ι}
    (hj : j ≠ i) : (w.engine j).listening = none := by
  cases hlisten : (w.engine j).listening with
  | none => rfl
  | some other =>
    have hfile := (h.named j other hlisten).symm.trans (h.named i number hi)
    cases hfile
    exact absurd rfl hj

/-- A step that leaves the path. -/
theorem become (h : Named w) {e : EngineState}
    (hlisten : ∀ number, e.listening = some number → (w.engine i).listening = some number)
    (hunlink : ∀ since, e.unlinking = some since →
      since = w.binds ∧ ∀ j, j ≠ i → (w.engine j).listening = none) :
    Named (w.become i e) := by
  have hold : ∀ j number, ((w.become i e).engine j).listening = some number →
      (w.engine j).listening = some number := by
    intro j number hj
    by_cases hji : j = i
    · subst hji
      rw [World.become_engine_self] at hj
      exact hlisten number hj
    · rwa [World.become_engine_of_ne _ hji] at hj
  refine ⟨fun j number hj => h.named j number (hold j number hj), ?_, ?_⟩
  · intro k since j number hk hj
    by_cases hki : k = i
    · subst hki
      rw [World.become_engine_self] at hk
      obtain ⟨_, hnone⟩ := hunlink since hk
      by_cases hjk : j = k
      · rw [hjk, World.become_engine_self, listening_of_unlinking hk] at hj
        cases hj
      · have hj' := hold j number hj
        rw [hnone j hjk] at hj'
        cases hj'
    · rw [World.become_engine_of_ne _ hki] at hk
      exact h.later k since j number hk (hold j number hj)
  · intro k since hk
    by_cases hki : k = i
    · subst hki
      rw [World.become_engine_self] at hk
      exact Nat.le_of_eq (hunlink since hk).1
    · rw [World.become_engine_of_ne _ hki] at hk
      exact h.counted k since hk

/-- The path goes, where no other engine listens. -/
theorem unlink (h : Named w) {e : EngineState} (hlisten : e.listening = none)
    (hunlink : e.unlinking = none) (hnone : ∀ j, j ≠ i → (w.engine j).listening = none) :
    Named ({ w with file := none }.become i e) := by
  have hnobody : ∀ j, (({ w with file := none }.become i e).engine j).listening = none := by
    intro j
    by_cases hji : j = i
    · rw [hji, World.become_engine_self, hlisten]
    · rw [World.become_engine_of_ne _ hji]
      exact hnone j hji
  refine ⟨fun j number hj => ?_, fun k since j number hk hj => ?_, fun k since hk => ?_⟩
  · rw [hnobody j] at hj
    cases hj
  · rw [hnobody j] at hj
    cases hj
  · by_cases hki : k = i
    · rw [hki, World.become_engine_self, hunlink] at hk
      cases hk
    · rw [World.become_engine_of_ne _ hki] at hk
      exact h.counted k since hk

theorem bind (h : Named w) (hfile : w.file = none) :
    Named ({ w with file := some (.socket i), binds := w.binds + 1 }.become i
      (.bound (w.binds + 1))) := by
  have hnobody : ∀ j number, (w.engine j).listening ≠ some number := by
    intro j number hj
    rw [h.named j number hj] at hfile
    cases hfile
  have hlisten : ∀ j number, (({ w with file := some (.socket i), binds := w.binds + 1 }.become i
      (.bound (w.binds + 1))).engine j).listening = some number →
      j = i ∧ number = w.binds + 1 := by
    intro j number hj
    by_cases hji : j = i
    · rw [hji, World.become_engine_self] at hj
      exact ⟨hji, (Option.some.inj hj).symm⟩
    · rw [World.become_engine_of_ne _ hji] at hj
      exact absurd hj (hnobody j number)
  have hunlink : ∀ k since, (({ w with file := some (.socket i), binds := w.binds + 1 }.become i
      (.bound (w.binds + 1))).engine k).unlinking = some since → since ≤ w.binds := by
    intro k since hk
    by_cases hki : k = i
    · rw [hki, World.become_engine_self] at hk
      cases hk
    · rw [World.become_engine_of_ne _ hki] at hk
      exact h.counted k since hk
  refine ⟨fun j number hj => ?_, fun k since j number hk hj => ?_, fun k since hk => ?_⟩
  · rw [(hlisten j number hj).1]
    rfl
  · have := hunlink k since hk
    have := (hlisten j number hj).2
    omega
  · have := hunlink k since hk
    show since ≤ w.binds + 1
    omega

omit [DecidableEq ι] in
/-- The probe of an engine finds nobody only if nobody listens. -/
theorem probed_unlinking (h : Named w) {answer : Bool} {since : Nat}
    (hprobed : (w.probed answer).unlinking = some since) :
    since = w.binds ∧ ∀ j, (w.engine j).listening = none := by
  have hnobody : w.connect ≠ .connected → w.connect ≠ .failed →
      ∀ j, (w.engine j).listening = none := by
    intro hconnected hfailed j
    cases hj : (w.engine j).listening with
    | none => rfl
    | some number =>
      refine absurd ?_ hconnected
      unfold World.connect
      rw [h.named j number hj]
      simp only [hj, Option.isSome_some, if_true]
  unfold World.probed at hprobed
  cases answer with
  | false => cases hprobed
  | true =>
    simp only [if_true] at hprobed
    cases hconnect : w.connect with
    | connected =>
      rw [hconnect] at hprobed
      cases hprobed
    | refused =>
      rw [hconnect] at hprobed
      exact ⟨(Option.some.inj hprobed).symm, hnobody (by rw [hconnect]; decide)
        (by rw [hconnect]; decide)⟩
    | notSocket =>
      rw [hconnect] at hprobed
      exact ⟨(Option.some.inj hprobed).symm, hnobody (by rw [hconnect]; decide)
        (by rw [hconnect]; decide)⟩
    | failed =>
      rw [hconnect] at hprobed
      cases hprobed

omit [DecidableEq ι] in
theorem probed_listening (answer : Bool) : (w.probed answer).listening = none := by
  unfold World.probed
  split
  · split <;> rfl
  · rfl

end Named

/-- Only a bind and an unlink change the path. -/
theorem file_step {w w' : World ι} {e : Event ι} (hstep : step w e = some w')
    (hnot : ∀ i ok, e ≠ .unlink i ok) : w'.file = w.file ∨ w.file = none := by
  cases e with
  | start i parent =>
    simp only [step] at hstep
    split at hstep
    · cases hstep
      exact .inl rfl
    · cases hstep
  | «exists» i =>
    simp only [step] at hstep
    split at hstep
    · cases hstep
      exact .inl rfl
    · cases hstep
  | probe i answer =>
    simp only [step] at hstep
    split at hstep
    · cases hstep
      exact .inl rfl
    · cases hstep
  | bind i ok =>
    simp only [step] at hstep
    split at hstep
    · split at hstep
      · next hok => exact .inr hok.2
      · cases hstep
        exact .inl rfl
    · cases hstep
  | chmod i ok =>
    simp only [step] at hstep
    split at hstep
    · split at hstep <;> cases hstep <;> exact .inl rfl
    · cases hstep
  | shutdown i =>
    simp only [step] at hstep
    split at hstep
    · cases hstep
      exact .inl rfl
    · cases hstep
  | unlink i ok => exact absurd rfl (hnot i ok)
  | crash i =>
    cases hstep
    exact .inl rfl

/-- Who can unlink, and that the path is then gone. -/
theorem unlink_step {w w' : World ι} {i : ι} {ok : Bool}
    (hstep : step w (.unlink i ok) = some w') :
    ((∃ since, (w.engine i).unlinking = some since) ∨
      ∃ number, (w.engine i).listening = some number) ∧
    w'.file = (w.removeFile ok).file := by
  simp only [step] at hstep
  split at hstep
  · next since hi =>
    cases hstep
    exact ⟨.inl ⟨since, by rw [hi]; rfl⟩, rfl⟩
  · next since hi =>
    cases hstep
    exact ⟨.inl ⟨since, by rw [hi]; rfl⟩, rfl⟩
  · next number hi =>
    cases hstep
    exact ⟨.inr ⟨number, by rw [hi]; rfl⟩, rfl⟩
  · cases hstep

/-- An engine that unlinks the path can do so. -/
theorem exists_unlink_step {w : World ι} {i : ι} {since : Nat}
    (hi : (w.engine i).unlinking = some since) (ok : Bool) :
    ∃ w', step w (.unlink i ok) = some w' := by
  cases hengine : w.engine i with
  | refused since' => exact Option.isSome_iff_exists.mp (by simp only [step, hengine]; rfl)
  | abandoned since' => exact Option.isSome_iff_exists.mp (by simp only [step, hengine]; rfl)
  | _ =>
    rw [hengine] at hi
    cases hi

theorem Named.timely_iff {w : World ι} (h : Named w) (e : Event ι) :
    ¬ Steals w e ↔ Timely w e := by
  cases e with
  | unlink i ok =>
    refine ⟨fun hnot hok since hsince j number hj => ?_, ?_⟩
    · subst hok
      refine Nat.not_lt.mp fun _ => hnot ?_
      obtain ⟨w', hstep⟩ := exists_unlink_step hsince true
      refine ⟨j, h.named j number hj, ?_, by rw [hj]; rfl, w', hstep, ?_⟩
      · rintro rfl
        rw [show (w.engine j).listening = none from listening_of_unlinking hsince] at hj
        cases hj
      · rw [(unlink_step hstep).2]
        exact nofun
    · rintro htimely ⟨j, hfile, hne, hlisten, w', hstep, hgone⟩
      obtain ⟨number, hj⟩ := Option.isSome_iff_exists.mp hlisten
      obtain ⟨hi, hafter⟩ := unlink_step hstep
      cases ok with
      | false => exact hgone (hafter.trans hfile)
      | true =>
        rcases hi with ⟨since, hsince⟩ | ⟨number', hi⟩
        · have := htimely rfl since hsince j number hj
          have := h.later i since j number hsince hj
          omega
        · rw [h.alone hi hne] at hj
          cases hj
  | _ =>
    refine iff_of_true ?_ trivial
    rintro ⟨j, hfile, _, _, w', hstep, hgone⟩
    rcases file_step hstep nofun with hsame | hnone
    · exact hgone (hsame.trans hfile)
    · rw [hfile] at hnone
      cases hnone

theorem Named.step {w w' : World ι} (h : Named w) {e : Event ι} (htimely : Timely w e)
    (hstep : step w e = some w') : Named w' := by
  cases e with
  | start i parent =>
    simp only [SocketLifecycle.step] at hstep
    split at hstep
    · cases hstep
      refine h.become (fun number hn => ?_) fun since hs => ?_
      · cases parent <;> cases hn
      · cases parent <;> cases hs
    · cases hstep
  | «exists» i =>
    simp only [SocketLifecycle.step] at hstep
    split at hstep
    · cases hstep
      refine h.become (fun number hn => ?_) fun since hs => ?_
      · split at hn <;> cases hn
      · split at hs <;> cases hs
    · cases hstep
  | probe i answer =>
    simp only [SocketLifecycle.step] at hstep
    split at hstep
    · cases hstep
      refine h.become (fun number hn => ?_) fun since hs => ?_
      · rw [probed_listening] at hn
        cases hn
      · obtain ⟨hsince, hnobody⟩ := h.probed_unlinking hs
        exact ⟨hsince, fun j _ => hnobody j⟩
    · cases hstep
  | bind i ok =>
    simp only [SocketLifecycle.step] at hstep
    split at hstep
    · split at hstep
      · next hok =>
        cases hstep
        exact h.bind hok.2
      · cases hstep
        exact h.become nofun nofun
    · cases hstep
  | chmod i ok =>
    simp only [SocketLifecycle.step] at hstep
    split at hstep
    · next number hi =>
      have hlisten : (w.engine i).listening = some number := by rw [hi]; rfl
      split at hstep
      · cases hstep
        exact h.become (fun _ hn => hlisten.trans hn) nofun
      · cases hstep
        refine h.become nofun fun since hs => ⟨(Option.some.inj hs).symm, fun j hj => ?_⟩
        exact h.alone hlisten hj
    · cases hstep
  | shutdown i =>
    simp only [SocketLifecycle.step] at hstep
    split at hstep
    · next number hi =>
      have hlisten : (w.engine i).listening = some number := by rw [hi]; rfl
      cases hstep
      exact h.become (fun _ hn => hlisten.trans hn) nofun
    · cases hstep
  | unlink i ok =>
    have hnobody : ok = true → ∀ since, (w.engine i).unlinking = some since →
        ∀ j, (w.engine j).listening = none := by
      intro hok since hsince j
      cases hj : (w.engine j).listening with
      | none => rfl
      | some number =>
        have := htimely hok since hsince j number hj
        have := h.later i since j number hsince hj
        omega
    have hunlink : ∀ {e : EngineState}, e.listening = none → e.unlinking = none →
        (ok = true → ∀ j, j ≠ i → (w.engine j).listening = none) →
        Named ((w.removeFile ok).become i e) := by
      intro e hlisten hunlinking hnone
      cases ok with
      | false =>
        refine h.become (fun number hn => ?_) fun since hs => ?_
        · rw [hlisten] at hn
          cases hn
        · rw [hunlinking] at hs
          cases hs
      | true => exact h.unlink hlisten hunlinking (hnone rfl)
    simp only [SocketLifecycle.step] at hstep
    split at hstep
    · next since hi =>
      cases hstep
      refine hunlink ?_ ?_ fun hok j _ => hnobody hok since (by rw [hi]; rfl) j
      · split <;> rfl
      · split <;> rfl
    · next since hi =>
      cases hstep
      exact hunlink rfl rfl fun hok j _ => hnobody hok since (by rw [hi]; rfl) j
    · next number hi =>
      cases hstep
      exact hunlink rfl rfl fun _ j hj => h.alone (by rw [hi]; rfl) hj
    · cases hstep
  | crash i =>
    cases hstep
    exact h.become nofun nofun

/-! ## Runs -/

/-- No engine ever takes the path from another that listens on it, exactly if no engine
unlinks the path after another bound it that still runs. -/
theorem no_steal_iff (left : Option Leftover) (events : List (Event ι)) :
    Meets step (fun w e => ¬ Steals w e) (World.initial left) events ↔
      Meets step Timely (World.initial left) events :=
  meets_congr (fun _ e h => Named.timely_iff h e)
    (fun _ e _ h hnot hstep => h.step ((h.timely_iff e).mp hnot) hstep) (Named.initial left)

/-- Then every engine that listens is the one at the path. -/
theorem named_of_timely {left : Option Leftover} {events : List (Event ι)} {w : World ι}
    (htimely : Meets step Timely (World.initial left) events)
    (hrun : run step (World.initial left) events = some w) {j : ι}
    (hj : (w.engine j).listening.isSome) : w.file = some (.socket j) := by
  have h : Named w :=
    run_invariant_of_meets (fun _ _ _ h ht hstep => h.step ht hstep) (Named.initial left)
      htimely hrun
  obtain ⟨number, hnumber⟩ := Option.isSome_iff_exists.mp hj
  exact h.named j number hnumber

/-- Two engines find the same stale file, and the first binds before the second unlinks. -/
def bothRecover : List (Event (Fin 2)) :=
  [.start 0 true, .start 1 true, .exists 0, .exists 1, .probe 0 true, .probe 1 true,
    .unlink 0 true, .bind 0 true, .chmod 0 true]

/-- The second takes the path of the first, and later the first that of the second. -/
theorem steals_after_both_recover :
    (∃ w, run step (World.initial (some .stale)) bothRecover = some w ∧
      Steals w (.unlink 1 true)) ∧
    ∃ w, run step (World.initial (some .stale))
        (bothRecover ++ [.unlink 1 true, .bind 1 true, .chmod 1 true, .shutdown 0]) = some w ∧
      Steals w (.unlink 0 true) :=
  ⟨⟨_, rfl, 0, rfl, by decide, rfl, _, rfl, nofun⟩,
    ⟨_, rfl, 1, rfl, by decide, rfl, _, rfl, nofun⟩⟩

end SocketLifecycle
end Engine
end Panops
