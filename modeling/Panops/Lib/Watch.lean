/-!
# Watch channels

A channel that keeps the last value only.  A receiver remembers which version it has
seen and sleeps while there is no other one.
-/

namespace Panops
namespace Lib

structure Watch (α : Type) where
  value : α
  version : Nat
deriving DecidableEq

namespace Watch

variable {α : Type}

def new (value : α) : Watch α := ⟨value, 0⟩

def send (value : α) (w : Watch α) : Watch α := ⟨value, w.version + 1⟩

/-- What `changed` has seen when it returns; nothing while it sleeps. -/
def changed (w : Watch α) (seen : Nat) : Option Nat :=
  if seen = w.version then none else some w.version

/-- One who has seen this version and sleeps has no reason to wake up. -/
structure Rests (w : Watch α) (seen : Nat) (P : α → Prop) : Prop where
  le : seen ≤ w.version
  value : seen = w.version → P w.value

variable {w : Watch α} {seen : Nat} {P : α → Prop}

theorem Rests.send (h : w.Rests seen P) (value : α) : (w.send value).Rests seen P where
  le := Nat.le_succ_of_le h.le
  value heq := absurd heq (Nat.ne_of_lt (Nat.lt_succ_of_le h.le))

/-- Going to sleep with the value just read. -/
theorem rests_of_value (hle : seen ≤ w.version) (hvalue : P w.value) : w.Rests seen P :=
  ⟨hle, fun _ => hvalue⟩

theorem changed_eq_some {now : Nat} (h : w.changed seen = some now) :
    now = w.version ∧ seen ≠ w.version := by
  unfold changed at h
  split at h
  · cases h
  · next hne => exact ⟨(Option.some.inj h).symm, hne⟩

theorem changed_eq_none_iff : w.changed seen = none ↔ seen = w.version := by
  unfold changed
  split
  · next heq => exact iff_of_true rfl heq
  · next hne => exact iff_of_false (fun h => by cases h) hne

/-- A wakeup is never lost. -/
theorem Rests.exists_changed (h : w.Rests seen P) (hvalue : ¬ P w.value) :
    w.changed seen = some w.version := by
  unfold changed
  rw [if_neg fun heq => hvalue (h.value heq)]

end Watch

end Lib
end Panops
