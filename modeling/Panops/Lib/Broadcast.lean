import Mathlib.Data.List.Basic

/-!
# Broadcast channels

Every receiver reads the same log from a position of its own.  The channel keeps the
last `capacity` values: a receiver that has fallen behind them is told how many it has
missed and goes on with the oldest that is kept.
-/

namespace Panops
namespace Lib
namespace Broadcast

variable {α : Type}

/-- What a receiver is given. -/
inductive Item (α : Type) where
  | value (a : α)
  | lagged (n : Nat)
deriving DecidableEq

def Item.toValue : Item α → Option α
  | .value a => some a
  | .lagged _ => none

/-- Nothing while there is nothing to receive. -/
def recv (capacity : Nat) (log : List α) (next : Nat) : Option (Item α × Nat) :=
  if next + capacity < log.length then
    some (.lagged (log.length - capacity - next), log.length - capacity)
  else log[next]?.map fun a => (.value a, next + 1)

/-- The items stand for the segment of the log, value for value or for a stretch of it. -/
inductive Accounts : List (Item α) → List α → Prop
  | nil : Accounts [] []
  | value {items : List (Item α)} {segment : List α} (a : α) :
      Accounts items segment → Accounts (.value a :: items) (a :: segment)
  | lagged {items : List (Item α)} {segment : List α} (missed : List α) :
      Accounts items segment → Accounts (.lagged missed.length :: items) (missed ++ segment)

namespace Accounts

variable {items more : List (Item α)} {segment rest : List α}

theorem append (h : Accounts items segment) (hmore : Accounts more rest) :
    Accounts (items ++ more) (segment ++ rest) := by
  induction h with
  | nil => exact hmore
  | value a _ ih => exact ih.value a
  | lagged missed _ ih =>
    rw [List.append_assoc]
    exact ih.lagged missed

/-- What is received is part of what was sent, in its order. -/
theorem sublist (h : Accounts items segment) :
    (items.filterMap Item.toValue).Sublist segment := by
  induction h with
  | nil => exact List.Sublist.refl []
  | value a _ ih => exact ih.cons_cons a
  | lagged missed _ ih => exact ih.trans (List.sublist_append_right missed _)

/-- A receiver that never fell behind has received everything. -/
theorem eq_of_not_lagged (h : Accounts items segment)
    (hlag : ∀ n, .lagged n ∉ items) : items.filterMap Item.toValue = segment := by
  induction h with
  | nil => rfl
  | value a _ ih =>
    show a :: _ = a :: _
    rw [ih fun n hn => hlag n (List.mem_cons_of_mem _ hn)]
  | lagged missed => exact absurd List.mem_cons_self (hlag _)

end Accounts

/-- The values of the log from one position up to another one. -/
def between (log : List α) (start next : Nat) : List α := (log.take next).drop start

theorem length_between {log : List α} {start next : Nat} (hnext : next ≤ log.length) :
    (between log start next).length = next - start := by
  rw [between, List.length_drop, List.length_take, Nat.min_eq_left hnext]

theorem between_self (log : List α) (start : Nat) : between log start start = [] := by
  rw [between, List.drop_eq_nil_iff, List.length_take]
  exact Nat.min_le_left _ _

theorem between_append {log : List α} {start next : Nat} (more : List α)
    (hnext : next ≤ log.length) : between (log ++ more) start next = between log start next := by
  rw [between, between, List.take_append_of_le_length hnext]

theorem between_length (log : List α) (start : Nat) :
    between log start log.length = log.drop start := by
  rw [between, List.take_length]

theorem between_trans {log : List α} {start next stop : Nat} (hstart : start ≤ next)
    (hnext : next ≤ stop) (hstop : stop ≤ log.length) :
    between log start next ++ between log next stop = between log start stop := by
  have htake : log.take next = (log.take stop).take next := by
    rw [List.take_take, Nat.min_eq_left hnext]
  have hle : start ≤ ((log.take stop).take next).length := by
    rw [List.length_take, List.length_take]
    omega
  rw [between, between, between, htake, ← List.drop_append_of_le_length hle,
    List.take_append_drop]

section Recv

variable {capacity next next' : Nat} {log : List α} {item : Item α}

/-- A receiver goes forward, and what it is given stands for what it passes. -/
theorem recv_accounts (h : recv capacity log next = some (item, next')) :
    next < next' ∧ next' ≤ log.length ∧ Accounts [item] (between log next next') := by
  unfold recv at h
  split at h
  · next hlag =>
    cases h
    have hlt : next < log.length - capacity := by omega
    refine ⟨hlt, Nat.sub_le _ _, ?_⟩
    have hlength := @length_between _ log next (log.length - capacity) (Nat.sub_le _ _)
    have haccounts := Accounts.lagged (between log next (log.length - capacity)) (@Accounts.nil α)
    rw [List.append_nil, hlength] at haccounts
    exact haccounts
  · obtain ⟨a, ha, heq⟩ := Option.map_eq_some_iff.mp h
    cases heq
    obtain ⟨hlt, rfl⟩ := List.getElem?_eq_some_iff.mp ha
    refine ⟨Nat.lt_succ_self next, hlt, ?_⟩
    have hle : next ≤ (log.take next).length := by
      rw [List.length_take]
      omega
    have hone : between log next (next + 1) = [log[next]] := by
      rw [between, ← List.take_append_getElem hlt, List.drop_append_of_le_length hle,
        List.drop_take_self, List.nil_append]
    rw [hone]
    exact .value _ .nil

/-- Only one who is more than the capacity behind misses a value. -/
theorem lt_of_recv_lagged {n : Nat} (h : recv capacity log next = some (.lagged n, next')) :
    next + capacity < log.length := by
  unfold recv at h
  split at h
  · assumption
  · obtain ⟨a, -, heq⟩ := Option.map_eq_some_iff.mp h
    cases heq

/-- Whoever has not received everything can receive. -/
theorem exists_recv (h : next < log.length) : ∃ item next', recv capacity log next =
    some (item, next') := by
  unfold recv
  split
  · exact ⟨_, _, rfl⟩
  · rw [List.getElem?_eq_getElem h]
    exact ⟨_, _, rfl⟩

end Recv

end Broadcast
end Lib
end Panops
