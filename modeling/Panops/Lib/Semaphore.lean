import Mathlib.Data.List.Nodup
import Mathlib.Data.List.Perm.Subperm

/-!
# Counting semaphores

Those who ask for a permit wait in a queue, and a permit goes to the first of them.
A closed semaphore hands out no permits; those given out before still come back.
-/

namespace Panops
namespace Lib

structure Semaphore (ι : Type) where
  permits : Nat
  closed : Bool
  waiters : List ι

namespace Semaphore

variable {ι : Type}

def new (permits : Nat) : Semaphore ι := ⟨permits, false, []⟩

def join (i : ι) (s : Semaphore ι) : Semaphore ι := { s with waiters := s.waiters ++ [i] }

def close (s : Semaphore ι) : Semaphore ι := { s with closed := true }

def release (s : Semaphore ι) : Semaphore ι := { s with permits := s.permits + 1 }

variable [DecidableEq ι]

/-- The waiter leaves with a permit. -/
def grant (i : ι) (s : Semaphore ι) : Option (Semaphore ι) :=
  if s.closed = false ∧ s.permits ≠ 0 ∧ s.waiters.head? = some i then
    some { s with permits := s.permits - 1, waiters := s.waiters.tail }
  else none

/-- The waiter leaves with an error. -/
def refuse (i : ι) (s : Semaphore ι) : Option (Semaphore ι) :=
  if s.closed = true ∧ i ∈ s.waiters then some { s with waiters := s.waiters.erase i } else none

theorem grant_eq_some_iff {i : ι} {s s' : Semaphore ι} :
    s.grant i = some s' ↔ ∃ permits waiters,
      s = ⟨permits + 1, false, i :: waiters⟩ ∧ s' = ⟨permits, false, waiters⟩ := by
  obtain ⟨permits, closed, waiters⟩ := s
  cases waiters with
  | nil => simp [grant]
  | cons j rest =>
    cases permits with
    | zero => simp [grant]
    | succ n =>
      simp only [grant, List.head?_cons, List.tail_cons]
      grind

theorem refuse_eq_some_iff {i : ι} {s s' : Semaphore ι} :
    s.refuse i = some s' ↔
      s.closed = true ∧ i ∈ s.waiters ∧ s' = { s with waiters := s.waiters.erase i } := by
  simp only [refuse]
  grind

/-! ## Permits -/

/-- `n` permits in all, each of them in the semaphore or with one of the holders. -/
def Keeps (n : Nat) (s : Semaphore ι) (holds : ι → Prop) : Prop :=
  ∃ holders : List ι, holders.Nodup ∧ (∀ i, i ∈ holders ↔ holds i) ∧ holders.length + s.permits = n

variable {n : Nat} {s s' : Semaphore ι} {holds holds' : ι → Prop} {i : ι}

omit [DecidableEq ι] in
theorem keeps_new : Keeps n (new n : Semaphore ι) fun _ => False :=
  ⟨[], List.nodup_nil, by simp, by simp [new]⟩

omit [DecidableEq ι] in
theorem Keeps.congr (h : Keeps n s holds) (hpermits : s'.permits = s.permits)
    (hholds : ∀ i, holds' i ↔ holds i) : Keeps n s' holds' := by
  obtain ⟨holders, hnodup, hmem, hlength⟩ := h
  exact ⟨holders, hnodup, fun i => (hmem i).trans (hholds i).symm, hpermits ▸ hlength⟩

theorem Keeps.grant (h : Keeps n s holds) (hgrant : s.grant i = some s') (hi : ¬ holds i)
    (hholds : ∀ j, holds' j ↔ j = i ∨ holds j) : Keeps n s' holds' := by
  obtain ⟨holders, hnodup, hmem, hlength⟩ := h
  obtain ⟨permits, waiters, rfl, rfl⟩ := grant_eq_some_iff.mp hgrant
  refine ⟨i :: holders, ?_, ?_, ?_⟩
  · exact List.nodup_cons.mpr ⟨fun hin => hi ((hmem i).mp hin), hnodup⟩
  · intro j
    rw [List.mem_cons, hmem, hholds]
  · rw [List.length_cons]
    dsimp only at hlength ⊢
    omega

theorem Keeps.release (h : Keeps n s holds) (hi : holds i)
    (hholds : ∀ j, holds' j ↔ j ≠ i ∧ holds j) : Keeps n s.release holds' := by
  obtain ⟨holders, hnodup, hmem, hlength⟩ := h
  have hin : i ∈ holders := (hmem i).mpr hi
  refine ⟨holders.erase i, hnodup.erase i, ?_, ?_⟩
  · intro j
    rw [hnodup.mem_erase_iff, hmem, hholds]
  · have hpos := List.length_pos_of_mem hin
    rw [List.length_erase_of_mem hin]
    dsimp only [Semaphore.release]
    omega

omit [DecidableEq ι] in
/-- Never more holders at once than permits. -/
theorem Keeps.length_le (h : Keeps n s holds) {l : List ι} (hl : l.Nodup)
    (hall : ∀ i ∈ l, holds i) : l.length ≤ n := by
  obtain ⟨holders, hnodup, hmem, hlength⟩ := h
  have hsub : l.Subperm holders :=
    List.subperm_of_subset hl fun i hi => (hmem i).mpr (hall i hi)
  have hle := hsub.length_le
  omega

omit [DecidableEq ι] in
theorem Keeps.exists_holder (h : Keeps n s holds) (hn : n ≠ 0) (hpermits : s.permits = 0) :
    ∃ i, holds i := by
  obtain ⟨holders, -, hmem, hlength⟩ := h
  cases holders with
  | nil => simp only [List.length_nil] at hlength; omega
  | cons i rest => exact ⟨i, (hmem i).mp List.mem_cons_self⟩

/-! ## The queue -/

/-- The queue has each of those who wait once. -/
structure Queues (s : Semaphore ι) (waits : ι → Prop) : Prop where
  nodup : s.waiters.Nodup
  mem : ∀ i, i ∈ s.waiters ↔ waits i

variable {waits waits' : ι → Prop}

omit [DecidableEq ι] in
theorem queues_new : Queues (new n : Semaphore ι) fun _ => False :=
  ⟨List.nodup_nil, by simp [new]⟩

omit [DecidableEq ι] in
theorem Queues.congr (h : Queues s waits) (hwaiters : s'.waiters = s.waiters)
    (hwaits : ∀ i, waits' i ↔ waits i) : Queues s' waits' :=
  ⟨hwaiters ▸ h.nodup, fun i => by rw [hwaiters, h.mem, hwaits]⟩

omit [DecidableEq ι] in
theorem Queues.join (h : Queues s waits) (hi : ¬ waits i)
    (hwaits : ∀ j, waits' j ↔ j = i ∨ waits j) : Queues (s.join i) waits' where
  nodup := by
    have hnot : i ∉ s.waiters := fun hin => hi ((h.mem i).mp hin)
    show (s.waiters ++ [i]).Nodup
    rw [List.nodup_append]
    refine ⟨h.nodup, List.nodup_singleton i, fun a ha b hb hab => hnot ?_⟩
    rw [List.mem_singleton] at hb
    exact hb ▸ hab ▸ ha
  mem j := by
    show j ∈ s.waiters ++ [i] ↔ waits' j
    rw [List.mem_append, List.mem_singleton, h.mem, hwaits, or_comm]

theorem Queues.grant (h : Queues s waits) (hgrant : s.grant i = some s')
    (hwaits : ∀ j, waits' j ↔ j ≠ i ∧ waits j) : Queues s' waits' := by
  obtain ⟨permits, waiters, rfl, rfl⟩ := grant_eq_some_iff.mp hgrant
  obtain ⟨hnodup, hmem⟩ := h
  obtain ⟨hnot, hrest⟩ := List.nodup_cons.mp hnodup
  refine ⟨hrest, fun j => ?_⟩
  have hj := hmem j
  rw [List.mem_cons] at hj
  rw [hwaits, ← hj]
  constructor
  · intro hin
    exact ⟨fun heq => hnot (heq ▸ hin), Or.inr hin⟩
  · intro ⟨hne, hin⟩
    exact hin.resolve_left hne

theorem Queues.refuse (h : Queues s waits) (hrefuse : s.refuse i = some s')
    (hwaits : ∀ j, waits' j ↔ j ≠ i ∧ waits j) : Queues s' waits' := by
  obtain ⟨-, -, rfl⟩ := refuse_eq_some_iff.mp hrefuse
  refine ⟨h.nodup.erase i, fun j => ?_⟩
  rw [h.nodup.mem_erase_iff, h.mem, hwaits]

/-- An open semaphore that has a permit gives it to the first in the queue. -/
theorem exists_grant (hopen : s.closed = false) (hpermits : s.permits ≠ 0)
    (hwaiters : s.waiters ≠ []) : ∃ i s', i ∈ s.waiters ∧ s.grant i = some s' := by
  cases hs : s.waiters with
  | nil => exact absurd hs hwaiters
  | cons i rest => exact ⟨i, _, List.mem_cons_self, if_pos ⟨hopen, hpermits, by simp [hs]⟩⟩

end Semaphore
end Lib
end Panops
