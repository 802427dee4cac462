import Mathlib.Data.Nat.Notation

/-!
# Recursion by its body

A recursive function is given by its body, which is handed the function to call again.
Unrolled often enough for a measure that every call makes smaller, it satisfies the
equation that the source writes.
-/

namespace Panops
namespace Lib
namespace Unrolling

variable {α β : Type}

def unroll (body : (α → β) → α → β) (bottom : β) : Nat → α → β
  | 0, _ => bottom
  | n + 1, a => body (unroll body bottom n) a

/-- Unrolled once more than the measure of its argument. -/
def fix (body : (α → β) → α → β) (bottom : β) (measure : α → Nat) (a : α) : β :=
  unroll body bottom (measure a + 1) a

/-- The body calls again with smaller arguments only. -/
def CallsSmaller (body : (α → β) → α → β) (measure : α → Nat) : Prop :=
  ∀ (go go' : α → β) (a : α), (∀ b, measure b < measure a → go b = go' b) → body go a = body go' a

variable {body : (α → β) → α → β} {bottom : β} {measure : α → Nat}

theorem unroll_eq_unroll (h : CallsSmaller body measure) {m n : Nat} {a : α} (hm : measure a < m)
    (hn : measure a < n) : unroll body bottom m a = unroll body bottom n a := by
  induction m generalizing n a with
  | zero => omega
  | succ m ih =>
    cases n with
    | zero => omega
    | succ n => exact h _ _ a fun b hb => ih (by omega) (by omega)

/-- The equation of the source. -/
theorem fix_eq (h : CallsSmaller body measure) (a : α) :
    fix body bottom measure a = body (fix body bottom measure) a :=
  h _ _ a fun _ hb => unroll_eq_unroll h hb (Nat.lt_succ_self _)

/-- What the body keeps when it holds of all smaller calls holds of the function. -/
theorem fix_rule (P : α → β → Prop) (h : CallsSmaller body measure)
    (hbody : ∀ a, (∀ b, measure b < measure a → P b (fix body bottom measure b)) →
      P a (body (fix body bottom measure) a)) (a : α) : P a (fix body bottom measure a) := by
  induction hm : measure a using Nat.strongRecOn generalizing a with
  | ind m ih =>
    rw [fix_eq h]
    exact hbody a fun b hb => ih (measure b) (hm ▸ hb) b rfl

end Unrolling
end Lib
end Panops
