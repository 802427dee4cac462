import Mathlib.Data.List.Forall2
import Panops.Lib.Transitions

/-!
# Simulation

A system whose every step is matched by a step of another one.
-/

namespace Panops
namespace Lib
namespace Transitions

variable {σ α σ' α' : Type} {step : σ → α → Option σ} {step' : σ' → α' → Option σ'}
  {R : σ → σ' → Prop} {M : α → α' → Prop}

/-- What one step of a system is matched by, its runs are. -/
theorem run_simulated
    (hstep : ∀ s t a s₁, R s t → step s a = some s₁ →
      ∃ b t₁, M a b ∧ step' t b = some t₁ ∧ R s₁ t₁)
    {s s' : σ} {t : σ'} {as : List α} (hR : R s t) (hrun : run step s as = some s') :
    ∃ bs t', List.Forall₂ M as bs ∧ run step' t bs = some t' ∧ R s' t' := by
  induction as generalizing s t with
  | nil =>
    cases hrun
    exact ⟨[], t, .nil, rfl, hR⟩
  | cons a as ih =>
    unfold run at hrun
    cases hnext : step s a with
    | none => simp [hnext] at hrun
    | some s₁ =>
      simp only [hnext] at hrun
      obtain ⟨b, t₁, hM, hnext', hR₁⟩ := hstep s t a s₁ hR hnext
      obtain ⟨bs, t', hMs, hrun', hR'⟩ := ih hR₁ hrun
      refine ⟨b :: bs, t', .cons hM hMs, ?_, hR'⟩
      rw [run, hnext']
      exact hrun'

end Transitions
end Lib
end Panops
