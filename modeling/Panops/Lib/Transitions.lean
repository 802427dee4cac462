/-!
# Systems that take steps

A system is a function from a state and a label to the next state, if the step can
be taken.  What each step keeps, a whole run keeps.
-/

namespace Panops
namespace Lib
namespace Transitions

-- By name, so that a numeral of `Fin 2` or `Fin 3` carries no proof of its own.
instance (priority := high) neZero_two : @NeZero Nat Zero.ofOfNat0 2 := ⟨Nat.succ_ne_zero 1⟩

instance (priority := high) neZero_three : @NeZero Nat Zero.ofOfNat0 3 := ⟨Nat.succ_ne_zero 2⟩

variable {σ α : Type}

/-- The state after the steps, when each of them can be taken. -/
def run (step : σ → α → Option σ) (s : σ) : List α → Option σ
  | [] => some s
  | a :: as =>
    match step s a with
    | none => none
    | some s' => run step s' as

/-- Every step of the run meets `ok` in the state that it is taken in. -/
def Meets (step : σ → α → Option σ) (ok : σ → α → Prop) (s : σ) : List α → Prop
  | [] => True
  | a :: as =>
    ok s a ∧
      match step s a with
      | none => True
      | some s' => Meets step ok s' as

instance decidableMeets (step : σ → α → Option σ) (ok : σ → α → Prop)
    [∀ s a, Decidable (ok s a)] : ∀ s as, Decidable (Meets step ok s as)
  | _, [] => inferInstanceAs (Decidable True)
  | s, a :: as =>
    have : Decidable (match step s a with | none => True | some s' => Meets step ok s' as) :=
      match step s a with
      | none => inferInstanceAs (Decidable True)
      | some s' => decidableMeets step ok s' as
    inferInstanceAs (Decidable (ok s a ∧ _))

variable {step : σ → α → Option σ} {s s' : σ} {as bs : List α}

theorem run_append : run step s (as ++ bs) = (run step s as).bind fun s' => run step s' bs := by
  induction as generalizing s with
  | nil => rfl
  | cons a as ih =>
    rw [List.cons_append, run, run]
    cases step s a with
    | none => rfl
    | some s₁ => exact ih

theorem meets_append {ok : σ → α → Prop} (hrun : run step s as = some s') :
    Meets step ok s (as ++ bs) ↔ Meets step ok s as ∧ Meets step ok s' bs := by
  induction as generalizing s with
  | nil =>
    cases hrun
    simp [Meets]
  | cons a as ih =>
    unfold run at hrun
    cases hnext : step s a with
    | none => simp [hnext] at hrun
    | some s₁ =>
      simp only [hnext] at hrun
      simp only [List.cons_append, Meets, hnext, ih hrun, and_assoc]

theorem Meets.cons {ok : σ → α → Prop} {a : α} (hok : ok s a) (hnext : step s a = some s')
    (hrest : Meets step ok s' as) : Meets step ok s (a :: as) := by
  refine ⟨hok, ?_⟩
  rw [hnext]
  exact hrest

theorem Meets.mono {ok ok' : σ → α → Prop} (hmeets : Meets step ok s as)
    (h : ∀ s a, ok s a → ok' s a) : Meets step ok' s as := by
  induction as generalizing s with
  | nil => trivial
  | cons a as ih =>
    refine ⟨h s a hmeets.1, ?_⟩
    have hrest := hmeets.2
    cases hnext : step s a with
    | none => trivial
    | some s₁ =>
      simp only [hnext] at hrest
      exact ih hrest

theorem run_invariant_of_meets {ok : σ → α → Prop} {I : σ → Prop}
    (hstep : ∀ s a s', I s → ok s a → step s a = some s' → I s')
    (hs : I s) (hmeets : Meets step ok s as) (hrun : run step s as = some s') : I s' := by
  induction as generalizing s with
  | nil =>
    cases hrun
    exact hs
  | cons a as ih =>
    unfold run at hrun
    unfold Meets at hmeets
    cases hnext : step s a with
    | none => simp [hnext] at hrun
    | some s₁ =>
      simp only [hnext] at hrun hmeets
      exact ih (hstep s a s₁ hs hmeets.1 hnext) hmeets.2 hrun

/-- Two conditions that agree wherever the invariant holds, which the first keeps. -/
theorem meets_congr {ok ok' : σ → α → Prop} {I : σ → Prop}
    (hiff : ∀ s a, I s → (ok s a ↔ ok' s a))
    (hstep : ∀ s a s', I s → ok s a → step s a = some s' → I s') (hs : I s) :
    Meets step ok s as ↔ Meets step ok' s as := by
  induction as generalizing s with
  | nil => exact Iff.rfl
  | cons a as ih =>
    unfold Meets
    rw [← hiff s a hs]
    refine and_congr_right fun hok => ?_
    cases hnext : step s a with
    | none => exact Iff.rfl
    | some s₁ => exact ih (hstep s a s₁ hs hok hnext)

theorem meets_of_mem {ok : α → Prop} (h : ∀ a ∈ as, ok a) : Meets step (fun _ => ok) s as := by
  induction as generalizing s with
  | nil => trivial
  | cons a as ih =>
    refine ⟨h a List.mem_cons_self, ?_⟩
    cases step s a with
    | none => trivial
    | some s₁ => exact ih fun b hb => h b (List.mem_cons_of_mem a hb)

/-- The first step meets `ok` where it is taken, the others wherever they are. -/
theorem meets_cons_of_mem {ok : σ → α → Prop} {a : α} (ha : ok s a)
    (h : ∀ b ∈ as, ∀ s, ok s b) : Meets step ok s (a :: as) := by
  refine ⟨ha, ?_⟩
  cases step s a with
  | none => trivial
  | some s₁ =>
    have hall : Meets step (fun _ b => ∀ s, ok s b) s₁ as := meets_of_mem h
    exact hall.mono fun s b hb => hb s

theorem run_invariant {I : σ → Prop} (hstep : ∀ s a s', I s → step s a = some s' → I s')
    (hs : I s) (hrun : run step s as = some s') : I s' :=
  @run_invariant_of_meets σ α step s s' as (fun _ _ => True) I
    (fun s a s' hI _ hnext => hstep s a s' hI hnext) hs (meets_of_mem fun _ _ => trivial) hrun

/-! ## Steps with those before them -/

end Transitions
end Lib
end Panops
