import Mathlib.Data.Nat.Notation

/-!
# Loops with a bound

A `while` loop whose body may itself run out of turns.  A measure that goes down with
every further turn bounds how many turns are enough, and an invariant of the body
holds when the loop ends.  A loop `for i in 1..=n` needs no bound of its own.
-/

namespace Panops
namespace Lib
namespace Loops

/-- What a turn of the loop comes to. -/
inductive Turn (σ ρ : Type) where
  | again (s : σ)
  | done (r : ρ)
deriving DecidableEq

variable {σ ρ : Type}

/-- At most `fuel` turns; `none` when they are not enough. -/
def runWhile (step : σ → Option (Turn σ ρ)) : Nat → σ → Option ρ
  | 0, _ => none
  | fuel + 1, s =>
    match step s with
    | none => none
    | some (.done r) => some r
    | some (.again s') => runWhile step fuel s'

variable {step : σ → Option (Turn σ ρ)} {fuel : Nat} {s s' : σ} {r : ρ}

theorem runWhile_again (h : step s = some (.again s')) :
    runWhile step (fuel + 1) s = runWhile step fuel s' := by
  rw [runWhile, h]

theorem runWhile_done (h : step s = some (.done r)) : runWhile step (fuel + 1) s = some r := by
  rw [runWhile, h]

/-- A turn ends the loop, or keeps the invariant and makes the measure smaller. -/
def Decreases (step : σ → Option (Turn σ ρ)) (measure : σ → Nat) (inv : σ → Prop) : Prop :=
  ∀ s, inv s → (∃ r, step s = some (.done r)) ∨
    ∃ s', step s = some (.again s') ∧ inv s' ∧ measure s' < measure s

theorem exists_runWhile {measure : σ → Nat} {inv : σ → Prop} (hstep : Decreases step measure inv)
    (hs : inv s) (hfuel : measure s < fuel) : ∃ r, runWhile step fuel s = some r := by
  induction fuel generalizing s with
  | zero => omega
  | succ fuel ih =>
    rcases hstep s hs with ⟨r, hdone⟩ | ⟨s', hagain, hs', hless⟩
    · exact ⟨r, runWhile_done hdone⟩
    · rw [runWhile_again hagain]
      exact ih hs' (by omega)

/-- What every turn keeps, and what follows from it at the end. -/
theorem runWhile_rule {inv : σ → Prop} {post : ρ → Prop}
    (hagain : ∀ s s', inv s → step s = some (.again s') → inv s')
    (hdone : ∀ s r, inv s → step s = some (.done r) → post r) (hs : inv s)
    (h : runWhile step fuel s = some r) : post r := by
  induction fuel generalizing s with
  | zero => cases h
  | succ fuel ih =>
    cases hturn : step s with
    | none =>
      rw [runWhile, hturn] at h
      cases h
    | some turn =>
      cases turn with
      | done r' =>
        rw [runWhile_done hturn] at h
        exact hdone s r hs (Option.some.inj h ▸ hturn)
      | again s' =>
        rw [runWhile_again hturn] at h
        exact ih (hagain s s' hs hturn) h

/-! ## Counting loops -/

/-- `for i in 1..=n`; `none` as soon as a turn fails. -/
def forUpTo (body : Nat → σ → Option σ) : Nat → σ → Option σ
  | 0, s => some s
  | n + 1, s => (forUpTo body n s).bind (body (n + 1))

/-- What holds before the first turn and goes from each turn to the next holds at the
end, and no turn fails. -/
theorem forUpTo_rule {body : Nat → σ → Option σ} (n : Nat) (inv : Nat → σ → Prop)
    (hbody : ∀ i s, i < n → inv i s → ∃ s', body (i + 1) s = some s' ∧ inv (i + 1) s')
    (hs : inv 0 s) : ∃ s', forUpTo body n s = some s' ∧ inv n s' := by
  induction n with
  | zero => exact ⟨s, rfl, hs⟩
  | succ n ih =>
    obtain ⟨mid, hmid, hinv⟩ := ih fun i s hi => hbody i s (by omega)
    obtain ⟨s', hs', hinv'⟩ := hbody n mid (by omega) hinv
    refine ⟨s', ?_, hinv'⟩
    rw [forUpTo, hmid]
    exact hs'

end Loops
end Lib
end Panops
