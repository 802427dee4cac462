import Panops.Lib.Database

/-!
# Programs that are run again until they complete

A program that is not one transaction may stop after any of its statements, and
is then run again from what it left.  It recovers when every state it can stop in
is one it can go on from, and when running it again after it has completed
changes nothing.
-/

namespace Panops
namespace Lib
namespace Database
namespace Db

variable {σ ε α : Type}

/-- The tables after a number of runs, each with its own faults. -/
def rerun (x : Db σ ε α) (t : σ) (runs : List (List (Option String))) : σ :=
  runs.foldl (fun t faults => (x ⟨t, faults⟩).2.tables) t

/-- A run has completed its work, or it was stopped by a fault. -/
def Progress (F : Prop) (Pending Done : σ → Prop) (r : Except ε α) (t : σ) : Prop :=
  ((∃ a, r = .ok a) ∧ Done t) ∨ (F ∧ (∃ e, r = .error e) ∧ (Pending t ∨ Done t))

/-- From a pending state a run completes the work or leaves a pending state, and
when the work is done a run changes nothing. -/
structure Recovers (x : Db σ ε α) (Pending Done : σ → Prop) : Prop where
  resumes : ∀ (F : Prop) t, Pending t → wp F x (Progress F Pending Done) t
  rests : ∀ (F : Prop) t, Done t → wp F x (fun r t' => t' = t ∧ (F ∨ ∃ a, r = .ok a)) t

variable {x : Db σ ε α} {Pending Done : σ → Prop} {t : σ}

theorem Progress.of_ok {F : Prop} {a : α} (h : Done t) :
    Progress F Pending Done (.ok a : Except ε α) t :=
  Or.inl ⟨⟨a, rfl⟩, h⟩

theorem Progress.of_fault {F : Prop} {e : ε} (hF : F) (h : Pending t ∨ Done t) :
    Progress F Pending Done (.error e : Except ε α) t :=
  Or.inr ⟨hF, ⟨e, rfl⟩, h⟩

theorem Recovers.run (h : Recovers x Pending Done) (ht : Pending t ∨ Done t)
    (faults : List (Option String)) :
    Progress True Pending Done (x ⟨t, faults⟩).1 (x ⟨t, faults⟩).2.tables := by
  rcases ht with hpending | hdone
  · exact (h.resumes True t hpending faults (Or.inr trivial)).1
  · obtain ⟨⟨hsame, -⟩, -⟩ := h.rests True t hdone faults (Or.inr trivial)
    rw [hsame]
    cases hr : (x ⟨t, faults⟩).1 with
    | ok a => exact Progress.of_ok hdone
    | error e => exact Progress.of_fault trivial (Or.inr hdone)

/-- However often the program was stopped, what it left can be gone on from. -/
theorem Recovers.rerun (h : Recovers x Pending Done) (ht : Pending t ∨ Done t)
    (runs : List (List (Option String))) :
    Pending (rerun x t runs) ∨ Done (rerun x t runs) := by
  induction runs generalizing t with
  | nil => exact ht
  | cons faults rest ih =>
    refine ih ?_
    rcases h.run ht faults with ⟨-, hdone⟩ | ⟨-, -, hleft⟩
    · exact Or.inr hdone
    · exact hleft

/-- A run without faults completes. -/
theorem Recovers.completes (h : Recovers x Pending Done) (ht : Pending t ∨ Done t) :
    ∃ a, (x ⟨t, []⟩).1 = .ok a := by
  rcases ht with hpending | hdone
  · rcases (h.resumes False t hpending [] (Or.inl rfl)).1 with ⟨hok, -⟩ | ⟨hF, -⟩
    · exact hok
    · exact hF.elim
  · obtain ⟨⟨-, hF | hok⟩, -⟩ := h.rests False t hdone [] (Or.inl rfl)
    · exact hF.elim
    · exact hok

theorem Recovers.done_of_ok (h : Recovers x Pending Done) (ht : Pending t ∨ Done t)
    {faults : List (Option String)} {a : α} (hok : (x ⟨t, faults⟩).1 = .ok a) :
    Done (x ⟨t, faults⟩).2.tables := by
  rcases h.run ht faults with ⟨-, hdone⟩ | ⟨-, ⟨e, herror⟩, -⟩
  · exact hdone
  · rw [hok] at herror
    cases herror

/-- Once the work is done, no further run changes anything. -/
theorem Recovers.rerun_done (h : Recovers x Pending Done) (ht : Done t)
    (runs : List (List (Option String))) : Db.rerun x t runs = t := by
  induction runs with
  | nil => rfl
  | cons faults rest ih =>
    obtain ⟨⟨hsame, -⟩, -⟩ := h.rests True t ht faults (Or.inr trivial)
    show Db.rerun x (x ⟨t, faults⟩).2.tables rest = t
    rw [hsame]
    exact ih

end Db
end Database
end Lib
end Panops
