import Mathlib.Data.List.Induction
import Mathlib.Data.List.Nodup
import Mathlib.Logic.Function.Basic

/-!
# Copies in sequence

A list of copies, each from a source cell to a target cell, carried out one
after the other.  A copy of a cell onto itself empties it, as with files that
are opened for writing before they are read.
-/

namespace Panops
namespace Lib
namespace Copies

variable {κ β : Type} [DecidableEq κ] [EmptyCollection β]

/-- One copy, from the first cell to the second. -/
def step (m : κ → β) (c : κ × κ) : κ → β :=
  Function.update m c.2 (if c.1 = c.2 then ∅ else m c.1)

def run (cs : List (κ × κ)) (m : κ → β) : κ → β := cs.foldl step m

@[simp] theorem run_nil (m : κ → β) : run [] m = m := rfl

@[simp] theorem run_cons (c : κ × κ) (cs : List (κ × κ)) (m : κ → β) :
    run (c :: cs) m = run cs (step m c) := rfl

theorem run_concat (cs : List (κ × κ)) (c : κ × κ) (m : κ → β) :
    run (cs ++ [c]) m = step (run cs m) c := by
  rw [run, List.foldl_append]
  rfl

/-- A cell that no copy writes keeps its value. -/
theorem run_of_not_mem {cs : List (κ × κ)} {k : κ} (h : ∀ c ∈ cs, c.2 ≠ k) (m : κ → β) :
    run cs m k = m k := by
  induction cs generalizing m with
  | nil => rfl
  | cons c cs ih =>
    rw [run_cons, ih (fun d hd => h d (List.mem_cons_of_mem c hd))]
    exact Function.update_of_ne (h c List.mem_cons_self).symm _ _

/-- Values that agree on the sources lead to values that agree on the targets. -/
theorem run_congr {cs : List (κ × κ)} {m m' : κ → β} (h : ∀ c ∈ cs, m c.1 = m' c.1) {k : κ}
    (hk : m k = m' k ∨ ∃ c ∈ cs, c.2 = k) : run cs m k = run cs m' k := by
  induction cs generalizing m m' with
  | nil => simpa using hk
  | cons c cs ih =>
    have hstep : ∀ k, m k = m' k ∨ c.2 = k → step m c k = step m' c k := by
      intro k hk
      by_cases heq : k = c.2
      · rw [heq, step, step, Function.update_self, Function.update_self, h c List.mem_cons_self]
      · rw [step, step, Function.update_of_ne heq, Function.update_of_ne heq]
        exact hk.resolve_right (Ne.symm heq)
    rw [run_cons, run_cons]
    refine ih (fun d hd => hstep d.1 (Or.inl (h d (List.mem_cons_of_mem c hd)))) ?_
    rcases hk with hk | ⟨d, hd, hdk⟩
    · exact Or.inl (hstep k (Or.inl hk))
    · rcases List.mem_cons.mp hd with hd | hd
      · exact Or.inl (hstep k (Or.inr (hd ▸ hdk)))
      · exact Or.inr ⟨d, hd, hdk⟩

/-- No copy reads a cell that it or an earlier copy writes. -/
def Clean (cs : List (κ × κ)) : Prop :=
  (cs.Pairwise fun a b => b.1 ≠ a.2) ∧ ∀ c ∈ cs, c.1 ≠ c.2

/-- Every target ends up with what its source held before all copies. -/
def Faithful (cs : List (κ × κ)) (m : κ → β) : Prop := ∀ c ∈ cs, run cs m c.2 = m c.1

omit [DecidableEq κ] in
theorem clean_concat {cs : List (κ × κ)} {c : κ × κ} :
    Clean (cs ++ [c]) ↔ Clean cs ∧ c.1 ≠ c.2 ∧ ∀ d ∈ cs, c.1 ≠ d.2 := by
  constructor
  · intro h
    obtain ⟨hpair, hself⟩ := h
    obtain ⟨hpre, _, hlast⟩ := List.pairwise_append.mp hpair
    exact ⟨⟨hpre, fun d hd => hself d (List.mem_append_left _ hd)⟩, hself c (by simp),
      fun d hd => hlast d hd c (by simp)⟩
  · intro h
    obtain ⟨⟨hpre, hself⟩, hc, hlast⟩ := h
    refine ⟨List.pairwise_append.mpr ⟨hpre, List.pairwise_singleton _ _, ?_⟩, ?_⟩
    · simpa using fun a b hd => hlast (a, b) hd
    · intro d hd
      rcases List.mem_append.mp hd with hd | hd
      · exact hself d hd
      · obtain rfl := List.mem_singleton.mp hd
        exact hc

/-- The targets of all but the last copy are not touched by the last one. -/
theorem run_concat_of_mem {cs : List (κ × κ)} {c d : κ × κ}
    (hnodup : ((cs ++ [c]).map Prod.snd).Nodup) (hd : d ∈ cs) (m : κ → β) :
    run (cs ++ [c]) m d.2 = run cs m d.2 := by
  have hne : d.2 ≠ c.2 := by
    rw [List.map_append, List.nodup_append] at hnodup
    exact hnodup.2.2 d.2 (List.mem_map_of_mem hd) c.2 (by simp)
  rw [run_concat]
  exact Function.update_of_ne hne _ _

theorem faithful_of_clean {cs : List (κ × κ)} (hnodup : (cs.map Prod.snd).Nodup)
    (hclean : Clean cs) (m : κ → β) : Faithful cs m := by
  induction cs using List.reverseRecOn with
  | nil => simp [Faithful]
  | append_singleton cs c ih =>
    obtain ⟨hpre, hself, hlast⟩ := clean_concat.mp hclean
    have hnodup' : (cs.map Prod.snd).Nodup := by
      rw [List.map_append] at hnodup
      exact (List.nodup_append.mp hnodup).1
    intro d hd
    rcases List.mem_append.mp hd with hd | hd
    · rw [run_concat_of_mem hnodup hd]
      exact ih hnodup' hpre d hd
    · obtain rfl := List.mem_singleton.mp hd
      show run (cs ++ [d]) m d.2 = m d.1
      rw [run_concat, step, Function.update_self, if_neg hself]
      exact run_of_not_mem (fun e he => (hlast e he).symm) m

/-- Copies that are faithful whatever the cells hold are clean: two values tell
a source from the cell it is mistaken for. -/
theorem clean_of_faithful {x y : β} (hxy : x ≠ y) (hx : x ≠ ∅) {cs : List (κ × κ)}
    (hnodup : (cs.map Prod.snd).Nodup) (h : ∀ m : κ → β, Faithful cs m) : Clean cs := by
  induction cs using List.reverseRecOn with
  | nil => exact ⟨List.Pairwise.nil, by simp⟩
  | append_singleton cs c ih =>
    have hnodup' : (cs.map Prod.snd).Nodup := by
      rw [List.map_append] at hnodup
      exact (List.nodup_append.mp hnodup).1
    have hpre : Clean cs := by
      refine ih hnodup' fun m d hd => ?_
      rw [← run_concat_of_mem hnodup hd]
      exact h m d (List.mem_append_left _ hd)
    have hlast : ∀ m : κ → β, step (run cs m) c c.2 = m c.1 := by
      intro m
      rw [← run_concat]
      exact h m c (by simp)
    -- a copy onto itself would empty a cell that held `x`
    have hself : c.1 ≠ c.2 := by
      intro heq
      have hempty := hlast fun _ => x
      rw [step, Function.update_self, if_pos heq] at hempty
      exact hx hempty.symm
    -- an earlier copy would have put `x` where the source held `y`
    refine clean_concat.mpr ⟨hpre, hself, fun d hd heq => ?_⟩
    have hkept := hlast (Function.update (fun _ => x) c.1 y)
    rw [step, Function.update_self, if_neg hself, heq,
      faithful_of_clean hnodup' hpre _ d hd, Function.update_self,
      Function.update_of_ne (hpre.2 d hd)] at hkept
    exact hxy hkept

end Copies
end Lib
end Panops
