import Mathlib.Data.List.Induction

/-!
# Loops over the places of a list

A loop `for i in 0..n` that changes the element at `i` and may look at all others: at
those before it as they are by then, and at those after it as they were.
-/

namespace Panops
namespace Lib
namespace InPlace

variable {α β : Type}

/-- One round: `f` sees what is before the place, what is there and what is after it. -/
def replaceAt (f : List α → α → List α → α) (xs : List α) (i : Nat) : List α :=
  match xs[i]? with
  | some x => xs.set i (f (xs.take i) x (xs.drop (i + 1)))
  | none => xs

def loop (f : List α → α → List α → α) (xs : List α) : List α :=
  (List.range xs.length).foldl (replaceAt f) xs

/-- The same, with what is done kept apart from what is to come. -/
def pass (f : List α → α → List α → α) : List α → List α → List α
  | done, [] => done
  | done, x :: rest => pass f (done ++ [f done x rest]) rest

variable {f : List α → α → List α → α} {done rest xs : List α}

theorem replaceAt_append (x : α) :
    replaceAt f (done ++ x :: rest) done.length = done ++ f done x rest :: rest := by
  simp [replaceAt]

theorem loop_eq_pass (f : List α → α → List α → α) (xs : List α) : loop f xs = pass f [] xs := by
  have hfrom : ∀ rest done : List α,
      (List.range' done.length rest.length).foldl (replaceAt f) (done ++ rest) =
        pass f done rest := by
    intro rest
    induction rest with
    | nil => simp [pass]
    | cons x rest ih =>
      intro done
      have hdone := ih (done ++ [f done x rest])
      rw [List.length_append, List.length_singleton, List.append_assoc,
        List.singleton_append] at hdone
      rw [List.length_cons, List.range'_succ, List.foldl_cons, replaceAt_append, pass, hdone]
  rw [loop, List.range_eq_range']
  exact hfrom xs []

/-- What every round keeps holds at the end. -/
theorem pass_invariant {P : List α → List α → Prop}
    (hstep : ∀ done x rest, P done (x :: rest) → P (done ++ [f done x rest]) rest)
    (h : P done rest) : P (pass f done rest) [] := by
  induction rest generalizing done with
  | nil => exact h
  | cons x rest ih => exact ih (hstep done x rest h)

/-- What the rounds leave as it is. -/
theorem map_loop {g : α → β} (hg : ∀ done x rest, g (f done x rest) = g x) (xs : List α) :
    (loop f xs).map g = xs.map g := by
  have hkept : (pass f [] xs ++ []).map g = xs.map g :=
    @pass_invariant _ f [] xs (fun done rest => (done ++ rest).map g = xs.map g)
      (fun done x rest h => by simpa [hg] using h) rfl
  rw [loop_eq_pass]
  simpa using hkept

/-- Each element stands for one on the other side. -/
structure Matches (R : α → β → Prop) (xs : List α) (ys : List β) : Prop where
  left : ∀ x ∈ xs, ∃ y ∈ ys, R x y
  right : ∀ y ∈ ys, ∃ x ∈ xs, R x y

/-- A relation between each element and what it is replaced by, shown of one place
after the other. -/
theorem loop_matches {R : α → α → Prop}
    (hstep : ∀ front done x rest, xs = front ++ x :: rest → Matches R front done →
      R x (f done x rest)) : Matches R xs (loop f xs) := by
  have hpass := @pass_invariant _ f [] xs
    (fun done rest => ∃ front, xs = front ++ rest ∧ Matches R front done)
    (fun done x rest h => by
      obtain ⟨front, hxs, hfront⟩ := h
      have hx := hstep front done x rest hxs hfront
      refine ⟨front ++ [x], by rw [hxs, List.append_assoc]; rfl, fun a ha => ?_, fun b hb => ?_⟩
      · rcases List.mem_append.mp ha with ha | ha
        · obtain ⟨b, hb, hR⟩ := hfront.left a ha
          exact ⟨b, List.mem_append_left _ hb, hR⟩
        · rw [List.mem_singleton.mp ha]
          exact ⟨_, List.mem_append_right _ (List.mem_singleton_self _), hx⟩
      · rcases List.mem_append.mp hb with hb | hb
        · obtain ⟨a, ha, hR⟩ := hfront.right b hb
          exact ⟨a, List.mem_append_left _ ha, hR⟩
        · rw [List.mem_singleton.mp hb]
          exact ⟨x, List.mem_append_right _ (List.mem_singleton_self x), hx⟩)
    ⟨[], rfl, by simp, by simp⟩
  obtain ⟨front, hxs, hall⟩ := hpass
  rw [List.append_nil] at hxs
  rw [loop_eq_pass, hxs]
  rw [hxs] at hall
  exact hall

end InPlace
end Lib
end Panops
