import Mathlib.Data.List.Basic

/-!
# Distribution into buckets

Pushing elements one by one to the back of the bucket their key names.
-/

namespace Panops
namespace Lib
namespace Buckets

variable {α : Type}

/-- `out[key x].push(x)`. -/
def push (key : α → Nat) (out : List (List α)) (x : α) : List (List α) :=
  out.modify (key x) (· ++ [x])

/-- Push everything into `n` empty buckets. -/
def distribute (key : α → Nat) (n : Nat) (xs : List α) : List (List α) :=
  xs.foldl (push key) (List.replicate n [])

@[simp] theorem length_push (key : α → Nat) (out : List (List α)) (x : α) :
    (push key out x).length = out.length :=
  List.length_modify ..

theorem length_foldl_push (key : α → Nat) (xs : List α) (out : List (List α)) :
    (xs.foldl (push key) out).length = out.length := by
  induction xs generalizing out with
  | nil => rfl
  | cons x xs ih => rw [List.foldl_cons, ih, length_push]

@[simp] theorem length_distribute (key : α → Nat) (n : Nat) (xs : List α) :
    (distribute key n xs).length = n := by
  rw [distribute, length_foldl_push, List.length_replicate]

theorem flatten_push_perm {key : α → Nat} {out : List (List α)} {x : α}
    (h : key x < out.length) : (push key out x).flatten.Perm (x :: out.flatten) := by
  unfold push
  generalize key x = k at h
  induction out generalizing k with
  | nil => simp at h
  | cons g gs ih =>
    cases k with
    | zero =>
      rw [List.modify_zero_cons, List.flatten_cons, List.flatten_cons, List.append_assoc]
      exact List.perm_middle
    | succ k =>
      rw [List.modify_succ_cons, List.flatten_cons, List.flatten_cons]
      have hrest := ih k (Nat.lt_of_succ_lt_succ h)
      exact (hrest.append_left g).trans List.perm_middle

theorem flatten_foldl_push_perm {key : α → Nat} {xs : List α} :
    ∀ out : List (List α), (∀ x ∈ xs, key x < out.length) →
      (xs.foldl (push key) out).flatten.Perm (xs ++ out.flatten) := by
  induction xs with
  | nil => intro out _; exact List.Perm.refl _
  | cons x xs ih =>
    intro out h
    have hx : key x < out.length := h x List.mem_cons_self
    have hrest := ih (push key out x) fun y hy => by
      rw [length_push]
      exact h y (List.mem_cons_of_mem x hy)
    rw [List.foldl_cons]
    refine hrest.trans ?_
    refine ((flatten_push_perm hx).append_left xs).trans ?_
    exact List.perm_middle

/-- Every element ends up in exactly one bucket. -/
theorem flatten_distribute_perm {key : α → Nat} {n : Nat} {xs : List α}
    (h : ∀ x ∈ xs, key x < n) : (distribute key n xs).flatten.Perm xs := by
  have hperm := flatten_foldl_push_perm (List.replicate n []) (by simpa using h)
  simpa [distribute] using hperm

theorem getElem?_push {key : α → Nat} {out : List (List α)} {x : α} {k : Nat} :
    (push key out x)[k]? =
      (out[k]?).map fun g => if key x = k then g ++ [x] else g := by
  rw [push, List.getElem?_modify]
  cases out[k]? with
  | none => rfl
  | some g =>
    by_cases h : key x = k
    · simp [h]
    · simp [h]

theorem getElem?_foldl_push {key : α → Nat} {xs : List α} {k : Nat} :
    ∀ {out : List (List α)}, (xs.foldl (push key) out)[k]? =
      (out[k]?).map fun g => g ++ xs.filter fun x => key x = k := by
  induction xs with
  | nil => intro out; simp
  | cons x xs ih =>
    intro out
    rw [List.foldl_cons, ih, getElem?_push, Option.map_map]
    congr 1
    funext g
    by_cases h : key x = k
    · simp [h]
    · simp [h]

/-- Bucket `k` holds the elements with key `k`, in their order. -/
theorem getElem?_distribute {key : α → Nat} {n : Nat} {xs : List α} {k : Nat} (hk : k < n) :
    (distribute key n xs)[k]? = some (xs.filter fun x => key x = k) := by
  rw [distribute, getElem?_foldl_push, List.getElem?_replicate, if_pos hk]
  rfl

end Buckets
end Lib
end Panops
