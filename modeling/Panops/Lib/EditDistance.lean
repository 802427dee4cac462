import Mathlib.Order.Bounds.Basic

/-!
# Edit distance

An edit inserts, deletes or replaces one element anywhere in a list.  The distance by
recursion on two lists is the least number of edits that turn one into the other, and
what is plain of edits, that they can be undone, put one after another and read from the
other end, is therefore true of the distance.
-/

namespace Panops
namespace Lib
namespace EditDistance

variable {α : Type}

/-! ## Edits -/

inductive Edit : List α → List α → Prop
  | insert (front back : List α) (x : α) : Edit (front ++ back) (front ++ x :: back)
  | delete (front back : List α) (x : α) : Edit (front ++ x :: back) (front ++ back)
  | substitute (front back : List α) (x y : α) : Edit (front ++ x :: back) (front ++ y :: back)

/-- So many edits, one after another. -/
inductive Edits : Nat → List α → List α → Prop
  | none (as : List α) : Edits 0 as as
  | more {n : Nat} {as bs cs : List α} : Edits n as bs → Edit bs cs → Edits (n + 1) as cs

variable {as bs cs : List α} {m n : Nat}

theorem Edit.symm (h : Edit as bs) : Edit bs as := by
  cases h with
  | insert front back x => exact .delete front back x
  | delete front back x => exact .insert front back x
  | substitute front back x y => exact .substitute front back y x

theorem Edit.cons (a : α) (h : Edit as bs) : Edit (a :: as) (a :: bs) := by
  cases h with
  | insert front back x => exact .insert (a :: front) back x
  | delete front back x => exact .delete (a :: front) back x
  | substitute front back x y => exact .substitute (a :: front) back x y

theorem Edit.reverse (h : Edit as bs) : Edit as.reverse bs.reverse := by
  cases h with
  | insert front back x => simpa using Edit.insert back.reverse front.reverse x
  | delete front back x => simpa using Edit.delete back.reverse front.reverse x
  | substitute front back x y => simpa using Edit.substitute back.reverse front.reverse x y

theorem Edits.one (h : Edit as bs) : Edits 1 as bs :=
  .more (.none as) h

theorem Edits.trans (hab : Edits m as bs) (hbc : Edits n bs cs) : Edits (m + n) as cs := by
  induction hbc with
  | none => exact hab
  | more _ hedit ih => exact .more (ih hab) hedit

theorem Edits.symm (h : Edits n as bs) : Edits n bs as := by
  induction h with
  | none as => exact .none as
  | more _ hedit ih =>
    rw [Nat.add_comm]
    exact (Edits.one hedit.symm).trans ih

theorem Edits.cons (a : α) (h : Edits n as bs) : Edits n (a :: as) (a :: bs) := by
  induction h with
  | none as => exact .none (a :: as)
  | more _ hedit ih => exact .more ih (hedit.cons a)

theorem Edits.reverse (h : Edits n as bs) : Edits n as.reverse bs.reverse := by
  induction h with
  | none as => exact .none as.reverse
  | more _ hedit ih => exact .more ih hedit.reverse

theorem Edits.min (hm : Edits m as bs) (hn : Edits n as bs) : Edits (min m n) as bs := by
  rcases Nat.le_total m n with h | h
  · rwa [Nat.min_eq_left h]
  · rwa [Nat.min_eq_right h]

theorem Edits.eq_of_zero (h : Edits 0 as bs) : as = bs := by
  cases h
  rfl

/-! ## The distance by recursion -/

section Distance

variable [DecidableEq α]

/-- What it costs to keep `b` where `a` was. -/
def cost (a b : α) : Nat := if a = b then 0 else 1

theorem cost_le_one (a b : α) : cost a b ≤ 1 := by
  unfold cost
  split <;> omega

def distance : List α → List α → Nat
  | [], bs => bs.length
  | a :: as, [] => (a :: as).length
  | a :: as, b :: bs =>
    min (min (distance as (b :: bs) + 1) (distance (a :: as) bs + 1)) (distance as bs + cost a b)
termination_by as bs => as.length + bs.length

@[simp] theorem distance_nil_left (bs : List α) : distance [] bs = bs.length := by
  rw [distance]

@[simp] theorem distance_nil_right (as : List α) : distance as [] = as.length := by
  cases as with
  | nil => rw [distance]
  | cons a as => rw [distance]

theorem distance_cons (a b : α) (as bs : List α) :
    distance (a :: as) (b :: bs) =
      min (min (distance as (b :: bs) + 1) (distance (a :: as) bs + 1))
        (distance as bs + cost a b) := by
  rw [distance]

/-- There is a way that takes no more edits. -/
theorem edits_distance (as bs : List α) : Edits (distance as bs) as bs := by
  induction as generalizing bs with
  | nil =>
    induction bs with
    | nil =>
      rw [distance_nil_left]
      exact .none []
    | cons b bs ih =>
      rw [distance_nil_left] at ih ⊢
      exact .more ih (.insert [] bs b)
  | cons a as ih =>
    have hdelete : ∀ bs, Edits (distance as bs + 1) (a :: as) bs := fun bs => by
      rw [Nat.add_comm]
      exact (Edits.one (.delete [] as a)).trans (ih bs)
    induction bs with
    | nil =>
      have h := hdelete []
      rwa [distance_nil_right] at h ⊢
    | cons b bs ihb =>
      have hinsert : Edits (distance (a :: as) bs + 1) (a :: as) (b :: bs) :=
        .more ihb (.insert [] bs b)
      have hkeep : Edits (distance as bs + cost a b) (a :: as) (b :: bs) := by
        by_cases hab : a = b
        · subst hab
          rw [cost, if_pos rfl]
          exact (ih bs).cons a
        · rw [cost, if_neg hab]
          exact .more ((ih bs).cons a) (.substitute [] bs a b)
      rw [distance_cons]
      exact ((hdelete (b :: bs)).min hinsert).min hkeep

/-! One more element on either side changes the distance by at most one, and so does an
edit. -/

theorem distance_insert (as bs : List α) (b : α) : distance as (b :: bs) ≤ distance as bs + 1 := by
  cases as with
  | nil => simp
  | cons a as =>
    rw [distance_cons]
    omega

theorem distance_cons_left (a : α) (as bs : List α) :
    distance (a :: as) bs ≤ distance as bs + 1 := by
  cases bs with
  | nil => simp
  | cons b bs =>
    rw [distance_cons]
    omega

theorem distance_delete (as bs : List α) (b : α) : distance as bs ≤ distance as (b :: bs) + 1 := by
  induction as with
  | nil =>
    rw [distance_nil_left, distance_nil_left, List.length_cons]
    omega
  | cons a as ih =>
    have hleft := distance_cons_left a as bs
    rw [distance_cons]
    omega

theorem distance_substitute (as bs : List α) (x y : α) :
    distance as (y :: bs) ≤ distance as (x :: bs) + 1 := by
  induction as with
  | nil => simp
  | cons a as ih =>
    have hcost := cost_le_one a y
    rw [distance_cons, distance_cons]
    omega

/-- What a step behind `z` changes, it changes with `z` in front. -/
theorem distance_front (z : α) (h : ∀ as, distance as cs ≤ distance as bs + 1) (as : List α) :
    distance as (z :: cs) ≤ distance as (z :: bs) + 1 := by
  induction as with
  | nil =>
    have hnil := h []
    rw [distance_nil_left, distance_nil_left] at hnil ⊢
    rw [List.length_cons, List.length_cons]
    omega
  | cons a as ih =>
    have hall := h (a :: as)
    have hrest := h as
    rw [distance_cons, distance_cons]
    omega

theorem distance_append_front (front : List α) (h : ∀ as, distance as cs ≤ distance as bs + 1) :
    ∀ as, distance as (front ++ cs) ≤ distance as (front ++ bs) + 1 := by
  induction front with
  | nil => exact h
  | cons z front ih => exact distance_front z ih

theorem distance_edit (h : Edit bs cs) (as : List α) : distance as cs ≤ distance as bs + 1 := by
  cases h with
  | insert front back x =>
    exact distance_append_front front (fun as => distance_insert as back x) as
  | delete front back x =>
    exact distance_append_front front (fun as => distance_delete as back x) as
  | substitute front back x y =>
    exact distance_append_front front (fun as => distance_substitute as back x y) as

theorem distance_self (as : List α) : distance as as = 0 := by
  induction as with
  | nil => rw [distance_nil_left, List.length_nil]
  | cons a as ih =>
    rw [distance_cons, ih, cost, if_pos rfl]
    omega

theorem distance_le_of_edits (h : Edits n as bs) : distance as bs ≤ n := by
  induction h with
  | none as => rw [distance_self]
  | @more _ as _ _ _ hedit ih =>
    have hstep := distance_edit hedit as
    omega

/-- The distance is the least number of edits from one list to the other. -/
theorem isLeast_distance (as bs : List α) : IsLeast {n | Edits n as bs} (distance as bs) :=
  ⟨edits_distance as bs, fun _ h => distance_le_of_edits h⟩

/-! ## What edits say of the distance -/

theorem distance_comm (as bs : List α) : distance as bs = distance bs as :=
  Nat.le_antisymm (distance_le_of_edits (edits_distance bs as).symm)
    (distance_le_of_edits (edits_distance as bs).symm)

theorem distance_triangle (as bs cs : List α) :
    distance as cs ≤ distance as bs + distance bs cs :=
  distance_le_of_edits ((edits_distance as bs).trans (edits_distance bs cs))

theorem distance_eq_zero_iff : distance as bs = 0 ↔ as = bs := by
  constructor
  · intro h
    have hedits := edits_distance as bs
    rw [h] at hedits
    exact hedits.eq_of_zero
  · rintro rfl
    exact distance_self as

theorem distance_reverse (as bs : List α) : distance as.reverse bs.reverse = distance as bs := by
  have hle : ∀ as bs : List α, distance as.reverse bs.reverse ≤ distance as bs := fun as bs =>
    distance_le_of_edits (edits_distance as bs).reverse
  have hback := hle as.reverse bs.reverse
  rw [List.reverse_reverse, List.reverse_reverse] at hback
  exact Nat.le_antisymm (hle as bs) hback

/-- The recursion from the other end. -/
theorem distance_concat (a b : α) (as bs : List α) :
    distance (as ++ [a]) (bs ++ [b]) =
      min (min (distance as (bs ++ [b]) + 1) (distance (as ++ [a]) bs + 1))
        (distance as bs + cost a b) := by
  have h := distance_cons a b as.reverse bs.reverse
  simpa only [← List.reverse_concat, distance_reverse] using h

end Distance

end EditDistance
end Lib
end Panops
