import Mathlib.Data.List.Chain

/-!
# Consecutive runs

Splitting a list into consecutive runs, left to right, by a test that sees the
run collected so far and the next element.  The loops that push to a `current`
buffer and flush it on a condition are all of this shape, so the facts about
them (nothing lost, nothing reordered, every run satisfies what the test
guards) are proved once here.
-/

namespace Panops
namespace Lib
namespace Runs

variable {α β : Type}

/-- The runs of `xs` when `run` is already open.  `cut run x` closes the open
run before `x`. -/
def runsFrom (cut : List α → α → Bool) (run : List α) : List α → List (List α)
  | [] => [run]
  | x :: xs => if cut run x then run :: runsFrom cut [x] xs else runsFrom cut (run ++ [x]) xs

/-- The runs of a list; the first element always opens the first run. -/
def runs (cut : List α → α → Bool) : List α → List (List α)
  | [] => []
  | x :: xs => runsFrom cut [x] xs

/-- The run that is open after `xs`. -/
def openRun (cut : List α → α → Bool) (run : List α) : List α → List α
  | [] => run
  | x :: xs => openRun cut (if cut run x then [x] else run ++ [x]) xs

@[simp] theorem runsFrom_nil (cut : List α → α → Bool) (run : List α) :
    runsFrom cut run [] = [run] := rfl

theorem runsFrom_cons_of_cut {cut : List α → α → Bool} {run : List α} {x : α} {xs : List α}
    (h : cut run x = true) : runsFrom cut run (x :: xs) = run :: runsFrom cut [x] xs := by
  rw [runsFrom, if_pos h]

theorem runsFrom_cons_of_not_cut {cut : List α → α → Bool} {run : List α} {x : α} {xs : List α}
    (h : cut run x = false) :
    runsFrom cut run (x :: xs) = runsFrom cut (run ++ [x]) xs := by
  rw [runsFrom, if_neg (by simp [h])]

theorem openRun_cons_of_cut {cut : List α → α → Bool} {run : List α} {x : α} {xs : List α}
    (h : cut run x = true) : openRun cut run (x :: xs) = openRun cut [x] xs := by
  rw [openRun, if_pos h]

theorem openRun_cons_of_not_cut {cut : List α → α → Bool} {run : List α} {x : α} {xs : List α}
    (h : cut run x = false) : openRun cut run (x :: xs) = openRun cut (run ++ [x]) xs := by
  rw [openRun, if_neg (by simp [h])]

/-! ## Nothing lost -/

theorem flatten_runsFrom (cut : List α → α → Bool) (run xs : List α) :
    (runsFrom cut run xs).flatten = run ++ xs := by
  induction xs generalizing run with
  | nil => simp
  | cons x xs ih =>
    cases h : cut run x with
    | true => rw [runsFrom_cons_of_cut h, List.flatten_cons, ih]; simp
    | false => rw [runsFrom_cons_of_not_cut h, ih]; simp

theorem flatten_runs (cut : List α → α → Bool) (xs : List α) : (runs cut xs).flatten = xs := by
  cases xs with
  | nil => rfl
  | cons x xs => exact flatten_runsFrom cut [x] xs

theorem runsFrom_ne_nil (cut : List α → α → Bool) (run xs : List α) :
    runsFrom cut run xs ≠ [] := by
  induction xs generalizing run with
  | nil => simp
  | cons x xs ih =>
    cases h : cut run x with
    | true => rw [runsFrom_cons_of_cut h]; simp
    | false => rw [runsFrom_cons_of_not_cut h]; exact ih _

theorem length_runsFrom_le (cut : List α → α → Bool) (run xs : List α) :
    (runsFrom cut run xs).length ≤ xs.length + 1 := by
  induction xs generalizing run with
  | nil => simp
  | cons x xs ih =>
    cases h : cut run x with
    | true =>
      rw [runsFrom_cons_of_cut h, List.length_cons, List.length_cons]
      exact Nat.succ_le_succ (ih [x])
    | false =>
      rw [runsFrom_cons_of_not_cut h, List.length_cons]
      exact Nat.le_succ_of_le (ih (run ++ [x]))

theorem length_runs_le (cut : List α → α → Bool) (xs : List α) :
    (runs cut xs).length ≤ xs.length := by
  cases xs with
  | nil => exact Nat.le_refl 0
  | cons x xs => exact length_runsFrom_le cut [x] xs

/-- There are as many runs as elements exactly when every two neighbours are cut
apart. -/
theorem length_runsFrom_eq_iff {cut : List α → α → Bool} {x : α} {xs : List α} :
    (runsFrom cut [x] xs).length = xs.length + 1 ↔
      List.IsChain (fun a b => cut [a] b = true) (x :: xs) := by
  induction xs generalizing x with
  | nil => simp
  | cons y ys ih =>
    rw [List.isChain_cons_cons]
    cases h : cut [x] y with
    | true =>
      rw [runsFrom_cons_of_cut h, List.length_cons, List.length_cons, ← ih]
      simp
    | false =>
      have hle := length_runsFrom_le cut ([x] ++ [y]) ys
      rw [runsFrom_cons_of_not_cut h, List.length_cons]
      constructor
      · intro heq
        omega
      · intro hchain
        simp at hchain

/-- Then every run is a single element. -/
theorem runsFrom_eq_map_singleton {cut : List α → α → Bool} {x : α} {xs : List α}
    (h : List.IsChain (fun a b => cut [a] b = true) (x :: xs)) :
    runsFrom cut [x] xs = (x :: xs).map fun a => [a] := by
  induction xs generalizing x with
  | nil => rfl
  | cons y ys ih =>
    obtain ⟨hxy, hrest⟩ := List.isChain_cons_cons.mp h
    rw [runsFrom_cons_of_cut hxy, ih hrest]
    rfl

/-- A test that fires before every element but the first leaves single
elements. -/
theorem runs_eq_map_singleton {cut : List α → α → Bool} {xs : List α}
    (h : ∀ a, ∀ b ∈ xs.tail, cut [a] b = true) : runs cut xs = xs.map fun a => [a] := by
  cases xs with
  | nil => rfl
  | cons x xs =>
    apply runsFrom_eq_map_singleton
    have hpair : (x :: xs).Pairwise fun a b => cut [a] b = true :=
      List.pairwise_cons.mpr ⟨fun b hb => h x b hb,
        List.pairwise_of_forall_mem_list fun a _ b hb => h a b hb⟩
    exact hpair.isChain

/-! ## The invariant rule -/

/-- What holds of the open run, of every fresh run, and is kept when the test
lets an element join, holds of every run. -/
theorem forall_mem_runsFrom {cut : List α → α → Bool} {P : List α → Prop}
    (hsingle : ∀ x, P [x])
    (hjoin : ∀ run x, P run → cut run x = false → P (run ++ [x]))
    {run : List α} (hrun : P run) (xs : List α) : ∀ r ∈ runsFrom cut run xs, P r := by
  induction xs generalizing run with
  | nil => simpa using hrun
  | cons x xs ih =>
    cases h : cut run x with
    | true =>
      rw [runsFrom_cons_of_cut h]
      intro r hr
      rcases List.mem_cons.mp hr with rfl | hr
      · exact hrun
      · exact ih (hsingle x) r hr
    | false =>
      rw [runsFrom_cons_of_not_cut h]
      exact ih (hjoin run x hrun h)

theorem forall_mem_runs {cut : List α → α → Bool} {P : List α → Prop}
    (hsingle : ∀ x, P [x])
    (hjoin : ∀ run x, P run → cut run x = false → P (run ++ [x])) (xs : List α) :
    ∀ r ∈ runs cut xs, P r := by
  cases xs with
  | nil => simp [runs]
  | cons x xs => exact forall_mem_runsFrom hsingle hjoin (hsingle x) xs

theorem ne_nil_of_mem_runs {cut : List α → α → Bool} {xs r : List α} (h : r ∈ runs cut xs) :
    r ≠ [] :=
  forall_mem_runs (P := fun r => r ≠ []) (by simp) (by simp) xs r h

/-- Non-empty parts of a single element are one part. -/
theorem eq_singleton_of_flatten {xss : List (List α)} {x : α} (hflat : xss.flatten = [x])
    (hne : ∀ xs ∈ xss, xs ≠ []) : xss = [[x]] := by
  cases xss with
  | nil => simp at hflat
  | cons xs rest =>
    rw [List.flatten_cons] at hflat
    rcases List.append_eq_singleton_iff.mp hflat with ⟨hnil, _⟩ | ⟨rfl, hrest⟩
    · exact absurd hnil (hne xs List.mem_cons_self)
    · cases rest with
      | nil => rfl
      | cons next rest =>
        rw [List.flatten_cons, List.append_eq_nil_iff] at hrest
        exact absurd hrest.1 (hne next (List.mem_cons_of_mem _ List.mem_cons_self))

/-- Two tests that agree on the runs satisfying an invariant of the first give
the same runs. -/
theorem runsFrom_congr {cut cut' : List α → α → Bool} {P : List α → Prop}
    (hsingle : ∀ x, P [x])
    (hjoin : ∀ run x, P run → cut run x = false → P (run ++ [x]))
    (hagree : ∀ run x, P run → cut run x = cut' run x)
    {run : List α} (hrun : P run) (xs : List α) :
    runsFrom cut run xs = runsFrom cut' run xs := by
  induction xs generalizing run with
  | nil => rfl
  | cons x xs ih =>
    cases h : cut run x with
    | true =>
      rw [runsFrom_cons_of_cut h, runsFrom_cons_of_cut (hagree run x hrun ▸ h), ih (hsingle x)]
    | false =>
      rw [runsFrom_cons_of_not_cut h, runsFrom_cons_of_not_cut (hagree run x hrun ▸ h),
        ih (hjoin run x hrun h)]

/-! ## Where the cuts are -/

/-- The open run after `xs` satisfies every invariant of the runs. -/
theorem openRun_invariant {cut : List α → α → Bool} {P : List α → Prop}
    (hsingle : ∀ x, P [x])
    (hjoin : ∀ run x, P run → cut run x = false → P (run ++ [x]))
    {run : List α} (hrun : P run) (xs : List α) : P (openRun cut run xs) := by
  induction xs generalizing run with
  | nil => exact hrun
  | cons x xs ih =>
    rw [openRun]
    cases h : cut run x with
    | true => exact ih (hsingle x)
    | false => exact ih (hjoin run x hrun h)

/-- The open run is the last of the runs. -/
theorem dropLast_append_openRun (cut : List α → α → Bool) (run xs : List α) :
    (runsFrom cut run xs).dropLast ++ [openRun cut run xs] = runsFrom cut run xs := by
  induction xs generalizing run with
  | nil => rfl
  | cons x xs ih =>
    cases h : cut run x with
    | true =>
      rw [runsFrom_cons_of_cut h, openRun_cons_of_cut h,
        List.dropLast_cons_of_ne_nil (runsFrom_ne_nil cut [x] xs), List.cons_append, ih]
    | false => rw [runsFrom_cons_of_not_cut h, openRun_cons_of_not_cut h, ih]

/-- The loop that flushes the open run before an element that must not join. -/
def flushStep (cut : List α → α → Bool) (st : List (List α) × List α) (x : α) :
    List (List α) × List α :=
  if cut st.2 x then (st.1 ++ [st.2], [x]) else (st.1, st.2 ++ [x])

theorem foldl_flushStep (cut : List α → α → Bool) (out : List (List α)) (run xs : List α) :
    xs.foldl (flushStep cut) (out, run) =
      (out ++ (runsFrom cut run xs).dropLast, openRun cut run xs) := by
  induction xs generalizing out run with
  | nil => simp [openRun]
  | cons x xs ih =>
    cases h : cut run x with
    | true =>
      rw [List.foldl_cons, flushStep, if_pos h, ih, runsFrom_cons_of_cut h,
        openRun_cons_of_cut h, List.dropLast_cons_of_ne_nil (runsFrom_ne_nil cut [x] xs)]
      simp
    | false =>
      rw [List.foldl_cons, flushStep, if_neg (by simp [h]), ih, runsFrom_cons_of_not_cut h,
        openRun_cons_of_not_cut h]

/-- The open run is shorter than what was read as soon as one run was closed. -/
theorem openRun_eq_of_length {cut : List α → α → Bool} {run xs : List α}
    (h : run.length + xs.length ≤ (openRun cut run xs).length) :
    openRun cut run xs = run ++ xs := by
  have hflat := flatten_runsFrom cut run xs
  rw [← dropLast_append_openRun, List.flatten_append, List.flatten_singleton] at hflat
  have hlen := congrArg List.length hflat
  rw [List.length_append, List.length_append] at hlen
  have hnil : ((runsFrom cut run xs).dropLast).flatten = [] :=
    List.eq_nil_of_length_eq_zero (by omega)
  rwa [hnil, List.nil_append] at hflat

/-! ## Absorbing short runs -/

/-- Join every run that `short` rejects to the one before it; the first run is
never rejected. -/
def absorb (short : List α → Bool) (groups : List (List α)) : List (List α) :=
  (runs (fun _ g => !short g) groups).map List.flatten

theorem flatten_absorb (short : List α → Bool) (groups : List (List α)) :
    (absorb short groups).flatten = groups.flatten := by
  rw [absorb, ← List.flatten_flatten, flatten_runs]

theorem ne_nil_of_mem_absorb {short : List α → Bool} {groups : List (List α)}
    (h : ∀ g ∈ groups, g ≠ []) : ∀ g ∈ absorb short groups, g ≠ [] := by
  intro g hg
  obtain ⟨r, hr, rfl⟩ := List.mem_map.mp hg
  obtain ⟨g₀, hg₀⟩ := List.exists_mem_of_ne_nil r (ne_nil_of_mem_runs hr)
  have hmem : g₀ ∈ groups := by
    rw [← flatten_runs (fun _ g => !short g) groups]
    exact List.mem_flatten.mpr ⟨r, hr, hg₀⟩
  obtain ⟨x, hx⟩ := List.exists_mem_of_ne_nil g₀ (h g₀ hmem)
  exact List.ne_nil_of_mem (List.mem_flatten.mpr ⟨g₀, hg₀, hx⟩)

end Runs
end Lib
end Panops
