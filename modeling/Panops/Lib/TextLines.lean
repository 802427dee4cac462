import Panops.Lib.Text

/-!
# Texts by lines

Lines that are ended by a line feed, carriage returns in front of one, and trimming
by any class of characters.
-/

namespace Panops
namespace Lib
namespace Text

/-! ## Lines -/

/-- The lines one after the other, each ended by a line feed. -/
def unlines (ls : List (List Char)) : List Char := ls.flatMap (· ++ ['\n'])

theorem unlines_nil : unlines [] = [] := rfl

theorem unlines_cons (l : List Char) (ls : List (List Char)) :
    unlines (l :: ls) = l ++ (['\n'] ++ unlines ls) := List.append_assoc l ['\n'] (unlines ls)

theorem unlines_append (ls ms : List (List Char)) :
    unlines (ls ++ ms) = unlines ls ++ unlines ms := List.flatMap_append

/-- The lines of a text are those it was put together from, and those of the rest. -/
theorem splitOn_unlines {ls : List (List Char)} (h : ∀ l ∈ ls, '\n' ∉ l) (rest : List Char) :
    (unlines ls ++ rest).splitOn '\n' = ls ++ rest.splitOn '\n' := by
  induction ls with
  | nil => rfl
  | cons l ls ih =>
    have hl : '\n' ∉ l := h l List.mem_cons_self
    have hls := ih fun m hm => h m (List.mem_cons_of_mem l hm)
    rw [unlines, List.flatMap_cons, List.append_assoc, List.append_assoc,
      List.singleton_append, List.splitOn_append_cons_self_of_not_mem hl, ← unlines, hls,
      List.cons_append]

theorem unlines_eq_intercalate (l : List Char) (ls : List (List Char)) :
    unlines (l :: ls) = ['\n'].intercalate (l :: ls) ++ ['\n'] := by
  induction ls generalizing l with
  | nil => simp [unlines]
  | cons m ls ih =>
    rw [unlines, List.flatMap_cons, ← unlines, ih m, List.intercalate_cons_cons]
    simp [List.append_assoc]

/-! ## Carriage returns -/

/-- A carriage return and a line feed become a line feed. -/
def unifyBreaks : List Char → List Char
  | [] => []
  | c :: rest =>
    if c = '\r' ∧ rest.head? = some '\n' then unifyBreaks rest else c :: unifyBreaks rest

theorem unifyBreaks_append {s : List Char} (h : '\r' ∉ s) (rest : List Char) :
    unifyBreaks (s ++ rest) = s ++ unifyBreaks rest := by
  induction s with
  | nil => rfl
  | cons c s ih =>
    have hc : c ≠ '\r' := fun hc => h (by simp [hc])
    rw [List.cons_append, unifyBreaks, if_neg fun hboth => hc hboth.1,
      ih fun hmem => h (List.mem_cons_of_mem c hmem), List.cons_append]

/-- A line feed at the end leaves everything but the white space there. -/
theorem unifyBreaks_newline (s : List Char) :
    ∃ kept before after, unifyBreaks s = kept ++ before ∧
      unifyBreaks (s ++ ['\n']) = kept ++ after ∧
      (∀ c ∈ before, isWhiteSpace c = true) ∧ (∀ c ∈ after, isWhiteSpace c = true) := by
  induction s with
  | nil => exact ⟨[], [], ['\n'], rfl, rfl, by simp, List.forall_mem_singleton.mpr rfl⟩
  | cons c s ih =>
    obtain ⟨kept, before, after, hs, hsn, hbefore, hafter⟩ := ih
    cases s with
    | nil =>
      by_cases hc : c = '\r'
      · subst hc
        exact ⟨[], ['\r'], ['\n'], rfl, rfl, List.forall_mem_singleton.mpr rfl,
          List.forall_mem_singleton.mpr rfl⟩
      · refine ⟨[c], [], ['\n'], ?_, ?_, by simp, List.forall_mem_singleton.mpr rfl⟩
        · simp [unifyBreaks]
        · simp [unifyBreaks, hc]
    | cons d s =>
      have hhead : (d :: s ++ ['\n']).head? = (d :: s).head? := rfl
      by_cases hboth : c = '\r' ∧ (d :: s).head? = some '\n'
      · refine ⟨kept, before, after, ?_, ?_, hbefore, hafter⟩
        · rw [unifyBreaks, if_pos hboth, hs]
        · rw [List.cons_append, unifyBreaks, hhead, if_pos hboth, hsn]
      · refine ⟨c :: kept, before, after, ?_, ?_, hbefore, hafter⟩
        · rw [unifyBreaks, if_neg hboth, hs, List.cons_append]
        · rw [List.cons_append, unifyBreaks, hhead, if_neg hboth, hsn, List.cons_append]

/-! ## Trimming -/

def trimOf (p : Char → Bool) (s : List Char) : List Char :=
  ((s.dropWhile p).reverse.dropWhile p).reverse

theorem trim_eq_trimOf (s : List Char) : trim s = trimOf isWhiteSpace s := rfl

theorem dropWhile_eq_nil {α : Type} {p : α → Bool} {l : List α} (h : ∀ a ∈ l, p a = true) :
    l.dropWhile p = [] := by
  have hdrop : (l ++ []).dropWhile p = [].dropWhile p := List.dropWhile_append_of_pos h
  rwa [List.append_nil] at hdrop

theorem mem_trimOf {p : Char → Bool} {s : List Char} {c : Char} (hc : c ∈ s)
    (hp : p c = false) : c ∈ trimOf p s := by
  have hkeep : ∀ {l : List Char}, c ∈ l → c ∈ l.dropWhile p := by
    intro l hl
    rw [← List.takeWhile_append_dropWhile (p := p) (l := l)] at hl
    rcases List.mem_append.mp hl with hfront | hrest
    · have := List.all_eq_true.mp List.all_takeWhile c hfront
      rw [hp] at this
      cases this
    · exact hrest
  exact List.mem_reverse.mpr (hkeep (List.mem_reverse.mpr (hkeep hc)))

theorem trimOf_append_left {p : Char → Bool} {front : List Char} (h : ∀ c ∈ front, p c = true)
    (s : List Char) : trimOf p (front ++ s) = trimOf p s := by
  rw [trimOf, List.dropWhile_append_of_pos h, ← trimOf]

theorem trimOf_append_right {p : Char → Bool} {back : List Char} (h : ∀ c ∈ back, p c = true)
    (s : List Char) : trimOf p (s ++ back) = trimOf p s := by
  induction s with
  | nil =>
    rw [trimOf, List.nil_append, dropWhile_eq_nil h]
    rfl
  | cons c s ih =>
    cases hc : p c with
    | true =>
      have hfront : ∀ d ∈ [c], p d = true := by simp [hc]
      rw [List.cons_append, ← List.singleton_append, trimOf_append_left hfront, ih,
        ← trimOf_append_left hfront s, List.singleton_append]
    | false =>
      have hback : ∀ d ∈ back.reverse, p d = true := fun d hd => h d (List.mem_reverse.mp hd)
      rw [trimOf, trimOf, List.cons_append, List.dropWhile_cons_of_neg (by simp [hc]),
        List.dropWhile_cons_of_neg (by simp [hc]), ← List.cons_append, List.reverse_append,
        List.dropWhile_append_of_pos hback]

/-- Line feeds around a text are trimmed, also where the last one ends a carriage
return's break. -/
theorem trim_unifyBreaks_between (s : List Char) :
    trim (unifyBreaks ('\n' :: (s ++ ['\n']))) = trim (unifyBreaks s) := by
  obtain ⟨kept, before, after, hs, hsn, hbefore, hafter⟩ := unifyBreaks_newline s
  have hfront : ∀ c ∈ ['\n'], isWhiteSpace c = true := List.forall_mem_singleton.mpr rfl
  have hopen : unifyBreaks ('\n' :: (s ++ ['\n'])) = ['\n'] ++ unifyBreaks (s ++ ['\n']) :=
    unifyBreaks_append (s := ['\n']) (by decide) _
  rw [trim_eq_trimOf, trim_eq_trimOf, hopen, trimOf_append_left hfront, hsn, hs,
    trimOf_append_right hafter, trimOf_append_right hbefore]

theorem stripSuffix_append (s suf : List Char) : stripSuffix suf (s ++ suf) = some s := by
  rw [stripSuffix, if_pos (List.isSuffixOf_iff_suffix.mpr (List.suffix_append s suf))]
  simp

end Text
end Lib
end Panops
