import Mathlib.Data.List.Infix
import Panops.Lib.Text

/-!
# Inline text

`Markdown.sanitizeInline`: what looks like a tag is taken out of a text, from left to
right.  Letters are those of Unicode; which characters they are is left open.
-/

namespace Panops
namespace Markdown

open Lib.Text

/-- A scheme or an address, and no blank. -/
def isAutolinkOrEmail (inner : List Char) : Bool :=
  !inner.contains ' ' && (decide ([':', '/', '/'] <:+: inner) || inner.contains '@')

def dropSlash : List Char → List Char
  | '/' :: rest => rest
  | s => s

section Scanner

variable (isLetter : Char → Bool)

/-- Behind the `<`: a letter, or a slash and a letter. -/
def startsTagName (rest : List Char) : Bool := (dropSlash rest).head?.any isLetter

/-- The length of the tag that begins here, up to the next `>`. -/
def tagLength : List Char → Option Nat
  | [] => none
  | c :: rest =>
    let inner := rest.takeWhile (· ≠ '>')
    if c = '<' ∧ startsTagName isLetter rest = true ∧ '>' ∈ rest ∧
        isAutolinkOrEmail inner = false then
      some (inner.length + 2)
    else none

/-- The loop; `skip` characters are still to be left out. -/
def sanitizeFrom : Nat → List Char → List Char
  | _, [] => []
  | skip + 1, _ :: text => sanitizeFrom skip text
  | 0, c :: text =>
    match tagLength isLetter (c :: text) with
    | some n => sanitizeFrom (n - 1) text
    | none => c :: sanitizeFrom 0 text

def sanitizeInline (text : String) : String :=
  if text.toList.contains '<' then String.ofList (sanitizeFrom isLetter 0 text.toList) else text

/-! ## Tags -/

/-- A tag, in the sense of the scanner: `<` or `</`, a letter, and what follows up to
the first `>`, unless it is an autolink or an address. -/
def IsTag (piece : List Char) : Prop :=
  ∃ inner, piece = '<' :: (inner ++ ['>']) ∧ '>' ∉ inner ∧
    startsTagName isLetter (inner ++ ['>']) = true ∧ isAutolinkOrEmail inner = false

def StartsWithTag (text : List Char) : Prop :=
  ∃ piece rest, text = piece ++ rest ∧ IsTag isLetter piece

/-- From left to right: a tag is left out, any other character is kept. -/
inductive Sanitizes : List Char → List Char → Prop
  | nil : Sanitizes [] []
  | tag {piece rest out : List Char} (h : IsTag isLetter piece) (hrest : Sanitizes rest out) :
      Sanitizes (piece ++ rest) out
  | keep {c : Char} {rest out : List Char} (h : ¬ StartsWithTag isLetter (c :: rest))
      (hrest : Sanitizes rest out) : Sanitizes (c :: rest) (c :: out)

end Scanner

section Tags

variable {isLetter : Char → Bool} {text rest out out' piece inner : List Char} {c : Char}

theorem startsTagName_cons (h : c ≠ '/') (rest : List Char) :
    startsTagName isLetter (c :: rest) = isLetter c := by
  have hdrop : dropSlash (c :: rest) = c :: rest := by
    unfold dropSlash
    split
    · next heq => exact absurd (List.cons.inj heq).1 h
    · rfl
  rw [startsTagName, hdrop]
  rfl

theorem startsTagName_append (inner rest : List Char) :
    startsTagName isLetter (inner ++ '>' :: rest) = startsTagName isLetter (inner ++ ['>']) := by
  cases inner with
  | nil => rfl
  | cons c inner =>
    by_cases hslash : c = '/'
    · subst hslash
      cases inner with
      | nil => rfl
      | cons d inner => rfl
    · rw [List.cons_append, List.cons_append, startsTagName_cons hslash, startsTagName_cons hslash]

theorem takeWhile_inner (h : '>' ∉ inner) (rest : List Char) :
    (inner ++ '>' :: rest).takeWhile (· ≠ '>') = inner := by
  refine takeWhile_eq_of_maximal (fun d hd => decide_eq_true fun heq => h (heq ▸ hd)) fun d hd => ?_
  obtain rfl : '>' = d := Option.some.inj hd
  rfl

theorem tagLength_cons (c : Char) (rest : List Char) :
    tagLength isLetter (c :: rest) =
      if c = '<' ∧ startsTagName isLetter rest = true ∧ '>' ∈ rest ∧
          isAutolinkOrEmail (rest.takeWhile (· ≠ '>')) = false then
        some ((rest.takeWhile (· ≠ '>')).length + 2)
      else none := rfl

theorem tagLength_of_isTag (h : IsTag isLetter piece) (rest : List Char) :
    tagLength isLetter (piece ++ rest) = some piece.length := by
  obtain ⟨inner, rfl, hinner, hname, hlink⟩ := h
  have htext : '<' :: (inner ++ ['>']) ++ rest = '<' :: (inner ++ '>' :: rest) := by
    rw [List.cons_append, List.append_assoc]
    rfl
  have hmem : '>' ∈ inner ++ '>' :: rest := List.mem_append_right inner List.mem_cons_self
  have hwhile := takeWhile_inner hinner rest
  have hstart := (startsTagName_append inner rest).trans hname
  rw [htext, tagLength_cons, hwhile, if_pos ⟨rfl, hstart, hmem, hlink⟩]
  simp

theorem isTag_of_tagLength {n : Nat} (h : tagLength isLetter text = some n) :
    ∃ piece rest, text = piece ++ rest ∧ IsTag isLetter piece ∧ piece.length = n := by
  cases text with
  | nil => cases h
  | cons c text =>
    rw [tagLength_cons] at h
    split at h
    · next hcond =>
      obtain ⟨rfl, hname, hmem, hlink⟩ := hcond
      obtain ⟨inner, rest, rfl, hinner⟩ := List.eq_append_cons_of_mem hmem
      rw [takeWhile_inner hinner] at h hlink
      refine ⟨'<' :: (inner ++ ['>']), rest, ?_, ⟨inner, rfl, hinner, ?_, hlink⟩, ?_⟩
      · rw [List.cons_append, List.append_assoc]
        rfl
      · rw [← startsTagName_append inner rest]
        exact hname
      · rw [← Option.some.inj h]
        simp
    · cases h

theorem tagLength_eq_none_iff : tagLength isLetter text = none ↔ ¬ StartsWithTag isLetter text := by
  constructor
  · rintro h ⟨piece, rest, rfl, htag⟩
    rw [tagLength_of_isTag htag rest] at h
    cases h
  · intro h
    cases hlength : tagLength isLetter text with
    | none => rfl
    | some n =>
      obtain ⟨piece, rest, rfl, htag, -⟩ := isTag_of_tagLength hlength
      exact absurd ⟨piece, rest, rfl, htag⟩ h

theorem IsTag.ne_nil (h : IsTag isLetter piece) : piece ≠ [] := by
  obtain ⟨inner, rfl, -⟩ := h
  exact List.cons_ne_nil _ _

/-! ## The loop takes the tags out -/

theorem sanitizeFrom_skip (front rest : List Char) :
    sanitizeFrom isLetter front.length (front ++ rest) = sanitizeFrom isLetter 0 rest := by
  induction front with
  | nil => rfl
  | cons c front ih => exact ih

theorem sanitizeFrom_tag (h : IsTag isLetter piece) (rest : List Char) :
    sanitizeFrom isLetter 0 (piece ++ rest) = sanitizeFrom isLetter 0 rest := by
  have hlength := tagLength_of_isTag h rest
  cases piece with
  | nil => exact absurd rfl h.ne_nil
  | cons c piece =>
    rw [List.cons_append] at hlength ⊢
    rw [sanitizeFrom, hlength]
    exact sanitizeFrom_skip piece rest

theorem sanitizeFrom_keep (h : ¬ StartsWithTag isLetter (c :: rest)) :
    sanitizeFrom isLetter 0 (c :: rest) = c :: sanitizeFrom isLetter 0 rest := by
  rw [sanitizeFrom, tagLength_eq_none_iff.mpr h]

theorem sanitizeFrom_eq_of_sanitizes (h : Sanitizes isLetter text out) :
    sanitizeFrom isLetter 0 text = out := by
  induction h with
  | nil => rfl
  | tag htag _ ih => rw [sanitizeFrom_tag htag, ih]
  | keep hno _ ih => rw [sanitizeFrom_keep hno, ih]

/-- By induction on the length, a tag being one step. -/
theorem sanitizes_sanitizeFrom (n : Nat) : ∀ text : List Char, text.length ≤ n →
    Sanitizes isLetter text (sanitizeFrom isLetter 0 text) := by
  induction n with
  | zero =>
    intro text hlength
    obtain rfl := List.eq_nil_of_length_eq_zero (Nat.le_zero.mp hlength)
    exact .nil
  | succ n ih =>
    intro text hlength
    by_cases hstart : StartsWithTag isLetter text
    · obtain ⟨piece, rest, rfl, htag⟩ := hstart
      have hpos := List.length_pos_iff.mpr htag.ne_nil
      rw [List.length_append] at hlength
      rw [sanitizeFrom_tag htag]
      exact .tag htag (ih rest (by omega))
    · cases text with
      | nil => exact .nil
      | cons c rest =>
        rw [List.length_cons] at hlength
        rw [sanitizeFrom_keep hstart]
        exact .keep hstart (ih rest (by omega))

theorem sanitizeFrom_of_no_tag (h : ∀ i, ¬ StartsWithTag isLetter (text.drop i)) :
    sanitizeFrom isLetter 0 text = text := by
  induction text with
  | nil => rfl
  | cons c text ih =>
    have hrest := ih fun i => h (i + 1)
    rw [sanitizeFrom_keep (h 0), hrest]

theorem StartsWithTag.lt_mem (h : StartsWithTag isLetter text) : '<' ∈ text ∧ '>' ∈ text := by
  obtain ⟨piece, rest, rfl, inner, rfl, -⟩ := h
  simp

theorem sanitizeFrom_of_no_lt {front : List Char} (h : '<' ∉ front) (rest : List Char) :
    sanitizeFrom isLetter 0 (front ++ rest) = front ++ sanitizeFrom isLetter 0 rest := by
  induction front with
  | nil => rfl
  | cons c front ih =>
    rw [List.mem_cons, not_or] at h
    have hno : ¬ StartsWithTag isLetter (c :: (front ++ rest)) := by
      rintro ⟨piece, rest', heq, inner, rfl, -⟩
      exact h.1 (List.cons.inj heq).1.symm
    rw [List.cons_append, sanitizeFrom_keep hno, ih h.2, List.cons_append]

/-- An autolink or address is kept. -/
theorem sanitizeFrom_autolink {inner : List Char} (hlt : '<' ∉ inner) (hgt : '>' ∉ inner)
    (hlink : isAutolinkOrEmail inner = true) (rest : List Char) :
    sanitizeFrom isLetter 0 ('<' :: (inner ++ '>' :: rest)) =
      '<' :: (inner ++ '>' :: sanitizeFrom isLetter 0 rest) := by
  have hno : ¬ StartsWithTag isLetter ('<' :: (inner ++ '>' :: rest)) := by
    rw [← tagLength_eq_none_iff, tagLength_cons, takeWhile_inner hgt, hlink, if_neg]
    rintro ⟨-, -, -, hfalse⟩
    cases hfalse
  have hclose : sanitizeFrom isLetter 0 ('>' :: rest) = '>' :: sanitizeFrom isLetter 0 rest :=
    @sanitizeFrom_of_no_lt isLetter ['>'] (by decide) rest
  rw [sanitizeFrom_keep hno, sanitizeFrom_of_no_lt hlt, hclose]

theorem toList_sanitizeInline (text : String) :
    (sanitizeInline isLetter text).toList = sanitizeFrom isLetter 0 text.toList := by
  unfold sanitizeInline
  split
  · rw [String.toList_ofList]
  · next hno =>
    refine (sanitizeFrom_of_no_tag fun i h => hno ?_).symm
    exact List.contains_iff_mem.mpr (List.mem_of_mem_drop h.lt_mem.1)

end Tags

/-! ## Taking tags out once more -/

section Again

variable {isLetter : Char → Bool} {text rest out done piece : List Char} {c : Char}

/-- What is kept so far ends in a `<` that may still begin a tag. -/
def isOpen (isLetter : Char → Bool) (done : List Char) : Bool :=
  done.tails.any fun d =>
    d.head? == some '<' && !d.contains '>' &&
      (d == ['<'] || d == ['<', '/'] || startsTagName isLetter d.tail)

/-- No tag stands behind a `<` that is kept and may still begin one. -/
def settledFrom (isLetter : Char → Bool) (done : List Char) : Nat → List Char → Bool
  | _, [] => true
  | skip + 1, _ :: text => settledFrom isLetter done skip text
  | 0, c :: text =>
    match tagLength isLetter (c :: text) with
    | some n => !isOpen isLetter done && settledFrom isLetter done (n - 1) text
    | none => settledFrom isLetter (done ++ [c]) 0 text

/-- No tag begins in what is kept, as long as `text` follows. -/
def NoTag (isLetter : Char → Bool) (done text : List Char) : Prop :=
  ∀ i < done.length, ¬ StartsWithTag isLetter (done.drop i ++ text)

theorem NoTag.keep (h : NoTag isLetter done (c :: rest))
    (hno : ¬ StartsWithTag isLetter (c :: rest)) : NoTag isLetter (done ++ [c]) rest := by
  intro i hi
  rw [List.length_append, List.length_singleton] at hi
  by_cases hlast : i = done.length
  · rw [hlast, List.drop_left]
    exact hno
  · rw [List.drop_append_of_le_length (by omega), List.append_assoc]
    exact h i (by omega)

/-- A tag that goes beyond what is kept begins at a `<` that is open. -/
theorem isOpen_of_split {d front : List Char} (hdone : done = front ++ d) {inner rest' : List Char}
    (hpiece : d ++ rest' = '<' :: (inner ++ ['>'])) (hinner : '>' ∉ inner)
    (hname : startsTagName isLetter (inner ++ ['>']) = true) (hd : d ≠ []) (hrest : rest' ≠ []) :
    isOpen isLetter done = true := by
  cases d with
  | nil => exact absurd rfl hd
  | cons x s =>
    obtain ⟨rfl, hs⟩ := List.cons.inj hpiece
    -- the part in front of the tag's own `>`
    obtain ⟨last, tail, rfl⟩ : ∃ last tail, rest' = tail ++ [last] :=
      ⟨_, _, (List.dropLast_append_getLast hrest).symm⟩
    have hsame : (s ++ tail) ++ [last] = inner ++ ['>'] := by
      rw [List.append_assoc]
      exact hs
    obtain ⟨hfront, -⟩ := List.append_inj' hsame rfl
    have hclosed : '>' ∉ s := fun h => hinner (by rw [← hfront]; exact List.mem_append_left _ h)
    have hstart : s = [] ∨ s = ['/'] ∨ startsTagName isLetter s = true := by
      rw [← hfront, List.append_assoc] at hname
      cases s with
      | nil => exact .inl rfl
      | cons y s =>
        by_cases hslash : y = '/'
        · subst hslash
          cases s with
          | nil => exact .inr (.inl rfl)
          | cons z s => exact .inr (.inr hname)
        · refine .inr (.inr ?_)
          rw [List.cons_append, startsTagName_cons hslash] at hname
          rw [startsTagName_cons hslash]
          exact hname
    rw [isOpen, List.any_eq_true]
    refine ⟨'<' :: s, (List.mem_tails _ _).mpr ⟨front, hdone.symm⟩, ?_⟩
    rcases hstart with rfl | rfl | hname
    · rfl
    · rfl
    · simp [hclosed, hname]

theorem NoTag.tag (h : NoTag isLetter done (piece ++ rest)) (hopen : isOpen isLetter done = false) :
    NoTag isLetter done rest := by
  rintro i hi ⟨piece', rest', heq, htag⟩
  have hd : done.drop i ≠ [] := by
    rw [Ne, List.drop_eq_nil_iff]
    omega
  rcases List.append_eq_append_iff.mp heq with ⟨more, hpiece, hrest⟩ | ⟨more, hdrop, hrest⟩
  · by_cases hmore : more = []
    · refine h i hi ⟨piece', piece ++ rest, ?_, htag⟩
      rw [hpiece, hmore, List.append_nil]
    · obtain ⟨inner, hinner, hclosed, hname, -⟩ := htag
      have hsplit := isOpen_of_split (List.take_append_drop i done).symm (hpiece.symm.trans hinner)
        hclosed hname hd hmore
      rw [hopen] at hsplit
      cases hsplit
  · refine h i hi ⟨piece', more ++ (piece ++ rest), ?_, htag⟩
    rw [hdrop, List.append_assoc]

/-- What the loop keeps has no tag when it is looked at again. -/
theorem noTag_sanitizeFrom : ∀ (text done : List Char) (skip : Nat),
    settledFrom isLetter done skip text = true → NoTag isLetter done (text.drop skip) →
    NoTag isLetter (done ++ sanitizeFrom isLetter skip text) [] := by
  intro text
  induction text with
  | nil =>
    intro done skip _ hno
    rw [sanitizeFrom, List.append_nil]
    rwa [List.drop_nil] at hno
  | cons c text ih =>
    intro done skip hsettled hno
    cases skip with
    | succ skip => exact ih done skip hsettled hno
    | zero =>
      cases hlength : tagLength isLetter (c :: text) with
      | none =>
        have hstart := tagLength_eq_none_iff.mp hlength
        rw [settledFrom, hlength] at hsettled
        have hkept := ih (done ++ [c]) 0 hsettled (NoTag.keep hno hstart)
        rw [List.append_assoc] at hkept
        rw [sanitizeFrom_keep hstart]
        exact hkept
      | some n =>
        obtain ⟨piece, rest, hpiece, htag, hn⟩ := isTag_of_tagLength hlength
        rw [settledFrom, hlength] at hsettled
        obtain ⟨hopen, hsettled⟩ := Bool.and_eq_true_iff.mp hsettled
        rw [Bool.not_eq_true'] at hopen
        have hdrop : text.drop (n - 1) = rest := by
          have hpos := List.length_pos_iff.mpr htag.ne_nil
          have hall : (c :: text).drop n = rest := by
            rw [hpiece, ← hn, List.drop_left]
          obtain ⟨k, rfl⟩ : ∃ k, n = k + 1 := ⟨n - 1, by omega⟩
          exact hall
        have hbefore : NoTag isLetter done (piece ++ rest) := by
          rw [← hpiece]
          exact hno
        have hkept := ih done (n - 1) hsettled (by rw [hdrop]; exact hbefore.tag hopen)
        have hstep : sanitizeFrom isLetter 0 (c :: text) = sanitizeFrom isLetter (n - 1) text := by
          rw [sanitizeFrom, hlength]
        rw [hstep]
        exact hkept

theorem sanitizeFrom_again (h : settledFrom isLetter [] 0 text = true) :
    sanitizeFrom isLetter 0 (sanitizeFrom isLetter 0 text) = sanitizeFrom isLetter 0 text := by
  have hkept := noTag_sanitizeFrom text [] 0 h fun i hi => absurd hi (Nat.not_lt_zero i)
  refine sanitizeFrom_of_no_tag fun i => ?_
  by_cases hi : i < (sanitizeFrom isLetter 0 text).length
  · have hno := hkept i hi
    rwa [List.append_nil] at hno
  · rw [List.drop_eq_nil_of_le (Nat.le_of_not_lt hi)]
    exact fun hstart => absurd hstart.lt_mem.1 List.not_mem_nil

end Again

/-- From left to right the tags are left out and all else is kept: so is a text without
one, in particular one without a `>`, and an autolink or address with no angle bracket
inside.  Nothing is left to take out unless a tag stood behind a `<` that is kept and
could still begin one. -/
theorem sanitizeInline_spec (isLetter : Char → Bool) (text : String) :
    (∀ out, Sanitizes isLetter text.toList out ↔
      out = (sanitizeInline isLetter text).toList) ∧
    ((∀ i, ¬ StartsWithTag isLetter (text.toList.drop i)) → sanitizeInline isLetter text = text) ∧
    (∀ inner rest, '<' ∉ inner → '>' ∉ inner → isAutolinkOrEmail inner = true →
      sanitizeFrom isLetter 0 ('<' :: (inner ++ '>' :: rest)) =
        '<' :: (inner ++ '>' :: sanitizeFrom isLetter 0 rest)) ∧
    (settledFrom isLetter [] 0 text.toList = true →
      sanitizeInline isLetter (sanitizeInline isLetter text) = sanitizeInline isLetter text) := by
  have htext := @toList_sanitizeInline isLetter text
  refine ⟨fun out => ?_, fun hno => ?_,
    fun inner rest hlt hgt hlink => sanitizeFrom_autolink hlt hgt hlink rest, fun hsettled => ?_⟩
  · rw [htext]
    constructor
    · exact fun h => (sanitizeFrom_eq_of_sanitizes h).symm
    · rintro rfl
      exact sanitizes_sanitizeFrom _ text.toList (Nat.le_refl _)
  · apply String.toList_inj.mp
    rw [htext, sanitizeFrom_of_no_tag hno]
  · apply String.toList_inj.mp
    rw [toList_sanitizeInline, htext, sanitizeFrom_again hsettled]

theorem sanitizeInline_spec_bold :
    sanitizeInline Char.isAlpha (sanitizeInline Char.isAlpha "<b>x</b> < y, a<b") =
      sanitizeInline Char.isAlpha "<b>x</b> < y, a<b" :=
  (sanitizeInline_spec Char.isAlpha "<b>x</b> < y, a<b").2.2.2 (by decide)

/-- A code span, a comparison with a `>` behind it, two `<` in one piece, and what is
left of two tags. -/
theorem sanitizeInline_loses :
    sanitizeInline Char.isAlpha "`Vec<T>`" = "`Vec`" ∧
      sanitizeInline Char.isAlpha "a<b or c>d" = "ad" ∧
      sanitizeInline Char.isAlpha "x <i <b>y" = "x y" ∧
      sanitizeInline Char.isAlpha "<<b>i>" = "<i>" ∧ sanitizeInline Char.isAlpha "<i>" = "" := by
  decide

end Markdown
end Panops
