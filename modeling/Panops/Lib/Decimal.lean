import Mathlib.Algebra.Group.Nat.Defs

/-!
# Decimal numbers in text

Printing with a minimal width and parsing of a 32-bit unsigned number.
-/

namespace Panops
namespace Lib
namespace Decimal

/-- `{:0>width}` and `{:>width}`: fill on the left up to `width`. -/
def padLeft (fill : Char) (width : Nat) (s : List Char) : List Char :=
  List.replicate (width - s.length) fill ++ s

def digits (n : Nat) : List Char := Nat.toDigits 10 n

/-- `{n:0width}`. -/
def zeroPadded (width n : Nat) : List Char := padLeft '0' width (digits n)

def value (ds : List Char) : Nat := Nat.ofDigitChars 10 ds 0

@[simp] theorem value_digits (n : Nat) : value (digits n) = n := Nat.ofDigitChars_ten_toDigits

@[simp] theorem value_zeroPadded (width n : Nat) : value (zeroPadded width n) = n := by
  rw [value, zeroPadded, padLeft, Nat.ofDigitChars_append, Nat.ofDigitChars_replicate_zero,
    Nat.mul_zero]
  exact value_digits n

theorem zeroPadded_injective {width m n : Nat} (h : zeroPadded width m = zeroPadded width n) :
    m = n := by
  rw [← value_zeroPadded width m, h, value_zeroPadded]

theorem isDigit_of_mem_digits {n : Nat} {c : Char} (h : c ∈ digits n) : c.isDigit = true :=
  Nat.isDigit_of_mem_toDigits (by omega) (by omega) h

theorem isDigit_of_mem_zeroPadded {width n : Nat} {c : Char} (h : c ∈ zeroPadded width n) :
    c.isDigit = true := by
  rcases List.mem_append.mp h with h | h
  · obtain rfl := List.eq_of_mem_replicate h
    rfl
  · exact isDigit_of_mem_digits h

theorem digits_ne_nil (n : Nat) : digits n ≠ [] := Nat.toDigits_ne_nil

def stripPlus : List Char → List Char
  | '+' :: rest => rest
  | s => s

/-- `str::parse::<u32>`: an optional plus sign, then at least one digit and
nothing else, with a value that fits. -/
def parseU32 (s : List Char) : Option UInt32 :=
  if stripPlus s ≠ [] ∧ (stripPlus s).all Char.isDigit ∧ value (stripPlus s) < 2 ^ 32 then
    some (UInt32.ofNat (value (stripPlus s)))
  else none

theorem stripPlus_of_digits {ds : List Char} (hall : ∀ c ∈ ds, c.isDigit = true) :
    stripPlus ds = ds := by
  unfold stripPlus
  split
  · have : ('+' : Char).isDigit = true := hall '+' List.mem_cons_self
    simp at this
  · rfl

theorem parseU32_of_digits {ds : List Char} (hall : ∀ c ∈ ds, c.isDigit = true) :
    parseU32 ds =
      if ds ≠ [] ∧ value ds < 2 ^ 32 then some (UInt32.ofNat (value ds)) else none := by
  have hdigits : ds.all Char.isDigit = true := List.all_eq_true.mpr hall
  simp [parseU32, stripPlus_of_digits hall, hdigits]

theorem parseU32_digits {n : UInt32} : parseU32 (digits n.toNat) = some n := by
  rw [parseU32_of_digits (fun c hc => isDigit_of_mem_digits hc), value_digits,
    if_pos ⟨digits_ne_nil _, UInt32.toNat_lt_size n⟩, UInt32.ofNat_toNat]

/-! ## The order of numerals -/

theorem value_cons (c : Char) (ds : List Char) :
    value (c :: ds) = 10 ^ ds.length * (c.toNat - 48) + value ds := by
  rw [value, Nat.ofDigitChars_cons, Nat.ofDigitChars_eq_ofDigitChars_zero]
  simp [value]

theorem value_lt {ds : List Char} (hall : ∀ c ∈ ds, c.isDigit = true) :
    value ds < 10 ^ ds.length := by
  induction ds with
  | nil => exact Nat.one_pos
  | cons c ds ih =>
    have hrest := ih fun d hd => hall d (List.mem_cons_of_mem c hd)
    have hc : c.toNat - 48 ≤ 9 := by
      have hdigit := hall c List.mem_cons_self
      simp only [Char.isDigit, Bool.and_eq_true, decide_eq_true_eq] at hdigit
      have hle : c.toNat ≤ 57 := hdigit.2
      omega
    rw [value_cons, List.length_cons, Nat.pow_succ]
    have hmul := Nat.mul_le_mul_left (10 ^ ds.length) hc
    omega

/-- Among numerals of one length the order of the texts is that of the values. -/
theorem append_lt_append_of_value_lt {a b : List Char} (x y : List Char)
    (ha : ∀ c ∈ a, c.isDigit = true) (hb : ∀ c ∈ b, c.isDigit = true) (hlen : a.length = b.length)
    (h : value a < value b) : a ++ x < b ++ y := by
  induction a generalizing b with
  | nil =>
    obtain rfl := List.eq_nil_of_length_eq_zero hlen.symm
    exact absurd h (Nat.lt_irrefl _)
  | cons c a ih =>
    cases b with
    | nil => cases hlen
    | cons d b =>
      have hlen' : a.length = b.length := Nat.succ.inj hlen
      have hra := value_lt fun e he => ha e (List.mem_cons_of_mem c he)
      have hrb := value_lt fun e he => hb e (List.mem_cons_of_mem d he)
      have hc := ha c List.mem_cons_self
      have hd := hb d List.mem_cons_self
      simp only [Char.isDigit, Bool.and_eq_true, decide_eq_true_eq] at hc hd
      have hc48 : 48 ≤ c.toNat := hc.1
      have hd48 : 48 ≤ d.toNat := hd.1
      rw [value_cons, value_cons, hlen'] at h
      rw [hlen'] at hra
      rw [List.cons_append, List.cons_append, List.cons_lt_cons_iff]
      rcases Nat.lt_trichotomy c.toNat d.toNat with hlt | heq | hgt
      · exact Or.inl hlt
      · have hcd : c = d := Char.toNat_inj.mp heq
        subst hcd
        refine Or.inr ⟨rfl, ih (fun e he => ha e (List.mem_cons_of_mem c he))
          (fun e he => hb e (List.mem_cons_of_mem c he)) hlen' ?_⟩
        omega
      · -- A greater first digit outweighs whatever follows.
        have hstep : d.toNat - 48 + 1 ≤ c.toNat - 48 := by omega
        have hmul := Nat.mul_le_mul_left (10 ^ b.length) hstep
        rw [Nat.mul_add, Nat.mul_one] at hmul
        omega

theorem length_zeroPadded {width n : Nat} (hwidth : 0 < width) (h : n < 10 ^ width) :
    (zeroPadded width n).length = width := by
  have hdigits : (digits n).length ≤ width := (Nat.length_toDigits_le_iff (by omega) hwidth).mpr h
  simp only [zeroPadded, padLeft, List.length_append, List.length_replicate]
  omega

theorem append_lt_append_iff {a x y : List Char} : a ++ x < a ++ y ↔ x < y := by
  induction a with
  | nil => exact Iff.rfl
  | cons c a ih =>
    rw [List.cons_append, List.cons_append, List.cons_lt_cons_iff]
    exact ⟨fun h => ih.mp ((h.resolve_left (Char.lt_irrefl c)).2), fun h => .inr ⟨rfl, ih.mpr h⟩⟩

/-- Numbers of one width come before what follows them. -/
theorem zeroPadded_append_lt_iff {width m n : Nat} {x y : List Char} (hwidth : 0 < width)
    (hm : m < 10 ^ width) (hn : n < 10 ^ width) :
    zeroPadded width m ++ x < zeroPadded width n ++ y ↔ m < n ∨ m = n ∧ x < y := by
  have hlt : ∀ {m n x y}, m < 10 ^ width → n < 10 ^ width → m < n →
      zeroPadded width m ++ x < zeroPadded width n ++ y := by
    intro m n x y hm hn hmn
    refine append_lt_append_of_value_lt x y (fun c hc => isDigit_of_mem_zeroPadded hc)
      (fun c hc => isDigit_of_mem_zeroPadded hc) ?_ ?_
    · rw [length_zeroPadded hwidth hm, length_zeroPadded hwidth hn]
    · rw [value_zeroPadded, value_zeroPadded]
      exact hmn
  rcases Nat.lt_trichotomy m n with hmn | rfl | hmn
  · exact iff_of_true (hlt hm hn hmn) (.inl hmn)
  · rw [append_lt_append_iff]
    exact ⟨fun h => .inr ⟨rfl, h⟩, fun h => (h.resolve_left (Nat.lt_irrefl m)).2⟩
  · refine iff_of_false (fun h => List.lt_asymm h (hlt hn hm hmn)) ?_
    omega

end Decimal
end Lib
end Panops
