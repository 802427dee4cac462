import Mathlib.Data.List.Induction
import Panops.Lib.Text

/-!
# Slices of a text by bytes

A text is kept as its characters and cut at byte offsets of its UTF-8 form.  A cut
inside a character, or behind the end, has no result.
-/

namespace Panops
namespace Lib
namespace Text

/-- The bytes of the text. -/
def encode (s : List Char) : List UInt8 := s.flatMap String.utf8EncodeChar

def byteLength (s : List Char) : Nat := (encode s).length

/-- `&s[n..]`. -/
def dropBytes : List Char → Nat → Option (List Char)
  | [], n => if n = 0 then some [] else none
  | c :: s, n =>
    if n = 0 then some (c :: s)
    else if c.utf8Size ≤ n then dropBytes s (n - c.utf8Size)
    else none

/-- `&s[..n]`. -/
def takeBytes : List Char → Nat → Option (List Char)
  | [], n => if n = 0 then some [] else none
  | c :: s, n =>
    if n = 0 then some []
    else if c.utf8Size ≤ n then (takeBytes s (n - c.utf8Size)).map (c :: ·)
    else none

/-- `&s[a..b]`. -/
def sliceBytes (s : List Char) (a b : Nat) : Option (List Char) :=
  if a ≤ b then (dropBytes s a).bind fun rest => takeBytes rest (b - a) else none

/-- Where the character at `i` starts. -/
def byteOffset (s : List Char) (i : Nat) : Nat := byteLength (s.take i)

variable {s front mid rest : List Char} {c : Char} {i j : Nat}

theorem encode_append (s rest : List Char) : encode (s ++ rest) = encode s ++ encode rest :=
  List.flatMap_append

theorem encode_cons (c : Char) (s : List Char) :
    encode (c :: s) = String.utf8EncodeChar c ++ encode s := List.flatMap_cons

theorem byteLength_nil : byteLength [] = 0 := rfl

theorem byteLength_append (s rest : List Char) :
    byteLength (s ++ rest) = byteLength s + byteLength rest := by
  rw [byteLength, encode_append, List.length_append]
  rfl

theorem byteLength_cons (c : Char) (s : List Char) :
    byteLength (c :: s) = c.utf8Size + byteLength s := by
  rw [byteLength, encode_cons, List.length_append, String.length_utf8EncodeChar]
  rfl

theorem dropBytes_append (front rest : List Char) :
    dropBytes (front ++ rest) (byteLength front) = some rest := by
  induction front with
  | nil => cases rest <;> rfl
  | cons c front ih =>
    have hsize := c.utf8Size_pos
    rw [List.cons_append, byteLength_cons, dropBytes, if_neg (by omega), if_pos (by omega),
      Nat.add_sub_cancel_left, ih]

theorem takeBytes_append (front rest : List Char) :
    takeBytes (front ++ rest) (byteLength front) = some front := by
  induction front with
  | nil => cases rest <;> rfl
  | cons c front ih =>
    have hsize := c.utf8Size_pos
    rw [List.cons_append, byteLength_cons, takeBytes, if_neg (by omega), if_pos (by omega),
      Nat.add_sub_cancel_left, ih]
    rfl

/-- A slice between characters. -/
theorem sliceBytes_append (front mid rest : List Char) :
    sliceBytes (front ++ (mid ++ rest)) (byteLength front) (byteLength front + byteLength mid) =
      some mid := by
  rw [sliceBytes, if_pos (Nat.le_add_right _ _), dropBytes_append, Option.bind_some,
    Nat.add_sub_cancel_left, takeBytes_append]

theorem dropBytes_byteOffset (s : List Char) (i : Nat) :
    dropBytes s (byteOffset s i) = some (s.drop i) := by
  have hcut := dropBytes_append (s.take i) (s.drop i)
  rwa [List.take_append_drop] at hcut

theorem byteOffset_add (s : List Char) (i n : Nat) :
    byteOffset s (i + n) = byteOffset s i + byteLength ((s.drop i).take n) := by
  rw [byteOffset, List.take_add, byteLength_append]
  rfl

theorem sliceBytes_byteOffset (s : List Char) (i n : Nat) :
    sliceBytes s (byteOffset s i) (byteOffset s (i + n)) = some ((s.drop i).take n) := by
  have hcut := sliceBytes_append (s.take i) ((s.drop i).take n) ((s.drop i).drop n)
  rw [List.take_append_drop, List.take_append_drop] at hcut
  rw [byteOffset_add]
  exact hcut

theorem byteOffset_le (h : i ≤ j) : byteOffset s i ≤ byteOffset s j := by
  obtain ⟨n, rfl⟩ := Nat.exists_eq_add_of_le h
  rw [byteOffset_add]
  exact Nat.le_add_right _ _

theorem byteOffset_lt_iff (hi : i < s.length) : byteOffset s i < byteOffset s j ↔ i < j := by
  constructor
  · intro h
    by_contra hle
    have hback := byteOffset_le (s := s) (Nat.le_of_not_lt hle)
    omega
  · intro h
    have hnext : byteOffset s (i + 1) = byteOffset s i + s[i].utf8Size := by
      rw [byteOffset_add, List.drop_eq_getElem_cons hi, List.take_succ_cons, List.take_zero,
        byteLength_cons, byteLength_nil, Nat.add_zero]
    have hsize := s[i].utf8Size_pos
    have hle := byteOffset_le (s := s) (i := i + 1) (j := j) h
    omega

/-! ## Characters of one byte -/

def isAsciiDigit (b : UInt8) : Bool := 48 ≤ b && b ≤ 57

theorem utf8Size_eq_one (h : c.toNat ≤ 127) : c.utf8Size = 1 := by
  rw [Char.utf8Size, if_pos]
  exact UInt32.le_iff_toNat_le.mpr h

theorem byteLength_eq_length (h : ∀ c ∈ s, c.toNat ≤ 127) : byteLength s = s.length := by
  induction s with
  | nil => rfl
  | cons c s ih =>
    rw [byteLength_cons, utf8Size_eq_one (h c List.mem_cons_self),
      ih fun d hd => h d (List.mem_cons_of_mem c hd), List.length_cons, Nat.add_comm]

theorem toNat_le_of_isDigit (h : c.isDigit = true) : c.toNat ≤ 127 := by
  simp only [Char.isDigit, Bool.and_eq_true, decide_eq_true_eq] at h
  have hle : c.toNat ≤ 57 := h.2
  omega

/-- The first byte of a character is a digit only if the character is. -/
theorem exists_utf8EncodeChar (c : Char) :
    ∃ b bs, String.utf8EncodeChar c = b :: bs ∧ isAsciiDigit b = c.isDigit := by
  have hdigit : c.isDigit = true ↔ 48 ≤ c.val.toNat ∧ c.val.toNat ≤ 57 := by
    simp only [Char.isDigit, Bool.and_eq_true, decide_eq_true_eq, ge_iff_le,
      UInt32.le_iff_toNat_le]
    exact Iff.rfl
  have hbyte : ∀ n, isAsciiDigit (UInt8.ofNat n) = true ↔ 48 ≤ n % 256 ∧ n % 256 ≤ 57 := by
    intro n
    simp only [isAsciiDigit, Bool.and_eq_true, decide_eq_true_eq, UInt8.le_iff_toNat_le,
      UInt8.toNat_ofNat']
    exact Iff.rfl
  unfold String.utf8EncodeChar
  simp only
  split
  · refine ⟨_, _, rfl, ?_⟩
    rw [Bool.eq_iff_iff, hdigit, hbyte]
    omega
  split
  · refine ⟨_, _, rfl, ?_⟩
    rw [Bool.eq_iff_iff, hdigit, hbyte]
    omega
  split
  · refine ⟨_, _, rfl, ?_⟩
    rw [Bool.eq_iff_iff, hdigit, hbyte]
    omega
  · refine ⟨_, _, rfl, ?_⟩
    rw [Bool.eq_iff_iff, hdigit, hbyte]
    omega

/-- Counting the digits among the bytes counts them among the characters. -/
theorem length_takeWhile_encode (s : List Char) :
    ((encode s).takeWhile isAsciiDigit).length = (s.takeWhile Char.isDigit).length := by
  induction s with
  | nil => rfl
  | cons c s ih =>
    cases hc : c.isDigit with
    | true =>
      have hsize : (String.utf8EncodeChar c).length = 1 := by
        rw [String.length_utf8EncodeChar, utf8Size_eq_one (toNat_le_of_isDigit hc)]
      obtain ⟨b, bs, hbytes, hb⟩ := exists_utf8EncodeChar c
      rw [hbytes, List.length_cons, Nat.add_eq_right, List.length_eq_zero_iff] at hsize
      rw [encode_cons, hbytes, hsize, List.singleton_append,
        List.takeWhile_cons_of_pos (hb.trans hc), List.takeWhile_cons_of_pos hc, List.length_cons,
        List.length_cons, ih]
    | false =>
      obtain ⟨b, bs, hbytes, hb⟩ := exists_utf8EncodeChar c
      rw [encode_cons, hbytes, List.cons_append, List.takeWhile_cons_of_neg (by simp [hb, hc]),
        List.takeWhile_cons_of_neg (by simp [hc])]
      rfl

end Text
end Lib
end Panops
