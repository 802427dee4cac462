import Mathlib.Algebra.Group.Nat.Defs
import Mathlib.Data.List.Induction

/-!
# Bytes

Big-endian numbers, and payloads under a repeated mask.
-/

namespace Panops
namespace Lib
namespace Bytes

/-! ## Big-endian numbers -/

def bigEndian (bytes : List UInt8) : Nat := bytes.foldl (fun n byte => n * 256 + byte.toNat) 0

/-- The last `width` bytes of `n`. -/
def toBigEndian : Nat → Nat → List UInt8
  | 0, _ => []
  | width + 1, n => toBigEndian width (n / 256) ++ [UInt8.ofNat n]

@[simp] theorem bigEndian_nil : bigEndian [] = 0 := rfl

theorem bigEndian_concat (bytes : List UInt8) (byte : UInt8) :
    bigEndian (bytes ++ [byte]) = bigEndian bytes * 256 + byte.toNat := by
  simp [bigEndian]

theorem bigEndian_lt (bytes : List UInt8) : bigEndian bytes < 256 ^ bytes.length := by
  induction bytes using List.reverseRecOn with
  | nil => exact Nat.one_pos
  | append_singleton bytes byte ih =>
    have hbyte := byte.toNat_lt
    rw [bigEndian_concat, List.length_append, List.length_singleton, Nat.pow_succ]
    omega

@[simp] theorem length_toBigEndian (width n : Nat) : (toBigEndian width n).length = width := by
  induction width generalizing n with
  | zero => rfl
  | succ width ih => simp [toBigEndian, ih]

theorem bigEndian_toBigEndian {width n : Nat} (h : n < 256 ^ width) :
    bigEndian (toBigEndian width n) = n := by
  induction width generalizing n with
  | zero =>
    rw [Nat.pow_zero] at h
    show 0 = n
    omega
  | succ width ih =>
    have hhigh : n / 256 < 256 ^ width := by
      rw [Nat.div_lt_iff_lt_mul (by omega), ← Nat.pow_succ]
      exact h
    have hlow : (UInt8.ofNat n).toNat = n % 256 := UInt8.toNat_ofNat'
    rw [toBigEndian, bigEndian_concat, ih hhigh, hlow]
    omega

/-- A byte that is appended in an accumulator of 64 bits. -/
theorem toNat_shift_or (acc : UInt64) (byte : UInt8) :
    ((acc <<< 8) ||| byte.toUInt64).toNat = (acc.toNat * 256 + byte.toNat) % 2 ^ 64 := by
  have hbyte : byte.toNat < 2 ^ 8 := byte.toNat_lt
  have hshift : ((acc <<< 8) : UInt64).toNat = acc.toNat % 2 ^ 56 * 2 ^ 8 := by
    rw [UInt64.toNat_shiftLeft]
    show acc.toNat <<< 8 % 2 ^ 64 = _
    rw [Nat.shiftLeft_eq]
    omega
  rw [UInt64.toNat_or, hshift, UInt8.toNat_toUInt64, ← Nat.shiftLeft_eq,
    ← Nat.shiftLeft_add_eq_or_of_lt hbyte, Nat.shiftLeft_eq]
  omega

/-- As many bytes as fit make up their big-endian number. -/
theorem toNat_foldl_shift_or {bytes : List UInt8} (h : bytes.length ≤ 8) :
    (bytes.foldl (fun (acc : UInt64) byte => (acc <<< 8) ||| byte.toUInt64) 0).toNat =
      bigEndian bytes := by
  induction bytes using List.reverseRecOn with
  | nil => rfl
  | append_singleton bytes byte ih =>
    rw [List.length_append, List.length_singleton] at h
    have hlt : bigEndian (bytes ++ [byte]) < 2 ^ 64 := by
      calc bigEndian (bytes ++ [byte]) < 256 ^ (bytes ++ [byte]).length := bigEndian_lt _
        _ ≤ 256 ^ 8 := Nat.pow_le_pow_right (by omega) (by simpa using h)
        _ = 2 ^ 64 := by rfl
    rw [List.foldl_append, List.foldl_cons, List.foldl_nil, toNat_shift_or, ih (by omega),
      ← bigEndian_concat, Nat.mod_eq_of_lt hlt]

/-! ## Masks -/

/-- Byte `i` is combined with byte `i % 4` of a mask of four bytes. -/
def masked (mask payload : List UInt8) : List UInt8 :=
  payload.mapIdx fun i byte => byte ^^^ mask.getD (i % 4) 0

@[simp] theorem length_masked (mask payload : List UInt8) :
    (masked mask payload).length = payload.length :=
  List.length_mapIdx

theorem masked_masked (mask payload : List UInt8) : masked mask (masked mask payload) = payload := by
  apply List.ext_getElem
  · simp
  · intro i h₁ h₂
    simp only [masked, List.getElem_mapIdx]
    rw [UInt8.xor_assoc, UInt8.xor_self, UInt8.xor_zero]

end Bytes
end Lib
end Panops
