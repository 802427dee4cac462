import Panops.Lib.Serde

/-!
# Keyed containers

What a Swift `Decodable` reads of a JSON object: a value under a key has to be there and
of its type, an optional one may be missing or `null`, and other members are not looked
at.
-/

namespace Panops
namespace Lib
namespace Codable

open Decimal Serde

variable {α : Type}

/-- `decoder.container(keyedBy:)`, which fails on anything but an object. -/
def container (v : Value) : Option (List (String × Value)) := v.asObject

def decode (read : Value → Option α) (c : List (String × Value)) (key : String) : Option α :=
  (c.lookup key).bind read

def decodeIfPresent (read : Value → Option α) (c : List (String × Value)) (key : String) :
    Option (Option α) :=
  readOptional read (c.lookup key)

/-- An `Int` from a number without a fraction. -/
def asInt : Value → Option Int
  | .number text =>
    match text.toList with
    | '-' :: ds =>
      if ds ≠ [] ∧ ds.all Char.isDigit ∧ value ds ≤ 2 ^ 63 then some (-(value ds : Int)) else none
    | ds => if ds ≠ [] ∧ ds.all Char.isDigit ∧ value ds < 2 ^ 63 then some (value ds : Int) else none
  | _ => none

/-! ## What serde has written -/

theorem asInt_ofU32 (n : UInt32) : asInt (ofU32 n) = some (n.toNat : Int) := by
  have hall : ∀ c ∈ digits n.toNat, c.isDigit = true := fun c hc => isDigit_of_mem_digits hc
  have hlt : n.toNat < 2 ^ 63 := Nat.lt_trans (UInt32.toNat_lt_size n) (by decide)
  rw [ofU32, asInt, String.toList_ofList]
  split
  · next ds hds =>
    have hminus := hall '-' (by rw [hds]; exact List.mem_cons_self ..)
    exact absurd hminus (by decide)
  · rw [value_digits, if_pos ⟨digits_ne_nil _, List.all_eq_true.mpr hall, hlt⟩]

/-- One field read, the rest of the decoder on its value. -/
theorem bind_of_eq_some {β : Type} {o : Option α} {a : α} (h : o = some a) (f : α → Option β) :
    (o >>= f) = f a := by
  rw [h, Option.bind_eq_bind, Option.bind_some]

theorem decode_cons_self (read : Value → Option α) (key : String) (v : Value)
    (c : List (String × Value)) : decode read ((key, v) :: c) key = read v := by
  rw [decode, List.lookup_cons_self, Option.bind_some]

theorem decode_cons_of_ne {key other : String} (h : key ≠ other) (read : Value → Option α)
    (v : Value) (c : List (String × Value)) :
    decode read ((other, v) :: c) key = decode read c key := by
  rw [decode, List.lookup_cons, beq_eq_false_iff_ne.mpr h, decode]

/-- An optional field that is skipped when it is `none`, read as another type. -/
theorem readOptional_writeOptional {β : Type} {read : Value → Option α} {write : β → Value}
    {f : β → α} (hread : ∀ b, read (write b) = some (f b)) (hnull : ∀ b, write b ≠ .null)
    (key : String) (b : Option β) :
    readOptional read ((writeOptional key write b).lookup key) = some (b.map f) := by
  cases b with
  | none => rfl
  | some b =>
    rw [writeOptional, List.lookup_cons_self]
    cases hw : write b with
    | null => exact absurd hw (hnull b)
    | bool | number | string | array | object =>
      rw [readOptional, ← hw, hread]
      · rfl
      · intro h
        cases h

end Codable
end Lib
end Panops
