import Panops.Json
import Panops.Lib.Decimal

/-!
# Derived readers and writers of JSON values

What `#[derive(Serialize, Deserialize)]` does with a struct and with an internally
tagged enum.  A struct is read from an object by the names of its fields, or from an
array by their places; other members are ignored.
-/

namespace Panops
namespace Lib
namespace Serde

open Lib.Decimal

/-! ## Scalars -/

/-- A number is kept by its text: a `u32` has one with digits only. -/
def asU32 : Value → Option UInt32
  | .number text => if text.toList.all Char.isDigit then parseU32 text.toList else none
  | _ => none

def ofU32 (n : UInt32) : Value := .number (String.ofList (digits n.toNat))

/-- `Vec<String>`. -/
def asStrings (v : Value) : Option (List String) := v.asArray.bind (List.mapM Value.asStr)

def ofStrings (ss : List String) : Value := .array (ss.map .string)

def asU64 : Value → Option UInt64
  | .number text =>
    if text.toList ≠ [] ∧ text.toList.all Char.isDigit ∧ value text.toList < 2 ^ 64 then
      some (UInt64.ofNat (value text.toList))
    else none
  | _ => none

def ofU64 (n : UInt64) : Value := .number (String.ofList (digits n.toNat))

def asBool : Value → Option Bool
  | .bool b => some b
  | _ => none

theorem asStr_string (s : String) : (Value.string s).asStr = some s := rfl

theorem asBool_bool (b : Bool) : asBool (.bool b) = some b := rfl

theorem asU64_ofU64 (n : UInt64) : asU64 (ofU64 n) = some n := by
  have hdigits : (digits n.toNat).all Char.isDigit = true :=
    List.all_eq_true.mpr fun c hc => isDigit_of_mem_digits hc
  rw [ofU64, asU64, String.toList_ofList, value_digits,
    if_pos ⟨digits_ne_nil _, hdigits, UInt64.toNat_lt_size n⟩, UInt64.ofNat_toNat]

theorem asU32_ofU32 (n : UInt32) : asU32 (ofU32 n) = some n := by
  have hdigits : (digits n.toNat).all Char.isDigit = true :=
    List.all_eq_true.mpr fun c hc => isDigit_of_mem_digits hc
  rw [ofU32, asU32, String.toList_ofList, if_pos hdigits, parseU32_digits]

/-- An `i32`, or the number of a `Swift.Int` that fits in one. -/
def asI32 : Value → Option Int
  | .number text =>
    match text.toList with
    | '-' :: ds =>
      if ds ≠ [] ∧ ds.all Char.isDigit ∧ value ds ≤ 2 ^ 31 then some (-(value ds : Int)) else none
    | ds => if ds ≠ [] ∧ ds.all Char.isDigit ∧ value ds < 2 ^ 31 then some (value ds : Int) else none
  | _ => none

def ofInt : Int → Value
  | .ofNat n => .number (String.ofList (digits n))
  | .negSucc n => .number (String.ofList ('-' :: digits (n + 1)))

theorem asStrings_ofStrings (ss : List String) : asStrings (ofStrings ss) = some ss := by
  have hmap : ∀ l : List String, (l.map Value.string).mapM Value.asStr = some l := by
    intro l
    induction l with
    | nil => rfl
    | cons s l ih =>
      rw [List.map_cons, List.mapM_cons, asStr_string, ih]
      rfl
  exact hmap ss

/-- A writer, and a reader that takes back what it has written. -/
structure Codec (α : Type) where
  write : α → Value
  read : Value → Option α
  read_write : ∀ a, read (write a) = some a
  write_ne_null : ∀ a, write a ≠ .null

/-! ## Structs -/

section Struct

variable {α : Type} {names : List String} {name : String}

/-- What is found for a field. -/
def field (names : List String) (v : Value) (name : String) : Option Value :=
  match v with
  | .object members => members.lookup name
  | .array elems => elems[names.idxOf name]?
  | _ => none

def isStruct (names : List String) : Value → Bool
  | .object _ => true
  | .array elems => elems.length ≤ names.length
  | _ => false

/-- The derived reader of a struct, `read` being given what is found under a name. -/
def readStruct (names : List String) (read : (String → Option Value) → Option α) (v : Value) :
    Option α :=
  if isStruct names v then read (field names v) else none

/-- A field with `#[serde(default)]` of an optional type. -/
def readOptional (read : Value → Option α) : Option Value → Option (Option α)
  | none => some none
  | some .null => some none
  | some v => (read v).map some

/-- A field with a default, of a type that is not optional. -/
def readOr (read : Value → Option α) (default : α) : Option Value → Option α
  | none => some default
  | some v => read v

/-- `skip_serializing_if = "Option::is_none"`. -/
def writeOptional (name : String) (write : α → Value) : Option α → List (String × Value)
  | none => []
  | some a => [(name, write a)]

theorem readStruct_object (read : (String → Option Value) → Option α)
    (members : List (String × Value)) :
    readStruct names read (.object members) = read fun name => members.lookup name := rfl

/-- A field that is written is found, as long as it is not written as `null`. -/
theorem readOptional_lookup_writeOptional {read : Value → Option α} {write : α → Value}
    (hread : ∀ a, read (write a) = some a) (hnull : ∀ a, write a ≠ .null) (a : Option α) :
    readOptional read ((writeOptional name write a).lookup name) = some a := by
  cases a with
  | none => rfl
  | some a =>
    have hfound : [(name, write a)].lookup name = some (write a) := by
      rw [List.lookup_cons_self]
    rw [writeOptional, hfound]
    cases hw : write a with
    | null => exact absurd hw (hnull a)
    | bool | number | string | array | object =>
      rw [readOptional, ← hw, hread]
      · rfl
      · exact fun h => nomatch h

theorem readOptional_some {read : Value → Option α} {v : Value} {a : α} (hread : read v = some a)
    (hnull : v ≠ .null) : readOptional read (some v) = some (some a) := by
  cases v with
  | null => exact absurd rfl hnull
  | bool | number | string | array | object =>
    show (read _).map some = _
    rw [hread, Option.map_some]

theorem lookup_writeOptional_of_ne {other : String} (h : other ≠ name) (write : α → Value)
    (a : Option α) : (writeOptional name write a).lookup other = none := by
  cases a with
  | none => rfl
  | some a =>
    have hne : (other == name) = false := beq_eq_false_iff_ne.mpr h
    rw [writeOptional, List.lookup_cons, hne]
    rfl

end Struct

/-! ## Internally tagged enums -/

/-- The tag, and what is left for the variant. -/
def untag (tag : String) : Value → Option (String × Value)
  | .object members =>
    ((members.lookup tag).bind Value.asStr).map fun kind =>
      (kind, .object (members.filter (·.1 ≠ tag)))
  | .array (.string kind :: rest) => some (kind, .array rest)
  | _ => none

/-- A unit variant ignores the members of an object; an array has to end there. -/
def readUnit {α : Type} (a : α) (v : Value) : Option α := readStruct [] (fun _ => some a) v

end Serde
end Lib
end Panops
