import Mathlib.Algebra.Group.Int.Defs
import Mathlib.Data.List.Sort
import Mathlib.Data.Rat.Defs
import Mathlib.Order.Basic
import Panops.Lib.Fallible
import Panops.Lib.Unrolling

/-!
# Schemas for generation

`FoundationModelCodecs.dynamicGenerationSchema`: a JSON Schema as the kind of schema that
FoundationModels generates content for.
-/

namespace Panops
namespace Mac

open Lib.Unrolling

/-- `Double` is kept as the rational it denotes, a dictionary as the list of its entries. -/
inductive JSONValue where
  | object (members : List (String × JSONValue))
  | array (elems : List JSONValue)
  | string (s : String)
  | int (i : Int)
  | double (d : ℚ)
  | bool (b : Bool)
  | null

namespace JSONValue

def objectValue : JSONValue → Option (List (String × JSONValue))
  | object v => some v
  | _ => none

def arrayValue : JSONValue → Option (List JSONValue)
  | array v => some v
  | _ => none

def stringValue : JSONValue → Option String
  | string v => some v
  | _ => none

end JSONValue

/-- `schema[key] = value` -/
def updated (schema : List (String × JSONValue)) (key : String) (value : JSONValue) :
    List (String × JSONValue) :=
  (key, value) :: schema.filter fun entry => entry.1 ≠ key

inductive CodecError where
  | invalidSchema (message : String)
  | unsupportedSchema (message : String)
  | invalidGeneratedJSON (message : String)
deriving DecidableEq

/-- How a translation ends without a schema: with an error, with the trap of a number that
is no `Int`, or, never, with too few turns. -/
inductive Failure where
  | thrown (e : CodecError)
  | trapped
  | unfinished
deriving DecidableEq

/-! ## Schemas of FoundationModels -/

/-- `DynamicGenerationSchema.Property` -/
structure SchemaProperty (σ : Type) where
  name : String
  description : Option String
  schema : σ
  isOptional : Bool

/-- A `DynamicGenerationSchema`, by the initialiser it comes from. -/
inductive DynamicGenerationSchema where
  | choices (name : String) (anyOf : List String)
  | union (name : String) (anyOf : List DynamicGenerationSchema)
  | object (name : String) (description : Option String)
      (properties : List (SchemaProperty DynamicGenerationSchema))
  | arrayOf (item : DynamicGenerationSchema) (minimumElements maximumElements : Option Int)
  | string
  | integer
  | number
  | boolean
  | null

/-! ## Names -/

/-- What Swift knows of characters. -/
structure CharacterTable where
  isLetter : Char → Bool
  isNumber : Char → Bool
  uppercased : Char → List Char

def CharacterTable.keeps (t : CharacterTable) (c : Char) : Bool := t.isLetter c || t.isNumber c

/-- `String(first).uppercased() + String(part.dropFirst())` -/
def CharacterTable.capitalized (t : CharacterTable) : List Char → List Char
  | [] => []
  | first :: rest => t.uppercased first ++ rest

/-- The words of a text, each with a capital, put together. -/
def CharacterTable.joined (t : CharacterTable) (raw : List Char) : List Char :=
  ((raw.splitOnP fun c => !t.keeps c).filter (· ≠ [])).flatMap t.capitalized

def CharacterTable.ascii : CharacterTable where
  isLetter := Char.isAlpha
  isNumber := Char.isDigit
  uppercased c := [c.toUpper]

def sanitizedTypeName (t : CharacterTable) (raw : String) : String :=
  let joined := t.joined raw.toList
  let candidate := if joined = [] then "PanopsSchema".toList else joined
  if (candidate.head?.map t.isNumber).getD false then String.ofList ("Panops".toList ++ candidate)
  else String.ofList candidate

/-! ## The translation -/

def typeNames (schema : List (String × JSONValue)) (name : String) :
    Except Failure (List String) :=
  match schema.lookup "type" with
  | none =>
    if (schema.lookup "properties").isSome then .ok ["object"]
    else if (schema.lookup "items").isSome then .ok ["array"]
    else if (schema.lookup "enum").isSome then .ok ["string"]
    else .error (.thrown (.invalidSchema ("schema " ++ name ++ " is missing type")))
  | some (.string s) => .ok [s]
  | some (.array a) =>
    let names := a.filterMap JSONValue.stringValue
    if names.length = a.length then .ok names
    else
      .error (.thrown (.invalidSchema ("type array for " ++ name ++ " must contain only strings")))
  | some _ =>
    .error (.thrown (.invalidSchema ("type for " ++ name ++ " must be a string or string array")))

def isNullSchema : JSONValue → Bool
  | .object schema => (schema.lookup "type").bind JSONValue.stringValue = some "null"
  | .null => true
  | _ => false

/-- `$0 != .string("null")` -/
def isNotNullName : JSONValue → Bool
  | .string s => s ≠ "null"
  | _ => true

def strippedTypes (types : List JSONValue) : JSONValue :=
  match types.filter isNotNullName with
  | [.string type] => .string type
  | nonNull => .array nonNull

def stripTypes (schema : List (String × JSONValue)) : List (String × JSONValue) :=
  match (schema.lookup "type").bind JSONValue.arrayValue with
  | some types => updated schema "type" (strippedTypes types)
  | none => schema

/-- The branches under `anyOf` or `oneOf` that are not only for null. -/
def stripBranches (key : String) (schema : List (String × JSONValue)) :
    List (String × JSONValue) :=
  match (schema.lookup key).bind JSONValue.arrayValue with
  | some branches => updated schema key (.array (branches.filter fun b => !isNullSchema b))
  | none => schema

def stripNullable : JSONValue → JSONValue
  | .object schema => .object (stripBranches "oneOf" (stripBranches "anyOf" (stripTypes schema)))
  | value => value

/-- `available` tells whether the system is macOS 26.4 or later. -/
def nullSchema (available : Bool) (name : String) : Except Failure DynamicGenerationSchema :=
  if available then .ok .null
  else
    .error (.thrown (.unsupportedSchema ("null schema for " ++ name ++ " requires macOS 26.4")))

def description (value : JSONValue) : Option String :=
  (value.objectValue.bind fun schema => schema.lookup "description").bind JSONValue.stringValue

/-- `Int(d)` cuts off what is behind the point, and traps outside of 64 bits. -/
def intValue : Option JSONValue → Except Failure (Option Int)
  | some (.int i) => .ok (some i)
  | some (.double d) =>
    let i := d.num.tdiv d.den
    if -2 ^ 63 ≤ i ∧ i < 2 ^ 63 then .ok (some i) else .error .trapped
  | _ => .ok none

/-- The schema and the name of a call. -/
abbrev SchemaCall := JSONValue × String

section Body

variable (t : CharacterTable) (available : Bool)
  (go : SchemaCall → Except Failure DynamicGenerationSchema)

def enumSchema (name : String) (enumValues : List JSONValue) :
    Except Failure DynamicGenerationSchema := do
  let choices ← enumValues.mapM fun value =>
    match value.stringValue with
    | some s => .ok s
    | none =>
      .error (.thrown (.unsupportedSchema ("enum for " ++ name ++ " must contain only strings")))
  if choices = [] then
    .error (.thrown (.invalidSchema ("enum for " ++ name ++ " must not be empty")))
  else .ok (.choices name choices)

def choiceName (name : String) (index : Nat) : String := name ++ "Choice" ++ toString (index + 1)

def anyOfSchema (name : String) (anyOf : List JSONValue) :
    Except Failure DynamicGenerationSchema :=
  match anyOf.filter fun branch => !isNullSchema branch with
  | [] => nullSchema available name
  | [branch] => go (branch, name)
  | nonNull => do
    let choices ← nonNull.zipIdx.mapM fun choice => go (choice.1, choiceName name choice.2)
    .ok (.union name choices)

def narrowedSchema (schema : List (String × JSONValue)) (typeName : String) : JSONValue :=
  .object (updated schema "type" (.string typeName))

/-- The entries of `required` that are strings. -/
def requiredNames (schema : List (String × JSONValue)) : List String :=
  (((schema.lookup "required").bind JSONValue.arrayValue).getD []).filterMap JSONValue.stringValue

def properties (schema : List (String × JSONValue)) : List (String × JSONValue) :=
  ((schema.lookup "properties").bind JSONValue.objectValue).getD []

/-- `properties.keys.sorted()` -/
def propertyNames (schema : List (String × JSONValue)) : List String :=
  ((properties schema).map Prod.fst).insertionSort (· ≤ ·)

def propertyTypeName (name propertyName : String) : String :=
  sanitizedTypeName t (name ++ "_" ++ propertyName)

/-- What the loop over the properties makes of one. -/
def dynamicProperty (schema : List (String × JSONValue)) (name propertyName : String) :
    Except Failure (SchemaProperty DynamicGenerationSchema) :=
  match (properties schema).lookup propertyName with
  | none => .error (.thrown (.invalidSchema ("missing schema for property " ++ propertyName)))
  | some propertySchema => do
    let stripped := stripNullable propertySchema
    let schema' ← go (stripped, propertyTypeName t name propertyName)
    .ok { name := propertyName, description := description stripped, schema := schema'
          isOptional := !(requiredNames schema).contains propertyName }

def objectSchema (raw : JSONValue) (schema : List (String × JSONValue)) (name : String) :
    Except Failure DynamicGenerationSchema := do
  let dynamicProperties ← (propertyNames schema).mapM (dynamicProperty t go schema name)
  .ok (.object name (description raw) dynamicProperties)

def arraySchema (schema : List (String × JSONValue)) (name : String) :
    Except Failure DynamicGenerationSchema :=
  match schema.lookup "items" with
  | none => .error (.thrown (.invalidSchema ("array schema " ++ name ++ " is missing items")))
  | some items => do
    let item ← go (stripNullable items, name ++ "Item")
    let minimumElements ← intValue (schema.lookup "minItems")
    let maximumElements ← intValue (schema.lookup "maxItems")
    .ok (.arrayOf item minimumElements maximumElements)

/-- The `switch` over a single type. -/
def singleSchema (raw : JSONValue) (schema : List (String × JSONValue)) (name type : String) :
    Except Failure DynamicGenerationSchema :=
  match type with
  | "object" => objectSchema t go raw schema name
  | "array" => arraySchema go schema name
  | "string" => .ok .string
  | "integer" => .ok .integer
  | "number" => .ok .number
  | "boolean" => .ok .boolean
  | type => .error (.thrown (.unsupportedSchema ("type " ++ type ++ " for " ++ name)))

def typedSchema (raw : JSONValue) (schema : List (String × JSONValue)) (name : String) :
    Except Failure DynamicGenerationSchema := do
  let types ← typeNames schema name
  match types.filter (· ≠ "null") with
  | [] => nullSchema available name
  | [type] => singleSchema t go raw schema name type
  | nonNullTypes => do
    let choices ← nonNullTypes.mapM fun typeName =>
      go (narrowedSchema schema typeName, name ++ sanitizedTypeName t typeName)
    .ok (.union name choices)

/-- The body of `dynamicGenerationSchema`, which calls itself as `go`. -/
def schemaBody (call : SchemaCall) : Except Failure DynamicGenerationSchema :=
  match call.1.objectValue with
  | none =>
    .error (.thrown (.invalidSchema ("schema root for " ++ call.2 ++ " must be an object")))
  | some schema =>
    match (schema.lookup "enum").bind JSONValue.arrayValue with
    | some enumValues => enumSchema call.2 enumValues
    | none =>
      match ((schema.lookup "anyOf").bind JSONValue.arrayValue).or
          ((schema.lookup "oneOf").bind JSONValue.arrayValue) with
      | some anyOf => anyOfSchema available go call.2 anyOf
      | none => typedSchema t available go call.1 schema call.2

variable {schema : List (String × JSONValue)} {name : String}

theorem schemaBody_enum {choices : List JSONValue}
    (h : (schema.lookup "enum").bind JSONValue.arrayValue = some choices) :
    schemaBody t available go (.object schema, name) = enumSchema name choices := by
  simp only [schemaBody, JSONValue.objectValue, h]

theorem schemaBody_anyOf {branches : List JSONValue}
    (henum : (schema.lookup "enum").bind JSONValue.arrayValue = none)
    (h : ((schema.lookup "anyOf").bind JSONValue.arrayValue).or
      ((schema.lookup "oneOf").bind JSONValue.arrayValue) = some branches) :
    schemaBody t available go (.object schema, name) = anyOfSchema available go name branches := by
  simp only [schemaBody, JSONValue.objectValue, henum, h]

theorem schemaBody_typed (henum : (schema.lookup "enum").bind JSONValue.arrayValue = none)
    (h : ((schema.lookup "anyOf").bind JSONValue.arrayValue).or
      ((schema.lookup "oneOf").bind JSONValue.arrayValue) = none) :
    schemaBody t available go (.object schema, name) =
      typedSchema t available go (.object schema) schema name := by
  simp only [schemaBody, JSONValue.objectValue, henum, h]

end Body

/-! ## Turns enough -/

mutual
def JSONValue.size : JSONValue → Nat
  | .object members => 1 + sizeMembers members
  | .array elems => 1 + sizeElems elems
  | _ => 1

def JSONValue.sizeMembers : List (String × JSONValue) → Nat
  | [] => 0
  | (_, v) :: rest => v.size + sizeMembers rest

def JSONValue.sizeElems : List JSONValue → Nat
  | [] => 0
  | v :: rest => v.size + sizeElems rest
end

theorem size_le_of_lookup {members : List (String × JSONValue)} {key : String} {v : JSONValue}
    (h : members.lookup key = some v) : v.size ≤ JSONValue.sizeMembers members := by
  induction members with
  | nil => cases h
  | cons entry rest ih =>
    obtain ⟨k, w⟩ := entry
    rw [List.lookup_cons] at h
    rw [JSONValue.sizeMembers]
    split at h
    · obtain rfl := Option.some.inj h
      omega
    · have hrest := ih h
      omega

theorem size_le_of_mem {elems : List JSONValue} {v : JSONValue} (h : v ∈ elems) :
    v.size ≤ JSONValue.sizeElems elems := by
  induction elems with
  | nil => cases h
  | cons w rest ih =>
    rw [JSONValue.sizeElems]
    rcases List.mem_cons.mp h with rfl | h
    · omega
    · have hrest := ih h
      omega

theorem size_pos (v : JSONValue) : 0 < v.size := by
  cases v <;> simp only [JSONValue.size] <;> omega

theorem length_le_sizeElems (elems : List JSONValue) :
    elems.length ≤ JSONValue.sizeElems elems := by
  induction elems with
  | nil => exact Nat.zero_le _
  | cons v rest ih =>
    have hv := size_pos v
    rw [List.length_cons, JSONValue.sizeElems]
    omega

theorem sizeElems_filter_le (keep : JSONValue → Bool) (elems : List JSONValue) :
    JSONValue.sizeElems (elems.filter keep) ≤ JSONValue.sizeElems elems := by
  induction elems with
  | nil => exact Nat.le_refl _
  | cons v rest ih =>
    rw [List.filter_cons]
    split
    · rw [JSONValue.sizeElems, JSONValue.sizeElems]
      omega
    · rw [JSONValue.sizeElems]
      omega

theorem sizeMembers_filter_le (keep : String × JSONValue → Bool)
    (members : List (String × JSONValue)) :
    JSONValue.sizeMembers (members.filter keep) ≤ JSONValue.sizeMembers members := by
  induction members with
  | nil => exact Nat.le_refl _
  | cons entry rest ih =>
    rw [List.filter_cons]
    split
    · rw [JSONValue.sizeMembers, JSONValue.sizeMembers]
      omega
    · rw [JSONValue.sizeMembers]
      omega

/-- A value in another's place. -/
theorem sizeMembers_updated_le {schema : List (String × JSONValue)} {key : String}
    {old : JSONValue} (h : schema.lookup key = some old) (value : JSONValue) :
    JSONValue.sizeMembers (updated schema key value) + old.size ≤
      JSONValue.sizeMembers schema + value.size := by
  have hrest : JSONValue.sizeMembers (schema.filter fun entry => entry.1 ≠ key) + old.size ≤
      JSONValue.sizeMembers schema := by
    induction schema with
    | nil => cases h
    | cons entry rest ih =>
      obtain ⟨k, w⟩ := entry
      by_cases hk : k = key
      · subst hk
        rw [List.lookup_cons_self] at h
        obtain rfl := Option.some.inj h
        have hfilter := sizeMembers_filter_le (fun entry => entry.1 ≠ k) rest
        rw [List.filter_cons_of_neg (by simp), JSONValue.sizeMembers]
        omega
      · rw [List.lookup_cons, beq_eq_false_iff_ne.mpr fun heq => hk heq.symm] at h
        have hfilter := ih h
        rw [List.filter_cons_of_pos (by simpa using hk), JSONValue.sizeMembers,
          JSONValue.sizeMembers]
        omega
  rw [updated, JSONValue.sizeMembers]
  omega

theorem sizeMembers_stripTypes_le (schema : List (String × JSONValue)) :
    JSONValue.sizeMembers (stripTypes schema) ≤ JSONValue.sizeMembers schema := by
  unfold stripTypes
  split
  · next types htypes =>
    obtain ⟨v, hlookup, harray⟩ := Option.bind_eq_some_iff.mp htypes
    cases v with
    | array elems =>
      obtain rfl : elems = types := Option.some.inj harray
      have hupdated := sizeMembers_updated_le hlookup (strippedTypes elems)
      have hstripped : (strippedTypes elems).size ≤ (JSONValue.array elems).size := by
        unfold strippedTypes
        split
        · simp only [JSONValue.size]
          omega
        · have hfilter := sizeElems_filter_le isNotNullName elems
          simp only [JSONValue.size]
          omega
      omega
    | object | string | int | double | bool | null => cases harray
  · exact Nat.le_refl _

theorem sizeMembers_stripBranches_le (key : String) (schema : List (String × JSONValue)) :
    JSONValue.sizeMembers (stripBranches key schema) ≤ JSONValue.sizeMembers schema := by
  unfold stripBranches
  split
  · next branches hbranches =>
    obtain ⟨v, hlookup, harray⟩ := Option.bind_eq_some_iff.mp hbranches
    cases v with
    | array elems =>
      obtain rfl : elems = branches := Option.some.inj harray
      have hupdated := sizeMembers_updated_le hlookup (.array (elems.filter fun b => !isNullSchema b))
      have hfilter := sizeElems_filter_le (fun b => !isNullSchema b) elems
      simp only [JSONValue.size] at hupdated
      omega
    | object | string | int | double | bool | null => cases harray
  · exact Nat.le_refl _

theorem size_stripNullable_le (v : JSONValue) : (stripNullable v).size ≤ v.size := by
  cases v with
  | object schema =>
    have htypes := sizeMembers_stripTypes_le schema
    have hanyOf := sizeMembers_stripBranches_le "anyOf" (stripTypes schema)
    have honeOf := sizeMembers_stripBranches_le "oneOf" (stripBranches "anyOf" (stripTypes schema))
    simp only [stripNullable, JSONValue.size]
    omega
  | array | string | int | double | bool | null => exact Nat.le_refl _

/-- A list of several types is longer than any one of them. -/
theorem size_narrowedSchema_lt {schema : List (String × JSONValue)} {name : String}
    {types : List String} (htypes : typeNames schema name = .ok types) (hlength : 2 ≤ types.length)
    (typeName : String) : (narrowedSchema schema typeName).size < (JSONValue.object schema).size := by
  unfold typeNames at htypes
  cases hlookup : schema.lookup "type" with
  | none =>
    have hone : ∀ s : String, ¬types = [s] := fun s hs => by simp [hs] at hlength
    simp only [hlookup] at htypes
    split at htypes
    · exact absurd (Except.ok.inj htypes).symm (hone _)
    · split at htypes
      · exact absurd (Except.ok.inj htypes).symm (hone _)
      · split at htypes
        · exact absurd (Except.ok.inj htypes).symm (hone _)
        · cases htypes
  | some v =>
    have hupdated := sizeMembers_updated_le hlookup (.string typeName)
    cases v with
    | string s =>
      simp only [hlookup] at htypes
      rw [← Except.ok.inj htypes] at hlength
      simp at hlength
    | array elems =>
      simp only [hlookup] at htypes
      split at htypes
      · next hall =>
        rw [← Except.ok.inj htypes, hall] at hlength
        have helems := length_le_sizeElems elems
        simp only [narrowedSchema, JSONValue.size] at hupdated ⊢
        omega
      · cases htypes
    | object | int | double | bool | null =>
      simp only [hlookup] at htypes
      cases htypes

theorem size_branch_lt {schema : List (String × JSONValue)} {key : String}
    {branches : List JSONValue} {branch : JSONValue}
    (h : schema.lookup key = some (.array branches)) (hbranch : branch ∈ branches) :
    branch.size < (JSONValue.object schema).size := by
  have hlookup := size_le_of_lookup h
  have hmem := size_le_of_mem hbranch
  simp only [JSONValue.size] at hlookup ⊢
  omega

theorem size_items_lt {schema : List (String × JSONValue)} {v : JSONValue}
    (h : schema.lookup "items" = some v) :
    (stripNullable v).size < (JSONValue.object schema).size := by
  have hlookup := size_le_of_lookup h
  have hstrip := size_stripNullable_le v
  simp only [JSONValue.size]
  omega

theorem bind_arrayValue_eq_some {v : Option JSONValue} {elems : List JSONValue}
    (h : v.bind JSONValue.arrayValue = some elems) : v = some (.array elems) := by
  obtain ⟨w, rfl, harray⟩ := Option.bind_eq_some_iff.mp h
  cases w with
  | array elems' => rw [Option.some.inj harray]
  | object | string | int | double | bool | null => cases harray

theorem bind_objectValue_eq_some {v : Option JSONValue} {members : List (String × JSONValue)}
    (h : v.bind JSONValue.objectValue = some members) : v = some (.object members) := by
  obtain ⟨w, rfl, hobject⟩ := Option.bind_eq_some_iff.mp h
  cases w with
  | object members' => rw [Option.some.inj hobject]
  | array | string | int | double | bool | null => cases hobject

theorem exists_key_of_branches {schema : List (String × JSONValue)} {key key' : String}
    {branches : List JSONValue}
    (h : ((schema.lookup key).bind JSONValue.arrayValue).or
      ((schema.lookup key').bind JSONValue.arrayValue) = some branches) :
    ∃ key, schema.lookup key = some (.array branches) := by
  rcases Option.or_eq_some_iff.mp h with hfirst | ⟨-, hsecond⟩
  · exact ⟨_, bind_arrayValue_eq_some hfirst⟩
  · exact ⟨_, bind_arrayValue_eq_some hsecond⟩

theorem two_le_length_of_filter {types : List String} {keep : String → Bool}
    (hnil : types.filter keep = [] → False) (hone : ∀ type, types.filter keep = [type] → False) :
    2 ≤ types.length := by
  have hle := List.length_filter_le keep types
  cases hkept : types.filter keep with
  | nil => exact absurd hkept hnil
  | cons type rest =>
    cases rest with
    | nil => exact absurd hkept (hone type)
    | cons type' rest =>
      rw [hkept, List.length_cons, List.length_cons] at hle
      omega

theorem exists_of_lookup_properties {schema : List (String × JSONValue)} {key : String}
    {v : JSONValue} (h : (properties schema).lookup key = some v) :
    ∃ members, schema.lookup "properties" = some (.object members) ∧
      members.lookup key = some v := by
  cases hmembers : (schema.lookup "properties").bind JSONValue.objectValue with
  | none => simp [properties, hmembers] at h
  | some members =>
    rw [properties, hmembers, Option.getD_some] at h
    exact ⟨members, bind_objectValue_eq_some hmembers, h⟩

theorem size_property_lt {schema : List (String × JSONValue)} {key : String} {v : JSONValue}
    (h : (properties schema).lookup key = some v) :
    (stripNullable v).size < (JSONValue.object schema).size := by
  obtain ⟨members, hmembers, hv⟩ := exists_of_lookup_properties h
  have hlookup := size_le_of_lookup hmembers
  have hv := size_le_of_lookup hv
  have hstrip := size_stripNullable_le v
  simp only [JSONValue.size] at hlookup ⊢
  omega

section Calls

variable {t : CharacterTable} {available : Bool}
  {go go' : SchemaCall → Except Failure DynamicGenerationSchema}
  {schema : List (String × JSONValue)} {name : String}

theorem anyOfSchema_congr {anyOf : List JSONValue}
    (h : ∀ branch ∈ anyOf, ∀ name, go (branch, name) = go' (branch, name)) :
    anyOfSchema available go name anyOf = anyOfSchema available go' name anyOf := by
  have hkept : ∀ branch ∈ anyOf.filter (fun b => !isNullSchema b), ∀ name,
      go (branch, name) = go' (branch, name) := fun b hb => h b (List.mem_of_mem_filter hb)
  unfold anyOfSchema
  split
  · rfl
  · next branch hone => exact hkept branch (by rw [hone]; exact List.mem_singleton_self _) name
  · rw [Lib.Fallible.mapM_congr]
    intro choice hchoice
    exact hkept choice.1 (List.fst_mem_of_mem_zipIdx hchoice) _

theorem objectSchema_congr {raw : JSONValue}
    (h : ∀ key v, (properties schema).lookup key = some v → ∀ name,
      go (stripNullable v, name) = go' (stripNullable v, name)) :
    objectSchema t go raw schema name = objectSchema t go' raw schema name := by
  unfold objectSchema
  rw [Lib.Fallible.mapM_congr]
  intro key _
  unfold dynamicProperty
  cases hlookup : (properties schema).lookup key with
  | none => rfl
  | some v => simp only [h key v hlookup]

theorem arraySchema_congr
    (h : ∀ v, schema.lookup "items" = some v → ∀ name,
      go (stripNullable v, name) = go' (stripNullable v, name)) :
    arraySchema go schema name = arraySchema go' schema name := by
  unfold arraySchema
  cases hlookup : schema.lookup "items" with
  | none => rfl
  | some v => simp only [h v hlookup]

theorem typedSchema_congr {raw : JSONValue} {types : List String}
    (htypes : typeNames schema name = .ok types)
    (hnarrowed : 2 ≤ types.length → ∀ typeName name,
      go (narrowedSchema schema typeName, name) = go' (narrowedSchema schema typeName, name))
    (hproperties : ∀ key v, (properties schema).lookup key = some v → ∀ name,
      go (stripNullable v, name) = go' (stripNullable v, name))
    (hitems : ∀ v, schema.lookup "items" = some v → ∀ name,
      go (stripNullable v, name) = go' (stripNullable v, name)) :
    typedSchema t available go raw schema name = typedSchema t available go' raw schema name := by
  simp only [typedSchema, htypes, bind, Except.bind]
  split
  · rfl
  · unfold singleSchema
    split
    · exact objectSchema_congr hproperties
    · exact arraySchema_congr hitems
    · rfl
    · rfl
    · rfl
    · rfl
    · rfl
  · next hnil hone =>
    have hlength := two_le_length_of_filter hnil hone
    rw [Lib.Fallible.mapM_congr fun typeName _ => hnarrowed hlength typeName _]

end Calls

theorem schemaBody_callsSmaller (t : CharacterTable) (available : Bool) :
    CallsSmaller (schemaBody t available) (fun call => call.1.size) := by
  intro go go' call h
  obtain ⟨raw, name⟩ := call
  cases raw with
  | object schema =>
    simp only [schemaBody, JSONValue.objectValue]
    split
    · rfl
    · split
      · next anyOf hanyOf =>
        obtain ⟨key, hkey⟩ := exists_key_of_branches hanyOf
        exact anyOfSchema_congr fun branch hbranch _ => h _ (size_branch_lt hkey hbranch)
      · cases htypes : typeNames schema name with
        | error e => simp only [typedSchema, htypes, bind, Except.bind]
        | ok types =>
          exact typedSchema_congr htypes
            (fun hlength typeName _ => h _ (size_narrowedSchema_lt htypes hlength typeName))
            (fun _ _ hlookup _ => h _ (size_property_lt hlookup))
            (fun _ hlookup _ => h _ (size_items_lt hlookup))
  | array | string | int | double | bool | null => rfl

def dynamicGenerationSchema (t : CharacterTable) (available : Bool) (raw : JSONValue)
    (name : String) : Except Failure DynamicGenerationSchema :=
  fix (schemaBody t available) (.error .unfinished) (fun call => call.1.size) (raw, name)

section Equation

variable {t : CharacterTable} {available : Bool}

/-- The equation that the source writes. -/
theorem dynamicGenerationSchema_eq (raw : JSONValue) (name : String) :
    dynamicGenerationSchema t available raw name =
      schemaBody t available (fun call => dynamicGenerationSchema t available call.1 call.2)
        (raw, name) :=
  fix_eq (schemaBody_callsSmaller t available) (raw, name)

/-- What the body keeps when it holds of every smaller schema. -/
theorem dynamicGenerationSchema_rule
    {P : JSONValue → String → Except Failure DynamicGenerationSchema → Prop}
    (hbody : ∀ raw name,
      (∀ raw' name', raw'.size < raw.size →
        P raw' name' (dynamicGenerationSchema t available raw' name')) →
      P raw name (schemaBody t available
        (fun call => dynamicGenerationSchema t available call.1 call.2) (raw, name)))
    (raw : JSONValue) (name : String) :
    P raw name (dynamicGenerationSchema t available raw name) :=
  fix_rule (fun call r => P call.1 call.2 r) (schemaBody_callsSmaller t available)
    (fun call h => hbody call.1 call.2 fun raw' name' hsize => h (raw', name') hsize) (raw, name)

theorem nullSchema_finishes (name : String) : nullSchema available name ≠ .error .unfinished := by
  unfold nullSchema
  split
  · exact nofun
  · exact nofun

theorem intValue_finishes (v : Option JSONValue) : intValue v ≠ .error .unfinished := by
  unfold intValue
  split
  · exact nofun
  · dsimp only
    split
    · exact nofun
    · exact nofun
  · exact nofun

theorem typeNames_finishes (schema : List (String × JSONValue)) (name : String) :
    typeNames schema name ≠ .error .unfinished := by
  unfold typeNames
  split
  · split
    · exact nofun
    · split
      · exact nofun
      · split <;> exact nofun
  · exact nofun
  · dsimp only
    split
    · exact nofun
    · exact nofun
  · exact nofun

theorem enumSchema_finishes (name : String) (enumValues : List JSONValue) :
    enumSchema name enumValues ≠ .error .unfinished := by
  intro h
  rcases Lib.Fallible.bind_eq_error.mp h with hmap | ⟨choices, -, hchoices⟩
  · obtain ⟨value, -, hvalue⟩ := Lib.Fallible.exists_of_mapM_eq_error hmap
    split at hvalue
    · cases hvalue
    · cases hvalue
  · split at hchoices
    · cases hchoices
    · cases hchoices

section Pieces

variable {go : SchemaCall → Except Failure DynamicGenerationSchema}
  {schema : List (String × JSONValue)} {name : String}

theorem anyOfSchema_finishes {anyOf : List JSONValue}
    (h : ∀ branch ∈ anyOf, ∀ name, go (branch, name) ≠ .error .unfinished) :
    anyOfSchema available go name anyOf ≠ .error .unfinished := by
  have hkept : ∀ branch ∈ anyOf.filter (fun b => !isNullSchema b), ∀ name,
      go (branch, name) ≠ .error .unfinished := fun b hb => h b (List.mem_of_mem_filter hb)
  unfold anyOfSchema
  split
  · exact nullSchema_finishes name
  · next branch hone => exact hkept branch (by rw [hone]; exact List.mem_singleton_self _) name
  · intro hunion
    rcases Lib.Fallible.bind_eq_error.mp hunion with hmap | ⟨choices, -, hchoices⟩
    · obtain ⟨choice, hchoice, he⟩ := Lib.Fallible.exists_of_mapM_eq_error hmap
      exact hkept choice.1 (List.fst_mem_of_mem_zipIdx hchoice) _ he
    · cases hchoices

theorem objectSchema_finishes {raw : JSONValue}
    (h : ∀ key v, (properties schema).lookup key = some v → ∀ name,
      go (stripNullable v, name) ≠ .error .unfinished) :
    objectSchema t go raw schema name ≠ .error .unfinished := by
  intro hobject
  rcases Lib.Fallible.bind_eq_error.mp hobject with hmap | ⟨_, -, hlast⟩
  · obtain ⟨key, -, hkey⟩ := Lib.Fallible.exists_of_mapM_eq_error hmap
    unfold dynamicProperty at hkey
    cases hlookup : (properties schema).lookup key with
    | none =>
      rw [hlookup] at hkey
      cases hkey
    | some v =>
      rw [hlookup] at hkey
      rcases Lib.Fallible.bind_eq_error.mp hkey with hgo | ⟨_, -, hdone⟩
      · exact h key v hlookup _ hgo
      · cases hdone
  · cases hlast

theorem arraySchema_finishes
    (h : ∀ v, schema.lookup "items" = some v → ∀ name,
      go (stripNullable v, name) ≠ .error .unfinished) :
    arraySchema go schema name ≠ .error .unfinished := by
  unfold arraySchema
  cases hlookup : schema.lookup "items" with
  | none => exact nofun
  | some items =>
    intro harray
    rcases Lib.Fallible.bind_eq_error.mp harray with hgo | ⟨_, -, hbounds⟩
    · exact h items hlookup _ hgo
    · rcases Lib.Fallible.bind_eq_error.mp hbounds with hmin | ⟨_, -, hbounds⟩
      · exact intValue_finishes _ hmin
      · rcases Lib.Fallible.bind_eq_error.mp hbounds with hmax | ⟨_, -, hdone⟩
        · exact intValue_finishes _ hmax
        · cases hdone

theorem typedSchema_finishes {raw : JSONValue} {types : List String}
    (htypes : typeNames schema name = .ok types)
    (hnarrowed : 2 ≤ types.length → ∀ typeName name,
      go (narrowedSchema schema typeName, name) ≠ .error .unfinished)
    (hproperties : ∀ key v, (properties schema).lookup key = some v → ∀ name,
      go (stripNullable v, name) ≠ .error .unfinished)
    (hitems : ∀ v, schema.lookup "items" = some v → ∀ name,
      go (stripNullable v, name) ≠ .error .unfinished) :
    typedSchema t available go raw schema name ≠ .error .unfinished := by
  simp only [typedSchema, htypes, bind, Except.bind]
  split
  · exact nullSchema_finishes name
  · unfold singleSchema
    split
    · exact objectSchema_finishes hproperties
    · exact arraySchema_finishes hitems
    · exact nofun
    · exact nofun
    · exact nofun
    · exact nofun
    · exact nofun
  · next hnil hone =>
    have hlength := two_le_length_of_filter hnil hone
    split
    · next e hmap =>
      obtain ⟨typeName, -, he⟩ := Lib.Fallible.exists_of_mapM_eq_error hmap
      intro hunfinished
      rw [Except.error.inj hunfinished] at he
      exact hnarrowed hlength typeName _ he
    · exact nofun

end Pieces

/-- The translation has turns enough. -/
theorem dynamicGenerationSchema_finishes (raw : JSONValue) (name : String) :
    dynamicGenerationSchema t available raw name ≠ .error .unfinished := by
  refine @dynamicGenerationSchema_rule t available (fun _ _ r => r ≠ .error .unfinished) ?_ raw name
  intro raw name ih
  cases raw with
  | object schema =>
    simp only [schemaBody, JSONValue.objectValue]
    split
    · exact enumSchema_finishes name _
    · split
      · next anyOf hanyOf =>
        obtain ⟨key, hkey⟩ := exists_key_of_branches hanyOf
        exact anyOfSchema_finishes fun branch hbranch name =>
          ih branch name (size_branch_lt hkey hbranch)
      · cases htypes : typeNames schema name with
        | error e =>
          have hnames := typeNames_finishes schema name
          simp only [typedSchema, htypes, bind, Except.bind]
          intro hunfinished
          rw [htypes, Except.error.inj hunfinished] at hnames
          exact hnames rfl
        | ok types =>
          exact typedSchema_finishes htypes
            (fun hlength typeName name => ih _ name (size_narrowedSchema_lt htypes hlength typeName))
            (fun _ _ hlookup name => ih _ name (size_property_lt hlookup))
            (fun _ hlookup name => ih _ name (size_items_lt hlookup))
  | array | string | int | double | bool | null => exact nofun

end Equation

/-- The root of `generationSchema`. -/
def generationRoot (t : CharacterTable) (available : Bool) (schema : JSONValue)
    (rootName : String) : Except Failure DynamicGenerationSchema :=
  dynamicGenerationSchema t available schema (sanitizedTypeName t rootName)

end Mac
end Panops
