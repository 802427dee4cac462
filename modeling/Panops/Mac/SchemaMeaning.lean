import Panops.Mac.Codecs

/-!
# What a schema admits

Values that are valid under a JSON Schema, values that a `DynamicGenerationSchema`
admits, and that the translation keeps them, apart from null and from properties that no
part of a schema declares.
-/

namespace Panops
namespace Mac

open Lib.Fallible

/-! ## JSON Schema -/

/-- The types of JSON Schema.  A number is an integer when it has no fraction. -/
def OfType (name : String) (v : JSONValue) : Prop :=
  match name with
  | "object" => ∃ members, v = .object members
  | "array" => ∃ elems, v = .array elems
  | "string" => ∃ s, v = .string s
  | "integer" => (∃ i, v = .int i) ∨ ∃ d, v = .double d ∧ d.den = 1
  | "number" => (∃ i, v = .int i) ∨ ∃ d, v = .double d
  | "boolean" => ∃ b, v = .bool b
  | "null" => v = .null
  | _ => False

/-- The keyword `type`: one name, or a list of them. -/
def HasType : JSONValue → JSONValue → Prop
  | .string name, v => OfType name v
  | .array names, v => ∃ name, .string name ∈ names ∧ OfType name v
  | _, _ => False

def Declares (schema : List (String × JSONValue)) (key : String) (propertySchema : JSONValue) :
    Prop :=
  ∃ members, schema.lookup "properties" = some (.object members) ∧
    members.lookup key = some propertySchema

def Requires (schema : List (String × JSONValue)) (key : String) : Prop :=
  ∃ names, schema.lookup "required" = some (.array names) ∧ .string key ∈ names

/-- Validity, by the keywords of a schema.  Properties that a schema does not declare are
allowed unless validity is `closed`: then an object has only those that the schema it
meets declares, for `anyOf` the branch it meets.  `branch` is one for each `anyOf`. -/
inductive Valid (closed : Bool) : JSONValue → JSONValue → Prop
  | node {schema : List (String × JSONValue)} {v : JSONValue} (branch : JSONValue)
      (enum : ∀ choices, schema.lookup "enum" = some (.array choices) → v ∈ choices)
      (isBranch : ∀ branches, schema.lookup "anyOf" = some (.array branches) → branch ∈ branches)
      (meets : ∀ branches, schema.lookup "anyOf" = some (.array branches) → Valid closed branch v)
      (type : ∀ type, schema.lookup "type" = some type → HasType type v)
      (property : ∀ members key x propertySchema, v = .object members → (key, x) ∈ members →
        Declares schema key propertySchema → Valid closed propertySchema x)
      (required : ∀ members key, v = .object members → Requires schema key →
        ∃ x, (key, x) ∈ members)
      (item : ∀ elems x items, v = .array elems → x ∈ elems → schema.lookup "items" = some items →
        Valid closed items x)
      (minItems : ∀ (elems : List JSONValue) (n : Int), v = .array elems →
        schema.lookup "minItems" = some (.int n) → n ≤ elems.length)
      (maxItems : ∀ (elems : List JSONValue) (n : Int), v = .array elems →
        schema.lookup "maxItems" = some (.int n) → (elems.length : Int) ≤ n)
      (declared : closed = true → schema.lookup "anyOf" = none → ∀ members key x,
        v = .object members → (key, x) ∈ members → ∃ propertySchema,
          Declares schema key propertySchema) :
      Valid closed (.object schema) v

/-- One name, or a list of names. -/
def IsTypes (type : JSONValue) : Prop :=
  (∃ name, type = .string name) ∨
    ∃ names, type = .array names ∧ ∀ name ∈ names, ∃ s, name = .string s

/-- A schema whose nodes have an enum of strings, an `anyOf`, or types. -/
inductive IsSchema : JSONValue → Prop
  | enum {schema choices : List _} (enum : schema.lookup "enum" = some (.array choices))
      (strings : ∀ choice ∈ choices, ∃ s, choice = .string s)
      (type : ∀ type, schema.lookup "type" = some type → ∀ s, HasType type (.string s))
      (lacks : ∀ key ∈ ["anyOf", "oneOf", "properties", "required", "items", "minItems",
        "maxItems"], schema.lookup key = none) :
      IsSchema (.object schema)
  | anyOf {schema branches : List _} (anyOf : schema.lookup "anyOf" = some (.array branches))
      (below : ∀ branch ∈ branches, IsSchema branch)
      (lacks : ∀ key ∈ ["enum", "oneOf", "type", "properties", "required", "items", "minItems",
        "maxItems"], schema.lookup key = none) :
      IsSchema (.object schema)
  | typed {schema : List _}
      (type : ∃ type, schema.lookup "type" = some type ∧ IsTypes type)
      (lacks : ∀ key ∈ ["enum", "anyOf", "oneOf"], schema.lookup key = none)
      (properties : ∀ v, schema.lookup "properties" = some v → ∃ members, v = .object members)
      (property : ∀ key propertySchema, Declares schema key propertySchema →
        IsSchema propertySchema)
      (required : ∀ v, schema.lookup "required" = some v →
        ∃ names, v = .array names ∧ ∀ name ∈ names, ∃ s, name = .string s)
      (subset : ∀ key, Requires schema key → ∃ propertySchema, Declares schema key propertySchema)
      (items : ∀ items, schema.lookup "items" = some items → IsSchema items)
      (bounds : ∀ key ∈ ["minItems", "maxItems"], ∀ v, schema.lookup key = some v →
        ∃ n, v = .int n) :
      IsSchema (.object schema)

inductive NullFree : JSONValue → Prop
  | object {members : List (String × JSONValue)} (h : ∀ key x, (key, x) ∈ members → NullFree x) :
      NullFree (.object members)
  | array {elems : List JSONValue} (h : ∀ x ∈ elems, NullFree x) : NullFree (.array elems)
  | string (s : String) : NullFree (.string s)
  | int (i : Int) : NullFree (.int i)
  | double (d : ℚ) : NullFree (.double d)
  | bool (b : Bool) : NullFree (.bool b)

/-! ## Validity by the kind of a node -/

/-- What the keywords about members and elements ask for. -/
structure Below (closed : Bool) (schema : List (String × JSONValue)) (v : JSONValue) : Prop where
  property : ∀ members key x propertySchema, v = .object members → (key, x) ∈ members →
    Declares schema key propertySchema → Valid closed propertySchema x
  required : ∀ members key, v = .object members → Requires schema key → ∃ x, (key, x) ∈ members
  item : ∀ elems x items, v = .array elems → x ∈ elems → schema.lookup "items" = some items →
    Valid closed items x
  minItems : ∀ (elems : List JSONValue) (n : Int), v = .array elems →
    schema.lookup "minItems" = some (.int n) → n ≤ elems.length
  maxItems : ∀ (elems : List JSONValue) (n : Int), v = .array elems →
    schema.lookup "maxItems" = some (.int n) → (elems.length : Int) ≤ n
  declared : closed = true → ∀ members key x, v = .object members → (key, x) ∈ members →
    ∃ propertySchema, Declares schema key propertySchema

section Kinds

variable {closed : Bool} {schema : List (String × JSONValue)} {v : JSONValue}
  {choices branches : List JSONValue}

theorem valid_typed (henum : schema.lookup "enum" = none) (hanyOf : schema.lookup "anyOf" = none) :
    Valid closed (.object schema) v ↔
      (∀ type, schema.lookup "type" = some type → HasType type v) ∧ Below closed schema v := by
  constructor
  · intro h
    cases h with
    | node branch enum isBranch meets type property required item minItems maxItems declared =>
      exact ⟨type, property, required, item, minItems, maxItems, fun hclosed =>
        declared hclosed hanyOf⟩
  · rintro ⟨type, hbelow⟩
    exact .node .null (fun _ h => by rw [henum] at h; cases h)
      (fun _ h => by rw [hanyOf] at h; cases h) (fun _ h => by rw [hanyOf] at h; cases h) type
      hbelow.property hbelow.required hbelow.item hbelow.minItems hbelow.maxItems
      fun hclosed _ => hbelow.declared hclosed

/-- A node that says nothing of members and elements. -/
theorem not_declares (h : schema.lookup "properties" = none) (key : String)
    (propertySchema : JSONValue) : ¬Declares schema key propertySchema := by
  rintro ⟨members, hmembers, -⟩
  rw [h] at hmembers
  cases hmembers

theorem not_requires (h : schema.lookup "required" = none) (key : String) :
    ¬Requires schema key := by
  rintro ⟨names, hnames, -⟩
  rw [h] at hnames
  cases hnames

theorem valid_enum (henum : schema.lookup "enum" = some (.array choices))
    (hstrings : ∀ choice ∈ choices, ∃ s, choice = .string s)
    (htype : ∀ type, schema.lookup "type" = some type → ∀ s, HasType type (.string s))
    (hanyOf : schema.lookup "anyOf" = none) :
    Valid closed (.object schema) v ↔ v ∈ choices := by
  constructor
  · intro h
    cases h with
    | node branch enum isBranch meets type property required item minItems maxItems declared =>
      exact enum choices henum
  · intro hv
    obtain ⟨s, rfl⟩ := hstrings v hv
    have hchoices : ∀ choices', schema.lookup "enum" = some (.array choices') →
        JSONValue.string s ∈ choices' := fun choices' h => by
      rw [henum] at h
      rw [← JSONValue.array.inj (Option.some.inj h)]
      exact hv
    exact .node .null hchoices (fun _ h => by rw [hanyOf] at h; cases h)
      (fun _ h => by rw [hanyOf] at h; cases h) (fun type h => htype type h s) nofun nofun nofun
      nofun nofun nofun

theorem valid_anyOf (hanyOf : schema.lookup "anyOf" = some (.array branches))
    (hlacks : ∀ key ∈ ["enum", "oneOf", "type", "properties", "required", "items", "minItems",
      "maxItems"], schema.lookup key = none) :
    Valid closed (.object schema) v ↔ ∃ branch ∈ branches, Valid closed branch v := by
  constructor
  · intro h
    cases h with
    | node branch enum isBranch meets type property required item minItems maxItems declared =>
      exact ⟨branch, isBranch branches hanyOf, meets branches hanyOf⟩
  · rintro ⟨branch, hbranch, hvalid⟩
    have hbranches : ∀ branches', schema.lookup "anyOf" = some (.array branches') →
        branches' = branches := fun branches' h => by
      rw [hanyOf] at h
      exact (JSONValue.array.inj (Option.some.inj h)).symm
    have hno : ∀ {key : String} {w : JSONValue}, key ∈ ["enum", "oneOf", "type", "properties",
        "required", "items", "minItems", "maxItems"] → schema.lookup key = some w → False :=
      fun hkey hw => by
        rw [hlacks _ hkey] at hw
        cases hw
    exact .node branch (fun _ h => (hno (by simp) h).elim)
      (fun branches' h => hbranches branches' h ▸ hbranch) (fun _ _ => hvalid)
      (fun _ h => (hno (by simp) h).elim)
      (fun _ _ _ _ _ _ h => absurd h (not_declares (hlacks _ (by simp)) _ _))
      (fun _ _ _ h => absurd h (not_requires (hlacks _ (by simp)) _))
      (fun _ _ _ _ _ h => (hno (by simp) h).elim) (fun _ _ _ h => (hno (by simp) h).elim)
      (fun _ _ _ h => (hno (by simp) h).elim) (fun _ hnone => by rw [hanyOf] at hnone; cases hnone)

end Kinds

/-! ## Dynamic schemas -/

mutual
/-- The content that FoundationModels generates under a schema. -/
def Admits : DynamicGenerationSchema → JSONValue → Prop
  | .choices _ anyOf, v => ∃ s ∈ anyOf, v = .string s
  | .union _ anyOf, v => AdmitsAny anyOf v
  | .object _ _ properties, v =>
    ∃ members, v = .object members ∧ (∀ key x, (key, x) ∈ members → AdmitsMember properties key x) ∧
      ∀ p ∈ properties, p.isOptional = false → ∃ x, (p.name, x) ∈ members
  | .arrayOf item lo hi, v =>
    ∃ elems, v = .array elems ∧ (∀ x ∈ elems, Admits item x) ∧
      (∀ n ∈ lo, n ≤ elems.length) ∧ ∀ n ∈ hi, (elems.length : Int) ≤ n
  | .string, v => OfType "string" v
  | .integer, v => OfType "integer" v
  | .number, v => OfType "number" v
  | .boolean, v => OfType "boolean" v
  | .null, v => v = .null

def AdmitsAny : List DynamicGenerationSchema → JSONValue → Prop
  | [], _ => False
  | schema :: rest, v => Admits schema v ∨ AdmitsAny rest v

def AdmitsMember : List (SchemaProperty DynamicGenerationSchema) → String → JSONValue → Prop
  | [], _, _ => False
  | ⟨name, _, schema, _⟩ :: rest, key, x => name = key ∧ Admits schema x ∨ AdmitsMember rest key x
end

theorem admitsAny_iff {anyOf : List DynamicGenerationSchema} {v : JSONValue} :
    AdmitsAny anyOf v ↔ ∃ schema ∈ anyOf, Admits schema v := by
  induction anyOf with
  | nil => simp [AdmitsAny]
  | cons schema rest ih => simp [AdmitsAny, ih]

theorem admitsMember_iff {properties : List (SchemaProperty DynamicGenerationSchema)}
    {key : String} {x : JSONValue} :
    AdmitsMember properties key x ↔ ∃ p ∈ properties, p.name = key ∧ Admits p.schema x := by
  induction properties with
  | nil => simp [AdmitsMember]
  | cons p rest ih =>
    obtain ⟨name, description, schema, isOptional⟩ := p
    simp [AdmitsMember, ih]

/-! ## What the translation changes in a schema -/

section Strip

variable {closed : Bool} {schema : List (String × JSONValue)} {key : String} {raw v : JSONValue}

theorem lookup_updated (schema : List (String × JSONValue)) (key key' : String)
    (value : JSONValue) :
    (updated schema key value).lookup key' =
      if key' = key then some value else schema.lookup key' := by
  by_cases h : key' = key
  · subst h
    rw [updated, List.lookup_cons_self, if_pos rfl]
  · rw [updated, List.lookup_cons, beq_eq_false_iff_ne.mpr h, if_neg h]
    induction schema with
    | nil => rfl
    | cons entry rest ih =>
      obtain ⟨k, w⟩ := entry
      by_cases hk : k = key
      · subst hk
        rw [List.filter_cons_of_neg (by simp), List.lookup_cons, beq_eq_false_iff_ne.mpr h]
        exact ih
      · rw [List.filter_cons_of_pos (by simpa using hk), List.lookup_cons, List.lookup_cons]
        cases key' == k with
        | true => rfl
        | false => exact ih

theorem lookup_stripTypes_of_ne (h : key ≠ "type") :
    (stripTypes schema).lookup key = schema.lookup key := by
  unfold stripTypes
  split
  · rw [lookup_updated, if_neg h]
  · rfl

theorem lookup_stripBranches_of_ne {branches : String} (h : key ≠ branches) :
    (stripBranches branches schema).lookup key = schema.lookup key := by
  unfold stripBranches
  split
  · rw [lookup_updated, if_neg h]
  · rfl

/-- A schema without nullable branches is only changed in its types. -/
theorem lookup_strip_of_ne (htype : key ≠ "type") (hanyOf : key ≠ "anyOf") (honeOf : key ≠ "oneOf") :
    (stripBranches "oneOf" (stripBranches "anyOf" (stripTypes schema))).lookup key =
      schema.lookup key := by
  rw [lookup_stripBranches_of_ne honeOf, lookup_stripBranches_of_ne hanyOf,
    lookup_stripTypes_of_ne htype]

theorem lookup_strip_type :
    (stripBranches "oneOf" (stripBranches "anyOf" (stripTypes schema))).lookup "type" =
      ((schema.lookup "type").bind JSONValue.arrayValue).elim (schema.lookup "type")
        fun types => some (strippedTypes types) := by
  rw [lookup_stripBranches_of_ne (by decide), lookup_stripBranches_of_ne (by decide), stripTypes]
  cases (schema.lookup "type").bind JSONValue.arrayValue with
  | none => rfl
  | some types =>
    show (updated schema "type" (strippedTypes types)).lookup "type" = _
    rw [lookup_updated, if_pos rfl]
    rfl

theorem lookup_strip_anyOf :
    (stripBranches "oneOf" (stripBranches "anyOf" (stripTypes schema))).lookup "anyOf" =
      ((schema.lookup "anyOf").bind JSONValue.arrayValue).elim (schema.lookup "anyOf")
        fun branches => some (.array (branches.filter fun b => !isNullSchema b)) := by
  have hbefore : (stripTypes schema).lookup "anyOf" = schema.lookup "anyOf" :=
    lookup_stripTypes_of_ne (by decide)
  rw [lookup_stripBranches_of_ne (by decide), stripBranches, hbefore]
  cases (schema.lookup "anyOf").bind JSONValue.arrayValue with
  | none => exact hbefore
  | some branches =>
    show (updated _ "anyOf" _).lookup "anyOf" = _
    rw [lookup_updated, if_pos rfl]
    rfl

theorem lookup_strip_oneOf (h : schema.lookup "oneOf" = none) :
    (stripBranches "oneOf" (stripBranches "anyOf" (stripTypes schema))).lookup "oneOf" = none := by
  have hbefore : (stripBranches "anyOf" (stripTypes schema)).lookup "oneOf" = none := by
    rw [lookup_stripBranches_of_ne (by decide), lookup_stripTypes_of_ne (by decide), h]
  rw [stripBranches, hbefore]
  exact hbefore

theorem lookup_strip_eq_none (h : schema.lookup key = none) :
    (stripBranches "oneOf" (stripBranches "anyOf" (stripTypes schema))).lookup key = none := by
  by_cases htype : key = "type"
  · subst htype
    rw [lookup_strip_type, h]
    rfl
  · by_cases hanyOf : key = "anyOf"
    · subst hanyOf
      rw [lookup_strip_anyOf, h]
      rfl
    · by_cases honeOf : key = "oneOf"
      · subst honeOf
        exact lookup_strip_oneOf h
      · rw [lookup_strip_of_ne htype hanyOf honeOf, h]

theorem eq_null_of_isNullSchema (hnull : isNullSchema raw = true) (h : Valid closed raw v) :
    v = .null := by
  cases h with
  | @node schema _ branch enum isBranch meets type property required item minItems maxItems declared =>
    have hname : schema.lookup "type" = some (.string "null") := by
      obtain ⟨w, hw, hstring⟩ := Option.bind_eq_some_iff.mp (of_decide_eq_true hnull)
      cases w with
      | string s => rw [hw, Option.some.inj hstring]
      | object | array | int | double | bool | null => cases hstring
    exact type _ hname

theorem hasType_strippedTypes {types : List JSONValue} (hv : v ≠ .null) :
    HasType (strippedTypes types) v ↔ HasType (.array types) v := by
  have hkept : ∀ name, OfType name v → (.string name ∈ types ↔
      .string name ∈ types.filter isNotNullName) := fun name hname => by
    have hne : name ≠ "null" := by
      rintro rfl
      exact hv hname
    simp [isNotNullName, hne]
  unfold strippedTypes
  split
  · next type hone =>
    constructor
    · intro h
      exact ⟨type, (hkept type h).mpr (by rw [hone]; exact List.mem_singleton_self _), h⟩
    · rintro ⟨name, hmem, hname⟩
      have hmem := (hkept name hname).mp hmem
      rw [hone] at hmem
      rw [JSONValue.string.inj (List.mem_singleton.mp hmem)] at hname
      exact hname
  · constructor
    · rintro ⟨name, hmem, hname⟩
      exact ⟨name, (hkept name hname).mpr hmem, hname⟩
    · rintro ⟨name, hmem, hname⟩
      exact ⟨name, (hkept name hname).mp hmem, hname⟩

/-- The types of a schema, as far as a value that is not null goes. -/
theorem hasType_strip (hv : v ≠ .null) :
    (∀ type, (stripBranches "oneOf" (stripBranches "anyOf" (stripTypes schema))).lookup "type" =
      some type → HasType type v) ↔ ∀ type, schema.lookup "type" = some type → HasType type v := by
  rw [lookup_strip_type]
  cases htypes : (schema.lookup "type").bind JSONValue.arrayValue with
  | none => exact Iff.rfl
  | some types =>
    rw [Option.elim_some]
    have hlookup := bind_arrayValue_eq_some htypes
    constructor
    · intro h type htype
      rw [hlookup] at htype
      rw [← Option.some.inj htype]
      exact (hasType_strippedTypes hv).mp (h _ rfl)
    · intro h type htype
      rw [← Option.some.inj htype]
      exact (hasType_strippedTypes hv).mpr (h _ hlookup)

theorem Declares.congr {schema' : List (String × JSONValue)} {propertySchema : JSONValue}
    (h : schema'.lookup "properties" = schema.lookup "properties") :
    Declares schema' key propertySchema ↔ Declares schema key propertySchema := by
  rw [Declares, Declares, h]

theorem Requires.congr {schema' : List (String × JSONValue)}
    (h : schema'.lookup "required" = schema.lookup "required") :
    Requires schema' key ↔ Requires schema key := by
  rw [Requires, Requires, h]

/-- Keywords apart from the types. -/
def SameBelow (schema' schema : List (String × JSONValue)) : Prop :=
  ∀ key ∈ ["properties", "required", "items", "minItems", "maxItems"],
    schema'.lookup key = schema.lookup key

theorem Below.congr {schema' : List (String × JSONValue)} (h : SameBelow schema' schema)
    (hbelow : Below closed schema v) : Below closed schema' v where
  property members key x propertySchema hv hx hdeclares :=
    hbelow.property members key x propertySchema hv hx
      ((Declares.congr (h _ (by simp))).mp hdeclares)
  required members key hv hrequires :=
    hbelow.required members key hv ((Requires.congr (h _ (by simp))).mp hrequires)
  item elems x items hv hx hitems := hbelow.item elems x items hv hx (h "items" (by simp) ▸ hitems)
  minItems elems n hv hn := hbelow.minItems elems n hv (h "minItems" (by simp) ▸ hn)
  maxItems elems n hv hn := hbelow.maxItems elems n hv (h "maxItems" (by simp) ▸ hn)
  declared hclosed members key x hv hx := by
    obtain ⟨propertySchema, hdeclares⟩ := hbelow.declared hclosed members key x hv hx
    exact ⟨propertySchema, (Declares.congr (h _ (by simp))).mpr hdeclares⟩

theorem below_congr {schema' : List (String × JSONValue)} (h : SameBelow schema' schema) :
    Below closed schema' v ↔ Below closed schema v :=
  ⟨Below.congr fun key hkey => (h key hkey).symm, Below.congr h⟩

theorem Declares.unique {s s' : JSONValue} (h : Declares schema key s)
    (h' : Declares schema key s') : s = s' := by
  obtain ⟨members, hmembers, hs⟩ := h
  obtain ⟨members', hmembers', hs'⟩ := h'
  rw [hmembers] at hmembers'
  rw [← JSONValue.object.inj (Option.some.inj hmembers'), hs] at hs'
  exact Option.some.inj hs'

/-- A node with types. -/
structure IsTyped (schema : List (String × JSONValue)) : Prop where
  type : ∃ type, schema.lookup "type" = some type ∧ IsTypes type
  lacks : ∀ key ∈ ["enum", "anyOf", "oneOf"], schema.lookup key = none
  properties : ∀ v, schema.lookup "properties" = some v → ∃ members, v = .object members
  property : ∀ key propertySchema, Declares schema key propertySchema → IsSchema propertySchema
  required : ∀ v, schema.lookup "required" = some v →
    ∃ names, v = .array names ∧ ∀ name ∈ names, ∃ s, name = .string s
  subset : ∀ key, Requires schema key → ∃ propertySchema, Declares schema key propertySchema
  items : ∀ items, schema.lookup "items" = some items → IsSchema items
  bounds : ∀ key ∈ ["minItems", "maxItems"], ∀ v, schema.lookup key = some v → ∃ n, v = .int n

theorem IsTyped.isSchema (h : IsTyped schema) : IsSchema (.object schema) :=
  .typed h.type h.lacks h.properties h.property h.required h.subset h.items h.bounds

/-- A typed node with other types is one. -/
theorem IsTyped.retype {schema' : List (String × JSONValue)} (h : IsTyped schema)
    (hlacks : ∀ key ∈ ["enum", "anyOf", "oneOf"], schema'.lookup key = none)
    (hsame : SameBelow schema' schema)
    (htype : ∃ type, schema'.lookup "type" = some type ∧ IsTypes type) : IsTyped schema' where
  type := htype
  lacks := hlacks
  properties v hv := h.properties v (hsame "properties" (by simp) ▸ hv)
  property key s hdeclares := h.property key s ((Declares.congr (hsame _ (by simp))).mp hdeclares)
  required v hv := h.required v (hsame "required" (by simp) ▸ hv)
  subset key hrequires := by
    obtain ⟨s, hdeclares⟩ := h.subset key ((Requires.congr (hsame _ (by simp))).mp hrequires)
    exact ⟨s, (Declares.congr (hsame _ (by simp))).mpr hdeclares⟩
  items s hs := h.items s (hsame "items" (by simp) ▸ hs)
  bounds key hkey v hv := by
    refine h.bounds key hkey v ?_
    rw [← hsame key (List.mem_of_mem_drop (i := 3) hkey)]
    exact hv

theorem sameBelow_strip :
    SameBelow (stripBranches "oneOf" (stripBranches "anyOf" (stripTypes schema))) schema := by
  intro key hkey
  apply lookup_strip_of_ne
  all_goals
    rintro rfl
    simp at hkey

theorem isTypes_strippedTypes {types : List JSONValue}
    (h : ∀ name ∈ types, ∃ s, name = .string s) : IsTypes (strippedTypes types) := by
  unfold strippedTypes
  split
  · exact .inl ⟨_, rfl⟩
  · exact .inr ⟨_, rfl, fun name hname => h name (List.mem_of_mem_filter hname)⟩

theorem isSchema_stripNullable (h : IsSchema raw) : IsSchema (stripNullable raw) := by
  cases h with
  | @enum schema choices enum strings type lacks =>
    refine @IsSchema.enum _ choices ?_ strings (fun type' htype' s => ?_) fun key hkey =>
      lookup_strip_eq_none (lacks key hkey)
    · rw [lookup_strip_of_ne (by decide) (by decide) (by decide), enum]
    · exact (@hasType_strip schema (.string s) nofun).mpr (fun type'' h => type type'' h s) type'
        htype'
  | @anyOf schema branches anyOf below lacks =>
    refine @IsSchema.anyOf _ (branches.filter fun b => !isNullSchema b) ?_
      (fun branch hbranch => below branch (List.mem_of_mem_filter hbranch)) fun key hkey =>
        lookup_strip_eq_none (lacks key hkey)
    rw [lookup_strip_anyOf, anyOf]
    rfl
  | @typed schema type lacks properties property required subset items bounds =>
    have htyped : IsTyped schema :=
      ⟨type, lacks, properties, property, required, subset, items, bounds⟩
    refine (htyped.retype (fun key hkey => lookup_strip_eq_none (lacks key hkey))
      sameBelow_strip ?_).isSchema
    obtain ⟨type, htype, ⟨name, rfl⟩ | ⟨names, rfl, hnames⟩⟩ := type
    · refine ⟨.string name, ?_, .inl ⟨name, rfl⟩⟩
      rw [lookup_strip_type, htype]
      rfl
    · refine ⟨strippedTypes names, ?_, isTypes_strippedTypes hnames⟩
      rw [lookup_strip_type, htype]
      rfl

theorem string_ne_null (s : String) : JSONValue.string s ≠ .null := by
  intro h
  cases h

/-- Null is all that a schema loses. -/
theorem valid_stripNullable (h : IsSchema raw) (hv : v ≠ .null) :
    Valid closed (stripNullable raw) v ↔ Valid closed raw v := by
  cases h with
  | @enum schema choices enum strings type lacks =>
    have henum := @lookup_strip_of_ne schema "enum" (by decide) (by decide) (by decide)
    rw [stripNullable, valid_enum enum strings type (lacks "anyOf" (by simp)),
      valid_enum (henum.trans enum) strings (fun type' htype' s => ?_)
        (lookup_strip_eq_none (lacks "anyOf" (by simp)))]
    exact (@hasType_strip schema (.string s) (string_ne_null s)).mpr (fun type'' h => type type'' h s) type'
      htype'
  | @anyOf schema branches anyOf below lacks =>
    have hanyOf := @lookup_strip_anyOf schema
    rw [anyOf] at hanyOf
    rw [stripNullable, valid_anyOf anyOf lacks,
      valid_anyOf hanyOf fun key hkey => lookup_strip_eq_none (lacks key hkey)]
    constructor
    · rintro ⟨branch, hbranch, hvalid⟩
      exact ⟨branch, List.mem_of_mem_filter hbranch, hvalid⟩
    · rintro ⟨branch, hbranch, hvalid⟩
      have hkept : isNullSchema branch = false := by
        by_contra hnull
        exact hv (eq_null_of_isNullSchema (by simpa using hnull) hvalid)
      exact ⟨branch, List.mem_filter.mpr ⟨hbranch, by rw [hkept]; rfl⟩, hvalid⟩
  | @typed schema type lacks properties property required subset items bounds =>
    rw [stripNullable, valid_typed (lacks _ (by simp)) (lacks _ (by simp)),
      valid_typed (lookup_strip_eq_none (lacks _ (by simp)))
        (lookup_strip_eq_none (lacks _ (by simp))),
      hasType_strip hv, below_congr sameBelow_strip]

/-! A schema with one of its types. -/

theorem sameBelow_updated (typeName : String) :
    SameBelow (updated schema "type" (.string typeName)) schema := by
  intro key hkey
  rw [lookup_updated, if_neg]
  rintro rfl
  simp at hkey

theorem lookup_updated_type_eq_none (hlacks : ∀ key ∈ ["enum", "anyOf", "oneOf"],
    schema.lookup key = none) (typeName : String) :
    ∀ key ∈ ["enum", "anyOf", "oneOf"],
      (updated schema "type" (.string typeName)).lookup key = none := by
  intro key hkey
  rw [lookup_updated, if_neg, hlacks key hkey]
  rintro rfl
  simp at hkey

theorem isSchema_narrowedSchema (h : IsTyped schema) (typeName : String) :
    IsSchema (narrowedSchema schema typeName) :=
  (h.retype (lookup_updated_type_eq_none h.lacks typeName) (sameBelow_updated typeName)
    ⟨.string typeName, by rw [lookup_updated, if_pos rfl], .inl ⟨typeName, rfl⟩⟩).isSchema

theorem valid_narrowedSchema (h : IsTyped schema) (typeName : String) :
    Valid closed (narrowedSchema schema typeName) v ↔ OfType typeName v ∧ Below closed schema v := by
  have hlookup := lookup_updated_type_eq_none h.lacks typeName
  rw [narrowedSchema, valid_typed (hlookup _ (by simp)) (hlookup _ (by simp)),
    below_congr (sameBelow_updated typeName), lookup_updated, if_pos rfl]
  exact and_congr_left' ⟨fun h => h _ rfl, fun h type htype => Option.some.inj htype ▸ h⟩

end Strip

/-! ## The translation keeps the meaning -/

section Meaning

variable {t : CharacterTable} {available : Bool}
  {go : SchemaCall → Except Failure DynamicGenerationSchema}
  {schema : List (String × JSONValue)} {name : String} {raw v : JSONValue}
  {d : DynamicGenerationSchema}

theorem NullFree.ne_null (h : NullFree v) : v ≠ .null := by
  rintro rfl
  cases h

theorem NullFree.of_mem_object {members : List (String × JSONValue)} {key : String}
    (h : NullFree (.object members)) (hv : (key, v) ∈ members) : NullFree v := by
  cases h with
  | object h => exact h key v hv

theorem NullFree.of_mem_array {elems : List JSONValue} (h : NullFree (.array elems))
    (hv : v ∈ elems) : NullFree v := by
  cases h with
  | array h => exact h v hv

theorem not_admits_null (hv : v ≠ .null) (h : nullSchema available name = .ok d) :
    ¬Admits d v := by
  unfold nullSchema at h
  split at h
  · rw [← Except.ok.inj h]
    exact hv
  · cases h

theorem eq_map_string_of_stringValue {enumValues : List JSONValue} {choices : List String}
    (h : List.Forall₂ (fun value s => value.stringValue = some s) enumValues choices) :
    enumValues = choices.map JSONValue.string := by
  induction h with
  | nil => rfl
  | @cons value s _ _ hvalue _ ih =>
    rw [List.map_cons, ih]
    cases value with
    | string s' => rw [Option.some.inj hvalue]
    | object | array | int | double | bool | null => cases hvalue

theorem enumSchema_ok {enumValues : List JSONValue} (h : enumSchema name enumValues = .ok d) :
    ∃ choices : List String, d = .choices name choices ∧
      enumValues = choices.map JSONValue.string := by
  obtain ⟨choices, hmap, hlast⟩ := bind_eq_ok.mp h
  split at hlast
  · cases hlast
  · refine ⟨choices, (Except.ok.inj hlast).symm, eq_map_string_of_stringValue ?_⟩
    refine (mapM_eq_ok.mp hmap).imp fun value s hvalue => ?_
    split at hvalue
    · next hstring => rw [hstring, Except.ok.inj hvalue]
    · cases hvalue

/-- On values without null, the translation of a schema admits what is valid. -/
def Keeps (go : SchemaCall → Except Failure DynamicGenerationSchema) (raw : JSONValue) : Prop :=
  ∀ name d, go (raw, name) = .ok d → ∀ v, NullFree v → (Valid true raw v ↔ Admits d v)

theorem admits_union {α : Type} {xs : List α} {f : α → Except Failure DynamicGenerationSchema}
    {choices : List DynamicGenerationSchema} {P : α → Prop} (hmap : xs.mapM f = .ok choices)
    (h : ∀ x ∈ xs, ∀ d, f x = .ok d → (P x ↔ Admits d v)) :
    Admits (.union name choices) v ↔ ∃ x ∈ xs, P x := by
  rw [Admits, admitsAny_iff]
  constructor
  · rintro ⟨d, hd, hadmits⟩
    obtain ⟨x, hx, hfx⟩ := exists_of_mem_result hmap hd
    exact ⟨x, hx, (h x hx d hfx).mpr hadmits⟩
  · rintro ⟨x, hx, hvalid⟩
    obtain ⟨d, hd, hfx⟩ := exists_of_mem_source hmap hx
    exact ⟨d, hd, (h x hx d hfx).mp hvalid⟩

theorem admits_anyOfSchema {anyOf : List JSONValue} (hkeeps : ∀ branch ∈ anyOf, Keeps go branch)
    (h : anyOfSchema available go name anyOf = .ok d) (hv : NullFree v) :
    Admits d v ↔ ∃ branch ∈ anyOf, Valid true branch v := by
  have hkept : (∃ branch ∈ anyOf, Valid true branch v) ↔
      ∃ branch ∈ anyOf.filter (fun b => !isNullSchema b), Valid true branch v := by
    constructor
    · rintro ⟨branch, hbranch, hvalid⟩
      refine ⟨branch, List.mem_filter.mpr ⟨hbranch, ?_⟩, hvalid⟩
      by_contra hnull
      exact hv.ne_null (eq_null_of_isNullSchema (by simpa using hnull) hvalid)
    · rintro ⟨branch, hbranch, hvalid⟩
      exact ⟨branch, List.mem_of_mem_filter hbranch, hvalid⟩
  have hkeeps : ∀ branch ∈ anyOf.filter (fun b => !isNullSchema b), Keeps go branch :=
    fun branch hbranch => hkeeps branch (List.mem_of_mem_filter hbranch)
  rw [hkept]
  unfold anyOfSchema at h
  split at h
  · next hnil =>
    rw [hnil]
    exact iff_of_false (not_admits_null hv.ne_null h) nofun
  · next branch hone =>
    rw [hone] at hkeeps ⊢
    simpa using (hkeeps branch (List.mem_singleton_self _) name d h v hv).symm
  · obtain ⟨choices, hmap, hlast⟩ := bind_eq_ok.mp h
    rw [← Except.ok.inj hlast, admits_union (P := fun choice => Valid true choice.1 v) hmap]
    · constructor
      · rintro ⟨choice, hchoice, hvalid⟩
        exact ⟨choice.1, List.fst_mem_of_mem_zipIdx hchoice, hvalid⟩
      · rintro ⟨branch, hbranch, hvalid⟩
        obtain ⟨i, hi, rfl⟩ := List.getElem_of_mem hbranch
        exact ⟨(_, i), List.mk_mem_zipIdx_iff_getElem?.mpr (List.getElem?_eq_getElem hi), hvalid⟩
    · intro choice hchoice d' hd'
      exact hkeeps choice.1 (List.fst_mem_of_mem_zipIdx hchoice) _ d' hd' v hv

/-! A node with a single type. -/

theorem below_of_scalar (hobject : ∀ members, v ≠ .object members)
    (harray : ∀ elems, v ≠ .array elems) (schema : List (String × JSONValue)) :
    Below true schema v where
  property members _ _ _ hv := absurd hv (hobject members)
  required members _ hv := absurd hv (hobject members)
  item elems _ _ hv := absurd hv (harray elems)
  minItems elems _ hv := absurd hv (harray elems)
  maxItems elems _ hv := absurd hv (harray elems)
  declared _ members _ _ hv := absurd hv (hobject members)

theorem declares_iff {key : String} {propertySchema : JSONValue} :
    Declares schema key propertySchema ↔ (properties schema).lookup key = some propertySchema := by
  constructor
  · rintro ⟨members, hmembers, hlookup⟩
    rw [properties, hmembers]
    exact hlookup
  · exact exists_of_lookup_properties

theorem requires_iff {key : String} : Requires schema key ↔ key ∈ requiredNames schema := by
  rw [requiredNames, List.mem_filterMap]
  constructor
  · rintro ⟨names, hnames, hkey⟩
    refine ⟨.string key, ?_, rfl⟩
    rw [hnames]
    exact hkey
  · rintro ⟨value, hvalue, hkey⟩
    cases hnames : (schema.lookup "required").bind JSONValue.arrayValue with
    | none =>
      rw [hnames] at hvalue
      cases hvalue
    | some names =>
      rw [hnames] at hvalue
      refine ⟨names, bind_arrayValue_eq_some hnames, ?_⟩
      cases value with
      | string s =>
        obtain rfl := Option.some.inj hkey
        exact hvalue
      | object | array | int | double | bool | null => cases hkey

theorem dynamicProperty_ok {key : String} {p : SchemaProperty DynamicGenerationSchema}
    (h : dynamicProperty t go schema name key = .ok p) :
    p.name = key ∧ p.isOptional = !(requiredNames schema).contains key ∧
      ∃ propertySchema, Declares schema key propertySchema ∧
        ∃ name', go (stripNullable propertySchema, name') = .ok p.schema := by
  unfold dynamicProperty at h
  split at h
  · cases h
  · next propertySchema hlookup =>
    obtain ⟨schema', hschema', hp⟩ := bind_eq_ok.mp h
    rw [← Except.ok.inj hp]
    exact ⟨rfl, rfl, propertySchema, declares_iff.mpr hlookup, _, hschema'⟩

theorem mem_propertyNames {key : String} {propertySchema : JSONValue}
    (h : Declares schema key propertySchema) : key ∈ propertyNames schema := by
  obtain ⟨before, after, hproperties, -⟩ := List.lookup_eq_some_iff.mp (declares_iff.mp h)
  rw [propertyNames, List.mem_insertionSort, hproperties]
  simp

/-- What became of the properties. -/
theorem objectSchema_ok (h : objectSchema t go raw schema name = .ok d) :
    ∃ ps, d = .object name (description raw) ps ∧
      (∀ p ∈ ps, dynamicProperty t go schema name p.name = .ok p) ∧
      ∀ key propertySchema, Declares schema key propertySchema → ∃ p ∈ ps, p.name = key := by
  obtain ⟨ps, hmap, hlast⟩ := bind_eq_ok.mp h
  refine ⟨ps, (Except.ok.inj hlast).symm, fun p hp => ?_, fun key propertySchema hdeclares => ?_⟩
  · obtain ⟨key, -, hkey⟩ := exists_of_mem_result hmap hp
    obtain ⟨rfl, -⟩ := dynamicProperty_ok hkey
    exact hkey
  · obtain ⟨p, hp, hkey⟩ := exists_of_mem_source hmap (mem_propertyNames hdeclares)
    exact ⟨p, hp, (dynamicProperty_ok hkey).1⟩

theorem admits_objectSchema (hschema : IsTyped schema)
    (hkeeps : ∀ key propertySchema, Declares schema key propertySchema →
      Keeps go (stripNullable propertySchema))
    (h : objectSchema t go raw schema name = .ok d) (hv : NullFree v) :
    Admits d v ↔ OfType "object" v ∧ Below true schema v := by
  obtain ⟨ps, rfl, hps, hall⟩ := objectSchema_ok h
  -- a property that is declared admits what is valid under its schema
  have hmeans : ∀ p ∈ ps, ∃ propertySchema, Declares schema p.name propertySchema ∧
      ∀ x, NullFree x → (Valid true propertySchema x ↔ Admits p.schema x) := fun p hp => by
    obtain ⟨-, -, propertySchema, hdeclares, name', hgo⟩ := dynamicProperty_ok (hps p hp)
    refine ⟨propertySchema, hdeclares, fun x hx => ?_⟩
    rw [← hkeeps _ _ hdeclares name' p.schema hgo x hx,
      valid_stripNullable (hschema.property _ _ hdeclares) hx.ne_null]
  have hoptional : ∀ p ∈ ps, p.isOptional = false ↔ Requires schema p.name := fun p hp => by
    rw [(dynamicProperty_ok (hps p hp)).2.1, requires_iff]
    simp
  have hnullFree : ∀ members key x, v = .object members → (key, x) ∈ members → NullFree x := by
    rintro members key x rfl hx
    exact hv.of_mem_object hx
  rw [Admits]
  constructor
  · rintro ⟨members, rfl, hmembers, hrequired⟩
    -- each member meets the schema that declares it
    have hmember : ∀ key x, (key, x) ∈ members → ∃ propertySchema,
        Declares schema key propertySchema ∧ Valid true propertySchema x := fun key x hx => by
      obtain ⟨p, hp, rfl, hadmits⟩ := admitsMember_iff.mp (hmembers key x hx)
      obtain ⟨propertySchema, hdeclares, hiff⟩ := hmeans p hp
      exact ⟨propertySchema, hdeclares, (hiff x (hnullFree members _ x rfl hx)).mpr hadmits⟩
    refine ⟨⟨members, rfl⟩, ?_, ?_, nofun, nofun, nofun, ?_⟩
    · rintro _ key x propertySchema ⟨⟩ hx hdeclares
      obtain ⟨propertySchema', hdeclares', hvalid⟩ := hmember key x hx
      rw [hdeclares.unique hdeclares']
      exact hvalid
    · rintro _ key ⟨⟩ hrequires
      obtain ⟨propertySchema, hdeclares⟩ := hschema.subset key hrequires
      obtain ⟨p, hp, rfl⟩ := hall key propertySchema hdeclares
      exact hrequired p hp ((hoptional p hp).mpr hrequires)
    · rintro - _ key x ⟨⟩ hx
      obtain ⟨propertySchema, hdeclares, -⟩ := hmember key x hx
      exact ⟨propertySchema, hdeclares⟩
  · rintro ⟨⟨members, rfl⟩, hbelow⟩
    refine ⟨members, rfl, fun key x hx => ?_, fun p hp hp' => ?_⟩
    · obtain ⟨propertySchema, hdeclares⟩ := hbelow.declared rfl members key x rfl hx
      obtain ⟨p, hp, rfl⟩ := hall key propertySchema hdeclares
      obtain ⟨propertySchema', hdeclares', hiff⟩ := hmeans p hp
      have hvalid := hbelow.property members _ x propertySchema' rfl hx hdeclares'
      exact admitsMember_iff.mpr ⟨p, hp, rfl, (hiff x (hnullFree members _ x rfl hx)).mp hvalid⟩
    · exact hbelow.required members p.name rfl ((hoptional p hp).mp hp')

theorem arraySchema_ok (h : arraySchema go schema name = .ok d) :
    ∃ items item lo hi, schema.lookup "items" = some items ∧
      go (stripNullable items, name ++ "Item") = .ok item ∧
      intValue (schema.lookup "minItems") = .ok lo ∧
      intValue (schema.lookup "maxItems") = .ok hi ∧ d = .arrayOf item lo hi := by
  unfold arraySchema at h
  split at h
  · cases h
  · next items hitems =>
    obtain ⟨item, hitem, h⟩ := bind_eq_ok.mp h
    obtain ⟨lo, hlo, h⟩ := bind_eq_ok.mp h
    obtain ⟨hi, hhi, h⟩ := bind_eq_ok.mp h
    exact ⟨items, item, lo, hi, hitems, hitem, hlo, hhi, (Except.ok.inj h).symm⟩

/-- A bound that is an integer is kept. -/
theorem mem_of_intValue {bound : Option JSONValue} {lo : Option Int}
    (hint : ∀ v, bound = some v → ∃ n, v = .int n) (h : intValue bound = .ok lo) (n : Int) :
    n ∈ lo ↔ bound = some (.int n) := by
  cases bound with
  | none =>
    rw [← Except.ok.inj h]
    simp
  | some v =>
    obtain ⟨m, rfl⟩ := hint v rfl
    rw [← Except.ok.inj h]
    simp

theorem admits_arraySchema (hschema : IsTyped schema)
    (hkeeps : ∀ items, schema.lookup "items" = some items → Keeps go (stripNullable items))
    (h : arraySchema go schema name = .ok d) (hv : NullFree v) :
    Admits d v ↔ OfType "array" v ∧ Below true schema v := by
  obtain ⟨items, item, lo, hi, hitems, hitem, hlo, hhi, rfl⟩ := arraySchema_ok h
  have hmeans : ∀ x, NullFree x → (Valid true items x ↔ Admits item x) := fun x hx => by
    rw [← hkeeps items hitems _ item hitem x hx,
      valid_stripNullable (hschema.items items hitems) hx.ne_null]
  have hlo : ∀ n, n ∈ lo ↔ _ := mem_of_intValue (hschema.bounds "minItems" (by simp)) hlo
  have hhi : ∀ n, n ∈ hi ↔ _ := mem_of_intValue (hschema.bounds "maxItems" (by simp)) hhi
  rw [Admits]
  constructor
  · rintro ⟨elems, rfl, helems, hmin, hmax⟩
    refine ⟨⟨elems, rfl⟩, nofun, nofun, ?_, ?_, ?_, nofun⟩
    · rintro _ x items' ⟨⟩ hx hitems'
      rw [hitems] at hitems'
      rw [← Option.some.inj hitems']
      exact (hmeans x (hv.of_mem_array hx)).mpr (helems x hx)
    · rintro _ n ⟨⟩ hn
      exact hmin n ((hlo n).mpr hn)
    · rintro _ n ⟨⟩ hn
      exact hmax n ((hhi n).mpr hn)
  · rintro ⟨⟨elems, rfl⟩, hnode⟩
    refine ⟨elems, rfl, fun x hx => ?_, fun n hn => ?_, fun n hn => ?_⟩
    · exact (hmeans x (hv.of_mem_array hx)).mp (hnode.item elems x items rfl hx hitems)
    · exact hnode.minItems elems n rfl ((hlo n).mp hn)
    · exact hnode.maxItems elems n rfl ((hhi n).mp hn)

theorem ne_object_of_ofType {type : String} (h : OfType type v) (hne : type ≠ "object")
    (members : List (String × JSONValue)) : v ≠ .object members := by
  rintro rfl
  unfold OfType at h
  split at h
  · exact hne rfl
  all_goals simp at h

theorem ne_array_of_ofType {type : String} (h : OfType type v) (hne : type ≠ "array")
    (elems : List JSONValue) : v ≠ .array elems := by
  rintro rfl
  unfold OfType at h
  split at h
  · simp at h
  · exact hne rfl
  all_goals simp at h

/-- Nothing is asked of members and elements where there are none. -/
theorem ofType_and_below {type : String} (hobject : type ≠ "object") (harray : type ≠ "array") :
    OfType type v ↔ OfType type v ∧ Below true schema v :=
  (and_iff_left_of_imp fun h => below_of_scalar (ne_object_of_ofType h hobject)
    (ne_array_of_ofType h harray) schema).symm

theorem admits_singleSchema {type : String} (hschema : IsTyped schema)
    (hproperties : ∀ key propertySchema, Declares schema key propertySchema →
      Keeps go (stripNullable propertySchema))
    (hitems : ∀ items, schema.lookup "items" = some items → Keeps go (stripNullable items))
    (h : singleSchema t go raw schema name type = .ok d) (hv : NullFree v) :
    Admits d v ↔ OfType type v ∧ Below true schema v := by
  unfold singleSchema at h
  split at h
  · exact admits_objectSchema hschema hproperties h hv
  · exact admits_arraySchema hschema hitems h hv
  · rw [← Except.ok.inj h, Admits]
    exact ofType_and_below (by decide) (by decide)
  · rw [← Except.ok.inj h, Admits]
    exact ofType_and_below (by decide) (by decide)
  · rw [← Except.ok.inj h, Admits]
    exact ofType_and_below (by decide) (by decide)
  · rw [← Except.ok.inj h, Admits]
    exact ofType_and_below (by decide) (by decide)
  · cases h

theorem map_string_filterMap {names : List JSONValue} (h : ∀ name ∈ names, ∃ s, name = .string s) :
    (names.filterMap JSONValue.stringValue).map JSONValue.string = names := by
  induction names with
  | nil => rfl
  | cons name rest ih =>
    obtain ⟨s, rfl⟩ := h name (List.mem_cons_self ..)
    show JSONValue.string s :: (rest.filterMap JSONValue.stringValue).map JSONValue.string = _
    rw [ih fun name hname => h name (List.mem_cons_of_mem _ hname)]

theorem typeNames_ok {types : List String} (hschema : IsTyped schema)
    (h : typeNames schema name = .ok types) :
    (∀ type, schema.lookup "type" = some type → HasType type v) ↔
      ∃ typeName ∈ types, OfType typeName v := by
  obtain ⟨type, htype, hnames⟩ := hschema.type
  rw [typeNames, htype] at h
  have hone : (∀ type, schema.lookup "type" = some type → HasType type v) ↔ HasType type v := by
    rw [htype]
    exact ⟨fun h => h type rfl, fun h type' htype' => Option.some.inj htype' ▸ h⟩
  rw [hone]
  rcases hnames with ⟨s, rfl⟩ | ⟨names, rfl, hstrings⟩
  · rw [← Except.ok.inj h]
    simp [HasType]
  · dsimp only at h
    split at h
    · rw [← Except.ok.inj h, HasType]
      refine exists_congr fun typeName => and_congr_left' ?_
      nth_rewrite 1 [← map_string_filterMap hstrings]
      rw [List.mem_map_of_injective fun _ _ => JSONValue.string.inj]
    · cases h

theorem admits_typedSchema (hschema : IsTyped schema)
    (hnarrowed : ∀ types, typeNames schema name = .ok types → 2 ≤ types.length →
      ∀ typeName, Keeps go (narrowedSchema schema typeName))
    (hproperties : ∀ key propertySchema, Declares schema key propertySchema →
      Keeps go (stripNullable propertySchema))
    (hitems : ∀ items, schema.lookup "items" = some items → Keeps go (stripNullable items))
    (h : typedSchema t available go raw schema name = .ok d) (hv : NullFree v) :
    Valid true (.object schema) v ↔ Admits d v := by
  obtain ⟨types, htypes, h⟩ := bind_eq_ok.mp h
  rw [valid_typed (hschema.lacks _ (by simp)) (hschema.lacks _ (by simp)),
    typeNames_ok hschema htypes]
  -- null is among the types of no value here
  have hkept : (∃ typeName ∈ types, OfType typeName v) ↔
      ∃ typeName ∈ types.filter (· ≠ "null"), OfType typeName v := by
    constructor
    · rintro ⟨typeName, hmem, hof⟩
      refine ⟨typeName, List.mem_filter.mpr ⟨hmem, ?_⟩, hof⟩
      rw [decide_eq_true_iff]
      rintro rfl
      exact hv.ne_null hof
    · rintro ⟨typeName, hmem, hof⟩
      exact ⟨typeName, List.mem_of_mem_filter hmem, hof⟩
  rw [hkept]
  split at h
  · next hnil =>
    rw [hnil]
    exact iff_of_false (fun h => by obtain ⟨⟨_, hmem, _⟩, _⟩ := h; cases hmem)
      (not_admits_null hv.ne_null h)
  · next type hone =>
    rw [hone, admits_singleSchema hschema hproperties hitems h hv]
    simp
  · next hnil hone =>
    obtain ⟨choices, hmap, hlast⟩ := bind_eq_ok.mp h
    have hlength := two_le_length_of_filter hnil hone
    rw [← Except.ok.inj hlast, admits_union (P := fun typeName =>
      OfType typeName v ∧ Below true schema v) hmap]
    · constructor
      · rintro ⟨⟨typeName, hmem, hof⟩, hbelow⟩
        exact ⟨typeName, hmem, hof, hbelow⟩
      · rintro ⟨typeName, hmem, hof, hbelow⟩
        exact ⟨⟨typeName, hmem, hof⟩, hbelow⟩
    · intro typeName _ d' hd'
      rw [← valid_narrowedSchema hschema]
      exact hnarrowed types htypes hlength typeName _ d' hd' v hv

theorem keeps_dynamicGenerationSchema (hschema : IsSchema raw) :
    Keeps (fun call => dynamicGenerationSchema t available call.1 call.2) raw := by
  intro name
  refine @dynamicGenerationSchema_rule t available (fun raw _ r => IsSchema raw → ∀ d, r = .ok d →
    ∀ v, NullFree v → (Valid true raw v ↔ Admits d v)) ?_ raw name hschema
  intro raw name ih hschema d h v hv
  have hbelow : ∀ raw', raw'.size < raw.size → IsSchema raw' →
      Keeps (fun call => dynamicGenerationSchema t available call.1 call.2) raw' :=
    fun raw' hsize hschema' name' => ih raw' name' hsize hschema'
  cases hschema with
  | @enum schema choices enum strings type lacks =>
    rw [schemaBody_enum t available _ (by rw [enum]; rfl)] at h
    obtain ⟨names, rfl, rfl⟩ := enumSchema_ok h
    rw [valid_enum enum strings type (lacks "anyOf" (by simp)), Admits, List.mem_map]
    simp only [eq_comm]
  | @anyOf schema branches anyOf below lacks =>
    rw [schemaBody_anyOf t available _ (by rw [lacks "enum" (by simp)]; rfl)
      (by rw [anyOf]; rfl)] at h
    rw [valid_anyOf anyOf lacks]
    exact (admits_anyOfSchema (fun branch hbranch => hbelow branch (size_branch_lt anyOf hbranch)
      (below branch hbranch)) h hv).symm
  | @typed schema type lacks properties property required subset items bounds =>
    have hschema : IsTyped schema :=
      ⟨type, lacks, properties, property, required, subset, items, bounds⟩
    rw [schemaBody_typed t available _ (by rw [lacks "enum" (by simp)]; rfl)
      (by rw [lacks "anyOf" (by simp), lacks "oneOf" (by simp)]; rfl)] at h
    refine admits_typedSchema hschema (fun types htypes hlength typeName => ?_)
      (fun key propertySchema hdeclares => ?_) (fun items' hitems => ?_) h hv
    · exact hbelow _ (size_narrowedSchema_lt htypes hlength typeName)
        (isSchema_narrowedSchema hschema typeName)
    · exact hbelow _ (size_property_lt (declares_iff.mp hdeclares))
        (isSchema_stripNullable (property key propertySchema hdeclares))
    · exact hbelow _ (size_items_lt hitems) (isSchema_stripNullable (items items' hitems))

/-- The translation admits the values without null that are valid when each object has only
properties of the node that it is valid under. -/
theorem admits_iff_valid (hschema : IsSchema raw)
    (h : dynamicGenerationSchema t available raw name = .ok d) (hv : NullFree v) :
    Admits d v ↔ Valid true raw v :=
  (keeps_dynamicGenerationSchema hschema name d h v hv).symm

end Meaning

/-! ## Properties of another branch -/

/-- A schema, or a branch of it at any depth. -/
inductive Branch : JSONValue → JSONValue → Prop
  | self (raw : JSONValue) : Branch raw raw
  | within {schema : List (String × JSONValue)} {branches : List JSONValue} {branch raw : JSONValue}
      (anyOf : schema.lookup "anyOf" = some (.array branches)) (mem : branch ∈ branches)
      (rest : Branch branch raw) : Branch (.object schema) raw

/-- A value whose objects have only properties that one of the schemas at their place
declares. -/
inductive Carries : (JSONValue → Prop) → JSONValue → Prop
  | object {place : JSONValue → Prop} {members : List (String × JSONValue)}
      (declared : ∀ key x, (key, x) ∈ members →
        ∃ schema propertySchema, place (.object schema) ∧ Declares schema key propertySchema)
      (below : ∀ key x, (key, x) ∈ members → Carries (fun raw => ∃ schema propertySchema,
        place (.object schema) ∧ Declares schema key propertySchema ∧ Branch propertySchema raw) x) :
      Carries place (.object members)
  | array {place : JSONValue → Prop} {elems : List JSONValue}
      (below : ∀ x ∈ elems, Carries (fun raw => ∃ schema items,
        place (.object schema) ∧ schema.lookup "items" = some items ∧ Branch items raw) x) :
      Carries place (.array elems)
  | string (place : JSONValue → Prop) (s : String) : Carries place (.string s)
  | int (place : JSONValue → Prop) (i : Int) : Carries place (.int i)
  | double (place : JSONValue → Prop) (d : ℚ) : Carries place (.double d)
  | bool (place : JSONValue → Prop) (b : Bool) : Carries place (.bool b)
  | null (place : JSONValue → Prop) : Carries place .null

def textSchema : List (String × JSONValue) := [("type", .string "string")]

/-- An object that may have one property, a text. -/
def textProperty (key : String) : List (String × JSONValue) :=
  [("type", .string "object"), ("properties", .object [(key, .object textSchema)])]

def eitherProperty : JSONValue :=
  .object [("anyOf", .array [.object (textProperty "a"), .object (textProperty "b")])]

def eitherTranslated : DynamicGenerationSchema :=
  .union "Either" [
    .object (choiceName "Either" 0) none [⟨"a", none, .string, true⟩],
    .object (choiceName "Either" 1) none [⟨"b", none, .string, true⟩]]

theorem isSchema_textSchema : IsSchema (.object textSchema) :=
  .typed ⟨.string "string", rfl, .inl ⟨"string", rfl⟩⟩ (by simp [textSchema, List.lookup_cons])
    nofun (fun key _ h => (not_declares rfl key _ h).elim) nofun
    (fun key h => (not_requires rfl key h).elim) nofun (by simp [textSchema, List.lookup_cons])

theorem declares_textProperty {key key' : String} {propertySchema : JSONValue} :
    Declares (textProperty key) key' propertySchema ↔
      key' = key ∧ propertySchema = .object textSchema := by
  rw [declares_iff]
  show [(key, JSONValue.object textSchema)].lookup key' = some propertySchema ↔ _
  by_cases hkey : key' = key
  · simp [hkey, eq_comm]
  · simp [List.lookup_cons, beq_eq_false_iff_ne.mpr hkey, hkey]

theorem isSchema_textProperty (key : String) : IsSchema (.object (textProperty key)) :=
  .typed ⟨.string "object", rfl, .inl ⟨"object", rfl⟩⟩ (by simp [textProperty, List.lookup_cons])
    (fun v hv => ⟨_, (Option.some.inj hv).symm⟩)
    (fun key' _ h => (declares_textProperty.mp h).2 ▸ isSchema_textSchema) nofun
    (fun key' h => (not_requires rfl key' h).elim) nofun (by simp [textProperty, List.lookup_cons])

theorem isSchema_eitherProperty : IsSchema eitherProperty := by
  refine .anyOf rfl (fun branch hbranch => ?_) (by simp [List.lookup_cons])
  rcases List.mem_cons.mp hbranch with rfl | hbranch
  · exact isSchema_textProperty "a"
  · rw [List.mem_singleton.mp hbranch]
    exact isSchema_textProperty "b"

/-- An object with one property. -/
def oneMember (key : String) (x : JSONValue) : JSONValue := .object [(key, x)]

theorem eq_of_mem_oneMember {key key' : String} {x x' : JSONValue}
    {members : List (String × JSONValue)} (h : oneMember key x = .object members)
    (hmem : (key', x') ∈ members) : key' = key ∧ x' = x := by
  rw [← JSONValue.object.inj h] at hmem
  exact Prod.mk.inj (List.mem_singleton.mp hmem)

/-- Under the other branch nothing is said of the property. -/
theorem valid_of_open {key key' : String} (hne : key ≠ key') (x : JSONValue) :
    Valid false (.object (textProperty key')) (oneMember key x) := by
  refine (valid_typed rfl rfl).mpr ⟨?_, ?_, ?_, nofun, nofun, nofun, nofun⟩
  · rintro _ ⟨⟩
    exact ⟨_, rfl⟩
  · intro members k x' propertySchema hv hmem hdeclares
    exact absurd ((eq_of_mem_oneMember hv hmem).1.symm.trans (declares_textProperty.mp hdeclares).1)
      hne
  · exact fun _ k _ h => (not_requires rfl k h).elim

/-- A property that the other branch declares with another type. -/
theorem not_admits_of_other_branch :
    IsSchema eitherProperty ∧
      dynamicGenerationSchema .ascii true eitherProperty "Either" = .ok eitherTranslated ∧
      NullFree (oneMember "a" (.int 5)) ∧
      Carries (Branch eitherProperty) (oneMember "a" (.int 5)) ∧
      Valid false eitherProperty (oneMember "a" (.int 5)) ∧
      ¬Admits eitherTranslated (oneMember "a" (.int 5)) := by
  refine ⟨isSchema_eitherProperty, rfl, ?_, ?_, ?_, ?_⟩
  · refine .object fun key x hmem => ?_
    rw [(eq_of_mem_oneMember rfl hmem).2]
    exact .int 5
  · refine .object (fun key x hmem => ?_) fun key x hmem => ?_
    · rw [(eq_of_mem_oneMember rfl hmem).1]
      exact ⟨textProperty "a", _, .within rfl (List.mem_cons_self ..) (.self _),
        declares_textProperty.mpr ⟨rfl, rfl⟩⟩
    · rw [(eq_of_mem_oneMember rfl hmem).2]
      exact .int _ 5
  · have hbranch := @valid_of_open "a" "b" (by decide) (.int 5)
    exact (valid_anyOf rfl (by simp [List.lookup_cons])).mpr
      ⟨_, List.mem_cons_of_mem _ (List.mem_cons_self ..), hbranch⟩
  · simp [eitherTranslated, Admits, AdmitsAny, AdmitsMember, oneMember, OfType]

/-- A text is admitted, and valid under the first branch. -/
theorem admits_iff_valid_either :
    Admits eitherTranslated (oneMember "a" (.string "x")) ↔
      Valid true eitherProperty (oneMember "a" (.string "x")) :=
  @admits_iff_valid .ascii true "Either" _ _ _ isSchema_eitherProperty rfl
    (.object fun _ _ hmem => (eq_of_mem_oneMember rfl hmem).2 ▸ .string "x")

end Mac
end Panops
