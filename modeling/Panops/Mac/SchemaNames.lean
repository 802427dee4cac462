import Mathlib.Data.List.Nodup
import Panops.Mac.Codecs

/-!
# Names in a translated schema

A named node of a translated schema has a name built from the path that leads to it in the
JSON Schema.  Names are told apart as far as the spellings of the paths are.
-/

namespace Panops
namespace Mac

open Lib.Fallible Lib.Unrolling

/-! ## Characters -/

/-- What is relied on of Swift's characters. -/
structure CharacterTable.Lawful (t : CharacterTable) : Prop where
  alpha : ∀ c, c.isAlpha = true → t.isLetter c = true ∧ t.isNumber c = false
  digit : ∀ c, c.isDigit = true → t.isNumber c = true
  capital : ∀ c, c.isUpper = true → t.uppercased c = [c]
  underscore : t.keeps '_' = false
  keeps_uppercased : ∀ c u, t.keeps c = true → u ∈ t.uppercased c → t.keeps u = true
  uppercased_ne_nil : ∀ c, t.uppercased c ≠ []
  uppercased_head : ∀ c u rest, t.uppercased c = u :: rest → t.uppercased u = [u]

theorem toUpper_of_isLower_eq_false {c : Char} (h : c.isLower = false) : c.toUpper = c := by
  delta Char.isLower at h
  delta Char.toUpper
  simp only [Bool.and_eq_false_iff, decide_eq_false_iff_not] at h
  exact dif_neg fun hlower => h.elim (fun hlow => hlow hlower.1) fun hhigh => hhigh hlower.2

theorem isUpper_toUpper {c : Char} (h : c.isLower = true) : c.toUpper.isUpper = true := by
  delta Char.isLower at h
  simp only [Bool.and_eq_true, decide_eq_true_eq] at h
  delta Char.isUpper Char.toUpper
  rw [dif_pos h]
  simp only [decide_eq_true_eq]
  grind [UInt32.toNat_add, Char.toNat_val]

theorem isLower_eq_false_of_isUpper {c : Char} (h : c.isUpper = true) : c.isLower = false := by
  delta Char.isLower Char.isUpper at *
  grind

theorem isLower_toUpper (c : Char) : c.toUpper.isLower = false := by
  cases h : c.isLower with
  | true => exact isLower_eq_false_of_isUpper (isUpper_toUpper h)
  | false => rw [toUpper_of_isLower_eq_false h, h]

theorem isAlpha_of_isUpper {c : Char} (h : c.isUpper = true) : c.isAlpha = true := by
  delta Char.isAlpha
  rw [h, Bool.true_or]

theorem isDigit_eq_false_of_isAlpha {c : Char} (h : c.isAlpha = true) : c.isDigit = false := by
  delta Char.isAlpha Char.isDigit Char.isLower Char.isUpper at *
  grind

theorem CharacterTable.ascii_lawful : CharacterTable.ascii.Lawful where
  alpha _ h := ⟨h, isDigit_eq_false_of_isAlpha h⟩
  digit _ h := h
  capital c h := by
    show [c.toUpper] = [c]
    rw [toUpper_of_isLower_eq_false (isLower_eq_false_of_isUpper h)]
  underscore := rfl
  keeps_uppercased c u hc hu := by
    rw [List.mem_singleton.mp hu]
    cases h : c.isLower with
    | true =>
      have halpha := isAlpha_of_isUpper (isUpper_toUpper h)
      simp [CharacterTable.keeps, CharacterTable.ascii, halpha]
    | false => rw [toUpper_of_isLower_eq_false h, hc]
  uppercased_ne_nil _ := List.cons_ne_nil _ _
  uppercased_head c u rest h := by
    obtain ⟨rfl, -⟩ := List.cons.inj h
    show [c.toUpper.toUpper] = [c.toUpper]
    rw [toUpper_of_isLower_eq_false (isLower_toUpper c)]

section Sanitized

variable {t : CharacterTable} {name : String} {raw : List Char}

theorem forall_mem_splitOnP (p : Char → Bool) (raw : List Char) :
    ∀ part ∈ raw.splitOnP p, ∀ c ∈ part, p c = false := by
  induction raw with
  | nil =>
    intro part hpart c hc
    rw [List.splitOnP_nil, List.mem_singleton] at hpart
    rw [hpart] at hc
    cases hc
  | cons x xs ih =>
    intro part hpart c hc
    rw [List.splitOnP_cons_eq_if_modifyHead] at hpart
    split at hpart
    · rcases List.mem_cons.mp hpart with rfl | hpart
      · cases hc
      · exact ih part hpart c hc
    · next hx =>
      cases hxs : xs.splitOnP p with
      | nil => exact absurd hxs (List.splitOnP_ne_nil p xs)
      | cons first rest =>
        rw [hxs, List.modifyHead_cons] at hpart
        rcases List.mem_cons.mp hpart with rfl | hpart
        · rcases List.mem_cons.mp hc with rfl | hc
          · simpa using hx
          · exact ih first (by rw [hxs]; exact List.mem_cons_self ..) c hc
        · exact ih part (by rw [hxs]; exact List.mem_cons_of_mem _ hpart) c hc

/-- A name that is not changed any more in front of others. -/
structure Settled (t : CharacterTable) (name : String) : Prop where
  keeps : ∀ c ∈ name.toList, t.keeps c = true
  head : ∃ first rest, name.toList = first :: rest ∧ t.uppercased first = [first] ∧
    t.isNumber first = false

theorem Settled.append (h : Settled t name) {s : String} (hs : ∀ c ∈ s.toList, t.keeps c = true) :
    Settled t (name ++ s) where
  keeps c hc := by
    rw [String.toList_append, List.mem_append] at hc
    exact hc.elim (h.keeps c) (hs c)
  head := by
    obtain ⟨first, rest, hname, hfirst⟩ := h.head
    refine ⟨first, rest ++ s.toList, ?_, hfirst⟩
    rw [String.toList_append, hname, List.cons_append]

/-- The words of a name that is settled, and of what follows it. -/
theorem joined_append (ht : t.Lawful) (h : Settled t name) (key : List Char) :
    t.joined (name.toList ++ '_' :: key) = name.toList ++ t.joined key := by
  obtain ⟨first, rest, hname, hfirst, -⟩ := h.head
  have hwhole : (name.toList.splitOnP fun c => !t.keeps c) = [name.toList] :=
    List.splitOnP_eq_singleton fun c hc => by rw [h.keeps c hc]; rfl
  rw [CharacterTable.joined, List.splitOnP_append_cons _ _ (by rw [ht.underscore]; rfl), hwhole,
    List.singleton_append, List.filter_cons_of_pos (by simp [hname]), List.flatMap_cons, hname]
  show t.uppercased first ++ rest ++ _ = _
  rw [hfirst]
  rfl

theorem keeps_of_mem_joined (ht : t.Lawful) {c : Char} (h : c ∈ t.joined raw) :
    t.keeps c = true := by
  obtain ⟨part, hpart, hc⟩ := List.mem_flatMap.mp h
  have hkept : ∀ c ∈ part, t.keeps c = true := fun c hc => by
    simpa using forall_mem_splitOnP _ raw part (List.mem_of_mem_filter hpart) c hc
  cases part with
  | nil => cases hc
  | cons first rest =>
    rcases List.mem_append.mp hc with hc | hc
    · exact ht.keeps_uppercased first c (hkept first (List.mem_cons_self ..)) hc
    · exact hkept c (List.mem_cons_of_mem _ hc)

/-- The first of the words begins with a capital. -/
theorem uppercased_head_joined (ht : t.Lawful) {first : Char} {rest : List Char}
    (h : t.joined raw = first :: rest) : t.uppercased first = [first] := by
  rw [CharacterTable.joined] at h
  cases hparts : (raw.splitOnP fun c => !t.keeps c).filter (· ≠ []) with
  | nil =>
    rw [hparts] at h
    cases h
  | cons part parts =>
    have hne : part ≠ [] := by
      have hmem : part ∈ (raw.splitOnP fun c => !t.keeps c).filter (· ≠ []) := by
        rw [hparts]
        exact List.mem_cons_self ..
      simpa using (List.mem_filter.mp hmem).2
    rw [hparts, List.flatMap_cons] at h
    cases part with
    | nil => exact absurd rfl hne
    | cons c cs =>
      cases hc : t.uppercased c with
      | nil => exact absurd hc (ht.uppercased_ne_nil c)
      | cons u us =>
        rw [CharacterTable.capitalized, hc, List.cons_append, List.cons_append] at h
        rw [← (List.cons.inj h).1]
        exact ht.uppercased_head c u us hc

theorem keeps_of_isAlpha (ht : t.Lawful) {c : Char} (h : c.isAlpha = true) : t.keeps c = true := by
  rw [CharacterTable.keeps, (ht.alpha c h).1]
  rfl

theorem keeps_of_isDigit (ht : t.Lawful) {c : Char} (h : c.isDigit = true) : t.keeps c = true := by
  rw [CharacterTable.keeps, ht.digit c h, Bool.or_true]

theorem settled_panops (ht : t.Lawful) {cs : List Char} (h : ∀ c ∈ cs, t.keeps c = true) :
    Settled t (String.ofList ("Panops".toList ++ cs)) where
  keeps c hc := by
    rw [String.toList_ofList, List.mem_append] at hc
    rcases hc with hc | hc
    · have halpha : "Panops".toList.all Char.isAlpha = true := by decide +kernel
      exact keeps_of_isAlpha ht (List.all_eq_true.mp halpha c hc)
    · exact h c hc
  head := ⟨'P', "anops".toList ++ cs, String.toList_ofList, ht.capital 'P' rfl, (ht.alpha 'P' rfl).2⟩

/-- The name that the words make where they do not begin with a number. -/
theorem sanitizedTypeName_of_cons {raw : String} {first : Char} {rest : List Char}
    (h : t.joined raw.toList = first :: rest) (hnumber : t.isNumber first = false) :
    sanitizedTypeName t raw = String.ofList (first :: rest) := by
  simp [sanitizedTypeName, h, hnumber]

theorem settled_sanitizedTypeName (ht : t.Lawful) (raw : String) :
    Settled t (sanitizedTypeName t raw) := by
  cases hjoined : t.joined raw.toList with
  | nil =>
    have hnumber : t.isNumber 'P' = false := (ht.alpha 'P' rfl).2
    have hname : sanitizedTypeName t raw = String.ofList ("Panops".toList ++ "Schema".toList) := by
      rw [sanitizedTypeName, hjoined, if_pos rfl]
      show (if t.isNumber 'P' = true then _ else _) = _
      rw [hnumber]
      rfl
    rw [hname]
    have halpha : "Schema".toList.all Char.isAlpha = true := by decide +kernel
    exact settled_panops ht fun c hc => keeps_of_isAlpha ht (List.all_eq_true.mp halpha c hc)
  | cons first rest =>
    have hkept : ∀ c ∈ first :: rest, t.keeps c = true := fun c hc =>
      keeps_of_mem_joined ht (hjoined ▸ hc)
    cases hnumber : t.isNumber first with
    | true =>
      have hname : sanitizedTypeName t raw = String.ofList ("Panops".toList ++ first :: rest) := by
        simp [sanitizedTypeName, hjoined, hnumber]
      rw [hname]
      exact settled_panops ht hkept
    | false =>
      rw [sanitizedTypeName_of_cons hjoined hnumber]
      exact ⟨fun c hc => hkept c (by rwa [String.toList_ofList] at hc),
        first, rest, String.toList_ofList, uppercased_head_joined ht hjoined, hnumber⟩

/-- A property is told by its own words, put behind the name of the object. -/
theorem propertyTypeName_eq (ht : t.Lawful) (h : Settled t name) (key : String) :
    propertyTypeName t name key = name ++ String.ofList (t.joined key.toList) := by
  obtain ⟨first, rest, hname, -, hnumber⟩ := h.head
  have hjoined : t.joined (name ++ "_" ++ key).toList = name.toList ++ t.joined key.toList := by
    rw [String.toList_append, String.toList_append, List.append_assoc]
    exact joined_append ht h key.toList
  rw [hname, List.cons_append] at hjoined
  rw [propertyTypeName, sanitizedTypeName_of_cons hjoined hnumber, ← List.cons_append, ← hname,
    String.ofList_append, String.ofList_toList]

end Sanitized

/-! ## Named nodes -/

mutual
/-- The names of a schema, at any depth. -/
def DynamicGenerationSchema.names : DynamicGenerationSchema → List String
  | .choices name _ => [name]
  | .union name anyOf => name :: namesAny anyOf
  | .object name _ properties => name :: namesMembers properties
  | .arrayOf item _ _ => item.names
  | _ => []

def DynamicGenerationSchema.namesAny : List DynamicGenerationSchema → List String
  | [] => []
  | schema :: rest => schema.names ++ namesAny rest

def DynamicGenerationSchema.namesMembers :
    List (SchemaProperty DynamicGenerationSchema) → List String
  | [] => []
  | ⟨_, _, schema, _⟩ :: rest => schema.names ++ namesMembers rest
end

open DynamicGenerationSchema (namesAny namesMembers)

theorem namesAny_eq (anyOf : List DynamicGenerationSchema) :
    namesAny anyOf = anyOf.flatMap DynamicGenerationSchema.names := by
  induction anyOf with
  | nil => rfl
  | cons schema rest ih => rw [namesAny, ih, List.flatMap_cons]

theorem namesMembers_eq (properties : List (SchemaProperty DynamicGenerationSchema)) :
    namesMembers properties = properties.flatMap fun p => p.schema.names := by
  induction properties with
  | nil => rfl
  | cons p rest ih => rw [namesMembers, ih, List.flatMap_cons]

/-- A step from a node of a JSON Schema to one below it: to a property, to the elements, to
one of several branches, to one of several types. -/
inductive Step where
  | property (key : String)
  | item
  | choice (index : Nat)
  | type (index : Nat) (name : String)
deriving DecidableEq

abbrev Path := List Step

/-! The places of the objects, enums and unions of a JSON Schema. -/

section Places

variable (go : JSONValue → List Path)

def anyOfPlaces (anyOf : List JSONValue) : List Path :=
  match anyOf.filter fun branch => !isNullSchema branch with
  | [] => []
  | [branch] => go branch
  | nonNull =>
    [] :: nonNull.zipIdx.flatMap fun choice => (go choice.1).map (Step.choice choice.2 :: ·)

def propertyPlaces (schema : List (String × JSONValue)) (key : String) : List Path :=
  ((properties schema).lookup key).elim [] fun propertySchema =>
    (go (stripNullable propertySchema)).map (Step.property key :: ·)

def arrayPlaces (schema : List (String × JSONValue)) : List Path :=
  (schema.lookup "items").elim [] fun items => (go (stripNullable items)).map (Step.item :: ·)

def singlePlaces (schema : List (String × JSONValue)) (type : String) : List Path :=
  match type with
  | "object" => [] :: (propertyNames schema).flatMap (propertyPlaces go schema)
  | "array" => arrayPlaces go schema
  | _ => []

def typedPlaces (schema : List (String × JSONValue)) (types : List String) : List Path :=
  match types.filter (· ≠ "null") with
  | [] => []
  | [type] => singlePlaces go schema type
  | types =>
    [] :: types.zipIdx.flatMap fun type =>
      (go (narrowedSchema schema type.1)).map (Step.type type.2 type.1 :: ·)

def placesBody (raw : JSONValue) : List Path :=
  raw.objectValue.elim [] fun schema =>
    if ((schema.lookup "enum").bind JSONValue.arrayValue).isSome then [[]]
    else
      (((schema.lookup "anyOf").bind JSONValue.arrayValue).or
          ((schema.lookup "oneOf").bind JSONValue.arrayValue)).elim
        ((typeNames schema "").toOption.elim [] (typedPlaces go schema)) (anyOfPlaces go)

end Places

def namedPlaces (raw : JSONValue) : List Path := fix placesBody [] JSONValue.size raw

section Equation

variable {go go' : JSONValue → List Path} {schema : List (String × JSONValue)}

theorem anyOfPlaces_congr {anyOf : List JSONValue} (h : ∀ branch ∈ anyOf, go branch = go' branch) :
    anyOfPlaces go anyOf = anyOfPlaces go' anyOf := by
  have hkept : ∀ branch ∈ anyOf.filter (fun b => !isNullSchema b), go branch = go' branch :=
    fun b hb => h b (List.mem_of_mem_filter hb)
  unfold anyOfPlaces
  split
  · rfl
  · next branch hone => exact hkept branch (by rw [hone]; exact List.mem_singleton_self _)
  · refine congrArg _ (List.flatMap_congr fun choice hchoice => ?_)
    rw [hkept choice.1 (List.fst_mem_of_mem_zipIdx hchoice)]

theorem propertyPlaces_congr {key : String}
    (h : ∀ v, (properties schema).lookup key = some v →
      go (stripNullable v) = go' (stripNullable v)) :
    propertyPlaces go schema key = propertyPlaces go' schema key := by
  unfold propertyPlaces
  cases hlookup : (properties schema).lookup key with
  | none => rfl
  | some v => rw [Option.elim_some, Option.elim_some, h v hlookup]

theorem arrayPlaces_congr
    (h : ∀ v, schema.lookup "items" = some v → go (stripNullable v) = go' (stripNullable v)) :
    arrayPlaces go schema = arrayPlaces go' schema := by
  unfold arrayPlaces
  cases hlookup : schema.lookup "items" with
  | none => rfl
  | some v => rw [Option.elim_some, Option.elim_some, h v hlookup]

theorem typedPlaces_congr {types : List String}
    (hnarrowed : 2 ≤ types.length → ∀ typeName,
      go (narrowedSchema schema typeName) = go' (narrowedSchema schema typeName))
    (hproperties : ∀ key v, (properties schema).lookup key = some v →
      go (stripNullable v) = go' (stripNullable v))
    (hitems : ∀ v, schema.lookup "items" = some v →
      go (stripNullable v) = go' (stripNullable v)) :
    typedPlaces go schema types = typedPlaces go' schema types := by
  unfold typedPlaces
  split
  · rfl
  · unfold singlePlaces
    split
    · exact congrArg _ (List.flatMap_congr fun key _ => propertyPlaces_congr (hproperties key))
    · exact arrayPlaces_congr hitems
    · rfl
  · next hnil hone =>
    have hlength := two_le_length_of_filter hnil hone
    exact congrArg _ (List.flatMap_congr fun type _ => by rw [hnarrowed hlength])

theorem placesBody_callsSmaller : CallsSmaller placesBody JSONValue.size := by
  intro go go' raw h
  cases raw with
  | object schema =>
    simp only [placesBody, JSONValue.objectValue, Option.elim_some]
    split
    · rfl
    · cases hanyOf : ((schema.lookup "anyOf").bind JSONValue.arrayValue).or
          ((schema.lookup "oneOf").bind JSONValue.arrayValue) with
      | some anyOf =>
        obtain ⟨key, hkey⟩ := exists_key_of_branches hanyOf
        exact anyOfPlaces_congr fun branch hbranch => h _ (size_branch_lt hkey hbranch)
      | none =>
        cases htypes : typeNames schema "" with
        | error e => rfl
        | ok types =>
          exact typedPlaces_congr
            (fun hlength typeName => h _ (size_narrowedSchema_lt htypes hlength typeName))
            (fun _ _ hlookup => h _ (size_property_lt hlookup))
            (fun _ hlookup => h _ (size_items_lt hlookup))
  | array | string | int | double | bool | null => rfl

theorem namedPlaces_eq (raw : JSONValue) : namedPlaces raw = placesBody namedPlaces raw :=
  fix_eq placesBody_callsSmaller raw

/-- The name is only for the error. -/
theorem toOption_typeNames (schema : List (String × JSONValue)) (name name' : String) :
    (typeNames schema name).toOption = (typeNames schema name').toOption := by
  unfold typeNames
  split
  · split
    · rfl
    · split
      · rfl
      · split <;> rfl
  · rfl
  · dsimp only
    split <;> rfl
  · rfl

end Equation

/-! ## How the places are spelled -/

/-- What a step adds to a name: the words of a property each with a capital, `Item`, `Choice`
with its number, the word of a type. -/
def Step.spelled (t : CharacterTable) : Step → List Char
  | .property key => t.joined key.toList
  | .item => "Item".toList
  | .choice index => "Choice".toList ++ (toString (index + 1)).toList
  | .type _ name => (sanitizedTypeName t name).toList

theorem spelled_item (t : CharacterTable) : Step.item.spelled t = "Item".toList := rfl

theorem spelled_choice (t : CharacterTable) (index : Nat) :
    (Step.choice index).spelled t = "Choice".toList ++ (toString (index + 1)).toList := rfl

theorem spelled_type (t : CharacterTable) (index : Nat) (name : String) :
    (Step.type index name).spelled t = (sanitizedTypeName t name).toList := rfl

def spelled (t : CharacterTable) (path : Path) : List Char := path.flatMap (Step.spelled t)

/-- The name of what stands at a path. -/
def nameAt (t : CharacterTable) (name : String) (path : Path) : String :=
  name ++ String.ofList (spelled t path)

section Names

variable {t : CharacterTable} {available : Bool}
  {go : SchemaCall → Except Failure DynamicGenerationSchema}
  {schema : List (String × JSONValue)} {name name' : String} {raw : JSONValue}
  {d : DynamicGenerationSchema} {step : Step}

theorem nameAt_nil : nameAt t name [] = name := by
  rw [nameAt, spelled, List.flatMap_nil, String.ofList_nil, String.append_empty]

theorem nameAt_cons (path : Path) :
    nameAt t name (step :: path) = nameAt t (name ++ String.ofList (step.spelled t)) path := by
  rw [nameAt, nameAt, spelled, List.flatMap_cons, String.ofList_append, String.append_assoc]
  rfl

/-- Below a settled name all names are settled. -/
theorem Settled.append_step (ht : t.Lawful) (h : Settled t name) (step : Step) :
    Settled t (name ++ String.ofList (step.spelled t)) := by
  refine h.append fun c hc => ?_
  rw [String.toList_ofList] at hc
  cases step with
  | property key => exact keeps_of_mem_joined ht hc
  | item =>
    have halpha : "Item".toList.all Char.isAlpha = true := by decide +kernel
    exact keeps_of_isAlpha ht (List.all_eq_true.mp halpha c hc)
  | choice index =>
    rcases List.mem_append.mp hc with hc | hc
    · have halpha : "Choice".toList.all Char.isAlpha = true := by decide +kernel
      exact keeps_of_isAlpha ht (List.all_eq_true.mp halpha c hc)
    · exact keeps_of_isDigit ht (Nat.isDigit_of_mem_toDigits (b := 10) (by decide) (by decide) (by
        simpa [Nat.toString_eq_ofList_toDigits] using hc))
  | type index name => exact (settled_sanitizedTypeName ht name).keeps c hc

/-- The names of the translation are those of the named places, in their order. -/
def Follows (t : CharacterTable) (go : SchemaCall → Except Failure DynamicGenerationSchema)
    (raw : JSONValue) : Prop :=
  ∀ name d, Settled t name → go (raw, name) = .ok d →
    d.names = (namedPlaces raw).map (nameAt t name)

theorem Follows.below (ht : t.Lawful) (h : Follows t go raw) (hname : Settled t name)
    (hstep : name' = name ++ String.ofList (step.spelled t)) (hd : go (raw, name') = .ok d) :
    d.names = ((namedPlaces raw).map (step :: ·)).map (nameAt t name) := by
  subst hstep
  rw [h _ d (hname.append_step ht step) hd, List.map_map]
  exact List.map_congr_left fun path _ => (nameAt_cons path).symm

theorem names_nullSchema (h : nullSchema available name = .ok d) : d.names = [] := by
  unfold nullSchema at h
  split at h
  · rw [← Except.ok.inj h]
    rfl
  · cases h

theorem names_enumSchema {enumValues : List JSONValue} (h : enumSchema name enumValues = .ok d) :
    d.names = [name] := by
  obtain ⟨choices, -, hlast⟩ := bind_eq_ok.mp h
  split at hlast
  · cases hlast
  · rw [← Except.ok.inj hlast]
    rfl

/-- A union, of what several calls returned. -/
theorem names_union {α : Type} {xs : List α} {f : α → Except Failure DynamicGenerationSchema}
    {choices : List DynamicGenerationSchema} {places : α → List Path}
    (hmap : xs.mapM f = .ok choices)
    (h : ∀ x ∈ xs, ∀ d, f x = .ok d → d.names = (places x).map (nameAt t name)) :
    (DynamicGenerationSchema.union name choices).names =
      ([] :: xs.flatMap places).map (nameAt t name) := by
  rw [DynamicGenerationSchema.names, namesAny_eq, List.map_cons, nameAt_nil, List.map_flatMap,
    flatMap_eq_of_mapM hmap h]

theorem choiceName_eq (index : Nat) :
    choiceName name index = name ++ String.ofList ((Step.choice index).spelled t) := by
  rw [choiceName, spelled_choice, String.ofList_append, String.ofList_toList, String.ofList_toList,
    String.append_assoc]

theorem names_anyOfSchema (ht : t.Lawful) {anyOf : List JSONValue}
    (hfollows : ∀ branch ∈ anyOf, Follows t go branch) (hname : Settled t name)
    (h : anyOfSchema available go name anyOf = .ok d) :
    d.names = (anyOfPlaces namedPlaces anyOf).map (nameAt t name) := by
  have hfollows : ∀ branch ∈ anyOf.filter (fun b => !isNullSchema b), Follows t go branch :=
    fun branch hbranch => hfollows branch (List.mem_of_mem_filter hbranch)
  rw [anyOfSchema] at h
  rw [anyOfPlaces]
  generalize anyOf.filter (fun b => !isNullSchema b) = nonNull at hfollows h ⊢
  rcases nonNull with _ | ⟨branch, _ | ⟨branch', rest⟩⟩
  · rw [names_nullSchema h]
    rfl
  · exact hfollows branch (List.mem_singleton_self _) name d hname h
  · obtain ⟨choices, hmap, hlast⟩ := bind_eq_ok.mp h
    rw [← Except.ok.inj hlast]
    refine names_union hmap fun choice hchoice d' hd' => ?_
    exact (hfollows choice.1 (List.fst_mem_of_mem_zipIdx hchoice)).below ht hname
      (choiceName_eq choice.2) hd'

theorem names_dynamicProperty (ht : t.Lawful) {key : String}
    {p : SchemaProperty DynamicGenerationSchema}
    (hfollows : ∀ v, (properties schema).lookup key = some v → Follows t go (stripNullable v))
    (hname : Settled t name) (h : dynamicProperty t go schema name key = .ok p) :
    p.schema.names = (propertyPlaces namedPlaces schema key).map (nameAt t name) := by
  rw [dynamicProperty] at h
  rw [propertyPlaces]
  cases hlookup : (properties schema).lookup key with
  | none =>
    rw [hlookup] at h
    cases h
  | some v =>
    rw [hlookup] at h
    obtain ⟨schema', hschema', hlast⟩ := bind_eq_ok.mp h
    rw [← Except.ok.inj hlast]
    exact (hfollows v hlookup).below ht hname (propertyTypeName_eq ht hname key) hschema'

theorem names_objectSchema (ht : t.Lawful)
    (hfollows : ∀ key v, (properties schema).lookup key = some v → Follows t go (stripNullable v))
    (hname : Settled t name) (h : objectSchema t go raw schema name = .ok d) :
    d.names = ([] :: (propertyNames schema).flatMap (propertyPlaces namedPlaces schema)).map
      (nameAt t name) := by
  obtain ⟨ps, hmap, hlast⟩ := bind_eq_ok.mp h
  rw [← Except.ok.inj hlast, DynamicGenerationSchema.names, namesMembers_eq, List.map_cons,
    nameAt_nil, List.map_flatMap]
  refine congrArg _ (flatMap_eq_of_mapM hmap fun key _ p hp => ?_)
  exact names_dynamicProperty ht (hfollows key) hname hp

theorem names_arraySchema (ht : t.Lawful)
    (hfollows : ∀ v, schema.lookup "items" = some v → Follows t go (stripNullable v))
    (hname : Settled t name) (h : arraySchema go schema name = .ok d) :
    d.names = (arrayPlaces namedPlaces schema).map (nameAt t name) := by
  rw [arraySchema] at h
  rw [arrayPlaces]
  cases hlookup : schema.lookup "items" with
  | none =>
    rw [hlookup] at h
    cases h
  | some items =>
    rw [hlookup] at h
    obtain ⟨item, hitem, h⟩ := bind_eq_ok.mp h
    obtain ⟨lo, -, h⟩ := bind_eq_ok.mp h
    obtain ⟨hi, -, h⟩ := bind_eq_ok.mp h
    rw [← Except.ok.inj h, DynamicGenerationSchema.names]
    refine (hfollows items hlookup).below ht hname ?_ hitem
    rw [spelled_item, String.ofList_toList]

theorem names_singleSchema (ht : t.Lawful) {type : String}
    (hproperties : ∀ key v, (properties schema).lookup key = some v →
      Follows t go (stripNullable v))
    (hitems : ∀ v, schema.lookup "items" = some v → Follows t go (stripNullable v))
    (hname : Settled t name) (h : singleSchema t go raw schema name type = .ok d) :
    d.names = (singlePlaces namedPlaces schema type).map (nameAt t name) := by
  unfold singleSchema at h
  split at h
  · exact names_objectSchema ht hproperties hname h
  · exact names_arraySchema ht hitems hname h
  · rw [← Except.ok.inj h]
    rfl
  · rw [← Except.ok.inj h]
    rfl
  · rw [← Except.ok.inj h]
    rfl
  · rw [← Except.ok.inj h]
    rfl
  · cases h

theorem names_typedSchema (ht : t.Lawful)
    (hnarrowed : ∀ types, typeNames schema name = .ok types → 2 ≤ types.length → ∀ typeName,
      Follows t go (narrowedSchema schema typeName))
    (hproperties : ∀ key v, (properties schema).lookup key = some v →
      Follows t go (stripNullable v))
    (hitems : ∀ v, schema.lookup "items" = some v → Follows t go (stripNullable v))
    (hname : Settled t name) (h : typedSchema t available go raw schema name = .ok d) :
    d.names = ((typeNames schema "").toOption.elim [] (typedPlaces namedPlaces schema)).map
      (nameAt t name) := by
  obtain ⟨types, htypes, h⟩ := bind_eq_ok.mp h
  have hlength : ∀ type type' rest, types.filter (· ≠ "null") = type :: type' :: rest →
      2 ≤ types.length := fun type type' rest hkept => by
    have hle := List.length_filter_le (· ≠ "null") types
    rw [hkept, List.length_cons, List.length_cons] at hle
    omega
  rw [toOption_typeNames schema "" name, htypes]
  show d.names = (typedPlaces namedPlaces schema types).map (nameAt t name)
  rw [typedPlaces]
  generalize types.filter (· ≠ "null") = nonNull at hlength h ⊢
  rcases nonNull with _ | ⟨type, _ | ⟨type', rest⟩⟩
  · rw [names_nullSchema h]
    rfl
  · exact names_singleSchema ht hproperties hitems hname h
  · obtain ⟨choices, hmap, hlast⟩ := bind_eq_ok.mp h
    rw [← List.zipIdx_map_fst 0 (type :: type' :: rest), List.mapM_map] at hmap
    rw [← Except.ok.inj hlast]
    refine names_union hmap fun choice _ d' hd' => ?_
    refine (hnarrowed types htypes (hlength _ _ _ rfl) choice.1).below ht hname ?_ hd'
    rw [spelled_type, String.ofList_toList]

theorem follows_dynamicGenerationSchema (ht : t.Lawful) (raw : JSONValue) :
    Follows t (fun call => dynamicGenerationSchema t available call.1 call.2) raw := by
  intro name
  refine @dynamicGenerationSchema_rule t available (fun raw name r => ∀ d, Settled t name →
    r = .ok d → d.names = (namedPlaces raw).map (nameAt t name)) ?_ raw name
  intro raw name ih d hname h
  have hbelow : ∀ raw', raw'.size < raw.size →
      Follows t (fun call => dynamicGenerationSchema t available call.1 call.2) raw' :=
    fun raw' hsize name' => ih raw' name' hsize
  rw [namedPlaces_eq]
  cases raw with
  | object schema =>
    rw [placesBody, JSONValue.objectValue, Option.elim_some]
    cases henum : (schema.lookup "enum").bind JSONValue.arrayValue with
    | some choices =>
      rw [schemaBody_enum t available _ henum] at h
      rw [names_enumSchema h, Option.isSome_some, if_pos rfl, List.map_singleton, nameAt_nil]
    | none =>
      rw [Option.isSome_none, if_neg Bool.false_ne_true]
      cases hanyOf : ((schema.lookup "anyOf").bind JSONValue.arrayValue).or
          ((schema.lookup "oneOf").bind JSONValue.arrayValue) with
      | some branches =>
        rw [schemaBody_anyOf t available _ henum hanyOf] at h
        obtain ⟨key, hkey⟩ := exists_key_of_branches hanyOf
        exact names_anyOfSchema ht (fun branch hbranch => hbelow branch
          (size_branch_lt hkey hbranch)) hname h
      | none =>
        rw [schemaBody_typed t available _ henum hanyOf] at h
        exact names_typedSchema ht
          (fun types htypes hlength typeName =>
            hbelow _ (size_narrowedSchema_lt htypes hlength typeName))
          (fun key v hlookup => hbelow _ (size_property_lt hlookup))
          (fun v hlookup => hbelow _ (size_items_lt hlookup)) hname h
  | array | string | int | double | bool | null => cases h

/-- No two names clash just when no two named places are spelled alike. -/
theorem names_nodup_iff (ht : t.Lawful) {rootName : String}
    (h : generationRoot t available raw rootName = .ok d) :
    d.names.Nodup ↔ ((namedPlaces raw).map (spelled t)).Nodup := by
  have hnames := follows_dynamicGenerationSchema ht raw _ d (settled_sanitizedTypeName ht rootName) h
  have hmap : (namedPlaces raw).map (nameAt t (sanitizedTypeName t rootName)) =
      ((namedPlaces raw).map (spelled t)).map fun cs =>
        sanitizedTypeName t rootName ++ String.ofList cs := by
    rw [List.map_map]
    rfl
  rw [hnames, hmap]
  refine List.nodup_map_iff fun cs cs' heq => ?_
  have hlists := congrArg String.toList heq
  rw [String.toList_append, String.toList_append, String.toList_ofList, String.toList_ofList]
    at hlists
  exact List.append_cancel_left hlists

end Names

/-- Two properties that differ in what stands between their words. -/
def separatorsDiffer : JSONValue :=
  .object [("type", .string "object"),
    ("properties", .object [("a_b", .object [("enum", .array [.string "x"])]),
      ("a-b", .object [("enum", .array [.string "y"])])])]

def separatorsTranslated : DynamicGenerationSchema :=
  .object "PanopsLlmResponse" none [
    ⟨"a-b", none, .choices "PanopsLlmResponseAB" ["y"], true⟩,
    ⟨"a_b", none, .choices "PanopsLlmResponseAB" ["x"], true⟩]

theorem generationRoot_separatorsDiffer :
    generationRoot .ascii true separatorsDiffer "PanopsLlmResponse" = .ok separatorsTranslated := by
  have hroot : sanitizedTypeName .ascii "PanopsLlmResponse" = "PanopsLlmResponse" := by
    decide +kernel
  have hhyphen : propertyTypeName .ascii "PanopsLlmResponse" "a-b" = "PanopsLlmResponseAB" := by
    decide +kernel
  have hunderscore : propertyTypeName .ascii "PanopsLlmResponse" "a_b" = "PanopsLlmResponseAB" := by
    decide +kernel
  have hrun : dynamicGenerationSchema .ascii true separatorsDiffer "PanopsLlmResponse" =
      .ok (.object "PanopsLlmResponse" none [
        ⟨"a-b", none, .choices (propertyTypeName .ascii "PanopsLlmResponse" "a-b") ["y"], true⟩,
        ⟨"a_b", none, .choices (propertyTypeName .ascii "PanopsLlmResponse" "a_b") ["x"], true⟩]) :=
    rfl
  rw [generationRoot, hroot, hrun, hhyphen, hunderscore]
  rfl

theorem names_clash :
    generationRoot .ascii true separatorsDiffer "PanopsLlmResponse" = .ok separatorsTranslated ∧
      ¬separatorsTranslated.names.Nodup :=
  ⟨generationRoot_separatorsDiffer, by decide⟩

/-- Two properties that differ in their letters. -/
def lettersDiffer : JSONValue :=
  .object [("type", .string "object"),
    ("properties", .object [("b", .object [("enum", .array [.string "x"])]),
      ("a", .object [("enum", .array [.string "y"])])])]

def lettersTranslated : DynamicGenerationSchema :=
  .object "PanopsLlmResponse" none [
    ⟨"a", none, .choices "PanopsLlmResponseA" ["y"], true⟩,
    ⟨"b", none, .choices "PanopsLlmResponseB" ["x"], true⟩]

theorem generationRoot_lettersDiffer :
    generationRoot .ascii true lettersDiffer "PanopsLlmResponse" = .ok lettersTranslated := by
  have hroot : sanitizedTypeName .ascii "PanopsLlmResponse" = "PanopsLlmResponse" := by
    decide +kernel
  have ha : propertyTypeName .ascii "PanopsLlmResponse" "a" = "PanopsLlmResponseA" := by
    decide +kernel
  have hb : propertyTypeName .ascii "PanopsLlmResponse" "b" = "PanopsLlmResponseB" := by
    decide +kernel
  have hrun : dynamicGenerationSchema .ascii true lettersDiffer "PanopsLlmResponse" =
      .ok (.object "PanopsLlmResponse" none [
        ⟨"a", none, .choices (propertyTypeName .ascii "PanopsLlmResponse" "a") ["y"], true⟩,
        ⟨"b", none, .choices (propertyTypeName .ascii "PanopsLlmResponse" "b") ["x"], true⟩]) :=
    rfl
  rw [generationRoot, hroot, hrun, ha, hb]
  rfl

theorem names_nodup_iff_properties :
    (separatorsTranslated.names.Nodup ↔
      ((namedPlaces separatorsDiffer).map (spelled .ascii)).Nodup) ∧
    ((namedPlaces lettersDiffer).map (spelled .ascii)).Nodup ∧ lettersTranslated.names.Nodup := by
  have hspelled : ((namedPlaces lettersDiffer).map (spelled .ascii)).Nodup := by decide +kernel
  exact ⟨names_nodup_iff CharacterTable.ascii_lawful generationRoot_separatorsDiffer, hspelled,
    (names_nodup_iff CharacterTable.ascii_lawful generationRoot_lettersDiffer).mpr hspelled⟩

end Mac
end Panops
