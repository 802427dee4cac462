/-!
# JSON values

`serde_json::Value` as far as the notes pipeline looks into it.  An object is
the list of its members in the order they are serialised.  A number is kept by
the text it is serialised to; nothing here computes with one.
-/

namespace Panops

inductive Value where
  | null
  | bool (b : Bool)
  | number (text : String)
  | string (s : String)
  | array (elems : List Value)
  | object (members : List (String × Value))

namespace Value

def get (v : Value) (key : String) : Option Value :=
  match v with
  | object members => members.lookup key
  | _ => none

def asStr : Value → Option String
  | string s => some s
  | _ => none

def asArray : Value → Option (List Value)
  | array elems => some elems
  | _ => none

def asObject : Value → Option (List (String × Value))
  | object members => some members
  | _ => none

/-- `v.get(key).and_then(as_str)`. -/
def getStr (v : Value) (key : String) : Option String := (v.get key).bind asStr

/-- `v.get(key)` as an array, each element through `f`, absent ones dropped. -/
def getMapped {α : Type} (v : Value) (key : String) (f : Value → Option α) : List α :=
  (((v.get key).bind asArray).map (List.filterMap f)).getD []

/-- An action item object: its description and, when it is a string, its owner. -/
def actionItem (x : Value) : Option (String × Option String) := do
  let _ ← x.asObject
  let description ← x.getStr "description"
  pure (description, x.getStr "owner")

/-! ## Serialisation -/

def hexDigit (n : Nat) : Char := (Nat.toDigits 16 n).getLastD '0'

/-- One character inside a JSON string. -/
def escapeChar (c : Char) : String :=
  if c = '"' then "\\\""
  else if c = '\\' then "\\\\"
  else if c.toNat = 8 then "\\b"
  else if c.toNat = 9 then "\\t"
  else if c.toNat = 10 then "\\n"
  else if c.toNat = 12 then "\\f"
  else if c.toNat = 13 then "\\r"
  else if c.toNat < 32 then
    "\\u00" ++ String.ofList [hexDigit (c.toNat / 16), hexDigit (c.toNat % 16)]
  else String.singleton c

def quote (s : String) : String := "\"" ++ String.join (s.toList.map escapeChar) ++ "\""

mutual
/-- `serde_json::to_string`: compact, members in their order. -/
def toJson : Value → String
  | null => "null"
  | bool b => if b then "true" else "false"
  | number text => text
  | string s => quote s
  | array elems => "[" ++ elemsToJson elems ++ "]"
  | object members => "\x7b" ++ membersToJson members ++ "\x7d"

def elemsToJson : List Value → String
  | [] => ""
  | [v] => v.toJson
  | v :: vs => v.toJson ++ "," ++ elemsToJson vs

def membersToJson : List (String × Value) → String
  | [] => ""
  | [(k, v)] => quote k ++ ":" ++ v.toJson
  | (k, v) :: ms => quote k ++ ":" ++ v.toJson ++ "," ++ membersToJson ms
end

end Value
end Panops
