import Panops.Lib.Decimal
import Panops.Lib.Text

/-!
# YAML scalars

How the frontmatter writes a string: plain where that is safe, quoted otherwise.
-/

namespace Panops

open Lib.Text Lib.Decimal

namespace MarkdownExporter

/-- `str::parse::<i64>` accepts the text. -/
def parsesAsI64 (s : List Char) : Bool :=
  match s with
  | '-' :: rest => !rest.isEmpty && rest.all Char.isDigit && value rest ≤ 2 ^ 63
  | s => !(stripPlus s).isEmpty && (stripPlus s).all Char.isDigit && value (stripPlus s) < 2 ^ 63

/-- One leading sign is dropped. -/
def stripSign : List Char → List Char
  | '+' :: rest => rest
  | '-' :: rest => rest
  | s => s

/-- An exponent: nothing, or `e`, an optional sign and digits. -/
def isExponent : List Char → Bool
  | [] => true
  | e :: rest =>
    (e == 'e' || e == 'E') && !(stripSign rest).isEmpty && (stripSign rest).all Char.isDigit

/-- `str::parse::<f64>` accepts the text: an optional sign, then an infinity, a
NaN, or digits with at most one dot, at least one digit, and an exponent. -/
def parsesAsF64 (s : List Char) : Bool :=
  let body := stripSign s
  let lower := String.ofList (body.map Char.toLower)
  let whole := body.takeWhile Char.isDigit
  let rest := body.dropWhile Char.isDigit
  lower == "inf" || lower == "infinity" || lower == "nan" ||
    match rest with
    | '.' :: rest =>
      !(whole ++ rest.takeWhile Char.isDigit).isEmpty && isExponent (rest.dropWhile Char.isDigit)
    | rest => !whole.isEmpty && isExponent rest

/-- `char::is_digit` for the radices of the prefixes; letters are lower case
here. -/
def isDigitOf (radix : Nat) (c : Char) : Bool :=
  if c.isDigit then c.toNat - 48 < radix else 'a'.toNat ≤ c.toNat && c.toNat < 'a'.toNat + radix - 10

def radixPrefixes : List (List Char × Nat) :=
  [(['0', 'x'], 16), (['0', 'o'], 8), (['0', 'b'], 2)]

def looksLikeNumber (s : String) : Bool :=
  let trimmed := trim s.toList
  if trimmed.isEmpty then false
  else if parsesAsI64 trimmed || parsesAsF64 trimmed then true
  else
    let body := stripSign trimmed
    let lower := body.map Char.toLower
    match radixPrefixes.findSome? fun p => (stripPrefix p.1 lower).map (·, p.2) with
    | some (rest, radix) => !rest.isEmpty && rest.all fun c => c == '_' || isDigitOf radix c
    | none =>
      if trimmed.contains '_' then
        let cleaned := body.filter (· ≠ '_')
        let digitsOnly := cleaned.filter (· ≠ '.')
        cleaned.count '.' ≤ 1 && !digitsOnly.isEmpty && digitsOnly.all Char.isDigit
      else false

/-- The reserved words, compared in lower case.  The lower case of a letter
outside ASCII never completes one of them. -/
def isYamlReserved (s : String) : Bool :=
  let keywords :=
    ["true", "false", "null", "yes", "no", "on", "off", "y", "n", "~", ".inf", "-.inf", ".nan"]
  keywords.contains (String.ofList (s.toList.map Char.toLower))

def matchesPlainPattern (s : String) : Bool :=
  if s.toList.getLast? == some ' ' then false
  else
    match s.toList with
    | c :: rest =>
      c.isAlpha && rest.all fun c => c.isAlphanum || [' ', '.', '_', '/', '-'].contains c
    | [] => false

def isSafePlainScalar (s : String) : Bool :=
  matchesPlainPattern s && !isYamlReserved s && !looksLikeNumber s

/-- One character inside double quotes. -/
def yamlEscape (c : Char) : List Char :=
  if c = '\\' then ['\\', '\\']
  else if c = '"' then ['\\', '"']
  else if c = '\n' then ['\\', 'n']
  else if c = '\r' then ['\\', 'r']
  else if c = '\t' then ['\\', 't']
  else if c.toNat < 0x20 || c.toNat == 0x7f then
    ['\\', 'u'] ++ padLeft '0' 4 (Nat.toDigits 16 c.toNat)
  else [c]

def yamlScalar (s : String) : String :=
  if isSafePlainScalar s then s
  else String.ofList (['"'] ++ s.toList.flatMap yamlEscape ++ ['"'])

def yamlList (items : List String) : String :=
  if items.isEmpty then "[]"
  else "[" ++ String.intercalate ", " (items.map yamlScalar) ++ "]"

end MarkdownExporter
end Panops
