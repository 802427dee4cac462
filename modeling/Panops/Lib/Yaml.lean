import Mathlib.Computability.RegularExpressions
import Mathlib.Data.Char
import Mathlib.Data.List.DropRight

/-!
# Reading YAML scalars

The part of YAML that a scalar on one line of a document meets, in the versions 1.1
and 1.2: the character classes, the two scalar styles that need no header, line
folding, and the implicit types of a plain scalar.  `indent` is the indentation of
the collection that a node stands in.
-/

namespace Panops
namespace Lib
namespace Yaml

inductive Version where
  | v1_1
  | v1_2
  deriving DecidableEq, Repr

/-- Where a node stands. -/
inductive Context where
  | mappingValue
  | sequenceItem
  | flowElement
  deriving DecidableEq, Repr

/-! ## Characters -/

def nextLine : Char := Char.ofNat 0x85
def lineSeparator : Char := Char.ofNat 0x2028
def paragraphSeparator : Char := Char.ofNat 0x2029
def byteOrderMark : Char := Char.ofNat 0xfeff

/-- `b-char`.  Version 1.2 keeps two of the five. -/
def isBreak (v : Version) (c : Char) : Bool :=
  match v with
  | .v1_1 => ['\n', '\r', nextLine, lineSeparator, paragraphSeparator].contains c
  | .v1_2 => ['\n', '\r'].contains c

def isWhite (c : Char) : Bool := c == ' ' || c == '\t'

/-- `c-printable`. -/
def isPrintable (c : Char) : Bool :=
  c == '\t' || c == '\n' || c == '\r' || c == nextLine ||
    (0x20 ≤ c.toNat && c.toNat ≤ 0x7e) || (0xa0 ≤ c.toNat && c.toNat ≤ 0xfffd) ||
    0x10000 ≤ c.toNat

/-- A character that may stand in a double-quoted scalar as it is, breaks apart.
Version 1.1 wants a printable one and no byte order mark inside a document;
version 1.2 takes whatever JSON does (`nb-json`). -/
def isQuotable (v : Version) (c : Char) : Bool :=
  match v with
  | .v1_1 => isPrintable c && c != byteOrderMark
  | .v1_2 => c == '\t' || 0x20 ≤ c.toNat

/-- `nb-char`: what a plain scalar is made of. -/
def isPlainChar (v : Version) (c : Char) : Bool :=
  isPrintable c && c != byteOrderMark && !isBreak v c

def isFlowIndicator (c : Char) : Bool := [',', '[', ']', '{', '}'].contains c

/-- `c-indicator`; the last two are the single quote and the grave accent. -/
def isIndicator (c : Char) : Bool :=
  isFlowIndicator c ||
    ['-', '?', ':', '#', '&', '*', '!', '|', '>', '"', '%', '@', Char.ofNat 0x27,
      Char.ofNat 0x60].contains c

theorem isAlphanum_of_isFlowIndicator {c : Char} (h : isFlowIndicator c = true) :
    c.isAlphanum = false := by
  have hall : [',', '[', ']', '{', '}'].all (!·.isAlphanum) = true := by decide
  simpa using List.all_eq_true.mp hall c (List.contains_iff_mem.mp h)

theorem isAlpha_of_isIndicator {c : Char} (h : isIndicator c = true) : c.isAlpha = false := by
  have hall : ['-', '?', ':', '#', '&', '*', '!', '|', '>', '"', '%', '@', Char.ofNat 0x27,
      Char.ofNat 0x60].all (!·.isAlpha) = true := by decide
  rcases Bool.or_eq_true_iff.mp h with hflow | hother
  · have := isAlphanum_of_isFlowIndicator hflow
    simp only [Char.isAlphanum, Bool.or_eq_false_iff] at this
    exact this.1
  · simpa using List.all_eq_true.mp hall c (List.contains_iff_mem.mp hother)

theorem isBreak_v1_1 (c : Char) :
    isBreak .v1_1 c = true ↔
      c.toNat = 0x0a ∨ c.toNat = 0x0d ∨ c.toNat = 0x85 ∨ c.toNat = 0x2028 ∨ c.toNat = 0x2029 := by
  simp only [isBreak, List.contains_eq_mem, List.mem_cons, List.not_mem_nil, or_false,
    decide_eq_true_eq, ← Char.toNat_inj]
  exact Iff.rfl

theorem isBreak_v1_2 (c : Char) :
    isBreak .v1_2 c = true ↔ c.toNat = 0x0a ∨ c.toNat = 0x0d := by
  simp only [isBreak, List.contains_eq_mem, List.mem_cons, List.not_mem_nil, or_false,
    decide_eq_true_eq, ← Char.toNat_inj]
  exact Iff.rfl

theorem isQuotable_v1_1 (c : Char) :
    isQuotable .v1_1 c = true ↔
      (c.toNat = 0x09 ∨ c.toNat = 0x0a ∨ c.toNat = 0x0d ∨ c.toNat = 0x85 ∨
        (0x20 ≤ c.toNat ∧ c.toNat ≤ 0x7e) ∨ (0xa0 ≤ c.toNat ∧ c.toNat ≤ 0xfffd) ∨
        0x10000 ≤ c.toNat) ∧ c.toNat ≠ 0xfeff := by
  simp only [isQuotable, isPrintable, Bool.and_eq_true, Bool.or_eq_true, beq_iff_eq, bne_iff_ne,
    decide_eq_true_eq, ne_eq, ← Char.toNat_inj, or_assoc]
  exact Iff.rfl

/-! ## Folding lines -/

/-- What a scalar's text is made of: a character as it stands, one that was
escaped, a line break, or an escaped line break. -/
inductive Piece where
  | text (c : Char)
  | escaped (c : Char)
  | newline (c : Char)
  | join
  deriving DecidableEq, Repr

/-- Generic breaks are read as a line feed, the two separators as themselves. -/
def breakPiece (c : Char) : Piece :=
  if c = lineSeparator || c = paragraphSeparator then .newline c else .newline '\n'

/-- What a break and the empty lines after it are read as; nothing for an escaped
break by itself. -/
def folded (first : Option Char) (more : List Char) : List Char :=
  match first with
  | none => more
  | some first => if first = '\n' then (if more.isEmpty then [' '] else more) else first :: more

/-- Inside a line, with the white space that is dropped if the line ends here, or at
the start of one: the break before it, the empty lines since, and its spaces. -/
inductive Position where
  | inLine (held : List Char)
  | lineStart (first : Option Char) (more : List Char) (spaces : Nat)
  deriving Repr

/-- The value of a text.  A line that goes on a scalar is indented deeper than the
collection, its closing quote too. -/
def foldPieces (indent : Nat) : Position → List Piece → Option (List Char)
  | .inLine held, [] => some held
  | .inLine held, .text c :: rest =>
    if isWhite c then foldPieces indent (.inLine (held ++ [c])) rest
    else (foldPieces indent (.inLine []) rest).map (held ++ c :: ·)
  | .inLine held, .escaped c :: rest =>
    (foldPieces indent (.inLine []) rest).map (held ++ c :: ·)
  | .inLine _, .newline c :: rest => foldPieces indent (.lineStart (some c) [] 0) rest
  | .inLine held, .join :: rest =>
    (foldPieces indent (.lineStart none [] 0) rest).map (held ++ ·)
  | .lineStart first more spaces, [] =>
    if indent < spaces then some (folded first more) else none
  | .lineStart first more spaces, .text c :: rest =>
    if c = ' ' then foldPieces indent (.lineStart first more (spaces + 1)) rest
    else if indent < spaces then
      if c = '\t' then foldPieces indent (.lineStart first more spaces) rest
      else (foldPieces indent (.inLine []) rest).map (folded first more ++ c :: ·)
    else none
  | .lineStart first more spaces, .escaped c :: rest =>
    if indent < spaces then
      (foldPieces indent (.inLine []) rest).map (folded first more ++ c :: ·)
    else none
  | .lineStart first more _, .newline c :: rest =>
    foldPieces indent (.lineStart first (more ++ [c]) 0) rest
  | .lineStart first more spaces, .join :: rest =>
    if indent < spaces then
      (foldPieces indent (.lineStart none [] 0) rest).map (folded first more ++ ·)
    else none

/-- The character a piece stands for where nothing is folded. -/
def Piece.char : Piece → Option Char
  | .text c => some c
  | .escaped c => some c
  | .newline _ => none
  | .join => none

theorem foldPieces_inLine (indent : Nat) (pieces : List Piece) (text held : List Char)
    (h : pieces.map Piece.char = text.map some) :
    foldPieces indent (.inLine held) pieces = some (held ++ text) := by
  induction pieces generalizing text held with
  | nil =>
    have ht : text = [] := by simpa using h.symm
    simp [foldPieces, ht]
  | cons p pieces ih =>
    cases text with
    | nil => simp at h
    | cons c text =>
      simp only [List.map_cons, List.cons.injEq] at h
      cases p with
      | text d =>
        obtain rfl : d = c := by simpa [Piece.char] using h.1
        simp only [foldPieces]
        split
        · rw [ih text (held ++ [d]) h.2, List.append_assoc, List.singleton_append]
        · rw [ih text [] h.2]
          rfl
      | escaped d =>
        obtain rfl : d = c := by simpa [Piece.char] using h.1
        simp only [foldPieces, ih text [] h.2]
        rfl
      | newline d => simp [Piece.char] at h
      | join => simp [Piece.char] at h

theorem length_folded_le (first : Option Char) (more : List Char) :
    (folded first more).length ≤ first.toList.length + more.length := by
  cases first with
  | none => simp [folded]
  | some first =>
    simp only [folded]
    split
    · split
      · simp
      · omega
    · simp only [List.length_cons, Option.toList_some, List.length_nil]
      omega

def Position.size : Position → Nat
  | .inLine held => held.length
  | .lineStart first more spaces => first.toList.length + more.length + spaces

/-- What folding loses for certain: one character, once there is a break. -/
def Position.lost : Position → List Piece → Nat
  | .inLine _, pieces => if pieces.any (·.char.isNone) then 1 else 0
  | .lineStart .., _ => 1

theorem Position.lost_le (position : Position) (pieces : List Piece) :
    position.lost pieces ≤ 1 := by
  cases position with
  | inLine held =>
    simp only [Position.lost]
    split <;> omega
  | lineStart first more spaces => exact Nat.le_refl 1

theorem Position.lost_cons {p : Piece} {c : Char} (hp : p.char = some c)
    (held held' : List Char) (pieces : List Piece) :
    (Position.inLine held).lost (p :: pieces) = (Position.inLine held').lost pieces := by
  simp [Position.lost, hp]

/-- A text never grows when it is folded, and a break makes it shorter: the indentation
of the line after it is gone. -/
theorem length_foldPieces (indent : Nat) (pieces : List Piece) (position : Position)
    (out : List Char) (h : foldPieces indent position pieces = some out) :
    out.length + position.lost pieces ≤ position.size + pieces.length := by
  induction pieces generalizing position out with
  | nil =>
    cases position with
    | inLine held =>
      obtain rfl : held = out := by simpa [foldPieces] using h
      simp [Position.lost, Position.size]
    | lineStart first more spaces =>
      have hf := length_folded_le first more
      simp only [foldPieces] at h
      split at h
      · obtain rfl := Option.some.inj h
        simp only [Position.lost, Position.size, List.length_nil]
        omega
      · cases h
  | cons p pieces ih =>
    -- Where a line's content goes on, what is ahead loses at least as much.
    have next : ∀ (before : List Char) (c : Char) (out : List Char),
        (foldPieces indent (.inLine []) pieces).map (before ++ c :: ·) = some out →
          out.length + (Position.inLine []).lost pieces ≤ before.length + 1 + pieces.length := by
      intro before c out hout
      obtain ⟨tail, htail, rfl⟩ := Option.map_eq_some_iff.mp hout
      have := ih _ _ htail
      simp only [Position.size, List.length_nil] at this
      simp only [List.length_append, List.length_cons]
      omega
    have joined : ∀ (before : List Char) (out : List Char),
        (foldPieces indent (.lineStart none [] 0) pieces).map (before ++ ·) = some out →
          out.length + 1 ≤ before.length + pieces.length := by
      intro before out hout
      obtain ⟨tail, htail, rfl⟩ := Option.map_eq_some_iff.mp hout
      have := ih _ _ htail
      simp only [Position.size, Position.lost, Option.toList_none, List.length_nil] at this
      simp only [List.length_append]
      omega
    cases position with
    | inLine held =>
      cases p with
      | text c =>
        simp only [foldPieces] at h
        split at h
        · have := ih _ _ h
          rw [Position.lost_cons (c := c) rfl held (held ++ [c])]
          simp only [Position.size, List.length_append, List.length_cons, List.length_nil] at this ⊢
          omega
        · have := next held c out h
          rw [Position.lost_cons (c := c) rfl held []]
          simp only [Position.size, List.length_cons]
          omega
      | escaped c =>
        have := next held c out (by simpa only [foldPieces] using h)
        rw [Position.lost_cons (c := c) rfl held []]
        simp only [Position.size, List.length_cons]
        omega
      | newline c =>
        have := ih (.lineStart (some c) [] 0) out (by simpa only [foldPieces] using h)
        have hlost := Position.lost_le (.inLine held) (.newline c :: pieces)
        simp only [Position.lost, Position.size, Option.toList_some, List.length_cons,
          List.length_nil] at this hlost ⊢
        omega
      | join =>
        have := joined held out (by simpa only [foldPieces] using h)
        have hlost := Position.lost_le (.inLine held) (.join :: pieces)
        simp only [Position.size, List.length_cons] at hlost ⊢
        omega
    | lineStart first more spaces =>
      have hf := length_folded_le first more
      cases p with
      | text c =>
        simp only [foldPieces] at h
        split at h
        · have := ih _ _ h
          simp only [Position.size, Position.lost, List.length_cons] at this ⊢
          omega
        · split at h
          · split at h
            · have := ih _ _ h
              simp only [Position.size, Position.lost, List.length_cons] at this ⊢
              omega
            · have := next _ c out h
              simp only [Position.size, Position.lost, List.length_cons] at this ⊢
              omega
          · cases h
      | escaped c =>
        simp only [foldPieces] at h
        split at h
        · have := next _ c out h
          simp only [Position.size, Position.lost, List.length_cons] at this ⊢
          omega
        · cases h
      | newline c =>
        have := ih (.lineStart first (more ++ [c]) 0) out (by simpa only [foldPieces] using h)
        simp only [Position.size, Position.lost, List.length_append, List.length_cons,
          List.length_nil] at this ⊢
        omega
      | join =>
        simp only [foldPieces] at h
        split at h
        · have := joined _ out h
          simp only [Position.size, Position.lost, List.length_cons] at this ⊢
          omega
        · cases h

/-! ## Double quotes -/

/-- `ns-esc-char` with one letter after the backslash. -/
def shortEscape (v : Version) : Char → Option Char
  | '0' => some (Char.ofNat 0x00)
  | 'a' => some (Char.ofNat 0x07)
  | 'b' => some (Char.ofNat 0x08)
  | 't' => some '\t'
  | '\t' => some '\t'
  | 'n' => some '\n'
  | 'v' => some (Char.ofNat 0x0b)
  | 'f' => some (Char.ofNat 0x0c)
  | 'r' => some '\r'
  | 'e' => some (Char.ofNat 0x1b)
  | ' ' => some ' '
  | '"' => some '"'
  | '\\' => some '\\'
  | 'N' => some nextLine
  | '_' => some (Char.ofNat 0xa0)
  | 'L' => some lineSeparator
  | 'P' => some paragraphSeparator
  | '/' => if v = .v1_2 then some '/' else none
  | _ => none

/-- How many digits follow the letter. -/
def hexLength : Char → Option Nat
  | 'x' => some 2
  | 'u' => some 4
  | 'U' => some 8
  | _ => none

def hexDigit (c : Char) : Option Nat :=
  if '0' ≤ c ∧ c ≤ '9' then some (c.toNat - 48)
  else if 'a' ≤ c ∧ c ≤ 'f' then some (c.toNat - 87)
  else if 'A' ≤ c ∧ c ≤ 'F' then some (c.toNat - 55)
  else none

inductive Quoted where
  | plain
  | escape
  | hex (left : Nat) (code : Nat)
  deriving DecidableEq, Repr

/-- A piece before those that a text goes on with. -/
def push (p : Piece) (read : Option (List Piece × List Char)) :
    Option (List Piece × List Char) :=
  read.map fun r => (p :: r.1, r.2)

/-- The pieces up to the closing quote, and the text after it. -/
def readPieces (v : Version) : Quoted → List Char → Option (List Piece × List Char)
  | _, [] => none
  | .plain, c :: rest =>
    if c = '"' then some ([], rest)
    else if c = '\\' then readPieces v .escape rest
    else if isBreak v c then
      -- A carriage return with a line feed is one break.
      if c = '\r' ∧ rest.head? = some '\n' then readPieces v .plain rest
      else push (breakPiece c) (readPieces v .plain rest)
    else if isQuotable v c then push (.text c) (readPieces v .plain rest)
    else none
  | .escape, c :: rest =>
    match shortEscape v c, hexLength c with
    | some d, _ => push (.escaped d) (readPieces v .plain rest)
    | none, some n => readPieces v (.hex n 0) rest
    | none, none =>
      if c = '\r' ∧ rest.head? = some '\n' then readPieces v .escape rest
      else if isBreak v c then push .join (readPieces v .plain rest)
      else none
  | .hex left code, c :: rest =>
    match hexDigit c with
    | none => none
    | some d =>
      if 1 < left then readPieces v (.hex (left - 1) (16 * code + d)) rest
      else if (16 * code + d).isValidChar then
        push (.escaped (Char.ofNat (16 * code + d))) (readPieces v .plain rest)
      else none

/-! ## Plain scalars -/

/-- The next line with something on it is not indented deeper than the collection, so
that a scalar of a block collection ends before it.  `spaces` begin this line. -/
def endsBlock (v : Version) (indent : Nat) : Nat → List Char → Bool
  | _, [] => true
  | spaces, c :: rest =>
    if c = ' ' then endsBlock v indent (spaces + 1) rest
    else if isBreak v c then endsBlock v indent 0 rest
    else if c = '\t' ∧ indent < spaces then endsBlock v indent spaces rest
    else c = '#' || spaces ≤ indent

/-- A colon followed by this begins a mapping's value. -/
def endsKey (v : Version) (ctx : Context) (rest : List Char) : Bool :=
  match rest with
  | [] => true
  | c :: _ => isWhite c || isBreak v c || (ctx == .flowElement && isFlowIndicator c)

/-- A plain scalar ends before this text. -/
def endsPlain (v : Version) (ctx : Context) (indent : Nat) (afterBlank : Bool) :
    List Char → Bool
  | [] => true
  | c :: rest =>
    (c == ':' && endsKey v ctx rest) || (c == '#' && afterBlank) ||
      match ctx with
      | .flowElement => isFlowIndicator c
      | .mappingValue => isBreak v c && endsBlock v indent 0 rest
      | .sequenceItem => isBreak v c && endsBlock v indent 0 rest

/-- The characters of a plain scalar, trailing white space and breaks with them, and
the text after it. -/
def plainText (v : Version) (ctx : Context) (indent : Nat) :
    Bool → List Char → List Char × List Char
  | _, [] => ([], [])
  | afterBlank, c :: rest =>
    if endsPlain v ctx indent afterBlank (c :: rest) then ([], c :: rest)
    else
      let next := plainText v ctx indent (isWhite c || isBreak v c) rest
      (c :: next.1, next.2)

def plainPieces (v : Version) : List Char → Option (List Piece)
  | [] => some []
  | c :: rest =>
    if isBreak v c then
      if c = '\r' ∧ rest.head? = some '\n' then plainPieces v rest
      else (plainPieces v rest).map (breakPiece c :: ·)
    else if isPlainChar v c then (plainPieces v rest).map (.text c :: ·)
    else none

/-- `ns-plain-first`. -/
def startsPlain (v : Version) (ctx : Context) : List Char → Bool
  | [] => false
  | c :: rest =>
    !isIndicator c || (['-', '?', ':'].contains c && !endsKey v ctx rest)

/-! ## Implicit types -/

/-- The type of a plain scalar that is no string. -/
inductive Tag where
  | null
  | bool
  | int
  | float
  | timestamp
  | merge
  | default
  deriving DecidableEq, Repr

section Regular

open RegularExpression

def oneOf {α : Type} (cs : List α) : RegularExpression α := (cs.map char).foldr (· + ·) 0

def literal {α : Type} (cs : List α) : RegularExpression α := (cs.map char).foldr (· * ·) 1

def optional {α : Type} (r : RegularExpression α) : RegularExpression α := 1 + r

def oneOrMore {α : Type} (r : RegularExpression α) : RegularExpression α := r * star r

/-- The characters that a match can begin with. -/
def firsts {α : Type} : RegularExpression α → List α
  | .zero => []
  | .epsilon => []
  | .char a => [a]
  | .plus p q => firsts p ++ firsts q
  | .comp p q => if p.matchEpsilon then firsts p ++ firsts q else firsts p
  | .star p => firsts p

theorem mem_firsts {α : Type} [DecidableEq α] (r : RegularExpression α) (a : α) (s : List α)
    (h : a :: s ∈ r.matches') : a ∈ firsts r := by
  induction r generalizing s with
  | zero => cases h
  | epsilon => cases h
  | char b =>
    have hb : a :: s = [b] := h
    rw [(List.cons.inj hb).1]
    exact List.mem_singleton_self b
  | plus p q hp hq =>
    rcases h with h | h
    · exact List.mem_append_left _ (hp s h)
    · exact List.mem_append_right _ (hq s h)
  | comp p q hp hq =>
    obtain ⟨before, hbefore, after, hafter, heq⟩ := Language.mem_mul.mp h
    simp only [firsts]
    cases before with
    | nil =>
      have hempty : p.matchEpsilon = true := (rmatch_iff_matches' p []).mpr hbefore
      rw [if_pos hempty]
      exact List.mem_append_right _ (hq s (heq ▸ hafter))
    | cons b before =>
      have hb : b = a := (List.cons.inj heq).1
      have hp := hp before (hb ▸ hbefore)
      split
      · exact List.mem_append_left _ hp
      · exact hp
  | star p hp =>
    obtain ⟨words, heq, hwords⟩ := Language.mem_kstar_iff_exists_nonempty.mp h
    cases words with
    | nil => cases heq
    | cons w words =>
      obtain ⟨hw, hne⟩ := hwords w List.mem_cons_self
      cases w with
      | nil => exact absurd rfl hne
      | cons b w =>
        have hb : a = b := (List.cons.inj heq).1
        exact hp w (hb ▸ hw)

end Regular

def digit : RegularExpression Char := oneOf "0123456789".toList

def sign : RegularExpression Char := optional (oneOf ['-', '+'])

/-- `(:[0-5]?[0-9])+`. -/
def sexagesimal : RegularExpression Char :=
  oneOrMore (.char ':' * optional (oneOf "012345".toList) * digit)

def grouped : RegularExpression Char := .star (oneOf "0123456789_".toList)

def oneOrTwo (r : RegularExpression Char) : RegularExpression Char := r * optional r

def date : RegularExpression Char :=
  digit * digit * digit * digit * .char '-' * oneOrTwo digit * .char '-' * oneOrTwo digit

def blanks : RegularExpression Char := .star (oneOf [' ', '\t'])

def clock : RegularExpression Char :=
  oneOrTwo digit * .char ':' * digit * digit * .char ':' * digit * digit *
    optional (.char '.' * .star digit) *
    optional (blanks * .char 'Z' +
      oneOf ['-', '+'] * oneOrTwo digit * optional (.char ':' * digit * digit))

/-- The words of a type. -/
def words : Version → List (Tag × List String)
  | .v1_1 =>
    [(.null, ["~", "null", "Null", "NULL"]),
      (.bool, ["y", "Y", "yes", "Yes", "YES", "n", "N", "no", "No", "NO", "true", "True", "TRUE",
        "false", "False", "FALSE", "on", "On", "ON", "off", "Off", "OFF"])]
  | .v1_2 =>
    [(.null, ["~", "null", "Null", "NULL"]),
      (.bool, ["true", "True", "TRUE", "false", "False", "FALSE"])]

/-- The other types: those of the type repository for 1.1, those of the core schema
for 1.2. -/
def patterns : Version → List (Tag × RegularExpression Char)
  | .v1_1 =>
    [(.int, sign * literal "0b".toList * oneOrMore (oneOf "01_".toList)),
      (.int, sign * .char '0' * oneOrMore (oneOf "01234567_".toList)),
      (.int, sign * (.char '0' + oneOf "123456789".toList * grouped)),
      (.int, sign * literal "0x".toList * oneOrMore (oneOf "0123456789abcdefABCDEF_".toList)),
      (.int, sign * oneOf "123456789".toList * grouped * sexagesimal),
      (.float, sign * optional (digit * grouped) * .char '.' * .star (oneOf "0123456789.".toList) *
        optional (oneOf ['e', 'E'] * oneOf ['-', '+'] * oneOrMore digit)),
      (.float, sign * digit * grouped * sexagesimal * .char '.' * grouped),
      (.float, sign * .char '.' *
        (literal "inf".toList + literal "Inf".toList + literal "INF".toList)),
      (.float, .char '.' * (literal "nan".toList + literal "NaN".toList + literal "NAN".toList)),
      (.timestamp, date),
      (.timestamp, date * (oneOf ['T', 't'] + oneOrMore (oneOf [' ', '\t'])) * clock),
      (.merge, literal "<<".toList),
      (.default, literal "=".toList)]
  | .v1_2 =>
    [(.int, sign * oneOrMore digit),
      (.int, literal "0o".toList * oneOrMore (oneOf "01234567".toList)),
      (.int, literal "0x".toList * oneOrMore (oneOf "0123456789abcdefABCDEF".toList)),
      (.float, sign * (.char '.' * oneOrMore digit +
        oneOrMore digit * optional (.char '.' * .star digit)) *
          optional (oneOf ['e', 'E'] * sign * oneOrMore digit)),
      (.float, sign * .char '.' *
        (literal "inf".toList + literal "Inf".toList + literal "INF".toList)),
      (.float, .char '.' * (literal "nan".toList + literal "NaN".toList + literal "NAN".toList))]

/-- The type of a plain scalar, when it is not a string. -/
def resolve (v : Version) (text : List Char) : Option Tag :=
  match (words v).find? fun w => w.2.contains (String.ofList text) with
  | some w => some w.1
  | none => ((patterns v).find? fun p => p.2.rmatch text).map (·.1)

theorem firsts_patterns (v : Version) :
    ∀ p ∈ patterns v, ∀ c ∈ firsts p.2, c.isAlpha = false := by
  have hall : (patterns v).all (fun p => (firsts p.2).all (!·.isAlpha)) = true := by
    cases v <;> decide
  intro p hp c hc
  simpa using List.all_eq_true.mp (List.all_eq_true.mp hall p hp) c hc

/-- Only the words can make a scalar that begins with a letter anything but a string. -/
theorem resolve_of_isAlpha {v : Version} {c : Char} {rest : List Char} (hc : c.isAlpha = true)
    (hw : ∀ w ∈ words v, String.ofList (c :: rest) ∉ w.2) : resolve v (c :: rest) = none := by
  have hwords : (words v).find? (fun w => w.2.contains (String.ofList (c :: rest))) = none := by
    rw [List.find?_eq_none]
    intro w hmem
    simpa using hw w hmem
  simp only [resolve, hwords, Option.map_eq_none_iff, List.find?_eq_none]
  intro p hp hmatch
  have hfirst := mem_firsts p.2 c rest ((RegularExpression.rmatch_iff_matches' p.2 _).mp hmatch)
  rw [firsts_patterns v p hp c hfirst] at hc
  cases hc

/-! ## Nodes -/

inductive Value where
  | string (text : String)
  | typed (tag : Tag)
  deriving DecidableEq, Repr

def isBlank (v : Version) (c : Char) : Bool := isWhite c || isBreak v c

/-- White space and a comment; inside a flow collection breaks too. -/
def skipBlank (v : Version) (ctx : Context) (text : List Char) : List Char :=
  match ctx with
  | .flowElement => text.dropWhile (isBlank v)
  | _ =>
    let rest := text.dropWhile isWhite
    if rest.head? = some '#' ∧ text.head? ≠ some '#' then rest.dropWhile fun c => !isBreak v c
    else rest

/-- What a node of this kind stands before. -/
def endsNode (v : Version) (ctx : Context) (indent : Nat) : List Char → Bool
  | [] => ctx != .flowElement
  | c :: rest =>
    match ctx with
    | .flowElement => c == ',' || c == ']'
    | _ => isBreak v c && endsBlock v indent 0 rest

def finish (v : Version) (ctx : Context) (indent : Nat) (value : Value) (rest : List Char) :
    Option (Value × List Char) :=
  if endsNode v ctx indent (skipBlank v ctx rest) then some (value, skipBlank v ctx rest)
  else none

def plainValue (v : Version) (text : List Char) : Value :=
  match resolve v text with
  | some tag => .typed tag
  | none => .string (String.ofList text)

/-- A scalar in double quotes or a plain one.  No other node is read. -/
def readScalar (v : Version) (ctx : Context) (indent : Nat) (text : List Char) :
    Option (Value × List Char) :=
  match text with
  | '"' :: rest => do
    let (pieces, rest) ← readPieces v .plain rest
    let value ← foldPieces indent (.inLine []) pieces
    finish v ctx indent (.string (String.ofList value)) rest
  | text =>
    if startsPlain v ctx text then do
      let (scalar, rest) := plainText v ctx indent true text
      let pieces ← plainPieces v (scalar.rdropWhile (isBlank v))
      let value ← foldPieces indent (.inLine []) pieces
      finish v ctx indent (plainValue v value) (scalar.rtakeWhile (isBlank v) ++ rest)
    else none

/-- A scalar in a block collection, from the text right after a mapping's colon or a
sequence's dash: white space comes first. -/
def readNode (v : Version) (ctx : Context) (indent : Nat) (text : List Char) :
    Option (Value × List Char) :=
  if text.head?.any isWhite then readScalar v ctx indent (text.dropWhile isWhite) else none

/-- The scalars of a flow sequence, from the text after its bracket or a comma. -/
def readElements (v : Version) (indent : Nat) :
    Nat → List Char → Option (List Value × List Char)
  | 0, _ => none
  | fuel + 1, text =>
    match text.dropWhile (isBlank v) with
    | ']' :: rest => some ([], rest)
    | body =>
      match readScalar v .flowElement indent body with
      | some (value, ',' :: rest) =>
        (readElements v indent fuel rest).map fun r => (value :: r.1, r.2)
      | some (value, ']' :: rest) => some ([value], rest)
      | _ => none

/-- A flow sequence of scalars, from the text right after a mapping's colon. -/
def readSequence (v : Version) (indent : Nat) (text : List Char) :
    Option (List Value × List Char) :=
  if text.head?.any isWhite then
    match text.dropWhile isWhite with
    | '[' :: rest => do
      let (values, rest) ← readElements v indent (rest.length + 1) rest
      let rest := skipBlank v .mappingValue rest
      if endsNode v .mappingValue indent rest then some (values, rest) else none
    | _ => none
  else none

/-- A text that a node of this kind can stand right before. -/
structure Following (v : Version) (ctx : Context) (indent : Nat) where
  text : List Char
  ends : endsNode v ctx indent text = true

section Reading

variable {v : Version} {ctx : Context} {indent : Nat}

theorem isWhite_of_isBreak {c : Char} (h : isBreak v c = true) : isWhite c = false := by
  have hspace : c ≠ ' ' := by
    rintro rfl
    cases v <;> cases h
  have htab : c ≠ '\t' := by
    rintro rfl
    cases v <;> cases h
  simp [isWhite, hspace, htab]

theorem not_isBreak_number_sign : isBreak v '#' = false := by
  cases v <;> decide

theorem isFlowIndicator_of_ends {c : Char} (h : (c == ',' || c == ']') = true) :
    isFlowIndicator c = true := by
  simp only [Bool.or_eq_true, beq_iff_eq] at h
  rcases h with rfl | rfl <;> decide

theorem isBlank_of_ends {c : Char} (h : (c == ',' || c == ']') = true) :
    isBlank v c = false := by
  simp only [Bool.or_eq_true, beq_iff_eq] at h
  rcases h with rfl | rfl <;> cases v <;> decide

theorem skipBlank_of_isBreak {c : Char} (rest : List Char) (h : isBreak v c = true) :
    skipBlank v ctx (c :: rest) = c :: rest ∨ ctx = .flowElement := by
  have hwhite := isWhite_of_isBreak h
  have hne : c ≠ '#' := by
    rintro rfl
    rw [not_isBreak_number_sign] at h
    cases h
  cases ctx with
  | mappingValue => simp [skipBlank, hwhite, hne]
  | sequenceItem => simp [skipBlank, hwhite, hne]
  | flowElement => exact Or.inr rfl

theorem Following.skipBlank (f : Following v ctx indent) :
    skipBlank v ctx f.text = f.text := by
  obtain ⟨text, ends⟩ := f
  cases text with
  | nil => cases ctx <;> rfl
  | cons c rest =>
    cases ctx with
    | flowElement => simp [Yaml.skipBlank, isBlank_of_ends ends]
    | mappingValue =>
      simp only [endsNode, Bool.and_eq_true] at ends
      exact (skipBlank_of_isBreak rest ends.1).resolve_right (by decide)
    | sequenceItem =>
      simp only [endsNode, Bool.and_eq_true] at ends
      exact (skipBlank_of_isBreak rest ends.1).resolve_right (by decide)

theorem Following.endsPlain (f : Following v ctx indent) (afterBlank : Bool) :
    endsPlain v ctx indent afterBlank f.text = true := by
  obtain ⟨text, ends⟩ := f
  cases text with
  | nil => rfl
  | cons c rest =>
    cases ctx with
    | flowElement => simp [Yaml.endsPlain, isFlowIndicator_of_ends ends]
    | mappingValue => rw [Yaml.endsPlain, show (_ && _) = true from ends, Bool.or_true]
    | sequenceItem => rw [Yaml.endsPlain, show (_ && _) = true from ends, Bool.or_true]

theorem finish_following (f : Following v ctx indent) (value : Value) :
    finish v ctx indent value f.text = some (value, f.text) := by
  simp only [finish, f.skipBlank, f.ends, if_true]

/-- What never ends a plain scalar, wherever it stands in it. -/
def isInner (v : Version) (c : Char) : Bool :=
  isPlainChar v c && !isFlowIndicator c && c != ':' && c != '#'

theorem isInner_of_ascii {c : Char} (hlow : 0x20 ≤ c.toNat) (hhigh : c.toNat ≤ 0x7e)
    (hflow : isFlowIndicator c = false) (hcolon : c ≠ ':') (hnumber : c ≠ '#') :
    isInner v c = true := by
  have hbreak : ¬ isBreak v c = true := by
    cases v with
    | v1_1 =>
      rw [isBreak_v1_1]
      omega
    | v1_2 =>
      rw [isBreak_v1_2]
      omega
  have hmark : c ≠ byteOrderMark := by
    rintro rfl
    exact absurd hhigh (by decide)
  simp [isInner, isPlainChar, isPrintable, hlow, hhigh, hflow, hcolon, hnumber, hbreak, hmark]

theorem endsPlain_inner {c : Char} (h : isInner v c = true) (afterBlank : Bool)
    (rest : List Char) : endsPlain v ctx indent afterBlank (c :: rest) = false := by
  simp only [isInner, isPlainChar, Bool.and_eq_true, Bool.not_eq_true', bne_iff_ne] at h
  cases ctx <;> simp [endsPlain, h]

theorem plainText_append (f : Following v ctx indent) (text : List Char)
    (h : ∀ c ∈ text, isInner v c = true) (afterBlank : Bool) :
    plainText v ctx indent afterBlank (text ++ f.text) = (text, f.text) := by
  induction text generalizing afterBlank with
  | nil =>
    have hends := f.endsPlain afterBlank
    rw [List.nil_append]
    cases htext : f.text with
    | nil => rfl
    | cons c rest =>
      rw [htext] at hends
      simp only [plainText, hends, if_true]
  | cons c text ih =>
    have hgo : endsPlain v ctx indent afterBlank (c :: (text ++ f.text)) = false :=
      endsPlain_inner (h c List.mem_cons_self) afterBlank _
    rw [List.cons_append, plainText, hgo]
    simp only [Bool.false_eq_true, if_false, ih fun d hd => h d (List.mem_cons_of_mem c hd)]

theorem plainPieces_inner (text : List Char) (h : ∀ c ∈ text, isInner v c = true) :
    plainPieces v text = some (text.map .text) := by
  induction text with
  | nil => rfl
  | cons c text ih =>
    have hc := h c List.mem_cons_self
    simp only [isInner, Bool.and_eq_true] at hc
    have hplain : isPlainChar v c = true := hc.1.1.1
    have hbreak : isBreak v c = false := by
      simp only [isPlainChar, Bool.and_eq_true, Bool.not_eq_true'] at hplain
      exact hplain.2
    simp [plainPieces, hbreak, hplain, ih fun d hd => h d (List.mem_cons_of_mem c hd)]

/-- A line of text that a plain scalar is read from as it stands. -/
theorem readScalar_plain (f : Following v ctx indent) (c : Char) (text : List Char)
    (hfirst : isIndicator c = false) (hinner : ∀ d ∈ c :: text, isInner v d = true)
    (hlast : isBlank v ((c :: text).getLast (List.cons_ne_nil c text)) = false)
    (hresolve : resolve v (c :: text) = none) :
    readScalar v ctx indent ((c :: text) ++ f.text) =
      some (.string (String.ofList (c :: text)), f.text) := by
  have hquote : c ≠ '"' := by
    rintro rfl
    exact absurd hfirst (by decide)
  have hstart : startsPlain v ctx (c :: (text ++ f.text)) = true := by
    simp [startsPlain, hfirst]
  have htext : plainText v ctx indent true (c :: (text ++ f.text)) = (c :: text, f.text) :=
    plainText_append f (c :: text) hinner true
  have hdrop : (c :: text).rdropWhile (isBlank v) = c :: text := by
    rw [List.rdropWhile_eq_self_iff]
    intro _
    simp [hlast]
  have htake : (c :: text).rtakeWhile (isBlank v) = [] := by
    rw [List.rtakeWhile_eq_nil_iff]
    intro _
    simp [hlast]
  have hfold : foldPieces indent (.inLine []) ((c :: text).map .text) = some (c :: text) :=
    foldPieces_inLine indent _ _ [] (by rw [List.map_map]; rfl)
  rw [List.cons_append, readScalar]
  · simp only [hstart, htext, hdrop, htake, plainPieces_inner _ hinner, if_true,
      Option.bind_eq_bind, Option.bind_some, List.nil_append]
    rw [hfold]
    simp only [Option.bind_some, plainValue, hresolve, finish_following]
  · intro rest h
    exact hquote (List.cons.inj h).1

theorem readScalar_quoted (f : Following v ctx indent) {text : List Char} {pieces : List Piece}
    (h : readPieces v .plain text = some (pieces, f.text)) :
    readScalar v ctx indent ('"' :: text) =
      (foldPieces indent (.inLine []) pieces).map fun s => (.string (String.ofList s), f.text) := by
  cases hfold : foldPieces indent (.inLine []) pieces with
  | none => simp [readScalar, h, hfold]
  | some s => simp [readScalar, h, hfold, finish_following f]

theorem readScalar_unclosed {text : List Char} (h : readPieces v .plain text = none) :
    readScalar v ctx indent ('"' :: text) = none := by
  simp [readScalar, h]

theorem readElements_space (v : Version) (indent fuel : Nat) (text : List Char) :
    readElements v indent fuel (' ' :: text) = readElements v indent fuel text := by
  cases fuel with
  | zero => rfl
  | succ fuel =>
    have hblank : isBlank v ' ' = true := by cases v <;> rfl
    simp only [readElements, List.dropWhile_cons, hblank, if_true]

/-- An element that is no closing bracket, and what stands after it. -/
theorem readElements_element (v : Version) (indent fuel : Nat) {text : List Char} {c : Char}
    (hhead : text.head? = some c) (hblank : isBlank v c = false) (hclose : c ≠ ']') :
    readElements v indent (fuel + 1) text =
      match readScalar v .flowElement indent text with
      | some (value, ',' :: rest) =>
        (readElements v indent fuel rest).map fun r => (value :: r.1, r.2)
      | some (value, ']' :: rest) => some ([value], rest)
      | _ => none := by
  cases text with
  | nil => cases hhead
  | cons d text =>
    obtain rfl : d = c := Option.some.inj hhead
    rw [readElements, List.dropWhile_cons, hblank]
    simp only [Bool.false_eq_true, if_false]
    split
    · rename_i rest heq
      exact absurd (List.cons.inj heq).1 hclose
    · rfl

/-- A node right after the space that sets it apart. -/
theorem readNode_space {text : List Char} {c : Char} (hhead : text.head? = some c)
    (hwhite : isWhite c = false) :
    readNode v ctx indent (' ' :: text) = readScalar v ctx indent text := by
  have hspace : Option.any isWhite (' ' :: text).head? = true := rfl
  have hdrop : (' ' :: text).dropWhile isWhite = text := by
    rw [List.dropWhile_cons_of_pos (by decide)]
    cases text with
    | nil => rfl
    | cons d text =>
      obtain rfl : d = c := Option.some.inj hhead
      rw [List.dropWhile_cons_of_neg (by simp [hwhite])]
  rw [readNode, if_pos hspace, hdrop]

theorem readSequence_space (f : Following v .mappingValue indent) (text : List Char)
    {values : Option (List Value)}
    (h : readElements v indent ((text ++ f.text).length + 1) (text ++ f.text) =
      values.map fun values => (values, f.text)) :
    readSequence v indent (' ' :: '[' :: (text ++ f.text)) =
      values.map fun values => (values, f.text) := by
  have hopen : readSequence v indent (' ' :: '[' :: (text ++ f.text)) =
      (readElements v indent ((text ++ f.text).length + 1) (text ++ f.text)).bind fun r =>
        if endsNode v .mappingValue indent (Yaml.skipBlank v .mappingValue r.2) then
          some (r.1, Yaml.skipBlank v .mappingValue r.2)
        else none := rfl
  rw [hopen, h]
  cases values with
  | none => rfl
  | some values =>
    simp only [Option.map_some, Option.bind_some, f.skipBlank, f.ends, if_true]

end Reading

end Yaml
end Lib
end Panops
