import Mathlib.Data.List.Basic
import Panops.Export.Yaml
import Panops.Lib.Yaml

/-!
# Reading the frontmatter's scalars back

What a YAML reader of either version makes of `yamlScalar` and `yamlList`, wherever
the frontmatter puts them.
-/

namespace Panops

open Lib.Yaml Lib.Decimal

namespace MarkdownExporter

/-! ## One character inside double quotes -/

/-- The piece that a reader takes for one written character. -/
def pieceOf (v : Version) (c : Char) : Option Piece :=
  if yamlEscape c = [c] then
    if isBreak v c then some (breakPiece c)
    else if isQuotable v c then some (.text c)
    else none
  else some (.escaped c)

theorem hexDigit_toDigits :
    ∀ n < 128, (padLeft '0' 4 (Nat.toDigits 16 n)).map hexDigit =
      [some 0, some 0, some (n / 16), some (n % 16)] := by
  decide +kernel

theorem readPieces_hex (v : Version) {n : Nat} (hn : n < 128) (rest : List Char) :
    readPieces v .plain (['\\', 'u'] ++ padLeft '0' 4 (Nat.toDigits 16 n) ++ rest) =
      push (.escaped (Char.ofNat n)) (readPieces v .plain rest) := by
  have hdigits := hexDigit_toDigits n hn
  generalize padLeft '0' 4 (Nat.toDigits 16 n) = ds at hdigits
  obtain ⟨a, ds, rfl, ha, hdigits⟩ := List.map_eq_cons_iff.mp hdigits
  obtain ⟨b, ds, rfl, hb, hdigits⟩ := List.map_eq_cons_iff.mp hdigits
  obtain ⟨c, ds, rfl, hc, hdigits⟩ := List.map_eq_cons_iff.mp hdigits
  obtain ⟨d, ds, rfl, hd, hdigits⟩ := List.map_eq_cons_iff.mp hdigits
  obtain rfl := List.map_eq_nil_iff.mp hdigits
  have hvalue : 16 * (16 * (16 * (16 * 0 + 0) + 0) + n / 16) + n % 16 = n := by omega
  have hvalid : n.isValidChar := Or.inl (by omega)
  have hopen : ∀ tail : List Char,
      readPieces v .plain ('\\' :: 'u' :: tail) = readPieces v (.hex 4 0) tail := fun _ => rfl
  simp only [List.cons_append, List.nil_append, hopen, readPieces, ha, hb, hc, hd, hvalue,
    hvalid]
  simp

theorem readPieces_raw (v : Version) {c : Char} (hquote : c ≠ '"') (hslash : c ≠ '\\')
    (hreturn : c ≠ '\r') (rest : List Char) :
    readPieces v .plain (c :: rest) =
      (if isBreak v c then some (breakPiece c)
        else if isQuotable v c then some (.text c)
        else none).bind fun p => push p (readPieces v .plain rest) := by
  simp only [readPieces, hquote, hslash, hreturn, false_and, if_false]
  split
  · rfl
  · split <;> rfl

/-- The characters with a letter of their own after the backslash. -/
def shortEscapes : List (Char × Char) :=
  [('\\', '\\'), ('"', '"'), ('\n', 'n'), ('\r', 'r'), ('\t', 't')]

/-- The three ways a character is written. -/
theorem yamlEscape_cases (c : Char) :
    (∃ d, (c, d) ∈ shortEscapes ∧ yamlEscape c = ['\\', d]) ∨
      (c.toNat < 0x80 ∧ yamlEscape c = ['\\', 'u'] ++ padLeft '0' 4 (Nat.toDigits 16 c.toNat)) ∨
      (yamlEscape c = [c] ∧ (∀ d, (c, d) ∉ shortEscapes) ∧ 0x20 ≤ c.toNat ∧ c.toNat ≠ 0x7f) := by
  by_cases hslash : c = '\\'
  · subst hslash
    exact Or.inl ⟨'\\', by decide, rfl⟩
  by_cases hquote : c = '"'
  · subst hquote
    exact Or.inl ⟨'"', by decide, rfl⟩
  by_cases hline : c = '\n'
  · subst hline
    exact Or.inl ⟨'n', by decide, rfl⟩
  by_cases hreturn : c = '\r'
  · subst hreturn
    exact Or.inl ⟨'r', by decide, rfl⟩
  by_cases htab : c = '\t'
  · subst htab
    exact Or.inl ⟨'t', by decide, rfl⟩
  right
  rw [yamlEscape, if_neg hslash, if_neg hquote, if_neg hline, if_neg hreturn, if_neg htab]
  by_cases hcontrol : (c.toNat < 0x20 || c.toNat == 0x7f) = true
  · rw [if_pos hcontrol]
    simp only [Bool.or_eq_true, decide_eq_true_eq, beq_iff_eq] at hcontrol
    exact Or.inl ⟨by omega, rfl⟩
  · rw [if_neg hcontrol]
    simp only [Bool.or_eq_true, decide_eq_true_eq, beq_iff_eq] at hcontrol
    refine Or.inr ⟨rfl, ?_, by omega, by omega⟩
    simp [shortEscapes, hslash, hquote, hline, hreturn, htab]

theorem readPieces_yamlEscape (v : Version) (c : Char) (rest : List Char) :
    readPieces v .plain (yamlEscape c ++ rest) =
      (pieceOf v c).bind fun p => push p (readPieces v .plain rest) := by
  rcases yamlEscape_cases c with ⟨d, hmem, hc⟩ | ⟨hsmall, hc⟩ | ⟨hc, hshort, _, _⟩
  · simp only [shortEscapes, List.mem_cons, Prod.mk.injEq, List.not_mem_nil, or_false] at hmem
    rcases hmem with ⟨rfl, rfl⟩ | ⟨rfl, rfl⟩ | ⟨rfl, rfl⟩ | ⟨rfl, rfl⟩ | ⟨rfl, rfl⟩ <;> rfl
  · rw [pieceOf, hc, if_neg (by simp), readPieces_hex v hsmall, Char.ofNat_toNat]
    rfl
  · have hquote : c ≠ '"' := fun h => hshort '"' (by rw [h]; decide)
    have hslash : c ≠ '\\' := fun h => hshort '\\' (by rw [h]; decide)
    have hreturn : c ≠ '\r' := fun h => hshort 'r' (by rw [h]; decide)
    rw [pieceOf, hc, if_pos rfl]
    exact readPieces_raw v hquote hslash hreturn rest

/-- The pieces of a whole quoted text. -/
theorem readPieces_flatMap (v : Version) (s rest : List Char) :
    readPieces v .plain (s.flatMap yamlEscape ++ '"' :: rest) =
      (s.mapM (pieceOf v)).map fun pieces => (pieces, rest) := by
  induction s with
  | nil => rfl
  | cons c s ih =>
    rw [List.flatMap_cons, List.append_assoc, readPieces_yamlEscape, ih, List.mapM_cons]
    cases pieceOf v c with
    | none => rfl
    | some p =>
      cases s.mapM (pieceOf v) with
      | none => rfl
      | some pieces => rfl

/-! ## Which strings come back -/

/-- A character that a reader of this version takes from double quotes as it is
written there.  Version 1.1 knows C1 control characters and a byte order mark for no
part of a text, nor the two noncharacters, and folds the three breaks it has beyond
ASCII. -/
def readable : Version → Char → Bool
  | .v1_1, c =>
    !(0x80 ≤ c.toNat && c.toNat ≤ 0x9f) &&
      !(([0x2028, 0x2029, 0xfeff, 0xfffe, 0xffff] : List Nat).contains c.toNat)
  | .v1_2, _ => true

/-- Characters that are written as they are. -/
theorem toNat_of_raw {c : Char} (h : yamlEscape c = [c]) : 0x20 ≤ c.toNat ∧ c.toNat ≠ 0x7f := by
  rcases yamlEscape_cases c with ⟨d, _, hc⟩ | ⟨_, hc⟩ | ⟨_, _, hc⟩
  · rw [hc] at h
    cases congrArg List.length h
  · rw [hc] at h
    simp at h
  · exact hc

theorem yamlEscape_of_le {c : Char} (h : 0x80 ≤ c.toNat) : yamlEscape c = [c] := by
  have hne : ∀ d : Char, d.toNat < 0x80 → c ≠ d := by
    rintro d hd rfl
    omega
  have hcontrol : ¬ (c.toNat < 0x20 || c.toNat == 0x7f) = true := by
    simp only [Bool.or_eq_true, decide_eq_true_eq, beq_iff_eq]
    omega
  rw [yamlEscape, if_neg (hne '\\' (by decide)), if_neg (hne '"' (by decide)),
    if_neg (hne '\n' (by decide)), if_neg (hne '\r' (by decide)),
    if_neg (hne '\t' (by decide)), if_neg hcontrol]

theorem readable_v1_1 (c : Char) :
    readable .v1_1 c = true ↔
      (c.toNat < 0x80 ∨ 0x9f < c.toNat) ∧ c.toNat ≠ 0x2028 ∧ c.toNat ≠ 0x2029 ∧
        c.toNat ≠ 0xfeff ∧ c.toNat ≠ 0xfffe ∧ c.toNat ≠ 0xffff := by
  simp only [readable, Bool.and_eq_true, Bool.not_eq_true', Bool.and_eq_false_iff,
    decide_eq_false_iff_not, List.contains_eq_mem, List.mem_cons, List.not_mem_nil, or_false,
    not_or, Nat.not_le, ne_eq]

theorem not_readable_v1_1 (c : Char) :
    readable .v1_1 c = false ↔
      (0x80 ≤ c.toNat ∧ c.toNat ≤ 0x9f) ∨ c.toNat = 0x2028 ∨ c.toNat = 0x2029 ∨
        c.toNat = 0xfeff ∨ c.toNat = 0xfffe ∨ c.toNat = 0xffff := by
  simp only [readable, Bool.and_eq_false_iff, Bool.not_eq_false', Bool.and_eq_true,
    decide_eq_true_eq, List.contains_eq_mem, List.mem_cons, List.not_mem_nil, or_false]

theorem isQuotable_of_readable {c : Char} (hraw : 0x20 ≤ c.toNat ∧ c.toNat ≠ 0x7f)
    (h : readable .v1_1 c = true) : isQuotable .v1_1 c = true := by
  rw [readable_v1_1] at h
  obtain ⟨hrange, -, -, hbom, hfffe, hffff⟩ := h
  rw [isQuotable_v1_1]
  refine ⟨?_, hbom⟩
  rcases hrange with hlow | hhigh
  · have hle : c.toNat ≤ 0x7e :=
      Nat.le_of_lt_succ (Nat.lt_of_le_of_ne (Nat.le_of_lt_succ hlow) hraw.2)
    simp [hraw.1, hle]
  · by_cases hlarge : 0x10000 ≤ c.toNat
    · simp [hlarge]
    · have hle : c.toNat ≤ 0xfffd := by omega
      have hge : 0xa0 ≤ c.toNat := hhigh
      simp [hge, hle]

theorem pieceOf_of_readable {v : Version} {c : Char} (h : readable v c = true) :
    ∃ p, pieceOf v c = some p ∧ p.char = some c := by
  by_cases hraw : yamlEscape c = [c]
  · have hn := toNat_of_raw hraw
    refine ⟨.text c, ?_, rfl⟩
    rw [pieceOf, if_pos hraw]
    cases v with
    | v1_1 =>
      have hquotable := isQuotable_of_readable hn h
      rw [readable_v1_1] at h
      have hbreak : ¬ isBreak .v1_1 c = true := by
        rw [isBreak_v1_1]
        rintro (hc | hc | hc | hc | hc) <;> simp [hc] at h hn
      rw [if_neg hbreak, if_pos hquotable]
    | v1_2 =>
      have hbreak : ¬ isBreak .v1_2 c = true := by
        rw [isBreak_v1_2]
        omega
      have hquotable : isQuotable .v1_2 c = true := by
        simp [isQuotable, hn.1]
      rw [if_neg hbreak, if_pos hquotable]
  · exact ⟨.escaped c, by rw [pieceOf, if_neg hraw], rfl⟩

theorem pieceOf_of_not_readable {v : Version} {c : Char} (h : readable v c = false) :
    pieceOf v c = none ∨ ∃ d, pieceOf v c = some (.newline d) := by
  cases v with
  | v1_1 =>
    rw [not_readable_v1_1] at h
    have hhigh : 0x80 ≤ c.toNat := by
      rcases h with hc | hc | hc | hc | hc | hc <;> omega
    rw [pieceOf, if_pos (yamlEscape_of_le hhigh)]
    by_cases hbreak : isBreak .v1_1 c = true
    · rw [if_pos hbreak, breakPiece]
      split
      · exact Or.inr ⟨c, rfl⟩
      · exact Or.inr ⟨'\n', rfl⟩
    · have hquotable : ¬ isQuotable .v1_1 c = true := by
        rw [isBreak_v1_1] at hbreak
        rw [isQuotable_v1_1]
        rcases h with hc | hc | hc | hc | hc | hc
        · omega
        · simp [hc] at hbreak
        · simp [hc] at hbreak
        · simp [hc]
        · simp [hc]
        · simp [hc]
      exact Or.inl (by rw [if_neg hbreak, if_neg hquotable])
  | v1_2 => cases h

/-- A string that comes back. -/
def Readable (v : Version) (s : String) : Prop := ∀ c ∈ s.toList, readable v c = true

instance (v : Version) (s : String) : Decidable (Readable v s) :=
  List.decidableBAll (fun c => readable v c = true) s.toList

/-- The characters of a string whose characters are all read as they are. -/
theorem mapM_pieceOf_of_readable {v : Version} {s : List Char}
    (h : ∀ c ∈ s, readable v c = true) :
    ∃ pieces, s.mapM (pieceOf v) = some pieces ∧ pieces.map Piece.char = s.map some := by
  induction s with
  | nil => exact ⟨[], rfl, rfl⟩
  | cons c s ih =>
    obtain ⟨p, hp, hchar⟩ := pieceOf_of_readable (h c List.mem_cons_self)
    obtain ⟨pieces, hpieces, hchars⟩ := ih fun d hd => h d (List.mem_cons_of_mem c hd)
    refine ⟨p :: pieces, ?_, ?_⟩
    · rw [List.mapM_cons, hp, hpieces]
      rfl
    · rw [List.map_cons, List.map_cons, hchar, hchars]

theorem mapM_cons_eq_some {v : Version} {c : Char} {s : List Char} {pieces : List Piece}
    (h : (c :: s).mapM (pieceOf v) = some pieces) :
    ∃ p ps, pieceOf v c = some p ∧ s.mapM (pieceOf v) = some ps ∧ pieces = p :: ps := by
  rw [List.mapM_cons] at h
  cases hp : pieceOf v c with
  | none => simp [hp] at h
  | some p =>
    cases hps : s.mapM (pieceOf v) with
    | none => simp [hp, hps] at h
    | some ps =>
      simp only [hp, hps] at h
      exact ⟨p, ps, rfl, rfl, (Option.some.inj h).symm⟩

theorem length_mapM_pieceOf {v : Version} {s : List Char} {pieces : List Piece}
    (h : s.mapM (pieceOf v) = some pieces) : pieces.length = s.length := by
  induction s generalizing pieces with
  | nil =>
    obtain rfl : [] = pieces := Option.some.inj h
    rfl
  | cons c s ih =>
    obtain ⟨p, ps, _, hps, rfl⟩ := mapM_cons_eq_some h
    rw [List.length_cons, List.length_cons, ih hps]

/-- One character that is not, and the pieces have a break. -/
theorem mapM_pieceOf_of_not_readable {v : Version} {s : List Char} {c : Char} (hc : c ∈ s)
    (hnot : readable v c = false) {pieces : List Piece}
    (h : s.mapM (pieceOf v) = some pieces) :
    (pieces.any fun p => p.char.isNone) = true := by
  induction s generalizing pieces with
  | nil => cases hc
  | cons d s ih =>
    obtain ⟨p, ps, hp, hps, rfl⟩ := mapM_cons_eq_some h
    rw [List.any_cons, Bool.or_eq_true]
    rcases List.mem_cons.mp hc with rfl | hc
    · rcases pieceOf_of_not_readable hnot with hnone | ⟨d, hd⟩
      · rw [hnone] at hp
        cases hp
      · rw [hd] at hp
        exact Or.inl (by rw [← Option.some.inj hp]; rfl)
    · exact Or.inr (ih hc hps)

/-- What a string's quoted form is read as: itself, exactly when it can be. -/
theorem foldPieces_eq_iff (v : Version) (indent : Nat) (s : String) :
    ((s.toList.mapM (pieceOf v)).bind (foldPieces indent (.inLine [])) = some s.toList) ↔
      Readable v s := by
  constructor
  · intro h c hc
    by_contra hnot
    obtain ⟨pieces, hpieces, hfold⟩ := Option.bind_eq_some_iff.mp h
    have hlength := length_mapM_pieceOf hpieces
    have hbreak := mapM_pieceOf_of_not_readable hc (Bool.eq_false_of_not_eq_true hnot) hpieces
    have hless := length_foldPieces indent pieces _ _ hfold
    simp only [Position.lost, hbreak, if_true, Position.size, List.length_nil] at hless
    omega
  · intro h
    obtain ⟨pieces, hpieces, hchars⟩ := mapM_pieceOf_of_readable h
    rw [hpieces, Option.bind_some, foldPieces_inLine indent pieces s.toList [] hchars,
      List.nil_append]

/-! ## Plain scalars -/

theorem toNat_of_isAlphanum {c : Char} (h : c.isAlphanum = true) :
    0x30 ≤ c.toNat ∧ c.toNat ≤ 0x7a := by
  have hval : c.val.toNat = c.toNat := rfl
  delta Char.isAlphanum Char.isAlpha Char.isUpper Char.isLower Char.isDigit at h
  simp only [Bool.or_eq_true, Bool.and_eq_true, decide_eq_true_eq, ge_iff_le,
    UInt32.le_iff_toNat_le, hval] at h
  simp at h
  omega

theorem isInner_of_isAlphanum (v : Version) {c : Char} (h : c.isAlphanum = true) :
    isInner v c = true := by
  have hn := toNat_of_isAlphanum h
  have hflow : ¬ isFlowIndicator c = true := by
    intro hflow
    rw [isAlphanum_of_isFlowIndicator hflow] at h
    cases h
  have hcolon : c ≠ ':' := by
    rintro rfl
    cases h
  have hnumber : c ≠ '#' := by
    rintro rfl
    cases h
  exact isInner_of_ascii (by omega) (by omega) (Bool.eq_false_of_not_eq_true hflow) hcolon hnumber

/-- The reserved words cover every word of a type. -/
theorem isYamlReserved_words (v : Version) :
    ∀ w ∈ words v, ∀ word ∈ w.2, isYamlReserved word = true := by
  cases v <;> decide

theorem isInner_of_matches (v : Version) {c : Char}
    (h : (c.isAlphanum || [' ', '.', '_', '/', '-'].contains c) = true) :
    isInner v c = true := by
  rcases Bool.or_eq_true_iff.mp h with halnum | hother
  · exact isInner_of_isAlphanum v halnum
  · have hall : [' ', '.', '_', '/', '-'].all (isInner v) = true := by
      cases v <;> decide
    exact List.all_eq_true.mp hall c (List.contains_iff_mem.mp hother)

theorem toNat_of_matches {c : Char}
    (h : (c.isAlphanum || [' ', '.', '_', '/', '-'].contains c) = true) : c.toNat < 0x80 := by
  rcases Bool.or_eq_true_iff.mp h with halnum | hother
  · have := toNat_of_isAlphanum halnum
    omega
  · have hall : [' ', '.', '_', '/', '-'].all (·.toNat < 0x80) = true := by decide
    exact of_decide_eq_true (List.all_eq_true.mp hall c (List.contains_iff_mem.mp hother))

theorem isBlank_of_matches (v : Version) {c : Char} (hspace : c ≠ ' ')
    (h : (c.isAlphanum || [' ', '.', '_', '/', '-'].contains c) = true) :
    isBlank v c = false := by
  have hinner := isInner_of_matches v h
  have htab : c ≠ '\t' := by
    rintro rfl
    cases h
  simp only [isInner, isPlainChar, Bool.and_eq_true, Bool.not_eq_true'] at hinner
  simp [isBlank, isWhite, hspace, htab, hinner]

/-- What `matches_plain_pattern` finds: a letter, then characters of the pattern, and
no space at the end. -/
theorem matchesPlainPattern_cases {s : String} (h : matchesPlainPattern s = true) :
    ∃ c rest, s.toList = c :: rest ∧ c.isAlpha = true ∧
      (∀ d ∈ c :: rest, (d.isAlphanum || [' ', '.', '_', '/', '-'].contains d) = true) ∧
      (c :: rest).getLast? ≠ some ' ' := by
  rw [matchesPlainPattern] at h
  split at h
  · cases h
  · rename_i hspace
    cases hs : s.toList with
    | nil => simp [hs] at h
    | cons c rest =>
      simp only [hs, Bool.and_eq_true, List.all_eq_true] at h
      refine ⟨c, rest, rfl, h.1, ?_, by simpa [hs] using hspace⟩
      intro d hd
      rcases List.mem_cons.mp hd with rfl | hd
      · simp [Char.isAlphanum, h.1]
      · exact h.2 d hd

/-- A string that is written plain, as a reader takes it. -/
theorem readScalar_safe {v : Version} {ctx : Context} {indent : Nat} (f : Following v ctx indent)
    {s : String} (hsafe : isSafePlainScalar s = true) :
    readScalar v ctx indent (s.toList ++ f.text) = some (.string s, f.text) := by
  simp only [isSafePlainScalar, Bool.and_eq_true, Bool.not_eq_true'] at hsafe
  obtain ⟨⟨hplain, hreserved⟩, _⟩ := hsafe
  obtain ⟨c, rest, hs, halpha, hchars, hspace⟩ := matchesPlainPattern_cases hplain
  have hindicator : isIndicator c = false := by
    by_contra hne
    rw [isAlpha_of_isIndicator (Bool.eq_true_of_not_eq_false hne)] at halpha
    cases halpha
  have hlast : isBlank v ((c :: rest).getLast (List.cons_ne_nil c rest)) = false := by
    have hmem := List.getLast_mem (List.cons_ne_nil c rest)
    refine isBlank_of_matches v ?_ (hchars _ hmem)
    intro heq
    rw [List.getLast?_eq_some_getLast (List.cons_ne_nil c rest), heq] at hspace
    exact hspace rfl
  have hstring : String.ofList (c :: rest) = s := by rw [← hs, String.ofList_toList]
  have hwords : ∀ w ∈ words v, String.ofList (c :: rest) ∉ w.2 := by
    intro w hw hmem
    rw [hstring] at hmem
    rw [isYamlReserved_words v w hw s hmem] at hreserved
    cases hreserved
  have hread := readScalar_plain f c rest hindicator
    (fun d hd => isInner_of_matches v (hchars d hd)) hlast (resolve_of_isAlpha halpha hwords)
  rwa [← hs, String.ofList_toList] at hread

/-- The plain form is one that is always read back. -/
theorem readable_of_safe (v : Version) {s : String} (hsafe : isSafePlainScalar s = true) :
    Readable v s := by
  simp only [isSafePlainScalar, Bool.and_eq_true] at hsafe
  obtain ⟨c, rest, hs, _, hchars, _⟩ := matchesPlainPattern_cases hsafe.1.1
  intro d hd
  have hn := toNat_of_matches (hchars d (hs ▸ hd))
  cases v with
  | v1_1 =>
    rw [readable_v1_1]
    omega
  | v1_2 => rfl

/-- A string in double quotes, as a reader takes it. -/
theorem readScalar_escaped {v : Version} {ctx : Context} {indent : Nat}
    (f : Following v ctx indent) (s : String) :
    readScalar v ctx indent ('"' :: (s.toList.flatMap yamlEscape ++ '"' :: f.text)) =
      ((s.toList.mapM (pieceOf v)).bind (foldPieces indent (.inLine []))).map
        fun text => (.string (String.ofList text), f.text) := by
  have hread := readPieces_flatMap v s.toList f.text
  cases hpieces : s.toList.mapM (pieceOf v) with
  | none =>
    rw [hpieces] at hread
    rw [readScalar_unclosed hread]
    rfl
  | some pieces =>
    rw [hpieces] at hread
    rw [readScalar_quoted f hread]
    rfl

/-- What a string comes back as. -/
def readsAs (v : Version) (indent : Nat) (s : String) : Option String :=
  if isSafePlainScalar s then some s
  else ((s.toList.mapM (pieceOf v)).bind (foldPieces indent (.inLine []))).map String.ofList

theorem readScalar_yamlScalar {v : Version} {ctx : Context} {indent : Nat}
    (f : Following v ctx indent) (s : String) :
    readScalar v ctx indent ((yamlScalar s).toList ++ f.text) =
      (readsAs v indent s).map fun text => (.string text, f.text) := by
  by_cases hsafe : isSafePlainScalar s = true
  · rw [yamlScalar, readsAs, if_pos hsafe, if_pos hsafe, readScalar_safe f hsafe]
    rfl
  · have hquoted := readScalar_escaped f s
    rw [yamlScalar, readsAs, if_neg hsafe, if_neg hsafe, Option.map_map]
    simp only [String.toList_ofList, List.cons_append, List.nil_append, List.append_assoc]
    exact hquoted

theorem readsAs_eq_some_iff (v : Version) (indent : Nat) (s : String) :
    readsAs v indent s = some s ↔ Readable v s := by
  by_cases hsafe : isSafePlainScalar s = true
  · rw [readsAs, if_pos hsafe]
    exact iff_of_true rfl (readable_of_safe v hsafe)
  · rw [readsAs, if_neg hsafe, ← foldPieces_eq_iff v indent s, Option.map_eq_some_iff]
    constructor
    · rintro ⟨text, htext, rfl⟩
      rw [String.toList_ofList] at htext ⊢
      exact htext
    · intro h
      exact ⟨s.toList, h, String.ofList_toList⟩

/-! ## Lists -/

/-- A scalar begins with a letter or a quote. -/
theorem yamlScalar_cons (s : String) :
    ∃ c rest, (yamlScalar s).toList = c :: rest ∧ (c = '"' ∨ c.isAlpha = true) := by
  by_cases hsafe : isSafePlainScalar s = true
  · simp only [yamlScalar, hsafe, if_true]
    simp only [isSafePlainScalar, Bool.and_eq_true] at hsafe
    obtain ⟨c, rest, hs, halpha, _⟩ := matchesPlainPattern_cases hsafe.1.1
    exact ⟨c, rest, hs, Or.inr halpha⟩
  · refine ⟨'"', s.toList.flatMap yamlEscape ++ ['"'], ?_, Or.inl rfl⟩
    simp [yamlScalar, hsafe]

theorem isBlank_of_first (v : Version) {c : Char} (h : c = '"' ∨ c.isAlpha = true) :
    isBlank v c = false := by
  rcases h with rfl | halpha
  · cases v <;> rfl
  · refine isBlank_of_matches v ?_ (by simp [Char.isAlphanum, halpha])
    rintro rfl
    cases halpha

theorem ne_bracket_of_first {c : Char} (h : c = '"' ∨ c.isAlpha = true) : c ≠ ']' := by
  rintro rfl
  rcases h with h | h <;> cases h

/-- The text of the elements up to the bracket. -/
def elementsText : List String → List Char
  | [] => [']']
  | [s] => (yamlScalar s).toList ++ [']']
  | s :: t :: items => (yamlScalar s).toList ++ ',' :: ' ' :: elementsText (t :: items)

theorem toList_intercalate_yamlScalar (s : String) (items : List String) :
    (String.intercalate ", " ((s :: items).map yamlScalar) ++ "]").toList =
      elementsText (s :: items) := by
  induction items generalizing s with
  | nil =>
    rw [List.map_singleton, String.intercalate_singleton, String.toList_append]
    rfl
  | cons t items ih =>
    have ht := ih t
    rw [String.toList_append, List.map_cons] at ht
    rw [List.map_cons, List.map_cons, String.intercalate_cons_cons, String.toList_append,
      String.toList_append, String.toList_append, List.append_assoc, List.append_assoc, ht]
    rfl

theorem yamlList_eq (items : List String) :
    (yamlList items).toList = '[' :: elementsText items := by
  cases items with
  | nil => rfl
  | cons s items =>
    have htext := toList_intercalate_yamlScalar s items
    rw [yamlList, if_neg (by simp), String.append_assoc, String.toList_append, htext]
    rfl

theorem head?_yamlScalar (s : String) :
    ∃ c, (∀ text, ((yamlScalar s).toList ++ text).head? = some c) ∧ c ≠ ']' ∧
      ∀ v, isBlank v c = false := by
  obtain ⟨c, rest, hs, hfirst⟩ := yamlScalar_cons s
  exact ⟨c, fun text => by rw [hs]; rfl, ne_bracket_of_first hfirst,
    fun v => isBlank_of_first v hfirst⟩

theorem length_lt_elementsText (items : List String) :
    items.length < (elementsText items).length := by
  induction items with
  | nil => decide
  | cons s items ih =>
    obtain ⟨c, rest, hs, _⟩ := yamlScalar_cons s
    cases items with
    | nil =>
      simp only [elementsText, hs, List.length_append, List.length_cons, List.length_nil]
      omega
    | cons t items =>
      simp only [elementsText, List.length_append, List.length_cons] at ih ⊢
      omega

theorem readElements_elementsText (v : Version) (indent fuel : Nat) (items : List String)
    (rest : List Char) (hfuel : items.length < fuel) :
    readElements v indent fuel (elementsText items ++ rest) =
      (items.mapM (readsAs v indent)).map fun texts => (texts.map Lib.Yaml.Value.string, rest) := by
  induction items generalizing fuel with
  | nil =>
    cases fuel with
    | zero => cases hfuel
    | succ fuel =>
      have hblank : isBlank v ']' = false := by cases v <;> rfl
      simp [readElements, elementsText, hblank]
  | cons s items ih =>
    obtain ⟨c, hhead, hclose, hblank⟩ := head?_yamlScalar s
    cases fuel with
    | zero => cases hfuel
    | succ fuel =>
      cases items with
      | nil =>
        let f : Following v .flowElement indent := ⟨']' :: rest, rfl⟩
        have hread := readScalar_yamlScalar f s
        rw [elementsText, List.append_assoc, readElements_element v indent fuel (hhead _)
          (hblank v) hclose, show [']'] ++ rest = f.text from rfl, hread, List.mapM_cons]
        cases readsAs v indent s with
        | none => rfl
        | some text => rfl
      | cons t items =>
        let f : Following v .flowElement indent :=
          ⟨',' :: ' ' :: (elementsText (t :: items) ++ rest), rfl⟩
        have hread := readScalar_yamlScalar f s
        have hrest := ih fuel (by simp only [List.length_cons] at hfuel ⊢; omega)
        rw [elementsText, List.append_assoc, readElements_element v indent fuel (hhead _)
          (hblank v) hclose,
          show ',' :: ' ' :: elementsText (t :: items) ++ rest = f.text from rfl, hread,
          List.mapM_cons]
        cases readsAs v indent s with
        | none => rfl
        | some text =>
          simp only [Option.map_some, f, readElements_space, hrest]
          cases (t :: items).mapM (readsAs v indent) with
          | none => rfl
          | some texts => rfl

theorem mapM_readsAs_iff (v : Version) (indent : Nat) (items : List String) :
    items.mapM (readsAs v indent) = some items ↔ ∀ s ∈ items, Readable v s := by
  induction items with
  | nil => simp
  | cons s items ih =>
    rw [List.mapM_cons, List.forall_mem_cons, ← readsAs_eq_some_iff v indent s, ← ih]
    cases readsAs v indent s with
    | none => simp
    | some text =>
      cases items.mapM (readsAs v indent) with
      | none => simp
      | some texts => simp

/-! ## The three places -/

/-- What follows a colon or a dash: a space, the scalar, and the lines after it. -/
theorem readNode_yamlScalar {v : Version} {ctx : Context} {indent : Nat}
    (f : Following v ctx indent) (s : String) :
    readNode v ctx indent (' ' :: ((yamlScalar s).toList ++ f.text)) =
      (readsAs v indent s).map fun text => (.string text, f.text) := by
  obtain ⟨c, hhead, _, hblank⟩ := head?_yamlScalar s
  have hwhite := hblank v
  simp only [isBlank, Bool.or_eq_false_iff] at hwhite
  rw [readNode_space (hhead f.text) hwhite.1, readScalar_yamlScalar f s]

theorem readSequence_yamlList {v : Version} {indent : Nat} (f : Following v .mappingValue indent)
    (items : List String) :
    readSequence v indent (' ' :: ((yamlList items).toList ++ f.text)) =
      (items.mapM (readsAs v indent)).map fun texts => (texts.map .string, f.text) := by
  have hfuel : items.length < (elementsText items ++ f.text).length + 1 := by
    have := length_lt_elementsText items
    simp only [List.length_append]
    omega
  have hread := readElements_elementsText v indent _ items f.text hfuel
  have hmap : readSequence v indent (' ' :: '[' :: (elementsText items ++ f.text)) =
      ((items.mapM (readsAs v indent)).map (List.map Lib.Yaml.Value.string)).map
        fun values => (values, f.text) :=
    readSequence_space f (elementsText items) (by rw [hread, Option.map_map]; rfl)
  rw [yamlList_eq, List.cons_append, hmap, Option.map_map]
  rfl

theorem map_readsAs_iff {α : Type} (v : Version) (indent : Nat) (s : String) (rest : α) :
    ((readsAs v indent s).map fun text => (Lib.Yaml.Value.string text, rest)) =
      some (.string s, rest) ↔ Readable v s := by
  rw [← readsAs_eq_some_iff v indent s]
  cases readsAs v indent s with
  | none => simp
  | some text => simp

/-- A string is read back as itself, from a mapping's value, a sequence's item or an
element of a flow sequence, and a list as itself, exactly when every character is
one that the reader's version takes as it is written. -/
theorem readsBack_iff (v : Version) (indent : Nat) :
    (∀ (s : String) (f : Following v .mappingValue indent),
      readNode v .mappingValue indent (' ' :: ((yamlScalar s).toList ++ f.text)) =
        some (.string s, f.text) ↔ ∀ c ∈ s.toList, readable v c = true) ∧
    (∀ (s : String) (f : Following v .sequenceItem indent),
      readNode v .sequenceItem indent (' ' :: ((yamlScalar s).toList ++ f.text)) =
        some (.string s, f.text) ↔ ∀ c ∈ s.toList, readable v c = true) ∧
    (∀ (s : String) (f : Following v .flowElement indent),
      readScalar v .flowElement indent ((yamlScalar s).toList ++ f.text) =
        some (.string s, f.text) ↔ ∀ c ∈ s.toList, readable v c = true) ∧
    (∀ (items : List String) (f : Following v .mappingValue indent),
      readSequence v indent (' ' :: ((yamlList items).toList ++ f.text)) =
        some (items.map .string, f.text) ↔ ∀ s ∈ items, ∀ c ∈ s.toList, readable v c = true) := by
  refine ⟨?_, ?_, ?_, ?_⟩
  · intro s f
    rw [readNode_yamlScalar f s]
    exact map_readsAs_iff v indent s f.text
  · intro s f
    rw [readNode_yamlScalar f s]
    exact map_readsAs_iff v indent s f.text
  · intro s f
    rw [readScalar_yamlScalar f s]
    exact map_readsAs_iff v indent s f.text
  · intro items f
    have hinjective : ∀ a b : String, Lib.Yaml.Value.string a = Lib.Yaml.Value.string b → a = b :=
      fun a b h => Lib.Yaml.Value.string.inj h
    have hitems := mapM_readsAs_iff v indent items
    rw [readSequence_yamlList f items]
    cases htexts : items.mapM (readsAs v indent) with
    | none =>
      rw [htexts] at hitems
      simpa [Readable] using hitems
    | some texts =>
      rw [htexts, Option.some_inj] at hitems
      simp only [Option.map_some, Option.some_inj, Prod.mk.injEq, and_true,
        List.map_inj_right hinjective]
      exact hitems

/-- A `NEL` in a title is folded away, or is no part of the line. -/
theorem not_readsBack :
    ¬ ∀ (v : Version) (indent : Nat) (s : String) (f : Following v .mappingValue indent),
      readNode v .mappingValue indent (' ' :: ((yamlScalar s).toList ++ f.text)) =
        some (.string s, f.text) := by
  intro h
  have hfolded := h .v1_1 0 "Budget\u0085  review" ⟨['\n'], by decide⟩
  exact absurd hfolded (by decide +kernel)

end MarkdownExporter
end Panops
