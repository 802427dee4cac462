import Panops.App.HttpResponse
import Panops.Lib.Fences

/-!
# A response and its pieces

What a server writes as a response is read as that however it is cut, unless more of its
header than the limit comes before its end.
-/

namespace Panops
namespace App
namespace Http

open Lib.Decimal Lib.Fences Lib.Occurrences Lib.Text

/-! ## What a server writes -/

structure Field where
  name : List Char
  value : List Char
  name_ne_nil : name ≠ []
  colon_not_mem : ':' ∉ name
  name_no_return : '\r' ∉ name
  value_no_return : '\r' ∉ value

def Field.line (f : Field) : List Char := f.name ++ ':' :: f.value

def Field.IsContentLength (f : Field) : Prop := f.name.map Char.toLower ++ [':'] = contentLengthName

/-- A response with any fields, of which the last `Content-Length` has the length of the
body, with blanks around it. -/
structure Response where
  status : Nat
  reason : List Char
  before : List Field
  lengthName : List Char
  blanksBefore : List Char
  blanksAfter : List Char
  after : List Field
  body : List UInt8
  status_lt : status < 2 ^ 63
  body_lt : body.length < 2 ^ 63
  reason_no_return : '\r' ∉ reason
  lengthName_isContentLength : lengthName.map Char.toLower ++ [':'] = contentLengthName
  blanks : ∀ c ∈ blanksBefore ++ blanksAfter, c = ' ' ∨ c = '\t'
  other : ∀ f ∈ after, ¬ f.IsContentLength

def version : List Char := ['H', 'T', 'T', 'P', '/', '1', '.', '1']

namespace Response

def statusLine (r : Response) : List Char :=
  version ++ ' ' :: digits r.status ++ ' ' :: r.reason

def lengthLine (r : Response) : List Char :=
  r.lengthName ++ ':' :: (r.blanksBefore ++ (digits r.body.length ++ r.blanksAfter))

def headerLines (r : Response) : List (List Char) :=
  r.before.map Field.line ++ r.lengthLine :: r.after.map Field.line

/-- Each further line after a line end. -/
def headerText (r : Response) : List Char :=
  r.statusLine ++ r.headerLines.flatMap fun line => '\r' :: '\n' :: line

def head (r : Response) : List UInt8 := encode r.headerText

def bytes (r : Response) : List UInt8 := r.head ++ separator ++ r.body

end Response

/-! ## Lines -/

theorem components_cons {c : Char} (h : c ≠ '\r') (rest : List Char) :
    components (c :: rest) = (components rest).modifyHead (c :: ·) := by
  cases rest with
  | nil => rfl
  | cons d rest =>
    rw [components]
    intro hreturn
    exact absurd hreturn h

theorem components_break (rest : List Char) :
    components ('\r' :: '\n' :: rest) = [] :: components rest := rfl

theorem components_append {line : List Char} (h : '\r' ∉ line) (rest : List Char) :
    components (line ++ rest) = (components rest).modifyHead (line ++ ·) := by
  induction line with
  | nil =>
    rw [List.nil_append]
    cases components rest <;> rfl
  | cons c line ih =>
    have hc : c ≠ '\r' := fun heq => h (heq ▸ List.mem_cons_self)
    rw [List.cons_append, components_cons hc, ih fun hmem => h (List.mem_cons_of_mem c hmem)]
    cases components rest <;> rfl

theorem components_lines {first : List Char} {lines : List (List Char)} (hfirst : '\r' ∉ first)
    (hlines : ∀ line ∈ lines, '\r' ∉ line) :
    components (first ++ lines.flatMap fun line => '\r' :: '\n' :: line) = first :: lines := by
  induction lines generalizing first with
  | nil =>
    rw [List.flatMap_nil, components_append hfirst]
    exact congrArg (· :: []) (List.append_nil first)
  | cons line lines ih =>
    rw [List.flatMap_cons, List.cons_append, List.cons_append, components_append hfirst,
      components_break, ih (hlines line List.mem_cons_self) fun other hmem =>
        hlines other (List.mem_cons_of_mem line hmem)]
    exact congrArg (· :: line :: lines) (List.append_nil first)

/-! ## Bytes -/

/-- Only a carriage return has its byte. -/
theorem eq_return_of_mem_utf8EncodeChar {c : Char} (h : 13 ∈ String.utf8EncodeChar c) :
    c = '\r' := by
  have hval : c.val.toNat = 13 := by
    unfold String.utf8EncodeChar at h
    simp only at h
    have hbyte : ∀ n, (13 : UInt8) = UInt8.ofNat n → n % 256 = 13 := by
      intro n heq
      have htoNat := congrArg UInt8.toNat heq
      rw [UInt8.toNat_ofNat'] at htoNat
      exact htoNat.symm
    split at h
    · have heq := hbyte _ (List.mem_singleton.mp h)
      omega
    split at h
    · simp only [List.mem_cons, List.not_mem_nil, or_false] at h
      rcases h with h | h
      · have heq := hbyte _ h
        omega
      · have heq := hbyte _ h
        omega
    split at h
    · simp only [List.mem_cons, List.not_mem_nil, or_false] at h
      rcases h with h | h | h
      · have heq := hbyte _ h
        omega
      · have heq := hbyte _ h
        omega
      · have heq := hbyte _ h
        omega
    · simp only [List.mem_cons, List.not_mem_nil, or_false] at h
      rcases h with h | h | h | h
      · have heq := hbyte _ h
        omega
      · have heq := hbyte _ h
        omega
      · have heq := hbyte _ h
        omega
      · have heq := hbyte _ h
        omega
  apply Char.ext
  apply UInt32.toNat_inj.mp
  exact hval

theorem return_not_mem_encode {s : List Char} (h : '\r' ∉ s) : 13 ∉ encode s := by
  intro hmem
  obtain ⟨c, hc, hbyte⟩ := List.mem_flatMap.mp hmem
  rw [eq_return_of_mem_utf8EncodeChar hbyte] at hc
  exact h hc

/-- The bytes of a text with something in it do not begin with the byte of a return. -/
theorem rangeOf_break {line : List Char} (hne : line ≠ []) (h : '\r' ∉ line) (more : List UInt8) :
    rangeOf separator (13 :: 10 :: (encode line ++ more)) =
      (rangeOf separator (encode line ++ more)).map (· + 2) := by
  have hbytes : encode line ≠ [] := by
    cases line with
    | nil => exact absurd rfl hne
    | cons c line =>
      obtain ⟨b, bs, hc, -⟩ := exists_utf8EncodeChar c
      rw [encode_cons, hc]
      exact List.cons_ne_nil _ _
  obtain ⟨b, bs, hb⟩ := List.exists_cons_of_ne_nil hbytes
  have hfirst : (13 : UInt8) ≠ b := by
    intro heq
    apply return_not_mem_encode h
    rw [hb, heq]
    exact List.mem_cons_self
  rw [hb, List.cons_append, rangeOf_cons_later, rangeOf_cons_later,
    Option.map_map]
  · rfl
  · intro hhere
    have hten := (List.cons_prefix_cons.mp hhere).1
    revert hten
    decide
  · intro hhere
    have hrest := (List.cons_prefix_cons.mp (List.cons_prefix_cons.mp hhere).2).2
    exact hfirst (List.cons_prefix_cons.mp hrest).1

/-- The separator is not found inside the header. -/
theorem rangeOf_lines {first : List Char} {lines : List (List Char)} (hfirst : '\r' ∉ first)
    (hlines : ∀ line ∈ lines, line ≠ [] ∧ '\r' ∉ line) :
    rangeOf separator
        (encode (first ++ lines.flatMap fun line => '\r' :: '\n' :: line) ++ separator) =
      some (encode (first ++ lines.flatMap fun line => '\r' :: '\n' :: line)).length := by
  induction lines generalizing first with
  | nil =>
    rw [List.flatMap_nil, List.append_nil,
      show separator = 13 :: [10, 13, 10] from rfl,
      rangeOf_append_of_not_mem (return_not_mem_encode hfirst),
      rangeOf_cons_here (List.prefix_refl _), Option.map_some, Nat.zero_add]
  | cons line lines ih =>
    obtain ⟨hne, hline⟩ := hlines line List.mem_cons_self
    have hrest := ih hline fun other hmem => hlines other (List.mem_cons_of_mem line hmem)
    have hbytes : encode (first ++ (line :: lines).flatMap fun line => '\r' :: '\n' :: line) =
        encode first ++ 13 :: 10 ::
          encode (line ++ lines.flatMap fun line => '\r' :: '\n' :: line) := by
      rw [encode_append]
      rfl
    have hpassed : rangeOf separator (encode first ++ (13 :: 10 ::
        (encode (line ++ lines.flatMap fun line => '\r' :: '\n' :: line) ++ separator))) =
        (rangeOf separator (13 :: 10 :: (encode (line ++ lines.flatMap fun line =>
          '\r' :: '\n' :: line) ++ separator))).map (· + (encode first).length) :=
      rangeOf_append_of_not_mem (return_not_mem_encode hfirst) _
    rw [hbytes, List.append_assoc, List.cons_append, List.cons_append, hpassed, encode_append,
      List.append_assoc, rangeOf_break hne hline, ← List.append_assoc, ← encode_append, hrest,
      Option.map_some, Option.map_some, List.length_append, List.length_cons, List.length_cons]
    congr 1
    omega

/-! ## What is read of a header -/

theorem utf8_encode (s : List Char) : utf8 (encode s) = some (String.ofList s) := by
  have hbytes : (⟨(encode s).toArray⟩ : ByteArray) = (String.ofList s).toByteArray := by
    rw [String.toByteArray_ofList]
    apply ByteArray.ext
    exact (List.data_toByteArray).symm
  rw [utf8, hbytes, String.fromUTF8?, dif_pos (String.ofList s).isValidUTF8]
  rfl

theorem int_digits {n : Nat} (h : n < 2 ^ 63) : int (digits n) = some (n : Int) := by
  have hall : ∀ c ∈ digits n, c.isDigit = true := fun c hc => isDigit_of_mem_digits hc
  unfold int
  split
  · next ds heq =>
    have hminus := hall '-' (by rw [heq]; exact List.mem_cons_self)
    exact absurd hminus (by decide)
  · next ds heq =>
    have hplus := hall '+' (by rw [heq]; exact List.mem_cons_self)
    exact absurd hplus (by decide)
  · rw [signed, if_pos ⟨digits_ne_nil n, List.all_eq_true.mpr hall⟩, value_digits]
    exact if_pos (by simp only [Bool.false_eq_true, if_false]; omega)

theorem isSpace_eq_false_of_isDigit {c : Char} (h : c.isDigit = true) :
    Markdown.isSpace c = false := by
  simp only [Char.isDigit, Bool.and_eq_true, decide_eq_true_eq] at h
  have hlow : 48 ≤ c.toNat := h.1
  have hhigh : c.toNat ≤ 57 := h.2
  simp only [Markdown.isSpace, Bool.or_eq_false_iff, beq_eq_false_iff_ne, Bool.and_eq_false_iff,
    decide_eq_false_iff_not]
  omega

theorem trimOf_eq_self {p : Char → Bool} {s : List Char} (h : ∀ c ∈ s, p c = false) :
    trimOf p s = s := by
  have hkeep : ∀ {l : List Char}, (∀ c ∈ l, p c = false) → l.dropWhile p = l := by
    intro l hl
    cases l with
    | nil => rfl
    | cons c l => exact List.dropWhile_cons_of_neg (by simp [hl c List.mem_cons_self])
  rw [trimOf, hkeep h, hkeep fun c hc => h c (List.mem_reverse.mp hc), List.reverse_reverse]

theorem isSpace_of_blank {c : Char} (h : c = ' ' ∨ c = '\t') : Markdown.isSpace c = true := by
  rcases h with rfl | rfl <;> decide

theorem contentLengthOf_length {name before after : List Char} {n : Nat}
    (hname : name.map Char.toLower ++ [':'] = contentLengthName)
    (hblanks : ∀ c ∈ before ++ after, c = ' ' ∨ c = '\t') (hn : n < 2 ^ 63) :
    contentLengthOf (name ++ ':' :: (before ++ (digits n ++ after))) = some (n : Int) := by
  have hlower : (name ++ ':' :: (before ++ (digits n ++ after))).map Char.toLower =
      contentLengthName ++ (before ++ (digits n ++ after)).map Char.toLower := by
    rw [← hname, List.map_append, List.append_assoc]
    rfl
  have hlength : contentLengthName.length = (name ++ [':']).length := by
    rw [← hname]
    simp
  have hdrop : (name ++ ':' :: (before ++ (digits n ++ after))).drop contentLengthName.length =
      before ++ (digits n ++ after) := by
    rw [hlength, show name ++ ':' :: (before ++ (digits n ++ after)) =
      (name ++ [':']) ++ (before ++ (digits n ++ after)) by simp, List.drop_left]
  have hbefore : ∀ c ∈ before, Markdown.isSpace c = true := fun c hc =>
    isSpace_of_blank (hblanks c (List.mem_append_left _ hc))
  have hafter : ∀ c ∈ after, Markdown.isSpace c = true := fun c hc =>
    isSpace_of_blank (hblanks c (List.mem_append_right _ hc))
  have hdigit : ∀ c ∈ digits n, Markdown.isSpace c = false := fun c hc =>
    isSpace_eq_false_of_isDigit (isDigit_of_mem_digits hc)
  rw [contentLengthOf, hlower, if_pos (List.isPrefixOf_iff_prefix.mpr (List.prefix_append _ _)),
    hdrop, trimOf_append_left hbefore, trimOf_append_right hafter, trimOf_eq_self hdigit,
    int_digits hn]
  rfl

theorem toLower_eq_colon {c : Char} (h : c.toLower = ':') : c = ':' := by
  unfold Char.toLower at h
  split at h
  · next hupper =>
    have hval := congrArg (fun c => c.val.toNat) h
    have hlow : 65 ≤ c.val.toNat := UInt32.le_iff_toNat_le.mp hupper.1
    have hhigh : c.val.toNat ≤ 90 := UInt32.le_iff_toNat_le.mp hupper.2
    simp only [UInt32.toNat_add] at hval
    replace hval : (c.val.toNat + 32) % 2 ^ 32 = 58 := hval
    omega
  · exact h

/-- The name goes up to the first colon. -/
theorem contentLengthOf_other {f : Field} (h : ¬ f.IsContentLength) :
    contentLengthOf f.line = none := by
  have hcolon : ':' ∉ f.name.map Char.toLower := by
    intro hmem
    obtain ⟨c, hc, hlower⟩ := List.mem_map.mp hmem
    exact f.colon_not_mem (toLower_eq_colon hlower ▸ hc)
  let base := contentLengthName.dropLast
  have hwhole : contentLengthName = base ++ [':'] := by decide
  have hbase : ':' ∉ base := by decide
  rw [contentLengthOf, if_neg]
  intro hhere
  apply h
  obtain ⟨more, hmore⟩ := List.isPrefixOf_iff_prefix.mp hhere
  have hline : f.line.map Char.toLower =
      f.name.map Char.toLower ++ ':' :: f.value.map Char.toLower := List.map_append
  have hname : contentLengthName ++ more = base ++ ':' :: more := by
    rw [hwhole, List.append_assoc, List.singleton_append]
  have hwhile := congrArg (List.takeWhile (· ≠ ':')) hmore
  rw [hline, hname, takeWhile_line hbase, takeWhile_line hcolon] at hwhile
  rw [Field.IsContentLength, ← hwhile, hwhole]

theorem contentLength_of_lines (r : Response) :
    r.headerLines.foldl (fun n line => (contentLengthOf line).getD n) 0 = r.body.length := by
  have hskip : ∀ (fields : List Field) (n : Int), (∀ f ∈ fields, ¬ f.IsContentLength) →
      (fields.map Field.line).foldl (fun n line => (contentLengthOf line).getD n) n = n := by
    intro fields
    induction fields with
    | nil => exact fun _ _ => rfl
    | cons f fields ih =>
      intro n hfields
      rw [List.map_cons, List.foldl_cons, contentLengthOf_other (hfields f List.mem_cons_self)]
      exact ih n fun other hmem => hfields other (List.mem_cons_of_mem f hmem)
  rw [Response.headerLines, List.foldl_append, List.foldl_cons, Response.lengthLine,
    contentLengthOf_length r.lengthName_isContentLength r.blanks r.body_lt, Option.getD_some]
  exact hskip _ _ r.other

theorem words_statusLine (r : Response) : ∃ more,
    words r.statusLine = version :: digits r.status :: more := by
  have hversion : ' ' ∉ version := by decide
  have hdigits : ' ' ∉ digits r.status := fun hmem =>
    absurd (isDigit_of_mem_digits hmem) (by decide)
  refine ⟨(r.reason.splitOn ' ').filter (· ≠ []), ?_⟩
  rw [words, Response.statusLine, List.append_assoc, List.cons_append,
    List.splitOn_append_cons_self_of_not_mem hversion,
    List.splitOn_append_cons_self_of_not_mem hdigits,
    List.filter_cons_of_pos (by decide),
    List.filter_cons_of_pos (by simpa using digits_ne_nil r.status)]

theorem statusLine_no_return (r : Response) : '\r' ∉ r.statusLine := by
  have hdigits : '\r' ∉ digits r.status := fun hmem =>
    absurd (isDigit_of_mem_digits hmem) (by decide)
  rw [Response.statusLine, List.mem_append, List.mem_append]
  rintro ((hversion | hstatus) | hreason)
  · revert hversion
    decide
  · cases List.mem_cons.mp hstatus with
    | inl h => cases h
    | inr h => exact hdigits h
  · cases List.mem_cons.mp hreason with
    | inl h => cases h
    | inr h => exact r.reason_no_return h

theorem Field.line_no_return (f : Field) : f.line ≠ [] ∧ '\r' ∉ f.line := by
  refine ⟨List.append_ne_nil_of_left_ne_nil f.name_ne_nil _, ?_⟩
  simp [Field.line, f.name_no_return, f.value_no_return]

theorem lengthLine_no_return (r : Response) : r.lengthLine ≠ [] ∧ '\r' ∉ r.lengthLine := by
  refine ⟨List.append_ne_nil_of_right_ne_nil _ (List.cons_ne_nil _ _), ?_⟩
  have hdigits : '\r' ∉ digits r.body.length := fun hmem =>
    absurd (isDigit_of_mem_digits hmem) (by decide)
  have hname : '\r' ∉ r.lengthName := by
    intro hmem
    have hlower : Char.toLower '\r' ∈ r.lengthName.map Char.toLower ++ [':'] :=
      List.mem_append_left _ (List.mem_map_of_mem hmem)
    rw [r.lengthName_isContentLength] at hlower
    revert hlower
    decide
  have hblanks : '\r' ∉ r.blanksBefore ++ r.blanksAfter := fun hmem =>
    absurd (r.blanks _ hmem) (by decide)
  rw [List.mem_append, not_or] at hblanks
  simp [Response.lengthLine, hname, hdigits, hblanks]

theorem headerLines_no_return (r : Response) :
    ∀ line ∈ r.headerLines, line ≠ [] ∧ '\r' ∉ line := by
  have hfields : ∀ (fields : List Field), ∀ line ∈ fields.map Field.line,
      line ≠ [] ∧ '\r' ∉ line := by
    intro fields line hmem
    obtain ⟨f, -, rfl⟩ := List.mem_map.mp hmem
    exact f.line_no_return
  intro line hmem
  cases List.mem_append.mp hmem with
  | inl hbefore => exact hfields _ line hbefore
  | inr hrest =>
    cases List.mem_cons.mp hrest with
    | inl heq => exact heq ▸ lengthLine_no_return r
    | inr hafter => exact hfields _ line hafter

theorem parseHead_head (r : Response) :
    parseHead r.head = .ok ((r.status : Int), (r.body.length : Int)) := by
  obtain ⟨more, hwords⟩ := words_statusLine r
  rw [parseHead, Response.head, utf8_encode]
  simp only [String.toList_ofList, Response.headerText]
  rw [components_lines (statusLine_no_return r)
    fun line hline => (headerLines_no_return r line hline).2]
  simp only [hwords, int_digits r.status_lt, contentLength_of_lines]

theorem rangeOf_head (r : Response) :
    rangeOf separator (r.head ++ separator) = some r.head.length :=
  rangeOf_lines (statusLine_no_return r) (headerLines_no_return r)

/-- The bytes of the header with the line ends that close it. -/
def Response.headerBytes (r : Response) : Nat := r.head.length + separator.length

theorem readHttpResponse_bytes (r : Response) {pieces : List (List UInt8)} {rest : List UInt8}
    (hfits : ¬ Overflows r.headerBytes [] pieces) (hrest : rest <+: r.body)
    (hflatten : pieces.flatten = r.head ++ separator ++ rest) :
    readHttpResponse [] pieces =
      if r.body.length ≤ rest.length then .ok ((r.status : Int), rest)
      else .error .disconnected := by
  rw [readHttpResponse_eq (rangeOf_head r) _ [] rfl hfits hflatten, parseHead_head]
  · simp only [Int.ofNat_le]
  · intro status n hparsed
    rw [parseHead_head] at hparsed
    have hn := (Prod.mk.inj (Except.ok.inj hparsed)).2
    have hlength := hrest.length_le
    omega

/-- Nothing is taken of a response that breaks off. -/
theorem readHttpResponse_prefix (r : Response) {pieces : List (List UInt8)}
    (hfits : ¬ Overflows r.headerBytes [] pieces) (hhere : pieces.flatten <+: r.bytes)
    (hne : pieces.flatten ≠ r.bytes) : readHttpResponse [] pieces = .error .disconnected := by
  obtain ⟨missing, hmissing⟩ := hhere
  by_cases hinside : pieces.flatten.length < r.headerBytes
  · have htake : pieces.flatten = (r.head ++ separator ++ r.body).take pieces.flatten.length := by
      rw [← Response.bytes, ← hmissing, List.take_left]
    refine readHttpResponse_open [] ?_ hfits hinside
    rw [List.nil_append, htake]
    exact rangeOf_take_eq_none (rangeOf_append (rangeOf_head r) r.body) hinside
  · obtain ⟨rest, hrest⟩ : r.head ++ separator <+: pieces.flatten := by
      have hbytes : r.head ++ separator <+: r.bytes := List.prefix_append _ r.body
      apply List.prefix_of_prefix_length_le hbytes ⟨missing, hmissing⟩
      rw [List.length_append]
      exact Nat.le_of_not_lt hinside
    have hbody : rest ++ missing = r.body := by
      rw [← hrest, Response.bytes, List.append_assoc] at hmissing
      exact List.append_cancel_left hmissing
    have hshort : rest.length < r.body.length := by
      rw [← hbody, List.length_append]
      have hpos : missing ≠ [] := by
        rintro rfl
        rw [List.append_nil] at hmissing
        exact hne hmissing
      have hlength := List.length_pos_of_ne_nil hpos
      omega
    rw [readHttpResponse_bytes r hfits ⟨missing, hbody⟩ hrest.symm, if_neg (by omega)]

/-- What has come of a response, in any pieces: it is given up as too long when more of the
header than the limit has come before its end, and otherwise it is read as what the server
answers, or as broken off when something is missing.  Every cutting is read just when the
header closes within the limit. -/
theorem readHttpResponse_iff (r : Response) :
    (∀ pieces, pieces.flatten <+: r.bytes →
      (Overflows r.headerBytes [] pieces → readHttpResponse [] pieces = .error headerTooLong) ∧
      (¬ Overflows r.headerBytes [] pieces → pieces.flatten = r.bytes →
        readHttpResponse [] pieces = .ok ((r.status : Int), r.body)) ∧
      (¬ Overflows r.headerBytes [] pieces → pieces.flatten ≠ r.bytes →
        readHttpResponse [] pieces = .error .disconnected)) ∧
    ((∀ pieces, pieces.flatten = r.bytes →
        readHttpResponse [] pieces = .ok ((r.status : Int), r.body)) ↔
      r.headerBytes ≤ maxHeaderBytes + 1) := by
  have hread : ∀ pieces, ¬ Overflows r.headerBytes [] pieces → pieces.flatten = r.bytes →
      readHttpResponse [] pieces = .ok ((r.status : Int), r.body) := by
    intro pieces hfits hflatten
    rw [readHttpResponse_bytes r hfits (List.prefix_refl _) hflatten, if_pos (Nat.le_refl _)]
  have htooLong : ∀ pieces, pieces.flatten <+: r.bytes → Overflows r.headerBytes [] pieces →
      readHttpResponse [] pieces = .error headerTooLong := fun pieces hhere hover =>
    readHttpResponse_overflows (rangeOf_head r) [] (Nat.zero_le _) hhere hover
  refine ⟨fun pieces hhere => ⟨htooLong pieces hhere, hread pieces,
    fun hfits => readHttpResponse_prefix r hfits hhere⟩, fun hall => ?_,
    fun hsize pieces hflatten => ?_⟩
  · by_contra hlarge
    -- The limit and one byte more come first.
    have hcut : [r.bytes.take (maxHeaderBytes + 1), r.bytes.drop (maxHeaderBytes + 1)].flatten =
        r.bytes := by simp
    have hbytes : r.headerBytes ≤ r.bytes.length := by
      rw [Response.bytes, Response.headerBytes, List.length_append, List.length_append]
      omega
    have hover : Overflows r.headerBytes []
        [r.bytes.take (maxHeaderBytes + 1), r.bytes.drop (maxHeaderBytes + 1)] := by
      refine ⟨1, ?_⟩
      simp only [List.take_succ_cons, List.take_zero, List.flatten_cons, List.flatten_nil,
        List.append_nil, List.nil_append, List.length_take]
      omega
    have hhere : [r.bytes.take (maxHeaderBytes + 1), r.bytes.drop (maxHeaderBytes + 1)].flatten <+:
        r.bytes := by
      simp only [hcut, List.prefix_refl]
    have hok := hall _ hcut
    rw [htooLong _ hhere hover] at hok
    cases hok
  · refine hread pieces ?_ hflatten
    rintro ⟨k, hlarge, hinside⟩
    omega

/-- The answer to a ping, as the engine sends it. -/
def pong : Response where
  status := 200
  reason := ['O', 'K']
  before := [⟨"content-type".toList, " text/plain".toList, by decide, by decide, by decide,
    by decide⟩]
  lengthName := "Content-Length".toList
  blanksBefore := [' ']
  blanksAfter := []
  after := [⟨"connection".toList, "close".toList, by decide, by decide, by decide, by decide⟩]
  body := [123, 125]
  status_lt := by decide
  body_lt := by decide
  reason_no_return := by decide
  lengthName_isContentLength := by decide
  blanks c hc := Or.inl (List.mem_singleton.mp hc)
  other f hf := by
    rw [List.mem_singleton.mp hf, Field.IsContentLength]
    decide +kernel

theorem readHttpResponse_iff_pong :
    readHttpResponse [] [pong.bytes.take 30, pong.bytes.drop 30] =
        .ok ((pong.status : Int), pong.body) ∧
      readHttpResponse [] [pong.bytes.take 30] = .error .disconnected := by
  have hsize : pong.headerBytes ≤ maxHeaderBytes := by decide +kernel
  have hshort : ¬ Overflows pong.headerBytes [] [pong.bytes.take 30] := by
    rintro ⟨k, hlarge, hinside⟩
    omega
  obtain ⟨hpieces, hwhole⟩ := readHttpResponse_iff pong
  have hprefix : [pong.bytes.take 30].flatten <+: pong.bytes := by
    rw [List.flatten_cons, List.flatten_nil, List.append_nil]
    exact List.take_prefix 30 pong.bytes
  have hfits : pong.headerBytes ≤ maxHeaderBytes + 1 := by omega
  have hcut := (hpieces _ hprefix).2.2 hshort
  constructor
  · apply hwhole.mpr hfits
    rw [List.flatten_cons, List.flatten_cons, List.flatten_nil, List.append_nil,
      List.take_append_drop]
  · apply hcut
    intro heq
    have hbytes : 30 < pong.bytes.length := by decide +kernel
    have htaken := congrArg List.length heq
    rw [List.flatten_cons, List.flatten_nil, List.append_nil, List.length_take] at htaken
    omega

end Http
end App
end Panops
