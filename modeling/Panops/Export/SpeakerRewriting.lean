import Panops.Export.Speakers
import Panops.Lib.ByteSlices

/-!
# Rewriting speakers in a text

`humanize_speakers_in_text` by byte offsets, as the exporter runs it, and the rewriting
from left to right that it amounts to.
-/

namespace Panops

open Lib.Text Lib.Decimal

namespace MarkdownExporter

/-- One match, at a byte offset.  There is no result where a slice is cut inside a
character; the state is the text written and `last`. -/
def rewriteStep (text : List Char) (st : List Char × Nat) (start : Nat) :
    Option (List Char × Nat) :=
  if start < st.2 then some st
  else do
    let kept ← sliceBytes text st.2 start
    let numStart := start + byteLength speakerPattern
    let rest ← dropBytes text numStart
    let digitsLen := ((encode rest).takeWhile isAsciiDigit).length
    let number ← sliceBytes text numStart (numStart + digitsLen)
    match if digitsLen = 0 then none else parseU32 number with
    | some id => some (st.1 ++ kept ++ (speakerName id).toList, numStart + digitsLen)
    | none => some (st.1 ++ kept ++ speakerPattern, numStart)

/-- `humanize_speakers_in_text`, unless a slice panics. -/
def humanizeSpeakersInBytes (text : List Char) : Option (List Char) := do
  let starts := (matchIndices speakerPattern text).map (byteOffset text)
  let st ← starts.foldlM (rewriteStep text) ([], 0)
  let tail ← dropBytes text st.2
  some (st.1 ++ tail)

/-! ## No slice is cut inside a character -/

section Bytes

variable {text : List Char} {start : Nat}

theorem length_le_of_match (h : speakerPattern <+: text.drop start) :
    start + speakerPattern.length ≤ text.length := by
  have hle := h.length_le
  rw [List.length_drop] at hle
  have hpos : 0 < speakerPattern.length := by decide
  omega

theorem byteOffset_match (h : speakerPattern <+: text.drop start) :
    byteOffset text (start + speakerPattern.length) =
      byteOffset text start + byteLength speakerPattern := by
  rw [byteOffset_add, ← List.prefix_iff_eq_take.mp h]

theorem byteOffset_digits (text : List Char) (start : Nat) :
    byteOffset text (start + speakerPattern.length + (digitsAfter text start).length) =
      byteOffset text (start + speakerPattern.length) + (digitsAfter text start).length := by
  have hdigits : (text.drop (start + speakerPattern.length)).take (digitsAfter text start).length =
      digitsAfter text start := (List.prefix_iff_eq_take.mp (List.takeWhile_prefix _)).symm
  rw [byteOffset_add, hdigits, byteLength_eq_length]
  exact fun c hc => toNat_le_of_isDigit (isDigit_of_mem_digitsAfter c hc)

/-- The loop over bytes does what the loop over characters does. -/
theorem rewriteStep_byteOffset {st : Humanizer} (hmatch : speakerPattern <+: text.drop start)
    (hlast : st.last ≤ text.length) :
    rewriteStep text (st.result, byteOffset text st.last) (byteOffset text start) =
      some ((humanizeStep text st start).result,
        byteOffset text (humanizeStep text st start).last) ∧
      (humanizeStep text st start).last ≤ text.length := by
  have hend := length_le_of_match hmatch
  have hpos : 0 < speakerPattern.length := by decide
  have hlt : byteOffset text start < byteOffset text st.last ↔ start < st.last :=
    byteOffset_lt_iff (by omega)
  by_cases hskip : start < st.last
  · rw [rewriteStep, if_pos (hlt.mpr hskip), humanizeStep, if_pos hskip]
    exact ⟨rfl, hlast⟩
  obtain ⟨n, rfl⟩ := Nat.exists_eq_add_of_le (Nat.le_of_not_lt hskip)
  have hkept := sliceBytes_byteOffset text st.last n
  have hrest := dropBytes_byteOffset text (st.last + n + speakerPattern.length)
  have hnumber := sliceBytes_byteOffset text (st.last + n + speakerPattern.length)
    (digitsAfter text (st.last + n)).length
  have htake : ((text.drop (st.last + n + speakerPattern.length)).take
      (digitsAfter text (st.last + n)).length) = digitsAfter text (st.last + n) :=
    (List.prefix_iff_eq_take.mp (List.takeWhile_prefix _)).symm
  have hlen : ((text.drop (st.last + n + speakerPattern.length)).takeWhile Char.isDigit).length =
      (digitsAfter text (st.last + n)).length := rfl
  have hbetween : (text.take (st.last + n)).drop st.last = (text.drop st.last).take n := by
    rw [List.drop_take, Nat.add_sub_cancel_left]
  have hdigits : st.last + n + speakerPattern.length + (digitsAfter text (st.last + n)).length ≤
      text.length := by
    have hle : (digitsAfter text (st.last + n)).length ≤
        (text.drop (st.last + n + speakerPattern.length)).length :=
      (List.takeWhile_prefix _).length_le
    rw [List.length_drop] at hle
    omega
  rw [rewriteStep, if_neg (mt hlt.mp hskip), hkept, Option.bind_eq_bind, Option.bind_some,
    ← byteOffset_match hmatch]
  simp only [hrest, Option.bind_some, length_takeWhile_encode, hlen,
    ← byteOffset_digits, hnumber, htake]
  rw [humanizeStep, if_neg hskip, hbetween]
  have href : (if (digitsAfter text (st.last + n)).length = 0 then none
      else parseU32 (digitsAfter text (st.last + n))) = referenceAt text (st.last + n) := by
    rw [referenceAt]
    simp only [List.length_eq_zero_iff]
  rw [href]
  cases referenceAt text (st.last + n) with
  | some id => exact ⟨rfl, hdigits⟩
  | none => exact ⟨rfl, hend⟩

theorem humanizeSpeakersInBytes_eq (text : String) :
    humanizeSpeakersInBytes text.toList = some (humanizeSpeakersInText text).toList := by
  have hfold : ∀ (starts : List Nat) (st : Humanizer),
      (∀ i ∈ starts, speakerPattern <+: text.toList.drop i) → st.last ≤ text.toList.length →
      (starts.map (byteOffset text.toList)).foldlM (rewriteStep text.toList)
          (st.result, byteOffset text.toList st.last) =
        some ((starts.foldl (humanizeStep text.toList) st).result,
          byteOffset text.toList (starts.foldl (humanizeStep text.toList) st).last) := by
    intro starts
    induction starts with
    | nil => exact fun st _ _ => rfl
    | cons start starts ih =>
      intro st hmatch hlast
      obtain ⟨hstep, hnext⟩ := rewriteStep_byteOffset (hmatch start List.mem_cons_self) hlast
      rw [List.map_cons, List.foldlM_cons, hstep, Option.bind_eq_bind, Option.bind_some,
        ih _ (fun i hi => hmatch i (List.mem_cons_of_mem start hi)) hnext, List.foldl_cons]
  have hall := hfold (matchIndices speakerPattern text.toList) ⟨[], 0, []⟩
    (fun i hi => (mem_matchIndices speakerPattern_ne_nil unbordered_speakerPattern).mp hi)
    (Nat.zero_le _)
  have hzero : byteOffset text.toList 0 = 0 := rfl
  rw [hzero] at hall
  rw [humanizeSpeakersInBytes, hall, Option.bind_eq_bind, Option.bind_some, dropBytes_byteOffset,
    Option.bind_eq_bind, Option.bind_some, humanizeSpeakersInText, String.toList_ofList]
  rfl

end Bytes

/-! ## The rewriting -/

/-- The text begins with a reference: the pattern, a maximal run of digits that is not
empty, and a value that fits. -/
structure Reference (digits rest : List Char) : Prop where
  ne_nil : digits ≠ []
  isDigit : ∀ c ∈ digits, c.isDigit = true
  maximal : ∀ c, rest.head? = some c → c.isDigit = false
  fits : value digits < 2 ^ 32

def StartsWithReference (text : List Char) : Prop :=
  ∃ digits rest, text = speakerPattern ++ (digits ++ rest) ∧ Reference digits rest

/-- From left to right: a reference is replaced, any other character is kept. -/
inductive Rewrites : List Char → List Char → Prop
  | nil : Rewrites [] []
  | reference {digits rest out : List Char} (h : Reference digits rest) (hrest : Rewrites rest out) :
      Rewrites (speakerPattern ++ (digits ++ rest))
        ((speakerName (UInt32.ofNat (value digits))).toList ++ out)
  | keep {c : Char} {rest out : List Char} (h : ¬ StartsWithReference (c :: rest))
      (hrest : Rewrites rest out) : Rewrites (c :: rest) (c :: out)

section Rewriting

variable {text rest out out' digits : List Char} {c : Char}

theorem Reference.takeWhile (h : Reference digits rest) :
    (digits ++ rest).takeWhile Char.isDigit = digits :=
  takeWhile_eq_of_maximal h.isDigit h.maximal

theorem Reference.unique {digits' rest' : List Char} (h : Reference digits rest)
    (h' : Reference digits' rest')
    (heq : speakerPattern ++ (digits ++ rest) = speakerPattern ++ (digits' ++ rest')) :
    digits = digits' ∧ rest = rest' := by
  have hsame := List.append_cancel_left heq
  have hdigits : digits = digits' := by rw [← h.takeWhile, hsame, h'.takeWhile]
  subst hdigits
  exact ⟨rfl, List.append_cancel_left hsame⟩

/-- There is one rewriting. -/
theorem Rewrites.unique (h : Rewrites text out) (h' : Rewrites text out') : out = out' := by
  induction h generalizing out' with
  | nil => cases h' with
    | nil => rfl
  | @reference digits rest out href _ ih =>
    generalize hsame : speakerPattern ++ (digits ++ rest) = same at h'
    cases h' with
    | nil => cases hsame
    | @reference digits' rest' out' href' hrest' =>
      obtain ⟨rfl, rfl⟩ := href.unique href' hsame
      rw [ih hrest']
    | keep hno hrest' => exact absurd ⟨digits, rest, hsame.symm, href⟩ hno
  | @keep c rest out hno _ ih =>
    generalize hsame : c :: rest = same at h'
    cases h' with
    | nil => cases hsame
    | @reference digits' rest' out' href' hrest' => exact absurd ⟨digits', rest', hsame, href'⟩ hno
    | keep hno' hrest' =>
      obtain ⟨rfl, rfl⟩ := List.cons.inj hsame
      rw [ih hrest']

theorem StartsWithReference.isPrefix (h : StartsWithReference text) : speakerPattern <+: text := by
  obtain ⟨digits, rest, rfl, -⟩ := h
  exact List.prefix_append speakerPattern (digits ++ rest)

/-- Characters at which no reference begins are kept. -/
theorem Rewrites.append {front : List Char}
    (hno : ∀ i < front.length, ¬ StartsWithReference ((front ++ rest).drop i))
    (h : Rewrites rest out) : Rewrites (front ++ rest) (front ++ out) := by
  induction front with
  | nil => exact h
  | cons c front ih =>
    have hhere := hno 0 (Nat.succ_pos _)
    rw [List.drop_zero] at hhere
    refine .keep hhere (ih fun i hi => ?_)
    exact hno (i + 1) (by rw [List.length_cons]; omega)

/-- Where the number does not fit, or is missing, the pattern is kept. -/
theorem Rewrites.pattern (hno : ¬ StartsWithReference (speakerPattern ++ rest))
    (h : Rewrites rest out) : Rewrites (speakerPattern ++ rest) (speakerPattern ++ out) := by
  refine Rewrites.append (fun i hi => ?_) h
  by_cases hzero : i = 0
  · rw [hzero, List.drop_zero]
    exact hno
  · exact fun href => no_match_inside_match unbordered_speakerPattern
      (List.prefix_append speakerPattern rest) (Nat.pos_of_ne_zero hzero) hi href.isPrefix

end Rewriting

/-! ## What the search finds next -/

section Search

variable {pat s rest : List Char}

theorem matchesFrom_skip (front rest : List Char) (pos : Nat) :
    matchesFrom pat pos front.length (front ++ rest) =
      matchesFrom pat (pos + front.length) 0 rest := by
  induction front generalizing pos with
  | nil => rfl
  | cons c front ih =>
    rw [List.length_cons, List.cons_append, matchesFrom, ih]
    congr 1
    omega

theorem matchesFrom_of_not_head {front : List Char} (h : ∀ c ∈ front, pat.head? ≠ some c)
    (hne : pat ≠ []) (pos : Nat) :
    matchesFrom pat pos 0 (front ++ rest) = matchesFrom pat (pos + front.length) 0 rest := by
  induction front generalizing pos with
  | nil => rfl
  | cons c front ih =>
    have hno : ¬ pat.isPrefixOf (c :: (front ++ rest)) := by
      cases pat with
      | nil => exact absurd rfl hne
      | cons p pat =>
        intro hpre
        obtain ⟨hhead, -⟩ := List.cons_prefix_cons.mp (List.isPrefixOf_iff_prefix.mp hpre)
        exact h c List.mem_cons_self (congrArg some hhead)
    rw [List.cons_append, matchesFrom, if_neg hno,
      ih (fun d hd => h d (List.mem_cons_of_mem c hd)), List.length_cons]
    congr 1
    omega

/-- Either there is no match, or a first one. -/
theorem matchesFrom_cases (hne : pat ≠ []) (pos : Nat) (s : List Char) :
    (matchesFrom pat pos 0 s = [] ∧ ∀ i, ¬ pat <+: s.drop i) ∨
      ∃ front rest, s = front ++ (pat ++ rest) ∧
        (∀ i < front.length, ¬ pat <+: s.drop i) ∧
        matchesFrom pat pos 0 s =
          (pos + front.length) :: matchesFrom pat (pos + front.length + pat.length) 0 rest := by
  induction s generalizing pos with
  | nil => exact .inl ⟨rfl, fun i h => hne (by simpa using h)⟩
  | cons c s ih =>
    by_cases hhere : pat <+: c :: s
    · obtain ⟨rest, hrest⟩ := hhere
      refine .inr ⟨[], rest, hrest.symm, by simp, ?_⟩
      cases pat with
      | nil => exact absurd rfl hne
      | cons p pat =>
        rw [List.cons_append, List.cons.injEq] at hrest
        obtain ⟨rfl, rfl⟩ := hrest
        have hpre : (p :: pat).isPrefixOf (p :: (pat ++ rest)) = true :=
          List.isPrefixOf_iff_prefix.mpr (List.prefix_append (p :: pat) rest)
        have hpos : pos + 1 + pat.length = pos + 0 + (pat.length + 1) := by omega
        rw [matchesFrom, if_pos hpre, List.length_cons, Nat.add_sub_cancel, matchesFrom_skip, hpos]
        rfl
    · have hno : ¬ pat.isPrefixOf (c :: s) := fun h => hhere (List.isPrefixOf_iff_prefix.mp h)
      rw [matchesFrom, if_neg hno]
      rcases ih (pos + 1) with ⟨hnil, hnone⟩ | ⟨front, rest, rfl, hfront, hmatches⟩
      · refine .inl ⟨hnil, fun i => ?_⟩
        cases i with
        | zero => exact hhere
        | succ i => exact hnone i
      · refine .inr ⟨c :: front, rest, rfl, fun i hi => ?_, ?_⟩
        · cases i with
          | zero => exact hhere
          | succ i => exact hfront i (by rw [List.length_cons] at hi; omega)
        · have hpos : pos + 1 + front.length = pos + (front.length + 1) := by omega
          rw [hmatches, List.length_cons, hpos]

end Search

/-! ## The loop rewrites -/

section Loop

variable {text rest : List Char}

theorem digitsAfter_append (done rest : List Char) :
    digitsAfter (done ++ (speakerPattern ++ rest)) done.length = rest.takeWhile Char.isDigit := by
  rw [digitsAfter, ← List.append_assoc, ← List.length_append, List.drop_left]

/-- The id that stands for a run of digits. -/
def idOf (digits : List Char) : Option UInt32 := if digits = [] then none else parseU32 digits

/-- The digits behind a match with a number, and what comes after them. -/
theorem reference_of_some {id : UInt32} (h : idOf (rest.takeWhile Char.isDigit) = some id) :
    Reference (rest.takeWhile Char.isDigit) (rest.dropWhile Char.isDigit) ∧
      id = UInt32.ofNat (value (rest.takeWhile Char.isDigit)) := by
  have hall : ∀ c ∈ rest.takeWhile Char.isDigit, c.isDigit = true :=
    fun c hc => List.all_eq_true.mp List.all_takeWhile c hc
  unfold idOf at h
  by_cases hne : rest.takeWhile Char.isDigit = []
  · rw [if_pos hne] at h
    cases h
  · rw [if_neg hne] at h
    obtain ⟨hfits, hid⟩ := (parseU32_eq_some_iff hne hall).mp h
    exact ⟨⟨hne, hall, fun c hc => head?_dropWhile_eq_false hc, hfits⟩, hid⟩

theorem not_startsWithReference_of_none (h : idOf (rest.takeWhile Char.isDigit) = none) :
    ¬ StartsWithReference (speakerPattern ++ rest) := by
  rintro ⟨digits, rest', heq, href⟩
  obtain rfl := List.append_cancel_left heq
  rw [href.takeWhile, idOf, if_neg href.ne_nil,
    (parseU32_eq_some_iff href.ne_nil href.isDigit).mpr ⟨href.fits, rfl⟩] at h
  cases h

/-- A match right behind text that is kept. -/
theorem humanizeStep_append {done front post : List Char} {st : Humanizer}
    (htext : text = (done ++ front) ++ (speakerPattern ++ post)) (hlast : st.last = done.length) :
    (∀ id, idOf (post.takeWhile Char.isDigit) = some id →
      humanizeStep text st (done ++ front).length =
        { result := st.result ++ front ++ (speakerName id).toList
          last := (done ++ front ++ (speakerPattern ++ post.takeWhile Char.isDigit)).length
          rewritten := st.rewritten ++ [((done ++ front).length, id)] }) ∧
    (idOf (post.takeWhile Char.isDigit) = none →
      humanizeStep text st (done ++ front).length =
        { result := st.result ++ front ++ speakerPattern
          last := (done ++ front ++ speakerPattern).length
          rewritten := st.rewritten }) := by
  have hskip : ¬ (done ++ front).length < st.last := by
    rw [hlast, List.length_append]
    omega
  have hkept : (text.take (done ++ front).length).drop st.last = front := by
    rw [htext, List.take_left, hlast, List.drop_left]
  have hdigits : digitsAfter text (done ++ front).length = post.takeWhile Char.isDigit := by
    rw [htext, digitsAfter_append]
  have href : referenceAt text (done ++ front).length = idOf (post.takeWhile Char.isDigit) := by
    rw [referenceAt, hdigits, idOf]
  rw [humanizeStep, if_neg hskip, hkept, href, hdigits]
  constructor
  · intro id hid
    have hlength : (done ++ front ++ (speakerPattern ++ post.takeWhile Char.isDigit)).length =
        (done ++ front).length + speakerPattern.length + (post.takeWhile Char.isDigit).length := by
      simp only [List.length_append, Nat.add_assoc]
    rw [hid, hlength]
  · intro hid
    have hlength : (done ++ front ++ speakerPattern).length =
        (done ++ front).length + speakerPattern.length := List.length_append
    rw [hid, hlength]

/-- From a place up to which everything is written: on the length of what is left,
one match being a step. -/
theorem rewrites_foldl (text : List Char) (n : Nat) : ∀ (done rest : List Char) (st : Humanizer),
    text = done ++ rest → rest.length ≤ n → st.last = done.length →
    ∃ out st', (matchesFrom speakerPattern done.length 0 rest).foldl (humanizeStep text) st = st' ∧
      Rewrites rest out ∧ st'.result ++ text.drop st'.last = st.result ++ out := by
  induction n with
  | zero =>
    intro done rest st htext hlen hlast
    obtain rfl := List.eq_nil_of_length_eq_zero (Nat.le_zero.mp hlen)
    exact ⟨[], st, rfl, .nil, by simp [htext, hlast]⟩
  | succ n ih =>
    intro done rest st htext hlen hlast
    rcases matchesFrom_cases speakerPattern_ne_nil done.length rest with
      ⟨hnil, hnone⟩ | ⟨front, post, rfl, hfront, hmatches⟩
    · have hkept := @Rewrites.append [] [] rest
        (fun i _ href => hnone i (by simpa using href.isPrefix)) .nil
      rw [List.append_nil] at hkept
      exact ⟨rest, st, by rw [hnil]; rfl, hkept, by rw [htext, hlast, List.drop_left]⟩
    · -- the text up to the match is kept
      have hno : ∀ i < front.length,
          ¬ StartsWithReference ((front ++ (speakerPattern ++ post)).drop i) :=
        fun i hi href => hfront i hi href.isPrefix
      have htext' : text = (done ++ front) ++ (speakerPattern ++ post) := by
        rw [htext, List.append_assoc]
      have hlength : (speakerPattern ++ post).length ≤ n + 1 := by
        rw [List.length_append] at hlen
        omega
      have hpost : post.length ≤ n := by
        rw [List.length_append] at hlength
        have hpos : speakerPattern.length = 8 := rfl
        omega
      obtain ⟨hsome, hnone⟩ := humanizeStep_append htext' hlast
      rw [hmatches, ← List.length_append, List.foldl_cons]
      cases hid : idOf (post.takeWhile Char.isDigit) with
      | some id =>
        obtain ⟨href, rfl⟩ := reference_of_some hid
        have hsplit : post.takeWhile Char.isDigit ++ post.dropWhile Char.isDigit = post :=
          List.takeWhile_append_dropWhile
        have hhead : ∀ c ∈ post.takeWhile Char.isDigit, speakerPattern.head? ≠ some c := by
          intro c hc heq
          obtain rfl : 's' = c := Option.some.inj heq
          exact absurd (href.isDigit 's' hc) (by decide)
        have hskip := @matchesFrom_of_not_head _ (post.dropWhile Char.isDigit) _ hhead
          speakerPattern_ne_nil ((done ++ front).length + speakerPattern.length)
        have hlength : (done ++ front).length + speakerPattern.length +
            (post.takeWhile Char.isDigit).length =
            (done ++ front ++ (speakerPattern ++ post.takeWhile Char.isDigit)).length := by
          simp only [List.length_append, Nat.add_assoc]
        rw [hsplit, hlength] at hskip
        obtain ⟨out, st', hfold, hout, hresult⟩ := ih
          (done ++ front ++ (speakerPattern ++ post.takeWhile Char.isDigit))
          (post.dropWhile Char.isDigit)
          _ (by rw [htext', List.append_assoc _ (speakerPattern ++ _), List.append_assoc speakerPattern,
            hsplit])
          ((List.dropWhile_suffix _).length_le.trans hpost) (congrArg Humanizer.last (hsome _ hid))
        have hrewrites := Rewrites.reference href hout
        rw [hsplit] at hrewrites
        refine ⟨_, st', ?_, Rewrites.append hno hrewrites, ?_⟩
        · rw [hskip]
          exact hfold
        · rw [hresult, hsome _ hid]
          simp only [List.append_assoc]
      | none =>
        obtain ⟨out, st', hfold, hout, hresult⟩ := ih (done ++ front ++ speakerPattern) post _
          (by rw [htext', List.append_assoc _ speakerPattern]) hpost
          (congrArg Humanizer.last (hnone hid))
        have hrewrites := Rewrites.pattern (not_startsWithReference_of_none hid) hout
        refine ⟨_, st', ?_, Rewrites.append hno hrewrites, ?_⟩
        · rw [← List.length_append]
          exact hfold
        · rw [hresult, hnone hid]
          simp only [List.append_assoc]

theorem rewrites_humanizeSpeakersInText (text : String) :
    Rewrites text.toList (humanizeSpeakersInText text).toList := by
  obtain ⟨out, st, hfold, hout, hresult⟩ := rewrites_foldl text.toList text.toList.length []
    text.toList ⟨[], 0, []⟩ rfl (Nat.le_refl _) rfl
  have hloop : humanizeLoop text.toList = st := hfold
  rw [List.nil_append] at hresult
  rw [humanizeSpeakersInText, hloop, String.toList_ofList, hresult]
  exact hout

end Loop

/-! ## Nothing is left to rewrite -/

section Idempotent

variable {text rest out w : List Char}

/-- What is written starts with an upper-case letter where a reference was, so that a
piece without one stands there unchanged. -/
theorem Rewrites.of_append (h : Rewrites text (w ++ out)) (hw : 'S' ∉ w) :
    ∃ rest, text = w ++ rest ∧ Rewrites rest out := by
  induction w generalizing text with
  | nil => exact ⟨text, rfl, h⟩
  | cons c w ih =>
    rw [List.mem_cons, not_or] at hw
    generalize hsame : c :: w ++ out = same at h
    cases h with
    | nil => cases hsame
    | reference href hrest =>
      have hhead := congrArg List.head? hsame
      rw [speakerName, String.toList_append] at hhead
      exact absurd (Option.some.inj hhead).symm hw.1
    | keep hno hrest =>
      rw [List.cons_append, List.cons.injEq] at hsame
      obtain ⟨rfl, rfl⟩ := hsame
      obtain ⟨rest', hrest', hout⟩ := ih hrest hw.2
      exact ⟨rest', by rw [hrest']; rfl, hout⟩

theorem not_mem_speakerName (id : UInt32) : 's' ∉ (speakerName id).toList := by
  rw [speakerName, String.toList_append, List.mem_append]
  rintro (h | h)
  · exact absurd h (by decide)
  · rw [String.toList_ofList] at h
    have hdigit : 's'.isDigit = true := isDigit_of_mem_digits h
    exact absurd hdigit (by decide)

/-- No reference begins in what is written. -/
theorem Rewrites.not_startsWithReference (h : Rewrites text out) :
    ∀ i, ¬ StartsWithReference (out.drop i) := by
  induction h with
  | nil =>
    rintro i ⟨digits, rest, heq, -⟩
    rw [List.drop_nil] at heq
    cases heq
  | @reference digits rest out href _ ih =>
    intro i hstart
    rcases Nat.lt_or_ge i (speakerName (UInt32.ofNat (value digits))).toList.length with hi | hi
    · -- no character of a name is the first one of the pattern
      obtain ⟨digits', rest', heq, -⟩ := hstart
      rw [List.drop_append_of_le_length (Nat.le_of_lt hi), List.drop_eq_getElem_cons hi] at heq
      have hhead : (speakerName (UInt32.ofNat (value digits))).toList[i] = 's' :=
        (List.cons.inj heq).1
      exact not_mem_speakerName _ (hhead ▸ List.getElem_mem hi)
    · obtain ⟨k, rfl⟩ := Nat.exists_eq_add_of_le hi
      rw [List.drop_append, List.drop_of_length_le (Nat.le_add_right _ _), List.nil_append,
        Nat.add_sub_cancel_left] at hstart
      exact ih k hstart
  | @keep c rest out hno hrest ih =>
    intro i hstart
    cases i with
    | succ i => exact ih i hstart
    | zero =>
      -- the reference would have been there before
      obtain ⟨digits, after, heq, href⟩ := hstart
      have hs : c = 's' := (List.cons.inj heq).1
      have hout : out = (speakerPattern.tail ++ digits) ++ after := (List.cons.inj heq).2
      rw [hout] at hrest
      have hclear : 'S' ∉ speakerPattern.tail ++ digits := by
        intro hmem
        rcases List.mem_append.mp hmem with hmem | hmem
        · exact absurd hmem (by decide)
        · exact absurd (href.isDigit 'S' hmem) (by decide)
      obtain ⟨before, hbefore, hrewrites⟩ := hrest.of_append hclear
      refine hno ⟨digits, before, by rw [hs, hbefore]; rfl, href.ne_nil, href.isDigit, ?_, href.fits⟩
      intro d hd
      cases hrewrites with
      | nil => cases hd
      | reference => obtain rfl : 's' = d := Option.some.inj hd; rfl
      | keep => exact href.maximal d hd

theorem rewrites_self (h : ∀ i, ¬ StartsWithReference (text.drop i)) : Rewrites text text := by
  have hkept := @Rewrites.append [] [] text
    (fun i _ => by rw [List.append_nil]; exact h i) .nil
  rwa [List.append_nil] at hkept

end Idempotent

/-- Each reference from left to right is replaced by the name of its speaker, all else
is kept, no slice is cut inside a character, and there is nothing left to replace. -/
theorem humanizeSpeakersInText_spec (text : String) :
    humanizeSpeakersInBytes text.toList = some (humanizeSpeakersInText text).toList ∧
      (∀ out, Rewrites text.toList out ↔ out = (humanizeSpeakersInText text).toList) ∧
      humanizeSpeakersInText (humanizeSpeakersInText text) = humanizeSpeakersInText text := by
  have hrewrites := rewrites_humanizeSpeakersInText text
  refine ⟨humanizeSpeakersInBytes_eq text, fun out => ?_, ?_⟩
  · constructor
    · exact fun h => h.unique hrewrites
    · rintro rfl
      exact hrewrites
  · have hagain := rewrites_humanizeSpeakersInText (humanizeSpeakersInText text)
    have hself := rewrites_self hrewrites.not_startsWithReference
    exact String.toList_inj.mp (hagain.unique hself)

end MarkdownExporter
end Panops
