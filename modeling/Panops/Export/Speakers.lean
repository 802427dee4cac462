import Mathlib.Data.List.Basic
import Panops.Notes.SpeakerRefs

/-!
# Speaker names in the export

The exporter writes `speaker_N` as `Speaker N+1`: a whole owner, or every
reference inside a text.
-/

namespace Panops

open Lib.Text Lib.Decimal

namespace MarkdownExporter

/-- `format!("Speaker {}", id.saturating_add(1))`. -/
def speakerName (id : UInt32) : String :=
  "Speaker " ++ String.ofList (digits (min (id.toNat + 1) (2 ^ 32 - 1)))

/-- The id that `humanize_speaker_id` replaces. -/
def humanizedId (raw : String) : Option UInt32 :=
  (stripPrefix speakerPattern raw.toList).bind parseU32

def humanizeSpeakerId (raw : String) : String :=
  match humanizedId raw with
  | some id => speakerName id
  | none => raw

/-- The reference at `start`, if there is a number behind it. -/
def referenceAt (text : List Char) (start : Nat) : Option UInt32 :=
  if digitsAfter text start = [] then none else parseU32 (digitsAfter text start)

structure Humanizer where
  result : List Char
  last : Nat
  /-- Where a reference was rewritten, and which; kept by the model only. -/
  rewritten : List (Nat × UInt32)

def humanizeStep (text : List Char) (st : Humanizer) (start : Nat) : Humanizer :=
  if start < st.last then st
  else
    let result := st.result ++ (text.take start).drop st.last
    let numStart := start + speakerPattern.length
    match referenceAt text start with
    | some id =>
      { result := result ++ (speakerName id).toList
        last := numStart + (digitsAfter text start).length
        rewritten := st.rewritten ++ [(start, id)] }
    | none =>
      { result := result ++ speakerPattern
        last := numStart
        rewritten := st.rewritten }

def humanizeLoop (text : List Char) : Humanizer :=
  (matchIndices speakerPattern text).foldl (humanizeStep text)
    { result := [], last := 0, rewritten := [] }

def humanizeSpeakersInText (text : String) : String :=
  let st := humanizeLoop text.toList
  String.ofList (st.result ++ text.toList.drop st.last)

/-- The references that `humanize_speakers_in_text` rewrites. -/
def rewrittenIn (text : String) : List (Nat × UInt32) := (humanizeLoop text.toList).rewritten

/-! ## What is rewritten -/

/-- A step from a position that no match runs into. -/
theorem humanizeStep_of_le (text : List Char) {st : Humanizer} {start : Nat}
    (h : st.last ≤ start) :
    (humanizeStep text st start).rewritten =
        st.rewritten ++ ((referenceAt text start).map (Prod.mk start)).toList ∧
      (humanizeStep text st start).last ≤
        start + speakerPattern.length + (digitsAfter text start).length := by
  rw [humanizeStep, if_neg (by omega)]
  cases referenceAt text start with
  | none => exact ⟨by simp, by simp⟩
  | some id => exact ⟨by simp, by simp⟩

/-- No match is inside what an earlier one consumed, so the loop looks at every
match. -/
theorem rewritten_foldl_humanizeStep {text : List Char} {starts : List Nat}
    (hmatch : ∀ i ∈ starts, speakerPattern <+: text.drop i)
    (hpair : starts.Pairwise fun i j => i + speakerPattern.length ≤ j) {st : Humanizer}
    (hlast : ∀ i ∈ starts, st.last ≤ i) :
    (starts.foldl (humanizeStep text) st).rewritten =
      st.rewritten ++ starts.filterMap fun i => (referenceAt text i).map (Prod.mk i) := by
  induction starts generalizing st with
  | nil => simp
  | cons start starts ih =>
    obtain ⟨hfirst, hpair⟩ := List.pairwise_cons.mp hpair
    obtain ⟨hrewritten, hend⟩ := humanizeStep_of_le text (hlast start List.mem_cons_self)
    have hnext : ∀ i ∈ starts, (humanizeStep text st start).last ≤ i := by
      intro i hi
      have hhead : speakerPattern.head? = some 's' := rfl
      have hclear : start + speakerPattern.length + (digitsAfter text start).length ≤ i :=
        end_le_of_match hhead (by decide) (hfirst i hi) (hmatch i (List.mem_cons_of_mem start hi))
      omega
    rw [List.foldl_cons, ih (fun i hi => hmatch i (List.mem_cons_of_mem start hi)) hpair hnext,
      hrewritten, List.append_assoc, List.filterMap_cons]
    cases referenceAt text start <;> rfl

theorem rewrittenIn_eq (text : String) :
    rewrittenIn text = (matchIndices speakerPattern text.toList).filterMap fun i =>
      (referenceAt text.toList i).map (Prod.mk i) := by
  have hmatch : ∀ i ∈ matchIndices speakerPattern text.toList,
      speakerPattern <+: text.toList.drop i :=
    fun i hi => (mem_matchIndices speakerPattern_ne_nil unbordered_speakerPattern).mp hi
  exact rewritten_foldl_humanizeStep hmatch
    (pairwise_matchIndices speakerPattern_ne_nil text.toList) fun i _ => Nat.zero_le i

theorem referenceAt_eq_some_iff {text : List Char} {start : Nat} {id : UInt32} :
    referenceAt text start = some id ↔
      digitsAfter text start ≠ [] ∧ value (digitsAfter text start) < 2 ^ 32 ∧
        id = UInt32.ofNat (value (digitsAfter text start)) := by
  unfold referenceAt
  by_cases hne : digitsAfter text start = []
  · simp [hne]
  · rw [if_neg hne, parseU32_eq_some_iff hne isDigit_of_mem_digitsAfter]
    simp [hne]

/-- The rewritten references are the speaker references whose number is a
speaker id, each at its place. -/
theorem mem_rewrittenIn {text : String} {start : Nat} {id : UInt32} :
    (start, id) ∈ rewrittenIn text ↔
      start ∈ matchIndices speakerPattern text.toList ∧ referenceAt text.toList start = some id := by
  rw [rewrittenIn_eq, List.mem_filterMap]
  constructor
  · intro h
    obtain ⟨i, hi, hmap⟩ := h
    obtain ⟨id', hid, heq⟩ := Option.map_eq_some_iff.mp hmap
    obtain ⟨rfl, rfl⟩ := Prod.mk.inj heq
    exact ⟨hi, hid⟩
  · intro h
    exact ⟨start, h.1, by rw [h.2]; rfl⟩

theorem isSpeakerRef_of_mem_rewrittenIn {text : String} {start : Nat} {id : UInt32}
    (h : (start, id) ∈ rewrittenIn text) :
    ∃ digits, IsSpeakerRef text.toList (text.toList.take start) digits ∧
      value digits < 2 ^ 32 ∧ id = UInt32.ofNat (value digits) := by
  obtain ⟨hmatch, href⟩ := mem_rewrittenIn.mp h
  obtain ⟨hne, hlt, hid⟩ := referenceAt_eq_some_iff.mp href
  exact ⟨_, isSpeakerRef_iff.mpr ⟨start, hmatch, rfl, rfl, hne⟩, hlt, hid⟩

/-- An owner `speaker_<digits>` is replaced by its number when that is a speaker
id. -/
theorem humanizedId_eq_some_iff {raw : String} {digits : List Char}
    (hraw : IsSpeakerId raw.toList digits) {id : UInt32} :
    humanizedId raw = some id ↔ value digits < 2 ^ 32 ∧ id = UInt32.ofNat (value digits) := by
  obtain ⟨hsplit, hne, hall⟩ := hraw
  rw [humanizedId, stripPrefix_eq_some_iff.mpr hsplit, Option.bind_some,
    parseU32_eq_some_iff hne hall]

end MarkdownExporter
end Panops
