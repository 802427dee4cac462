import Panops.Lib.Decimal
import Panops.Lib.Text
import Panops.Notes.Ir

/-!
# Speaker references

The text form of a speaker, `speaker_` and a maximal run of digits, as both the
verifier and the exporter look for it.
-/

namespace Panops

open Lib.Text Lib.Decimal

/-- The literal `"speaker_"`. -/
def speakerPattern : List Char := ['s', 'p', 'e', 'a', 'k', 'e', 'r', '_']

theorem speakerPattern_ne_nil : speakerPattern ≠ [] := List.cons_ne_nil _ _

theorem unbordered_speakerPattern : Unbordered speakerPattern := by
  intro k hk hlen
  have hcheck : ∀ k < 8, 0 < k → ¬ speakerPattern.drop k <+: speakerPattern := by decide
  exact hcheck k hlen hk

/-- The digits that follow the occurrence at `start`. -/
def digitsAfter (s : List Char) (start : Nat) : List Char :=
  (s.drop (start + speakerPattern.length)).takeWhile Char.isDigit

theorem isDigit_of_mem_digitsAfter {s : List Char} {start : Nat} :
    ∀ c ∈ digitsAfter s start, c.isDigit = true :=
  fun c hc => List.all_eq_true.mp List.all_takeWhile c hc

/-- `digits` follows an occurrence of the pattern in `s` and `before` precedes
it. -/
abbrev IsSpeakerRef (s before digits : List Char) : Prop :=
  IsReference speakerPattern s before digits

theorem isSpeakerRef_iff {s before digits : List Char} :
    IsSpeakerRef s before digits ↔
      ∃ i ∈ matchIndices speakerPattern s, before = s.take i ∧ digits = digitsAfter s i ∧
        digits ≠ [] :=
  isReference_iff speakerPattern_ne_nil unbordered_speakerPattern

/-- A whole string `speaker_<digits>`. -/
def IsSpeakerId (s digits : List Char) : Prop :=
  s = speakerPattern ++ digits ∧ digits ≠ [] ∧ ∀ c ∈ digits, c.isDigit = true

theorem trim_of_isSpeakerId {s digits : List Char} (h : IsSpeakerId s digits) : trim s = s := by
  obtain ⟨rfl, hne, hall⟩ := h
  apply trim_eq_self
  · intro c hc
    obtain rfl : 's' = c := Option.some.inj hc
    rfl
  · intro c hc
    rw [List.getLast?_append_of_ne_nil _ hne] at hc
    cases hwhite : isWhiteSpace c with
    | false => rfl
    | true =>
      have hdigit := hall c (List.mem_of_getLast? hc)
      rw [isDigit_eq_false_of_isWhiteSpace hwhite] at hdigit
      simp at hdigit

/-- What the parser makes of a run of digits. -/
theorem parseU32_eq_some_iff {digits : List Char} (hne : digits ≠ [])
    (hall : ∀ c ∈ digits, c.isDigit = true) {id : UInt32} :
    parseU32 digits = some id ↔ value digits < 2 ^ 32 ∧ id = UInt32.ofNat (value digits) := by
  rw [parseU32_of_digits hall]
  constructor
  · intro h
    obtain ⟨⟨_, hlt⟩, hid⟩ := Option.ite_none_right_eq_some.mp h
    exact ⟨hlt, (Option.some.inj hid).symm⟩
  · intro h
    rw [if_pos ⟨hne, h.1⟩, h.2]

end Panops
