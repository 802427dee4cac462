import Mathlib.Data.Finset.Basic
import Panops.Notes.SpeakerRefs

/-!
# Attribution verifier

Checks that the narrative and the owners of a section name only speakers of the
transcript.
-/

namespace Panops

open Lib.Text Lib.Decimal

inductive VerifierReport where
  | ok
  | disallowedSpeakers (ids : Finset UInt32)
deriving DecidableEq

namespace Verifier

/-- The character before a match makes it part of a longer word. -/
def isWordChar (c : Char) : Bool := c.isAlphanum || c == '_'

/-- The reference whose pattern starts at `start`. -/
def scanAt (s : List Char) (start : Nat) : Option UInt32 :=
  if (s.take start).getLast?.any isWordChar then none
  else if (digitsAfter s start).isEmpty then none
  else parseU32 (digitsAfter s start)

def scanSpeakerIds (s : String) : List UInt32 :=
  (matchIndices speakerPattern s.toList).filterMap (scanAt s.toList)

def parseSpeakerId (s : String) : Option UInt32 :=
  match stripPrefix speakerPattern (trim s.toList) with
  | none => none
  | some rest => if rest.isEmpty || !rest.all Char.isDigit then none else parseU32 rest

def verifySectionAttribution (narrativeMd : String) (actionItems : List ActionItem)
    (allowedSpeakers : Finset UInt32) : VerifierReport :=
  let fromNarrative := (scanSpeakerIds narrativeMd).filter (· ∉ allowedSpeakers)
  let owners := actionItems.filterMap fun item => item.owner.bind parseSpeakerId
  let fromOwners := owners.filter (· ∉ allowedSpeakers)
  let disallowed := fromNarrative.toFinset ∪ fromOwners.toFinset
  if disallowed = ∅ then .ok else .disallowedSpeakers disallowed

/-! ## What the scanners accept -/

/-- The text before a reference does not run into it. -/
def AtWordBoundary (before : List Char) : Prop :=
  ∀ c, before.getLast? = some c → isWordChar c = false

theorem scanAt_eq_some_iff {s : List Char} {start : Nat} {id : UInt32} :
    scanAt s start = some id ↔
      AtWordBoundary (s.take start) ∧ digitsAfter s start ≠ [] ∧
        value (digitsAfter s start) < 2 ^ 32 ∧ id = UInt32.ofNat (value (digitsAfter s start)) := by
  have hword : (s.take start).getLast?.any isWordChar = false ↔ AtWordBoundary (s.take start) := by
    rw [AtWordBoundary]
    cases (s.take start).getLast? with
    | none => simp
    | some c => simp
  unfold scanAt
  cases hany : (s.take start).getLast?.any isWordChar with
  | true =>
    have hnot : ¬ AtWordBoundary (s.take start) := fun h => by simp [hword.mpr h] at hany
    simp [hnot]
  | false =>
    have hbound := hword.mp hany
    by_cases hne : digitsAfter s start = []
    · simp [hne]
    · have hempty : (digitsAfter s start).isEmpty = false := by simpa using hne
      rw [if_neg (by simp), if_neg (by simp [hempty]),
        parseU32_eq_some_iff hne isDigit_of_mem_digitsAfter]
      simp [hbound, hne]

/-- The scanner yields the numbers of the references at a word boundary, as far
as they fit. -/
theorem mem_scanSpeakerIds {s : String} {id : UInt32} :
    id ∈ scanSpeakerIds s ↔
      ∃ before digits, IsSpeakerRef s.toList before digits ∧ AtWordBoundary before ∧
        value digits < 2 ^ 32 ∧ id = UInt32.ofNat (value digits) := by
  rw [scanSpeakerIds, List.mem_filterMap]
  constructor
  · intro h
    obtain ⟨start, hstart, hscan⟩ := h
    obtain ⟨hbound, hne, hlt, hid⟩ := scanAt_eq_some_iff.mp hscan
    exact ⟨_, _, isSpeakerRef_iff.mpr ⟨start, hstart, rfl, rfl, hne⟩, hbound, hlt, hid⟩
  · intro h
    obtain ⟨before, digits, href, hbound, hlt, hid⟩ := h
    obtain ⟨start, hstart, rfl, rfl, hne⟩ := isSpeakerRef_iff.mp href
    exact ⟨start, hstart, scanAt_eq_some_iff.mpr ⟨hbound, hne, hlt, hid⟩⟩

theorem parseSpeakerId_eq_some_iff {s : String} {id : UInt32} :
    parseSpeakerId s = some id ↔
      ∃ digits, IsSpeakerId (trim s.toList) digits ∧ value digits < 2 ^ 32 ∧
        id = UInt32.ofNat (value digits) := by
  unfold parseSpeakerId
  cases hstrip : stripPrefix speakerPattern (trim s.toList) with
  | none =>
    simp only [reduceCtorEq, false_iff]
    intro h
    obtain ⟨digits, ⟨htrim, _, _⟩, _⟩ := h
    rw [stripPrefix_eq_some_iff.mpr htrim] at hstrip
    simp at hstrip
  | some rest =>
    have htrim := stripPrefix_eq_some_iff.mp hstrip
    have hunique : ∀ digits, IsSpeakerId (trim s.toList) digits → digits = rest :=
      fun digits h => List.append_cancel_left (h.1.symm.trans htrim)
    by_cases hdigits : rest ≠ [] ∧ ∀ c ∈ rest, c.isDigit = true
    · have hall : rest.all Char.isDigit = true := List.all_eq_true.mpr hdigits.2
      have hempty : rest.isEmpty = false := by simpa using hdigits.1
      simp only [hempty, hall, Bool.not_true, Bool.or_self, Bool.false_eq_true, if_false]
      rw [parseU32_eq_some_iff hdigits.1 hdigits.2]
      constructor
      · exact fun h => ⟨rest, ⟨htrim, hdigits⟩, h⟩
      · intro h
        obtain ⟨digits, hid, hval⟩ := h
        exact hunique digits hid ▸ hval
    · have hcond : (rest.isEmpty || !rest.all Char.isDigit) = true := by
        rw [Bool.or_eq_true, Bool.not_eq_true', List.isEmpty_iff]
        by_cases hnil : rest = []
        · exact Or.inl hnil
        · exact Or.inr (Bool.eq_false_iff.mpr fun hall =>
            hdigits ⟨hnil, List.all_eq_true.mp hall⟩)
      simp only [hcond, if_true, reduceCtorEq, false_iff]
      intro h
      obtain ⟨digits, hid, _⟩ := h
      exact hdigits (hunique digits hid ▸ hid.2)

/-! ## What the report means -/

/-- A reference the verifier looks at. -/
def Referenced (narrativeMd : String) (actionItems : List ActionItem) (id : UInt32) : Prop :=
  id ∈ scanSpeakerIds narrativeMd ∨
    ∃ item ∈ actionItems, ∃ owner, item.owner = some owner ∧ parseSpeakerId owner = some id

theorem mem_disallowed {narrativeMd : String} {actionItems : List ActionItem}
    {allowed : Finset UInt32} {id : UInt32} :
    id ∈ ((scanSpeakerIds narrativeMd).filter (· ∉ allowed)).toFinset ∪
        ((actionItems.filterMap fun item => item.owner.bind parseSpeakerId).filter
          (· ∉ allowed)).toFinset ↔
      Referenced narrativeMd actionItems id ∧ id ∉ allowed := by
  simp only [Finset.mem_union, List.mem_toFinset, List.mem_filter, List.mem_filterMap,
    decide_eq_true_eq, Option.bind_eq_some_iff, Referenced, or_and_right]

theorem verifySectionAttribution_ok_iff {narrativeMd : String} {actionItems : List ActionItem}
    {allowed : Finset UInt32} :
    verifySectionAttribution narrativeMd actionItems allowed = .ok ↔
      ∀ id, Referenced narrativeMd actionItems id → id ∈ allowed := by
  simp only [verifySectionAttribution]
  split
  · next hempty =>
    simp only [true_iff]
    intro id href
    by_contra hid
    have := mem_disallowed.mpr ⟨href, hid⟩
    rw [hempty] at this
    simp at this
  · next hne =>
    simp only [reduceCtorEq, false_iff]
    intro hall
    apply hne
    apply Finset.eq_empty_of_forall_notMem
    intro id hmem
    obtain ⟨href, hid⟩ := mem_disallowed.mp hmem
    exact hid (hall id href)

theorem verifySectionAttribution_disallowed {narrativeMd : String}
    {actionItems : List ActionItem} {allowed : Finset UInt32} {id : UInt32}
    (href : Referenced narrativeMd actionItems id) (hid : id ∉ allowed) :
    ∃ ids, verifySectionAttribution narrativeMd actionItems allowed = .disallowedSpeakers ids ∧
      id ∈ ids := by
  have hmem := mem_disallowed.mpr ⟨href, hid⟩
  simp only [verifySectionAttribution]
  split
  · next hempty =>
    rw [hempty] at hmem
    simp at hmem
  · exact ⟨_, rfl, hmem⟩

/-- The verifier is complete for references at a word boundary whose number is a
speaker id, and it accepts when every reference, wherever it stands, and every
owner with such a number is allowed. -/
theorem verifySectionAttribution_complete (narrativeMd : String) (actionItems : List ActionItem)
    (allowed : Finset UInt32) :
    (∀ before digits, IsSpeakerRef narrativeMd.toList before digits →
      (∀ c, before.getLast? = some c → c.isAlphanum = false ∧ c ≠ '_') →
      value digits < 2 ^ 32 → UInt32.ofNat (value digits) ∉ allowed →
      ∃ ids, verifySectionAttribution narrativeMd actionItems allowed = .disallowedSpeakers ids) ∧
    ((∀ before digits, IsSpeakerRef narrativeMd.toList before digits →
        (∀ c, before.getLast? = some c → c.isAlphanum = false) →
        value digits < 2 ^ 32 → UInt32.ofNat (value digits) ∈ allowed) →
      (∀ item ∈ actionItems, ∀ owner, item.owner = some owner →
        ∀ digits, IsSpeakerId (trim owner.toList) digits →
        value digits < 2 ^ 32 → UInt32.ofNat (value digits) ∈ allowed) →
      verifySectionAttribution narrativeMd actionItems allowed = .ok) := by
  constructor
  · intro before digits href hbefore hlt hnot
    have hbound : AtWordBoundary before := by
      intro c hc
      obtain ⟨halpha, hunder⟩ := hbefore c hc
      simp [isWordChar, halpha, hunder]
    have hscan : UInt32.ofNat (value digits) ∈ scanSpeakerIds narrativeMd :=
      mem_scanSpeakerIds.mpr ⟨before, digits, href, hbound, hlt, rfl⟩
    obtain ⟨ids, hreport, _⟩ := verifySectionAttribution_disallowed (Or.inl hscan) hnot
    exact ⟨ids, hreport⟩
  · intro hnarrative howners
    apply verifySectionAttribution_ok_iff.mpr
    intro id href
    rcases href with hscan | ⟨item, hitem, owner, howner, hparse⟩
    · obtain ⟨before, digits, href, hbound, hlt, rfl⟩ := mem_scanSpeakerIds.mp hscan
      refine hnarrative before digits href (fun c hc => ?_) hlt
      have hword := hbound c hc
      simp only [isWordChar, Bool.or_eq_false_iff] at hword
      exact hword.1
    · obtain ⟨digits, hid, hlt, rfl⟩ := parseSpeakerId_eq_some_iff.mp hparse
      exact howners item hitem owner howner digits hid hlt

theorem verifySectionAttribution_complete_bold :
    ∃ ids, verifySectionAttribution "**speaker_99:** no" [] {0, 1} = .disallowedSpeakers ids :=
  (verifySectionAttribution_complete "**speaker_99:** no" [] {0, 1}).1 ['*', '*'] ['9', '9']
    (.of_eq_append (by rfl : _ = _ ++ _ ++ _ ++ ":** no".toList) (by simp) (by decide) (by decide))
    (by simp) (by decide) (by decide)

/-- An underscore in front hides a reference, a number above the range of the
ids is not one, and an owner is trimmed before it is read. -/
theorem verifySectionAttribution_blind_spots :
    (IsSpeakerRef "_speaker_9_".toList ['_'] ['9'] ∧
      verifySectionAttribution "_speaker_9_" [] ∅ = .ok) ∧
    (IsSpeakerRef "speaker_4294967296".toList [] "4294967296".toList ∧
      verifySectionAttribution "speaker_4294967296" [] ∅ = .ok) ∧
    (¬ ∃ digits, IsSpeakerId " speaker_9".toList digits) ∧
      verifySectionAttribution "" [⟨"ship", some " speaker_9", none⟩] ∅ =
        .disallowedSpeakers {9} := by
  refine ⟨⟨?_, by decide⟩, ⟨?_, by decide⟩, ?_, by decide⟩
  · exact .of_eq_append (by rfl : _ = _ ++ _ ++ _ ++ ['_']) (by simp) (by decide) (by decide)
  · exact .of_eq_append (by rfl : _ = _ ++ _ ++ _ ++ []) (by decide) (by decide) (by decide)
  · intro h
    obtain ⟨digits, htext, _⟩ := h
    simp [speakerPattern] at htext

end Verifier
end Panops
