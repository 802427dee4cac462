import Mathlib.Data.String.Basic

/-!
# Scanning text

Substring search, maximal digit runs and trimming over lists of characters.  A
`Reference` is an occurrence of a fixed pattern followed by a maximal run of
decimal digits; the two facts a scanner needs are that left-to-right search
finds every occurrence of a pattern that does not overlap itself, and that the
regions of two references never overlap.
-/

namespace Panops
namespace Lib
namespace Text

/-- The characters with the Unicode property `White_Space`. -/
def isWhiteSpace (c : Char) : Bool :=
  let n := c.toNat
  (9 ≤ n && n ≤ 13) || n == 0x20 || n == 0x85 || n == 0xA0 || n == 0x1680 ||
    (0x2000 ≤ n && n ≤ 0x200A) || n == 0x2028 || n == 0x2029 || n == 0x202F ||
    n == 0x205F || n == 0x3000

theorem isAlphanum_eq_false_of_isWhiteSpace {c : Char} (h : isWhiteSpace c = true) :
    c.isAlphanum = false := by
  simp only [isWhiteSpace, Bool.or_eq_true, Bool.and_eq_true, decide_eq_true_eq,
    beq_iff_eq] at h
  have hval : c.val.toNat = c.toNat := rfl
  delta Char.isAlphanum Char.isAlpha Char.isUpper Char.isLower Char.isDigit
  simp only [Bool.or_eq_false_iff, Bool.and_eq_false_iff, decide_eq_false_iff_not, ge_iff_le,
    UInt32.le_iff_toNat_le, hval]
  refine ⟨⟨?_, ?_⟩, ?_⟩ <;> simp <;> omega

theorem isDigit_eq_false_of_isWhiteSpace {c : Char} (h : isWhiteSpace c = true) :
    c.isDigit = false := by
  have := isAlphanum_eq_false_of_isWhiteSpace h
  simp only [Char.isAlphanum, Bool.or_eq_false_iff] at this
  exact this.2

/-! ## Trimming -/

def trim (s : List Char) : List Char :=
  ((s.dropWhile isWhiteSpace).reverse.dropWhile isWhiteSpace).reverse

theorem exists_eq_append_trim (s : List Char) :
    ∃ before after, s = before ++ trim s ++ after ∧
      (∀ c ∈ before, isWhiteSpace c = true) ∧ (∀ c ∈ after, isWhiteSpace c = true) := by
  let mid := s.dropWhile isWhiteSpace
  refine ⟨s.takeWhile isWhiteSpace, (mid.reverse.takeWhile isWhiteSpace).reverse, ?_, ?_, ?_⟩
  · have hmid : trim s ++ (mid.reverse.takeWhile isWhiteSpace).reverse = mid := by
      rw [trim, ← List.reverse_append, List.takeWhile_append_dropWhile, List.reverse_reverse]
    rw [List.append_assoc, hmid, List.takeWhile_append_dropWhile]
  · exact fun c hc => List.all_eq_true.mp List.all_takeWhile c hc
  · intro c hc
    exact List.all_eq_true.mp List.all_takeWhile c (List.mem_reverse.mp hc)

theorem dropWhile_eq_self {s : List Char} (h : ∀ c, s.head? = some c → isWhiteSpace c = false) :
    s.dropWhile isWhiteSpace = s := by
  cases s with
  | nil => rfl
  | cons c cs => exact List.dropWhile_cons_of_neg (by simp [h c rfl])

theorem trim_eq_self {s : List Char} (hhead : ∀ c, s.head? = some c → isWhiteSpace c = false)
    (hlast : ∀ c, s.getLast? = some c → isWhiteSpace c = false) : trim s = s := by
  have hback : ∀ c, s.reverse.head? = some c → isWhiteSpace c = false := by
    simpa [List.head?_reverse] using hlast
  rw [trim, dropWhile_eq_self hhead, dropWhile_eq_self hback, List.reverse_reverse]

/-! ## Substring search -/

/-- The positions of the matches of `pat`, counting from `pos`, when the next
`skip` characters belong to a match already reported. -/
def matchesFrom (pat : List Char) (pos : Nat) : Nat → List Char → List Nat
  | _, [] => []
  | skip + 1, _ :: cs => matchesFrom pat (pos + 1) skip cs
  | 0, c :: cs =>
    if pat.isPrefixOf (c :: cs) then pos :: matchesFrom pat (pos + 1) (pat.length - 1) cs
    else matchesFrom pat (pos + 1) 0 cs

/-- `str::match_indices` for a non-empty pattern: the non-overlapping matches,
left to right.  Positions count characters. -/
def matchIndices (pat s : List Char) : List Nat := matchesFrom pat 0 0 s

/-- No proper suffix of the pattern is a prefix of it. -/
def Unbordered (pat : List Char) : Prop :=
  ∀ k, 0 < k → k < pat.length → ¬ pat.drop k <+: pat

theorem no_match_inside_match {pat s : List Char} (hpat : Unbordered pat)
    (h : pat <+: s) {k : Nat} (hk : 0 < k) (hlen : k < pat.length) : ¬ pat <+: s.drop k := by
  intro hdrop
  obtain ⟨t, rfl⟩ := h
  rw [List.drop_append_of_le_length (Nat.le_of_lt hlen)] at hdrop
  refine hpat k hk hlen (List.prefix_of_prefix_length_le (List.prefix_append _ t) hdrop ?_)
  rw [List.length_drop]
  omega

theorem mem_matchesFrom {pat : List Char} (hne : pat ≠ []) (hpat : Unbordered pat) {i : Nat} :
    ∀ {s : List Char} {pos skip : Nat},
      i ∈ matchesFrom pat pos skip s ↔ ∃ j, i = pos + j ∧ skip ≤ j ∧ pat <+: s.drop j := by
  intro s
  induction s with
  | nil =>
    intro pos skip
    simp [matchesFrom, hne]
  | cons c cs ih =>
    intro pos skip
    cases skip with
    | succ skip =>
      rw [matchesFrom, ih]
      constructor
      · rintro ⟨j, rfl, hj, hp⟩
        exact ⟨j + 1, by omega, by omega, hp⟩
      · rintro ⟨j, rfl, hj, hp⟩
        obtain ⟨j, rfl⟩ : ∃ j', j = j' + 1 := ⟨j - 1, by omega⟩
        exact ⟨j, by omega, by omega, hp⟩
    | zero =>
      have hlen : 0 < pat.length := List.length_pos_iff.mpr hne
      by_cases hm : pat <+: c :: cs
      · rw [matchesFrom, if_pos (List.isPrefixOf_iff_prefix.mpr hm), List.mem_cons, ih]
        constructor
        · rintro (rfl | ⟨j, rfl, _, hp⟩)
          · exact ⟨0, rfl, Nat.le_refl 0, hm⟩
          · exact ⟨j + 1, by omega, Nat.zero_le _, hp⟩
        · rintro ⟨j, rfl, _, hp⟩
          cases j with
          | zero => exact Or.inl rfl
          | succ j =>
            refine Or.inr ⟨j, by omega, ?_, hp⟩
            by_cases hj : j + 1 < pat.length
            · exact absurd hp (no_match_inside_match hpat hm (Nat.succ_pos j) hj)
            · omega
      · rw [matchesFrom, if_neg (fun h => hm (List.isPrefixOf_iff_prefix.mp h)), ih]
        constructor
        · rintro ⟨j, rfl, _, hp⟩
          exact ⟨j + 1, by omega, Nat.zero_le _, hp⟩
        · rintro ⟨j, rfl, _, hp⟩
          cases j with
          | zero => exact absurd hp hm
          | succ j => exact ⟨j, by omega, Nat.zero_le _, hp⟩

/-- The search is complete: it reports exactly the positions where the pattern
occurs. -/
theorem mem_matchIndices {pat s : List Char} (hne : pat ≠ []) (hpat : Unbordered pat) {i : Nat} :
    i ∈ matchIndices pat s ↔ pat <+: s.drop i := by
  rw [matchIndices, mem_matchesFrom hne hpat]
  constructor
  · rintro ⟨j, rfl, _, hp⟩
    simpa using hp
  · intro hp
    exact ⟨i, by omega, Nat.zero_le _, hp⟩

theorem le_of_mem_matchesFrom {pat : List Char} {i : Nat} :
    ∀ {s : List Char} {pos skip : Nat}, i ∈ matchesFrom pat pos skip s → pos + skip ≤ i := by
  intro s
  induction s with
  | nil => intro pos skip h; simp [matchesFrom] at h
  | cons c cs ih =>
    intro pos skip h
    cases skip with
    | succ skip =>
      have := ih (by simpa [matchesFrom] using h)
      omega
    | zero =>
      rw [matchesFrom] at h
      split at h
      · rcases List.mem_cons.mp h with rfl | h
        · omega
        · have := ih h
          omega
      · have := ih h
        omega

/-- Matches come in order and leave room for the pattern. -/
theorem pairwise_matchIndices {pat : List Char} (hne : pat ≠ []) (s : List Char) :
    (matchIndices pat s).Pairwise (fun i j => i + pat.length ≤ j) := by
  have hlen : 0 < pat.length := List.length_pos_iff.mpr hne
  have hfrom : ∀ (s : List Char) (pos skip : Nat),
      (matchesFrom pat pos skip s).Pairwise (fun i j => i + pat.length ≤ j) := by
    intro s
    induction s with
    | nil => intro pos skip; simp [matchesFrom]
    | cons c cs ih =>
      intro pos skip
      cases skip with
      | succ skip => rw [matchesFrom]; exact ih _ _
      | zero =>
        rw [matchesFrom]
        split
        · refine List.pairwise_cons.mpr ⟨fun j hj => ?_, ih _ _⟩
          have := le_of_mem_matchesFrom hj
          omega
        · exact ih _ _
  exact hfrom s 0 0

/-- `str::strip_prefix`. -/
def stripPrefix (pat s : List Char) : Option (List Char) :=
  if pat.isPrefixOf s then some (s.drop pat.length) else none

theorem stripPrefix_eq_some_iff {pat s rest : List Char} :
    stripPrefix pat s = some rest ↔ s = pat ++ rest := by
  unfold stripPrefix
  constructor
  · intro h
    split at h
    · next hp =>
      obtain rfl := Option.some.inj h
      exact (List.prefix_iff_eq_append.mp (List.isPrefixOf_iff_prefix.mp hp)).symm
    · simp at h
  · rintro rfl
    rw [if_pos (List.isPrefixOf_iff_prefix.mpr (List.prefix_append pat rest))]
    simp

/-- `str::strip_suffix`. -/
def stripSuffix (suf s : List Char) : Option (List Char) :=
  if suf.isSuffixOf s then some (s.take (s.length - suf.length)) else none

/-! ## References -/

/-- `digits` is a maximal non-empty run of decimal digits right after an
occurrence of `pat`, and `before` is the text in front of that occurrence. -/
def IsReference (pat s before digits : List Char) : Prop :=
  ∃ after, s = before ++ pat ++ digits ++ after ∧ digits ≠ [] ∧
    (∀ c ∈ digits, c.isDigit = true) ∧ (∀ c, after.head? = some c → c.isDigit = false)

theorem takeWhile_eq_of_maximal {p : Char → Bool} {run after : List Char}
    (hrun : ∀ c ∈ run, p c = true) (hafter : ∀ c, after.head? = some c → p c = false) :
    (run ++ after).takeWhile p = run := by
  rw [List.takeWhile_append_of_pos hrun]
  cases after with
  | nil => simp
  | cons c cs => rw [List.takeWhile_cons_of_neg (by simp [hafter c rfl])]; simp

theorem head?_dropWhile_eq_false {p : Char → Bool} {s : List Char} {c : Char}
    (h : (s.dropWhile p).head? = some c) : p c = false := by
  induction s with
  | nil => simp at h
  | cons d ds ih =>
    cases hd : p d with
    | true => rw [List.dropWhile_cons_of_pos hd] at h; exact ih h
    | false =>
      rw [List.dropWhile_cons_of_neg (by simp [hd])] at h
      obtain rfl : d = c := by simpa using h
      exact hd

/-- A split of a text with a run of digits that ends there is a reference. -/
theorem IsReference.of_eq_append {pat s before digits after : List Char}
    (hs : s = before ++ pat ++ digits ++ after) (hne : digits ≠ [])
    (hall : digits.all Char.isDigit = true) (hafter : after.head?.any Char.isDigit = false) :
    IsReference pat s before digits := by
  refine ⟨after, hs, hne, fun c hc => List.all_eq_true.mp hall c hc, fun c hc => ?_⟩
  rw [hc] at hafter
  exact hafter

/-- References are what a search followed by a digit scan finds. -/
theorem isReference_iff {pat s before digits : List Char} (hne : pat ≠ [])
    (hpat : Unbordered pat) :
    IsReference pat s before digits ↔
      ∃ i ∈ matchIndices pat s, before = s.take i ∧
        digits = (s.drop (i + pat.length)).takeWhile Char.isDigit ∧ digits ≠ [] := by
  constructor
  · rintro ⟨after, rfl, hdigits, hall, hafter⟩
    refine ⟨before.length, (mem_matchIndices hne hpat).mpr ?_, ?_, ?_, hdigits⟩
    · simp [List.append_assoc]
    · simp [List.append_assoc]
    · have hdrop : (before ++ pat ++ digits ++ after).drop (before.length + pat.length)
          = digits ++ after := by
        rw [List.append_assoc (before ++ pat), ← List.length_append, List.drop_left]
      rw [hdrop, takeWhile_eq_of_maximal hall hafter]
  · rintro ⟨i, hi, rfl, hdigits, hne'⟩
    have hp : pat <+: s.drop i := (mem_matchIndices hne hpat).mp hi
    have hsplit : s.drop i = pat ++ s.drop (i + pat.length) := by
      rw [← List.drop_drop]
      exact (List.prefix_iff_eq_append.mp hp).symm
    refine ⟨(s.drop (i + pat.length)).dropWhile Char.isDigit, ?_, hne', ?_, ?_⟩
    · rw [hdigits, List.append_assoc, List.takeWhile_append_dropWhile, List.append_assoc,
        ← hsplit, List.take_append_drop]
    · rw [hdigits]
      exact fun c hc => List.all_eq_true.mp List.all_takeWhile c hc
    · exact fun c hc => head?_dropWhile_eq_false hc

/-- A reference inside the trimmed text is one of the whole text, with the same
character in front of it or white space. -/
theorem IsReference.of_trim {pat s before digits : List Char}
    (h : IsReference pat (trim s) before digits) :
    ∃ lead, (∀ c ∈ lead, isWhiteSpace c = true) ∧
      IsReference pat s (lead ++ before) digits := by
  obtain ⟨lead, tail, hs, hlead, htail⟩ := exists_eq_append_trim s
  obtain ⟨after, hsplit, hne, hall, hafter⟩ := h
  refine ⟨lead, hlead, after ++ tail, ?_, hne, hall, ?_⟩
  · rw [hs, hsplit]
    simp [List.append_assoc]
  · intro c hc
    cases after with
    | cons d ds => exact hafter c (by simpa using hc)
    | nil =>
      have hmem : c ∈ tail := List.mem_of_mem_head? (by simpa using hc)
      exact isDigit_eq_false_of_isWhiteSpace (htail c hmem)

/-- A reference ends before any later occurrence of a pattern whose first
character is not a digit. -/
theorem end_le_of_match {pat s : List Char} {c₀ : Char} (hhead : pat.head? = some c₀)
    (hc₀ : c₀.isDigit = false) {i j : Nat} (hij : i + pat.length ≤ j)
    (hj : pat <+: s.drop j) :
    i + pat.length + ((s.drop (i + pat.length)).takeWhile Char.isDigit).length ≤ j := by
  have hat : s[j]? = some c₀ := by
    obtain ⟨t, ht⟩ := hj
    have : (s.drop j).head? = some c₀ := by rw [← ht, List.head?_append, hhead]; rfl
    rwa [List.head?_drop] at this
  have hnot : ¬ j - (i + pat.length) <
      ((s.drop (i + pat.length)).takeWhile Char.isDigit).length := by
    intro hlt
    have hget := (List.takeWhile_prefix Char.isDigit
      (l := s.drop (i + pat.length))).getElem hlt
    have hdig : (((s.drop (i + pat.length)).takeWhile Char.isDigit)[j - (i + pat.length)]).isDigit
        = true := List.all_eq_true.mp List.all_takeWhile _ (List.getElem_mem hlt)
    have hsame : (s.drop (i + pat.length))[j - (i + pat.length)]? = some c₀ := by
      rw [List.getElem?_drop, show i + pat.length + (j - (i + pat.length)) = j by omega, hat]
    rw [hget] at hdig
    have := List.getElem?_eq_some_iff.mp hsame
    obtain ⟨hlt', heq⟩ := this
    rw [heq] at hdig
    simp [hc₀] at hdig
  omega

/-! ## Texts in order -/

/-- The texts occur in `s` one after the other, with anything in between. -/
inductive InOrder : List String → String → Prop
  | nil (s : String) : InOrder [] s
  | cons (gap t : String) {ts : List String} {rest : String} :
      InOrder ts rest → InOrder (t :: ts) (gap ++ t ++ rest)

theorem InOrder.append_left {ts : List String} {s : String} (lead : String)
    (h : InOrder ts s) : InOrder ts (lead ++ s) := by
  cases h with
  | nil => exact .nil _
  | cons gap t hrest =>
    rw [← String.append_assoc, ← String.append_assoc]
    exact .cons (lead ++ gap) t hrest

end Text
end Lib
end Panops
