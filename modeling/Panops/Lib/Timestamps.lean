import Mathlib.Data.String.Basic
import Panops.Lib.Decimal

/-!
# Local times with an offset

A time of the calendar, its offset from UTC, and the text with both.  Texts compare as the
local times do, and only then as the offsets.
-/

namespace Panops
namespace Lib
namespace Timestamps

open Decimal

/-! ## The calendar -/

def isLeap (year : Nat) : Bool := year % 4 == 0 && (year % 100 != 0 || year % 400 == 0)

def yearLength (year : Nat) : Nat := if isLeap year then 366 else 365

/-- The days before a year, from the year 0. -/
def daysBeforeYear (year : Nat) : Nat :=
  365 * year + (year + 3) / 4 + (year + 399) / 400 - (year + 99) / 100

def monthLength (year month : Nat) : Nat :=
  if month = 2 then if isLeap year then 29 else 28
  else if month = 4 ∨ month = 6 ∨ month = 9 ∨ month = 11 then 30
  else if 1 ≤ month then 31 else 0

/-- The days of a year before a month. -/
def daysBeforeMonth (year : Nat) : Nat → Nat
  | 0 => 0
  | month + 1 => daysBeforeMonth year month + monthLength year month

/-- How often a count of every `k`-th year goes up. -/
theorem add_one_div (k year : Nat) (hk : 0 < k) :
    (year + 1 + (k - 1)) / k = (year + (k - 1)) / k + if year % k = 0 then 1 else 0 := by
  have hyear := Nat.div_add_mod year k
  have hrest := Nat.mod_lt year hk
  generalize year / k = q at hyear
  generalize year % k = r at hyear hrest
  subst hyear
  by_cases hr : r = 0
  · subst hr
    rw [if_pos rfl, show k * q + 0 + 1 + (k - 1) = k * (q + 1) by rw [Nat.mul_succ]; omega,
      show k * q + 0 + (k - 1) = k - 1 + k * q by omega, Nat.mul_div_cancel_left _ hk,
      Nat.add_mul_div_left _ _ hk, Nat.div_eq_of_lt (by omega)]
    omega
  · rw [if_neg hr, show k * q + r + 1 + (k - 1) = r + k * (q + 1) by rw [Nat.mul_succ]; omega,
      show k * q + r + (k - 1) = r - 1 + k * (q + 1) by rw [Nat.mul_succ]; omega,
      Nat.add_mul_div_left _ _ hk, Nat.add_mul_div_left _ _ hk, Nat.div_eq_of_lt hrest,
      Nat.div_eq_of_lt (by omega)]
    omega

theorem yearLength_add (year : Nat) :
    yearLength year + (if year % 100 = 0 then 1 else 0) =
      365 + (if year % 4 = 0 then 1 else 0) + (if year % 400 = 0 then 1 else 0) := by
  unfold yearLength isLeap
  by_cases h4 : year % 4 = 0
  · by_cases h100 : year % 100 = 0
    · by_cases h400 : year % 400 = 0 <;> simp [h4, h100, h400]
    · have h400 : ¬ year % 400 = 0 := by omega
      simp [h4, h100, h400]
  · have h100 : ¬ year % 100 = 0 := by omega
    have h400 : ¬ year % 400 = 0 := by omega
    simp [h4, h100, h400]

theorem daysBeforeYear_succ (year : Nat) :
    daysBeforeYear (year + 1) = daysBeforeYear year + yearLength year := by
  have hfour := add_one_div 4 year (by omega)
  have hhundred := add_one_div 100 year (by omega)
  have hfourHundred := add_one_div 400 year (by omega)
  have hle : (year + 99) / 100 ≤ 365 * year + (year + 3) / 4 := by omega
  have hlength := yearLength_add year
  unfold daysBeforeYear
  simp only [Nat.add_one_sub_one] at hfour hhundred hfourHundred
  rw [hfour, hhundred, hfourHundred]
  -- The quotients and the days that they gain are numbers from here on.
  generalize (year + 3) / 4 = fours at hle
  generalize (year + 99) / 100 = hundreds at hle
  generalize (year + 399) / 400 = fourHundreds
  generalize (if year % 4 = 0 then 1 else 0) = four at hlength
  generalize (if year % 100 = 0 then 1 else 0) = hundred at hlength
  generalize (if year % 400 = 0 then 1 else 0) = fourHundred at hlength
  clear hfour hhundred hfourHundred
  omega

theorem daysBeforeMonth_thirteen (year : Nat) : daysBeforeMonth year 13 = yearLength year := by
  unfold yearLength
  cases h : isLeap year <;> simp [daysBeforeMonth, monthLength, h]

theorem daysBeforeMonth_mono {year m n : Nat} (h : m ≤ n) :
    daysBeforeMonth year m ≤ daysBeforeMonth year n := by
  induction n with
  | zero =>
    obtain rfl := Nat.le_zero.mp h
    exact Nat.le_refl _
  | succ n ih =>
    rcases Nat.lt_or_ge n m with hlt | hge
    · obtain rfl : m = n + 1 := by omega
      exact Nat.le_refl _
    · exact Nat.le_trans (ih hge) (Nat.le_add_right _ _)

/-- A local time and its offset from UTC in minutes. -/
structure Timestamp where
  year : Nat
  month : Nat
  day : Nat
  hour : Nat
  minute : Nat
  second : Nat
  nano : Nat
  offset : Int
  year_lt : year < 10000
  month_pos : 1 ≤ month
  month_le : month ≤ 12
  day_pos : 1 ≤ day
  day_le : day ≤ monthLength year month
  hour_lt : hour < 24
  minute_lt : minute < 60
  second_lt : second < 60
  nano_lt : nano < 1000000000
  offset_lt : offset.natAbs < 1440

namespace Timestamp

def date (t : Timestamp) : Nat :=
  daysBeforeYear t.year + (daysBeforeMonth t.year t.month + (t.day - 1))

/-- The local time in nanoseconds. -/
def localTime (t : Timestamp) : Nat :=
  (((t.date * 24 + t.hour) * 60 + t.minute) * 60 + t.second) * 1000000000 + t.nano

/-- The same in UTC. -/
def instant (t : Timestamp) : Int := t.localTime - t.offset * 60000000000

/-! ## The text -/

/-- Nothing, or three, six or nine digits after a point. -/
def fraction (nano : Nat) : List Char :=
  if nano = 0 then []
  else '.' :: (zeroPadded 3 (nano / 1000000) ++
    if nano % 1000000 = 0 then []
    else zeroPadded 3 (nano / 1000 % 1000) ++
      if nano % 1000 = 0 then [] else zeroPadded 3 (nano % 1000))

def offsetText (offset : Int) : List Char :=
  (if offset < 0 then '-' else '+') ::
    (zeroPadded 2 (offset.natAbs / 60) ++ ':' :: zeroPadded 2 (offset.natAbs % 60))

def chars (t : Timestamp) : List Char :=
  zeroPadded 4 t.year ++ '-' :: (zeroPadded 2 t.month ++ '-' :: (zeroPadded 2 t.day ++
    'T' :: (zeroPadded 2 t.hour ++ ':' :: (zeroPadded 2 t.minute ++ ':' ::
      (zeroPadded 2 t.second ++ (fraction t.nano ++ offsetText t.offset))))))

/-- `to_rfc3339`. -/
def toRfc3339 (t : Timestamp) : String := String.ofList t.chars

end Timestamp

/-! ## Mixed digits -/

/-- A number whose parts are below their bases is smaller where its first part is, or
where it is equal and the rest is smaller. -/
theorem lex_add_iff {F len : Nat → Nat} (hF : ∀ q, F (q + 1) = F q + len q) {q q' r r' : Nat}
    (hr : r < len q) (hr' : r' < len q') (P : Prop) :
    (F q + r < F q' + r' ∨ F q + r = F q' + r' ∧ P) ↔ q < q' ∨ q = q' ∧ (r < r' ∨ r = r' ∧ P) := by
  have hmono : ∀ {m n}, m ≤ n → F m ≤ F n := by
    intro m n h
    induction h with
    | refl => exact Nat.le_refl _
    | step h ih =>
      rw [hF]
      omega
  have hstep : ∀ {m n s}, m < n → s < len m → F m + s < F n := by
    intro m n s hmn hs
    have := @hmono (m + 1) n hmn
    rw [hF] at this
    omega
  rcases Nat.lt_trichotomy q q' with hlt | rfl | hgt
  · have := hstep hlt hr
    exact iff_of_true (.inl (by omega)) (.inl hlt)
  · constructor
    · rintro (h | ⟨h, hP⟩)
      · exact .inr ⟨rfl, .inl (by omega)⟩
      · exact .inr ⟨rfl, .inr ⟨by omega, hP⟩⟩
    · rintro (h | ⟨_, h | ⟨h, hP⟩⟩)
      · exact absurd h (Nat.lt_irrefl q)
      · exact .inl (by omega)
      · exact .inr ⟨by omega, hP⟩
  · have := hstep hgt hr'
    refine iff_of_false ?_ ?_
    · rintro (h | ⟨h, _⟩) <;> omega
    · rintro (h | ⟨h, _⟩) <;> omega

/-- The same with one base. -/
theorem lex_mul_iff {base q q' r r' : Nat} (hr : r < base) (hr' : r' < base) (P : Prop) :
    (q * base + r < q' * base + r' ∨ q * base + r = q' * base + r' ∧ P) ↔
      q < q' ∨ q = q' ∧ (r < r' ∨ r = r' ∧ P) :=
  @lex_add_iff (· * base) (fun _ => base) (fun q => Nat.succ_mul q base) q q' r r' hr hr' P

namespace Timestamp

variable {a b : Timestamp}

/-- A local time is smaller where the first part that differs is. -/
theorem localTime_lex (P : Prop) :
    (a.localTime < b.localTime ∨ a.localTime = b.localTime ∧ P) ↔
      a.year < b.year ∨ a.year = b.year ∧ (a.month < b.month ∨ a.month = b.month ∧
        (a.day < b.day ∨ a.day = b.day ∧ (a.hour < b.hour ∨ a.hour = b.hour ∧
          (a.minute < b.minute ∨ a.minute = b.minute ∧ (a.second < b.second ∨
            a.second = b.second ∧ (a.nano < b.nano ∨ a.nano = b.nano ∧ P)))))) := by
  have hrest : ∀ t : Timestamp, daysBeforeMonth t.year t.month + (t.day - 1) < yearLength t.year := by
    intro t
    have hle : daysBeforeMonth t.year (t.month + 1) ≤ daysBeforeMonth t.year 13 :=
      daysBeforeMonth_mono (by have := t.month_le; omega)
    rw [daysBeforeMonth_thirteen, daysBeforeMonth] at hle
    have := t.day_pos
    have := t.day_le
    omega
  unfold localTime
  rw [lex_mul_iff a.nano_lt b.nano_lt, lex_mul_iff a.second_lt b.second_lt,
    lex_mul_iff a.minute_lt b.minute_lt, lex_mul_iff a.hour_lt b.hour_lt]
  unfold date
  rw [lex_add_iff daysBeforeYear_succ (hrest a) (hrest b)]
  refine or_congr Iff.rfl (and_congr_right fun hyear => ?_)
  have hday : ∀ t : Timestamp, t.day - 1 < monthLength t.year t.month := by
    intro t
    have := t.day_pos
    have := t.day_le
    omega
  have hb := hday b
  rw [← hyear] at hb ⊢
  rw [lex_add_iff (F := daysBeforeMonth a.year) (fun _ => rfl) (hday a) hb]
  have hposA := a.day_pos
  have hposB := b.day_pos
  refine or_congr Iff.rfl (and_congr_right fun _ => or_congr ?_ (and_congr_left fun _ => ?_))
  · omega
  · omega

end Timestamp

/-! ## The order of the texts -/

/-- What comes before a point and before every digit. -/
def Signed (s : List Char) : Prop := ∃ c rest, s = c :: rest ∧ c < '.'

theorem Signed.lt_cons {s t : List Char} (h : Signed s) {c : Char} (hc : '.' ≤ c) :
    s < c :: t := by
  obtain ⟨d, rest, rfl, hd⟩ := h
  exact List.cons_lt_cons_iff.mpr (.inl (Nat.lt_of_lt_of_le hd hc))

/-- A numeral begins with a digit. -/
theorem Signed.lt_zeroPadded {s t : List Char} (h : Signed s) {width n : Nat} :
    s < zeroPadded width n ++ t := by
  cases hdigits : zeroPadded width n with
  | nil =>
    have hne : digits n ≠ [] := digits_ne_nil n
    exact absurd (List.append_eq_nil_iff.mp hdigits).2 hne
  | cons c rest =>
    have hc : c.isDigit = true :=
      isDigit_of_mem_zeroPadded (hdigits ▸ List.mem_cons_self : c ∈ zeroPadded width n)
    simp only [Char.isDigit, Bool.and_eq_true, decide_eq_true_eq] at hc
    refine h.lt_cons (Nat.le_trans ?_ hc.1)
    decide

theorem cons_lt_cons_self_iff {c : Char} {s t : List Char} : c :: s < c :: t ↔ s < t :=
  append_lt_append_iff (a := [c])

/-- A part that is left out where it is zero. -/
theorem optional_lt_iff {n n' : Nat} {s s' : List Char} (hs : Signed s) (hs' : Signed s')
    {x x' : List Char} (hx : ∀ {t}, Signed t → t < x ++ s) (hx' : ∀ {t}, Signed t → t < x' ++ s')
    {Q : Prop} (hboth : n ≠ 0 → n' ≠ 0 → (x ++ s < x' ++ s' ↔ n < n' ∨ n = n' ∧ Q))
    (hQ : Q ↔ s < s') :
    (if n = 0 then [] else x) ++ s < (if n' = 0 then [] else x') ++ s' ↔ n < n' ∨ n = n' ∧ Q := by
  by_cases hn : n = 0
  · by_cases hn' : n' = 0
    · rw [if_pos hn, if_pos hn', List.nil_append, List.nil_append, hQ]
      exact ⟨fun h => .inr ⟨hn.trans hn'.symm, h⟩, fun h => (h.resolve_left (by omega)).2⟩
    · rw [if_pos hn, if_neg hn', List.nil_append]
      exact iff_of_true (hx' hs) (.inl (by omega))
  · by_cases hn' : n' = 0
    · rw [if_neg hn, if_pos hn', List.nil_append]
      refine iff_of_false (fun h => List.lt_asymm h (hx hs')) ?_
      omega
    · rw [if_neg hn, if_neg hn']
      exact hboth hn hn'

namespace Timestamp

/-- The last three digits. -/
theorem nanos_lt_iff {n n' : Nat} {s s' : List Char} (hs : Signed s) (hs' : Signed s') :
    (if n % 1000 = 0 then [] else zeroPadded 3 (n % 1000)) ++ s <
        (if n' % 1000 = 0 then [] else zeroPadded 3 (n' % 1000)) ++ s' ↔
      n % 1000 < n' % 1000 ∨ n % 1000 = n' % 1000 ∧ s < s' :=
  optional_lt_iff hs hs' (fun ht => ht.lt_zeroPadded) (fun ht => ht.lt_zeroPadded)
    (fun _ _ => zeroPadded_append_lt_iff (by omega) (by omega) (by omega)) Iff.rfl

/-- The last six digits. -/
theorem micros_lt_iff {n n' : Nat} {s s' : List Char} (hs : Signed s) (hs' : Signed s') :
    (if n % 1000000 = 0 then [] else zeroPadded 3 (n / 1000 % 1000) ++
          if n % 1000 = 0 then [] else zeroPadded 3 (n % 1000)) ++ s <
        (if n' % 1000000 = 0 then [] else zeroPadded 3 (n' / 1000 % 1000) ++
          if n' % 1000 = 0 then [] else zeroPadded 3 (n' % 1000)) ++ s' ↔
      n % 1000000 < n' % 1000000 ∨ n % 1000000 = n' % 1000000 ∧ s < s' := by
  have hsplit : ∀ n, n % 1000000 = n / 1000 % 1000 * 1000 + n % 1000 := by omega
  refine optional_lt_iff hs hs' ?_ ?_ (fun _ _ => ?_) Iff.rfl
  · intro t ht
    rw [List.append_assoc]
    exact ht.lt_zeroPadded
  · intro t ht
    rw [List.append_assoc]
    exact ht.lt_zeroPadded
  · rw [List.append_assoc, List.append_assoc, zeroPadded_append_lt_iff (by omega) (by omega)
      (by omega), nanos_lt_iff hs hs', hsplit n, hsplit n', lex_mul_iff (by omega) (by omega)]

theorem fraction_lt_iff {n n' : Nat} {s s' : List Char} (hs : Signed s) (hs' : Signed s')
    (hn : n < 1000000000) (hn' : n' < 1000000000) :
    fraction n ++ s < fraction n' ++ s' ↔ n < n' ∨ n = n' ∧ s < s' := by
  have hsplit : ∀ n, n = n / 1000000 * 1000000 + n % 1000000 := by omega
  refine optional_lt_iff hs hs' ?_ ?_ (fun _ _ => ?_) Iff.rfl
  · intro t ht
    exact ht.lt_cons (Nat.le_refl _)
  · intro t ht
    exact ht.lt_cons (Nat.le_refl _)
  · rw [List.cons_append, List.cons_append, cons_lt_cons_self_iff, List.append_assoc,
      List.append_assoc, zeroPadded_append_lt_iff (by omega) (by omega) (by omega),
      micros_lt_iff hs hs']
    conv_rhs => rw [hsplit n, hsplit n']
    rw [lex_mul_iff (by omega) (by omega)]

theorem signed_offsetText (offset : Int) : Signed (offsetText offset) := by
  unfold offsetText
  by_cases h : offset < 0
  · rw [if_pos h]
    exact ⟨'-', _, rfl, by decide⟩
  · rw [if_neg h]
    exact ⟨'+', _, rfl, by decide⟩

/-- Texts compare as the local times do, and then as the offsets. -/
theorem toRfc3339_lt_iff {a b : Timestamp} :
    a.toRfc3339 < b.toRfc3339 ↔ a.localTime < b.localTime ∨
      a.localTime = b.localTime ∧ offsetText a.offset < offsetText b.offset := by
  have hmonth : ∀ t : Timestamp, t.month < 10 ^ 2 := by
    intro t
    have := t.month_le
    omega
  have hday : ∀ t : Timestamp, t.day < 10 ^ 2 := by
    intro t
    have := t.day_le
    have : monthLength t.year t.month ≤ 31 := by
      unfold monthLength
      split
      · split <;> omega
      · split
        · omega
        · split <;> omega
    omega
  have hhour : ∀ t : Timestamp, t.hour < 10 ^ 2 := fun t => Nat.lt_trans t.hour_lt (by omega)
  have hminute : ∀ t : Timestamp, t.minute < 10 ^ 2 := fun t => Nat.lt_trans t.minute_lt (by omega)
  have hsecond : ∀ t : Timestamp, t.second < 10 ^ 2 := fun t => Nat.lt_trans t.second_lt (by omega)
  rw [localTime_lex]
  show String.ofList a.chars < String.ofList b.chars ↔ _
  rw [String.lt_iff_toList_lt, String.toList_ofList, String.toList_ofList]
  unfold chars
  rw [zeroPadded_append_lt_iff (by omega) a.year_lt b.year_lt, cons_lt_cons_self_iff,
    zeroPadded_append_lt_iff (by omega) (hmonth a) (hmonth b), cons_lt_cons_self_iff,
    zeroPadded_append_lt_iff (by omega) (hday a) (hday b), cons_lt_cons_self_iff,
    zeroPadded_append_lt_iff (by omega) (hhour a) (hhour b), cons_lt_cons_self_iff,
    zeroPadded_append_lt_iff (by omega) (hminute a) (hminute b), cons_lt_cons_self_iff,
    zeroPadded_append_lt_iff (by omega) (hsecond a) (hsecond b),
    fraction_lt_iff (signed_offsetText _) (signed_offsetText _) a.nano_lt b.nano_lt]

/-- East of UTC the offsets compare as their numbers do, then come those west of it, the
nearest first. -/
theorem offsetText_lt_iff {m n : Int} (hm : m.natAbs < 1440) (hn : n.natAbs < 1440) :
    offsetText m < offsetText n ↔ 0 ≤ m ∧ (m < n ∨ n < 0) ∨ m < 0 ∧ n < m := by
  have hdigits : zeroPadded 2 (m.natAbs / 60) ++ ':' :: zeroPadded 2 (m.natAbs % 60) <
      zeroPadded 2 (n.natAbs / 60) ++ ':' :: zeroPadded 2 (n.natAbs % 60) ↔
        m.natAbs < n.natAbs := by
    have hlast := @zeroPadded_append_lt_iff 2 (m.natAbs % 60) (n.natAbs % 60) [] [] (by omega)
      (by omega) (by omega)
    rw [List.append_nil, List.append_nil] at hlast
    rw [zeroPadded_append_lt_iff (by omega) (by omega) (by omega), cons_lt_cons_self_iff, hlast]
    have hnil : ¬ ([] : List Char) < [] := List.lt_irrefl []
    simp only [hnil, and_false, or_false]
    omega
  unfold offsetText
  rw [List.cons_lt_cons_iff, hdigits]
  by_cases hmneg : m < 0
  · by_cases hnneg : n < 0
    · simp only [if_pos hmneg, if_pos hnneg, Char.lt_irrefl, false_or, true_and]
      omega
    · simp only [if_pos hmneg, if_neg hnneg]
      have hsign : ¬ '-' < '+' := by decide
      refine iff_of_false (fun h => ?_) (by omega)
      rcases h with h | ⟨h, _⟩
      · exact hsign h
      · exact absurd h (by decide)
  · by_cases hnneg : n < 0
    · simp only [if_neg hmneg, if_pos hnneg]
      exact iff_of_true (.inl (by decide)) (by omega)
    · simp only [if_neg hmneg, if_neg hnneg, Char.lt_irrefl, false_or, true_and]
      omega

/-! ## Texts and instants -/

/-- The text of `a` may come before that of `b`: their offsets differ by no more than
their local times, and at one local time they are not both east of UTC, or one on it. -/
def OffsetsAgree (a b : Timestamp) : Prop :=
  (a.localTime < b.localTime →
    (b.offset - a.offset) * 60000000000 ≤ (b.localTime : Int) - a.localTime) ∧
  (a.localTime = b.localTime → 0 ≤ a.offset → b.offset ≤ a.offset)

instance (a b : Timestamp) : Decidable (OffsetsAgree a b) :=
  inferInstanceAs (Decidable (_ ∧ _))

theorem offsetsAgree_iff {a b : Timestamp} :
    OffsetsAgree a b ↔ (a.toRfc3339 < b.toRfc3339 → a.instant ≤ b.instant) := by
  rw [toRfc3339_lt_iff, offsetText_lt_iff a.offset_lt b.offset_lt]
  unfold OffsetsAgree instant
  constructor
  · rintro ⟨hlt, heq⟩ (h | ⟨h, hoffset⟩)
    · have := hlt h
      omega
    · have := heq h
      omega
  · intro h
    refine ⟨fun hlt => ?_, fun heq hpos => ?_⟩
    · have := h (.inl hlt)
      omega
    · refine Int.not_lt.mp fun hlt => ?_
      have := h (.inr ⟨heq, .inl ⟨hpos, .inl hlt⟩⟩)
      omega

/-- A text denotes one instant. -/
theorem instant_eq_of_toRfc3339_eq {a b : Timestamp} (h : a.toRfc3339 = b.toRfc3339) :
    a.instant = b.instant := by
  have hab : ¬ a.toRfc3339 < b.toRfc3339 := by
    rw [h]
    exact String.lt_irrefl _
  have hba : ¬ b.toRfc3339 < a.toRfc3339 := by
    rw [h]
    exact String.lt_irrefl _
  rw [toRfc3339_lt_iff, offsetText_lt_iff a.offset_lt b.offset_lt] at hab
  rw [toRfc3339_lt_iff, offsetText_lt_iff b.offset_lt a.offset_lt] at hba
  have hlocal : a.localTime = b.localTime := by omega
  have hoffset : a.offset = b.offset := by
    simp only [hlocal, Nat.lt_irrefl, true_and, false_or] at hab hba
    omega
  unfold instant
  rw [hlocal, hoffset]

end Timestamp

end Timestamps
end Lib
end Panops
