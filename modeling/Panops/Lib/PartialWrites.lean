import Mathlib.Data.List.Basic

/-!
# Writes that break off

A file that is only appended to, by writes any of which may fail behind a part of what
it was to write.  A writer that goes on as if nothing had landed is right in the end
exactly when every later write repeats what is left over.
-/

namespace Panops
namespace Lib
namespace PartialWrites

variable {β : Type}

/-- A write, and behind how many elements it fails, if it does. -/
structure Write (β : Type) where
  content : List β
  failsAfter : Option Nat

/-- What of it is in the file. -/
def Write.landed (w : Write β) : List β :=
  match w.failsAfter with
  | none => w.content
  | some n => w.content.take n

/-- What its caller counts as written. -/
def Write.acknowledged (w : Write β) : List β :=
  match w.failsAfter with
  | none => w.content
  | some _ => []

/-- Every write that succeeds begins like what is left over from before, followed by
itself. -/
def Repeats : List β → List (Write β) → Prop
  | _, [] => True
  | left, w :: ws =>
    match w.failsAfter with
    | none => w.content <+: left ++ w.content ∧ Repeats ((left ++ w.content).drop w.content.length) ws
    | some n => Repeats (left ++ w.content.take n) ws

variable {a x rest : List β} {ws : List (Write β)}

theorem append_isPrefix_append_iff (h : a.length ≤ x.length) (bs : List β) :
    a ++ bs <+: x ++ rest ↔ a <+: x ∧ bs <+: x.drop a.length ++ rest := by
  constructor
  · intro hboth
    have hax : a <+: x :=
      List.prefix_of_prefix_length_le ((List.prefix_append a bs).trans hboth)
        (List.prefix_append x rest) h
    obtain ⟨y, rfl⟩ := hax
    rw [List.append_assoc, List.prefix_append_right_inj] at hboth
    exact ⟨List.prefix_append a y, by simpa using hboth⟩
  · rintro ⟨⟨y, rfl⟩, hbs⟩
    rw [List.append_assoc, List.prefix_append_right_inj]
    simpa using hbs

/-- The file begins with what was acknowledged exactly when the writes repeat what is
left over. -/
theorem acknowledged_isPrefix_iff (left : List β) (ws : List (Write β)) :
    ws.flatMap Write.acknowledged <+: left ++ ws.flatMap Write.landed ↔ Repeats left ws := by
  induction ws generalizing left with
  | nil => simp [Repeats]
  | cons w ws ih =>
    rw [List.flatMap_cons, List.flatMap_cons, ← List.append_assoc]
    cases hfails : w.failsAfter with
    | none =>
      have hlength : w.content.length ≤ (left ++ w.content).length := by simp
      simp only [Repeats, hfails, Write.acknowledged, Write.landed]
      rw [append_isPrefix_append_iff hlength, ih]
    | some n =>
      simp only [Repeats, hfails, Write.acknowledged, Write.landed, List.nil_append]
      exact ih _

theorem length_acknowledged_le (ws : List (Write β)) :
    (ws.flatMap Write.acknowledged).length ≤ (ws.flatMap Write.landed).length := by
  induction ws with
  | nil => exact Nat.le_refl 0
  | cons w ws ih =>
    have hw : w.acknowledged.length ≤ w.landed.length := by
      unfold Write.acknowledged Write.landed
      cases w.failsAfter with
      | none => exact Nat.le_refl _
      | some n => exact Nat.zero_le _
    rw [List.flatMap_cons, List.flatMap_cons, List.length_append, List.length_append]
    omega

end PartialWrites
end Lib
end Panops
