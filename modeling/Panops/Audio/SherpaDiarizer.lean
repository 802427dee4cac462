import Panops.Lib.InPlace
import Panops.Lib.Numbering
import Panops.Lib.Sorting
import Panops.Segment

/-!
# Turns of the diarizer

`SherpaDiarizer::diarize` after the model has run: the turns are sorted, spurious small
speakers are folded into their neighbours, runs of one speaker are joined, the speakers
are numbered anew, and overlaps are cut.  Shares are exact.
-/

namespace Panops

open Lib Lib.Machine

namespace SherpaDiarizer

/-- `MINOR_SPEAKER_MAX_SHARE`. -/
def minorSpeakerMaxShare : ℚ := 1 / 20

/-- `turns.sort_by_key(|t| t.start_ms)`, which is stable. -/
def sortTurns (turns : List SpeakerTurn) : List SpeakerTurn :=
  turns.insertionSort fun a b => a.startMs ≤ b.startMs

def duration (t : SpeakerTurn) : Nat := t.endMs - t.startMs

def totals (turns : List SpeakerTurn) : List (UInt32 × Nat) :=
  turns.foldl (fun totals t => entryUpdate t.speakerId 0 (· + duration t) totals) []

def totalAll (turns : List SpeakerTurn) : Nat :=
  turns.foldl (fun total t => total + duration t) 0

/-- Only asked of speakers that have a turn, so that `totals[&spk]` is there. -/
def isMinor (turns : List SpeakerTurn) (spk : UInt32) : Bool :=
  (((totals turns).lookup spk).getD 0 : ℚ) < totalAll turns * minorSpeakerMaxShare

def hasMinor (turns : List SpeakerTurn) : Bool := (totals turns).any fun e => isMinor turns e.1

def hasMajor (turns : List SpeakerTurn) : Bool := (totals turns).any fun e => !isMinor turns e.1

/-- The closest major speaker before, else the closest one after. -/
def nearest (minor : UInt32 → Bool) (before after : List SpeakerTurn) : Option UInt32 :=
  ((before.reverse.map (·.speakerId)).find? fun spk => !minor spk).or
    ((after.map (·.speakerId)).find? fun spk => !minor spk)

/-- One round of the loop that relabels; `before` is relabelled already. -/
def relabel (minor : UInt32 → Bool) (before : List SpeakerTurn) (t : SpeakerTurn)
    (after : List SpeakerTurn) : SpeakerTurn :=
  if !minor t.speakerId then t
  else
    match nearest minor before after with
    | some spk => { t with speakerId := spk }
    | none => t

def mergeTurn (merged : List SpeakerTurn) (t : SpeakerTurn) : List SpeakerTurn :=
  match merged.getLast? with
  | some last =>
    if last.speakerId = t.speakerId then
      merged.dropLast ++ [{ last with endMs := max last.endMs t.endMs }]
    else merged ++ [t]
  | none => merged ++ [t]

/-- `remap`, `next` and the turns renumbered so far. -/
structure Renumbered where
  remap : List (UInt32 × UInt32)
  next : UInt32
  turns : List SpeakerTurn

def renumberTurn (st : Renumbered) (t : SpeakerTurn) : Renumbered :=
  match st.remap.lookup t.speakerId with
  | some id => { st with turns := st.turns ++ [{ t with speakerId := id }] }
  | none =>
    { remap := st.remap ++ [(t.speakerId, st.next)]
      next := st.next + 1
      turns := st.turns ++ [{ t with speakerId := st.next }] }

def renumber (turns : List SpeakerTurn) : List SpeakerTurn :=
  (turns.foldl renumberTurn ⟨[], 0, []⟩).turns

/-- What is renumbered: the runs that relabelling leaves. -/
def majorRuns (turns : List SpeakerTurn) : List SpeakerTurn :=
  (InPlace.loop (relabel (isMinor turns)) turns).foldl mergeTurn []

def collapseMinorSpeakers (turns : List SpeakerTurn) : List SpeakerTurn :=
  if turns = [] then turns
  else if totalAll turns = 0 then turns
  else if !hasMinor turns || !hasMajor turns then turns
  else renumber (majorRuns turns)

/-- One round of the loop that clamps; the first turn has none before it. -/
def clamp (before : List SpeakerTurn) (t : SpeakerTurn) (_ : List SpeakerTurn) : SpeakerTurn :=
  match before.getLast? with
  | some prev =>
    let startMs := if t.startMs < prev.endMs then prev.endMs else t.startMs
    { t with startMs := startMs, endMs := if t.endMs < startMs then startMs else t.endMs }
  | none => t

/-- From the segments of the model to the turns that are returned. -/
def diarize (raw : List SpeakerTurn) : List SpeakerTurn :=
  InPlace.loop clamp (collapseMinorSpeakers (sortTurns raw))

/-! ## Shares -/

/-- All that a speaker says. -/
def speech (turns : List SpeakerTurn) (spk : UInt32) : Nat :=
  ((turns.filter (·.speakerId = spk)).map duration).sum

/-- The speaker has a turn, and at least the least share of all speech. -/
def Major (turns : List SpeakerTurn) (spk : UInt32) : Prop :=
  (∃ t ∈ turns, t.speakerId = spk) ∧
    ((turns.map duration).sum : ℚ) * minorSpeakerMaxShare ≤ speech turns spk

/-- Someone speaks, and some speakers are minor and some are not. -/
def Acts (turns : List SpeakerTurn) : Prop :=
  (turns.map duration).sum ≠ 0 ∧ (∃ t ∈ turns, ¬ Major turns t.speakerId) ∧
    ∃ t ∈ turns, Major turns t.speakerId

theorem totals_concat (turns : List SpeakerTurn) (t : SpeakerTurn) :
    totals (turns ++ [t]) = entryUpdate t.speakerId 0 (· + duration t) (totals turns) := by
  rw [totals, List.foldl_append]
  rfl

theorem lookup_totals (turns : List SpeakerTurn) (spk : UInt32) :
    ((totals turns).lookup spk).getD 0 = speech turns spk := by
  induction turns using List.reverseRecOn with
  | nil => rfl
  | append_singleton turns t ih =>
    rw [totals_concat, lookup_entryUpdate, speech, List.filter_append]
    by_cases h : spk = t.speakerId
    · subst h
      rw [if_pos rfl, Option.getD_some, ih]
      simp [speech]
    · rw [if_neg h, ih]
      simp [speech, Ne.symm h]

theorem totalAll_eq (turns : List SpeakerTurn) : totalAll turns = (turns.map duration).sum := by
  have hfrom : ∀ (turns : List SpeakerTurn) (n : Nat),
      turns.foldl (fun total t => total + duration t) n = n + (turns.map duration).sum := by
    intro turns
    induction turns with
    | nil => exact fun n => rfl
    | cons t turns ih =>
      intro n
      rw [List.foldl_cons, ih, List.map_cons, List.sum_cons, Nat.add_assoc]
  rw [totalAll, hfrom, Nat.zero_add]

theorem mem_keys_totals {turns : List SpeakerTurn} {spk : UInt32} :
    spk ∈ (totals turns).map Prod.fst ↔ ∃ t ∈ turns, t.speakerId = spk := by
  induction turns using List.reverseRecOn with
  | nil => simp [totals]
  | append_singleton turns t ih =>
    rw [totals_concat, mem_keys_entryUpdate, ih]
    simp only [List.mem_append, List.mem_singleton, or_and_right, exists_or, exists_eq_left]
    rw [or_comm, eq_comm]

theorem isMinor_eq_false_iff {turns : List SpeakerTurn} {spk : UInt32}
    (h : ∃ t ∈ turns, t.speakerId = spk) : isMinor turns spk = false ↔ Major turns spk := by
  rw [isMinor, lookup_totals, totalAll_eq, decide_eq_false_iff_not, not_lt]
  exact ⟨fun hle => ⟨h, hle⟩, And.right⟩

theorem hasMinor_iff {turns : List SpeakerTurn} :
    hasMinor turns = true ↔ ∃ t ∈ turns, ¬ Major turns t.speakerId := by
  rw [hasMinor, List.any_eq_true]
  constructor
  · rintro ⟨e, he, hminor⟩
    obtain ⟨t, ht, hspk⟩ := mem_keys_totals.mp (List.mem_map_of_mem (f := Prod.fst) he)
    refine ⟨t, ht, fun hmajor => ?_⟩
    rw [hspk, ← isMinor_eq_false_iff ⟨t, ht, hspk⟩, hminor] at hmajor
    cases hmajor
  · rintro ⟨t, ht, hminor⟩
    obtain ⟨e, he, hspk⟩ := List.mem_map.mp (mem_keys_totals.mpr ⟨t, ht, rfl⟩)
    refine ⟨e, he, ?_⟩
    rw [hspk]
    rw [← isMinor_eq_false_iff ⟨t, ht, rfl⟩] at hminor
    simpa using hminor

theorem hasMajor_iff {turns : List SpeakerTurn} :
    hasMajor turns = true ↔ ∃ t ∈ turns, Major turns t.speakerId := by
  rw [hasMajor, List.any_eq_true]
  constructor
  · rintro ⟨e, he, hmajor⟩
    obtain ⟨t, ht, hspk⟩ := mem_keys_totals.mp (List.mem_map_of_mem (f := Prod.fst) he)
    refine ⟨t, ht, ?_⟩
    rw [hspk, ← isMinor_eq_false_iff ⟨t, ht, hspk⟩]
    simpa using hmajor
  · rintro ⟨t, ht, hmajor⟩
    obtain ⟨e, he, hspk⟩ := List.mem_map.mp (mem_keys_totals.mpr ⟨t, ht, rfl⟩)
    refine ⟨e, he, ?_⟩
    rw [hspk, (isMinor_eq_false_iff ⟨t, ht, rfl⟩).mpr hmajor]
    rfl

/-- The order of the turns does not matter for the shares. -/
theorem major_perm {turns turns' : List SpeakerTurn} (hperm : turns.Perm turns') (spk : UInt32) :
    Major turns spk ↔ Major turns' spk := by
  have hspeech : speech turns spk = speech turns' spk :=
    ((hperm.filter _).map duration).sum_nat
  have hall : (turns.map duration).sum = (turns'.map duration).sum := (hperm.map duration).sum_nat
  rw [Major, Major, hspeech, hall]
  refine and_congr_left' ?_
  constructor
  · rintro ⟨t, ht, hspk⟩
    exact ⟨t, hperm.mem_iff.mp ht, hspk⟩
  · rintro ⟨t, ht, hspk⟩
    exact ⟨t, hperm.mem_iff.mpr ht, hspk⟩

theorem collapseMinorSpeakers_of_acts {turns : List SpeakerTurn} (h : Acts turns) :
    collapseMinorSpeakers turns = renumber (majorRuns turns) := by
  obtain ⟨hsome, hminor, hmajor⟩ := h
  have hne : turns ≠ [] := by
    rintro rfl
    exact hsome rfl
  rw [collapseMinorSpeakers, if_neg hne, totalAll_eq, if_neg hsome, hasMinor_iff.mpr hminor,
    hasMajor_iff.mpr hmajor]
  rfl

theorem collapseMinorSpeakers_of_not_acts {turns : List SpeakerTurn} (h : ¬ Acts turns) :
    collapseMinorSpeakers turns = turns := by
  unfold collapseMinorSpeakers
  split
  · rfl
  split
  · rfl
  · next hsome =>
    rw [totalAll_eq] at hsome
    rw [if_pos]
    by_contra hneither
    simp only [Bool.or_eq_true, Bool.not_eq_true', not_or, Bool.not_eq_false] at hneither
    exact h ⟨hsome, hasMinor_iff.mp hneither.1, hasMajor_iff.mp hneither.2⟩

end SherpaDiarizer
end Panops
