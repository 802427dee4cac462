import Mathlib.Data.List.Perm.Subperm
import Panops.Audio.SherpaDiarizer

/-!
# What the diarizer's passes keep

Relabelling, joining, renumbering and clamping one after the other: the order of the
turns, what they cover, and who speaks in them.
-/

namespace Panops

open Lib Lib.Machine

def SpeakerTurn.Covers (t : SpeakerTurn) (x : Nat) : Prop := t.startMs ≤ x ∧ x < t.endMs

namespace SherpaDiarizer

/-- Turns in the order of their starts, none of them backwards. -/
structure InOrder (turns : List SpeakerTurn) : Prop where
  sorted : turns.Pairwise fun a b => a.startMs ≤ b.startMs
  ordered : ∀ t ∈ turns, t.startMs ≤ t.endMs

theorem inOrder_sortTurns {raw : List SpeakerTurn} (h : ∀ t ∈ raw, t.startMs ≤ t.endMs) :
    InOrder (sortTurns raw) where
  sorted := Sorting.pairwise_insertionSort (k := SpeakerTurn.startMs) (fun _ _ => Iff.rfl) raw
  ordered t ht := h t ((List.mem_insertionSort _).mp ht)

/-! ## Relabelling -/

section Relabel

variable {minor : UInt32 → Bool} {turns before after : List SpeakerTurn} {t : SpeakerTurn}
  {spk : UInt32}

theorem nearest_eq_some (h : nearest minor before after = some spk) :
    minor spk = false ∧ ∃ u ∈ before ++ after, u.speakerId = spk := by
  rw [nearest, Option.or_eq_some_iff] at h
  rcases h with h | ⟨-, h⟩
  · have hspk := List.find?_some h
    obtain ⟨u, hu, hid⟩ := List.mem_map.mp (List.mem_of_find?_eq_some h)
    exact ⟨by simpa using hspk, u, List.mem_append_left _ (List.mem_reverse.mp hu), hid⟩
  · have hspk := List.find?_some h
    obtain ⟨u, hu, hid⟩ := List.mem_map.mp (List.mem_of_find?_eq_some h)
    exact ⟨by simpa using hspk, u, List.mem_append_right _ hu, hid⟩

theorem nearest_eq_none (h : nearest minor before after = none) {u : SpeakerTurn}
    (hu : u ∈ before ++ after) : minor u.speakerId = true := by
  rw [nearest, Option.or_eq_none_iff, List.find?_eq_none, List.find?_eq_none] at h
  rcases List.mem_append.mp hu with hu | hu
  · have hno := h.1 u.speakerId (List.mem_map_of_mem (List.mem_reverse.mpr hu))
    simpa using hno
  · have hno := h.2 u.speakerId (List.mem_map_of_mem hu)
    simpa using hno

/-- A turn and what relabelling makes of it. -/
structure Relabelled (minor : UInt32 → Bool) (turns : List SpeakerTurn) (t t' : SpeakerTurn) :
    Prop where
  start : t'.startMs = t.startMs
  stop : t'.endMs = t.endMs
  major : minor t'.speakerId = false
  known : ∃ u ∈ turns, u.speakerId = t'.speakerId
  kept : minor t.speakerId = false → t' = t

theorem relabelled_relabel {front : List SpeakerTurn} (hturns : turns = front ++ t :: after)
    (hbefore : InPlace.Matches (Relabelled minor turns) front before)
    (hmajor : ∃ u ∈ turns, minor u.speakerId = false) :
    Relabelled minor turns t (relabel minor before t after) := by
  have hmem : t ∈ turns := by simp [hturns]
  unfold relabel
  cases hminor : minor t.speakerId with
  | false => exact ⟨rfl, rfl, hminor, ⟨t, hmem, rfl⟩, fun _ => rfl⟩
  | true =>
    cases hnearest : nearest minor before after with
    | some spk =>
      obtain ⟨hspk, u, hu, hid⟩ := nearest_eq_some hnearest
      refine ⟨rfl, rfl, hspk, ?_, fun h => by rw [hminor] at h; cases h⟩
      rcases List.mem_append.mp hu with hu | hu
      · obtain ⟨u₀, -, hrel⟩ := hbefore.right u hu
        obtain ⟨w, hw, hwid⟩ := hrel.known
        exact ⟨w, hw, hwid.trans hid⟩
      · exact ⟨u, by simp [hturns, hu], hid⟩
    | none =>
      -- some speaker is major, and it is found on one side or the other
      exfalso
      obtain ⟨u, hu, hmaj⟩ := hmajor
      rw [hturns, List.mem_append, List.mem_cons] at hu
      rcases hu with hu | rfl | hu
      · obtain ⟨u', hu', hrel⟩ := hbefore.left u hu
        have hno := nearest_eq_none hnearest (List.mem_append_left _ hu')
        rw [hrel.major] at hno
        cases hno
      · rw [hminor] at hmaj
        cases hmaj
      · have hno := nearest_eq_none hnearest (List.mem_append_right _ hu)
        rw [hmaj] at hno
        cases hno

theorem relabelled_loop (hmajor : ∃ u ∈ turns, minor u.speakerId = false) :
    InPlace.Matches (Relabelled minor turns) turns (InPlace.loop (relabel minor) turns) :=
  InPlace.loop_matches fun _ _ _ _ hturns hbefore => relabelled_relabel hturns hbefore hmajor

theorem inOrder_relabel (h : InOrder turns) : InOrder (InPlace.loop (relabel minor) turns) := by
  have hsame : ∀ before t after, ((relabel minor before t after).startMs,
      (relabel minor before t after).endMs) = (t.startMs, t.endMs) := by
    intro before t after
    unfold relabel
    split
    · rfl
    · split <;> rfl
  have hmap := InPlace.map_loop (g := fun t => (t.startMs, t.endMs)) hsame turns
  constructor
  · have hpairs : (turns.map fun t => (t.startMs, t.endMs)).Pairwise fun a b => a.1 ≤ b.1 :=
      List.pairwise_map.mpr h.sorted
    rw [← hmap, List.pairwise_map] at hpairs
    exact hpairs
  · intro t ht
    have hmem : (t.startMs, t.endMs) ∈ turns.map fun t => (t.startMs, t.endMs) := by
      rw [← hmap]
      exact List.mem_map_of_mem ht
    obtain ⟨u, hu, heq⟩ := List.mem_map.mp hmem
    obtain ⟨hstart, hend⟩ := Prod.mk.inj heq
    have hle := h.ordered u hu
    omega

end Relabel

/-! ## Joining runs -/

section Merge

variable {turns merged : List SpeakerTurn} {t : SpeakerTurn}

/-- Runs of turns: each turn lies in a run of its speaker. -/
structure RunsOf (turns merged : List SpeakerTurn) : Prop where
  inOrder : InOrder merged
  inside : ∀ t ∈ turns, ∃ m ∈ merged, m.speakerId = t.speakerId ∧ m.startMs ≤ t.startMs ∧
    t.endMs ≤ m.endMs
  known : ∀ m ∈ merged, ∃ t ∈ turns, t.speakerId = m.speakerId
  starts : ∀ m ∈ merged, ∃ t ∈ turns, t.startMs = m.startMs

theorem runsOf_nil : RunsOf [] [] where
  inOrder := ⟨List.Pairwise.nil, by simp⟩
  inside := by simp
  known := by simp
  starts := by simp

theorem RunsOf.push (h : RunsOf turns merged) (hlast : ∀ u ∈ turns, u.startMs ≤ t.startMs)
    (ht : t.startMs ≤ t.endMs) : RunsOf (turns ++ [t]) (merged ++ [t]) where
  inOrder := by
    constructor
    · refine List.pairwise_append.mpr ⟨h.inOrder.sorted, List.pairwise_singleton _ t, ?_⟩
      intro m hm u hu
      rw [List.mem_singleton.mp hu]
      obtain ⟨w, hw, hstart⟩ := h.starts m hm
      rw [← hstart]
      exact hlast w hw
    · intro m hm
      rcases List.mem_append.mp hm with hm | hm
      · exact h.inOrder.ordered m hm
      · rwa [List.mem_singleton.mp hm]
  inside u hu := by
    rcases List.mem_append.mp hu with hu | hu
    · obtain ⟨m, hm, hin⟩ := h.inside u hu
      exact ⟨m, List.mem_append_left _ hm, hin⟩
    · exact ⟨u, List.mem_append_right _ hu, rfl, Nat.le_refl _, Nat.le_refl _⟩
  known m hm := by
    rcases List.mem_append.mp hm with hm | hm
    · obtain ⟨u, hu, hid⟩ := h.known m hm
      exact ⟨u, List.mem_append_left _ hu, hid⟩
    · exact ⟨m, List.mem_append_right _ hm, rfl⟩
  starts m hm := by
    rcases List.mem_append.mp hm with hm | hm
    · obtain ⟨u, hu, hstart⟩ := h.starts m hm
      exact ⟨u, List.mem_append_left _ hu, hstart⟩
    · exact ⟨m, List.mem_append_right _ hm, rfl⟩

theorem RunsOf.extend {front : List SpeakerTurn} {last : SpeakerTurn}
    (h : RunsOf turns (front ++ [last])) (hlast : ∀ u ∈ turns, u.startMs ≤ t.startMs)
    (hspk : last.speakerId = t.speakerId) :
    RunsOf (turns ++ [t]) (front ++ [{ last with endMs := max last.endMs t.endMs }]) where
  inOrder := by
    obtain ⟨hfront, -, hbefore⟩ := List.pairwise_append.mp h.inOrder.sorted
    constructor
    · refine List.pairwise_append.mpr ⟨hfront, List.pairwise_singleton _ _, ?_⟩
      intro m hm u hu
      rw [List.mem_singleton.mp hu]
      exact hbefore m hm last (List.mem_singleton_self last)
    · intro m hm
      rcases List.mem_append.mp hm with hm | hm
      · exact h.inOrder.ordered m (List.mem_append_left _ hm)
      · rw [List.mem_singleton.mp hm]
        have hle := h.inOrder.ordered last (by simp)
        show last.startMs ≤ max last.endMs t.endMs
        omega
  inside u hu := by
    rcases List.mem_append.mp hu with hu | hu
    · obtain ⟨m, hm, hid, hstart, hend⟩ := h.inside u hu
      rcases List.mem_append.mp hm with hm | hm
      · exact ⟨m, List.mem_append_left _ hm, hid, hstart, hend⟩
      · rw [List.mem_singleton.mp hm] at hid hstart hend
        refine ⟨_, List.mem_append_right _ (List.mem_singleton_self _), hid, hstart, ?_⟩
        show u.endMs ≤ max last.endMs t.endMs
        omega
    · rw [List.mem_singleton.mp hu]
      obtain ⟨w, hw, hstart⟩ := h.starts last (by simp)
      have hle := hlast w hw
      refine ⟨_, List.mem_append_right _ (List.mem_singleton_self _), hspk, ?_, ?_⟩
      · show last.startMs ≤ t.startMs
        omega
      · show t.endMs ≤ max last.endMs t.endMs
        omega
  known m hm := by
    rcases List.mem_append.mp hm with hm | hm
    · obtain ⟨u, hu, hid⟩ := h.known m (List.mem_append_left _ hm)
      exact ⟨u, List.mem_append_left _ hu, hid⟩
    · rw [List.mem_singleton.mp hm]
      exact ⟨t, List.mem_append_right _ (List.mem_singleton_self t), hspk.symm⟩
  starts m hm := by
    rcases List.mem_append.mp hm with hm | hm
    · obtain ⟨u, hu, hstart⟩ := h.starts m (List.mem_append_left _ hm)
      exact ⟨u, List.mem_append_left _ hu, hstart⟩
    · rw [List.mem_singleton.mp hm]
      obtain ⟨u, hu, hstart⟩ := h.starts last (by simp)
      exact ⟨u, List.mem_append_left _ hu, hstart⟩

theorem RunsOf.mergeTurn (h : RunsOf turns merged) (hlast : ∀ u ∈ turns, u.startMs ≤ t.startMs)
    (ht : t.startMs ≤ t.endMs) : RunsOf (turns ++ [t]) (mergeTurn merged t) := by
  rcases List.eq_nil_or_concat merged with rfl | ⟨front, last, rfl⟩
  · exact h.push hlast ht
  · rw [List.concat_eq_append] at h ⊢
    rw [SherpaDiarizer.mergeTurn, List.getLast?_concat, List.dropLast_concat]
    by_cases hspk : last.speakerId = t.speakerId
    · show RunsOf _ (if last.speakerId = t.speakerId then _ else _)
      rw [if_pos hspk]
      exact h.extend hlast hspk
    · show RunsOf _ (if last.speakerId = t.speakerId then _ else _)
      rw [if_neg hspk]
      exact h.push hlast ht

theorem runsOf_foldl (h : InOrder turns) : RunsOf turns (turns.foldl mergeTurn []) := by
  have hfold : ∀ rest done merged : List SpeakerTurn, InOrder (done ++ rest) →
      RunsOf done merged → RunsOf (done ++ rest) (rest.foldl SherpaDiarizer.mergeTurn merged) := by
    intro rest
    induction rest with
    | nil => exact fun done merged _ hruns => by simpa using hruns
    | cons t rest ih =>
      intro done merged horder hruns
      have hlast : ∀ u ∈ done, u.startMs ≤ t.startMs := fun u hu =>
        (List.pairwise_append.mp horder.sorted).2.2 u hu t List.mem_cons_self
      have ht : t.startMs ≤ t.endMs := horder.ordered t (by simp)
      rw [List.append_cons] at horder ⊢
      exact ih (done ++ [t]) _ horder (hruns.mergeTurn hlast ht)
  exact hfold turns [] [] h runsOf_nil

end Merge

/-! ## Renumbering -/

section Renumber

variable {turns : List SpeakerTurn} {ks : List UInt32} {k k' : UInt32}

/-- The number that is given to a speaker, when the speakers appear in this order. -/
def numberOf (ks : List UInt32) (k : UInt32) : UInt32 := UInt32.ofNat (ks.idxOf k)

def speakers (turns : List SpeakerTurn) : List UInt32 :=
  Numbering.firsts (turns.map (·.speakerId))

def renamed (number : UInt32 → UInt32) (t : SpeakerTurn) : SpeakerTurn :=
  { t with speakerId := number t.speakerId }

theorem lookup_map_pair {β : Type} (g : UInt32 → β) (ks : List UInt32) (k : UInt32) :
    (ks.map fun a => (a, g a)).lookup k = if k ∈ ks then some (g k) else none := by
  induction ks with
  | nil => rfl
  | cons a ks ih =>
    rw [List.map_cons, List.lookup_cons]
    by_cases h : k = a
    · simp [h]
    · rw [beq_eq_false_iff_ne.mpr h]
      simp [ih, h]

theorem foldl_renumberTurn (turns : List SpeakerTurn) :
    turns.foldl renumberTurn ⟨[], 0, []⟩ =
      ⟨(speakers turns).map fun k => (k, numberOf (speakers turns) k),
        UInt32.ofNat (speakers turns).length,
        turns.map (renamed (numberOf (speakers turns)))⟩ := by
  induction turns using List.reverseRecOn with
  | nil => rfl
  | append_singleton turns t ih =>
    have hmeet : speakers (turns ++ [t]) = Numbering.meet (speakers turns) t.speakerId := by
      rw [speakers, List.map_append, List.map_singleton, Numbering.firsts_concat]
      rfl
    have hold : ∀ k ∈ speakers turns,
        numberOf (speakers (turns ++ [t])) k = numberOf (speakers turns) k := by
      intro k hk
      rw [numberOf, hmeet, Numbering.idxOf_meet hk]
      rfl
    have hturns : turns.map (renamed (numberOf (speakers (turns ++ [t])))) =
        turns.map (renamed (numberOf (speakers turns))) := by
      refine List.map_congr_left fun u hu => ?_
      rw [renamed, hold u.speakerId (Numbering.mem_firsts.mpr (List.mem_map_of_mem hu))]
      rfl
    rw [List.foldl_append, ih, List.foldl_cons, List.foldl_nil, renumberTurn, lookup_map_pair,
      List.map_append, hturns]
    by_cases hmem : t.speakerId ∈ speakers turns
    · have hsame : speakers (turns ++ [t]) = speakers turns := by rw [hmeet, Numbering.meet,
        if_pos hmem]
      rw [if_pos hmem, hsame]
      rfl
    · have hnew : speakers (turns ++ [t]) = speakers turns ++ [t.speakerId] := by
        rw [hmeet, Numbering.meet, if_neg hmem]
      have hnumber : numberOf (speakers (turns ++ [t])) t.speakerId =
          UInt32.ofNat (speakers turns).length := by
        rw [numberOf, hnew, List.idxOf_append_of_notMem hmem, List.idxOf_cons_self, Nat.add_zero]
      have hmap : (speakers turns).map (fun k => (k, numberOf (speakers (turns ++ [t])) k)) =
          (speakers turns).map fun k => (k, numberOf (speakers turns) k) :=
        List.map_congr_left fun k hk => by rw [hold k hk]
      rw [if_neg hmem]
      simp only [Renumbered.mk.injEq]
      refine ⟨?_, ?_, ?_⟩
      · rw [← hmap, ← hnumber]
        conv => rhs; arg 2; rw [hnew]
        rw [List.map_append, List.map_singleton]
      · rw [hnew, List.length_append, List.length_singleton, UInt32.ofNat_add]
        rfl
      · rw [List.map_singleton, renamed, hnumber]

theorem renumber_eq (turns : List SpeakerTurn) :
    renumber turns = turns.map (renamed (numberOf (speakers turns))) := by
  rw [renumber, foldl_renumberTurn]

theorem length_le_of_nodup (h : ks.Nodup) : ks.length ≤ 2 ^ 32 := by
  have hsub : ks.map UInt32.toNat ⊆ List.range (2 ^ 32) := by
    intro n hn
    obtain ⟨k, -, rfl⟩ := List.mem_map.mp hn
    exact List.mem_range.mpr k.toNat_lt
  have hnodup : (ks.map UInt32.toNat).Nodup :=
    h.map fun _ _ heq => UInt32.toNat_inj.mp heq
  have hle := (hnodup.subperm hsub).length_le
  rwa [List.length_map, List.length_range] at hle

theorem toNat_numberOf (hnodup : ks.Nodup) (h : k ∈ ks) :
    (numberOf ks k).toNat = ks.idxOf k := by
  have hlt := List.idxOf_lt_length_of_mem h
  have hle := length_le_of_nodup hnodup
  rw [numberOf, UInt32.toNat_ofNat', Nat.mod_eq_of_lt (by omega)]

theorem numberOf_inj (hnodup : ks.Nodup) (h : k ∈ ks) (h' : k' ∈ ks)
    (heq : numberOf ks k = numberOf ks k') : k = k' := by
  have hidx := congrArg UInt32.toNat heq
  rw [toNat_numberOf hnodup h, toNat_numberOf hnodup h'] at hidx
  exact (List.idxOf_inj h).mp hidx

theorem exists_smaller_before {i : Nat} {t : SpeakerTurn} (hi : (renumber turns)[i]? = some t)
    {id : UInt32} (hid : id < t.speakerId) :
    ∃ j < i, ∃ u, (renumber turns)[j]? = some u ∧ u.speakerId = id := by
  have hnodup : (speakers turns).Nodup := Numbering.nodup_firsts _
  have hmem : ∀ {u}, u ∈ turns → u.speakerId ∈ speakers turns :=
    fun hu => Numbering.mem_firsts.mpr (List.mem_map_of_mem hu)
  rw [renumber_eq, List.getElem?_map] at hi
  obtain ⟨u, hu, rfl⟩ := Option.map_eq_some_iff.mp hi
  have hlt : id.toNat < (speakers turns).idxOf u.speakerId := by
    rw [← toNat_numberOf hnodup (hmem (List.mem_of_getElem? hu))]
    exact UInt32.lt_iff_toNat_lt.mp hid
  have hi' : (turns.map (·.speakerId))[i]? = some u.speakerId := by
    rw [List.getElem?_map, hu]
    rfl
  obtain ⟨j, hj, k, hk, hidx⟩ := Numbering.exists_before hi' hlt
  rw [List.getElem?_map] at hk
  obtain ⟨w, hw, rfl⟩ := Option.map_eq_some_iff.mp hk
  refine ⟨j, hj, renamed (numberOf (speakers turns)) w, ?_, ?_⟩
  · rw [renumber_eq, List.getElem?_map, hw]
    rfl
  · apply UInt32.toNat_inj.mp
    show (numberOf (speakers turns) w.speakerId).toNat = id.toNat
    rw [toNat_numberOf hnodup (hmem (List.mem_of_getElem? hw))]
    exact hidx

end Renumber

/-! ## Clamping -/

section Clamp

variable {turns front done rest : List SpeakerTurn} {t : SpeakerTurn}

/-- The turns so far and what they are clamped to. -/
structure Clamped (front done : List SpeakerTurn) : Prop where
  apart : done.Pairwise fun a b => a.endMs ≤ b.startMs
  ordered : ∀ t ∈ done, t.startMs ≤ t.endMs
  covers : ∀ x, (∃ t ∈ front, t.Covers x) ↔ ∃ t ∈ done, t.Covers x
  /-- The last turn ends last, where one of the given turns ends. -/
  reached : ∀ last, done.getLast? = some last →
    (∀ t ∈ done, t.endMs ≤ last.endMs) ∧ ∃ t ∈ front, t.endMs = last.endMs

theorem exists_mem_concat {P : SpeakerTurn → Prop} {ts : List SpeakerTurn} {t : SpeakerTurn} :
    (∃ u ∈ ts ++ [t], P u) ↔ (∃ u ∈ ts, P u) ∨ P t := by
  simp only [List.mem_append, List.mem_singleton, or_and_right, exists_or, exists_eq_left]

theorem Clamped.clamp (h : Clamped front done) (hlast : ∀ u ∈ front, u.startMs ≤ t.startMs)
    (ht : t.startMs ≤ t.endMs) : Clamped (front ++ [t]) (done ++ [clamp done t rest]) := by
  cases hprev : done.getLast? with
  | none =>
    obtain rfl := List.getLast?_eq_none_iff.mp hprev
    have hfirst : SherpaDiarizer.clamp [] t rest = t := rfl
    rw [hfirst]
    refine ⟨List.pairwise_singleton _ t, fun u hu => ?_, fun x => ?_, fun last hl => ?_⟩
    · rwa [List.mem_singleton.mp hu]
    · rw [exists_mem_concat, exists_mem_concat, h.covers x]
    · obtain rfl : t = last := by simpa using hl
      refine ⟨fun u hu => ?_, t, List.mem_append_right _ (List.mem_singleton_self t), rfl⟩
      rw [List.mem_singleton.mp hu]
  | some prev =>
    obtain ⟨hmax, w, hw, hend⟩ := h.reached prev hprev
    obtain ⟨t', ht', hstart', hend'⟩ : ∃ t', SherpaDiarizer.clamp done t rest = t' ∧
        t'.startMs = max t.startMs prev.endMs ∧ t'.endMs = max t.endMs prev.endMs := by
      refine ⟨_, rfl, ?_, ?_⟩
      · simp only [SherpaDiarizer.clamp, hprev]
        split <;> omega
      · simp only [SherpaDiarizer.clamp, hprev]
        split <;> split <;> omega
    rw [ht']
    refine ⟨?_, fun u hu => ?_, fun x => ?_, fun last hl => ?_⟩
    · refine List.pairwise_append.mpr ⟨h.apart, List.pairwise_singleton _ t', fun u hu v hv => ?_⟩
      have hle := hmax u hu
      rw [List.mem_singleton.mp hv, hstart']
      omega
    · rcases List.mem_append.mp hu with hu | hu
      · exact h.ordered u hu
      · rw [List.mem_singleton.mp hu]
        omega
    · rw [exists_mem_concat, exists_mem_concat, ← h.covers x]
      constructor
      · rintro (hx | hx)
        · exact .inl hx
        · -- what is cut away is covered by the turn that ends where the cut is
          obtain ⟨hlo, hhi⟩ : t.startMs ≤ x ∧ x < t.endMs := hx
          by_cases hcut : x < prev.endMs
          · refine .inl ⟨w, hw, ?_, by omega⟩
            have hle := hlast w hw
            omega
          · refine .inr ⟨?_, ?_⟩
            · omega
            · omega
      · rintro (hx | hx)
        · exact .inl hx
        · obtain ⟨hlo, hhi⟩ : t'.startMs ≤ x ∧ x < t'.endMs := hx
          refine .inr ⟨?_, ?_⟩
          · omega
          · omega
    · obtain rfl : t' = last := by simpa using hl
      refine ⟨fun u hu => ?_, ?_⟩
      · rcases List.mem_append.mp hu with hu | hu
        · have hle := hmax u hu
          omega
        · rw [List.mem_singleton.mp hu]
      · rcases Nat.le_total prev.endMs t.endMs with hle | hle
        · exact ⟨t, List.mem_append_right _ (List.mem_singleton_self t), by omega⟩
        · exact ⟨w, List.mem_append_left _ hw, by omega⟩

theorem clamped_loop (h : InOrder turns) : Clamped turns (InPlace.loop clamp turns) := by
  have hpass := @InPlace.pass_invariant _ clamp [] turns
    (fun done rest => ∃ front, turns = front ++ rest ∧ Clamped front done)
    (fun done t rest hdone => by
      obtain ⟨front, hturns, hclamped⟩ := hdone
      have horder := h
      rw [hturns] at horder
      have hlast : ∀ u ∈ front, u.startMs ≤ t.startMs := fun u hu =>
        (List.pairwise_append.mp horder.sorted).2.2 u hu t List.mem_cons_self
      refine ⟨front ++ [t], by rw [hturns, List.append_assoc]; rfl, ?_⟩
      exact hclamped.clamp hlast (horder.ordered t (by simp)))
    ⟨[], rfl, ⟨List.Pairwise.nil, by simp, by simp, by simp⟩⟩
  obtain ⟨front, hturns, hall⟩ := hpass
  rw [List.append_nil] at hturns
  rw [InPlace.loop_eq_pass]
  rw [← hturns] at hall
  exact hall

end Clamp

/-! ## All passes -/

/-- The speakers that are left under new numbers, with the turns before they are
clamped. -/
structure Collapsed (raw collapsed : List SpeakerTurn) (number : UInt32 → UInt32) : Prop where
  injective : ∀ s s', Major raw s → Major raw s' → number s = number s' → s = s'
  survivors : ∀ id, (∃ t ∈ collapsed, t.speakerId = id) ↔ ∃ s, Major raw s ∧ number s = id
  /-- When a number appears, all smaller ones have appeared. -/
  contiguous : ∀ (i : Nat) t, collapsed[i]? = some t → ∀ id < t.speakerId,
    ∃ j < i, ∃ u, collapsed[j]? = some u ∧ u.speakerId = id
  kept : ∀ t ∈ raw, Major raw t.speakerId → ∀ x, t.Covers x →
    ∃ u ∈ collapsed, u.speakerId = number t.speakerId ∧ u.Covers x

section Collapse

variable {turns raw : List SpeakerTurn}

theorem exists_not_isMinor (h : Acts turns) : ∃ u ∈ turns, isMinor turns u.speakerId = false := by
  obtain ⟨u, hu, hmajor⟩ := h.2.2
  exact ⟨u, hu, (isMinor_eq_false_iff ⟨u, hu, rfl⟩).mpr hmajor⟩

theorem runsOf_majorRuns (h : InOrder turns) :
    RunsOf (InPlace.loop (relabel (isMinor turns)) turns) (majorRuns turns) :=
  runsOf_foldl (inOrder_relabel h)

/-- The runs are those of the major speakers. -/
theorem exists_mem_majorRuns_iff (h : InOrder turns) (hacts : Acts turns) (spk : UInt32) :
    (∃ m ∈ majorRuns turns, m.speakerId = spk) ↔ Major turns spk := by
  have hrel := relabelled_loop (exists_not_isMinor hacts)
  have hruns := runsOf_majorRuns h
  constructor
  · rintro ⟨m, hm, rfl⟩
    obtain ⟨t', ht', hid⟩ := hruns.known m hm
    obtain ⟨t, -, hR⟩ := hrel.right t' ht'
    rw [← hid]
    exact (isMinor_eq_false_iff hR.known).mp hR.major
  · intro hmajor
    obtain ⟨t, ht, rfl⟩ := hmajor.1
    obtain ⟨t', ht', hR⟩ := hrel.left t ht
    rw [hR.kept ((isMinor_eq_false_iff ⟨t, ht, rfl⟩).mpr hmajor)] at ht'
    obtain ⟨m, hm, hid, -⟩ := hruns.inside t ht'
    exact ⟨m, hm, hid⟩

theorem inOrder_collapseMinorSpeakers (h : InOrder turns) :
    InOrder (collapseMinorSpeakers turns) := by
  by_cases hacts : Acts turns
  · have hruns := (runsOf_majorRuns h).inOrder
    rw [collapseMinorSpeakers_of_acts hacts, renumber_eq]
    constructor
    · exact List.pairwise_map.mpr hruns.sorted
    · intro t ht
      obtain ⟨m, hm, rfl⟩ := List.mem_map.mp ht
      exact hruns.ordered m hm
  · rw [collapseMinorSpeakers_of_not_acts hacts]
    exact h

theorem covers_collapseMinorSpeakers (h : InOrder turns) {x : Nat}
    (hx : ∃ t ∈ turns, t.Covers x) : ∃ t ∈ collapseMinorSpeakers turns, t.Covers x := by
  by_cases hacts : Acts turns
  · obtain ⟨t, ht, hlo, hhi⟩ := hx
    obtain ⟨t', ht', hR⟩ := (relabelled_loop (exists_not_isMinor hacts)).left t ht
    obtain ⟨m, hm, -, hstart, hend⟩ := (runsOf_majorRuns h).inside t' ht'
    have hstart' := hR.start
    have hend' := hR.stop
    rw [collapseMinorSpeakers_of_acts hacts, renumber_eq]
    refine ⟨_, List.mem_map_of_mem hm, ?_, ?_⟩
    · show m.startMs ≤ x
      omega
    · show x < m.endMs
      omega
  · rw [collapseMinorSpeakers_of_not_acts hacts]
    exact hx

theorem collapsed_of_acts (h : InOrder turns) (hacts : Acts turns) :
    Collapsed turns (collapseMinorSpeakers turns) (numberOf (speakers (majorRuns turns))) := by
  have hnodup : (speakers (majorRuns turns)).Nodup := Numbering.nodup_firsts _
  have hmem : ∀ {s}, s ∈ speakers (majorRuns turns) ↔ Major turns s := by
    intro s
    rw [speakers, Numbering.mem_firsts, List.mem_map, exists_mem_majorRuns_iff h hacts]
  rw [collapseMinorSpeakers_of_acts hacts]
  constructor
  · exact fun s s' hs hs' heq => numberOf_inj hnodup (hmem.mpr hs) (hmem.mpr hs') heq
  · intro id
    rw [renumber_eq]
    constructor
    · rintro ⟨t, ht, rfl⟩
      obtain ⟨m, hm, rfl⟩ := List.mem_map.mp ht
      exact ⟨m.speakerId, (exists_mem_majorRuns_iff h hacts _).mp ⟨m, hm, rfl⟩, rfl⟩
    · rintro ⟨s, hs, rfl⟩
      obtain ⟨m, hm, rfl⟩ := (exists_mem_majorRuns_iff h hacts s).mpr hs
      exact ⟨_, List.mem_map_of_mem hm, rfl⟩
  · exact fun i t hi id hid => exists_smaller_before hi hid
  · intro t ht hmajor x hx
    obtain ⟨hlo, hhi⟩ : t.startMs ≤ x ∧ x < t.endMs := hx
    obtain ⟨t', ht', hR⟩ := (relabelled_loop (exists_not_isMinor hacts)).left t ht
    rw [hR.kept ((isMinor_eq_false_iff ⟨t, ht, rfl⟩).mpr hmajor)] at ht'
    obtain ⟨m, hm, hid, hstart, hend⟩ := (runsOf_majorRuns h).inside t ht'
    rw [renumber_eq]
    refine ⟨_, List.mem_map_of_mem hm, congrArg (numberOf _) hid, ?_, ?_⟩
    · show m.startMs ≤ x
      omega
    · show x < m.endMs
      omega

theorem acts_perm (hperm : turns.Perm raw) : Acts turns ↔ Acts raw := by
  have hmajor : ∀ spk, Major turns spk ↔ Major raw spk := major_perm hperm
  simp only [Acts, hmajor, hperm.mem_iff, (hperm.map duration).sum_nat]

theorem Collapsed.perm {collapsed : List SpeakerTurn} {number : UInt32 → UInt32}
    (h : Collapsed turns collapsed number) (hperm : turns.Perm raw) :
    Collapsed raw collapsed number := by
  have hmajor : ∀ spk, Major turns spk ↔ Major raw spk := major_perm hperm
  refine ⟨fun s s' hs hs' => h.injective s s' ((hmajor s).mpr hs) ((hmajor s').mpr hs'),
    fun id => ?_, h.contiguous, fun t ht hm => ?_⟩
  · simp only [h.survivors id, hmajor]
  · exact h.kept t (hperm.mem_iff.mpr ht) ((hmajor _).mpr hm)

end Collapse

/-- The turns that are returned are in order and apart, and cover all that was spoken.
Where small speakers are folded, those with the least share or more are left, numbered
as they appear, and each of them still covers what was its own. -/
theorem diarize_spec {raw : List SpeakerTurn} (h : ∀ t ∈ raw, t.startMs ≤ t.endMs) :
    ((diarize raw).Pairwise fun a b => a.startMs ≤ b.startMs) ∧
      ((diarize raw).Pairwise fun a b => a.endMs ≤ b.startMs) ∧
      (∀ t ∈ diarize raw, t.startMs ≤ t.endMs) ∧
      (∀ x, (∃ t ∈ raw, t.Covers x) → ∃ t ∈ diarize raw, t.Covers x) ∧
      (diarize raw).map (·.speakerId) =
        (collapseMinorSpeakers (sortTurns raw)).map (·.speakerId) ∧
      (Acts raw → ∃ number, Collapsed raw (collapseMinorSpeakers (sortTurns raw)) number) ∧
      (¬ Acts raw → collapseMinorSpeakers (sortTurns raw) = sortTurns raw) := by
  have hperm : (sortTurns raw).Perm raw := List.perm_insertionSort _ raw
  have horder := inOrder_sortTurns h
  have hclamped := clamped_loop (inOrder_collapseMinorSpeakers horder)
  refine ⟨?_, hclamped.apart, hclamped.ordered, ?_, ?_, ?_, ?_⟩
  · refine hclamped.apart.imp_of_mem fun {a b} ha _ hab => ?_
    have hle := hclamped.ordered a ha
    omega
  · rintro x ⟨t, ht, hx⟩
    have hsorted : ∃ t ∈ sortTurns raw, t.Covers x := ⟨t, hperm.mem_iff.mpr ht, hx⟩
    exact (hclamped.covers x).mp (covers_collapseMinorSpeakers horder hsorted)
  · refine InPlace.map_loop (fun before t rest => ?_) _
    unfold clamp
    split <;> rfl
  · intro hacts
    exact ⟨_, (collapsed_of_acts horder ((acts_perm hperm).mpr hacts)).perm hperm⟩
  · intro hacts
    exact collapseMinorSpeakers_of_not_acts fun h => hacts ((acts_perm hperm).mp h)

/-- A speaker of one twenty-fifth is folded into the one before it. -/
theorem diarize_spec_minor :
    diarize [⟨0, 500, 7⟩, ⟨500, 540, 3⟩, ⟨530, 1000, 9⟩] = [⟨0, 540, 0⟩, ⟨540, 1000, 1⟩] ∧
      ((diarize [⟨0, 500, 7⟩, ⟨500, 540, 3⟩, ⟨530, 1000, 9⟩]).Pairwise
        fun a b => a.endMs ≤ b.startMs) :=
  ⟨by decide +kernel, (diarize_spec (by decide)).2.1⟩

end SherpaDiarizer
end Panops
