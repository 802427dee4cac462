import Panops.Lib.Mirror
import Panops.Lib.Sorting
import Panops.Storage.Organisation
import Panops.Storage.Renaming

/-!
# When the tables stand for the fake

The rows of each table stand for the values of a map of the fake, under renamed
ids; the space and the project of a meeting are columns here and maps there.
-/

namespace Panops
namespace Storage

open Lib (HashMap Mirrors)

variable (ρ : String → String) (clock : String → String → Prop)

/-- The row of a meeting, with the space and the project it is assigned to. -/
def rowOf (spaces projects : HashMap String String) (m : Meeting) : MeetingRow where
  id := m.id
  title := m.title
  startedAt := m.startedAt
  endedAt := m.endedAt
  durationMs := m.durationMs.map Int.ofNat
  language := m.language
  dirPath := m.dirPath
  spaceId := (spaces.get m.id).map ρ
  projectId := (projects.get m.id).map ρ

/-- The ids are numbered below the next one. -/
def Numbered {α : Type} (kind : String) (next : Nat) (m : HashMap String α) : Prop :=
  ∀ e ∈ m.entries, ∃ n, n < next ∧ e.1 = InMemory.numberedId kind n

structure Simulates (s : InMemory) (t : Tables) : Prop where
  meetings : Mirrors id Meeting.id MeetingRow.id
    (fun m row => row = rowOf ρ s.meetingSpaces s.meetingProjects m) s.meetings t.meeting
  durations : ∀ e ∈ s.meetings.entries, ∀ d, e.2.durationMs = some d → d < 2 ^ 63
  placed : ∀ id, s.meetings.containsKey id = false →
    s.meetingSpaces.get id = none ∧ s.meetingProjects.get id = none
  notes : Mirrors id Note.id Note.id (SameNote clock) s.notes t.note
  spaces : Mirrors ρ Space.id Space.id (fun a b => b = a.rename ρ) s.spaces t.space
  projects : Mirrors ρ Project.id Project.id (fun a b => b = a.rename ρ) s.projects t.project
  tags : Mirrors ρ Tag.id Tag.id (fun a b => b = a.rename ρ) s.tags t.tag
  spaceIds : Numbered "space" s.nextSpaceId s.spaces
  projectIds : Numbered "project" s.nextProjectId s.projects
  tagIds : Numbered "tag" s.nextTagId s.tags
  spacePositions : (s.spaces.values.map Space.position).Nodup
  projectPositions : (s.projects.values.map fun p => (p.spaceId, p.position)).Nodup
  tagNames : (s.tags.values.map Tag.name).Nodup
  pairs : ∀ meetingId tagId, (meetingId, tagId) ∈ t.meetingTag ↔
    ∃ tag ∈ s.tagsOf meetingId, tagId = ρ tag
  pairsNodup : t.meetingTag.Nodup
  tagsSorted : ∀ meetingId, (s.tagsOf meetingId).Pairwise (· < ·)

/-! ## Values that differ in a field -/

theorem nodup_append_new {α : Type} {xs : List α} {x : α} (hxs : xs.Nodup) (hx : x ∉ xs) :
    (xs ++ [x]).Nodup :=
  List.Nodup.append hxs (List.nodup_singleton x) fun _ hy hyx =>
    hx (List.mem_singleton.mp hyx ▸ hy)

theorem values_insert {ν : Type} {m : HashMap String ν} {k : String} (v : ν)
    (hk : m.containsKey k = false) : (m.insert k v).values = m.values ++ [v] := by
  rw [HashMap.values, HashMap.entries_insert_of_not v hk, List.map_append]
  rfl

theorem nodup_values_alter {ν β : Type} {m : HashMap String ν} {k : String} {f : ν → ν}
    {g : ν → β} (hg : ∀ v, g (f v) = g v) (h : (m.values.map g).Nodup) :
    ((m.alter k f).values.map g).Nodup := by
  have hsame : (m.alter k f).values.map g = m.values.map g := by
    simp only [HashMap.values, HashMap.entries_alter, List.map_map]
    refine List.map_congr_left fun e _ => ?_
    simp only [Function.comp_apply]
    split
    · exact hg e.2
    · rfl
  rw [hsame]
  exact h

theorem nodup_values_retain {ν β : Type} {m : HashMap String ν} {g : ν → β}
    (keep : String → ν → Bool) (h : (m.values.map g).Nodup) :
    ((m.retain keep).values.map g).Nodup :=
  ((List.filter_sublist.map Prod.snd).map g).nodup h

/-! ## Numbered ids -/

theorem numberedId_injective {kind : String} {m n : Nat}
    (h : InMemory.numberedId kind m = InMemory.numberedId kind n) : m = n := by
  have hdigits : Nat.repr m = Nat.repr n := by
    simp only [InMemory.numberedId, String.append_right_inj] at h
    exact h
  have hvalue : Nat.ofDigitChars 10 (Nat.repr m).toList 0 =
      Nat.ofDigitChars 10 (Nat.repr n).toList 0 := by rw [hdigits]
  simpa [Nat.repr] using hvalue

namespace Numbered

variable {α : Type} {kind : String} {next : Nat} {m : HashMap String α}

theorem fresh (h : Numbered kind next m) :
    m.containsKey (InMemory.numberedId kind next) = false := by
  rw [Bool.eq_false_iff]
  intro hkey
  obtain ⟨e, he, hid⟩ := List.mem_map.mp (HashMap.containsKey_iff.mp hkey)
  obtain ⟨n, hn, hid'⟩ := h e he
  rw [hid] at hid'
  have := numberedId_injective hid'
  omega

theorem insert (h : Numbered kind next m) (a : α) :
    Numbered kind (next + 1) (m.insert (InMemory.numberedId kind next) a) := by
  intro e he
  rw [HashMap.entries_insert_of_not a h.fresh] at he
  rcases List.mem_append.mp he with he | he
  · obtain ⟨n, hn, hid⟩ := h e he
    exact ⟨n, by omega, hid⟩
  · rw [List.mem_singleton.mp he]
    exact ⟨next, by omega, rfl⟩

theorem retain (h : Numbered kind next m) (keep : String → α → Bool) :
    Numbered kind next (m.retain keep) :=
  fun e he => h e (List.mem_filter.mp he).1

theorem alter (h : Numbered kind next m) (k : String) (f : α → α) :
    Numbered kind next (m.alter k f) := by
  intro e he
  obtain ⟨old, hold, rfl⟩ := List.mem_map.mp he
  obtain ⟨n, hn, hid⟩ := h old hold
  refine ⟨n, hn, ?_⟩
  split <;> exact hid

end Numbered

namespace Simulates

variable {ρ clock} {s : InMemory} {t : Tables}

/-! ## What is there on both sides -/

theorem hasMeeting (h : Simulates ρ clock s t) (id : String) :
    t.hasMeeting id = s.meetings.containsKey id :=
  h.meetings.any_eq id

theorem hasSpace (h : Simulates ρ clock s t) (id : String) :
    t.hasSpace (ρ id) = s.spaces.containsKey id :=
  h.spaces.any_eq id

theorem hasProject (h : Simulates ρ clock s t) (id : String) :
    t.hasProject (ρ id) = s.projects.containsKey id :=
  h.projects.any_eq id

theorem hasTag (h : Simulates ρ clock s t) (id : String) :
    t.hasTag (ρ id) = s.tags.containsKey id :=
  h.tags.any_eq id

theorem hasNote (h : Simulates ρ clock s t) (id : String) :
    t.note.any (·.id == id) = s.notes.containsKey id :=
  h.notes.any_eq id

theorem meeting_eq (h : Simulates ρ clock s t) :
    t.meeting = s.meetings.values.map (rowOf ρ s.meetingSpaces s.meetingProjects) :=
  Lib.forall₂_eq_iff.mp h.meetings.rows

theorem space_eq (h : Simulates ρ clock s t) : t.space = s.spaces.values.map (Space.rename ρ) :=
  Lib.forall₂_eq_iff.mp h.spaces.rows

theorem project_eq (h : Simulates ρ clock s t) :
    t.project = s.projects.values.map (Project.rename ρ) :=
  Lib.forall₂_eq_iff.mp h.projects.rows

theorem tag_eq (h : Simulates ρ clock s t) : t.tag = s.tags.values.map (Tag.rename ρ) :=
  Lib.forall₂_eq_iff.mp h.tags.rows

theorem hasDirPath (h : Simulates ρ clock s t) (dirPath : String) :
    t.meeting.any (·.dirPath == dirPath) = s.hasDirPath dirPath := by
  rw [h.meeting_eq, List.any_map]
  rfl

end Simulates

/-! ## Agreement -/

/-- The same outcome, and states that correspond. -/
def Agrees {α β : Type} (R : α → β → Prop) (out : Except StorageError α × InMemory)
    (out' : Except StorageError β × Tables) : Prop :=
  SameOutcome ρ R out.1 out'.1 ∧ Simulates ρ clock out.2 out'.2

section Agreement

variable {ρ clock} {α β : Type} {R : α → β → Prop} {s : InMemory} {t : Tables}

theorem agrees_ok {a : α} {b : β} (hR : R a b) (h : Simulates ρ clock s t) :
    Agrees ρ clock R (.ok a, s) (.ok b, t) :=
  ⟨hR, h⟩

theorem agrees_error (h : Simulates ρ clock s t) {e e' : StorageError} (he : e' = e.rename ρ) :
    Agrees ρ clock R (.error e, s) (.error e', t) :=
  ⟨he, h⟩

theorem agrees_reply {out : Except StorageError α × InMemory}
    {out' : Except StorageError β × Tables} (h : Agrees ρ clock R out out') {f : α → Reply}
    {f' : β → Reply} (hreply : ∀ a b, R a b → SameReply ρ clock (f a) (f' b)) :
    Agrees ρ clock (SameReply ρ clock) (InMemory.replyWith f out)
      (Registry.replyWith f' out') := by
  obtain ⟨hout, hstates⟩ := h
  refine ⟨?_, hstates⟩
  cases hleft : out.1 with
  | ok a =>
    cases hright : out'.1 with
    | ok b =>
      rw [hleft, hright] at hout
      simp only [InMemory.replyWith, Registry.replyWith, hleft, hright]
      exact hreply a b hout
    | error e =>
      rw [hleft, hright] at hout
      exact hout.elim
  | error e =>
    cases hright : out'.1 with
    | ok b =>
      rw [hleft, hright] at hout
      exact hout.elim
    | error e' =>
      rw [hleft, hright] at hout
      simp only [InMemory.replyWith, Registry.replyWith, hleft, hright]
      exact hout

/-- A change of something by its id, and its error when it is not there. -/
theorem agrees_changeRow {s' : InMemory} {kind id id' : String} {here : Bool}
    {exists_ : Tables → Bool} {f : Tables → Tables} (h : Simulates ρ clock s t)
    (hexists : exists_ t = here)
    (hid : StorageError.notFound id' kind = (StorageError.notFound id kind).rename ρ)
    (hok : here = true → Simulates ρ clock s' (f t)) :
    Agrees ρ clock Eq (if here = true then (.ok (), s') else (.error (.notFound id kind), s))
      (Registry.changeRow kind exists_ id' f t) := by
  unfold Registry.changeRow
  rw [hexists]
  cases here with
  | false => exact agrees_error h hid
  | true => exact agrees_ok rfl (hok rfl)

end Agreement

end Storage
end Panops
