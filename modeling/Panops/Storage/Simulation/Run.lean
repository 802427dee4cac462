import Panops.Storage.Simulation.Listings
import Panops.Storage.Simulation.Meetings
import Panops.Storage.Simulation.Places

/-!
# The fake refines the store

Where the two stores do not differ they give the same outcomes over any run.
They differ in the order of the checks of `create_meeting_with_note`, in
durations that do not fit a signed column, and in the order of rows that the
fake meets in hash order or that are sorted by generated ids.
-/

namespace Panops
namespace Storage

variable {ρ : String → String} {clock : String → String → Prop}

theorem sameVariant_of_sameOutcome {α β : Type} {R : α → β → Prop}
    {out : Except StorageError α} {out' : Except StorageError β}
    (h : SameOutcome ρ R out out') : SameVariant out out' := by
  cases out with
  | ok a =>
    cases out' with
    | ok b => trivial
    | error e => exact h.elim
  | error e =>
    cases out' with
    | ok b => exact h.elim
    | error e' =>
      have he : e' = e.rename ρ := h
      subst he
      cases e <;> trivial

theorem simulates_new (hρ : Function.Injective ρ) :
    Simulates ρ clock InMemory.new Tables.empty where
  meetings := Lib.Mirrors.of_empty Function.injective_id fun _ _ hrow => by rw [hrow]; rfl
  durations := fun _ he => absurd he List.not_mem_nil
  placed := fun _ _ => ⟨rfl, rfl⟩
  notes := Lib.Mirrors.of_empty Function.injective_id fun _ _ hn => hn.id
  spaces := Lib.Mirrors.of_empty hρ fun _ _ hrow => by rw [hrow]; rfl
  projects := Lib.Mirrors.of_empty hρ fun _ _ hrow => by rw [hrow]; rfl
  tags := Lib.Mirrors.of_empty hρ fun _ _ hrow => by rw [hrow]; rfl
  spaceIds := fun _ he => absurd he List.not_mem_nil
  projectIds := fun _ he => absurd he List.not_mem_nil
  tagIds := fun _ he => absurd he List.not_mem_nil
  spacePositions := List.nodup_nil
  projectPositions := List.nodup_nil
  tagNames := List.nodup_nil
  pairs := fun _ _ => ⟨fun hpair => absurd hpair List.not_mem_nil, fun hpair => by
    obtain ⟨_, htag, _⟩ := hpair
    exact absurd htag List.not_mem_nil⟩
  pairsNodup := List.nodup_nil
  tagsSorted := fun _ => List.Pairwise.nil

namespace PairedCall

variable {order : HashOrder} {sql : Sqlite} {s : InMemory} {t : Tables}

/-- One call, in states that correspond. -/
theorem agrees (h : Simulates ρ clock s t) (ho : Organised t) {c : PairedCall}
    (hclock : clock c.now c.ambient.now) (hrenames : c.Renames ρ s)
    (hcomparable : c.Comparable ρ sql s) :
    Agrees ρ clock (SameReply ρ clock) (c.inMemory order s) (c.rusqlite ρ sql t) := by
  have hcall : c.rusqlite ρ sql t = Registry.call sql c.ambient (c.op.rename ρ) t :=
    RusqliteStorage.step_of_no_faults t rfl
  rw [hcall]
  unfold inMemory
  unfold Renames at hrenames
  unfold Comparable at hcomparable
  cases hop : c.op with
  | createMeeting d =>
    rw [hop] at hcomparable
    exact agrees_reply (h.createMeeting hcomparable) fun m _ hm => hm ▸ SameReply.meeting m
  | createMeetingWithNote m n endedAt durationMs =>
    rw [hop] at hcomparable
    refine agrees_reply (h.createMeetingWithNote hclock hcomparable) fun out out' hout => ?_
    rw [hout.1]
    exact SameReply.meetingWithNote out.1 hout.2
  | getMeeting id => exact agrees_reply (h.getMeeting id) fun m _ hm => hm ▸ SameReply.meeting m
  | listMeetings =>
    rw [hop] at hcomparable
    exact agrees_ok ((h.listMeetingsFiltered order hcomparable) ▸
      SameReply.meetings _) h
  | listMeetingsFiltered filter =>
    rw [hop] at hcomparable
    exact agrees_ok ((h.listMeetingsFiltered order hcomparable) ▸
      SameReply.meetings _) h
  | updateMeetingEnded id endedAt durationMs =>
    rw [hop] at hcomparable
    exact agrees_reply (h.updateMeetingEnded hcomparable)
      fun m _ hm => hm ▸ SameReply.meeting m
  | renameMeeting id title =>
    exact agrees_reply (h.renameMeeting id title) fun m _ hm => hm ▸ SameReply.meeting m
  | deleteMeeting id => exact agrees_reply (h.deleteMeeting id) fun _ _ _ => SameReply.unit
  | createNote d =>
    exact agrees_reply (h.createNote hclock d) fun _ _ hn => SameReply.note hn
  | listNotesForMeeting meetingId =>
    rw [hop] at hcomparable
    exact agrees_ok (SameReply.notes (h.listNotesForMeeting hcomparable)) h
  | replaceMeetingNote meetingId draft =>
    exact agrees_reply (h.replaceMeetingNote hclock meetingId draft)
      fun _ _ hn => SameReply.note hn
  | createSpace name =>
    rw [hop] at hrenames
    exact agrees_reply (h.createSpace name hrenames) fun a _ hb => hb ▸ SameReply.space a
  | listSpaces => exact agrees_ok (h.listSpaces order ▸ SameReply.spaces _) h
  | renameSpace id name => exact agrees_reply (h.renameSpace id name) fun _ _ _ => SameReply.unit
  | deleteSpace id => exact agrees_reply (h.deleteSpace id) fun _ _ _ => SameReply.unit
  | createProject spaceId name =>
    rw [hop] at hrenames
    exact agrees_reply (h.createProject spaceId name hrenames)
      fun a _ hb => hb ▸ SameReply.project a
  | listProjects spaceId =>
    cases spaceId with
    | some spaceId =>
      exact agrees_ok (h.listProjects_some order spaceId ▸ SameReply.projects _) h
    | none =>
      rw [hop] at hcomparable
      exact agrees_ok (h.listProjects_none order hcomparable ▸
        SameReply.projects _) h
  | renameProject id name =>
    exact agrees_reply (h.renameProject id name) fun _ _ _ => SameReply.unit
  | deleteProject id => exact agrees_reply (h.deleteProject id) fun _ _ _ => SameReply.unit
  | createTag name =>
    rw [hop] at hrenames
    exact agrees_reply (h.createTag name hrenames) fun a _ hb => hb ▸ SameReply.tag a
  | listTags => exact agrees_ok (h.listTags order ▸ SameReply.tags _) h
  | deleteTag id => exact agrees_reply (h.deleteTag id) fun _ _ _ => SameReply.unit
  | tagMeeting meetingId tagId =>
    exact agrees_reply (h.tagMeeting meetingId tagId) fun _ _ _ => SameReply.unit
  | untagMeeting meetingId tagId =>
    exact agrees_reply (h.untagMeeting meetingId tagId) fun _ _ _ => SameReply.unit
  | listTagsForMeeting meetingId =>
    exact agrees_reply (h.listTagsForMeeting meetingId) fun ts _ hts => hts ▸ SameReply.tags ts
  | assignMeeting meetingId spaceId projectId =>
    exact agrees_reply (h.assignMeeting ho meetingId spaceId projectId)
      fun _ _ _ => SameReply.unit

theorem organised_rusqlite (ho : Organised t) (c : PairedCall) :
    Organised (c.rusqlite ρ sql t).2 := by
  have hcall : c.rusqlite ρ sql t = Registry.call sql c.ambient (c.op.rename ρ) t :=
    RusqliteStorage.step_of_no_faults t rfl
  rw [hcall]
  exact Registry.organised_call ho _

/-- A run from states that correspond. -/
theorem sameOutcome_observe (calls : List PairedCall) (h : Simulates ρ clock s t)
    (ho : Organised t) (hclock : ∀ c ∈ calls, clock c.now c.ambient.now)
    (hrenames : Throughout order (Renames ρ) calls s)
    (hcomparable : Throughout order (Comparable ρ sql) calls s) :
    ∀ out ∈ observe ρ order sql calls s t,
      SameOutcome ρ (SameReply ρ clock) out.1 out.2 := by
  induction calls generalizing s t with
  | nil => exact fun _ hout => absurd hout List.not_mem_nil
  | cons c rest ih =>
    obtain ⟨hout, hstates⟩ :=
      @agrees _ _ order _ _ _ h ho _ (hclock c List.mem_cons_self) hrenames.1 hcomparable.1
    intro out hmem
    rcases List.mem_cons.mp hmem with rfl | hmem
    · exact hout
    · exact ih hstates (organised_rusqlite ho c)
        (fun c' hc' => hclock c' (List.mem_cons_of_mem c hc')) hrenames.2 hcomparable.2 out hmem

/-- The two clocks of a run: the times at which the stores made the same call. -/
def Clocks (calls : List PairedCall) (now now' : String) : Prop :=
  ∃ c ∈ calls, c.now = now ∧ c.ambient.now = now'

/-- A run of calls on which the two stores do not differ gives the same outcome
for every call, whatever orders the hash maps and the tables are met in. -/
theorem fake_refines (hρ : Function.Injective ρ) (calls : List PairedCall)
    (hrenames : Throughout order (Renames ρ) calls InMemory.new)
    (hcomparable : Throughout order (Comparable ρ sql) calls InMemory.new) :
    ∀ out ∈ observe ρ order sql calls InMemory.new Tables.empty,
      SameVariant out.1 out.2 ∧ SameOutcome ρ (SameReply ρ (Clocks calls)) out.1 out.2 := by
  intro out hmem
  have hout := @sameOutcome_observe _ (Clocks calls) order sql _ _ calls (simulates_new hρ)
    Tables.organised_empty (fun c hc => ⟨c, hc, rfl, rfl⟩) hrenames hcomparable out hmem
  exact ⟨sameVariant_of_sameOutcome hout, hout⟩

def standup : MeetingDraft :=
  ⟨"m", "standup", "2026-01-01T09:00:00Z", "en", "/data/meetings/m"⟩

/-- A note for another meeting than the one it comes with. -/
def strayNote : NoteDraft := ⟨"n", "other", "markdown", "# Standup", "/data/meetings/m/notes.md"⟩

def morning : Ambient := ⟨"2026-01-01T09:00:00Z", 1, 0⟩

/-- A meeting, and the same meeting once more together with a stray note. -/
def registeredTwice : List PairedCall :=
  [⟨.createMeeting standup, "2026-01-01T09:00:00Z", morning⟩,
    ⟨.createMeetingWithNote standup strayNote none none, "2026-01-01T09:00:00Z", morning⟩]

/-- The fake looks at the meeting first, the store at the note. -/
theorem not_fake_refines : ¬ ∀ (ρ : String → String) (order : HashOrder) (sql : Sqlite)
    (calls : List PairedCall), Function.Injective ρ →
    Throughout order (Renames ρ) calls InMemory.new →
    ∀ out ∈ observe ρ order sql calls InMemory.new Tables.empty, SameVariant out.1 out.2 := by
  intro h
  exact h id HashOrder.insertion Sqlite.insertion registeredTwice Function.injective_id
    ⟨trivial, trivial, trivial⟩
    (.error (.alreadyExists "m" "meeting"),
      .error (.sql "create_meeting_with_note: note.meeting_id must match meeting.id"))
    (List.mem_cons_of_mem _ (List.mem_singleton.mpr rfl))

/-- A space is made and a meeting put into it, under the id that each store has
given to the space. -/
def sorted : List PairedCall :=
  [⟨.createSpace "Work", "09:00", morning⟩, ⟨.createMeeting standup, "09:01", morning⟩,
    ⟨.assignMeeting "m" (some "space_1") none, "09:02", morning⟩,
    ⟨.listMeetings, "09:03", morning⟩]

theorem fake_refines_sorted :
    (observe (Equiv.swap "space_1" "space_1_0") HashOrder.insertion Sqlite.insertion sorted
      InMemory.new Tables.empty).Forall fun out =>
        SameVariant out.1 out.2 ∧ SameOutcome (Equiv.swap "space_1" "space_1_0")
          (SameReply (Equiv.swap "space_1" "space_1_0") (Clocks sorted)) out.1 out.2 := by
  refine List.forall_iff_forall_mem.mpr (fake_refines (Equiv.injective _) sorted ?_ ?_)
  · refine ⟨?_, trivial, trivial, trivial, trivial⟩
    exact (Equiv.swap_apply_left "space_1" "space_1_0").symm
  · refine ⟨trivial, ?_, trivial, ⟨?_, ?_⟩, trivial⟩
    · exact fun hboth => absurd hboth.1 (by decide)
    · exact List.nodup_singleton _
    · intro m hm _ a ha
      exact absurd ha List.not_mem_nil

end PairedCall
end Storage
end Panops
