import Panops.Engine.Recording

/-!
# Agreement about recordings

The maps of the engine, the map of the adapter and the sidecar, in any order of the
steps of any number of requests.
-/

namespace Panops
namespace Engine

open Lib.Transitions

variable {ι : Type}

def RecordingRequest.IsStart (r : RecordingRequest) : Prop :=
  ∃ id autoGenerateNotes recordVideo, r = .start id autoGenerateNotes recordVideo

/-- Between its first and its last step. -/
def Stage.UnderWay : Stage → Prop
  | .ready => False
  | .accepted => False
  | .finished _ _ => False
  | .failed _ => False
  | _ => True

def Quiet (s : Recorder ι) : Prop := ∀ i, ¬ (s.stage i).UnderWay

/-- The two maps of the engine are of the same meetings, all of them in the map of
the adapter, and that is what the sidecar records. -/
structure RecorderAgrees (s : Recorder ι) : Prop where
  choices : ∀ id, s.sessions id ≠ none ↔ s.autoNotes id ≠ none
  sessions : ∀ id, s.sessions id ≠ none → s.adapter id = true
  adapter : ∀ id, s.adapter id = true ↔ s.sidecar.live = some id

/-- The maps and what is recorded are as they were. -/
structure SameRecordings (s s' : Recorder ι) : Prop where
  sessions : s'.sessions = s.sessions
  autoNotes : s'.autoNotes = s.autoNotes
  adapter : s'.adapter = s.adapter
  live : s'.sidecar.live = s.sidecar.live

/-- The call to start leaves no recording that is not answered for and loses none. -/
def StartKept (live : Option String) : Outcome Unit → Prop
  | .unanswered _ => live ≠ none
  | .broken _ => live = none
  | _ => True

/-- The call to stop does not fail for the meeting that is recorded, nor lose
another one. -/
def StopKept (id : String) (live : Option String) : Outcome StopResult → Prop
  | .refused _ => live ≠ some id
  | .unanswered _ => live ≠ some id
  | .broken _ => live = none
  | _ => True

/-- The sidecar does not fail while it records, and a session is only taken when the
choice for it has been taken and no start is about to put one in. -/
def Orderly (requests : ι → RecordingRequest) (s : Recorder ι) : RecordingEvent ι → Prop
  | .sidecarExits => s.sidecar.live = none
  | .request i step =>
    match s.stage i, step with
    | .ready, .startCapture outcome => StartKept s.sidecar.live outcome
    | .locked _ session, .stopCapture outcome =>
      StopKept session.meetingId s.sidecar.live outcome
    | .tookChoice _, .next =>
      s.sessions (requests i).id ≠ none →
        s.autoNotes (requests i).id = none ∧
          ∀ k, (requests k).id = (requests i).id → s.stage k ≠ .stored
    | _, _ => True

instance (live : Option String) (outcome : Outcome Unit) : Decidable (StartKept live outcome) := by
  cases outcome <;> unfold StartKept <;> infer_instance

instance (id : String) (live : Option String) (outcome : Outcome StopResult) :
    Decidable (StopKept id live outcome) := by
  cases outcome <;> unfold StopKept <;> infer_instance

instance {n : Nat} (requests : Fin n → RecordingRequest) (s : Recorder (Fin n))
    (event : RecordingEvent (Fin n)) : Decidable (Orderly requests s event) := by
  unfold Orderly
  split
  · infer_instance
  · split <;> infer_instance

/-! ## The calls to the sidecar -/

section Calls

variable {id : String} {sidecar sidecar' : Sidecar} {e : IpcError}

theorem captureStart_ok {outcome : Outcome Unit}
    (h : captureStart id outcome sidecar = some (.ok (), sidecar')) :
    sidecar.live = none ∧ sidecar'.live = some id := by
  cases outcome with
  | answered result =>
    cases sidecar with
    | absent =>
      cases h
      exact ⟨rfl, rfl⟩
    | exited => cases h
    | running current =>
      cases current with
      | none =>
        cases h
        exact ⟨rfl, rfl⟩
      | some other => cases h
  | broken e => cases h
  -- whatever else becomes of the call is no session
  | _ =>
    cases sidecar with
    | running current => cases current <;> cases h
    | _ => cases h

theorem captureStart_error {outcome : Outcome Unit}
    (h : captureStart id outcome sidecar = some (.error e, sidecar'))
    (hkept : StartKept sidecar.live outcome) : sidecar'.live = sidecar.live := by
  cases outcome with
  | broken e =>
    cases h
    exact hkept.symm
  | spawnFails e =>
    cases sidecar with
    | absent =>
      cases h
      rfl
    | _ => cases h
  | unanswered e =>
    cases sidecar with
    | absent => exact absurd rfl hkept
    | exited => cases h
    | running current =>
      cases current with
      | none => exact absurd rfl hkept
      | some other =>
        cases h
        rfl
  | answered result =>
    cases sidecar with
    | running current =>
      cases current with
      | none => cases h
      | some other =>
        cases h
        rfl
    | _ => cases h
  | refused e =>
    cases sidecar with
    | absent =>
      cases h
      rfl
    | exited => cases h
    | running current =>
      cases current with
      | none =>
        cases h
        rfl
      | some other => cases h

theorem captureStop_ok {outcome : Outcome StopResult} {result : StopResult}
    (h : captureStop id outcome sidecar = some (.ok result, sidecar')) :
    sidecar.live = some id ∧ sidecar'.live = none := by
  unfold captureStop at h
  split at h
  · cases h
  · cases h
  · cases h
  · cases h
  · split at h
    · next hlive =>
      split at h
      · cases h
        exact ⟨hlive, rfl⟩
      · cases h
      · cases h
      · cases h
    · split at h
      · cases h
      · cases h
      · cases h

/-- The stop of what is recorded only fails with the sidecar. -/
theorem not_stopKept_of_error {outcome : Outcome StopResult} (hlive : sidecar.live = some id)
    (h : captureStop id outcome sidecar = some (.error e, sidecar')) :
    ¬ StopKept id sidecar.live outcome := by
  cases outcome with
  | answered result =>
    cases sidecar with
    | running current =>
      have hcurrent : (Sidecar.running current).live = some id := hlive
      simp [captureStop, hcurrent] at h
    | _ => cases hlive
  | refused e => exact fun hkept => hkept hlive
  | unanswered e => exact fun hkept => hkept hlive
  | broken e =>
    intro hkept
    rw [show sidecar.live = none from hkept] at hlive
    cases hlive
  | spawnFails e =>
    cases sidecar with
    | absent => cases hlive
    | exited => cases hlive
    | running current => cases h

end Calls

/-! ## The invariant -/

/-- The meeting whose recording, live at the sidecar, is with this request alone. -/
def heldBy (r : RecordingRequest) : Stage → Option String
  | .started => some r.id
  | .registered => some r.id
  | .stored => some r.id
  | .tookSession _ session => some session.meetingId
  | .locked _ session => some session.meetingId
  | _ => none

/-- The meeting whose recording the sidecar has ended for this request. -/
def endedBy : Stage → Option String
  | .stopped _ session _ => some session.meetingId
  | _ => none

def Stage.Locks : Stage → Prop
  | .locked _ _ => True
  | .stopped _ _ _ => True
  | _ => False

/-- Some request has got so far that it is in one of the stages. -/
def Somewhere (requests : ι → RecordingRequest) (stage : ι → Stage)
    (p : RecordingRequest → Stage → Prop) : Prop :=
  ∃ i, p (requests i) (stage i)

section Somewhere

variable {requests : ι → RecordingRequest} {stage : ι → Stage} {i : ι} {st : Stage}
  {p : RecordingRequest → Stage → Prop}

variable [DecidableEq ι]

theorem somewhere_update_self (h : p (requests i) st) :
    Somewhere requests (Function.update stage i st) p :=
  ⟨i, by simpa using h⟩

/-- The request that moves was not the one, or still is. -/
theorem Somewhere.update (h : Somewhere requests stage p)
    (hi : p (requests i) (stage i) → p (requests i) st) :
    Somewhere requests (Function.update stage i st) p := by
  obtain ⟨k, hk⟩ := h
  by_cases hki : k = i
  · subst hki
    exact somewhere_update_self (hi hk)
  · exact ⟨k, by simpa [hki] using hk⟩

end Somewhere

def Starts (id : String) (r : RecordingRequest) (stage : Stage) : Prop :=
  r.id = id ∧ stage = .started

def Ends (id : String) (_ : RecordingRequest) (stage : Stage) : Prop :=
  endedBy stage = some id

/-- The choice is not there yet, or not there any more. -/
def Parts (id : String) (r : RecordingRequest) : Stage → Prop
  | .stored => r.id = id
  | .tookChoice _ => r.id = id
  | _ => False

/-- What holds for a request in that stage. -/
structure StageOk (requests : ι → RecordingRequest) (s : Recorder ι) (i : ι) (stage : Stage) :
    Prop where
  held : ∀ id, heldBy (requests i) stage = some id → s.sidecar.live = some id
  starting : stage = .started ∨ stage = .registered → s.sessions (requests i).id = none
  stored : stage = .stored → s.sessions (requests i).id ≠ none
  taken : ∀ auto session, stage = .tookSession auto session ∨ stage = .locked auto session →
    s.sessions session.meetingId = none
  lock : stage.Locks → s.lock = some i

/-- A meeting is with one request alone. -/
def HeldAlone (requests : ι → RecordingRequest) (stage : ι → Stage) : Prop :=
  ∀ i j id, heldBy (requests i) (stage i) = some id → heldBy (requests j) (stage j) = some id →
    i = j

structure RecorderInv (requests : ι → RecordingRequest) (s : Recorder ι) : Prop where
  key : ∀ id session, s.sessions id = some session → session.meetingId = id
  stages : ∀ i, StageOk requests s i (s.stage i)
  alone : HeldAlone requests s.stage
  adapter : ∀ id, s.adapter id = true →
    s.sidecar.live = some id ∨ Somewhere requests s.stage (Ends id)
  live : ∀ id, s.sidecar.live = some id → Somewhere requests s.stage (Starts id) ∨
    s.adapter id = true ∧ ∀ k, endedBy (s.stage k) ≠ some id
  sessions : ∀ id, s.sessions id ≠ none → s.sidecar.live = some id
  choices : ∀ id, s.autoNotes id ≠ none → s.sessions id ≠ none
  pending : ∀ id, s.sessions id ≠ none → s.autoNotes id = none →
    Somewhere requests s.stage (Parts id)

section Stages

variable {requests : ι → RecordingRequest} {s s' : Recorder ι} {i : ι} {stage : ι → Stage}
  {st : Stage}

/-- A stage in which no recording is with the request. -/
theorem StageOk.of_free (hfree : ∀ id, heldBy (requests i) st ≠ some id)
    (hlock : st.Locks → s.lock = some i) : StageOk requests s i st where
  held id hid := absurd hid (hfree id)
  starting hst := by
    rcases hst with rfl | rfl
    · exact absurd rfl (hfree (requests i).id)
    · exact absurd rfl (hfree (requests i).id)
  stored hst := by
    subst hst
    exact absurd rfl (hfree (requests i).id)
  taken auto session hst := by
    rcases hst with rfl | rfl
    · exact absurd rfl (hfree session.meetingId)
    · exact absurd rfl (hfree session.meetingId)
  lock := hlock

theorem StageOk.congr (h : StageOk requests s i st) (hlive : s'.sidecar.live = s.sidecar.live)
    (hsessions : s'.sessions = s.sessions) (hlock : st.Locks → s'.lock = some i) :
    StageOk requests s' i st where
  held id hid := hlive.trans (h.held id hid)
  starting hst := by
    rw [hsessions]
    exact h.starting hst
  stored hst := by
    rw [hsessions]
    exact h.stored hst
  taken auto session hst := by
    rw [hsessions]
    exact h.taken auto session hst
  lock := hlock

variable [DecidableEq ι]

theorem forall_update {p : ι → Stage → Prop} (hi : p i st) (hothers : ∀ k, k ≠ i → p k (stage k)) :
    ∀ k, p k (Function.update stage i st k) :=
  (Function.forall_update_iff stage fun k => p k).mpr ⟨hi, hothers⟩

/-- What is with the request that moves is with no other one. -/
theorem HeldAlone.update (h : HeldAlone requests stage)
    (hst : ∀ id, heldBy (requests i) st = some id → ∀ k, k ≠ i →
      heldBy (requests k) (stage k) ≠ some id) :
    HeldAlone requests (Function.update stage i st) := by
  intro k l id hk hl
  by_cases hki : k = i
  · subst hki
    by_cases hlk : l = k
    · exact hlk.symm
    · rw [Function.update_self] at hk
      rw [Function.update_of_ne hlk] at hl
      exact absurd hl (hst id hk l hlk)
  · rw [Function.update_of_ne hki] at hk
    by_cases hli : l = i
    · subst hli
      rw [Function.update_self] at hl
      exact absurd hk (hst id hl k hki)
    · rw [Function.update_of_ne hli] at hl
      exact h k l id hk hl

/-- The request that moves has held the meeting before, or holds none. -/
theorem HeldAlone.update_of_held (h : HeldAlone requests stage)
    (hst : ∀ id, heldBy (requests i) st = some id → heldBy (requests i) (stage i) = some id) :
    HeldAlone requests (Function.update stage i st) :=
  h.update fun id hid k hki hk => hki (h k i id hk (hst id hid))

theorem endedBy_update (hst : endedBy st = none) {id : String}
    (h : ∀ k, endedBy (stage k) ≠ some id) :
    ∀ k, endedBy (Function.update stage i st k) ≠ some id :=
  forall_update (p := fun _ st => endedBy st ≠ some id) (by rw [hst]; nofun) fun k _ => h k

end Stages

section Inv

variable {requests : ι → RecordingRequest} {s : Recorder ι} {i : ι}

/-- Only the stop that has the lock can be between the sidecar and the adapter. -/
theorem RecorderInv.lock_of_ends (h : RecorderInv requests s) {k : ι} {id : String}
    (hk : endedBy (s.stage k) = some id) : s.lock = some k := by
  apply (h.stages k).lock
  cases hstage : s.stage k with
  | stopped auto session result => trivial
  | _ =>
    rw [hstage] at hk
    cases hk

/-- What is with one request alone is in the map of the adapter from the step that
puts it there on. -/
theorem RecorderInv.adapter_of_held (h : RecorderInv requests s) {id : String}
    (hheld : heldBy (requests i) (s.stage i) = some id) (hstage : s.stage i ≠ .started) :
    s.adapter id = true ∧ ∀ k, endedBy (s.stage k) ≠ some id := by
  rcases h.live id ((h.stages i).held id hheld) with ⟨k, hid, hk⟩ | hadapter
  · have hki : k = i := h.alone k i id (by simp [heldBy, hk, hid]) hheld
    exact absurd (hki ▸ hk) hstage
  · exact hadapter

theorem recorderInv_start : RecorderInv requests Recorder.start where
  key _ _ hsession := nomatch hsession
  stages _ := .of_free nofun fun hlocks => hlocks.elim
  alone _ _ _ hheld := nomatch hheld
  adapter _ hadapter := nomatch hadapter
  live _ hlive := nomatch hlive
  sessions _ hsession := absurd rfl hsession
  choices _ hchoice := absurd rfl hchoice
  pending _ hsession := absurd rfl hsession

theorem RecorderInv.agrees (h : RecorderInv requests s) (hquiet : Quiet s) : RecorderAgrees s where
  choices id := by
    refine ⟨fun hsession hchoice => ?_, h.choices id⟩
    obtain ⟨i, hi⟩ := h.pending id hsession hchoice
    have hnot := hquiet i
    cases hstage : s.stage i <;> simp_all [Parts, Stage.UnderWay]
  sessions id hsession := by
    rcases h.live id (h.sessions id hsession) with ⟨i, -, hstarted⟩ | ⟨hadapter, -⟩
    · exact absurd (by rw [hstarted]; trivial) (hquiet i)
    · exact hadapter
  adapter id := by
    constructor
    · intro hadapter
      rcases h.adapter id hadapter with hlive | ⟨k, hended⟩
      · exact hlive
      · have hnot := hquiet k
        cases hstage : s.stage k <;> simp_all [Ends, endedBy, Stage.UnderWay]
    · intro hlive
      rcases h.live id hlive with ⟨i, -, hstarted⟩ | ⟨hadapter, -⟩
      · exact absurd (by rw [hstarted]; trivial) (hquiet i)
      · exact hadapter

/-- The sidecar is another process, and records the same. -/
theorem RecorderInv.exits (h : RecorderInv requests s) {sidecar : Sidecar}
    (hlive : sidecar.live = s.sidecar.live) :
    RecorderInv requests { s with sidecar := sidecar } where
  key := h.key
  stages k := (h.stages k).congr hlive rfl (h.stages k).lock
  alone := h.alone
  adapter id hid := (h.adapter id hid).imp_left fun h => hlive.trans h
  live id hid := h.live id (hlive.symm.trans hid)
  sessions id hsession := hlive.trans (h.sessions id hsession)
  choices := h.choices
  pending := h.pending

/-- A session that is there is with no request. -/
theorem RecorderInv.not_held {id : String} (h : RecorderInv requests s)
    (hsession : s.sessions id ≠ none)
    (hstored : ∀ k, (requests k).id = id → s.stage k ≠ .stored) (k : ι) (id' : String) :
    heldBy (requests k) (s.stage k) ≠ some id' := by
  intro hk
  have hsame : id' = id :=
    Option.some.inj (((h.stages k).held id' hk).symm.trans (h.sessions id hsession))
  subst hsame
  have hstages := h.stages k
  cases hst : s.stage k with
  | started =>
    rw [hst] at hk
    rw [← show (requests k).id = id' from Option.some.inj hk] at hsession
    exact hsession (hstages.starting (Or.inl hst))
  | registered =>
    rw [hst] at hk
    rw [← show (requests k).id = id' from Option.some.inj hk] at hsession
    exact hsession (hstages.starting (Or.inr hst))
  | stored =>
    rw [hst] at hk
    exact hstored k (Option.some.inj hk) hst
  | tookSession auto session =>
    rw [hst] at hk
    rw [← show session.meetingId = id' from Option.some.inj hk] at hsession
    exact hsession (hstages.taken auto session (Or.inl hst))
  | locked auto session =>
    rw [hst] at hk
    rw [← show session.meetingId = id' from Option.some.inj hk] at hsession
    exact hsession (hstages.taken auto session (Or.inr hst))
  | _ =>
    rw [hst] at hk
    cases hk

variable [DecidableEq ι]

/-- A request that has held no recording is over. -/
theorem RecorderInv.fails (h : RecorderInv requests s) {sidecar : Sidecar} (e : IpcError)
    (hstage : s.stage i = .ready ∨
      (∃ auto, s.stage i = .tookChoice auto) ∧ s.sessions (requests i).id = none)
    (hlive : sidecar.live = s.sidecar.live) :
    RecorderInv requests
      { s with sidecar := sidecar, stage := Function.update s.stage i (.failed e) } where
  key := h.key
  stages := forall_update (.of_free nofun fun hlocks => hlocks.elim) fun k _ =>
    (h.stages k).congr hlive rfl (h.stages k).lock
  alone := h.alone.update_of_held nofun
  adapter id hid := by
    refine (h.adapter id hid).imp (fun h => hlive.trans h) fun hends => hends.update fun hi => ?_
    rcases hstage with hstage | ⟨⟨auto, hstage⟩, -⟩
    · rw [hstage] at hi
      cases hi
    · rw [hstage] at hi
      cases hi
  live id hid := by
    rcases h.live id (hlive.symm.trans hid) with hstarts | ⟨hadapter, hnot⟩
    · refine Or.inl (hstarts.update fun hi => ?_)
      rcases hstage with hstage | ⟨⟨auto, hstage⟩, -⟩
      · rw [hstage] at hi
        cases hi.2
      · rw [hstage] at hi
        cases hi.2
    · exact Or.inr ⟨hadapter, endedBy_update rfl hnot⟩
  sessions id hsession := hlive.trans (h.sessions id hsession)
  choices := h.choices
  pending id hsession hchoice := by
    refine (h.pending id hsession hchoice).update fun hi => ?_
    rcases hstage with hstage | ⟨⟨auto, hstage⟩, hnone⟩
    · rw [hstage] at hi
      exact hi
    · rw [hstage] at hi
      rw [show (requests i).id = id from hi] at hnone
      exact absurd hnone hsession

section Start

variable {id : String} {auto video : Bool}

theorem RecorderInv.starts (h : RecorderInv requests s) {sidecar : Sidecar}
    (hi : requests i = .start id auto video) (hstage : s.stage i = .ready)
    (hbefore : s.sidecar.live = none) (hafter : sidecar.live = some id) :
    RecorderInv requests
      { s with sidecar := sidecar, stage := Function.update s.stage i .started } := by
  have hid : (requests i).id = id := by rw [hi]; rfl
  -- nothing is recorded, so no request holds anything and there are no sessions
  have hfree : ∀ k id', heldBy (requests k) (s.stage k) ≠ some id' := by
    intro k id' hk
    have hlive := (h.stages k).held id' hk
    rw [hbefore] at hlive
    cases hlive
  have hnone : ∀ id', s.sessions id' = none := by
    intro id'
    by_contra hsession
    have hlive := h.sessions id' hsession
    rw [hbefore] at hlive
    cases hlive
  constructor
  case key => exact h.key
  case stages =>
    refine forall_update ⟨fun id' hheld => ?_, fun _ => hnone _, nofun, nofun, fun hlocks =>
      hlocks.elim⟩ fun k _ => .of_free (hfree k) (h.stages k).lock
    have hsame : (requests i).id = id' := Option.some.inj hheld
    exact hafter.trans (by rw [← hsame, hid])
  case alone => exact h.alone.update fun id' _ k _ => hfree k id'
  case adapter =>
    intro id' hid'
    have hends := (h.adapter id' hid').resolve_left (by simp [hbefore])
    exact Or.inr (hends.update (by simp [Ends, hstage, endedBy]))
  case live =>
    intro id' hid'
    have hsame : id = id' := Option.some.inj (hafter.symm.trans hid')
    exact Or.inl (somewhere_update_self ⟨hid.trans hsame, rfl⟩)
  case sessions => exact fun id' hsession => absurd (hnone id') hsession
  case choices => exact h.choices
  case pending =>
    intro id' hsession hchoice
    exact (h.pending id' hsession hchoice).update (by simp [Parts, hstage])

theorem RecorderInv.registers (h : RecorderInv requests s)
    (hi : requests i = .start id auto video) (hstage : s.stage i = .started)
    (hlock : s.lock = none) :
    RecorderInv requests
      { s with
        adapter := Function.update s.adapter id true
        stage := Function.update s.stage i .registered } := by
  have hid : (requests i).id = id := by rw [hi]; rfl
  have hheld : heldBy (requests i) (s.stage i) = some id := by rw [hstage, ← hid]; rfl
  have hlive : s.sidecar.live = some id := (h.stages i).held id hheld
  have hnone : ∀ k id, endedBy (s.stage k) ≠ some id := by
    intro k id hk
    have hlocked := h.lock_of_ends hk
    rw [hlock] at hlocked
    cases hlocked
  constructor
  case key => exact h.key
  case stages =>
    refine forall_update ⟨fun id' hid' => ?_, fun _ => (h.stages i).starting (Or.inl hstage), nofun,
      nofun, fun hlocks => hlocks.elim⟩ fun k _ => (h.stages k).congr rfl rfl (h.stages k).lock
    exact (h.stages i).held id' (by rw [hstage]; exact hid')
  case alone => exact h.alone.update_of_held fun id' hid' => by rw [hstage]; exact hid'
  case adapter =>
    intro id' hid'
    left
    by_cases hsame : id' = id
    · exact hsame ▸ hlive
    · apply (h.adapter id' (by simpa [Function.update_of_ne hsame] using hid')).resolve_right
      exact fun ⟨k, hk⟩ => hnone k id' hk
  case live =>
    intro id' hid'
    have hsame : id = id' := Option.some.inj (hlive.symm.trans hid')
    subst hsame
    exact Or.inr ⟨Function.update_self .., endedBy_update rfl fun k => hnone k id⟩
  case sessions => exact h.sessions
  case choices => exact h.choices
  case pending =>
    intro id' hsession hchoice
    exact (h.pending id' hsession hchoice).update (by simp [Parts, hstage])

theorem RecorderInv.stores (h : RecorderInv requests s)
    (hi : requests i = .start id auto video) (hstage : s.stage i = .registered) :
    RecorderInv requests
      { s with
        sessions := Function.update s.sessions id (some ⟨id, video⟩)
        stage := Function.update s.stage i .stored } := by
  have hid : (requests i).id = id := by rw [hi]; rfl
  have hheld : heldBy (requests i) (s.stage i) = some id := by rw [hstage, ← hid]; rfl
  have hlive : s.sidecar.live = some id := (h.stages i).held id hheld
  have hadapter := h.adapter_of_held hheld (by simp [hstage])
  -- the session is of no other request
  have hothers : ∀ k, k ≠ i → ∀ id', heldBy (requests k) (s.stage k) = some id' → id' ≠ id := by
    intro k hki id' hk hsame
    rw [hsame] at hk
    exact hki (h.alone k i id hk hheld)
  constructor
  case key =>
    intro id' session hsession
    replace hsession : Function.update s.sessions id (some ⟨id, video⟩) id' = some session :=
      hsession
    by_cases hsame : id' = id
    · subst hsame
      rw [Function.update_self] at hsession
      rw [← Option.some.inj hsession]
    · exact h.key id' session (by simpa [Function.update_of_ne hsame] using hsession)
  case stages =>
    refine forall_update ⟨fun id' hid' => ?_, nofun, fun _ => ?_, nofun, fun hlocks =>
      hlocks.elim⟩ fun k hki => ?_
    · have hsame : (requests i).id = id' := Option.some.inj hid'
      exact hlive.trans (by rw [← hsame, hid])
    · show Function.update s.sessions id (some ⟨id, video⟩) (requests i).id ≠ none
      rw [hid, Function.update_self]
      nofun
    · have hk := h.stages k
      refine ⟨hk.held, fun hst => ?_, fun hst => ?_, fun auto session hst => ?_, hk.lock⟩
      · have hne : (requests k).id ≠ id :=
          hothers k hki _ (by rcases hst with hst | hst <;> rw [hst] <;> rfl)
        show Function.update s.sessions id (some ⟨id, video⟩) (requests k).id = none
        rw [Function.update_of_ne hne]
        exact hk.starting hst
      · show Function.update s.sessions id (some ⟨id, video⟩) (requests k).id ≠ none
        by_cases hsame : (requests k).id = id
        · rw [hsame, Function.update_self]
          nofun
        · rw [Function.update_of_ne hsame]
          exact hk.stored hst
      · have hne : session.meetingId ≠ id :=
          hothers k hki _ (by rcases hst with hst | hst <;> rw [hst] <;> rfl)
        show Function.update s.sessions id (some ⟨id, video⟩) session.meetingId = none
        rw [Function.update_of_ne hne]
        exact hk.taken auto session hst
  case alone => exact h.alone.update_of_held fun id' hid' => by rw [hstage]; exact hid'
  case adapter =>
    intro id' hid'
    exact (h.adapter id' hid').imp_right fun h => h.update (by simp [Ends, hstage, endedBy])
  case live =>
    intro id' hid'
    have hsame : id = id' := Option.some.inj (hlive.symm.trans hid')
    subst hsame
    exact Or.inr ⟨hadapter.1, endedBy_update rfl hadapter.2⟩
  case sessions =>
    intro id' hsession
    by_cases hsame : id' = id
    · exact hsame ▸ hlive
    · exact h.sessions id' (by simpa [Function.update_of_ne hsame] using hsession)
  case choices =>
    intro id' hchoice
    show Function.update s.sessions id (some ⟨id, video⟩) id' ≠ none
    by_cases hsame : id' = id
    · rw [hsame, Function.update_self]
      nofun
    · rw [Function.update_of_ne hsame]
      exact h.choices id' hchoice
  case pending =>
    intro id' hsession hchoice
    by_cases hsame : id' = id
    · exact somewhere_update_self (by simp [Parts, hi, hsame, RecordingRequest.id])
    · apply (h.pending id' (by simpa [Function.update_of_ne hsame] using hsession) hchoice).update
      simp [Parts, hstage]

theorem RecorderInv.accepts (h : RecorderInv requests s)
    (hi : requests i = .start id auto video) (hstage : s.stage i = .stored) :
    RecorderInv requests
      { s with
        autoNotes := Function.update s.autoNotes id (some auto)
        stage := Function.update s.stage i .accepted } := by
  have hid : (requests i).id = id := by rw [hi]; rfl
  have hheld : heldBy (requests i) (s.stage i) = some id := by rw [hstage, ← hid]; rfl
  have hlive : s.sidecar.live = some id := (h.stages i).held id hheld
  have hadapter := h.adapter_of_held hheld (by simp [hstage])
  constructor
  case key => exact h.key
  case stages =>
    exact forall_update (.of_free nofun fun hlocks => hlocks.elim) fun k _ =>
      (h.stages k).congr rfl rfl (h.stages k).lock
  case alone => exact h.alone.update_of_held nofun
  case adapter =>
    intro id' hid'
    exact (h.adapter id' hid').imp_right fun h => h.update (by simp [Ends, hstage, endedBy])
  case live =>
    intro id' hid'
    have hsame : id = id' := Option.some.inj (hlive.symm.trans hid')
    subst hsame
    exact Or.inr ⟨hadapter.1, endedBy_update rfl hadapter.2⟩
  case sessions => exact h.sessions
  case choices =>
    intro id' hchoice
    by_cases hsame : id' = id
    · rw [hsame, ← hid]
      exact (h.stages i).stored hstage
    · exact h.choices id' (by simpa [Function.update_of_ne hsame] using hchoice)
  case pending =>
    intro id' hsession hchoice
    by_cases hsame : id' = id
    · simp [hsame] at hchoice
    · apply (h.pending id' hsession (by simpa [Function.update_of_ne hsame] using hchoice)).update
      simp [Parts, hstage, hi, RecordingRequest.id, Ne.symm hsame]

end Start

section Stop

variable {id : String} {auto : Bool} {session : CaptureSession}

theorem RecorderInv.takesChoice (h : RecorderInv requests s) (hi : requests i = .stop id)
    (hstage : s.stage i = .ready) :
    RecorderInv requests
      { s with
        autoNotes := Function.update s.autoNotes id none
        stage := Function.update s.stage i (.tookChoice auto) } where
  key := h.key
  stages := forall_update (.of_free nofun fun hlocks => hlocks.elim) fun k _ =>
    (h.stages k).congr rfl rfl (h.stages k).lock
  alone := h.alone.update_of_held nofun
  adapter id' hid' :=
    (h.adapter id' hid').imp_right fun h => h.update (by simp [Ends, hstage, endedBy])
  live id' hid' := by
    rcases h.live id' hid' with hstarts | ⟨hadapter, hnot⟩
    · exact Or.inl (hstarts.update (by simp [Starts, hstage]))
    · exact Or.inr ⟨hadapter, endedBy_update rfl hnot⟩
  sessions := h.sessions
  choices id' hchoice := by
    have hne : id' ≠ id := by
      rintro rfl
      exact hchoice (Function.update_self ..)
    exact h.choices id' (by simpa [Function.update_of_ne hne] using hchoice)
  pending id' hsession hchoice := by
    by_cases hid : id' = id
    · exact somewhere_update_self (by simp [Parts, hi, hid, RecordingRequest.id])
    · apply (h.pending id' hsession (by simpa [Function.update_of_ne hid] using hchoice)).update
      simp [Parts, hstage]

theorem RecorderInv.takesSession (h : RecorderInv requests s) (hi : requests i = .stop id)
    (hstage : s.stage i = .tookChoice auto) (hsession : s.sessions id = some session)
    (hchoice : s.autoNotes id = none)
    (hstored : ∀ k, (requests k).id = id → s.stage k ≠ .stored) :
    RecorderInv requests
      { s with
        sessions := Function.update s.sessions id none
        stage := Function.update s.stage i (.tookSession auto session) } := by
  have hid : session.meetingId = id := h.key id session hsession
  have hthere : s.sessions id ≠ none := by rw [hsession]; nofun
  have hlive : s.sidecar.live = some id := h.sessions id hthere
  have hfree := h.not_held hthere hstored
  -- the other sessions are as they were
  have hsessions : ∀ id', Function.update s.sessions id none id' ≠ none →
      id' ≠ id ∧ s.sessions id' ≠ none := by
    intro id' hsession'
    have hne : id' ≠ id := by
      rintro rfl
      exact hsession' (Function.update_self ..)
    exact ⟨hne, by simpa [Function.update_of_ne hne] using hsession'⟩
  constructor
  case key =>
    intro id' session' hsession'
    replace hsession' : Function.update s.sessions id none id' = some session' := hsession'
    have hne := (hsessions id' (by rw [hsession']; nofun)).1
    exact h.key id' session' (by simpa [Function.update_of_ne hne] using hsession')
  case stages =>
    refine forall_update ⟨fun id' hid' => ?_, nofun, nofun, fun auto' session' hst => ?_, fun hlocks
      => hlocks.elim⟩ fun k _ => .of_free (hfree k) (h.stages k).lock
    · have hsame : session.meetingId = id' := Option.some.inj hid'
      exact hlive.trans (by rw [← hsame, hid])
    · rcases hst with hst | hst
      · cases hst
        show Function.update s.sessions id none session.meetingId = none
        rw [hid, Function.update_self]
      · cases hst
  case alone => exact h.alone.update fun id' _ k _ => hfree k id'
  case adapter =>
    intro id' hid'
    exact (h.adapter id' hid').imp_right fun h => h.update (by simp [Ends, hstage, endedBy])
  case live =>
    intro id' hid'
    rcases h.live id' hid' with hstarts | ⟨hadapter, hnot⟩
    · exact Or.inl (hstarts.update (by simp [Starts, hstage]))
    · exact Or.inr ⟨hadapter, endedBy_update rfl hnot⟩
  case sessions => exact fun id' hsession' => h.sessions id' (hsessions id' hsession').2
  case choices =>
    intro id' hchoice'
    have hne : id' ≠ id := by
      rintro rfl
      exact hchoice' hchoice
    show Function.update s.sessions id none id' ≠ none
    rw [Function.update_of_ne hne]
    exact h.choices id' hchoice'
  case pending =>
    intro id' hsession' hchoice'
    obtain ⟨hne, hbefore⟩ := hsessions id' hsession'
    apply (h.pending id' hbefore hchoice').update
    simp [Parts, hstage, hi, RecordingRequest.id, Ne.symm hne]

theorem RecorderInv.locks (h : RecorderInv requests s)
    (hstage : s.stage i = .tookSession auto session) (hlock : s.lock = none) :
    RecorderInv requests
      { s with
        lock := some i
        stage := Function.update s.stage i (.locked auto session) } := by
  have hnone : ∀ k, ¬ (s.stage k).Locks := by
    intro k hk
    have hlocked := (h.stages k).lock hk
    rw [hlock] at hlocked
    cases hlocked
  constructor
  case key => exact h.key
  case stages =>
    refine forall_update ⟨fun id' hid' => ?_, nofun, nofun, fun auto' session' hst => ?_, fun _ =>
      rfl⟩ fun k _ => (h.stages k).congr rfl rfl fun hlocks => absurd hlocks (hnone k)
    · exact (h.stages i).held id' (by rw [hstage]; exact hid')
    · rcases hst with hst | hst
      · cases hst
      · cases hst
        exact (h.stages i).taken auto session (Or.inl hstage)
  case alone => exact h.alone.update_of_held fun id' hid' => by rw [hstage]; exact hid'
  case adapter =>
    intro id' hid'
    exact (h.adapter id' hid').imp_right fun h => h.update (by simp [Ends, hstage, endedBy])
  case live =>
    intro id' hid'
    rcases h.live id' hid' with hstarts | ⟨hadapter, hnot⟩
    · exact Or.inl (hstarts.update (by simp [Starts, hstage]))
    · exact Or.inr ⟨hadapter, endedBy_update rfl hnot⟩
  case sessions => exact h.sessions
  case choices => exact h.choices
  case pending =>
    intro id' hsession hchoice
    exact (h.pending id' hsession hchoice).update (by simp [Parts, hstage])

theorem RecorderInv.stops (h : RecorderInv requests s) {result : StopResult} {sidecar : Sidecar}
    (hstage : s.stage i = .locked auto session) (hlive : sidecar.live = none) :
    RecorderInv requests
      { s with
        sidecar := sidecar
        stage := Function.update s.stage i (.stopped auto session result) } := by
  have hheld : heldBy (requests i) (s.stage i) = some session.meetingId := by rw [hstage]; rfl
  have hbefore := (h.stages i).held session.meetingId hheld
  have htaken := (h.stages i).taken auto session (Or.inr hstage)
  have hlocked : s.lock = some i := (h.stages i).lock (by rw [hstage]; trivial)
  -- what was recorded was with this request
  have hfree : ∀ k, k ≠ i → ∀ id', heldBy (requests k) (s.stage k) ≠ some id' := by
    intro k hki id' hk
    have hsame : session.meetingId = id' :=
      Option.some.inj (hbefore.symm.trans ((h.stages k).held id' hk))
    exact hki (h.alone k i id' hk (hsame ▸ hheld))
  constructor
  case key => exact h.key
  case stages =>
    exact forall_update (.of_free nofun fun _ => hlocked) fun k hki =>
      .of_free (hfree k hki) (h.stages k).lock
  case alone => exact h.alone.update_of_held nofun
  case adapter =>
    intro id' hid'
    right
    rcases h.adapter id' hid' with hlive' | hends
    · have hid : session.meetingId = id' := Option.some.inj (hbefore.symm.trans hlive')
      exact somewhere_update_self (by simp [Ends, endedBy, hid])
    · exact hends.update (by simp [Ends, hstage, endedBy])
  case live =>
    intro id' hid'
    rw [hlive] at hid'
    cases hid'
  case sessions =>
    intro id' hsession
    have hsame : session.meetingId = id' :=
      Option.some.inj (hbefore.symm.trans (h.sessions id' hsession))
    exact absurd htaken (hsame ▸ hsession)
  case choices => exact h.choices
  case pending =>
    intro id' hsession hchoice
    exact (h.pending id' hsession hchoice).update (by simp [Parts, hstage])

theorem RecorderInv.finishes (h : RecorderInv requests s) {result reply : StopResult}
    (hstage : s.stage i = .stopped auto session result) :
    RecorderInv requests
      { s with
        adapter := Function.update s.adapter session.meetingId false
        lock := none
        stage := Function.update s.stage i (.finished auto reply) } := by
  have hlocked : s.lock = some i := (h.stages i).lock (by rw [hstage]; trivial)
  have honly : ∀ k, k ≠ i → ¬ (s.stage k).Locks := by
    intro k hki hk
    exact hki (Option.some.inj (((h.stages k).lock hk).symm.trans hlocked))
  have hends : endedBy (s.stage i) = some session.meetingId := by rw [hstage]; rfl
  constructor
  case key => exact h.key
  case stages =>
    exact forall_update (.of_free nofun fun hlocks => hlocks.elim) fun k hki =>
      (h.stages k).congr rfl rfl fun hlocks => absurd hlocks (honly k hki)
  case alone => exact h.alone.update_of_held nofun
  case adapter =>
    intro id' hid'
    have hne : id' ≠ session.meetingId := by
      intro heq
      simp [heq] at hid'
    refine (h.adapter id' (by simpa [Function.update_of_ne hne] using hid')).imp_right fun h => ?_
    apply h.update
    simp [Ends, hstage, endedBy, Ne.symm hne]
  case live =>
    intro id' hid'
    rcases h.live id' hid' with hstarts | ⟨hadapter, hnot⟩
    · exact Or.inl (hstarts.update (by simp [Starts, hstage]))
    · have hne : id' ≠ session.meetingId := by
        intro heq
        exact hnot i (heq ▸ hends)
      exact Or.inr ⟨by simpa [Function.update_of_ne hne] using hadapter, endedBy_update rfl hnot⟩
  case sessions => exact h.sessions
  case choices => exact h.choices
  case pending =>
    intro id' hsession hchoice
    exact (h.pending id' hsession hchoice).update (by simp [Parts, hstage])

end Stop

theorem recorderInv_step (s : Recorder ι) (event : RecordingEvent ι) (s' : Recorder ι)
    (hinv : RecorderInv requests s) (hok : Orderly requests s event)
    (h : recorderStep requests s event = some s') : RecorderInv requests s' := by
  cases moves_of_recorderStep h with
  | exits hs =>
    have hlive : s.sidecar.live = none := hok
    exact hinv.exits hlive.symm
  | refuse hi hstage => exact hinv.fails _ (Or.inl hstage) rfl
  | notStarted hi hstage hcall =>
    apply hinv.fails _ (Or.inl hstage)
    exact captureStart_error hcall (by simpa [Orderly, hstage] using hok)
  | started hi hstage hcall =>
    have hlive := captureStart_ok hcall
    exact hinv.starts hi hstage hlive.1 hlive.2
  | registered hi hstage hlock => exact hinv.registers hi hstage hlock
  | stored hi hstage => exact hinv.stores hi hstage
  | accepted hi hstage => exact hinv.accepts hi hstage
  | tookChoice hi hstage => exact hinv.takesChoice hi hstage
  | noSession hi hstage hnone =>
    exact hinv.fails _ (Or.inr ⟨⟨_, hstage⟩, by simpa [hi, RecordingRequest.id] using hnone⟩) rfl
  | tookSession hi hstage hsession =>
    have hfree := hok
    simp only [Orderly, hstage, hi, RecordingRequest.id] at hfree
    have hboth := hfree (by simp [hsession])
    exact hinv.takesSession hi hstage hsession hboth.1 hboth.2
  | locked hi hstage hlock hadapter => exact hinv.locks hstage hlock
  | notRegistered hi hstage hlock hadapter =>
    have hheld := hinv.adapter_of_held (by rw [hstage]; rfl) (by simp [hstage])
    simp [hheld.1] at hadapter
  | notStopped hi hstage hcall =>
    have hlive := (hinv.stages _).held _ (by rw [hstage]; rfl)
    exact absurd (by simpa [Orderly, hstage] using hok) (not_stopKept_of_error hlive hcall)
  | stopped hi hstage hcall => exact hinv.stops hstage (captureStop_ok hcall).2
  | finished hi hstage => exact hinv.finishes hstage

/-- The request that has failed is the one that has moved. -/
theorem failed_of_update {k : ι} {st : Stage} {e : IpcError} (hnot : s.stage i ≠ .failed e)
    (hfailed : Function.update s.stage k st i = .failed e) : i = k ∧ st = .failed e := by
  by_cases hik : i = k
  · subst hik
    exact ⟨rfl, by rwa [Function.update_self] at hfailed⟩
  · rw [Function.update_of_ne hik] at hfailed
    exact absurd hfailed hnot

theorem sameRecordings_of_failed {s' : Recorder ι} {event : RecordingEvent ι} {e : IpcError}
    (hi : (requests i).IsStart) (hok : Orderly requests s event)
    (h : recorderStep requests s event = some s') (hnot : s.stage i ≠ .failed e)
    (hfailed : s'.stage i = .failed e) : SameRecordings s s' := by
  obtain ⟨id, auto, video, hi⟩ := hi
  cases moves_of_recorderStep h with
  | refuse hj hstage => exact ⟨rfl, rfl, rfl, rfl⟩
  | notStarted hj hstage hcall =>
    exact ⟨rfl, rfl, rfl, captureStart_error hcall (by simpa [Orderly, hstage] using hok)⟩
  | exits hs => exact absurd hfailed hnot
  -- only a stop fails where there is no session, or at the sidecar
  | noSession hj hstage hnone =>
    obtain ⟨rfl, -⟩ := failed_of_update hnot hfailed
    rw [hi] at hj
    cases hj
  | notRegistered hj hstage hlock hadapter =>
    obtain ⟨rfl, -⟩ := failed_of_update hnot hfailed
    rw [hi] at hj
    cases hj
  | notStopped hj hstage hcall =>
    obtain ⟨rfl, -⟩ := failed_of_update hnot hfailed
    rw [hi] at hj
    cases hj
  | _ => cases (failed_of_update hnot hfailed).2

end Inv

/-- In every order of the steps of any number of requests, as long as the steps are
orderly: when no request is on its way, the two maps of the engine are of the same
meetings, all of them in the map of the adapter, and that is what the sidecar records;
and a start that fails leaves everything as it was. -/
theorem agrees_of_orderly [DecidableEq ι] (requests : ι → RecordingRequest) {s : Recorder ι}
    {events : List (RecordingEvent ι)}
    (hmeets : Meets (recorderStep requests) (Orderly requests) Recorder.start events)
    (hrun : run (recorderStep requests) Recorder.start events = some s) :
    (Quiet s → RecorderAgrees s) ∧
      ∀ event s' i e, (requests i).IsStart → Orderly requests s event →
        recorderStep requests s event = some s' → s.stage i ≠ .failed e →
        s'.stage i = .failed e → SameRecordings s s' := by
  have hinv : RecorderInv requests s :=
    run_invariant_of_meets recorderInv_step recorderInv_start hmeets hrun
  refine ⟨hinv.agrees, ?_⟩
  intro event s' i e hi hok h hnot hfailed
  exact sameRecordings_of_failed hi hok h hnot hfailed

/-- The stop of `m` falls between the last two steps of its start. -/
def stopInside : List (RecordingEvent (Fin 3)) :=
  [.request 0 (.startCapture (.answered ())), .request 0 .next, .request 0 .next,
    .request 1 .next, .request 1 .next, .request 1 .next,
    .request 1 (.stopCapture (.answered wav)), .request 1 (.finish []), .request 0 .next]

def noAnswer : IpcError := .internal "sidecar returned no session"

/-- A choice is left without a session; a sidecar that ends leaves its recording in
the map of the adapter; a start whose answer is of no use leaves the sidecar recording. -/
theorem recordings_disagree :
    (¬ ∀ events s, run (recorderStep startAndStops) Recorder.start events = some s →
      Quiet s → RecorderAgrees s) ∧
    (run (recorderStep startAndStops) Recorder.start stopInside).map
      (fun s => (s.stage 0, s.stage 1, s.sessions "m", s.autoNotes "m")) =
        some (.accepted, .finished false wav, none, some true) ∧
    (run (recorderStep startAndStops) Recorder.start (startM ++ [.sidecarExits])).map
      (fun s => (s.stage 0, s.adapter "m", s.sidecar.live)) = some (.accepted, true, none) ∧
    (run (recorderStep startAndStops) Recorder.start
      [.request 0 (.startCapture (.unanswered noAnswer))]).map
        (fun s => (s.stage 0, s.sidecar.live)) = some (.failed noAnswer, some "m") := by
  refine ⟨fun h => ?_, by decide +kernel, by decide +kernel, by decide +kernel⟩
  have hrun : (run (recorderStep startAndStops) Recorder.start (startM ++ [.sidecarExits])).map
      (fun s => (s.stage 0, s.stage 1, s.stage 2, s.adapter "m", s.sidecar.live)) =
        some (.accepted, .ready, .ready, true, none) := by
    decide +kernel
  obtain ⟨s, hs, hvalues⟩ := Option.map_eq_some_iff.mp hrun
  simp only [Prod.mk.injEq] at hvalues
  obtain ⟨h0, h1, h2, hadapter, hlive⟩ := hvalues
  have hquiet : Quiet s := by
    intro i
    match i with
    | 0 => simp [h0, Stage.UnderWay]
    | 1 => simp [h1, Stage.UnderWay]
    | 2 => simp [h2, Stage.UnderWay]
  have hrecorded := ((h _ s hs hquiet).adapter "m").mp hadapter
  simp [hlive] at hrecorded

/-- A recording of `m` that is started and then stopped. -/
theorem agrees_of_orderly_startM : ∃ s,
    run (recorderStep startAndStops) Recorder.start (startM ++ goodStop) = some s ∧
      Quiet s ∧ RecorderAgrees s := by
  have hrun : (run (recorderStep startAndStops) Recorder.start (startM ++ goodStop)).map
      (fun s => (s.stage 0, s.stage 1, s.stage 2)) =
        some (.accepted, .ready, .finished true wav) := by
    decide +kernel
  have hmeets : Meets (recorderStep startAndStops) (Orderly startAndStops) Recorder.start
      (startM ++ goodStop) := by
    decide +kernel
  obtain ⟨s, hs, hvalues⟩ := Option.map_eq_some_iff.mp hrun
  simp only [Prod.mk.injEq] at hvalues
  obtain ⟨h0, h1, h2⟩ := hvalues
  have hquiet : Quiet s := by
    intro i
    match i with
    | 0 => simp [h0, Stage.UnderWay]
    | 1 => simp [h1, Stage.UnderWay]
    | 2 => simp [h2, Stage.UnderWay]
  exact ⟨s, hs, hquiet, (agrees_of_orderly startAndStops hmeets hs).1 hquiet⟩

end Engine
end Panops
