import Mathlib.Data.List.Induction
import Panops.Capture.Recorder
import Panops.Lib.Transitions

/-!
# The video of a recording

`VideoWriter` with the queues that samples are delivered on, over an asset writer that
takes its calls in one order only.
-/

namespace Panops
namespace Capture

open Lib.Transitions

/-! ## Times -/

inductive CMTime where
  | invalid
  | negativeInfinity
  | indefinite
  | positiveInfinity
  | seconds (value : ℚ)
deriving DecidableEq

def CMTime.isValid : CMTime → Bool
  | .invalid => false
  | _ => true

def CMTime.rank : CMTime → Nat
  | .negativeInfinity => 0
  | .seconds _ => 1
  | .indefinite => 2
  | .positiveInfinity => 3
  | .invalid => 4

/-- `CMTimeCompare(a, b) < 0`: an invalid time is the greatest. -/
def CMTime.lt : CMTime → CMTime → Bool
  | .seconds a, .seconds b => a < b
  | a, b => a.rank < b.rank

/-! ## The asset writer -/

inductive Track where
  | video
  | audio
deriving DecidableEq

inductive SCStreamOutputType where
  | screen
  | audio
  | microphone
deriving DecidableEq

/-- A buffer as it is delivered: whether its data is ready, its time, and whether it is a
complete frame. -/
structure CMSampleBuffer where
  number : Nat
  dataIsReady : Bool
  presentationTimeStamp : CMTime
  isCompleteFrame : Bool
deriving DecidableEq

/-- A call to the asset writer or to an input, with the answer of those that have one. -/
inductive WriterCall where
  | startWriting (ok : Bool)
  | startSession (atSourceTime : CMTime)
  | append (track : Track) (type : SCStreamOutputType) (sample : CMSampleBuffer) (ok : Bool)
  | markAsFinished (track : Track)
  | finishWriting
deriving DecidableEq

inductive WriterPhase where
  | unknown
  | writing
  | session (start : CMTime)
  | failed
  | videoFinished
  | inputsFinished
  | finished
deriving DecidableEq

/-- The calls that an asset writer takes.  A call out of order is an exception, and so is a
session at no time or a sample before it. -/
def writerTakes : WriterPhase → WriterCall → Option WriterPhase
  | .unknown, .startWriting ok => some (if ok then .writing else .failed)
  | .writing, .startSession start => if start.isValid then some (.session start) else none
  | .session start, .append _ _ sample ok =>
    if sample.presentationTimeStamp.lt start then none
    else some (if ok then .session start else .failed)
  | .session _, .markAsFinished .video => some .videoFinished
  | .videoFinished, .markAsFinished .audio => some .inputsFinished
  | .inputsFinished, .finishWriting => some .finished
  | _, _ => none

/-! ## The writer -/

structure VideoWriter where
  sessionStartTime : Option CMTime
  failed : Bool
  finishing : Bool

/-- What the asset writer answers while a sample is looked at, and the text of its error. -/
structure WriterAnswers where
  startWriting : Bool
  isReadyForMoreMediaData : Bool
  append : Bool
  error : Option String

inductive SessionStart where
  | ready
  | notReady
  | failed (reason : String)

/-- What the lock is held for: the state, the calls made, and the reason to log. -/
structure Locked (α : Type) where
  result : α
  writer : VideoWriter
  calls : List WriterCall

def markFailedLocked (answers : WriterAnswers) (w : VideoWriter) (reason : String) :
    String × VideoWriter :=
  let detail :=
    match answers.error with
    | some e => ", error: " ++ e
    | none => ""
  ("video writer disabled (" ++ reason ++ detail ++ "); capture continues",
    { w with failed := true })

def startSessionLocked (answers : WriterAnswers) (w : VideoWriter) (sample : CMSampleBuffer) :
    Locked SessionStart :=
  if w.sessionStartTime ≠ none then ⟨.ready, w, []⟩
  else
    let pts := sample.presentationTimeStamp
    if pts.isValid = false then ⟨.notReady, w, []⟩
    else if answers.startWriting = false then
      let marked := markFailedLocked answers w "startWriting"
      ⟨.failed marked.1, marked.2, [.startWriting false]⟩
    else ⟨.ready, { w with sessionStartTime := some pts }, [.startWriting true, .startSession pts]⟩

/-- What `append` does with the session once it is ready. -/
def appendLocked (answers : WriterAnswers) (track : Track) (type : SCStreamOutputType)
    (sample : CMSampleBuffer) (w : VideoWriter) : Locked (Option String) :=
  let early :=
    match w.sessionStartTime with
    | some start => sample.presentationTimeStamp.lt start
    | none => false
  if early then ⟨none, w, []⟩
  else if answers.isReadyForMoreMediaData = false then ⟨none, w, []⟩
  else if answers.append = false then
    let marked := markFailedLocked answers w "append refused"
    ⟨some marked.1, marked.2, [.append track type sample false]⟩
  else ⟨none, w, [.append track type sample true]⟩

/-- `append(_:to:)` under the lock. -/
def append (answers : WriterAnswers) (track : Track) (type : SCStreamOutputType)
    (sample : CMSampleBuffer) (w : VideoWriter) : Locked (Option String) :=
  if sample.dataIsReady = false ∨ w.failed = true ∨ w.finishing = true then ⟨none, w, []⟩
  else
    let started := startSessionLocked answers w sample
    match started.result with
    | .failed reason => ⟨some reason, started.writer, started.calls⟩
    | .notReady => ⟨none, started.writer, started.calls⟩
    | .ready =>
      let appended := appendLocked answers track type sample started.writer
      { appended with calls := started.calls ++ appended.calls }

/-- `finish` under the lock: whether it is this call that finishes. -/
def finishLocked (w : VideoWriter) : Locked Bool :=
  if w.failed = true ∨ w.finishing = true ∨ w.sessionStartTime = none then ⟨false, w, []⟩
  else ⟨true, { w with finishing := true }, [.markAsFinished .video, .markAsFinished .audio]⟩

/-- What a buffer is appended as: complete frames, and the audio of one source. -/
def forwardedTo (plan : TrackPlan) (type : SCStreamOutputType) (sample : CMSampleBuffer) :
    Option Track :=
  if sample.dataIsReady = false then none
  else
    match type with
    | .audio => if plan.wantsSystem then some .audio else none
    | .microphone => if plan.wantsSystem then none else some .audio
    | .screen => if sample.isCompleteFrame then some .video else none

/-! ## Any order of steps -/

/-- The lock lets one caller in at a time; lines are logged, and the file is finished,
outside of it. -/
inductive VideoStep where
  | deliver (type : SCStreamOutputType) (sample : CMSampleBuffer) (answers : WriterAnswers)
  | finish
  /-- `finishWriting` has returned, with the detail when it has failed. -/
  | finishWriting (failure : Option String)
  | log

/-- The lines that are still to be logged, and the calls of `finish` that are on their way
to `finishWriting`. -/
structure VideoRun where
  writer : VideoWriter
  calls : List WriterCall
  unlogged : List String
  finishes : Nat
  log : List String

def VideoRun.new : VideoRun := ⟨⟨none, false, false⟩, [], [], 0, []⟩

/-- What was done under the lock, with a line to log when there is a reason. -/
def VideoRun.after (s : VideoRun) (locked : Locked (Option String)) : VideoRun :=
  { s with
    writer := locked.writer
    calls := s.calls ++ locked.calls
    unlogged := s.unlogged ++ locked.result.toList }

def VideoRun.deliver (s : VideoRun) (plan : TrackPlan) (type : SCStreamOutputType)
    (sample : CMSampleBuffer) (answers : WriterAnswers) : VideoRun :=
  match forwardedTo plan type sample with
  | none => s
  | some track => s.after (append answers track type sample s.writer)

def VideoRun.finish (s : VideoRun) : VideoRun :=
  let locked := finishLocked s.writer
  { s with
    writer := locked.writer
    calls := s.calls ++ locked.calls
    finishes := if locked.result then s.finishes + 1 else s.finishes }

def finishFailure (detail : String) : String :=
  "video finishWriting failed: " ++ detail ++ "; audio + screenshots unaffected"

def VideoRun.finishWriting (s : VideoRun) (failure : Option String) : VideoRun :=
  match s.finishes with
  | 0 => s
  | finishes + 1 =>
    { s with
      calls := s.calls ++ [.finishWriting]
      finishes := finishes
      unlogged := s.unlogged ++ (failure.map finishFailure).toList }

def VideoRun.logLine (s : VideoRun) : VideoRun :=
  match s.unlogged with
  | [] => s
  | line :: lines => { s with unlogged := lines, log := s.log ++ [line] }

def videoStep (plan : TrackPlan) (s : VideoRun) : VideoStep → VideoRun
  | .deliver type sample answers => s.deliver plan type sample answers
  | .finish => s.finish
  | .finishWriting failure => s.finishWriting failure
  | .log => s.logLine

def videoRun (plan : TrackPlan) (steps : List VideoStep) : VideoRun :=
  steps.foldl (videoStep plan) .new

/-- The samples that were appended, with the output that they came from. -/
def appended (calls : List WriterCall) : List (SCStreamOutputType × CMSampleBuffer) :=
  calls.filterMap fun
    | .append _ type sample _ => some (type, sample)
    | _ => none

/-- What there is to append: what was delivered and is forwarded. -/
def offered (plan : TrackPlan) (steps : List VideoStep) :
    List (SCStreamOutputType × CMSampleBuffer) :=
  steps.filterMap fun
    | .deliver type sample _ => (forwardedTo plan type sample).map fun _ => (type, sample)
    | _ => none

/-! ## One sample -/

section Append

variable {answers : WriterAnswers} {track : Track} {type : SCStreamOutputType}
  {sample : CMSampleBuffer} {w : VideoWriter}

theorem append_blocked (h : w.failed = true ∨ w.finishing = true) :
    append answers track type sample w = ⟨none, w, []⟩ := by
  rw [append, if_pos (.inr h)]

/-- From a phase, a sample is taken or left, or the writer fails and there is a line. -/
inductive Attempt (from' after : WriterPhase) (w' : VideoWriter) (locked : Locked (Option String)) :
    Prop where
  | kept : locked.result = none → locked.writer = w' →
      run writerTakes from' locked.calls = some after → Attempt from' after w' locked
  | failed (line : String) : locked.result = some line → locked.writer.failed = true →
      run writerTakes from' locked.calls = some .failed → Attempt from' after w' locked

theorem appendLocked_session (start : CMTime) :
    Attempt (.session start) (.session start) ⟨some start, false, false⟩
      (appendLocked answers track type sample ⟨some start, false, false⟩) := by
  unfold appendLocked
  by_cases hearly : sample.presentationTimeStamp.lt start = true
  · simp only [hearly, if_true]
    exact .kept rfl rfl rfl
  · simp only [hearly, if_false, Bool.false_eq_true]
    split
    · exact .kept rfl rfl rfl
    · split
      · refine .failed _ rfl rfl ?_
        simp [run, writerTakes, hearly]
      · refine .kept rfl rfl ?_
        simp [run, writerTakes, hearly]

theorem append_session (hready : sample.dataIsReady = true) (start : CMTime) :
    Attempt (.session start) (.session start) ⟨some start, false, false⟩
      (append answers track type sample ⟨some start, false, false⟩) := by
  have hlocked := @appendLocked_session answers track type sample start
  simpa [append, startSessionLocked, hready] using hlocked

/-- The first sample with a time starts the session at it. -/
theorem append_idle (hready : sample.dataIsReady = true) :
    Attempt .unknown .unknown ⟨none, false, false⟩
        (append answers track type sample ⟨none, false, false⟩) ∨
      Attempt .unknown (.session sample.presentationTimeStamp)
        ⟨some sample.presentationTimeStamp, false, false⟩
        (append answers track type sample ⟨none, false, false⟩) := by
  by_cases hvalid : sample.presentationTimeStamp.isValid = true
  · by_cases hstarts : answers.startWriting = true
    · right
      have hbegins : run writerTakes .unknown
          [.startWriting true, .startSession sample.presentationTimeStamp] =
            some (.session sample.presentationTimeStamp) := by
        simp [run, writerTakes, hvalid]
      have hlocked :=
        @appendLocked_session answers track type sample sample.presentationTimeStamp
      simp only [append, startSessionLocked, hready, hvalid, hstarts, Bool.true_eq_false,
        Bool.false_eq_true, or_self, if_false, ne_eq, not_true_eq_false]
      cases hlocked with
      | kept hresult hwriter hcalls =>
        refine .kept hresult hwriter ?_
        rw [run_append, hbegins]
        exact hcalls
      | failed line hresult hwriter hcalls =>
        refine .failed line hresult hwriter ?_
        rw [run_append, hbegins]
        exact hcalls
    · left
      simp only [append, startSessionLocked, hready, hvalid, hstarts, Bool.true_eq_false,
        Bool.false_eq_true, or_self, if_false, if_true, ne_eq, not_true_eq_false]
      exact .failed _ rfl rfl rfl
  · left
    simp only [append, startSessionLocked, hready, hvalid, Bool.true_eq_false,
      Bool.false_eq_true, or_self, if_false, if_true, ne_eq, not_true_eq_false]
    exact .kept rfl rfl rfl

end Append

/-! ## What is kept -/

/-- The asset writer, the state and the lines of a run, in each phase. -/
inductive VideoInvariant (s : VideoRun) : Prop where
  | idle : run writerTakes .unknown s.calls = some .unknown →
      s.writer = ⟨none, false, false⟩ → s.log ++ s.unlogged = [] → s.finishes = 0 →
      VideoInvariant s
  | session (start : CMTime) : run writerTakes .unknown s.calls = some (.session start) →
      s.writer = ⟨some start, false, false⟩ → s.log ++ s.unlogged = [] → s.finishes = 0 →
      VideoInvariant s
  | failed : run writerTakes .unknown s.calls = some .failed →
      s.writer.failed = true → (s.log ++ s.unlogged).length = 1 → s.finishes = 0 →
      VideoInvariant s
  | finishing (start : CMTime) : run writerTakes .unknown s.calls = some .inputsFinished →
      s.writer = ⟨some start, false, true⟩ → s.log ++ s.unlogged = [] → s.finishes = 1 →
      VideoInvariant s
  | finished (start : CMTime) : run writerTakes .unknown s.calls = some .finished →
      s.writer = ⟨some start, false, true⟩ → (s.log ++ s.unlogged).length ≤ 1 → s.finishes = 0 →
      VideoInvariant s

theorem forwardedTo_ready {plan : TrackPlan} {type : SCStreamOutputType} {sample : CMSampleBuffer}
    {track : Track} (h : forwardedTo plan type sample = some track) :
    sample.dataIsReady = true := by
  by_contra hready
  have hnone : forwardedTo plan type sample = none := if_pos (Bool.eq_false_iff.mpr hready)
  rw [hnone] at h
  cases h

section Steps

variable {s : VideoRun}

theorem after_nothing : s.after ⟨none, s.writer, []⟩ = s := by
  simp [VideoRun.after]

theorem invariant_after {before next : WriterPhase} {w : VideoWriter}
    {locked : Locked (Option String)} (hcalls : run writerTakes .unknown s.calls = some before)
    (hlines : s.log ++ s.unlogged = []) (hfinishes : s.finishes = 0)
    (hattempt : Attempt before next w locked)
    (hkept : ∀ s' : VideoRun, run writerTakes .unknown s'.calls = some next → s'.writer = w →
      s'.log ++ s'.unlogged = [] → s'.finishes = 0 → VideoInvariant s') :
    VideoInvariant (s.after locked) := by
  have hafter : ∀ phase, run writerTakes before locked.calls = some phase →
      run writerTakes .unknown (s.after locked).calls = some phase := by
    intro phase hphase
    rw [VideoRun.after, run_append, hcalls]
    exact hphase
  have hall : (s.after locked).log ++ (s.after locked).unlogged = locked.result.toList := by
    rw [VideoRun.after, ← List.append_assoc, hlines, List.nil_append]
  cases hattempt with
  | kept hresult hwriter hphase =>
    rw [hresult] at hall
    exact hkept _ (hafter _ hphase) hwriter hall hfinishes
  | failed line hresult hfailed hphase =>
    rw [hresult] at hall
    exact .failed (hafter _ hphase) hfailed (by rw [hall]; rfl) hfinishes

theorem invariant_deliver (hs : VideoInvariant s) (plan : TrackPlan) (type : SCStreamOutputType)
    (sample : CMSampleBuffer) (answers : WriterAnswers) :
    VideoInvariant (s.deliver plan type sample answers) := by
  unfold VideoRun.deliver
  cases hforward : forwardedTo plan type sample with
  | none => exact hs
  | some track =>
    have hready := forwardedTo_ready hforward
    have hblocked : s.writer.failed = true ∨ s.writer.finishing = true →
        VideoInvariant (s.after (append answers track type sample s.writer)) := by
      intro hblocked
      rw [append_blocked hblocked, after_nothing]
      exact hs
    cases hs with
    | failed hcalls hfailed => exact hblocked (.inl hfailed)
    | finishing start hcalls hwriter => exact hblocked (.inr (by rw [hwriter]))
    | finished start hcalls hwriter => exact hblocked (.inr (by rw [hwriter]))
    | session start hcalls hwriter hlines hfinishes =>
      show VideoInvariant (s.after (append answers track type sample s.writer))
      rw [hwriter]
      exact invariant_after hcalls hlines hfinishes (append_session hready start) fun _ =>
        .session start
    | idle hcalls hwriter hlines hfinishes =>
      show VideoInvariant (s.after (append answers track type sample s.writer))
      rw [hwriter]
      cases append_idle hready with
      | inl hidle => exact invariant_after hcalls hlines hfinishes hidle fun _ => .idle
      | inr hstarted =>
        exact invariant_after hcalls hlines hfinishes hstarted fun _ => .session _

theorem invariant_finish (hs : VideoInvariant s) : VideoInvariant s.finish := by
  have hnothing : finishLocked s.writer = ⟨false, s.writer, []⟩ → VideoInvariant s.finish := by
    intro hlocked
    rw [VideoRun.finish, hlocked]
    simpa using hs
  cases hs with
  | idle hcalls hwriter => exact hnothing (by rw [hwriter]; rfl)
  | failed hcalls hfailed => exact hnothing (if_pos (.inl hfailed))
  | finishing start hcalls hwriter => exact hnothing (by rw [hwriter]; rfl)
  | finished start hcalls hwriter => exact hnothing (by rw [hwriter]; rfl)
  | session start hcalls hwriter hlines hfinishes =>
    have hlocked : finishLocked s.writer = ⟨true, ⟨some start, false, true⟩,
        [.markAsFinished .video, .markAsFinished .audio]⟩ := by
      rw [hwriter]
      rfl
    refine .finishing start ?_ (by rw [VideoRun.finish, hlocked]) hlines ?_
    · rw [VideoRun.finish, hlocked, run_append, hcalls]
      rfl
    · rw [VideoRun.finish, hlocked]
      show s.finishes + 1 = 1
      omega

theorem invariant_finishWriting (hs : VideoInvariant s) (failure : Option String) :
    VideoInvariant (s.finishWriting failure) := by
  have hnothing : s.finishes = 0 → VideoInvariant (s.finishWriting failure) := by
    intro hzero
    simpa [VideoRun.finishWriting, hzero] using hs
  cases hs with
  | idle hcalls hwriter hlines hfinishes => exact hnothing hfinishes
  | session start hcalls hwriter hlines hfinishes => exact hnothing hfinishes
  | failed hcalls hfailed hlines hfinishes => exact hnothing hfinishes
  | finished start hcalls hwriter hlines hfinishes => exact hnothing hfinishes
  | finishing start hcalls hwriter hlines hfinishes =>
    have hstep : s.finishWriting failure =
        { s with
          calls := s.calls ++ [.finishWriting]
          finishes := 0
          unlogged := s.unlogged ++ (failure.map finishFailure).toList } := by
      rw [VideoRun.finishWriting, hfinishes]
    rw [hstep]
    refine .finished start ?_ hwriter ?_ rfl
    · rw [run_append, hcalls]
      rfl
    · rw [← List.append_assoc, hlines]
      cases failure with
      | none => exact Nat.zero_le _
      | some detail => exact Nat.le_refl _

theorem lines_logLine : s.logLine.log ++ s.logLine.unlogged = s.log ++ s.unlogged := by
  unfold VideoRun.logLine
  split
  · rfl
  · next line lines heq => simp [heq]

theorem invariant_logLine (hs : VideoInvariant s) : VideoInvariant s.logLine := by
  obtain ⟨hcalls', hwriter', hfinishes'⟩ : s.logLine.calls = s.calls ∧
      s.logLine.writer = s.writer ∧ s.logLine.finishes = s.finishes := by
    unfold VideoRun.logLine
    split <;> exact ⟨rfl, rfl, rfl⟩
  have hlines' := @lines_logLine s
  cases hs with
  | idle hcalls hwriter hlines hfinishes =>
    exact .idle (by rwa [hcalls']) (by rwa [hwriter']) (by rwa [hlines']) (by rwa [hfinishes'])
  | session start hcalls hwriter hlines hfinishes =>
    exact .session start (by rwa [hcalls']) (by rwa [hwriter']) (by rwa [hlines'])
      (by rwa [hfinishes'])
  | failed hcalls hfailed hlines hfinishes =>
    exact .failed (by rwa [hcalls']) (by rwa [hwriter']) (by rwa [hlines']) (by rwa [hfinishes'])
  | finishing start hcalls hwriter hlines hfinishes =>
    exact .finishing start (by rwa [hcalls']) (by rwa [hwriter']) (by rwa [hlines'])
      (by rwa [hfinishes'])
  | finished start hcalls hwriter hlines hfinishes =>
    exact .finished start (by rwa [hcalls']) (by rwa [hwriter']) (by rwa [hlines'])
      (by rwa [hfinishes'])

end Steps

/-! ## What is appended -/

theorem appended_append (first second : List WriterCall) :
    appended (first ++ second) = appended first ++ appended second :=
  List.filterMap_append

section Appended

variable {answers : WriterAnswers} {track : Track} {type : SCStreamOutputType}
  {sample : CMSampleBuffer} {w : VideoWriter}

theorem appended_startSession : appended (startSessionLocked answers w sample).calls = [] := by
  unfold startSessionLocked
  split
  · rfl
  · simp only
    split
    · rfl
    · split <;> rfl

theorem appended_appendLocked :
    (appended (appendLocked answers track type sample w).calls).Sublist [(type, sample)] := by
  unfold appendLocked
  simp only
  generalize (match w.sessionStartTime with
    | some start => sample.presentationTimeStamp.lt start
    | none => false) = early
  split
  · exact List.nil_sublist _
  · split
    · exact List.nil_sublist _
    · split <;> exact List.Sublist.refl _

/-- At most the sample itself. -/
theorem appended_sample :
    (appended (append answers track type sample w).calls).Sublist [(type, sample)] := by
  unfold append
  split
  · exact List.nil_sublist _
  · simp only
    split
    · rw [appended_startSession]
      exact List.nil_sublist _
    · rw [appended_startSession]
      exact List.nil_sublist _
    · rw [appended_append, appended_startSession, List.nil_append]
      exact appended_appendLocked

end Appended

theorem appended_step (plan : TrackPlan) (s : VideoRun) (step : VideoStep) :
    ∃ more, appended (videoStep plan s step).calls = appended s.calls ++ more ∧
      more.Sublist (offered plan [step]) := by
  cases step with
  | log =>
    refine ⟨[], ?_, List.nil_sublist _⟩
    show appended s.logLine.calls = _
    unfold VideoRun.logLine
    split <;> exact (List.append_nil _).symm
  | finishWriting failure =>
    refine ⟨[], ?_, List.nil_sublist _⟩
    show appended (s.finishWriting failure).calls = _
    unfold VideoRun.finishWriting
    split
    · exact (List.append_nil _).symm
    · exact appended_append _ _
  | finish =>
    refine ⟨[], ?_, List.nil_sublist _⟩
    show appended (s.calls ++ (finishLocked s.writer).calls) = _
    rw [appended_append]
    unfold finishLocked
    split <;> rfl
  | deliver type sample answers =>
    show ∃ more, appended (s.deliver plan type sample answers).calls = _ ∧ _
    unfold VideoRun.deliver
    cases hforward : forwardedTo plan type sample with
    | none => exact ⟨[], (List.append_nil _).symm, List.nil_sublist _⟩
    | some track =>
      refine ⟨_, appended_append _ _, ?_⟩
      have hoffered : offered plan [.deliver type sample answers] = [(type, sample)] := by
        simp [offered, hforward]
      rw [hoffered]
      exact appended_sample

/-! ## Every run -/

theorem invariant_videoRun (plan : TrackPlan) (steps : List VideoStep) :
    VideoInvariant (videoRun plan steps) := by
  induction steps using List.reverseRecOn with
  | nil => exact .idle rfl rfl rfl rfl
  | append_singleton steps step ih =>
    rw [videoRun, List.foldl_append]
    cases step with
    | deliver type sample answers => exact invariant_deliver ih plan type sample answers
    | finish => exact invariant_finish ih
    | finishWriting failure => exact invariant_finishWriting ih failure
    | log => exact invariant_logLine ih

theorem appended_videoRun (plan : TrackPlan) (steps : List VideoStep) :
    (appended (videoRun plan steps).calls).Sublist (offered plan steps) := by
  induction steps using List.reverseRecOn with
  | nil => exact List.nil_sublist _
  | append_singleton steps step ih =>
    obtain ⟨more, hmore, hsublist⟩ := appended_step plan (videoRun plan steps) step
    have hoffered : offered plan (steps ++ [step]) = offered plan steps ++ offered plan [step] :=
      List.filterMap_append
    rw [videoRun, List.foldl_append, hoffered]
    show (appended (videoStep plan (videoRun plan steps) step).calls).Sublist _
    rw [hmore]
    exact ih.append hsublist

/-- In whatever order samples are delivered, the recorder is stopped and lines are logged: the
asset writer takes every call that is made, what it is given are the samples that are
forwarded, in their order and each at most once, and there is at most one line. -/
theorem video_calls (plan : TrackPlan) (steps : List VideoStep) :
    (∃ phase, run writerTakes .unknown (videoRun plan steps).calls = some phase) ∧
      (appended (videoRun plan steps).calls).Sublist (offered plan steps) ∧
      ((videoRun plan steps).log ++ (videoRun plan steps).unlogged).length ≤ 1 := by
  refine ⟨?_, appended_videoRun plan steps, ?_⟩
  · cases invariant_videoRun plan steps with
    | idle hcalls | session _ hcalls | failed hcalls | finishing _ hcalls | finished _ hcalls =>
      exact ⟨_, hcalls⟩
  · cases invariant_videoRun plan steps with
    | idle _ _ hlines | session _ _ _ hlines | finishing _ _ _ hlines =>
      rw [hlines]
      exact Nat.zero_le 1
    | failed _ _ hlines => exact hlines.le
    | finished _ _ _ hlines => exact hlines

end Capture
end Panops
