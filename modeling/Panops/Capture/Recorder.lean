import Mathlib.Algebra.Order.Field.Rat
import Mathlib.Tactic.FieldSimp
import Mathlib.Tactic.Linarith
import Mathlib.Tactic.Ring
import Panops.Capture.Wav
import Panops.Segment

/-!
# The two tracks of a recording

`Recorder`: the buffers of each source are resampled and appended to the WAV file
of that source, one after the other.  A sample keeps the time it was captured at,
which is not in the source.
-/

namespace Panops
namespace Capture

open Merge

structure TrackPlan where
  wantsSystem : Bool
  wantsMic : Bool

def TrackPlan.ofSources (audioSources : String) : TrackPlan :=
  if audioSources = "mic_only" then ⟨false, true⟩
  else if audioSources = "system_only" then ⟨true, false⟩
  else ⟨true, true⟩

/-- A buffer as it is delivered, and what becomes of it: whether its data is
ready, its samples at 16 kHz when it can be converted, and after how many bytes
writing them fails. -/
structure AudioBuffer where
  system : Bool
  atMs : ℚ
  durationMs : ℚ
  ready : Bool
  converted : Option (List Int16)
  failsAfter : Option Nat
  length_converted : ∀ samples, converted = some samples → (samples.length : ℚ) = 16 * durationMs

/-- A byte of a file and when its sample was captured. -/
structure TimedByte where
  byte : UInt8
  capturedMs : ℚ
deriving DecidableEq

/-- A sample in little-endian order. -/
def sampleBytes (sample : Int16 × ℚ) : List TimedByte :=
  [⟨sample.1.toUInt16.toUInt8, sample.2⟩, ⟨(sample.1.toUInt16 >>> 8).toUInt8, sample.2⟩]

/-- The samples of a buffer, 16 to the millisecond. -/
def timed (atMs : ℚ) (samples : List Int16) : List (Int16 × ℚ) :=
  samples.mapIdx fun j sample => (sample, atMs + j / 16)

structure Recorder where
  systemWriter : Option (WavWriter TimedByte)
  micWriter : Option (WavWriter TimedByte)

def Recorder.new (plan : TrackPlan) : Recorder where
  systemWriter := if plan.wantsSystem then some .new else none
  micWriter := if plan.wantsMic then some .new else none

/-- `appendAudio`; `none` is an overflow. -/
def appendAudio (r : Recorder) (b : AudioBuffer) : Option Recorder :=
  match if b.system then r.systemWriter else r.micWriter, b.converted with
  | some writer, some samples =>
    match writer.append sampleBytes (timed b.atMs samples) b.failsAfter with
    | some writer =>
      some (if b.system then { r with systemWriter := some writer }
        else { r with micWriter := some writer })
    | none => none
  | _, _ => some r

/-- `stream(_:didOutputSampleBuffer:of:)` for audio. -/
def didOutputSampleBuffer (r : Recorder) (b : AudioBuffer) : Option Recorder :=
  if b.ready then appendAudio r b else some r

def finalizeTrack : Option (WavWriter TimedByte) → Option (Option (WavWriter TimedByte))
  | some writer => writer.finalize.map some
  | none => some none

/-- `stop`. -/
def Recorder.stop (r : Recorder) : Option Recorder := do
  let system ← finalizeTrack r.systemWriter
  let mic ← finalizeTrack r.micWriter
  pure ⟨system, mic⟩

/-- A recording from its start to its stop, unless a count overflows. -/
def record (plan : TrackPlan) (buffers : List AudioBuffer) : Option Recorder := do
  let r ← buffers.foldlM didOutputSampleBuffer (.new plan)
  r.stop

/-- The samples of a track, none when it was not recorded. -/
def track : Option (WavWriter TimedByte) → List (TimedByte × TimedByte)
  | some writer => writer.read
  | none => []

/-! ## One clock -/

/-- Sample `k` was captured `k / 16` milliseconds after the origin. -/
def OnClock (originMs : ℚ) (samples : List (TimedByte × TimedByte)) : Prop :=
  ∀ (k : Nat) (sample : TimedByte × TimedByte), samples[k]? = some sample →
    sample.1.capturedMs = originMs + k / 16 ∧ sample.2.capturedMs = originMs + k / 16

def SharedClock (r : Recorder) : Prop :=
  ∃ originMs, OnClock originMs (track r.systemWriter) ∧ OnClock originMs (track r.micWriter)

/-- When the start of a merged segment was captured, on the track of its speaker. -/
def spokenAt (r : Recorder) (seg : Segment) : Option ℚ :=
  let samples := track (if seg.speakerId = some 0 then r.micWriter else r.systemWriter)
  samples[16 * seg.startMs]?.map fun sample => sample.1.capturedMs

/-- Segments of the two tracks are merged in the order they were spoken in. -/
def MergesInOrder (r : Recorder) : Prop :=
  ∀ mic system turns merged, mergeTwoTrack mic system turns = some merged →
    merged.Pairwise fun a b =>
      ∀ atA atB, spokenAt r a = some atA → spokenAt r b = some atB → atA ≤ atB

theorem OnClock.spokenAt {originMs : ℚ} {samples : List (TimedByte × TimedByte)}
    (h : OnClock originMs samples) {ms : Nat} {at_ : ℚ}
    (hat : (samples[16 * ms]?.map fun sample => sample.1.capturedMs) = some at_) :
    at_ = originMs + ms := by
  obtain ⟨sample, hsample, rfl⟩ := Option.map_eq_some_iff.mp hat
  rw [(h _ _ hsample).1]
  push_cast
  ring

theorem SharedClock.mergesInOrder {r : Recorder} (h : SharedClock r) : MergesInOrder r := by
  obtain ⟨originMs, hsystem, hmic⟩ := h
  have hspoken : ∀ seg at_, spokenAt r seg = some at_ → at_ = originMs + seg.startMs := by
    intro seg at_ hat
    unfold spokenAt at hat
    by_cases hyou : seg.speakerId = some 0
    · rw [if_pos hyou] at hat
      exact hmic.spokenAt hat
    · rw [if_neg hyou] at hat
      exact hsystem.spokenAt hat
  intro mic system turns merged hmerge
  obtain ⟨offset, -, rfl⟩ := Option.map_eq_some_iff.mp hmerge
  refine (pairwise_sortByStart _).imp ?_
  intro a b hab atA atB ha hb
  have hcast : (a.startMs : ℚ) ≤ b.startMs := by exact_mod_cast hab
  rw [hspoken a atA ha, hspoken b atB hb]
  linarith

end Capture
end Panops
