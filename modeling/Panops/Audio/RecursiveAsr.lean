import Panops.Audio.Regions
import Panops.Lib.Fallible
import Panops.Lib.Spans
import Panops.Segment

/-!
# Recursive transcription

A region that is too long, or that the recogniser is unsure about, is split and
both halves are transcribed again.
-/

namespace Panops

open Lib.Machine Lib.Spans Lib.Fallible

inductive AsrError where
  | invalidAudio (message : String)
  | model (message : String)
  | transcription (message : String)
  | io (message : String)
  | audioNotFound (path : String)
deriving DecidableEq

/-- What a recogniser returns for a chunk.  `negative i` is the sign bit of the
confidence of the `i`-th segment, which `Single` does not keep for a zero or for
what is not a number. -/
structure AsrTranscript where
  model : String
  segments : List Segment
  negative : Nat → Bool

/-- A recogniser; the answer to a chunk may depend on how many calls there were
before. -/
structure AsrProvider where
  transcribe : Nat → List Single → UInt32 → Option String → Except AsrError AsrTranscript
  isFake : Bool

/-- Where the code would panic. -/
inductive Panic where
  | divideByZero
  | sliceOutOfBounds
  | clampBounds
  | emptySegments
deriving DecidableEq

/-- How a transcription ends without a result. -/
inductive AsrFailure where
  | error (e : AsrError)
  | panicked (at_ : Panic)
deriving DecidableEq

namespace Audio

/-- A confidence of 0.5. -/
def threshold : Single := .finite (1 / 2)

def minRegionMs : Nat := 10000

def maxDepth : Nat := 3

def maxAutoSplitMs : Nat := 30000

/-- `f32::total_cmp` is less, for numbers given with their sign bits.  Numbers
that are not a number and differ in their payload only are not told apart. -/
def totalLt (a b : Bool × Single) : Bool :=
  let rank : Bool × Single → Nat := fun x =>
    match x with
    | (negative, .nan) => if negative then 0 else 4
    | (_, .negInf) => 1
    | (_, .finite _) => 2
    | (_, .posInf) => 3
  match a, b with
  | (negative, .finite v), (negative', .finite w) =>
    v < w || (v == w && negative && !negative')
  | a, b => rank a < rank b

/-- `min_by` on the confidences: the first of the least ones. -/
def worstSegment (t : AsrTranscript) : Option Segment :=
  match t.segments.zipIdx with
  | [] => none
  | s :: rest =>
    let least := rest.foldl
      (fun best s =>
        if totalLt (t.negative s.2, s.1.confidence) (t.negative best.2, best.1.confidence) then s
        else best)
      s
    some least.1

/-- `&samples[start..end]`. -/
def slice (samples : List Single) (start stop : Nat) : Except AsrFailure (List Single) :=
  if start ≤ stop ∧ stop ≤ samples.length then .ok ((samples.drop start).take (stop - start))
  else .error (.panicked .sliceOutOfBounds)

def saturatingMul (a b : Nat) : Nat := min (a * b) u64Max

/-- The first and the last index of a region's samples. -/
def sliceBounds (samples : List Single) (sampleRate : UInt32) (region : SpeechRegion) :
    Nat × Nat :=
  let len := samples.length
  let start := min (saturatingMul region.startMs sampleRate.toNat / 1000) len
  let stop := max (min (saturatingMul region.endMs sampleRate.toNat / 1000) len) start
  (start, stop)

def sliceForRegion (samples : List Single) (sampleRate : UInt32) (region : SpeechRegion) :
    Except AsrFailure (List Single) :=
  slice samples (sliceBounds samples sampleRate region).1 (sliceBounds samples sampleRate region).2

def offsetSegment (seg : Segment) (regionStartMs regionEndMs : Nat) : Segment :=
  { seg with
    startMs := min (wrappingAdd seg.startMs regionStartMs) regionEndMs
    endMs := min (wrappingAdd seg.endMs regionStartMs) regionEndMs }

/-- `u64::clamp`, which panics when the bounds are the wrong way round. -/
def clamp (x lo hi : Nat) : Except AsrFailure Nat :=
  if lo ≤ hi then .ok (max lo (min x hi)) else .error (.panicked .clampBounds)

structure RegionResult where
  segments : List Segment
  model : Option String

/-- The result of a region that is not split. -/
def wholeRegion (region : SpeechRegion) (t : AsrTranscript) : RegionResult where
  segments := t.segments.map (offsetSegment · region.startMs region.endMs)
  model := if t.segments.isEmpty then none else some t.model

/-- The model of the call for the whole region wins. -/
def joinHalves (model : Option String) (left right : RegionResult) : RegionResult where
  segments := left.segments ++ right.segments
  model := (model.or left.model).or right.model

/-- Where to split a region, if at all. -/
def splitPoint (asr : AsrProvider) (region : SpeechRegion) (t : AsrTranscript) :
    Except AsrFailure (Option Nat) :=
  let durationMs := region.endMs - region.startMs
  if t.segments.isEmpty ∨ durationMs < 2 * minRegionMs then .ok none
  else
    match worstSegment t with
    | none => .error (.panicked .emptySegments)
    | some worst =>
      let confidenceTrigger := worst.confidence.lt threshold
      let durationTrigger := decide (maxAutoSplitMs < durationMs) && !asr.isFake
      if !confidenceTrigger && !durationTrigger then .ok none
      else
        let raw :=
          if confidenceTrigger then wrappingAdd worst.startMs region.startMs
          else region.startMs + durationMs / 2
        (clamp raw (region.startMs + minRegionMs) (region.endMs - minRegionMs)).map some

/-- `recurse`, with `remaining` more levels below this one and `calls` calls of
the recogniser before it; it returns the number of calls after it too.  A
language hint or the depth cap end the recursion. -/
def recurse (asr : AsrProvider) (samples : List Single) (sampleRate : UInt32)
    (languageHint : Option String) (remaining : Nat) (region : SpeechRegion) (calls : Nat) :
    Except AsrFailure (RegionResult × Nat) := do
  let chunk ← sliceForRegion samples sampleRate region
  let t ← (asr.transcribe calls chunk sampleRate languageHint).mapError .error
  match languageHint, remaining with
  | none, remaining + 1 =>
    match ← splitPoint asr region t with
    | none => return (wholeRegion region t, calls + 1)
    | some splitMs =>
      let left ← recurse asr samples sampleRate none remaining
        { region with endMs := splitMs } (calls + 1)
      let right ← recurse asr samples sampleRate none remaining
        { region with startMs := splitMs } left.2
      return (joinHalves (wholeRegion region t).model left.1 right.1, right.2)
  | _, _ => return (wholeRegion region t, calls + 1)

def transcribeRecursive (asr : AsrProvider) (samples : List Single) (sampleRate : UInt32)
    (languageHint : Option String) (region : SpeechRegion) (calls : Nat) :
    Except AsrFailure (RegionResult × Nat) :=
  recurse asr samples sampleRate languageHint maxDepth region calls

/-! ## No panics -/

/-- The bounds of a region's samples are in order and within the buffer. -/
theorem sliceForRegion_eq (samples : List Single) (sampleRate : UInt32) (region : SpeechRegion) :
    sliceForRegion samples sampleRate region =
      .ok ((samples.drop (sliceBounds samples sampleRate region).1).take
        ((sliceBounds samples sampleRate region).2 - (sliceBounds samples sampleRate region).1)) := by
  have hbounds : (sliceBounds samples sampleRate region).1 ≤
        (sliceBounds samples sampleRate region).2 ∧
      (sliceBounds samples sampleRate region).2 ≤ samples.length := by
    simp only [sliceBounds]
    omega
  rw [sliceForRegion, slice, if_pos hbounds]

theorem exists_worstSegment {t : AsrTranscript} (h : t.segments ≠ []) :
    ∃ worst, worstSegment t = some worst := by
  obtain ⟨s, rest, hsegments⟩ := List.exists_cons_of_ne_nil h
  rw [worstSegment, hsegments, List.zipIdx_cons]
  exact ⟨_, rfl⟩

/-- A region is split at least `MIN_REGION_MS` from both of its ends, and finding
the point never panics. -/
theorem splitPoint_cases (asr : AsrProvider) (region : SpeechRegion) (t : AsrTranscript) :
    splitPoint asr region t = .ok none ∨
      ∃ splitMs, splitPoint asr region t = .ok (some splitMs) ∧
        region.startMs + minRegionMs ≤ splitMs ∧ splitMs + minRegionMs ≤ region.endMs := by
  unfold splitPoint
  simp only
  split
  · exact Or.inl rfl
  · next hlong =>
    rw [not_or, List.isEmpty_iff] at hlong
    obtain ⟨hne, hduration⟩ := hlong
    obtain ⟨worst, hworst⟩ := exists_worstSegment hne
    rw [hworst]
    simp only
    split
    · exact Or.inl rfl
    · generalize (if worst.confidence.lt threshold = true then
        wrappingAdd worst.startMs region.startMs
        else region.startMs + (region.endMs - region.startMs) / 2) = raw
      have hbounds : region.startMs + minRegionMs ≤ region.endMs - minRegionMs := by
        unfold minRegionMs at hduration ⊢
        omega
      refine Or.inr ⟨max (region.startMs + minRegionMs) (min raw (region.endMs - minRegionMs)),
        ?_, ?_, ?_⟩
      · rw [clamp, if_pos hbounds]
        rfl
      · omega
      · unfold minRegionMs at hduration ⊢
        omega

/-! ## One region -/

/-- What a recogniser promises about the regions of a buffer: segments in order,
none backwards, and times that do not overflow past the start of the region. -/
def Regular (asr : AsrProvider) (samples : List Single) (sampleRate : UInt32)
    (totalAudioMs : Nat) : Prop :=
  ∀ calls region chunk hint t, region.startMs ≤ region.endMs → region.endMs ≤ totalAudioMs →
    sliceForRegion samples sampleRate region = .ok chunk →
    asr.transcribe calls chunk sampleRate hint = .ok t →
      t.segments.Pairwise (fun a b => a.startMs ≤ b.startMs) ∧
        ∀ s ∈ t.segments, s.startMs ≤ s.endMs ∧ s.endMs + region.startMs < 2 ^ 64

theorem wrappingAdd_of_lt {a b : Nat} (h : a + b < 2 ^ 64) : wrappingAdd a b = a + b :=
  Nat.mod_eq_of_lt h

/-- The segments of a region as a whole stay within it. -/
theorem within_wholeRegion {region : SpeechRegion} {t : AsrTranscript}
    (hregion : region.startMs ≤ region.endMs)
    (hsorted : t.segments.Pairwise fun a b => a.startMs ≤ b.startMs)
    (htimes : ∀ s ∈ t.segments, s.startMs ≤ s.endMs ∧ s.endMs + region.startMs < 2 ^ 64) :
    Within Segment.startMs Segment.endMs region.startMs region.endMs
      (wholeRegion region t).segments := by
  have hoffset : ∀ s ∈ t.segments,
      (offsetSegment s region.startMs region.endMs).startMs =
          min (s.startMs + region.startMs) region.endMs ∧
        (offsetSegment s region.startMs region.endMs).endMs =
          min (s.endMs + region.startMs) region.endMs := by
    intro s hs
    obtain ⟨hle, hlt⟩ := htimes s hs
    simp only [offsetSegment]
    rw [wrappingAdd_of_lt (by omega), wrappingAdd_of_lt hlt]
    exact ⟨rfl, rfl⟩
  constructor
  · refine List.pairwise_map.mpr (hsorted.imp_of_mem fun {a b} ha hb hab => ?_)
    rw [(hoffset a ha).1, (hoffset b hb).1]
    omega
  all_goals
    intro x hx
    obtain ⟨s, hs, rfl⟩ := List.mem_map.mp hx
    have htime := htimes s hs
    have hmoved := hoffset s hs
    omega

variable {asr : AsrProvider} {samples : List Single} {sampleRate : UInt32}

/-- A region that was transcribed was taken as a whole or split. -/
theorem recurse_cases {hint : Option String} {remaining : Nat} {region : SpeechRegion}
    {calls : Nat} {out : RegionResult × Nat}
    (h : recurse asr samples sampleRate hint remaining region calls = .ok out) :
    ∃ chunk t, sliceForRegion samples sampleRate region = .ok chunk ∧
      asr.transcribe calls chunk sampleRate hint = .ok t ∧
        (out.1 = wholeRegion region t ∨
          ∃ rest splitMs left right, remaining = rest + 1 ∧
            splitPoint asr region t = .ok (some splitMs) ∧
            recurse asr samples sampleRate none rest { region with endMs := splitMs } (calls + 1) =
              .ok left ∧
            recurse asr samples sampleRate none rest { region with startMs := splitMs } left.2 =
              .ok right ∧
            out.1.segments = left.1.segments ++ right.1.segments) := by
  rw [recurse.eq_def, bind_eq_ok] at h
  obtain ⟨chunk, hchunk, h⟩ := h
  obtain ⟨t, ht, h⟩ := bind_eq_ok.mp h
  refine ⟨chunk, t, hchunk, mapError_eq_ok.mp ht, ?_⟩
  cases hint with
  | some language =>
    cases h
    exact Or.inl rfl
  | none =>
    cases remaining with
    | zero =>
      cases h
      exact Or.inl rfl
    | succ rest =>
      obtain ⟨point, hpoint, h⟩ := bind_eq_ok.mp h
      cases point with
      | none =>
        cases h
        exact Or.inl rfl
      | some splitMs =>
        obtain ⟨left, hleft, h⟩ := bind_eq_ok.mp h
        obtain ⟨right, hright, h⟩ := bind_eq_ok.mp h
        cases h
        exact Or.inr ⟨rest, splitMs, left, right, rfl, hpoint, hleft, hright, rfl⟩

/-- The segments of a region stay within it and in order: a split puts the halves
on either side of its point. -/
theorem within_recurse {totalAudioMs : Nat} (hasr : Regular asr samples sampleRate totalAudioMs)
    {hint : Option String} {remaining : Nat} {region : SpeechRegion} {calls : Nat}
    {out : RegionResult × Nat} (hregion : region.startMs ≤ region.endMs)
    (htotal : region.endMs ≤ totalAudioMs)
    (h : recurse asr samples sampleRate hint remaining region calls = .ok out) :
    Within Segment.startMs Segment.endMs region.startMs region.endMs out.1.segments := by
  induction remaining generalizing hint region calls out with
  | zero =>
    obtain ⟨chunk, t, hchunk, ht, hwhole | hsplit⟩ := recurse_cases h
    · obtain ⟨hsorted, htimes⟩ := hasr calls region chunk hint t hregion htotal hchunk ht
      rw [hwhole]
      exact within_wholeRegion hregion hsorted htimes
    · obtain ⟨rest, _, _, _, hrest, _⟩ := hsplit
      omega
  | succ remaining ih =>
    obtain ⟨chunk, t, hchunk, ht, hwhole | hsplit⟩ := recurse_cases h
    · obtain ⟨hsorted, htimes⟩ := hasr calls region chunk hint t hregion htotal hchunk ht
      rw [hwhole]
      exact within_wholeRegion hregion hsorted htimes
    · obtain ⟨rest, splitMs, left, right, hrest, hpoint, hleft, hright, hsegments⟩ := hsplit
      obtain rfl : rest = remaining := by omega
      have hsplit : region.startMs ≤ splitMs ∧ splitMs ≤ region.endMs := by
        rcases splitPoint_cases asr region t with hnone | ⟨ms, hsome, hlo, hhi⟩
        · rw [hnone] at hpoint
          cases hpoint
        · rw [hsome] at hpoint
          cases hpoint
          omega
      have hleft' := @ih none ⟨region.startMs, splitMs⟩ (calls + 1) left hsplit.1
        (show splitMs ≤ totalAudioMs by omega) hleft
      have hright' := @ih none ⟨splitMs, region.endMs⟩ left.2 right hsplit.2 htotal hright
      rw [hsegments]
      exact hleft'.append hright' hsplit.1 hsplit.2

/-- Transcribing never panics. -/
theorem recurse_ne_panicked (hint : Option String) (remaining : Nat) (region : SpeechRegion)
    (calls : Nat) (p : Panic) :
    recurse asr samples sampleRate hint remaining region calls ≠ .error (.panicked p) := by
  induction remaining generalizing hint region calls with
  | zero =>
    intro h
    rw [recurse.eq_def, sliceForRegion_eq] at h
    rcases bind_eq_error.mp h with h | ⟨chunk, _, h⟩
    · cases h
    · rcases bind_eq_error.mp h with h | ⟨t, _, h⟩
      · obtain ⟨e, _, he⟩ := mapError_eq_error.mp h
        cases he
      · cases hint <;> cases h
  | succ remaining ih =>
    intro h
    rw [recurse.eq_def, sliceForRegion_eq] at h
    rcases bind_eq_error.mp h with h | ⟨chunk, _, h⟩
    · cases h
    · rcases bind_eq_error.mp h with h | ⟨t, _, h⟩
      · obtain ⟨e, _, he⟩ := mapError_eq_error.mp h
        cases he
      · cases hint with
        | some language => cases h
        | none =>
          rcases bind_eq_error.mp h with h | ⟨point, _, h⟩
          · rcases splitPoint_cases asr region t with hnone | ⟨ms, hsome, _⟩
            · rw [hnone] at h
              cases h
            · rw [hsome] at h
              cases h
          · cases point with
            | none => cases h
            | some splitMs =>
              rcases bind_eq_error.mp h with h | ⟨left, _, h⟩
              · exact ih _ _ _ h
              · rcases bind_eq_error.mp h with h | ⟨right, _, h⟩
                · exact ih _ _ _ h
                · cases h

end Audio
end Panops
