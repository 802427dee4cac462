import Panops.Audio.RecursiveAsr

/-!
# Transcribing a track

Voice activity detection, merging of the regions it finds, and the recursive
transcription of each of them.
-/

namespace Panops

open Lib.Machine Lib.Spans Lib.Fallible Audio

inductive VadError where
  | model (message : String)
  | invalidAudio (message : String)
  | io (message : String)
deriving DecidableEq

abbrev Vad := List Single → UInt32 → Except VadError (List SpeechRegion)

namespace Engine

/-- How the transcription of a track ends without a result. -/
inductive TrackFailure where
  | vad (e : VadError)
  | asr (f : AsrFailure)
  | panicked (at_ : Panic)
deriving DecidableEq

/-- The gap up to which regions are merged. -/
def mergeGapMs : Nat := 5000

/-- `(samples.len() as u64 * 1000) / u64::from(sample_rate)`. -/
def totalAudioMs (samples : List Single) (sampleRate : UInt32) : Except TrackFailure Nat :=
  if sampleRate = 0 then .error (.panicked .divideByZero)
  else .ok (samples.length * 1000 % 2 ^ 64 / sampleRate.toNat)

/-- What the regions so far came to. -/
structure Progress where
  segments : List Segment
  model : Option String
  calls : Nat

section

variable (asr : AsrProvider) (samples : List Single) (sampleRate : UInt32)
  (language : Option String)

/-- The loop over the merged regions. -/
def transcribeRegions (totalMs : Nat) : List SpeechRegion → Progress →
    Except AsrFailure Progress
  | [], acc => .ok acc
  | region :: rest, acc =>
    let clamped := region.clampTo totalMs
    if clamped.endMs ≤ clamped.startMs then transcribeRegions totalMs rest acc
    else do
      let out ← transcribeRecursive asr samples sampleRate language clamped acc.calls
      transcribeRegions totalMs rest
        { segments := acc.segments ++ out.1.segments
          model := acc.model.or out.1.model
          calls := out.2 }

def transcribeTrackLabeled (vad : Vad) :
    Except TrackFailure (List Segment × Option String) := do
  let regions ← (vad samples sampleRate).mapError .vad
  let totalMs ← totalAudioMs samples sampleRate
  let out ← (transcribeRegions asr samples sampleRate language totalMs
    (mergeAdjacentRegions regions mergeGapMs) ⟨[], none, 0⟩).mapError .asr
  return (out.segments, out.model)

end

variable {asr : AsrProvider} {samples : List Single} {sampleRate : UInt32}
  {language : Option String}

/-- A region within the audio that the segment lies in. -/
def LiesIn (regions : List SpeechRegion) (totalMs : Nat) (s : Segment) : Prop :=
  ∃ r ∈ regions, (r.clampTo totalMs).startMs ≤ s.startMs ∧ s.endMs ≤ (r.clampTo totalMs).endMs

/-- The regions come from left to right, so each one's segments go behind those
of the regions before it. -/
theorem within_transcribeRegions {totalMs : Nat}
    (hasr : Regular asr samples sampleRate totalMs) {regions : List SpeechRegion}
    (hregions : Apart regions) {acc out : Progress} {lo : Nat} (hlo : lo ≤ totalMs)
    (hbehind : ∀ r ∈ regions, lo ≤ (r.clampTo totalMs).startMs)
    (hacc : Within Segment.startMs Segment.endMs 0 lo acc.segments)
    (h : transcribeRegions asr samples sampleRate language totalMs regions acc = .ok out) :
    Within Segment.startMs Segment.endMs 0 totalMs out.segments ∧
      ∀ s ∈ out.segments, s ∈ acc.segments ∨ LiesIn regions totalMs s := by
  induction regions generalizing acc lo with
  | nil =>
    cases h
    exact ⟨hacc.mono (Nat.le_refl 0) hlo, fun s hs => Or.inl hs⟩
  | cons region rest ih =>
    obtain ⟨hfirst, hapart⟩ := List.pairwise_cons.mp hregions.apart
    have hrest : Apart rest :=
      ⟨fun r hr => hregions.ordered r (List.mem_cons_of_mem region hr), hapart⟩
    have hlift : ∀ s, LiesIn rest totalMs s → LiesIn (region :: rest) totalMs s :=
      fun s ⟨r, hr, hs⟩ => ⟨r, List.mem_cons_of_mem region hr, hs⟩
    have hstart := hbehind region List.mem_cons_self
    rw [transcribeRegions] at h
    split at h
    · obtain ⟨hwithin, hlies⟩ := ih hrest hlo
        (fun r hr => hbehind r (List.mem_cons_of_mem region hr)) hacc h
      exact ⟨hwithin, fun s hs => (hlies s hs).imp_right (hlift s)⟩
    · next hspeech =>
      obtain ⟨result, hresult, h⟩ := bind_eq_ok.mp h
      have hend : (region.clampTo totalMs).endMs ≤ totalMs := Nat.min_le_right _ _
      have hhere := within_recurse hasr (by omega) hend hresult
      have hnext : ∀ r ∈ rest, (region.clampTo totalMs).endMs ≤ (r.clampTo totalMs).startMs := by
        intro r hr
        have hle := hfirst r hr
        show min region.endMs totalMs ≤ min r.startMs totalMs
        omega
      have hjoined := hacc.append (hhere.mono hstart (Nat.le_refl _)) (Nat.zero_le lo)
        (by omega)
      obtain ⟨hwithin, hlies⟩ := ih hrest hend hnext hjoined h
      refine ⟨hwithin, fun s hs => ?_⟩
      rcases hlies s hs with hbefore | hlater
      · rcases List.mem_append.mp hbefore with hbefore | hin
        · exact Or.inl hbefore
        · exact Or.inr ⟨region, List.mem_cons_self, hhere.from_lo s hin, hhere.to_hi s hin⟩
      · exact Or.inr (hlift s hlater)

theorem transcribeRegions_ne_panicked (totalMs : Nat) (regions : List SpeechRegion)
    (acc : Progress) (p : Panic) :
    transcribeRegions asr samples sampleRate language totalMs regions acc ≠
      .error (.panicked p) := by
  induction regions generalizing acc with
  | nil =>
    intro h
    cases h
  | cons region rest ih =>
    intro h
    rw [transcribeRegions] at h
    split at h
    · exact ih acc h
    · rcases bind_eq_error.mp h with h | ⟨out, _, h⟩
      · exact recurse_ne_panicked _ _ _ _ p h
      · exact ih _ h

/-- Whatever the detected regions are, a track comes out as a timeline whose
segments lie within the audio and within one region each. -/
theorem transcribeTrackLabeled_timeline {vad : Vad}
    (hvad : ∀ regions, vad samples sampleRate = .ok regions → ∀ r ∈ regions, r.startMs < r.endMs)
    (hasr : ∀ totalMs, totalAudioMs samples sampleRate = .ok totalMs →
      Regular asr samples sampleRate totalMs) :
    (∀ segments model,
      transcribeTrackLabeled asr samples sampleRate language vad = .ok (segments, model) →
      ∃ regions totalMs, vad samples sampleRate = .ok regions ∧
        totalAudioMs samples sampleRate = .ok totalMs ∧ Timeline segments ∧
        ∀ s ∈ segments, s.endMs ≤ totalMs ∧
          LiesIn (mergeAdjacentRegions regions mergeGapMs) totalMs s) ∧
    ∀ p, transcribeTrackLabeled asr samples sampleRate language vad ≠ .error (.asr (.panicked p)) := by
  constructor
  · intro segments model h
    obtain ⟨regions, hregions, h⟩ := bind_eq_ok.mp h
    obtain ⟨totalMs, htotal, h⟩ := bind_eq_ok.mp h
    obtain ⟨out, hout, h⟩ := bind_eq_ok.mp h
    cases h
    have hregions := mapError_eq_ok.mp hregions
    have hapart : Apart (mergeAdjacentRegions regions mergeGapMs) :=
      apart_mergeAdjacentRegions mergeGapMs fun r hr => Nat.le_of_lt (hvad regions hregions r hr)
    obtain ⟨hwithin, hlies⟩ := within_transcribeRegions (hasr totalMs htotal) hapart
      (Nat.zero_le totalMs) (fun r _ => Nat.zero_le _) Within.nil (mapError_eq_ok.mp hout)
    refine ⟨regions, totalMs, hregions, htotal, ⟨hwithin.sorted, hwithin.ordered⟩, fun s hs => ?_⟩
    exact ⟨hwithin.to_hi s hs, (hlies s hs).resolve_left (by simp)⟩
  · intro p h
    rcases bind_eq_error.mp h with h | ⟨regions, _, h⟩
    · obtain ⟨e, _, he⟩ := mapError_eq_error.mp h
      cases he
    · rcases bind_eq_error.mp h with h | ⟨totalMs, _, h⟩
      · unfold totalAudioMs at h
        split at h <;> cases h
      · rcases bind_eq_error.mp h with h | ⟨out, _, h⟩
        · obtain ⟨f, hf, he⟩ := mapError_eq_error.mp h
          cases he
          exact transcribeRegions_ne_panicked _ _ _ p hf
        · cases h

/-- A recogniser that hears one word at the start of every chunk. -/
def oneWord : AsrProvider where
  transcribe := fun _ _ _ _ =>
    .ok { model := "m", segments := [{ (default : Segment) with endMs := 700 }],
          negative := fun _ => false }
  isFake := false

theorem regular_oneWord (samples : List Single) (sampleRate : UInt32) {totalMs : Nat}
    (h : totalMs < 2 ^ 63) : Regular oneWord samples sampleRate totalMs := by
  intro calls region chunk hint t hregion htotal _ ht
  cases ht
  refine ⟨List.pairwise_singleton _ _, fun s hs => ?_⟩
  obtain rfl := List.mem_singleton.mp hs
  exact ⟨Nat.zero_le 700, show 700 + region.startMs < 2 ^ 64 by omega⟩

/-- Speech that is reported past the end of two seconds of audio. -/
def lateSpeech : Vad := fun _ _ => .ok [⟨1500, 2500⟩]

theorem transcribeTrackLabeled_timeline_late :
    Timeline [{ (default : Segment) with startMs := 1500, endMs := 2000 }] := by
  have hvad : ∀ regions, lateSpeech [.nan, .nan] 1 = .ok regions →
      ∀ r ∈ regions, r.startMs < r.endMs := by
    intro regions h
    cases h
    simp
  have hasr : ∀ totalMs, totalAudioMs [.nan, .nan] 1 = .ok totalMs →
      Regular oneWord [.nan, .nan] 1 totalMs := by
    intro totalMs h
    cases h
    exact regular_oneWord _ _ (by decide)
  have hrun : transcribeTrackLabeled oneWord [.nan, .nan] 1 none lateSpeech =
      .ok ([{ (default : Segment) with startMs := 1500, endMs := 2000 }], some "m") := rfl
  obtain ⟨_, _, _, _, htimeline, _⟩ := (transcribeTrackLabeled_timeline hvad hasr).1 _ _ hrun
  exact htimeline

end Engine
end Panops
