import Mathlib.Order.Nat
import Panops.Lib.Pushing
import Panops.Lib.Text
import Panops.Segment

/-!
# Segments from WhisperKit

`Transcriber.transcribe` goes through the segments of all results with one running end,
behind which it moves every start.
-/

namespace Panops
namespace Mac

open Lib.Machine Lib.Pushing

/-- A segment as WhisperKit returns it.  Its times are those after the conversion
`UInt64(max(0, seconds * 1000.0))`. -/
structure TranscriptionSegment where
  rawStartMs : Nat
  rawEndMs : Nat
  text : String

structure TranscriptionResult where
  language : String
  segments : List TranscriptionSegment

structure DecodingOptions where
  language : Option String
  detectLanguage : Bool
deriving DecidableEq

structure WireSegment where
  startMs : Nat
  endMs : Nat
  text : String
  languageDetected : Option String
  confidence : Single
  speakerId : Option UInt32

structure WireTranscript where
  model : String
  audioPath : String
  audioDurationMs : Nat
  segments : List WireSegment

/-! ## Special tokens -/

/-- What is behind a match of `<\|[^|>]*\|>` at the start. -/
def behindToken : List Char → Option (List Char)
  | '<' :: '|' :: rest =>
    match rest.dropWhile fun c => c != '|' && c != '>' with
    | '|' :: '>' :: behind => some behind
    | _ => none
  | _ => none

theorem length_behindToken {s behind : List Char} (h : behindToken s = some behind) :
    behind.length < s.length := by
  unfold behindToken at h
  split at h
  · next rest =>
    have hrest := (List.dropWhile_sublist (l := rest) fun c => c != '|' && c != '>').length_le
    split at h
    · next heq =>
      rw [heq, Option.some.inj h, List.length_cons, List.length_cons] at hrest
      rw [List.length_cons, List.length_cons]
      omega
    · cases h
  · cases h

/-- The text without the matches, the first one first. -/
def withoutTokens : List Char → List Char
  | [] => []
  | c :: cs =>
    match _hbehind : behindToken (c :: cs) with
    | some behind => withoutTokens behind
    | none => c :: withoutTokens cs
termination_by s => s.length
decreasing_by
  · exact length_behindToken _hbehind
  · simp

def stripSpecialTokens (s : String) : String :=
  String.ofList (Lib.Text.trim (withoutTokens s.toList))

/-! ## The loops -/

/-- What the loops carry along. -/
structure Progress where
  segments : List WireSegment
  lastEndMs : Nat
  prevEnd : Nat

def Progress.appendSegment (resultLanguage : String) (p : Progress) (s : TranscriptionSegment) :
    Progress :=
  let startMs := max s.rawStartMs p.prevEnd
  let endMs := max startMs s.rawEndMs
  { prevEnd := endMs
    lastEndMs := max p.lastEndMs endMs
    segments := p.segments ++
      [{ startMs, endMs, text := stripSpecialTokens s.text
         languageDetected := some resultLanguage
         confidence := .finite 1, speakerId := none }] }

def Progress.appendResult (p : Progress) (r : TranscriptionResult) : Progress :=
  r.segments.foldl (Progress.appendSegment r.language) p

def decodingOptions (languageHint : Option String) : DecodingOptions where
  language := languageHint
  detectLanguage := if languageHint = none then true else false

/-- `whisperKit` is the package's `transcribe`. -/
def transcribe {ε : Type}
    (whisperKit : String → DecodingOptions → Except ε (List TranscriptionResult))
    (modelName audioPath : String) (languageHint : Option String) : Except ε WireTranscript := do
  let results ← whisperKit audioPath (decodingOptions languageHint)
  let p := results.foldl Progress.appendResult ⟨[], 0, 0⟩
  return { model := "whisperkit-" ++ modelName, audioPath := audioPath
           audioDurationMs := p.lastEndMs, segments := p.segments }

/-! ## The loops as one push after another -/

def TranscriptionSegment.raw (s : TranscriptionSegment) : Nat × Nat := (s.rawStartMs, s.rawEndMs)

def WireSegment.times (s : WireSegment) : Nat × Nat := (s.startMs, s.endMs)

/-- The raw times of all results, in the order of the loops. -/
def rawTimes (results : List TranscriptionResult) : List (Nat × Nat) :=
  results.flatMap fun r => r.segments.map TranscriptionSegment.raw

/-- What the loops have done when `raws` are behind them. -/
structure Reached (raws : List (Nat × Nat)) (p p' : Progress) : Prop where
  times : p'.segments.map WireSegment.times =
    p.segments.map WireSegment.times ++ pushAll p.prevEnd raws
  prevEnd : p'.prevEnd = lastEnd p.prevEnd raws
  lastEndMs : p.lastEndMs = p.prevEnd → p'.lastEndMs = p'.prevEnd

theorem Reached.refl (p : Progress) : Reached [] p p where
  times := (List.append_nil _).symm
  prevEnd := rfl
  lastEndMs := id

theorem Reached.trans {xs ys : List (Nat × Nat)} {p q r : Progress} (hpq : Reached xs p q)
    (hqr : Reached ys q r) : Reached (xs ++ ys) p r where
  times := by
    rw [hqr.times, hpq.times, hpq.prevEnd, pushAll_append, List.append_assoc]
  prevEnd := by rw [hqr.prevEnd, hpq.prevEnd, lastEnd_append]
  lastEndMs h := hqr.lastEndMs (hpq.lastEndMs h)

theorem reached_appendSegment (language : String) (p : Progress) (s : TranscriptionSegment) :
    Reached [s.raw] p (p.appendSegment language s) where
  times := by
    rw [Progress.appendSegment, List.map_append]
    rfl
  prevEnd := rfl
  lastEndMs h := by
    show max p.lastEndMs (max (max s.rawStartMs p.prevEnd) s.rawEndMs) = _
    rw [h]
    exact Nat.max_eq_right (le_push_end p.prevEnd s.raw)

theorem reached_segments (language : String) (segments : List TranscriptionSegment)
    (p : Progress) :
    Reached (segments.map TranscriptionSegment.raw) p
      (segments.foldl (Progress.appendSegment language) p) := by
  induction segments generalizing p with
  | nil => exact .refl p
  | cons s segments ih => exact (reached_appendSegment language p s).trans (ih _)

theorem reached_results (results : List TranscriptionResult) (p : Progress) :
    Reached (rawTimes results) p (results.foldl Progress.appendResult p) := by
  induction results generalizing p with
  | nil => exact .refl p
  | cons r results ih => exact (reached_segments r.language r.segments p).trans (ih _)

variable {ε : Type} {whisperKit : String → DecodingOptions → Except ε (List TranscriptionResult)}
  {audioPath : String} {languageHint : Option String} {results : List TranscriptionResult}

/-- The times of a transcript are the raw ones pushed apart, and its duration is where
the last of them ends. -/
theorem transcribe_times (modelName : String)
    (h : whisperKit audioPath (decodingOptions languageHint) = .ok results) :
    ∃ t, transcribe whisperKit modelName audioPath languageHint = .ok t ∧
      t.segments.map WireSegment.times = pushAll 0 (rawTimes results) ∧
      t.audioDurationMs = lastEnd 0 (rawTimes results) := by
  have hreached := reached_results results ⟨[], 0, 0⟩
  have hrun : transcribe whisperKit modelName audioPath languageHint =
      .ok { model := "whisperkit-" ++ modelName, audioPath := audioPath
            audioDurationMs := (results.foldl Progress.appendResult ⟨[], 0, 0⟩).lastEndMs
            segments := (results.foldl Progress.appendResult ⟨[], 0, 0⟩).segments } := by
    rw [transcribe, h]
    rfl
  exact ⟨_, hrun, hreached.times, (hreached.lastEndMs rfl).trans hreached.prevEnd⟩

/-- The segments of a transcript follow each other inside of its duration, each keeps to
its raw times or is empty, and raw starts in order lose no audio. -/
theorem transcribe_covers (modelName : String)
    (h : whisperKit audioPath (decodingOptions languageHint) = .ok results) :
    ∃ t, transcribe whisperKit modelName audioPath languageHint = .ok t ∧
      (∀ s ∈ t.segments, s.startMs ≤ s.endMs ∧ s.endMs ≤ t.audioDurationMs) ∧
      t.segments.Pairwise (fun s s' => s.endMs ≤ s'.startMs) ∧
      List.Forall₂ (fun raw s => s.startMs = s.endMs ∨ raw.1 ≤ s.startMs ∧ s.endMs ≤ raw.2)
        (rawTimes results) t.segments ∧
      ((rawTimes results).Pairwise (fun x y => x.1 ≤ y.1) →
        union (t.segments.map WireSegment.times) = union (rawTimes results)) := by
  obtain ⟨t, ht, htimes, hduration⟩ := transcribe_times modelName h
  have hmem : ∀ s ∈ t.segments, s.times ∈ pushAll 0 (rawTimes results) := fun s hs => by
    rw [← htimes]
    exact List.mem_map_of_mem hs
  refine ⟨t, ht, fun s hs => ⟨?_, ?_⟩, ?_, ?_, fun hsorted => ?_⟩
  · exact ordered_of_mem_pushAll (hmem s hs)
  · rw [hduration]
    exact le_lastEnd_of_mem (hmem s hs)
  · have hpairwise := pairwise_pushAll 0 (rawTimes results)
    rw [← htimes] at hpairwise
    exact List.pairwise_map.mp hpairwise
  · have hinside := forall₂_pushAll_inside 0 (rawTimes results)
    rw [← htimes] at hinside
    exact List.forall₂_map_right_iff.mp hinside
  · rw [htimes]
    exact union_pushAll_bot hsorted

/-- Two windows whose segments overlap and are nested. -/
theorem transcribe_covers_overlapping :
    ∃ t, transcribe
        (fun _ _ => (.ok [⟨"en", [⟨0, 10, "a"⟩, ⟨4, 6, "b"⟩]⟩, ⟨"en", [⟨8, 12, "c"⟩]⟩] :
          Except Unit (List TranscriptionResult))) "base" "a.wav" none = .ok t ∧
      (∀ s ∈ t.segments, s.startMs ≤ s.endMs ∧ s.endMs ≤ t.audioDurationMs) ∧
      t.segments.Pairwise (fun s s' => s.endMs ≤ s'.startMs) ∧
      List.Forall₂ (fun raw s => s.startMs = s.endMs ∨ raw.1 ≤ s.startMs ∧ s.endMs ≤ raw.2)
        [(0, 10), (4, 6), (8, 12)] t.segments ∧
      union (t.segments.map WireSegment.times) = union [(0, 10), (4, 6), (8, 12)] := by
  obtain ⟨t, ht, hends, hpairwise, hinside, hcovers⟩ :=
    @transcribe_covers Unit (fun _ _ =>
      .ok [⟨"en", [⟨0, 10, "a"⟩, ⟨4, 6, "b"⟩]⟩, ⟨"en", [⟨8, 12, "c"⟩]⟩]) "a.wav" none
      [⟨"en", [⟨0, 10, "a"⟩, ⟨4, 6, "b"⟩]⟩, ⟨"en", [⟨8, 12, "c"⟩]⟩] "base" rfl
  exact ⟨t, ht, hends, hpairwise, hinside, hcovers (by decide)⟩

end Mac
end Panops
