import Panops.Notes.Chunking

/-!
# The size of a chunk

The first pass keeps the estimate of a chunk under the maximum.  A line of the rendered
transcript is longer than its estimate, since the times and the label take more than
the twenty bytes that are allowed for them.
-/

namespace Panops

open Lib Lib.Runs

namespace Prompts

theorem len_append (a b : String) : len (a ++ b) = len a + len b := String.utf8ByteSize_append

theorem length_le_len (cs : List Char) : cs.length ≤ len (String.ofList cs) := by
  induction cs with
  | nil => exact Nat.zero_le _
  | cons c cs ih =>
    have hfirst : len (String.ofList [c]) = c.utf8Size := String.utf8ByteSize_singleton
    have hpos := c.utf8Size_pos
    show cs.length + 1 ≤ len (String.ofList ([c] ++ cs))
    rw [String.ofList_append, len_append, hfirst]
    omega

theorem four_le_len_padSeconds (n : Nat) : 4 ≤ len (padSeconds n) := by
  refine Nat.le_trans ?_ (length_le_len _)
  simp only [Decimal.padLeft, List.length_append, List.length_replicate]
  omega

theorem seven_le_len_speakerLabel (id : Option UInt32) : 7 ≤ len (speakerLabel id) := by
  cases id with
  | none => decide
  | some id =>
    have hlabel : len (speakerLabel (some id)) = 8 + len (toString id) := len_append _ _
    omega

/-- What a rendered line has beyond its text: ten bytes of its own, the two times and
the label. -/
def lineBytes (seg : Segment) : Nat :=
  10 + len (padSeconds (seg.startMs / 1000)) + len (padSeconds (seg.endMs / 1000)) +
    len (speakerLabel seg.speakerId)

/-- What a line has beyond what is allowed for it. -/
def excess (seg : Segment) : Nat := lineBytes seg - SEGMENT_LINE_OVERHEAD

def excessOf (segments : List Segment) : Nat := (segments.map excess).sum

theorem len_renderSegment (seg : Segment) :
    len (renderSegment seg) = segmentChars seg + excess seg ∧ 5 ≤ excess seg := by
  have hstart := four_le_len_padSeconds (seg.startMs / 1000)
  have hend := four_le_len_padSeconds (seg.endMs / 1000)
  have hlabel := seven_le_len_speakerLabel seg.speakerId
  have hfixed : len "[" = 1 ∧ len "–" = 3 ∧ len "s] " = 3 ∧ len ": " = 2 ∧ len "\n" = 1 := by
    decide
  obtain ⟨h₁, h₂, h₃, h₄, h₅⟩ := hfixed
  simp only [renderSegment, len_append, h₁, h₂, h₃, h₄, h₅, segmentChars, excess, lineBytes,
    SEGMENT_LINE_OVERHEAD]
  omega

theorem renderTranscript_concat (segments : List Segment) (seg : Segment) :
    renderTranscript (segments ++ [seg]) = renderTranscript segments ++ renderSegment seg := by
  rw [renderTranscript, List.foldl_append]
  rfl

/-- The rendered size is the estimate and the excess of every line. -/
theorem len_renderTranscript (segments : List Segment) :
    len (renderTranscript segments) = estimateTranscriptChars segments + excessOf segments := by
  induction segments using List.reverseRecOn with
  | nil => rfl
  | append_singleton segments seg ih =>
    rw [renderTranscript_concat, len_append, ih, (len_renderSegment seg).1,
      estimateTranscriptChars_concat]
    simp only [excessOf, List.map_append, List.sum_append, List.map_cons, List.map_nil,
      List.sum_singleton]
    omega

/-- Every line is at least five bytes longer than its estimate. -/
theorem five_mul_length_le_excessOf (segments : List Segment) :
    5 * segments.length ≤ excessOf segments := by
  induction segments with
  | nil => exact Nat.le_refl 0
  | cons seg segments ih =>
    have hseg := (len_renderSegment seg).2
    simp only [excessOf, List.map_cons, List.sum_cons, List.length_cons] at ih ⊢
    omega

/-! ## When the chunks fit -/

/-- A chunk that the documentation allows. -/
def Allowed (maxChars : Nat) (chunk : List Segment) : Prop :=
  chunk.length = 1 ∨ len (renderTranscript chunk) ≤ maxChars

/-- What the estimate leaves of the maximum has room for the excess of the lines. -/
def HasRoom (maxChars : Nat) (chunk : List Segment) : Prop :=
  estimateTranscriptChars chunk + excessOf chunk ≤ maxChars

/-- Whenever the loop joins a segment to a chunk, there is room for the lines of both. -/
def RoomWhereJoined (targetChars maxChars : Nat) : List Segment → List Segment → Prop
  | _, [] => True
  | chunk, seg :: rest =>
    if splitsBefore targetChars maxChars chunk seg then
      RoomWhereJoined targetChars maxChars [seg] rest
    else HasRoom maxChars (chunk ++ [seg]) ∧
      RoomWhereJoined targetChars maxChars (chunk ++ [seg]) rest

/-- There is room for the excess: in the whole transcript, if it is taken as one chunk, and
else wherever the loop joins a segment to others. -/
def RoomForLabels (segments : List Segment) (targetChars maxChars : Nat) : Prop :=
  match segments with
  | [] => True
  | [_] => True
  | seg :: rest =>
    if estimateTranscriptChars (seg :: rest) ≤ maxChars then HasRoom maxChars (seg :: rest)
    else RoomWhereJoined targetChars maxChars [seg] rest

theorem allowed_iff {maxChars : Nat} {chunk : List Segment} (h : 2 ≤ chunk.length) :
    Allowed maxChars chunk ↔ HasRoom maxChars chunk := by
  rw [Allowed, HasRoom, len_renderTranscript]
  omega

/-- A chunk of several segments that is estimated close to the maximum is over it. -/
theorem not_allowed_of_lt {maxChars : Nat} {chunk : List Segment} (h : 2 ≤ chunk.length)
    (hfull : maxChars < estimateTranscriptChars chunk + 5 * chunk.length) :
    ¬ Allowed maxChars chunk := by
  have hexcess := five_mul_length_le_excessOf chunk
  rw [allowed_iff h, HasRoom]
  omega

/-- A chunk is allowed when it is with one more segment. -/
theorem allowed_of_hasRoom_concat {maxChars : Nat} {chunk : List Segment} {seg : Segment}
    (h : HasRoom maxChars (chunk ++ [seg])) : Allowed maxChars chunk := by
  refine Or.inr ?_
  rw [HasRoom, ← len_renderTranscript, renderTranscript_concat, len_append] at h
  omega

theorem allowed_runsFrom_iff {targetChars maxChars : Nat} {chunk : List Segment}
    (hne : chunk ≠ []) (rest : List Segment) :
    (∀ c ∈ runsFrom (splitsBefore targetChars maxChars) chunk rest, Allowed maxChars c) ↔
      Allowed maxChars chunk ∧ RoomWhereJoined targetChars maxChars chunk rest := by
  induction rest generalizing chunk with
  | nil => simp [RoomWhereJoined]
  | cons seg rest ih =>
    have hsingle : Allowed maxChars [seg] := Or.inl rfl
    cases hcut : splitsBefore targetChars maxChars chunk seg with
    | true =>
      rw [runsFrom_cons_of_cut hcut, List.forall_mem_cons, ih (List.cons_ne_nil seg []),
        RoomWhereJoined, if_pos hcut, and_iff_right hsingle]
    | false =>
      have htwo : 2 ≤ (chunk ++ [seg]).length := by
        have := List.length_pos_iff.mpr hne
        simp only [List.length_append, List.length_singleton]
        omega
      rw [runsFrom_cons_of_not_cut hcut, ih (by simp), RoomWhereJoined, if_neg (by simp [hcut]),
        allowed_iff htwo]
      exact ⟨fun h => ⟨allowed_of_hasRoom_concat h.1, h⟩, fun h => h.2⟩

/-- Every chunk of the first pass is one segment or within the maximum exactly when there
is room for the labels. -/
theorem splitSegments_allowed_iff (segments : List Segment) (targetChars maxChars : Nat) :
    (∀ chunk ∈ splitSegmentsForChunking segments targetChars maxChars, Allowed maxChars chunk) ↔
      RoomForLabels segments targetChars maxChars := by
  rw [splitSegmentsForChunking_eq]
  cases segments with
  | nil => simp [RoomForLabels, runs]
  | cons seg rest =>
    have hsingle : Allowed maxChars [seg] := Or.inl rfl
    have hruns := @allowed_runsFrom_iff targetChars maxChars [seg] (List.cons_ne_nil seg []) rest
    rw [and_iff_right hsingle] at hruns
    cases rest with
    | nil =>
      have hroom : RoomForLabels [seg] targetChars maxChars ↔ True := Iff.rfl
      rw [hroom, iff_true]
      split
      · simpa using hsingle
      · simpa [runs, runsFrom] using hsingle
    | cons seg' rest =>
      have hroom : RoomForLabels (seg :: seg' :: rest) targetChars maxChars ↔
          if estimateTranscriptChars (seg :: seg' :: rest) ≤ maxChars then
            HasRoom maxChars (seg :: seg' :: rest)
          else RoomWhereJoined targetChars maxChars [seg] (seg' :: rest) := Iff.rfl
      rw [hroom]
      by_cases hall : estimateTranscriptChars (seg :: seg' :: rest) ≤ maxChars
      · rw [if_pos ⟨hall, by simp⟩, if_pos hall, List.forall_mem_singleton]
        exact allowed_iff (by simp)
      · rw [if_neg fun h => hall h.1, if_neg hall]
        exact hruns

def shortWord : Segment := { (default : Segment) with text := "a" }

/-- Two short segments that are estimated at the maximum. -/
theorem not_splitSegments_allowed :
    ¬ ∀ (segments : List Segment) (targetChars maxChars : Nat),
      ∀ chunk ∈ splitSegmentsForChunking segments targetChars maxChars,
        chunk.length = 1 ∨ len (renderTranscript chunk) ≤ maxChars := by
  intro h
  have hchunk := h [shortWord, shortWord] 40 42 [shortWord, shortWord] (by decide)
  exact absurd hchunk (by decide)

end Prompts
end Panops
