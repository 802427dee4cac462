import Panops.Capture.Recorder

/-!
# When the two tracks share one clock

A track is what was written for it, one buffer behind the other.  It is on the
clock when every buffer starts where the one before it ended.
-/

namespace Panops
namespace Capture

/-- A buffer of one source that is written. -/
structure Write where
  atMs : ℚ
  samples : List Int16
  failsAfter : Option Nat

namespace Write

/-- The bytes of the buffer that reach the file. -/
def bytes (w : Write) : List TimedByte :=
  match w.failsAfter with
  | none => (timed w.atMs w.samples).flatMap sampleBytes
  | some n => ((timed w.atMs w.samples).flatMap sampleBytes).take n

/-- How many bytes of the buffer reach the file. -/
def written (w : Write) : Nat :=
  match w.failsAfter with
  | none => 2 * w.samples.length
  | some n => min n (2 * w.samples.length)

/-- How many samples are counted. -/
def counted (w : Write) : Nat :=
  match w.failsAfter with
  | none => w.samples.length
  | some _ => 0

end Write

/-- The buffers of a source that are written, in their order. -/
def writesOf (system : Bool) (buffers : List AudioBuffer) : List Write :=
  buffers.filterMap fun b =>
    if b.system = system ∧ b.ready then b.converted.map fun samples => ⟨b.atMs, samples, b.failsAfter⟩
    else none

/-- The bytes of a file that its header counts. -/
def countedBytes (ws : List Write) : Nat := 2 * (ws.map Write.counted).sum

/-- Behind the first `offset` bytes every buffer of which a byte is counted starts
when they end, and none in the middle of a sample, but for a last byte. -/
def Contiguous (originMs : ℚ) (limit : Nat) : Nat → List Write → Prop
  | _, [] => True
  | offset, w :: rest =>
    (0 < w.written → offset < limit →
      w.atMs = originMs + (offset / 2 : Nat) / 16 ∧
        (offset % 2 = 1 → w.written = 1 ∨ limit = offset + 1)) ∧
      Contiguous originMs limit (offset + w.written) rest

/-- The buffers written of both sources are contiguous from one origin. -/
def OneOrigin (plan : TrackPlan) (buffers : List AudioBuffer) : Prop :=
  ∃ originMs,
    (plan.wantsSystem = true →
      Contiguous originMs (countedBytes (writesOf true buffers)) 0 (writesOf true buffers)) ∧
    (plan.wantsMic = true →
      Contiguous originMs (countedBytes (writesOf false buffers)) 0 (writesOf false buffers))

/-! ## The bytes of a buffer -/

theorem length_flatMap_sampleBytes (l : List (Int16 × ℚ)) :
    (l.flatMap sampleBytes).length = 2 * l.length := by
  induction l with
  | nil => rfl
  | cons sample rest ih =>
    rw [List.flatMap_cons, List.length_append, ih, List.length_cons]
    show 2 + 2 * rest.length = _
    omega

theorem capturedMs_flatMap {l : List (Int16 × ℚ)} {i : Nat} {b : TimedByte}
    (h : (l.flatMap sampleBytes)[i]? = some b) :
    ∃ sample, l[i / 2]? = some sample ∧ b.capturedMs = sample.2 := by
  induction l generalizing i with
  | nil => cases h
  | cons sample rest ih =>
    rw [List.flatMap_cons] at h
    match i, h with
    | 0, h =>
      cases h
      exact ⟨sample, rfl, rfl⟩
    | 1, h =>
      cases h
      exact ⟨sample, rfl, rfl⟩
    | i + 2, h =>
      have hhalf : (i + 2) / 2 = i / 2 + 1 := by omega
      rw [hhalf]
      exact ih h

namespace Write

theorem length_bytes (w : Write) : w.bytes.length = w.written := by
  unfold bytes written
  cases w.failsAfter with
  | none => simp only [length_flatMap_sampleBytes, timed, List.length_mapIdx]
  | some n => simp only [length_flatMap_sampleBytes, timed, List.length_mapIdx, List.length_take]

theorem capturedMs_bytes {w : Write} {i : Nat} {b : TimedByte} (h : w.bytes[i]? = some b) :
    b.capturedMs = w.atMs + (i / 2 : Nat) / 16 := by
  have hall : ((timed w.atMs w.samples).flatMap sampleBytes)[i]? = some b := by
    unfold bytes at h
    cases hfails : w.failsAfter with
    | none => simpa only [hfails] using h
    | some n =>
      simp only [hfails, List.getElem?_take] at h
      split at h
      · exact h
      · cases h
  obtain ⟨sample, hsample, htime⟩ := capturedMs_flatMap hall
  rw [timed, List.getElem?_mapIdx] at hsample
  obtain ⟨value, -, rfl⟩ := Option.map_eq_some_iff.mp hsample
  exact htime

theorem counted_le (w : Write) : 2 * w.counted ≤ w.written := by
  unfold counted written
  cases w.failsAfter with
  | none => exact Nat.le_refl _
  | some n => exact Nat.zero_le _

/-- The bytes of one buffer are on the clock when it starts on it. -/
theorem bytes_onClock_iff (w : Write) (originMs : ℚ) (limit offset : Nat) :
    (∀ (i : Nat) (b : TimedByte), offset + i < limit → w.bytes[i]? = some b →
        b.capturedMs = originMs + ((offset + i) / 2 : Nat) / 16) ↔
      (0 < w.written → offset < limit →
        w.atMs = originMs + (offset / 2 : Nat) / 16 ∧
          (offset % 2 = 1 → w.written = 1 ∨ limit = offset + 1)) := by
  constructor
  · intro h hpos hlimit
    have hget : ∀ i, i < w.written → ∃ b, w.bytes[i]? = some b := by
      intro i hi
      rw [← length_bytes] at hi
      exact ⟨_, List.getElem?_eq_getElem hi⟩
    obtain ⟨b, hb⟩ := hget 0 hpos
    have hstart : w.atMs = originMs + (offset / 2 : Nat) / 16 := by
      have hfirst := (capturedMs_bytes hb).symm.trans (h 0 b hlimit hb)
      simpa using hfirst
    refine ⟨hstart, fun hodd => ?_⟩
    by_contra hmore
    obtain ⟨hwritten, hlast⟩ := not_or.mp hmore
    -- The second byte belongs to the same sample, but comes after a sample's end.
    obtain ⟨b', hb'⟩ := hget 1 (by omega)
    have hsecond := (capturedMs_bytes hb').symm.trans (h 1 b' (by omega) hb')
    have hnext : (offset + 1) / 2 = offset / 2 + 1 := by omega
    rw [hstart, hnext] at hsecond
    push_cast at hsecond
    norm_num at hsecond
  · intro h i b hi hb
    have hwritten : i < w.written := by
      rw [← length_bytes]
      exact (List.getElem?_eq_some_iff.mp hb).1
    obtain ⟨hstart, hodd⟩ := h (by omega) (by omega)
    rw [capturedMs_bytes hb, hstart]
    have hhalf : (offset + i) / 2 = offset / 2 + i / 2 := by
      rcases Nat.mod_two_eq_zero_or_one offset with heven | hone
      · omega
      · have hzero : i = 0 := by
          rcases hodd hone with h1 | h1 <;> omega
        subst hzero
        rfl
    rw [hhalf]
    push_cast
    ring

end Write

/-! ## The bytes of a file -/

/-- All bytes below the limit are on the clock. -/
def BytesOnClock (originMs : ℚ) (limit offset : Nat) (bytes : List TimedByte) : Prop :=
  ∀ (i : Nat) (b : TimedByte), offset + i < limit → bytes[i]? = some b →
    b.capturedMs = originMs + ((offset + i) / 2 : Nat) / 16

theorem bytesOnClock_append {originMs : ℚ} {limit offset : Nat} {a b : List TimedByte} :
    BytesOnClock originMs limit offset (a ++ b) ↔
      BytesOnClock originMs limit offset a ∧ BytesOnClock originMs limit (offset + a.length) b := by
  constructor
  · intro h
    constructor
    · intro i byte hi hget
      refine h i byte hi ?_
      rw [List.getElem?_append_left (List.getElem?_eq_some_iff.mp hget).1]
      exact hget
    · intro i byte hi hget
      have hat := h (a.length + i) byte (by omega) (by
        rw [List.getElem?_append_right (by omega), Nat.add_sub_cancel_left]
        exact hget)
      rw [Nat.add_assoc]
      exact hat
  · rintro ⟨ha, hb⟩ i byte hi hget
    by_cases hlt : i < a.length
    · rw [List.getElem?_append_left hlt] at hget
      exact ha i byte hi hget
    · rw [List.getElem?_append_right (by omega)] at hget
      have hat := hb (i - a.length) byte (by omega) hget
      rw [show offset + a.length + (i - a.length) = offset + i by omega] at hat
      exact hat

theorem bytesOnClock_iff (originMs : ℚ) (limit offset : Nat) (ws : List Write) :
    BytesOnClock originMs limit offset (ws.flatMap Write.bytes) ↔
      Contiguous originMs limit offset ws := by
  induction ws generalizing offset with
  | nil => exact ⟨fun _ => trivial, fun _ i b _ h => by cases h⟩
  | cons w rest ih =>
    rw [List.flatMap_cons, bytesOnClock_append, ih, w.length_bytes, Contiguous]
    exact and_congr_left' (w.bytes_onClock_iff originMs limit offset)

theorem countedBytes_le (ws : List Write) :
    countedBytes ws ≤ (ws.flatMap Write.bytes).length := by
  unfold countedBytes
  induction ws with
  | nil => exact Nat.le_refl _
  | cons w rest ih =>
    have hw := w.counted_le
    rw [List.flatMap_cons, List.length_append, w.length_bytes, List.map_cons, List.sum_cons]
    omega

/-- The samples of a file are on the clock when its counted bytes are. -/
theorem onClock_pairs_iff (originMs : ℚ) {n : Nat} {bytes : List TimedByte}
    (h : 2 * n ≤ bytes.length) :
    OnClock originMs (pairs (bytes.take (2 * n))) ↔ BytesOnClock originMs (2 * n) 0 bytes := by
  have htake : ∀ {i : Nat} {b : TimedByte},
      (bytes.take (2 * n))[i]? = some b ↔ i < 2 * n ∧ bytes[i]? = some b := by
    intro i b
    rw [List.getElem?_take]
    by_cases hi : i < 2 * n <;> simp [hi]
  constructor
  · intro hclock i b hi hb
    rw [Nat.zero_add] at hi ⊢
    have hfirst : ∃ b₀, bytes[2 * (i / 2)]? = some b₀ :=
      ⟨_, List.getElem?_eq_getElem (by omega)⟩
    have hsecond : ∃ b₁, bytes[2 * (i / 2) + 1]? = some b₁ :=
      ⟨_, List.getElem?_eq_getElem (by omega)⟩
    obtain ⟨b₀, hb₀⟩ := hfirst
    obtain ⟨b₁, hb₁⟩ := hsecond
    obtain ⟨h₀, h₁⟩ := hclock (i / 2) (b₀, b₁) ((getElem?_pairs _ _ _).mpr
      ⟨htake.mpr ⟨by omega, hb₀⟩, htake.mpr ⟨by omega, hb₁⟩⟩)
    rcases Nat.mod_two_eq_zero_or_one i with heven | hodd
    · have hi : 2 * (i / 2) = i := by omega
      rw [hi, hb] at hb₀
      rw [Option.some.inj hb₀]
      exact h₀
    · have hi : 2 * (i / 2) + 1 = i := by omega
      rw [hi, hb] at hb₁
      rw [Option.some.inj hb₁]
      exact h₁
  · intro hclock k sample hsample
    obtain ⟨h₀, h₁⟩ := (getElem?_pairs _ _ _).mp hsample
    obtain ⟨hlt₀, hget₀⟩ := htake.mp h₀
    obtain ⟨hlt₁, hget₁⟩ := htake.mp h₁
    have ht₀ := hclock (2 * k) sample.1 (by omega) hget₀
    have ht₁ := hclock (2 * k + 1) sample.2 (by omega) hget₁
    rw [show (0 + 2 * k) / 2 = k by omega] at ht₀
    rw [show (0 + (2 * k + 1)) / 2 = k by omega] at ht₁
    exact ⟨ht₀, ht₁⟩

/-! ## A recording -/

/-- The writer once the buffers are written too. -/
def plus (w : WavWriter TimedByte) (ws : List Write) : WavWriter TimedByte where
  header := w.header
  data := w.data ++ ws.flatMap Write.bytes
  sampleCount := w.sampleCount + (ws.map Write.counted).sum

theorem plus_nil (w : WavWriter TimedByte) : plus w [] = w := by
  simp [plus]

theorem plus_append (w : WavWriter TimedByte) (a b : List Write) :
    plus (plus w a) b = plus w (a ++ b) := by
  simp [plus, Nat.add_assoc]

theorem append_eq_plus {w w' : WavWriter TimedByte} {write : Write}
    (h : w.append sampleBytes (timed write.atMs write.samples) write.failsAfter = some w') :
    w' = plus w [write] := by
  unfold WavWriter.append at h
  split at h
  · rename_i hempty
    have hnone : write.samples = [] := by simpa [timed] using hempty
    cases h
    cases hfails : write.failsAfter <;>
      simp [plus, Write.bytes, Write.counted, hfails, hnone, timed]
  · split at h
    · rename_i n hfails
      cases h
      simp [plus, Write.bytes, Write.counted, hfails]
    · rename_i hfails
      split at h
      · cases h
        simp [plus, Write.bytes, Write.counted, hfails, timed]
      · cases h

/-- The writer of the system's audio or of the microphone's. -/
def writer (r : Recorder) (system : Bool) : Option (WavWriter TimedByte) :=
  if system then r.systemWriter else r.micWriter

/-- Nothing happens, or the buffer's own writer goes on by its samples. -/
theorem appendAudio_cases {r r' : Recorder} {b : AudioBuffer} (h : appendAudio r b = some r') :
    r' = r ∧ (b.converted = none ∨ writer r b.system = none) ∨
      ∃ samples w, b.converted = some samples ∧ writer r b.system = some w ∧
        writer r' b.system = some (plus w [⟨b.atMs, samples, b.failsAfter⟩]) ∧
        ∀ system, system ≠ b.system → writer r' system = writer r system := by
  unfold appendAudio at h
  cases hwriter : writer r b.system with
  | none =>
    rw [show (if b.system then r.systemWriter else r.micWriter) = none from hwriter] at h
    exact Or.inl ⟨(Option.some.inj h).symm, Or.inr rfl⟩
  | some w =>
    rw [show (if b.system then r.systemWriter else r.micWriter) = some w from hwriter] at h
    cases hconverted : b.converted with
    | none =>
      rw [hconverted] at h
      exact Or.inl ⟨(Option.some.inj h).symm, Or.inl rfl⟩
    | some samples =>
      rw [hconverted] at h
      dsimp only at h
      split at h
      · rename_i w' happend
        have hw' : w' = plus w [⟨b.atMs, samples, b.failsAfter⟩] :=
          @append_eq_plus w w' ⟨b.atMs, samples, b.failsAfter⟩ happend
        obtain rfl := Option.some.inj h
        refine Or.inr ⟨samples, w, rfl, rfl, ?_, ?_⟩
        · cases b.system <;> exact congrArg some hw'
        · intro system hne
          cases hsystem : b.system <;> cases system <;> simp_all [writer]
      · cases h

/-- What one buffer adds to a track. -/
theorem didOutputSampleBuffer_eq {r r' : Recorder} {b : AudioBuffer}
    (h : didOutputSampleBuffer r b = some r') (system : Bool) :
    writer r' system = (writer r system).map (plus · (writesOf system [b])) := by
  have hnothing : writesOf system [b] = [] → writer r' system = writer r system →
      writer r' system = (writer r system).map (plus · (writesOf system [b])) := by
    intro hwrites hsame
    rw [hwrites, hsame]
    simp [plus_nil]
  unfold didOutputSampleBuffer at h
  split at h
  · rename_i hready
    by_cases hsource : b.system = system
    · subst hsource
      rcases appendAudio_cases h with ⟨rfl, hnone | hnone⟩ | ⟨samples, w, hconverted, hw, hw', _⟩
      · exact hnothing (by simp [writesOf, hnone]) rfl
      · simp [hnone]
      · rw [hw', hw]
        simp [writesOf, hready, hconverted]
    · have hwrites : writesOf system [b] = [] := by simp [writesOf, hsource]
      rcases appendAudio_cases h with ⟨rfl, _⟩ | ⟨_, _, _, _, _, hother⟩
      · exact hnothing hwrites rfl
      · exact hnothing hwrites (hother system (Ne.symm hsource))
  · rename_i hready
    obtain rfl := Option.some.inj h
    exact hnothing (by simp [writesOf, hready]) rfl

theorem foldlM_didOutputSampleBuffer (buffers : List AudioBuffer) {r r' : Recorder}
    (h : buffers.foldlM didOutputSampleBuffer r = some r') (system : Bool) :
    writer r' system = (writer r system).map (plus · (writesOf system buffers)) := by
  induction buffers generalizing r with
  | nil =>
    cases h
    simp [writesOf, plus_nil]
  | cons b rest ih =>
    rw [List.foldlM_cons] at h
    obtain ⟨r₁, hstep, hrest⟩ := Option.bind_eq_some_iff.mp h
    have hcons : writesOf system (b :: rest) = writesOf system [b] ++ writesOf system rest :=
      List.filterMap_append (l := [b])
    rw [ih hrest, didOutputSampleBuffer_eq hstep system, hcons]
    simp [Option.map_map, Function.comp_def, plus_append]

/-- The samples of a finished track. -/
theorem track_finalizeTrack {wants : Bool} {ws : List Write}
    {writer : Option (WavWriter TimedByte)}
    (h : finalizeTrack ((if wants then some WavWriter.new else none).map (plus · ws)) = some writer) :
    track writer = if wants then pairs ((ws.flatMap Write.bytes).take (countedBytes ws)) else [] := by
  cases wants with
  | false =>
    cases h
    rfl
  | true =>
    obtain ⟨w, hfinal, rfl⟩ := Option.map_eq_some_iff.mp h
    show w.read = _
    rw [WavWriter.read_finalize hfinal]
    simp [plus, WavWriter.new, countedBytes, Nat.mul_comm]

theorem onClock_track_iff (originMs : ℚ) {wants : Bool} {ws : List Write}
    {writer : Option (WavWriter TimedByte)}
    (h : finalizeTrack ((if wants then some WavWriter.new else none).map (plus · ws)) = some writer) :
    OnClock originMs (track writer) ↔
      (wants = true → Contiguous originMs (countedBytes ws) 0 ws) := by
  rw [track_finalizeTrack h]
  cases wants with
  | false =>
    constructor
    · intro _ hfalse
      cases hfalse
    · intro _ k sample hsample
      cases hsample
  | true =>
    have hclock := onClock_pairs_iff originMs (countedBytes_le ws)
    rw [if_pos rfl]
    exact hclock.trans ((bytesOnClock_iff originMs _ 0 ws).trans (by simp [countedBytes]))

/-- The tracks share one clock, and are merged by real time, exactly when what is
written of both sources is contiguous from one origin. -/
theorem sharedClock_iff {plan : TrackPlan} {buffers : List AudioBuffer} {r : Recorder}
    (h : record plan buffers = some r) :
    (SharedClock r ∧ MergesInOrder r) ↔ OneOrigin plan buffers := by
  obtain ⟨r₁, hfold, hstop⟩ := Option.bind_eq_some_iff.mp h
  obtain ⟨system, hsystem, hrest⟩ := Option.bind_eq_some_iff.mp hstop
  obtain ⟨mic, hmic, hr⟩ := Option.bind_eq_some_iff.mp hrest
  cases hr
  have hsystemWriter : r₁.systemWriter = _ := foldlM_didOutputSampleBuffer buffers hfold true
  have hmicWriter : r₁.micWriter = _ := foldlM_didOutputSampleBuffer buffers hfold false
  rw [hsystemWriter] at hsystem
  rw [hmicWriter] at hmic
  have hclock : SharedClock ⟨system, mic⟩ ↔ OneOrigin plan buffers :=
    exists_congr fun originMs =>
      and_congr (onClock_track_iff originMs hsystem) (onClock_track_iff originMs hmic)
  rw [← hclock]
  exact ⟨fun hboth => hboth.1, fun hshared => ⟨hshared, hshared.mergesInOrder⟩⟩

/-- A buffer with one sample. -/
def oneSample (system : Bool) (atMs : ℚ) : AudioBuffer where
  system := system
  atMs := atMs
  durationMs := 1 / 16
  ready := true
  converted := some [0]
  failsAfter := none
  length_converted := by
    intro samples hsamples
    cases hsamples
    norm_num

theorem sharedClock_sameStart : ∃ r,
    record ⟨true, true⟩ [oneSample true 0, oneSample false 0, oneSample true (1 / 16)] = some r ∧
      SharedClock r := by
  obtain ⟨r, hr⟩ : ∃ r, record ⟨true, true⟩
      [oneSample true 0, oneSample false 0, oneSample true (1 / 16)] = some r := ⟨_, rfl⟩
  have horigin : OneOrigin ⟨true, true⟩
      [oneSample true 0, oneSample false 0, oneSample true (1 / 16)] := by
    refine ⟨0, fun _ => ?_, fun _ => ?_⟩ <;>
      simp [Contiguous, writesOf, oneSample, Write.written]
  exact ⟨r, hr, ((sharedClock_iff hr).mpr horigin).1⟩

/-- The first microphone buffer arrives half a second after the first one of the
system. -/
theorem not_sharedClock : ¬ ∀ plan buffers r, record plan buffers = some r →
    SharedClock r ∧ MergesInOrder r := by
  intro h
  obtain ⟨r, hr, hsystem, hmic⟩ : ∃ r, record ⟨true, true⟩
      [oneSample true 0, oneSample false 500] = some r ∧
      (track r.systemWriter)[0]? = some (⟨0, 0 + (0 : Nat) / 16⟩, ⟨0, 0 + (0 : Nat) / 16⟩) ∧
      (track r.micWriter)[0]? = some (⟨0, 500 + (0 : Nat) / 16⟩, ⟨0, 500 + (0 : Nat) / 16⟩) :=
    ⟨_, rfl, rfl, rfl⟩
  obtain ⟨⟨originMs, hclockSystem, hclockMic⟩, -⟩ := h _ _ r hr
  have hzero := (hclockSystem 0 _ hsystem).1
  have hlate := (hclockMic 0 _ hmic).1
  norm_num at hzero hlate
  rw [← hzero] at hlate
  norm_num at hlate

end Capture
end Panops
