import Panops.Capture.Wav
import Panops.Lib.PartialWrites

/-!
# What a reader finds in a recorded file

`WavWriter` counts the samples of the appends that succeed and leaves what a failed one
has written where it is.  The reader finds the samples that were counted as long as
nothing was left in front of them, and the sizes fit their fields.
-/

namespace Panops
namespace Capture

open Lib.Bytes Lib.PartialWrites

/-! ## Samples as bytes -/

/-- `samples.map { $0.littleEndian }` as bytes. -/
def int16Bytes (s : Int16) : List UInt8 := littleEndian 2 s.toUInt16.toNat

/-- The sample that two bytes of a file stand for. -/
def sampleOf (p : UInt8 × UInt8) : Int16 := (UInt16.ofNat (bigEndian [p.2, p.1])).toInt16

theorem int16Bytes_eq (s : Int16) :
    int16Bytes s =
      [UInt8.ofNat s.toUInt16.toNat, UInt8.ofNat (s.toUInt16.toNat / 256)] := rfl

theorem sampleOf_int16Bytes (s : Int16) :
    sampleOf (UInt8.ofNat s.toUInt16.toNat, UInt8.ofNat (s.toUInt16.toNat / 256)) = s := by
  have hlt : s.toUInt16.toNat < 256 ^ 2 := s.toUInt16.toNat_lt
  have hnumber : bigEndian (toBigEndian 2 s.toUInt16.toNat) = s.toUInt16.toNat :=
    bigEndian_toBigEndian hlt
  show (UInt16.ofNat (bigEndian (toBigEndian 2 s.toUInt16.toNat))).toInt16 = s
  rw [hnumber, UInt16.ofNat_toNat, Int16.toInt16_toUInt16]

theorem int16Bytes_sampleOf (a b : UInt8) : int16Bytes (sampleOf (a, b)) = [a, b] := by
  have ha := a.toNat_lt
  have hb := b.toNat_lt
  have hnumber : bigEndian [b, a] = b.toNat * 256 + a.toNat := by simp [bigEndian]
  have hnat : (sampleOf (a, b)).toUInt16.toNat = b.toNat * 256 + a.toNat := by
    rw [sampleOf, UInt16.toUInt16_toInt16, hnumber, UInt16.toNat_ofNat']
    omega
  rw [int16Bytes_eq, hnat]
  have hlow : UInt8.ofNat (b.toNat * 256 + a.toNat) = a := by
    apply UInt8.toNat_inj.mp
    rw [UInt8.toNat_ofNat']
    omega
  have hhigh : UInt8.ofNat ((b.toNat * 256 + a.toNat) / 256) = b := by
    apply UInt8.toNat_inj.mp
    rw [UInt8.toNat_ofNat']
    omega
  rw [hlow, hhigh]

theorem length_flatMap_int16Bytes (samples : List Int16) :
    (samples.flatMap int16Bytes).length = samples.length * 2 := by
  induction samples with
  | nil => rfl
  | cons s samples ih =>
    have hs : (int16Bytes s).length = 2 := rfl
    rw [List.flatMap_cons, List.length_append, ih, hs, List.length_cons]
    omega

/-- Bytes are read as given samples exactly when they are theirs. -/
theorem map_sampleOf_pairs_iff {bytes : List UInt8} {samples : List Int16}
    (h : bytes.length = samples.length * 2) :
    (pairs bytes).map sampleOf = samples ↔ bytes = samples.flatMap int16Bytes := by
  induction samples generalizing bytes with
  | nil =>
    obtain rfl : bytes = [] := List.length_eq_zero_iff.mp (by simpa using h)
    simp [pairs]
  | cons s samples ih =>
    cases bytes with
    | nil => simp at h
    | cons a bytes =>
      cases bytes with
      | nil =>
        rw [List.length_cons, List.length_cons, List.length_nil] at h
        omega
      | cons b bytes =>
        have hrest : bytes.length = samples.length * 2 := by
          rw [List.length_cons, List.length_cons, List.length_cons] at h
          omega
        have hsample : sampleOf (a, b) = s ↔ [a, b] = int16Bytes s := by
          constructor
          · rintro rfl
            exact (int16Bytes_sampleOf a b).symm
          · intro hbytes
            rw [int16Bytes_eq] at hbytes
            obtain ⟨rfl, hb⟩ := List.cons.inj hbytes
            rw [List.cons.inj hb |>.1]
            exact sampleOf_int16Bytes s
        rw [pairs, List.map_cons, List.cons_eq_cons, ih hrest, hsample, List.flatMap_cons,
          int16Bytes_eq, ← List.singleton_append]
        simp [and_assoc]

/-! ## Runs of appends -/

/-- One call of `append`, and behind how many bytes its write fails, if it does. -/
structure AppendCall where
  samples : List Int16
  failsAfter : Option Nat
deriving DecidableEq

/-- The recorder goes on behind a failure.  `none` stands for a trap. -/
def appendAll (w : WavWriter UInt8) (calls : List AppendCall) : Option (WavWriter UInt8) :=
  calls.foldlM (fun w c => w.append int16Bytes c.samples c.failsAfter) w

def AppendCall.succeeded (c : AppendCall) : List Int16 :=
  match c.failsAfter with
  | none => c.samples
  | some _ => []

/-- The samples of the appends that succeeded. -/
def succeeded (calls : List AppendCall) : List Int16 := calls.flatMap AppendCall.succeeded

def AppendCall.write (c : AppendCall) : Write UInt8 where
  content := c.samples.flatMap int16Bytes
  failsAfter := c.failsAfter

/-- The file is finished, and a reader finds in it what succeeded. -/
def Recovers (calls : List AppendCall) : Prop :=
  ∃ w w', appendAll WavWriter.new calls = some w ∧ w.finalize = some w' ∧
    w'.read.map sampleOf = succeeded calls

theorem acknowledged_write (calls : List AppendCall) :
    (calls.map AppendCall.write).flatMap Write.acknowledged =
      (succeeded calls).flatMap int16Bytes := by
  induction calls with
  | nil => rfl
  | cons c calls ih =>
    have hcall : c.write.acknowledged = c.succeeded.flatMap int16Bytes := by
      rw [Write.acknowledged, AppendCall.write, AppendCall.succeeded]
      cases c.failsAfter with
      | none => rfl
      | some n => rfl
    have hcons : succeeded (c :: calls) = c.succeeded ++ succeeded calls := List.flatMap_cons
    rw [List.map_cons, List.flatMap_cons, ih, hcall, hcons, List.flatMap_append]

/-- What one append does to the data and the count. -/
theorem append_eq (w : WavWriter UInt8) (c : AppendCall) (hcount : w.sampleCount < 4294967296) :
    w.append int16Bytes c.samples c.failsAfter =
      if w.sampleCount + c.succeeded.length < 4294967296 then
        some { w with
          data := w.data ++ c.write.landed
          sampleCount := w.sampleCount + c.succeeded.length }
      else none := by
  cases c with
  | mk samples failsAfter =>
    by_cases hempty : samples = []
    · subst hempty
      cases failsAfter with
      | none =>
        simp [WavWriter.append, AppendCall.succeeded, AppendCall.write, Write.landed, hcount]
      | some n =>
        simp [WavWriter.append, AppendCall.succeeded, AppendCall.write, Write.landed, hcount]
    · cases failsAfter with
      | none =>
        rw [WavWriter.append, if_neg hempty]
        rfl
      | some n =>
        simp [WavWriter.append, AppendCall.succeeded, AppendCall.write, Write.landed, hempty,
          hcount]

/-- A run traps exactly when the count overflows. -/
theorem appendAll_eq (w : WavWriter UInt8) (calls : List AppendCall)
    (hcount : w.sampleCount < 4294967296) :
    appendAll w calls =
      if w.sampleCount + (succeeded calls).length < 4294967296 then
        some { w with
          data := w.data ++ (calls.map AppendCall.write).flatMap Write.landed
          sampleCount := w.sampleCount + (succeeded calls).length }
      else none := by
  induction calls generalizing w with
  | nil => simp [appendAll, succeeded, hcount]
  | cons c calls ih =>
    have hsum : (succeeded (c :: calls)).length =
        c.succeeded.length + (succeeded calls).length := by
      rw [succeeded, List.flatMap_cons, List.length_append]
      rfl
    have hstep : appendAll w (c :: calls) =
        (w.append int16Bytes c.samples c.failsAfter).bind (appendAll · calls) := rfl
    rw [hstep, append_eq w c hcount, hsum]
    by_cases hnext : w.sampleCount + c.succeeded.length < 4294967296
    · rw [if_pos hnext, Option.bind_some, ih _ hnext, List.map_cons, List.flatMap_cons]
      simp only [Nat.add_assoc, List.append_assoc]
    · rw [if_neg hnext, if_neg (by omega)]
      rfl

/-! ## When the reader finds what succeeded -/

/-- The most samples whose sizes fit the fields of the header. -/
def maxSamples : Nat := 2147483629

theorem recovers_iff_isPrefix (calls : List AppendCall) :
    Recovers calls ↔ (succeeded calls).length ≤ maxSamples ∧
      (succeeded calls).flatMap int16Bytes <+:
        (calls.map AppendCall.write).flatMap Write.landed := by
  have hrun := appendAll_eq WavWriter.new calls (by decide)
  have hle := length_acknowledged_le (calls.map AppendCall.write)
  rw [acknowledged_write, length_flatMap_int16Bytes] at hle
  have hcount : (WavWriter.new : WavWriter UInt8).sampleCount = 0 := rfl
  have hdata : (WavWriter.new : WavWriter UInt8).data = [] := rfl
  rw [hcount, hdata, Nat.zero_add, List.nil_append] at hrun
  have hlength : ((calls.map AppendCall.write).flatMap Write.landed
      |>.take ((succeeded calls).length * 2)).length = (succeeded calls).length * 2 := by
    rw [List.length_take, Nat.min_eq_left hle]
  constructor
  · rintro ⟨w, w', happend, hfinalize, hread⟩
    rw [hrun] at happend
    by_cases hfits : (succeeded calls).length < 4294967296
    · rw [if_pos hfits] at happend
      obtain rfl := Option.some.inj happend
      rw [WavWriter.read_finalize hfinalize, map_sampleOf_pairs_iff hlength] at hread
      refine ⟨?_, ?_⟩
      · unfold WavWriter.finalize at hfinalize
        split at hfinalize
        · next hsizes =>
          unfold maxSamples
          dsimp only at hsizes
          omega
        · cases hfinalize
      · rw [← hread]
        exact List.take_prefix _ _
    · rw [if_neg hfits] at happend
      cases happend
  · rintro ⟨hmax, hfront⟩
    unfold maxSamples at hmax
    rw [if_pos (by omega)] at hrun
    have hfinalize : ∀ w : WavWriter UInt8, w.sampleCount = (succeeded calls).length →
        w.finalize = some { w with header := wavHeader (w.sampleCount * 2) } := fun w hw => by
      rw [WavWriter.finalize, if_pos (by omega)]
    refine ⟨_, _, hrun, hfinalize _ rfl, ?_⟩
    rw [WavWriter.read_finalize (hfinalize _ rfl), map_sampleOf_pairs_iff hlength,
      List.prefix_iff_eq_take.mp hfront, length_flatMap_int16Bytes]

/-- A reader finds what succeeded, and no size overflows, exactly when the sizes of all
that succeeded fit and the appends behind a failed one repeat what it has left. -/
theorem recovers_iff (calls : List AppendCall) :
    Recovers calls ↔ (succeeded calls).length ≤ maxSamples ∧
      Repeats [] (calls.map AppendCall.write) := by
  rw [recovers_iff_isPrefix, ← acknowledged_isPrefix_iff, acknowledged_write, List.nil_append]

/-- One byte of a block that fails stays in front of the next block. -/
theorem shifted_after_failure :
    ¬Recovers [{ samples := [1], failsAfter := some 1 }, { samples := [2], failsAfter := none }] := by
  rintro ⟨w, w', happend, hfinalize, hread⟩
  have hrun : appendAll WavWriter.new
      [{ samples := [1], failsAfter := some 1 }, { samples := [2], failsAfter := none }] =
      some ⟨wavHeader 0, [1, 2, 0], 1⟩ := rfl
  obtain rfl := Option.some.inj (happend.symm.trans hrun)
  rw [WavWriter.read_finalize hfinalize] at hread
  exact absurd hread (by decide)

end Capture
end Panops
