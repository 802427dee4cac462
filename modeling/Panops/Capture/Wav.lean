import Panops.Lib.Bytes

/-!
# WAV files

`WavWriter`: samples of 16 bits appended behind a header, which is written again
with the sizes at the end.  The data is over any type of bytes, two of them for a
sample.  An append may fail after some of its bytes; the writer goes on behind
them and does not count them.
-/

namespace Panops
namespace Capture

open Lib.Bytes

variable {β σ : Type}

structure WavWriter (β : Type) where
  header : List UInt8
  data : List β
  sampleCount : Nat

def ascii (s : String) : List UInt8 := s.toList.map fun c => UInt8.ofNat c.toNat

def littleEndian (width n : Nat) : List UInt8 := (toBigEndian width n).reverse

/-- The 44 bytes before the data. -/
def wavHeader (dataBytes : Nat) : List UInt8 :=
  ascii "RIFF" ++ littleEndian 4 (36 + dataBytes) ++ ascii "WAVE" ++
    ascii "fmt " ++ littleEndian 4 16 ++ littleEndian 2 1 ++ littleEndian 2 1 ++
    littleEndian 4 16000 ++ littleEndian 4 32000 ++ littleEndian 2 2 ++ littleEndian 2 16 ++
    ascii "data" ++ littleEndian 4 dataBytes

namespace WavWriter

def new : WavWriter β := ⟨wavHeader 0, [], 0⟩

/-- `append`, where the write fails after so many bytes, if it does.  `none` is
the overflow of the count. -/
def append (bytes : σ → List β) (w : WavWriter β) (samples : List σ) (failsAfter : Option Nat) :
    Option (WavWriter β) :=
  if samples = [] then some w
  else
    match failsAfter with
    | some n => some { w with data := w.data ++ (samples.flatMap bytes).take n }
    | none =>
      if w.sampleCount + samples.length < 4294967296 then
        some { w with
          data := w.data ++ samples.flatMap bytes
          sampleCount := w.sampleCount + samples.length }
      else none

/-- `finalize`; `none` is the overflow of the sizes. -/
def finalize (w : WavWriter β) : Option (WavWriter β) :=
  if 36 + w.sampleCount * 2 < 4294967296 then some { w with header := wavHeader (w.sampleCount * 2) }
  else none

end WavWriter

/-! ## Reading -/

/-- The size of the data that a header tells. -/
def dataSize (header : List UInt8) : Nat := bigEndian ((header.drop 40).take 4).reverse

def pairs : List β → List (β × β)
  | a :: b :: rest => (a, b) :: pairs rest
  | _ => []

/-- The samples of a finished file, two bytes each. -/
def WavWriter.read (w : WavWriter β) : List (β × β) := pairs (w.data.take (dataSize w.header))

theorem dataSize_wavHeader {n : Nat} (h : n < 4294967296) : dataSize (wavHeader n) = n := by
  have hlength : (littleEndian 4 n).length = 4 := by simp [littleEndian]
  have hdrop : (wavHeader n).drop 40 = littleEndian 4 n := by
    refine List.drop_left' ?_
    simp only [List.length_append, littleEndian, List.length_reverse, length_toBigEndian]
    rfl
  rw [dataSize, hdrop, List.take_of_length_le (by omega), littleEndian, List.reverse_reverse,
    bigEndian_toBigEndian h]

theorem WavWriter.read_finalize {w w' : WavWriter β} (h : w.finalize = some w') :
    w'.read = pairs (w.data.take (w.sampleCount * 2)) := by
  unfold WavWriter.finalize at h
  split at h
  · rename_i hsize
    cases h
    rw [WavWriter.read, dataSize_wavHeader (by omega)]
  · cases h

theorem getElem?_pairs (l : List β) (k : Nat) (p : β × β) :
    (pairs l)[k]? = some p ↔ l[2 * k]? = some p.1 ∧ l[2 * k + 1]? = some p.2 := by
  induction l using pairs.induct generalizing k with
  | case1 a b rest ih =>
    cases k with
    | zero =>
      simp only [pairs, List.getElem?_cons_zero, Option.some.injEq, Nat.mul_zero, Nat.zero_add,
        List.getElem?_cons_succ]
      constructor
      · rintro rfl
        exact ⟨rfl, rfl⟩
      · rintro ⟨rfl, rfl⟩
        rfl
    | succ k =>
      rw [pairs, List.getElem?_cons_succ, ih k, show 2 * (k + 1) = 2 * k + 1 + 1 by omega]
      simp only [List.getElem?_cons_succ]
  | case2 l hshort =>
    have hnone : l[2 * k + 1]? = none := by
      rw [List.getElem?_eq_none_iff]
      cases l with
      | nil => exact Nat.zero_le _
      | cons a rest =>
        cases rest with
        | nil => simp
        | cons b rest => exact absurd rfl (hshort a b rest)
    have hpairs : pairs l = [] := by
      cases l with
      | nil => rfl
      | cons a rest =>
        cases rest with
        | nil => rfl
        | cons b rest => exact absurd rfl (hshort a b rest)
    simp [hpairs, hnone]

end Capture
end Panops
