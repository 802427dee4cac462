import Panops.Lib.Bytes

/-!
# Frames of the event connection

The parser of WebSocket frames, and the text frame that a request is sent in.  `Data`
is a list of bytes whose first index is 0, as every buffer here has it.
-/

namespace Panops
namespace App

open Lib.Bytes

inductive IpcClientError where
  | websocketFrameError (message : String)
  | disconnected
deriving DecidableEq

/-- 8 MB. -/
def maxFrameBytes : Nat := 8 * 1024 * 1024

namespace WsFrameParser

structure FrameHeader where
  fin : Bool
  opcode : UInt8
  masked : Bool
  payloadLen : Nat
  headerSize : Nat
  maskingKeyOffset : Option Nat
deriving DecidableEq

/-- A masking key follows what has been read of the header. -/
def frameHeader (fin : Bool) (opcode : UInt8) (masked : Bool) (payloadLen headerSize : Nat) :
    FrameHeader where
  fin := fin
  opcode := opcode
  masked := masked
  payloadLen := payloadLen
  headerSize := if masked then headerSize + 4 else headerSize
  maskingKeyOffset := if masked then some headerSize else none

/-- None while the header is incomplete. -/
def parseHeader (data : List UInt8) : Except IpcClientError (Option FrameHeader) :=
  if h : 2 ≤ data.length then
    let fin := data[0] &&& 0x80 != 0
    let opcode := data[0] &&& 0x0F
    let masked := data[1] &&& 0x80 != 0
    let payloadLen := (data[1] &&& 0x7F).toNat
    if payloadLen = 126 then
      if h : 4 ≤ data.length then
        .ok (some (frameHeader fin opcode masked (data[2].toNat <<< 8 ||| data[3].toNat) 4))
      else .ok none
    else if payloadLen = 127 then
      if 10 ≤ data.length then
        let len64 := ((data.drop 2).take 8).foldl
          (fun (len64 : UInt64) byte => (len64 <<< 8) ||| byte.toUInt64) 0
        if len64.toNat ≤ maxFrameBytes then
          .ok (some (frameHeader fin opcode masked len64.toNat 10))
        else
          .error (.websocketFrameError
            s!"extended payload length exceeds max ({len64} > {maxFrameBytes})")
      else .ok none
    else .ok (some (frameHeader fin opcode masked payloadLen 2))
  else .ok none

def totalFrameLength (header : FrameHeader) : Nat := header.headerSize + header.payloadLen

def extractPayload (data : List UInt8) (header : FrameHeader) : Option (List UInt8) :=
  if totalFrameLength header ≤ data.length then
    let payloadData := (data.drop header.headerSize).take header.payloadLen
    match header.maskingKeyOffset with
    | some maskOffset => some (masked ((data.drop maskOffset).take 4) payloadData)
    | none => some payloadData
  else none

/-- The payload of a text frame that is final or of a continuation. -/
def parse (data : List UInt8) : Except IpcClientError (Option (List UInt8)) :=
  match parseHeader data with
  | .error e => .error e
  | .ok none =>
    if 2 ≤ data.length then .ok none else .error (.websocketFrameError "frame too short")
  | .ok (some header) =>
    if ¬ (header.opcode = 0x01 ∨ header.opcode = 0x00) then .ok none
    else if header.opcode = 0x01 ∧ ¬ header.fin then .ok none
    else .ok (extractPayload data header)

end WsFrameParser

/-- `UInt8(n)`, which traps out of range. -/
def byte (n : Nat) : Option UInt8 := if n < 256 then some (UInt8.ofNat n) else none

/-- The mask bit and the length. -/
def lengthBytes (len : Nat) : Option (List UInt8) :=
  if len ≤ 125 then do
    return [0x80 ||| (← byte len)]
  else if len ≤ 65535 then do
    return [0x80 ||| 126, ← byte (len >>> 8), ← byte (len &&& 0xFF)]
  else do
    return [0x80 ||| 127, 0, 0, 0, 0, ← byte (len >>> 24), ← byte ((len >>> 16) &&& 0xFF),
      ← byte ((len >>> 8) &&& 0xFF), ← byte (len &&& 0xFF)]

/-- There is no masking key when no random bytes can be had; no frame is a trap. -/
def buildWsTextFrame (maskKey : Option (Vector UInt8 4)) (payload : List UInt8) :
    Except IpcClientError (Option (List UInt8)) :=
  match maskKey with
  | none => .error (.websocketFrameError "failed to generate random mask")
  | some maskKey => .ok do
    let length ← lengthBytes payload.length
    return 0x81 :: length ++ maskKey.toList ++ masked maskKey.toList payload

/-! ## More bytes -/

namespace WsFrameParser

variable {data more : List UInt8}

/-- What a header has been read as does not depend on what follows. -/
theorem parseHeader_append (h : parseHeader data ≠ .ok none) :
    parseHeader (data ++ more) = parseHeader data := by
  by_cases htwo : 2 ≤ data.length
  · have hlonger : ∀ n, n ≤ data.length → n ≤ (data ++ more).length := by
      intro n hn
      rw [List.length_append]
      omega
    unfold parseHeader at h ⊢
    simp only [dif_pos htwo, dif_pos (hlonger 2 htwo),
      List.getElem_append_left (show 0 < data.length by omega),
      List.getElem_append_left (show 1 < data.length by omega)] at h ⊢
    split at h
    · next hlen =>
      rw [if_pos hlen, if_pos hlen]
      split at h
      · next hfour =>
        simp only [dif_pos hfour, dif_pos (hlonger 4 hfour),
          List.getElem_append_left (show 2 < data.length by omega),
          List.getElem_append_left (show 3 < data.length by omega)]
      · exact absurd rfl h
    · next hlen =>
      rw [if_neg hlen, if_neg hlen]
      split at h
      · next hlen =>
        rw [if_pos hlen, if_pos hlen]
        split at h
        · next hten =>
          have hdrop : (data ++ more).drop 2 = data.drop 2 ++ more :=
            List.drop_append_of_le_length htwo
          have htake : (data.drop 2 ++ more).take 8 = (data.drop 2).take 8 :=
            List.take_append_of_le_length (by rw [List.length_drop]; omega)
          rw [if_pos hten, if_pos (hlonger 10 hten), hdrop, htake]
        · exact absurd rfl h
      · next hother => rw [if_neg hother, if_neg hother]
  · exact absurd (dif_neg htwo) h

end WsFrameParser

/-! ## Lengths on the wire -/

inductive LengthForm where
  | seven
  | sixteen
  | sixtyFour
deriving DecidableEq

namespace LengthForm

def Fits : LengthForm → Nat → Prop
  | .seven, len => len ≤ 125
  | .sixteen, len => len ≤ 65535
  | .sixtyFour, len => len ≤ maxFrameBytes

instance (form : LengthForm) (len : Nat) : Decidable (form.Fits len) :=
  match form with
  | .seven => inferInstanceAs (Decidable (len ≤ 125))
  | .sixteen => inferInstanceAs (Decidable (len ≤ 65535))
  | .sixtyFour => inferInstanceAs (Decidable (len ≤ maxFrameBytes))

/-- The seven bits that follow the mask bit. -/
def marker : LengthForm → Nat → Nat
  | .seven, len => len
  | .sixteen, _ => 126
  | .sixtyFour, _ => 127

def extended : LengthForm → Nat → List UInt8
  | .seven, _ => []
  | .sixteen, len => toBigEndian 2 len
  | .sixtyFour, len => toBigEndian 8 len

/-- The second byte of a frame and those of an extended length. -/
def wire (form : LengthForm) (mask : Bool) (len : Nat) : List UInt8 :=
  ((if mask then 0x80 else 0) ||| UInt8.ofNat (form.marker len)) :: form.extended len

variable {form : LengthForm} {len : Nat}

theorem Fits.le_maxFrameBytes (h : form.Fits len) : len ≤ maxFrameBytes := by
  unfold maxFrameBytes
  cases form <;> simp only [Fits, maxFrameBytes] at h <;> omega

theorem Fits.marker_lt (h : form.Fits len) : form.marker len < 128 := by
  cases form <;> simp only [Fits, marker] at h ⊢ <;> omega

end LengthForm

theorem mask_bit : ∀ marker < 128, ∀ mask : Bool,
    (((if mask then 0x80 else 0) ||| UInt8.ofNat marker) &&& 0x80 != 0) = mask ∧
      (((if mask then 0x80 else 0) ||| UInt8.ofNat marker) &&& 0x7F).toNat = marker := by
  decide +kernel

namespace WsFrameParser

/-- Every form of a length is read back. -/
theorem parseHeader_wire {form : LengthForm} {len : Nat} (h : form.Fits len) (first : UInt8)
    (mask : Bool) (rest : List UInt8) :
    parseHeader (first :: (form.wire mask len ++ rest)) =
      .ok (some (frameHeader (first &&& 0x80 != 0) (first &&& 0x0F) mask len
        (1 + (form.wire mask len).length))) := by
  obtain ⟨hmask, hmarker⟩ := mask_bit (form.marker len) h.marker_lt mask
  have hle := h.le_maxFrameBytes
  unfold LengthForm.wire
  generalize (if mask then 0x80 else 0) ||| UInt8.ofNat (form.marker len) = second at hmask hmarker
  unfold parseHeader
  rw [dif_pos (by simp)]
  simp only [List.cons_append, List.getElem_cons_zero, List.getElem_cons_succ, hmask, hmarker]
  cases form with
  | seven =>
    have hlen : len ≤ 125 := h
    show (if len = 126 then _ else if len = 127 then _ else _) = _
    rw [if_neg (by omega), if_neg (by omega)]
    rfl
  | sixteen =>
    have hvalue : (UInt8.ofNat (len / 256)).toNat <<< 8 ||| (UInt8.ofNat len).toNat = len := by
      rw [← Nat.shiftLeft_add_eq_or_of_lt (UInt8.toNat_lt _), Nat.shiftLeft_eq]
      have hread := @bigEndian_toBigEndian 2 len (Nat.lt_succ_of_le h)
      simpa [toBigEndian, bigEndian] using hread
    rw [if_pos (show LengthForm.sixteen.marker len = 126 from rfl),
      dif_pos (by simp [LengthForm.extended])]
    show Except.ok (some (frameHeader _ _ mask ((UInt8.ofNat (len / 256)).toNat <<< 8 |||
      (UInt8.ofNat len).toNat) 4)) = _
    rw [hvalue]
    rfl
  | sixtyFour =>
    have hlong : len < 256 ^ 8 := by
      unfold maxFrameBytes at hle
      omega
    have htake : ((first :: second :: (toBigEndian 8 len ++ rest)).drop 2).take 8 =
        toBigEndian 8 len := List.take_left' (length_toBigEndian 8 len)
    have hvalue := toNat_foldl_shift_or (Nat.le_of_eq (length_toBigEndian 8 len))
    rw [bigEndian_toBigEndian hlong] at hvalue
    rw [if_neg (show ¬ LengthForm.sixtyFour.marker len = 126 from (by omega : ¬ 127 = 126)),
      if_pos (show LengthForm.sixtyFour.marker len = 127 from rfl),
      if_pos (by simp [LengthForm.extended])]
    simp only [LengthForm.extended, htake, hvalue, if_pos hle]
    simp

theorem headerSize_frameHeader (fin : Bool) (opcode : UInt8) (mask : Bool) (len size : Nat) :
    (frameHeader fin opcode mask len size).headerSize = size + if mask then 4 else 0 := by
  cases mask <;> rfl

/-- What follows the header is the payload, behind a masking key if there is one. -/
theorem extractPayload_unmasked (front payload rest : List UInt8) (fin : Bool) (opcode : UInt8) :
    extractPayload (front ++ payload ++ rest)
      (frameHeader fin opcode false payload.length front.length) = some payload := by
  unfold extractPayload
  rw [if_pos (by simp [totalFrameLength, frameHeader])]
  simp [frameHeader]

theorem extractPayload_masked (front mask payload rest : List UInt8) (hmask : mask.length = 4)
    (fin : Bool) (opcode : UInt8) :
    extractPayload (front ++ mask ++ masked mask payload ++ rest)
      (frameHeader fin opcode true payload.length front.length) = some payload := by
  have hfront : (front ++ mask).length = front.length + 4 := by
    rw [List.length_append, hmask]
  have hdrop : (front ++ mask ++ masked mask payload ++ rest).drop (front.length + 4) =
      masked mask payload ++ rest := by
    rw [← hfront, List.append_assoc (front ++ mask), List.drop_left]
  have hkey : ((front ++ mask ++ masked mask payload ++ rest).drop front.length).take 4 = mask := by
    rw [List.append_assoc, List.append_assoc, List.drop_left, List.take_left' hmask]
  unfold extractPayload
  rw [if_pos (by simp [totalFrameLength, frameHeader, hmask]; omega)]
  show some (masked (List.take 4 (List.drop front.length _))
    (List.take payload.length (List.drop (front.length + 4) _))) = _
  rw [hdrop, hkey, List.take_left' (length_masked mask payload), masked_masked]

end WsFrameParser

/-! ## The frame of a request -/

theorem byte_eq {n m : Nat} (hlt : n < 256) (h : n = m % 256) : byte n = some (UInt8.ofNat m) := by
  unfold byte
  rw [if_pos hlt]
  congr 1
  apply UInt8.toNat_inj.mp
  simp only [UInt8.toNat_ofNat']
  omega

def formOf (len : Nat) : LengthForm :=
  if len ≤ 125 then .seven else if len ≤ 65535 then .sixteen else .sixtyFour

theorem fits_formOf {len : Nat} (h : len ≤ maxFrameBytes) : (formOf len).Fits len := by
  unfold formOf
  split
  · next hseven => exact hseven
  · split
    · next hsixteen => exact hsixteen
    · exact h

theorem lengthBytes_eq {len : Nat} (h : len ≤ maxFrameBytes) :
    lengthBytes len = some ((formOf len).wire true len) := by
  have hmask : ∀ n, n &&& 0xFF = n % 256 := fun n => Nat.and_two_pow_sub_one_eq_mod n 8
  have hshift : ∀ n k, n >>> k = n / 2 ^ k := fun n k => Nat.shiftRight_eq_div_pow n k
  unfold maxFrameBytes at h
  unfold lengthBytes formOf
  by_cases hseven : len ≤ 125
  · rw [if_pos hseven, if_pos hseven, byte_eq (by omega) (show len = len % 256 by omega)]
    rfl
  · rw [if_neg hseven, if_neg hseven]
    by_cases hsixteen : len ≤ 65535
    · rw [if_pos hsixteen, if_pos hsixteen,
        byte_eq (by rw [hshift]; omega) (show len >>> 8 = len / 256 % 256 by rw [hshift]; omega),
        byte_eq (by rw [hmask]; omega) (hmask len)]
      rfl
    · rw [if_neg hsixteen, if_neg hsixteen,
        byte_eq (by rw [hshift]; omega)
          (show len >>> 24 = len / 256 / 256 / 256 % 256 by rw [hshift]; omega),
        byte_eq (by rw [hmask]; omega)
          (show (len >>> 16) &&& 0xFF = len / 256 / 256 % 256 by rw [hmask, hshift]; omega),
        byte_eq (by rw [hmask]; omega)
          (show (len >>> 8) &&& 0xFF = len / 256 % 256 by rw [hmask, hshift]; omega),
        byte_eq (by rw [hmask]; omega) (hmask len)]
      have hzero : len / 256 / 256 / 256 / 256 = 0 := by omega
      simp [LengthForm.wire, LengthForm.marker, LengthForm.extended, toBigEndian, hzero]

theorem buildWsTextFrame_eq (maskKey : Vector UInt8 4) {payload : List UInt8}
    (h : payload.length ≤ maxFrameBytes) :
    buildWsTextFrame (some maskKey) payload =
      .ok (some (0x81 :: (formOf payload.length).wire true payload.length ++ maskKey.toList ++
        masked maskKey.toList payload)) := by
  unfold buildWsTextFrame
  rw [lengthBytes_eq h]
  rfl

namespace WsFrameParser

/-- The header of a request, whatever follows it. -/
theorem parseHeader_request (maskKey : Vector UInt8 4) {payload : List UInt8}
    (h : payload.length ≤ maxFrameBytes) (rest : List UInt8) :
    parseHeader (0x81 :: (formOf payload.length).wire true payload.length ++ maskKey.toList ++
        masked maskKey.toList payload ++ rest) =
      .ok (some (frameHeader true 0x01 true payload.length
        (0x81 :: (formOf payload.length).wire true payload.length).length)) := by
  have hwire := parseHeader_wire (fits_formOf h) 0x81 true
    (maskKey.toList ++ masked maskKey.toList payload ++ rest)
  simp only [List.append_assoc, List.cons_append, List.length_cons] at hwire ⊢
  rw [hwire, Nat.add_comm 1]
  rfl

theorem parse_text {data : List UInt8} {header : FrameHeader}
    (hheader : parseHeader data = .ok (some header)) (hopcode : header.opcode = 0x01)
    (hfin : header.fin = true) : parse data = .ok (extractPayload data header) := by
  unfold parse
  simp [hheader, hopcode, hfin]

/-- A part of a frame that has a header is not the whole frame. -/
theorem parse_take {frame : List UInt8} {header : FrameHeader}
    (hheader : parseHeader frame = .ok (some header))
    (htotal : totalFrameLength header = frame.length) {n : Nat} (hn : n < frame.length) :
    parse (frame.take n) =
      if n < 2 then .error (.websocketFrameError "frame too short") else .ok none := by
  have hlength : (frame.take n).length = n := List.length_take_of_le (Nat.le_of_lt hn)
  have hsame : parseHeader (frame.take n) = .ok none ∨
      parseHeader (frame.take n) = .ok (some header) := by
    by_cases hnone : parseHeader (frame.take n) = .ok none
    · exact Or.inl hnone
    · refine Or.inr ?_
      rw [← hheader, ← parseHeader_append hnone, List.take_append_drop]
  unfold parse
  rcases hsame with hnone | hsome
  · rw [hnone]
    show (if 2 ≤ (frame.take n).length then _ else _) = _
    rw [hlength]
    by_cases htwo : n < 2
    · rw [if_pos htwo, if_neg (by omega)]
    · rw [if_neg htwo, if_pos (by omega)]
  · have htwo : ¬ n < 2 := by
      intro hlt
      unfold parseHeader at hsome
      rw [dif_neg (by omega)] at hsome
      cases hsome
    have hextract : extractPayload (frame.take n) header = none := by
      unfold extractPayload
      rw [if_neg (by omega)]
    simp only [hsome, hextract, if_neg htwo]
    split
    · rfl
    · split <;> rfl

/-- What a request is framed as is read back as it is, and no part of it is. -/
theorem parse_buildWsTextFrame (maskKey : Vector UInt8 4) (payload : List UInt8)
    (h : payload.length ≤ maxFrameBytes) :
    ∃ frame header, buildWsTextFrame (some maskKey) payload = .ok (some frame) ∧
      parseHeader frame = .ok (some header) ∧
      header.fin = true ∧ header.opcode = 0x01 ∧ header.masked = true ∧
      totalFrameLength header = frame.length ∧
      (∀ rest, parse (frame ++ rest) = .ok (some payload)) ∧
      ∀ n < frame.length, parse (frame.take n) =
        if n < 2 then .error (.websocketFrameError "frame too short") else .ok none := by
  have hheader := parseHeader_request maskKey h []
  rw [List.append_nil] at hheader
  have htotal : totalFrameLength (frameHeader true 0x01 true payload.length
      (0x81 :: (formOf payload.length).wire true payload.length).length) =
      (0x81 :: (formOf payload.length).wire true payload.length ++ maskKey.toList ++
        masked maskKey.toList payload).length := by
    simp [totalFrameLength, frameHeader]
    omega
  refine ⟨_, _, buildWsTextFrame_eq maskKey h, hheader, rfl, rfl, rfl, htotal, ?_, ?_⟩
  · intro rest
    rw [parse_text (parseHeader_request maskKey h rest) rfl rfl]
    exact congrArg Except.ok (extractPayload_masked _ maskKey.toList payload rest (by simp) _ _)
  · exact fun n hn => parse_take hheader htotal hn

/-- A request of `n` bytes goes in a frame of `length` bytes and is read back. -/
def FramedAs (n length : Nat) : Prop :=
  ∃ frame, buildWsTextFrame (some #v[1, 2, 3, 4]) (List.replicate n 0x61) = .ok (some frame) ∧
    frame.length = length ∧
    (∀ rest, parse (frame ++ rest) = .ok (some (List.replicate n 0x61))) ∧
    ∀ k, 2 ≤ k → k < frame.length → parse (frame.take k) = .ok none

/-- The length stands in seven bits, in sixteen and in sixty-four. -/
theorem parse_buildWsTextFrame_forms : FramedAs 2 8 ∧ FramedAs 300 308 ∧ FramedAs 70000 70014 := by
  have hframed (n : Nat) (hn : n ≤ maxFrameBytes) :
      FramedAs n (6 + ((formOf n).extended n).length + n) := by
    have hlong : (List.replicate n (0x61 : UInt8)).length ≤ maxFrameBytes := by
      rw [List.length_replicate]
      exact hn
    obtain ⟨frame, header, hbuild, -, -, -, -, -, hwhole, hpart⟩ :=
      parse_buildWsTextFrame #v[1, 2, 3, 4] (List.replicate n 0x61) hlong
    refine ⟨frame, hbuild, ?_, hwhole, fun k htwo hk => ?_⟩
    · rw [buildWsTextFrame_eq _ hlong] at hbuild
      obtain rfl := Option.some.inj (Except.ok.inj hbuild)
      simp only [List.length_append, List.length_cons, List.length_replicate, LengthForm.wire,
        length_masked, Vector.length_toList]
      omega
    · rw [hpart k hk, if_neg (by omega)]
  exact ⟨hframed 2 (by decide), hframed 300 (by decide), hframed 70000 (by decide)⟩

end WsFrameParser

end App
end Panops
