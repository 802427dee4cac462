import Panops.App.WsFrame
import Panops.Lib.Streams

/-!
# Text messages from the event connection

`readWsFrame` reads frames from the connection until it has a text message.
-/

namespace Panops
namespace App

open Lib.Streams
open WsFrameParser

/-- What `readWsFrame` keeps of a fragmented message. -/
structure Reassembly where
  accumulatedPayload : List UInt8
  waitingForContinuation : Bool
deriving DecidableEq

namespace Reassembly

def fresh : Reassembly := ⟨[], false⟩

/-- A complete frame, which every branch takes from the buffer. -/
def receive (s : Reassembly) (header : FrameHeader) (payload : Option (List UInt8)) :
    Reassembly ⊕ List UInt8 :=
  if header.opcode = 0x01 then
    if s.waitingForContinuation then .inl s
    else
      match payload with
      | none => .inl s
      | some payload => if header.fin then .inr payload else .inl ⟨payload, true⟩
  else if header.opcode = 0x00 then
    if s.waitingForContinuation then
      match payload with
      | none => .inl s
      | some payload =>
        let accumulatedPayload := s.accumulatedPayload ++ payload
        if header.fin then .inr accumulatedPayload
        else .inl { s with accumulatedPayload := accumulatedPayload }
    else .inl s
  else if s.waitingForContinuation then .inl ⟨[], false⟩
  else .inl s

/-- One turn of the loop of `readWsFrame`, which asks for more with `receiveChunk`. -/
def turn (s : Reassembly) (buffer : List UInt8) :
    Turn Reassembly UInt8 (List UInt8) IpcClientError :=
  if buffer.length < 2 then .more
  else
    match parseHeader buffer with
    | .error error => .failed error
    | .ok none => .more
    | .ok (some header) =>
      if totalFrameLength header ≤ buffer.length then
        .after (buffer.drop (totalFrameLength header))
          (s.receive header (extractPayload buffer header))
      else .more

end Reassembly

namespace WsFrameParser

variable {data more : List UInt8} {header : FrameHeader}

theorem exists_frameHeader (h : parseHeader data = .ok (some header)) :
    ∃ fin opcode masked payloadLen headerSize,
      2 ≤ headerSize ∧ header = frameHeader fin opcode masked payloadLen headerSize := by
  unfold parseHeader at h
  split at h
  · simp only at h
    split at h
    · split at h
      · exact ⟨_, _, _, _, 4, by omega, (Option.some.inj (Except.ok.inj h)).symm⟩
      · cases h
    · split at h
      · split at h
        · split at h
          · exact ⟨_, _, _, _, 10, by omega, (Option.some.inj (Except.ok.inj h)).symm⟩
          · cases h
        · cases h
      · exact ⟨_, _, _, _, 2, by omega, (Option.some.inj (Except.ok.inj h)).symm⟩
  · cases h

theorem two_le_totalFrameLength (h : parseHeader data = .ok (some header)) :
    2 ≤ totalFrameLength header := by
  obtain ⟨fin, opcode, masked, payloadLen, headerSize, hsize, rfl⟩ := exists_frameHeader h
  rw [totalFrameLength, headerSize_frameHeader]
  show 2 ≤ headerSize + _ + payloadLen
  omega

/-- A payload that is complete does not depend on what follows. -/
theorem extractPayload_append (h : parseHeader data = .ok (some header))
    (hlength : totalFrameLength header ≤ data.length) :
    extractPayload (data ++ more) header = extractPayload data header := by
  obtain ⟨fin, opcode, mask, payloadLen, headerSize, hsize, rfl⟩ := exists_frameHeader h
  have hlonger : totalFrameLength (frameHeader fin opcode mask payloadLen headerSize) ≤
      (data ++ more).length := by
    rw [List.length_append]
    omega
  have hslice : ∀ start count, start + count ≤ data.length →
      ((data ++ more).drop start).take count = (data.drop start).take count := by
    intro start count hle
    rw [List.drop_append_of_le_length (by omega), List.take_append_of_le_length]
    rw [List.length_drop]
    omega
  unfold extractPayload
  rw [if_pos hlonger, if_pos hlength]
  rw [totalFrameLength, headerSize_frameHeader] at hlength
  replace hlength : headerSize + (if mask then 4 else 0) + payloadLen ≤ data.length := hlength
  cases mask with
  | false =>
    show some (((data ++ more).drop headerSize).take payloadLen) = _
    rw [hslice headerSize payloadLen (by simpa using hlength)]
    rfl
  | true =>
    rw [if_pos rfl] at hlength
    show some (Lib.Bytes.masked (((data ++ more).drop headerSize).take 4)
      (((data ++ more).drop (headerSize + 4)).take payloadLen)) = _
    rw [hslice headerSize 4 (by omega), hslice (headerSize + 4) payloadLen hlength]
    rfl

end WsFrameParser

namespace Reassembly

/-- A turn that does not ask for more has a whole frame before it, or an error. -/
theorem turn_cases {s : Reassembly} {buffer : List UInt8} (h : s.turn buffer ≠ .more) :
    (∃ error, parseHeader buffer = .error error) ∨
      ∃ header, parseHeader buffer = .ok (some header) ∧
        totalFrameLength header ≤ buffer.length := by
  unfold turn at h
  split at h
  · exact absurd rfl h
  · split at h
    · next error herror => exact Or.inl ⟨error, herror⟩
    · exact absurd rfl h
    · next header hheader =>
      split at h
      · next hlength => exact Or.inr ⟨header, hheader, hlength⟩
      · exact absurd rfl h

theorem turn_error {s : Reassembly} {buffer : List UInt8} {error : IpcClientError}
    (h : parseHeader buffer = .error error) : s.turn buffer = .failed error := by
  unfold turn
  by_cases htwo : buffer.length < 2
  · unfold parseHeader at h
    rw [dif_neg (by omega)] at h
    cases h
  · rw [if_neg htwo, h]

theorem turn_frame {s : Reassembly} {buffer : List UInt8} {header : FrameHeader}
    (h : parseHeader buffer = .ok (some header))
    (hlength : totalFrameLength header ≤ buffer.length) :
    s.turn buffer = .after (buffer.drop (totalFrameLength header))
      (s.receive header (extractPayload buffer header)) := by
  have htwo := two_le_totalFrameLength h
  unfold turn
  rw [if_neg (by omega), h]
  simp only [if_pos hlength]

theorem shrinks_turn (s : Reassembly) (buffer : List UInt8) (s' : Reassembly) (rest : List UInt8)
    (h : s.turn buffer = .goesOn s' rest) : rest.length < buffer.length := by
  rcases turn_cases (by rw [h]; nofun) with ⟨error, herror⟩ | ⟨header, hheader, hlength⟩
  · rw [turn_error herror] at h
    cases h
  · rw [turn_frame hheader hlength] at h
    have htwo := two_le_totalFrameLength hheader
    cases hnext : s.receive header (extractPayload buffer header) with
    | inl next =>
      rw [hnext] at h
      injection h with _ hrest
      rw [← hrest, List.length_drop]
      omega
    | inr message =>
      rw [hnext] at h
      cases h

theorem stable_turn (s : Reassembly) (buffer more : List UInt8) (h : s.turn buffer ≠ .more) :
    s.turn (buffer ++ more) = (s.turn buffer).append more := by
  rcases turn_cases h with ⟨error, herror⟩ | ⟨header, hheader, hlength⟩
  · have hmore : parseHeader (buffer ++ more) = .error error := by
      rw [parseHeader_append (by rw [herror]; nofun), herror]
    rw [turn_error herror, turn_error hmore]
    rfl
  · have hmore : parseHeader (buffer ++ more) = .ok (some header) := by
      rw [parseHeader_append (by rw [hheader]; nofun), hheader]
    have hlonger : totalFrameLength header ≤ (buffer ++ more).length := by
      rw [List.length_append]
      omega
    rw [turn_frame hheader hlength, turn_frame hmore hlonger, extractPayload_append hheader hlength,
      List.drop_append_of_le_length hlength, Turn.append_after]

end Reassembly

def reader : Reader Reassembly UInt8 (List UInt8) IpcClientError where
  turn := Reassembly.turn
  shrinks := Reassembly.shrinks_turn
  stable := Reassembly.stable_turn
  ended := .disconnected

/-- The chunks are what the connection will give, and then it ends. -/
def readWsFrame (buffer : List UInt8) (chunks : List (List UInt8)) :
    Except IpcClientError (List UInt8 × List UInt8 × List (List UInt8)) :=
  reader.read .fresh buffer chunks

/-- Repeated calls, of which an error is the last. -/
def readWsFrames : Nat → List UInt8 → List (List UInt8) → List (Except IpcClientError (List UInt8))
  | 0, _, _ => []
  | n + 1, buffer, chunks =>
    match readWsFrame buffer chunks with
    | .error error => [.error error]
    | .ok (message, buffer, chunks) => .ok message :: readWsFrames n buffer chunks

theorem readWsFrames_eq (n : Nat) (buffer : List UInt8) (chunks : List (List UInt8)) :
    readWsFrames n buffer chunks = reader.results .fresh n .fresh buffer chunks := by
  induction n generalizing buffer chunks with
  | zero => rfl
  | succ n ih =>
    unfold readWsFrames Reader.results readWsFrame
    cases reader.read .fresh buffer chunks with
    | error error => rfl
    | ok value => exact congrArg _ (ih value.2.1 value.2.2)

/-! ## What RFC 6455 lets a server send -/

inductive Opcode where
  | continuation
  | text
  | close
  | ping
  | pong
deriving DecidableEq

namespace Opcode

def code : Opcode → UInt8
  | .continuation => 0x0
  | .text => 0x1
  | .close => 0x8
  | .ping => 0x9
  | .pong => 0xA

def isControl : Opcode → Bool
  | .continuation => false
  | .text => false
  | .close => true
  | .ping => true
  | .pong => true

end Opcode

structure Frame where
  fin : Bool
  opcode : Opcode
  form : LengthForm
  payload : List UInt8
  fits : form.Fits payload.length
  control : opcode.isControl = true → fin = true ∧ payload.length ≤ 125

namespace Frame

def firstByte (fin : Bool) (opcode : Opcode) : UInt8 := (if fin then 0x80 else 0) ||| opcode.code

/-- A server does not mask. -/
def encode (frame : Frame) : List UInt8 :=
  firstByte frame.fin frame.opcode :: (frame.form.wire false frame.payload.length ++ frame.payload)

/-- The message that is unfinished after the frame, or the one that it finishes. -/
def reassemble (message : Option (List UInt8)) (frame : Frame) :
    Option (List UInt8) ⊕ List UInt8 :=
  if frame.opcode.isControl then .inl message
  else
    let payload := message.getD [] ++ frame.payload
    if frame.fin then .inr payload else .inl (some payload)

/-- The message that is unfinished after the frame. -/
def unfinished (message : Option (List UInt8)) (frame : Frame) : Option (List UInt8) :=
  match frame.reassemble message with
  | .inl message => message
  | .inr _ => none

/-- A message begins with a text frame, goes on in continuations and is no longer than
8 MiB; a control frame may be anywhere. -/
def Allowed (message : Option (List UInt8)) (frame : Frame) : Prop :=
  match frame.opcode with
  | .text => message = none ∧ frame.payload.length ≤ maxFrameBytes
  | .continuation => ∃ front, message = some front ∧
      (front ++ frame.payload).length ≤ maxFrameBytes
  | _ => True

end Frame

/-- Nothing follows a close frame. -/
def Legal : Option (List UInt8) → List Frame → Prop
  | _, [] => True
  | message, frame :: frames =>
    frame.Allowed message ∧ (frame.opcode = .close → frames = []) ∧
      Legal (frame.unfinished message) frames

/-- The text messages that frames finish, after an unfinished one. -/
def messagesFrom (message : Option (List UInt8)) (frames : List Frame) : List (List UInt8) :=
  Reader.collect Frame.reassemble none message frames

def messages (frames : List Frame) : List (List UInt8) := messagesFrom none frames

/-- The message that is unfinished where the frames start is finished in them. -/
def Finishes (frames : List Frame) : Prop :=
  ∃ frame ∈ frames, frame.opcode = .continuation ∧ frame.fin = true

/-- No control frame stands between the frames of a message, unless it is never
finished. -/
def Uninterrupted : Option (List UInt8) → List Frame → Prop
  | _, [] => True
  | message, frame :: frames =>
    (frame.opcode.isControl = true → message ≠ none → ¬ Finishes frames) ∧
      Uninterrupted (frame.unfinished message) frames

/-! ## Frame by frame -/

namespace Frame

theorem firstByte_bits (fin : Bool) (opcode : Opcode) :
    (firstByte fin opcode &&& 0x80 != 0) = fin ∧ firstByte fin opcode &&& 0x0F = opcode.code := by
  cases fin <;> cases opcode <;> decide

def header (frame : Frame) : FrameHeader :=
  frameHeader frame.fin frame.opcode.code false frame.payload.length
    (1 + (frame.form.wire false frame.payload.length).length)

theorem turn_encode (s : Reassembly) (frame : Frame) (tail : List UInt8) :
    s.turn (frame.encode ++ tail) =
      .after tail (s.receive frame.header (some frame.payload)) := by
  obtain ⟨hfin, hopcode⟩ := firstByte_bits frame.fin frame.opcode
  have hheader : parseHeader (frame.encode ++ tail) = .ok (some frame.header) := by
    have hwire := parseHeader_wire frame.fits (firstByte frame.fin frame.opcode) false
      (frame.payload ++ tail)
    rw [hfin, hopcode] at hwire
    rw [encode, List.cons_append, List.append_assoc, hwire]
    rfl
  have hlength : frame.encode.length = totalFrameLength frame.header := by
    simp [encode, totalFrameLength, header, frameHeader]
    omega
  have hpayload : extractPayload (frame.encode ++ tail) frame.header = some frame.payload := by
    have hextract := extractPayload_unmasked (firstByte frame.fin frame.opcode ::
      frame.form.wire false frame.payload.length) frame.payload tail frame.fin frame.opcode.code
    rw [List.length_cons, Nat.add_comm] at hextract
    exact hextract
  have hdrop : (frame.encode ++ tail).drop (totalFrameLength frame.header) = tail := by
    rw [← hlength, List.drop_left]
  rw [Reassembly.turn_frame hheader (by rw [List.length_append]; omega), hpayload, hdrop]

end Frame

/-- What `readWsFrame` makes of a frame. -/
def received (s : Reassembly) (frame : Frame) : Reassembly ⊕ List UInt8 :=
  s.receive frame.header (some frame.payload)

/-- What repeated calls return of frames. -/
def heard (s : Reassembly) (frames : List Frame) : List (List UInt8) :=
  Reader.collect received .fresh s frames

theorem readWsFrames_frames {frames : List Frame} {chunks : List (List UInt8)}
    (hcut : chunks.flatten = (frames.map Frame.encode).flatten) (n : Nat) :
    readWsFrames n [] chunks =
      ((heard .fresh frames).map Except.ok ++ [Except.error IpcClientError.disconnected]).take n := by
  rw [readWsFrames_eq]
  apply @Reader.results_frames _ _ _ _ _ reader _ _ _ received Frame.encode
  · exact fun s frame _ tail => frame.turn_encode s tail
  · exact fun _ => rfl
  · exact hcut

/-! ## Messages that are received -/

/-- `readWsFrame` has all of the unfinished message. -/
def Reassembly.ofMessage : Option (List UInt8) → Reassembly
  | none => .fresh
  | some front => ⟨front, true⟩

section

variable {frame : Frame} {frames : List Frame} {message : Option (List UInt8)}

theorem received_data (hallowed : frame.Allowed message) (hdata : frame.opcode.isControl = false) :
    received (.ofMessage message) frame =
      (frame.reassemble message).map Reassembly.ofMessage id := by
  unfold Frame.Allowed at hallowed
  unfold received Frame.reassemble
  cases hopcode : frame.opcode with
  | text =>
    rw [hopcode] at hallowed
    obtain ⟨rfl, -⟩ := hallowed
    cases hfin : frame.fin <;>
      simp [Reassembly.receive, Frame.header, frameHeader, hopcode, hfin, Opcode.code,
        Opcode.isControl, Reassembly.ofMessage, Reassembly.fresh]
  | continuation =>
    rw [hopcode] at hallowed
    obtain ⟨front, rfl, -⟩ := hallowed
    cases hfin : frame.fin <;>
      simp [Reassembly.receive, Frame.header, frameHeader, hopcode, hfin, Opcode.code,
        Opcode.isControl, Reassembly.ofMessage]
  | _ =>
    rw [hopcode] at hdata
    cases hdata

/-- A control frame makes `readWsFrame` forget what it has of a message. -/
theorem received_control (hcontrol : frame.opcode.isControl = true) :
    received (.ofMessage message) frame = .inl .fresh := by
  unfold received
  cases hopcode : frame.opcode with
  | text =>
    rw [hopcode] at hcontrol
    cases hcontrol
  | continuation =>
    rw [hopcode] at hcontrol
    cases hcontrol
  | _ =>
    cases message <;>
      simp [Reassembly.receive, Frame.header, frameHeader, hopcode, Opcode.code,
        Reassembly.ofMessage, Reassembly.fresh]

/-- The rest of a forgotten message is dropped. -/
theorem received_forgotten {front : List UInt8} (hallowed : frame.Allowed (some front)) :
    received .fresh frame = .inl .fresh := by
  unfold Frame.Allowed at hallowed
  cases hopcode : frame.opcode with
  | text =>
    rw [hopcode] at hallowed
    cases hallowed.1
  | continuation =>
    simp [received, Reassembly.receive, Frame.header, frameHeader, hopcode, Opcode.code,
      Reassembly.fresh]
  | _ => exact @received_control frame none (by rw [hopcode]; rfl)

theorem reassemble_control (hcontrol : frame.opcode.isControl = true) :
    frame.reassemble message = .inl message := by
  unfold Frame.reassemble
  rw [if_pos hcontrol]

theorem unfinished_inl {message' : Option (List UInt8)}
    (h : frame.reassemble message = .inl message') : frame.unfinished message = message' := by
  rw [Frame.unfinished, h]

theorem unfinished_inr {whole : List UInt8} (h : frame.reassemble message = .inr whole) :
    frame.unfinished message = none := by
  rw [Frame.unfinished, h]

/-- A frame in a message either finishes it or leaves one unfinished. -/
theorem reassemble_cases {front : List UInt8} (hallowed : frame.Allowed (some front)) :
    ((∃ front', frame.reassemble (some front) = .inl (some front')) ∧
        ¬ (frame.opcode = .continuation ∧ frame.fin = true)) ∨
      (∃ whole, frame.reassemble (some front) = .inr whole) ∧
        frame.opcode = .continuation ∧ frame.fin = true := by
  unfold Frame.Allowed at hallowed
  unfold Frame.reassemble
  cases hopcode : frame.opcode with
  | continuation => cases hfin : frame.fin <;> simp [Opcode.isControl]
  | text =>
    rw [hopcode] at hallowed
    cases hallowed.1
  | _ => exact Or.inl ⟨⟨front, by simp [Opcode.isControl]⟩, by simp⟩

theorem finishes_cons : Finishes (frame :: frames) ↔
    (frame.opcode = .continuation ∧ frame.fin = true) ∨ Finishes frames := by
  simp [Finishes]

/-- Frames of messages lead to the same on both sides. -/
theorem heard_data (hallowed : frame.Allowed message) (hdata : frame.opcode.isControl = false) :
    (∃ message', frame.reassemble message = .inl message' ∧
        heard (.ofMessage message) (frame :: frames) = heard (.ofMessage message') frames ∧
        messagesFrom message (frame :: frames) = messagesFrom message' frames) ∨
      ∃ whole, frame.reassemble message = .inr whole ∧
        heard (.ofMessage message) (frame :: frames) = whole :: heard .fresh frames ∧
        messagesFrom message (frame :: frames) = whole :: messagesFrom none frames := by
  have hreceived := received_data hallowed hdata
  cases hnext : frame.reassemble message with
  | inl message' =>
    rw [hnext] at hreceived
    exact Or.inl ⟨message', rfl, Reader.collect_inl hreceived, Reader.collect_inl hnext⟩
  | inr whole =>
    rw [hnext] at hreceived
    exact Or.inr ⟨whole, rfl, Reader.collect_inr hreceived, Reader.collect_inr hnext⟩

theorem heard_control (hcontrol : frame.opcode.isControl = true) :
    heard (.ofMessage message) (frame :: frames) = heard .fresh frames ∧
      messagesFrom message (frame :: frames) = messagesFrom message frames :=
  ⟨Reader.collect_inl (received_control hcontrol), Reader.collect_inl (reassemble_control hcontrol)⟩

/-- Nothing is received of a message that is never finished, and nothing is lost. -/
theorem nothing_of_not_finishes {front : List UInt8} (hlegal : Legal (some front) frames)
    (hfinishes : ¬ Finishes frames) :
    heard .fresh frames = [] ∧ messagesFrom (some front) frames = [] ∧
      Uninterrupted (some front) frames := by
  induction frames generalizing front with
  | nil => exact ⟨rfl, rfl, trivial⟩
  | cons frame frames ih =>
    obtain ⟨hallowed, -, hlegal⟩ := hlegal
    rw [finishes_cons, not_or] at hfinishes
    rcases reassemble_cases hallowed with ⟨⟨front', hnext⟩, -⟩ | ⟨-, hfinal⟩
    · rw [unfinished_inl hnext] at hlegal
      obtain ⟨hheard, hmessages, huninterrupted⟩ := ih hlegal hfinishes.2
      refine ⟨?_, ?_, fun _ _ => hfinishes.2, ?_⟩
      · rw [heard, Reader.collect_inl (received_forgotten hallowed)]
        exact hheard
      · rw [messagesFrom, Reader.collect_inl hnext]
        exact hmessages
      · rw [unfinished_inl hnext]
        exact huninterrupted
    · exact absurd hfinal hfinishes.1

/-- Nothing is received that has not been sent, and less once a message has been
forgotten that is finished. -/
theorem length_heard (hlegal : Legal message frames) :
    (heard (.ofMessage message) frames).length ≤ (messagesFrom message frames).length ∧
      ∀ front, message = some front → Finishes frames →
        (heard .fresh frames).length < (messagesFrom message frames).length := by
  induction frames generalizing message with
  | nil => exact ⟨Nat.le_refl _, fun _ _ ⟨_, hmem, _⟩ => nomatch hmem⟩
  | cons frame frames ih =>
    obtain ⟨hallowed, -, hlegal⟩ := hlegal
    have hnext := ih hlegal
    constructor
    · cases hcontrol : frame.opcode.isControl with
      | false =>
        rcases @heard_data frame frames message hallowed hcontrol with
          ⟨message', hgoes, hheard, hmessages⟩ | ⟨whole, hwhole, hheard, hmessages⟩
        · rw [unfinished_inl hgoes] at hnext
          rw [hheard, hmessages]
          exact hnext.1
        · rw [unfinished_inr hwhole] at hnext
          rw [hheard, hmessages]
          exact Nat.succ_le_succ hnext.1
      | true =>
        obtain ⟨hheard, hmessages⟩ := @heard_control frame frames message hcontrol
        rw [unfinished_inl (reassemble_control hcontrol)] at hlegal hnext
        rw [hheard, hmessages]
        cases message with
        | none => exact hnext.1
        | some front =>
          by_cases hfinishes : Finishes frames
          · exact Nat.le_of_lt (hnext.2 front rfl hfinishes)
          · rw [(nothing_of_not_finishes hlegal hfinishes).1]
            exact Nat.zero_le _
    · intro front hfront hfinishes
      subst hfront
      rw [heard, Reader.collect_inl (received_forgotten hallowed), messagesFrom]
      rcases reassemble_cases hallowed with ⟨⟨front', hgoes⟩, hfinal⟩ | ⟨⟨whole, hwhole⟩, -⟩
      · rw [unfinished_inl hgoes] at hnext
        rw [Reader.collect_inl hgoes]
        exact hnext.2 front' rfl ((finishes_cons.mp hfinishes).resolve_left hfinal)
      · rw [unfinished_inr hwhole] at hnext
        rw [Reader.collect_inr hwhole]
        exact Nat.lt_succ_of_le hnext.1

/-- What is received is what has been sent as long as no message is forgotten. -/
theorem heard_eq_iff (hlegal : Legal message frames) :
    heard (.ofMessage message) frames = messagesFrom message frames ↔
      Uninterrupted message frames := by
  induction frames generalizing message with
  | nil => exact ⟨fun _ => trivial, fun _ => rfl⟩
  | cons frame frames ih =>
    obtain ⟨hallowed, -, hlegal⟩ := hlegal
    have hnext := ih hlegal
    cases hcontrol : frame.opcode.isControl with
    | false =>
      have hrest : Uninterrupted message (frame :: frames) ↔
          Uninterrupted (frame.unfinished message) frames := by
        simp [Uninterrupted, hcontrol]
      rw [hrest, ← hnext]
      rcases @heard_data frame frames message hallowed hcontrol with
        ⟨message', hgoes, hheard, hmessages⟩ | ⟨whole, hwhole, hheard, hmessages⟩
      · rw [unfinished_inl hgoes, hheard, hmessages]
      · rw [unfinished_inr hwhole, hheard, hmessages, List.cons.injEq]
        exact and_iff_right rfl
    | true =>
      obtain ⟨hheard, hmessages⟩ := @heard_control frame frames message hcontrol
      have hsame := unfinished_inl (@reassemble_control frame message hcontrol)
      rw [hsame] at hlegal hnext
      have hrest : Uninterrupted message (frame :: frames) ↔
          (message ≠ none → ¬ Finishes frames) ∧ Uninterrupted message frames := by
        rw [Uninterrupted, hsame]
        exact and_congr_left' ⟨fun h => h hcontrol, fun h _ => h⟩
      rw [hrest, hheard, hmessages]
      cases message with
      | none => simpa [Reassembly.ofMessage] using hnext
      | some front =>
        by_cases hfinishes : Finishes frames
        · have hless := (length_heard hlegal).2 front rfl hfinishes
          constructor
          · intro hequal
            rw [hequal] at hless
            exact absurd hless (Nat.lt_irrefl _)
          · exact fun h => absurd hfinishes (h.1 nofun)
        · obtain ⟨hnone, hnothing, huninterrupted⟩ := nothing_of_not_finishes hlegal hfinishes
          rw [hnone, hnothing]
          exact ⟨fun _ => ⟨fun _ => hfinishes, huninterrupted⟩, fun _ => rfl⟩

end

/-- However a legal stream is cut, repeated calls of `readWsFrame` return its text
messages in order and then find the end, exactly when no message that is finished has a
control frame between its frames. -/
theorem readWsFrames_messages {frames : List Frame} (hlegal : Legal none frames)
    {chunks : List (List UInt8)} (hcut : chunks.flatten = (frames.map Frame.encode).flatten) :
    (∀ n, readWsFrames n [] chunks =
      ((messages frames).map Except.ok ++ [Except.error IpcClientError.disconnected]).take n) ↔
        Uninterrupted none frames := by
  rw [← heard_eq_iff hlegal]
  constructor
  · intro h
    have hall := h ((heard .fresh frames).length + (messages frames).length + 1)
    rw [readWsFrames_frames hcut, List.take_of_length_le, List.take_of_length_le] at hall
    · exact (List.map_inj_right fun _ _ => Except.ok.inj).mp (List.append_cancel_right hall)
    · simp
    · simp
  · intro h n
    rw [readWsFrames_frames hcut]
    exact congrArg (fun all => (List.map Except.ok all ++ _).take n) h

/-- A message in two frames, with a ping between them. -/
def pinged : List Frame :=
  [⟨false, .text, .seven, [0x61], by decide, by decide⟩,
    ⟨true, .ping, .seven, [], by decide, by decide⟩,
    ⟨true, .continuation, .seven, [0x62], by decide, by decide⟩]

theorem message_lost_to_ping :
    Legal none pinged ∧ messages pinged = [[0x61, 0x62]] ∧
      readWsFrames 1 [] [(pinged.map Frame.encode).flatten] = [.error .disconnected] := by
  refine ⟨?_, by decide, ?_⟩
  · exact ⟨⟨rfl, by decide⟩, nofun, trivial, nofun, ⟨[0x61], rfl, by decide⟩, nofun, trivial⟩
  · rw [@readWsFrames_frames pinged _ (by simp)]
    rfl

/-- The ping comes first, and a close frame last. -/
def unpinged : List Frame :=
  [⟨true, .ping, .seven, [], by decide, by decide⟩,
    ⟨false, .text, .seven, [0x61], by decide, by decide⟩,
    ⟨true, .continuation, .seven, [0x62], by decide, by decide⟩,
    ⟨true, .close, .seven, [], by decide, by decide⟩]

theorem readWsFrames_unpinged : messages unpinged = [[0x61, 0x62]] ∧ ∀ n,
    readWsFrames n [] [[0x89], [0x00, 0x01, 0x01], [], [0x61, 0x80], [0x01, 0x62, 0x88, 0x00]] =
      ([Except.ok [0x61, 0x62], Except.error .disconnected] : List _).take n := by
  have hlegal : Legal none unpinged :=
    ⟨trivial, nofun, ⟨rfl, by decide⟩, nofun, ⟨[0x61], rfl, by decide⟩, nofun, trivial,
      fun _ => rfl, trivial⟩
  have huninterrupted : Uninterrupted none unpinged :=
    ⟨fun _ h => absurd rfl h, nofun, nofun, fun _ h => absurd rfl h, trivial⟩
  exact ⟨by decide, (readWsFrames_messages hlegal (by decide)).mpr huninterrupted⟩

end App
end Panops
