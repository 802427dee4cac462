import Mathlib.Algebra.Group.Int.Defs
import Panops.App.MarkdownText
import Panops.Lib.ByteSlices
import Panops.Lib.Decimal
import Panops.Lib.Occurrences

/-!
# Responses over HTTP

`readHttpResponse`: the header up to the empty line, and as much of a body as it announces,
from a connection that hands over pieces.
-/

namespace Panops
namespace App
namespace Http

open Lib.Decimal Lib.Occurrences Lib.Text

/-- `IpcClientError`, as far as a response is read. -/
inductive IpcClientError where
  | decode (message : String)
  | disconnected
deriving DecidableEq

def maxHeaderBytes : Nat := 8 * 1024

def headerTooLong : IpcClientError :=
  .decode s!"HTTP header exceeded {maxHeaderBytes} bytes without separator"

/-- The two line ends that close the header. -/
def separator : List UInt8 := [13, 10, 13, 10]

/-! ## The header -/

def utf8 (bytes : List UInt8) : Option String := String.fromUTF8? ⟨bytes.toArray⟩

/-- `components(separatedBy: "\r\n")` -/
def components : List Char → List (List Char)
  | [] => [[]]
  | [c] => [[c]]
  | '\r' :: '\n' :: rest => [] :: components rest
  | c :: d :: rest => (components (d :: rest)).modifyHead (c :: ·)

/-- The words of a line, of which the third may go on. -/
def words (line : List Char) : List (List Char) :=
  (line.splitOn ' ').filter (· ≠ [])

def signed (negative : Bool) (ds : List Char) : Option Int :=
  if ds ≠ [] ∧ ds.all Char.isDigit then
    let n : Int := if negative then -(value ds : Int) else value ds
    if -(2 ^ 63) ≤ n ∧ n < 2 ^ 63 then some n else none
  else none

/-- `Int(_:)`, of 64 bits. -/
def int : List Char → Option Int
  | '-' :: ds => signed true ds
  | '+' :: ds => signed false ds
  | ds => signed false ds

def contentLengthName : List Char := "content-length:".toList

/-- The value of a `Content-Length`, 0 when it is no number. -/
def contentLengthOf (line : List Char) : Option Int :=
  if contentLengthName.isPrefixOf (line.map Char.toLower) then
    some ((int (trimOf Markdown.isSpace (line.drop contentLengthName.length))).getD 0)
  else none

/-- The status and the length of the body, the last one that is given. -/
def parseHead (header : List UInt8) : Except IpcClientError (Int × Int) :=
  match utf8 header with
  | none => .error (.decode "non-utf8 HTTP header")
  | some headerText =>
    match components headerText.toList with
    | [] => .error (.decode "missing HTTP status line")
    | statusLine :: lines =>
      let invalid :=
        IpcClientError.decode ("invalid HTTP status line: " ++ String.ofList statusLine)
      match words statusLine with
      | _ :: part :: _ =>
        match int part with
        | none => .error invalid
        | some status =>
          .ok (status, lines.foldl (fun n line => (contentLengthOf line).getD n) 0)
      | _ => .error invalid

/-! ## Reading -/

/-- A piece is what one `receive` hands over, and no more than is missing. -/
def readBody (contentLength : Int) (body : List UInt8) :
    List (List UInt8) → Except IpcClientError (List UInt8)
  | [] => if (body.length : Int) < contentLength then .error .disconnected else .ok body
  | piece :: pieces =>
    if (body.length : Int) < contentLength then
      readBody contentLength (body ++ piece.take (contentLength - body.length).toNat) pieces
    else .ok body

def readHttpResponse (buffer : List UInt8) :
    List (List UInt8) → Except IpcClientError (Int × List UInt8)
  | [] => .error .disconnected
  | piece :: pieces =>
    let buffer := buffer ++ piece
    match rangeOf separator buffer with
    | none =>
      if maxHeaderBytes < buffer.length then .error headerTooLong
      else readHttpResponse buffer pieces
    | some lower =>
      match parseHead (buffer.take lower) with
      | .error e => .error e
      | .ok (status, contentLength) =>
        match readBody contentLength (buffer.drop (lower + separator.length)) pieces with
        | .error e => .error e
        | .ok body => .ok (status, body)

/-! ## The body -/

theorem readBody_of_le {contentLength : Int} {body : List UInt8} {pieces : List (List UInt8)}
    (h : contentLength ≤ body.length) : readBody contentLength body pieces = .ok body := by
  have hnot : ¬ (body.length : Int) < contentLength := by omega
  cases pieces with
  | nil | cons => rw [readBody, if_neg hnot]

/-- What is missing is taken from what comes, wherever that is cut. -/
theorem readBody_eq (contentLength : Int) (body : List UInt8) (pieces : List (List UInt8))
    (h : body.length ≤ contentLength) : readBody contentLength body pieces =
      if contentLength ≤ (body ++ pieces.flatten).length then
        .ok ((body ++ pieces.flatten).take contentLength.toNat)
      else .error .disconnected := by
  induction pieces generalizing body with
  | nil =>
    rw [readBody, List.flatten_nil, List.append_nil]
    by_cases hlt : (body.length : Int) < contentLength
    · rw [if_pos hlt, if_neg (by omega)]
    · rw [if_neg hlt, if_pos (by omega), List.take_of_length_le (by omega)]
  | cons piece pieces ih =>
    by_cases hlt : (body.length : Int) < contentLength
    · have htake := List.length_take (i := (contentLength - body.length).toNat) (l := piece)
      rw [readBody, if_pos hlt, ih _ (by rw [List.length_append]; omega)]
      by_cases hpiece : piece.length ≤ (contentLength - body.length).toNat
      · rw [List.take_of_length_le hpiece, List.flatten_cons, List.append_assoc]
      · -- The body is complete with a part of the piece, and what follows is left.
        have hpart : (piece.take (contentLength - body.length).toNat).length =
            (contentLength - body.length).toNat := by omega
        have hfull : (body ++ piece.take (contentLength - body.length).toNat).length =
            contentLength.toNat := by
          rw [List.length_append]
          omega
        have hleft : ((body ++ piece.take (contentLength - body.length).toNat) ++
            pieces.flatten).take contentLength.toNat =
              body ++ piece.take (contentLength - body.length).toNat := by
          rw [List.take_append_of_le_length (by omega), List.take_of_length_le (by omega)]
        have hright : (body ++ (piece :: pieces).flatten).take contentLength.toNat =
            body ++ piece.take (contentLength - body.length).toNat := by
          have hmissing : contentLength.toNat - body.length =
              (contentLength - body.length).toNat := by omega
          rw [List.take_append, List.take_of_length_le (by omega), hmissing, List.flatten_cons,
            List.take_append_of_le_length (by omega)]
        rw [hleft, hright, if_pos (by rw [List.length_append]; omega),
          if_pos (by simp only [List.length_append, List.flatten_cons]; omega)]
    · rw [readBody_of_le (by omega), if_pos (by rw [List.length_append]; omega),
        List.take_append_of_le_length (by omega), List.take_of_length_le (by omega)]

/-! ## Pieces -/

variable {head rest : List UInt8} {pieces : List (List UInt8)}

/-- With the first pieces there is more of the header than the limit, and not all of it. -/
def Overflows (headerBytes : Nat) (buffer : List UInt8) (pieces : List (List UInt8)) : Prop :=
  ∃ k, maxHeaderBytes < (buffer ++ (pieces.take k).flatten).length ∧
    (buffer ++ (pieces.take k).flatten).length < headerBytes

theorem Overflows.cons {headerBytes : Nat} {buffer piece : List UInt8}
    (h : Overflows headerBytes (buffer ++ piece) pieces) :
    Overflows headerBytes buffer (piece :: pieces) := by
  obtain ⟨k, hk⟩ := h
  refine ⟨k + 1, ?_⟩
  rw [List.take_succ_cons, List.flatten_cons, ← List.append_assoc]
  exact hk

theorem not_overflows_piece {headerBytes : Nat} {buffer piece : List UInt8}
    (h : ¬ Overflows headerBytes buffer (piece :: pieces))
    (hshort : (buffer ++ piece).length < headerBytes) :
    (buffer ++ piece).length ≤ maxHeaderBytes := by
  by_contra hlarge
  apply h
  refine ⟨1, ?_⟩
  rw [List.take_succ_cons, List.take_zero, List.flatten_cons, List.flatten_nil, List.append_nil]
  exact ⟨by omega, hshort⟩

/-- A header of which no part goes on behind the limit, and no more behind it than it
announces. -/
theorem readHttpResponse_eq (hsep : rangeOf separator (head ++ separator) = some head.length)
    (hrest : ∀ status n, parseHead head = .ok (status, n) → (rest.length : Int) ≤ n) :
    ∀ buffer, rangeOf separator buffer = none →
      ¬ Overflows (head.length + separator.length) buffer pieces →
      buffer ++ pieces.flatten = head ++ separator ++ rest →
      readHttpResponse buffer pieces =
        match parseHead head with
        | .error e => .error e
        | .ok (status, n) =>
          if n ≤ rest.length then .ok (status, rest) else .error .disconnected := by
  have hwhole := rangeOf_append hsep rest
  induction pieces with
  | nil =>
    intro buffer hnone _ hflatten
    rw [List.flatten_nil, List.append_nil] at hflatten
    rw [hflatten, hwhole] at hnone
    cases hnone
  | cons piece pieces ih =>
    intro buffer hnone hfits hflatten
    rw [List.flatten_cons, ← List.append_assoc] at hflatten
    have hlength := congrArg List.length hflatten
    simp only [List.length_append] at hlength
    rw [readHttpResponse]
    cases hfound : rangeOf separator (buffer ++ piece) with
    | none =>
      have hshort : (buffer ++ piece).length < head.length + separator.length := by
        by_contra hlong
        have hprefix : head ++ separator <+: buffer ++ piece := by
          have hwhole : buffer ++ piece <+: head ++ separator ++ rest := by
            rw [← hflatten]
            exact List.prefix_append _ _
          apply List.prefix_of_prefix_length_le (List.prefix_append _ rest) hwhole
          rw [List.length_append]
          omega
        obtain ⟨more, hmore⟩ := hprefix
        rw [← hmore, rangeOf_append hsep more] at hfound
        cases hfound
      have hsize := not_overflows_piece hfits hshort
      simp only
      rw [if_neg (by omega)]
      exact ih (buffer ++ piece) hfound (fun hlater => hfits hlater.cons) hflatten
    | some lower =>
      have hlower := rangeOf_append hfound pieces.flatten
      rw [hflatten, hwhole] at hlower
      obtain rfl := Option.some.inj hlower
      have hinside := add_length_le_of_rangeOf hfound
      have htake : (buffer ++ piece).take head.length = head := by
        have htaken := congrArg (List.take head.length) hflatten
        rwa [List.take_append_of_le_length (by omega), List.append_assoc,
          List.take_append_of_le_length (Nat.le_refl _), List.take_length] at htaken
      have hdrop : (buffer ++ piece).drop (head.length + separator.length) ++ pieces.flatten =
          rest := by
        have hdropped := congrArg (List.drop (head.length + separator.length)) hflatten
        rwa [List.drop_append_of_le_length hinside, ← List.length_append,
          List.drop_append_of_le_length (Nat.le_refl _), List.drop_length, List.nil_append,
          List.length_append] at hdropped
      simp only [htake]
      cases hhead : parseHead head with
      | error e => rfl
      | ok parsed =>
        obtain ⟨status, n⟩ := parsed
        have hn := hrest status n hhead
        have hpart : (((buffer ++ piece).drop (head.length + separator.length)).length : Int) ≤
            n := by
          have hpartLength := congrArg List.length hdrop
          rw [List.length_append] at hpartLength
          omega
        simp only [readBody_eq n _ pieces hpart, hdrop]
        by_cases hle : n ≤ rest.length
        · rw [if_pos hle, if_pos hle, List.take_of_length_le (by omega)]
        · rw [if_neg hle, if_neg hle]

/-- A connection that is closed before the header is. -/
theorem readHttpResponse_open {headerBytes : Nat} (buffer : List UInt8)
    (hnone : rangeOf separator (buffer ++ pieces.flatten) = none)
    (hfits : ¬ Overflows headerBytes buffer pieces)
    (hinside : (buffer ++ pieces.flatten).length < headerBytes) :
    readHttpResponse buffer pieces = .error .disconnected := by
  induction pieces generalizing buffer with
  | nil => rfl
  | cons piece pieces ih =>
    rw [List.flatten_cons, ← List.append_assoc] at hnone hinside
    have hlength := hinside
    rw [List.length_append] at hlength
    have hhere : rangeOf separator (buffer ++ piece) = none := by
      cases hfound : rangeOf separator (buffer ++ piece) with
      | none => rfl
      | some lower =>
        rw [rangeOf_append hfound pieces.flatten] at hnone
        cases hnone
    have hsize := not_overflows_piece hfits (by omega)
    rw [readHttpResponse]
    simp only [hhere]
    rw [if_neg (by omega)]
    exact ih (buffer ++ piece) hnone (fun hlater => hfits hlater.cons) hinside

/-- A header that goes on behind the limit is given up when the bytes behind it come before
its end. -/
theorem readHttpResponse_overflows
    (hsep : rangeOf separator (head ++ separator) = some head.length) :
    ∀ buffer, buffer.length ≤ maxHeaderBytes →
      buffer ++ pieces.flatten <+: head ++ separator ++ rest →
      Overflows (head.length + separator.length) buffer pieces →
      readHttpResponse buffer pieces = .error headerTooLong := by
  have hwhole := rangeOf_append hsep rest
  induction pieces with
  | nil =>
    rintro buffer hsize _ ⟨k, hlarge, -⟩
    rw [List.take_nil, List.flatten_nil, List.append_nil] at hlarge
    omega
  | cons piece pieces ih =>
    rintro buffer hsize hflatten ⟨k, hlarge, hinside⟩
    cases k with
    | zero =>
      rw [List.take_zero, List.flatten_nil, List.append_nil] at hlarge
      omega
    | succ k =>
      rw [List.take_succ_cons, List.flatten_cons, ← List.append_assoc] at hlarge hinside
      rw [List.flatten_cons, ← List.append_assoc] at hflatten
      have hlength := hinside
      rw [List.length_append] at hlength
      have hhere : rangeOf separator (buffer ++ piece) = none := by
        obtain ⟨more, hmore⟩ := (List.prefix_append (buffer ++ piece) pieces.flatten).trans hflatten
        have htake : buffer ++ piece =
            (head ++ separator ++ rest).take (buffer ++ piece).length := by
          rw [← hmore, List.take_left]
        rw [htake]
        exact rangeOf_take_eq_none hwhole (by omega)
      rw [readHttpResponse]
      simp only [hhere]
      by_cases hover : maxHeaderBytes < (buffer ++ piece).length
      · rw [if_pos hover]
      · rw [if_neg hover]
        exact ih (buffer ++ piece) (by omega) hflatten ⟨k, hlarge, hinside⟩

end Http
end App
end Panops
