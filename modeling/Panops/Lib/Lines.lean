import Mathlib.Data.List.Basic

/-!
# Lines of a byte stream

A stream that is read line by line through a buffer.  What arrives, arrives in
pieces of any size; a reader that has returned a line has taken exactly that line
from the stream.
-/

namespace Panops
namespace Lib
namespace Lines

def newline : UInt8 := 10

/-- A line with its newline. -/
def IsLine (l : List UInt8) : Prop := ∃ body, newline ∉ body ∧ l = body ++ [newline]

/-- The complete lines of a stream, each with its newline. -/
def lines : List UInt8 → List (List UInt8)
  | [] => []
  | b :: rest =>
    if b = newline then [b] :: lines rest
    else
      match lines rest with
      | [] => []
      | l :: ls => (b :: l) :: ls

theorem lines_append {l : List UInt8} (h : IsLine l) (rest : List UInt8) :
    lines (l ++ rest) = l :: lines rest := by
  obtain ⟨body, hbody, rfl⟩ := h
  induction body with
  | nil => simp [lines]
  | cons b body ih =>
    have hb : b ≠ newline := fun hb => hbody (by simp [hb])
    have hrest : newline ∉ body := fun hmem => hbody (List.mem_cons_of_mem _ hmem)
    show lines (b :: (body ++ [newline] ++ rest)) = _
    rw [lines, if_neg hb, ih hrest]
    rfl

theorem lines_flatten_append {ls : List (List UInt8)} (h : ∀ l ∈ ls, IsLine l)
    (rest : List UInt8) : lines (ls.flatten ++ rest) = ls ++ lines rest := by
  induction ls with
  | nil => rfl
  | cons l ls ih =>
    rw [List.flatten_cons, List.append_assoc, lines_append (h l List.mem_cons_self),
      ih fun l hl => h l (List.mem_cons_of_mem _ hl)]
    rfl

theorem isLine_of_getLast {l : List UInt8} (h : newline ∉ l ∨ IsLine l)
    (hlast : l.getLast? = some newline) : IsLine l := by
  rcases h with hnone | hline
  · exact absurd (List.mem_of_getLast? hlast) hnone
  · exact hline

/-- The first line of what is there, or all of it. -/
def upToNewline : List UInt8 → List UInt8
  | [] => []
  | b :: rest => if b = newline then [b] else b :: upToNewline rest

@[simp] theorem upToNewline_nil : upToNewline [] = [] := rfl

theorem upToNewline_cons (b : UInt8) (rest : List UInt8) :
    upToNewline (b :: rest) = if b = newline then [b] else b :: upToNewline rest := rfl

theorem upToNewline_append_drop (l : List UInt8) :
    upToNewline l ++ l.drop (upToNewline l).length = l := by
  induction l with
  | nil => rfl
  | cons b rest ih =>
    by_cases hb : b = newline
    · simp [upToNewline_cons, hb]
    · simpa [upToNewline_cons, hb] using ih

theorem upToNewline_of_not_mem {l : List UInt8} (h : newline ∉ l) : upToNewline l = l := by
  induction l with
  | nil => rfl
  | cons b rest ih =>
    have hb : b ≠ newline := fun hb => h (by simp [hb])
    rw [upToNewline_cons, if_neg hb, ih fun hmem => h (List.mem_cons_of_mem _ hmem)]

theorem isLine_upToNewline {l : List UInt8} (h : newline ∈ l) : IsLine (upToNewline l) := by
  induction l with
  | nil => cases h
  | cons b rest ih =>
    by_cases hb : b = newline
    · exact ⟨[], by simp, by simp [upToNewline_cons, hb]⟩
    · have hrest : newline ∈ rest := by
        rcases List.mem_cons.mp h with heq | hmem
        · exact absurd heq.symm hb
        · exact hmem
      obtain ⟨body, hbody, hline⟩ := ih hrest
      refine ⟨b :: body, ?_, by simp [upToNewline_cons, hb, hline]⟩
      simp only [List.mem_cons, not_or]
      exact ⟨fun heq => hb heq.symm, hbody⟩

theorem isLine_append {buf line : List UInt8} (hbuf : newline ∉ buf) (hline : IsLine line) :
    IsLine (buf ++ line) := by
  obtain ⟨body, hbody, rfl⟩ := hline
  refine ⟨buf ++ body, ?_, (List.append_assoc ..).symm⟩
  simp only [List.mem_append, not_or]
  exact ⟨hbuf, hbody⟩

theorem upToNewline_append {l : List UInt8} (h : newline ∉ l) (rest : List UInt8) :
    upToNewline (l ++ rest) = l ++ upToNewline rest := by
  induction l with
  | nil => rfl
  | cons b l ih =>
    have hb : b ≠ newline := fun hb => h (by simp [hb])
    rw [List.cons_append, upToNewline_cons, if_neg hb,
      ih fun hmem => h (List.mem_cons_of_mem _ hmem)]
    rfl

theorem upToNewline_line_append {l : List UInt8} (h : IsLine l) (rest : List UInt8) :
    upToNewline (l ++ rest) = l := by
  obtain ⟨body, hbody, rfl⟩ := h
  rw [List.append_assoc, upToNewline_append hbody]
  simp [upToNewline_cons]

theorem upToNewline_take (n : Nat) (l : List UInt8) :
    upToNewline (l.take n) = (upToNewline l).take n := by
  induction l generalizing n with
  | nil => simp
  | cons b rest ih =>
    cases n with
    | zero => simp
    | succ n =>
      by_cases hb : b = newline
      · simp [upToNewline_cons, hb]
      · simp [upToNewline_cons, hb, ih]

/-! ## Buffered reading -/

inductive ReadError where
  | timedOut
  | other (message : String)
deriving DecidableEq

/-- What one `read` of the pipe comes to.  One that would block is followed by a
wait, which ends when there is something to read or with an error. -/
inductive Arrival where
  | bytes (first : UInt8) (more : List UInt8)
  | interrupted
  | wouldBlock (wait : Option ReadError)
  | failed (e : ReadError)

def Arrival.content : Arrival → List UInt8
  | .bytes first more => first :: more
  | _ => []

/-- What has been read ahead, and what is still to arrive before the end of the
stream. -/
structure BufReader where
  buffered : List UInt8
  arrivals : List Arrival

def BufReader.content (r : BufReader) : List UInt8 :=
  r.buffered ++ r.arrivals.flatMap Arrival.content

/-- A read that succeeded: `out` is taken from the front of the stream, and goes
no further than the first newline. -/
def Took (stream out : List UInt8) (r : BufReader) : Prop :=
  out ++ r.content = stream ∧ (newline ∉ out ∨ IsLine out)

theorem Took.isPrefix {stream out : List UInt8} {r : BufReader} (h : Took stream out r) :
    out <+: upToNewline stream := by
  obtain ⟨rfl, hnone | hline⟩ := h
  · rw [upToNewline_append hnone]
    exact List.prefix_append _ _
  · exact (upToNewline_line_append hline _).symm ▸ List.prefix_refl out

theorem took_upToNewline {buf : List UInt8} (hbuf : newline ∉ buf) (buffered available : List UInt8)
    (arrivals : List Arrival) (h : ∃ rest, buffered = available ++ rest) :
    Took (buf ++ (BufReader.mk buffered arrivals).content) (buf ++ upToNewline available)
      ⟨buffered.drop (upToNewline available).length, arrivals⟩ := by
  obtain ⟨rest, rfl⟩ := h
  constructor
  · have hlength : (upToNewline available).length ≤ available.length := by
      have hsplit := congrArg List.length (upToNewline_append_drop available)
      rw [List.length_append] at hsplit
      omega
    simp only [BufReader.content]
    rw [List.drop_append_of_le_length hlength, List.append_assoc, List.append_assoc,
      ← List.append_assoc (upToNewline available), upToNewline_append_drop, List.append_assoc]
  · by_cases hmem : newline ∈ available
    · exact Or.inr (isLine_append hbuf (isLine_upToNewline hmem))
    · rw [upToNewline_of_not_mem hmem]
      exact Or.inl (by simp [hbuf, hmem])

/-- `take(limit).read_until(b'\n', buf)`. -/
def readUntil (limit : Nat) (buf buffered : List UInt8) :
    List Arrival → Except ReadError (List UInt8) × BufReader
  | [] =>
    let line := upToNewline (buffered.take limit)
    (.ok (buf ++ line), ⟨buffered.drop line.length, []⟩)
  | arrival :: rest =>
    let line := upToNewline (buffered.take limit)
    if newline ∈ buffered.take limit ∨ limit ≤ buffered.length then
      (.ok (buf ++ line), ⟨buffered.drop line.length, arrival :: rest⟩)
    else
      match arrival with
      | .bytes first more => readUntil (limit - line.length) (buf ++ line) (first :: more) rest
      | .interrupted => readUntil (limit - line.length) (buf ++ line) [] rest
      | .wouldBlock _ => (.error (.other "Resource temporarily unavailable"), ⟨[], rest⟩)
      | .failed e => (.error e, ⟨[], rest⟩)

theorem readUntil_ok {limit : Nat} {buf buffered out : List UInt8} {arrivals : List Arrival}
    {r : BufReader} (hbuf : newline ∉ buf)
    (h : readUntil limit buf buffered arrivals = (.ok out, r)) :
    Took (buf ++ (BufReader.mk buffered arrivals).content) out r := by
  have hhere : ∀ limit (buf buffered : List UInt8) arrivals, newline ∉ buf →
      Took (buf ++ (BufReader.mk buffered arrivals).content)
        (buf ++ upToNewline (buffered.take limit))
        ⟨buffered.drop (upToNewline (buffered.take limit)).length, arrivals⟩ := by
    intro limit buf buffered arrivals hbuf
    exact took_upToNewline hbuf _ _ _ ⟨_, (List.take_append_drop limit buffered).symm⟩
  induction arrivals generalizing limit buf buffered with
  | nil =>
    simp only [readUntil, Prod.mk.injEq, Except.ok.injEq] at h
    obtain ⟨rfl, rfl⟩ := h
    exact hhere limit buf buffered [] hbuf
  | cons arrival rest ih =>
    simp only [readUntil] at h
    split at h
    · simp only [Prod.mk.injEq, Except.ok.injEq] at h
      obtain ⟨rfl, rfl⟩ := h
      exact hhere limit buf buffered (arrival :: rest) hbuf
    · rename_i hmore
      obtain ⟨hnone, hshort⟩ := not_or.mp hmore
      -- The buffer is used up without a newline.
      have htake : buffered.take limit = buffered := List.take_of_length_le (by omega)
      rw [htake] at hnone h
      rw [upToNewline_of_not_mem hnone] at h
      have hbuf' : newline ∉ buf ++ buffered := by simp [hbuf, hnone]
      cases arrival with
      | bytes first more =>
        have htook := ih hbuf' h
        simpa [Took, BufReader.content, Arrival.content] using htook
      | interrupted =>
        have htook := ih hbuf' h
        simpa [Took, BufReader.content, Arrival.content] using htook
      | wouldBlock wait => cases h
      | failed e => cases h

/-- The reads of a blocking pipe that does not fail. -/
def Arrival.Blocking : Arrival → Prop
  | .bytes _ _ => True
  | .interrupted => True
  | .wouldBlock _ => False
  | .failed _ => False

/-- However the bytes arrive, the first line is read, and no more of it than the limit. -/
theorem readUntil_eq {limit : Nat} {buf buffered : List UInt8} {arrivals : List Arrival}
    (h : ∀ a ∈ arrivals, a.Blocking) :
    ∃ r, readUntil limit buf buffered arrivals =
      (.ok (buf ++ (upToNewline (BufReader.mk buffered arrivals).content).take limit), r) := by
  induction arrivals generalizing limit buf buffered with
  | nil =>
    refine ⟨⟨buffered.drop (upToNewline (buffered.take limit)).length, []⟩, ?_⟩
    simp [readUntil, BufReader.content, upToNewline_take]
  | cons arrival rest ih =>
    have hrest := fun a ha => h a (List.mem_cons_of_mem _ ha)
    simp only [readUntil]
    split
    · next hstop =>
      have hwhole : (upToNewline (BufReader.mk buffered (arrival :: rest)).content).take limit =
          upToNewline (buffered.take limit) := by
        rw [← upToNewline_take, BufReader.content]
        rcases hstop with hmem | hfull
        · have hline := upToNewline_append_drop (buffered.take limit)
          rw [List.take_append, ← hline, List.append_assoc,
            upToNewline_line_append (isLine_upToNewline hmem),
            upToNewline_line_append (isLine_upToNewline hmem)]
        · rw [List.take_append_of_le_length hfull]
      exact ⟨_, by rw [hwhole]⟩
    · next hmore =>
      obtain ⟨hnone, hshort⟩ := not_or.mp hmore
      have htake : buffered.take limit = buffered := List.take_of_length_le (by omega)
      rw [htake] at hnone ⊢
      have hline : upToNewline (BufReader.mk buffered (arrival :: rest)).content =
          buffered ++ upToNewline (BufReader.mk arrival.content rest).content := by
        rw [BufReader.content, List.flatMap_cons, upToNewline_append hnone]
        rfl
      have hlimit : (buf ++ buffered) ++ (upToNewline
          (BufReader.mk arrival.content rest).content).take (limit - buffered.length) =
          buf ++ (upToNewline (BufReader.mk buffered (arrival :: rest)).content).take limit := by
        have hall : buffered.take limit = buffered := List.take_of_length_le (by omega)
        rw [hline, List.take_append, hall, List.append_assoc]
      rw [← hlimit, upToNewline_of_not_mem hnone]
      cases arrival with
      | bytes first more => exact ih hrest
      | interrupted => exact ih hrest
      | wouldBlock wait => exact absurd (h _ (List.mem_cons_self ..)) id
      | failed e => exact absurd (h _ (List.mem_cons_self ..)) id

end Lines
end Lib
end Panops
