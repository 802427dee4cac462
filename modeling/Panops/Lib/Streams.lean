/-!
# Readers of a stream that comes in pieces

A reader looks at a buffer, and either finds something at its start or asks for more.
When what it finds does not depend on what follows, what it reads from a stream does not
depend on where the stream is cut.
-/

namespace Panops
namespace Lib
namespace Streams

variable {σ β α ε φ : Type}

inductive Turn (σ β α ε : Type) where
  | more
  | failed (error : ε)
  /-- Something has been taken from the buffer that is not a result yet. -/
  | goesOn (state : σ) (rest : List β)
  | result (value : α) (rest : List β)

/-- The same turn with more in the buffer. -/
def Turn.append (more : List β) : Turn σ β α ε → Turn σ β α ε
  | .more => .more
  | .failed error => .failed error
  | .goesOn state rest => .goesOn state (rest ++ more)
  | .result value rest => .result value (rest ++ more)

/-- Where a frame in front of `rest` leads to a state or to a result. -/
def Turn.after (rest : List β) : σ ⊕ α → Turn σ β α ε
  | .inl state => .goesOn state rest
  | .inr value => .result value rest

theorem Turn.append_after (rest more : List β) (next : σ ⊕ α) :
    (Turn.after rest next : Turn σ β α ε).append more = Turn.after (rest ++ more) next := by
  cases next <;> rfl

/-- A function of the state and the buffer that makes progress, and that sticks to what
it has found. -/
structure Reader (σ β α ε : Type) where
  turn : σ → List β → Turn σ β α ε
  shrinks : ∀ s buffer s' rest, turn s buffer = .goesOn s' rest → rest.length < buffer.length
  stable : ∀ s buffer more, turn s buffer ≠ .more →
    turn s (buffer ++ more) = (turn s buffer).append more
  /-- What is said at the end of the stream. -/
  ended : ε

namespace Reader

section

variable (r : Reader σ β α ε)

/-- Until there is a result: with it, what is left of the buffer and of the pieces. -/
def read (s : σ) (buffer : List β) (pieces : List (List β)) :
    Except ε (α × List β × List (List β)) :=
  match _ : r.turn s buffer with
  | .failed error => .error error
  | .result value rest => .ok (value, rest, pieces)
  | .goesOn s' rest => read s' rest pieces
  | .more =>
    match pieces with
    | [] => .error r.ended
    | piece :: pieces => read s (buffer ++ piece) pieces
termination_by (pieces.length, buffer.length)
decreasing_by
  · exact Prod.Lex.right _ (r.shrinks s buffer s' rest ‹_›)
  · exact Prod.Lex.left _ _ (Nat.lt_succ_self _)

/-- At most `n` results, the first one from the state `s` and each later one from
`fresh`, until there is an error. -/
def results (fresh : σ) : Nat → σ → List β → List (List β) → List (Except ε α)
  | 0, _, _, _ => []
  | n + 1, s, buffer, pieces =>
    match r.read s buffer pieces with
    | .error error => [.error error]
    | .ok (value, rest, pieces) => .ok value :: results fresh n fresh rest pieces

end

variable {r : Reader σ β α ε} {s s' fresh : σ} {buffer rest : List β} {pieces : List (List β)}

/-! ## One turn -/

theorem read_failed {error : ε} (h : r.turn s buffer = .failed error) :
    r.read s buffer pieces = .error error := by
  rw [read.eq_def]
  split <;> simp_all

theorem read_result {value : α} (h : r.turn s buffer = .result value rest) :
    r.read s buffer pieces = .ok (value, rest, pieces) := by
  rw [read.eq_def]
  split <;> simp_all

theorem read_goesOn (h : r.turn s buffer = .goesOn s' rest) :
    r.read s buffer pieces = r.read s' rest pieces := by
  rw [read.eq_def]
  split <;> simp_all

theorem read_ended (h : r.turn s buffer = .more) : r.read s buffer [] = .error r.ended := by
  rw [read, h]

theorem read_more (h : r.turn s buffer = .more) {piece : List β} :
    r.read s buffer (piece :: pieces) = r.read s (buffer ++ piece) pieces := by
  rw [read, h]

/-! ## Where the stream is cut -/

/-- A result with all that has not been looked at. -/
def joined : Except ε (α × List β × List (List β)) → Except ε (α × List β)
  | .error error => .error error
  | .ok (value, rest, pieces) => .ok (value, rest ++ pieces.flatten)

theorem joined_read : joined (r.read s buffer pieces) =
    joined (r.read s (buffer ++ pieces.flatten) []) := by
  induction s, buffer, pieces using read.induct r with
  | case1 s buffer pieces error h =>
    have hjoined : r.turn s (buffer ++ pieces.flatten) = .failed error := by
      rw [r.stable s buffer _ (by rw [h]; nofun), h]
      rfl
    rw [read_failed h, read_failed hjoined]
  | case2 s buffer pieces value rest h =>
    have hjoined : r.turn s (buffer ++ pieces.flatten) = .result value (rest ++ pieces.flatten) := by
      rw [r.stable s buffer _ (by rw [h]; nofun), h]
      rfl
    rw [read_result h, read_result hjoined]
    simp [joined]
  | case3 s buffer pieces s' rest h ih =>
    have hjoined : r.turn s (buffer ++ pieces.flatten) = .goesOn s' (rest ++ pieces.flatten) := by
      rw [r.stable s buffer _ (by rw [h]; nofun), h]
      rfl
    rw [read_goesOn h, read_goesOn hjoined, ih]
  | case4 s buffer h => simp
  | case5 s buffer h piece pieces ih =>
    rw [read_more h, ih, List.flatten_cons, List.append_assoc]

theorem results_flatten (n : Nat) : r.results fresh n s buffer pieces =
    r.results fresh n s (buffer ++ pieces.flatten) [] := by
  induction n generalizing s buffer pieces with
  | zero => rfl
  | succ n ih =>
    have hjoined := @joined_read σ β α ε r s buffer pieces
    unfold results
    cases hread : r.read s buffer pieces with
    | error error =>
      cases hall : r.read s (buffer ++ pieces.flatten) [] with
      | error error' =>
        rw [hread, hall] at hjoined
        cases hjoined
        rfl
      | ok value =>
        rw [hread, hall] at hjoined
        cases hjoined
    | ok value =>
      obtain ⟨value, rest, left⟩ := value
      cases hall : r.read s (buffer ++ pieces.flatten) [] with
      | error error' =>
        rw [hread, hall] at hjoined
        cases hjoined
      | ok value' =>
        obtain ⟨value', rest', left'⟩ := value'
        rw [hread, hall] at hjoined
        simp only [joined, Except.ok.injEq, Prod.mk.injEq] at hjoined
        obtain ⟨hvalue, hrest⟩ := hjoined
        simp only [hvalue]
        rw [ih, @ih fresh rest' left', hrest]

/-! ## A stream of frames -/

/-- What the frames come to when each of them changes the state or ends a result. -/
def collect (act : σ → φ → σ ⊕ α) (fresh : σ) : σ → List φ → List α
  | _, [] => []
  | s, frame :: frames =>
    match act s frame with
    | .inl s' => collect act fresh s' frames
    | .inr value => value :: collect act fresh fresh frames

theorem collect_inl {act : σ → φ → σ ⊕ α} {frame : φ} {frames : List φ}
    (h : act s frame = .inl s') :
    collect act fresh s (frame :: frames) = collect act fresh s' frames := by
  rw [collect, h]

theorem collect_inr {act : σ → φ → σ ⊕ α} {frame : φ} {frames : List φ} {value : α}
    (h : act s frame = .inr value) :
    collect act fresh s (frame :: frames) = value :: collect act fresh fresh frames := by
  rw [collect, h]

/-- A stream of frames that are read one in a turn. -/
theorem results_frames {act : σ → φ → σ ⊕ α} {encode : φ → List β} {frames : List φ}
    (hact : ∀ s, ∀ frame ∈ frames, ∀ tail,
      r.turn s (encode frame ++ tail) = .after tail (act s frame))
    (hnil : ∀ s, r.turn s [] = .more) (hflatten : pieces.flatten = (frames.map encode).flatten)
    (n : Nat) : r.results fresh n s [] pieces =
      ((collect act fresh s frames).map Except.ok ++ [Except.error r.ended]).take n := by
  rw [results_flatten, List.nil_append, hflatten]
  clear hflatten
  induction frames generalizing s n with
  | nil =>
    cases n with
    | zero => rfl
    | succ n =>
      unfold results
      rw [show (List.map encode []).flatten = [] from rfl, read_ended (hnil s)]
      simp [collect]
  | cons frame frames ih =>
    replace ih := fun s n => @ih s (fun s frame h => hact s frame (List.mem_cons_of_mem _ h)) n
    cases n with
    | zero => rfl
    | succ n =>
      have hturn := hact s frame List.mem_cons_self (frames.map encode).flatten
      rw [List.map_cons, List.flatten_cons]
      cases hnext : act s frame with
      | inl s' =>
        rw [hnext] at hturn
        have hlater := ih s' (n + 1)
        unfold results at hlater ⊢
        rw [read_goesOn hturn, hlater, collect_inl hnext]
      | inr value =>
        rw [hnext] at hturn
        unfold results
        rw [read_result hturn, collect_inr hnext]
        simp only [List.map_cons, List.cons_append, List.take_succ_cons]
        rw [ih fresh n]

end Reader

end Streams
end Lib
end Panops
