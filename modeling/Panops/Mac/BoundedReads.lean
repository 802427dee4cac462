import Panops.Mac.Sidecar

/-!
# Two bounded reads of a line

`FoundationLlm` reads a response with a loop of its own over a pipe that does not block,
`WhisperKitAsr` with `take` and `read_until`.  The loop takes every fill of the buffer
whole before it looks at the limit, so that it stops at the limit only where a fill ends
there.
-/

namespace Panops
namespace Mac

open Lib.Lines

/-- Nothing fails, and what is waited for comes before the deadline. -/
def InTime : Arrival → Prop
  | .bytes _ _ => True
  | .interrupted => True
  | .wouldBlock wait => wait = none
  | .failed _ => False

/-- How many bytes there are when the fills end, the one that is already buffered first. -/
def fillEnds (n : Nat) (buffered : List UInt8) : List Arrival → List Nat
  | [] => [n + buffered.length]
  | arrival :: rest =>
    (n + buffered.length) :: fillEnds (n + buffered.length) arrival.content rest

/-- The newline check of `send_request`. -/
def Accepted (buf : List UInt8) : Prop := buf.length ≠ 0 ∧ buf.getLast? = some newline

/-- Both reads return, with the same bytes and the same decision, and the loop has no
more than the limit in its buffer, which only grows until it returns. -/
def Agree (r r' : BufReader) : Prop :=
  ∃ out out' rest rest', readResponseLine [] r.buffered r.arrivals = (.ok out, rest) ∧
    readBlocking r' = (.ok out', rest') ∧ out = out' ∧ (Accepted out ↔ Accepted out') ∧
    out.length ≤ MAX_RESPONSE_BYTES

variable {n e : Nat} {buf buffered out : List UInt8} {arrivals : List Arrival} {r r' : BufReader}

theorem le_of_mem_fillEnds (h : e ∈ fillEnds n buffered arrivals) : n + buffered.length ≤ e := by
  induction arrivals generalizing n buffered with
  | nil =>
    rw [fillEnds, List.mem_singleton] at h
    omega
  | cons arrival rest ih =>
    rcases List.mem_cons.mp h with rfl | h
    · exact Nat.le_refl _
    · have hrest := ih h
      omega

/-- The next turn of the loop, when the buffer is used up. -/
theorem readResponseLine_next {arrival : Arrival} {rest : List Arrival} (hnone : newline ∉ buffered)
    (hbuf : newline ∉ buf) (hshort : (buf ++ buffered).length < MAX_RESPONSE_BYTES)
    (h : InTime arrival) :
    readResponseLine buf buffered (arrival :: rest) =
      readResponseLine (buf ++ buffered) arrival.content rest := by
  have hlast : (buf ++ buffered).getLast? ≠ some newline := fun hlast =>
    absurd (List.mem_of_getLast? hlast) (by simp [hbuf, hnone])
  have hgo : ¬(buffered ≠ [] ∧ (MAX_RESPONSE_BYTES ≤ (buf ++ buffered).length ∨
      (buf ++ buffered).getLast? = some newline)) := by
    rintro ⟨-, hfull | hline⟩
    · omega
    · exact hlast hline
  simp only [readResponseLine, upToNewline_of_not_mem hnone, if_neg hgo]
  cases arrival with
  | bytes first more => rfl
  | interrupted => rfl
  | wouldBlock wait =>
    obtain rfl : wait = none := h
    rfl
  | failed e => exact absurd h id

/-- What the loop returns: the first line where that fits, and otherwise something of the
limit's length exactly when a fill ends there. -/
def Returns (buf buffered : List UInt8) (arrivals : List Arrival) (out : List UInt8) : Prop :=
  (upToNewline (buf ++ (BufReader.mk buffered arrivals).content) = out ∧
      out.length ≤ MAX_RESPONSE_BYTES) ∨
    MAX_RESPONSE_BYTES < (upToNewline (buf ++ (BufReader.mk buffered arrivals).content)).length ∧
      (out.length = MAX_RESPONSE_BYTES ↔
        MAX_RESPONSE_BYTES ∈ fillEnds buf.length buffered arrivals)

/-- The fill holds the end of the line. -/
theorem returns_line (hbuf : newline ∉ buf) (h : newline ∈ buffered ∨ arrivals = []) :
    Returns buf buffered arrivals (buf ++ upToNewline buffered) := by
  have hline : upToNewline (buf ++ (BufReader.mk buffered arrivals).content) =
      buf ++ upToNewline buffered := by
    rw [upToNewline_append hbuf, BufReader.content]
    rcases h with hmem | rfl
    · have hsplit := upToNewline_append_drop buffered
      have hfirst := upToNewline_line_append (isLine_upToNewline hmem)
        (buffered.drop (upToNewline buffered).length ++ arrivals.flatMap Arrival.content)
      rw [← List.append_assoc, hsplit] at hfirst
      rw [hfirst]
    · rw [List.flatMap_nil, List.append_nil]
  have hlength : (buf ++ upToNewline buffered).length ≤ buf.length + buffered.length := by
    have hsplit := congrArg List.length (upToNewline_append_drop buffered)
    rw [List.length_append] at hsplit ⊢
    omega
  unfold Returns
  rw [hline]
  rcases Nat.lt_or_ge MAX_RESPONSE_BYTES (buf ++ upToNewline buffered).length with hlong | hfits
  · refine Or.inr ⟨hlong, fun heq => absurd heq (by omega), fun hmem => ?_⟩
    have hends := le_of_mem_fillEnds hmem
    omega
  · exact Or.inl ⟨rfl, hfits⟩

/-- The fill reaches the limit without a newline. -/
theorem returns_full (hbuf : newline ∉ buf) (hnone : newline ∉ buffered)
    (hfull : MAX_RESPONSE_BYTES ≤ (buf ++ buffered).length) :
    Returns buf buffered arrivals (buf ++ buffered) := by
  have hline : upToNewline (buf ++ (BufReader.mk buffered arrivals).content) =
      buf ++ buffered ++ upToNewline (arrivals.flatMap Arrival.content) := by
    rw [upToNewline_append hbuf, BufReader.content, upToNewline_append hnone, List.append_assoc]
  have hfront : (buf ++ buffered).length = buf.length + buffered.length := List.length_append
  unfold Returns
  rw [hline]
  rcases Nat.lt_or_ge MAX_RESPONSE_BYTES (buf ++ buffered ++
      upToNewline (arrivals.flatMap Arrival.content)).length with hlong | hfits
  · refine Or.inr ⟨hlong, fun heq => ?_, fun hmem => ?_⟩
    · rw [← heq, hfront]
      cases arrivals with
      | nil => exact List.mem_singleton_self _
      | cons arrival rest => exact List.mem_cons_self ..
    · have hends := le_of_mem_fillEnds hmem
      omega
  · rw [List.length_append] at hfits
    have hempty : upToNewline (arrivals.flatMap Arrival.content) = [] :=
      List.eq_nil_of_length_eq_zero (by omega)
    rw [hempty, List.append_nil]
    exact Or.inl ⟨rfl, by omega⟩

theorem readResponseLine_spec (hbuf : newline ∉ buf) (hshort : buf.length < MAX_RESPONSE_BYTES)
    (h : ∀ a ∈ arrivals, InTime a) :
    ∃ out rest, readResponseLine buf buffered arrivals = (.ok out, rest) ∧
      Returns buf buffered arrivals out := by
  induction arrivals generalizing buf buffered with
  | nil => exact ⟨_, _, rfl, returns_line hbuf (.inr rfl)⟩
  | cons arrival rest ih =>
    by_cases hmem : newline ∈ buffered
    · obtain ⟨body, -, hbody⟩ := isLine_upToNewline hmem
      have hstop : buffered ≠ [] ∧ (MAX_RESPONSE_BYTES ≤ (buf ++ upToNewline buffered).length ∨
          (buf ++ upToNewline buffered).getLast? = some newline) :=
        ⟨List.ne_nil_of_mem hmem, .inr (by simp [hbody])⟩
      exact ⟨_, ⟨buffered.drop (upToNewline buffered).length, arrival :: rest⟩,
        by simp only [readResponseLine, if_pos hstop], returns_line hbuf (.inl hmem)⟩
    · rcases Nat.lt_or_ge (buf ++ buffered).length MAX_RESPONSE_BYTES with hmore | hfull
      · have hbuf' : newline ∉ buf ++ buffered := by simp [hbuf, hmem]
        obtain ⟨out, r, hread, hreturns⟩ := @ih (buf ++ buffered) arrival.content hbuf' hmore
          fun a ha => h a (List.mem_cons_of_mem _ ha)
        refine ⟨out, r, ?_, ?_⟩
        · rw [readResponseLine_next hmem hbuf hmore (h arrival (List.mem_cons_self ..))]
          exact hread
        · have hends : MAX_RESPONSE_BYTES ∈ fillEnds buf.length buffered (arrival :: rest) ↔
              MAX_RESPONSE_BYTES ∈ fillEnds (buf ++ buffered).length arrival.content rest := by
            rw [fillEnds, List.mem_cons, ← List.length_append]
            exact or_iff_right (by omega)
          have hcontent : buf ++ (BufReader.mk buffered (arrival :: rest)).content =
              buf ++ buffered ++ (BufReader.mk arrival.content rest).content := by
            simp only [BufReader.content, List.flatMap_cons, List.append_assoc]
          unfold Returns
          rw [hends, hcontent]
          exact hreturns
      · have hne : buffered ≠ [] := by
          rintro rfl
          rw [List.append_nil] at hfull
          omega
        have hstop : buffered ≠ [] ∧ (MAX_RESPONSE_BYTES ≤ (buf ++ buffered).length ∨
            (buf ++ buffered).getLast? = some newline) := ⟨hne, .inl hfull⟩
        refine ⟨buf ++ buffered, ⟨buffered.drop buffered.length, arrival :: rest⟩, ?_,
          returns_full hbuf hmem hfull⟩
        simp only [readResponseLine, upToNewline_of_not_mem hmem, if_pos hstop]

/-! ## When the two agree -/

theorem readBlocking_eq (h : ∀ a ∈ r.arrivals, a.Blocking) :
    ∃ rest, readBlocking r = (.ok ((upToNewline r.content).take MAX_RESPONSE_BYTES), rest) := by
  obtain ⟨rest, hread⟩ := @readUntil_eq MAX_RESPONSE_BYTES [] r.buffered r.arrivals h
  exact ⟨rest, hread⟩

/-- The loop has read the bytes that `take` and `read_until` return, or more than those. -/
theorem readResponseLine_iff (hr : ∀ a ∈ r.arrivals, InTime a) :
    ∃ out rest, readResponseLine [] r.buffered r.arrivals = (.ok out, rest) ∧
      (out = (upToNewline r.content).take MAX_RESPONSE_BYTES ↔
        (upToNewline r.content).length ≤ MAX_RESPONSE_BYTES ∨
          MAX_RESPONSE_BYTES ∈ fillEnds 0 r.buffered r.arrivals) := by
  obtain ⟨out, rest, hread, hreturns⟩ :=
    @readResponseLine_spec [] r.buffered r.arrivals (by simp) (by decide) hr
  have htook := readResponseLine_ok (by simp) hread
  refine ⟨out, rest, hread, ?_⟩
  rcases hreturns with ⟨hline, hfits⟩ | ⟨hlong, hlength⟩
  · have hwhole : upToNewline r.content = out := hline
    rw [hwhole, List.take_of_length_le hfits]
    exact ⟨fun _ => .inl hfits, fun _ => rfl⟩
  · have hover : MAX_RESPONSE_BYTES < (upToNewline r.content).length := hlong
    rw [List.length_nil] at hlength
    rw [or_iff_right (by omega), ← hlength]
    constructor
    · rintro rfl
      rw [List.length_take, Nat.min_eq_left (by omega)]
    · intro hout
      have hfront : out <+: upToNewline r.content := htook.isPrefix
      rw [← hout]
      exact List.prefix_iff_eq_take.mp hfront

theorem fits_of_agree (hr : ∀ a ∈ r.arrivals, InTime a) (hr' : ∀ a ∈ r'.arrivals, a.Blocking)
    (hcontent : r'.content = r.content) (h : Agree r r') :
    (upToNewline r.content).length ≤ MAX_RESPONSE_BYTES ∨
      MAX_RESPONSE_BYTES ∈ fillEnds 0 r.buffered r.arrivals := by
  obtain ⟨out, rest, hread, hiff⟩ := readResponseLine_iff hr
  obtain ⟨rest', hread'⟩ := readBlocking_eq hr'
  obtain ⟨out₁, out₂, _, _, hread₁, hread₂, heq, -, -⟩ := h
  rw [hread] at hread₁
  rw [hread', hcontent] at hread₂
  have hout : out = out₁ := Except.ok.inj (Prod.mk.inj hread₁).1
  have hout' : (upToNewline r.content).take MAX_RESPONSE_BYTES = out₂ :=
    Except.ok.inj (Prod.mk.inj hread₂).1
  exact hiff.mp (hout.trans (heq.trans hout'.symm))

/-- On one stream, however its bytes come to either side, the two reads agree exactly when
the first line fits into the limit or a fill of the loop's buffer ends there. -/
theorem agree_iff (hr : ∀ a ∈ r.arrivals, InTime a) (hr' : ∀ a ∈ r'.arrivals, a.Blocking)
    (hcontent : r'.content = r.content) :
    Agree r r' ↔ (upToNewline r.content).length ≤ MAX_RESPONSE_BYTES ∨
      MAX_RESPONSE_BYTES ∈ fillEnds 0 r.buffered r.arrivals := by
  constructor
  · exact fits_of_agree hr hr' hcontent
  · intro hfits
    obtain ⟨out, rest, hread, hiff⟩ := readResponseLine_iff hr
    obtain ⟨rest', hread'⟩ := readBlocking_eq hr'
    have heq := hiff.mpr hfits
    rw [hcontent, ← heq] at hread'
    refine ⟨out, out, rest, rest', hread, hread', rfl, Iff.rfl, ?_⟩
    rw [heq, List.length_take]
    omega

/-- A response in two pieces, with a wait between them. -/
theorem agree_iff_short :
    Agree ⟨[], [.bytes 97 [], .wouldBlock none, .bytes 10 []]⟩ ⟨[], [.bytes 97 [10]]⟩ :=
  (@agree_iff ⟨[], [.bytes 97 [], .wouldBlock none, .bytes 10 []]⟩ ⟨[], [.bytes 97 [10]]⟩
    (by simp [InTime]) (by simp [Arrival.Blocking]) rfl).mpr (.inl (by decide))

/-! ## A fill over the limit -/

/-- All fills but the first have so many bytes. -/
theorem mod_of_mem_fillEnds {c : Nat} (h : ∀ a ∈ arrivals, a.content.length = c)
    (he : e ∈ fillEnds n buffered arrivals) : e % c = (n + buffered.length) % c := by
  induction arrivals generalizing n buffered with
  | nil => rw [List.mem_singleton.mp he]
  | cons arrival rest ih =>
    rcases List.mem_cons.mp he with rfl | he
    · rfl
    · rw [ih (fun a ha => h a (List.mem_cons_of_mem _ ha)) he, h arrival (List.mem_cons_self ..),
        Nat.add_mod_right]

/-- Fills of one byte, over and over. -/
theorem content_replicate (k c : Nat) (x : UInt8) :
    (List.replicate k (Arrival.bytes x (List.replicate c x))).flatMap Arrival.content =
      List.replicate (k * (c + 1)) x := by
  have hfill : (Arrival.bytes x (List.replicate c x)).content = List.replicate (c + 1) x :=
    List.replicate_succ.symm
  rw [List.flatMap_def, List.map_replicate, hfill, List.flatten_replicate_replicate]

/-- A fill of one byte, full buffers of 8 KiB, and a last one whose newline is the first
byte over the limit. -/
def straddling : BufReader where
  buffered := []
  arrivals := .bytes 97 [] :: (List.replicate 2047 (.bytes 97 (List.replicate 8191 97)) ++
    [.bytes 97 (List.replicate 8190 97 ++ [newline])])

theorem straddling_content :
    straddling.content = List.replicate MAX_RESPONSE_BYTES 97 ++ [newline] := by
  have hlast : (Arrival.bytes 97 (List.replicate 8190 97 ++ [newline])).content =
      List.replicate 8191 97 ++ [newline] := by
    show 97 :: List.replicate 8190 97 ++ [newline] = _
    rw [← List.replicate_succ]
  have hone : (Arrival.bytes 97 []).content = List.replicate 1 97 := rfl
  have hlimit : MAX_RESPONSE_BYTES = 1 + 2047 * (8191 + 1) + 8191 := rfl
  rw [BufReader.content, straddling, List.nil_append, List.flatMap_cons, List.flatMap_append,
    content_replicate, List.flatMap_singleton, hlast, hone, hlimit, ← List.append_assoc,
    ← List.append_assoc, List.replicate_append_replicate, List.replicate_append_replicate]

/-- Every read of the pipe brings something. -/
theorem straddling_arrivals : ∀ a ∈ straddling.arrivals, ∃ first more, a = .bytes first more := by
  intro a ha
  rcases List.mem_cons.mp ha with rfl | ha
  · exact ⟨_, _, rfl⟩
  · rcases List.mem_append.mp ha with ha | ha
    · exact ⟨_, _, List.eq_of_mem_replicate ha⟩
    · exact ⟨_, _, List.mem_singleton.mp ha⟩

/-- The loop reads a line that the other read cuts off at its limit. -/
theorem not_agree_straddling : ¬Agree straddling straddling := by
  have hblocking : ∀ a ∈ straddling.arrivals, a.Blocking := fun a ha => by
    obtain ⟨first, more, rfl⟩ := straddling_arrivals a ha
    trivial
  have hinTime : ∀ a ∈ straddling.arrivals, InTime a := fun a ha => by
    obtain ⟨first, more, rfl⟩ := straddling_arrivals a ha
    trivial
  intro h
  rcases fits_of_agree hinTime hblocking rfl h with hfits | hend
  · have hline : upToNewline straddling.content =
        List.replicate MAX_RESPONSE_BYTES 97 ++ [newline] := by
      have hnone : newline ∉ List.replicate MAX_RESPONSE_BYTES 97 := fun hmem =>
        absurd (List.eq_of_mem_replicate hmem) (by decide)
      rw [straddling_content, upToNewline_append hnone]
      rfl
    rw [hline, List.length_append, List.length_replicate, List.length_singleton] at hfits
    omega
  · rcases List.mem_cons.mp hend with hzero | hend
    · exact absurd hzero (by decide)
    · have hfull : ∀ a ∈ List.replicate 2047 (Arrival.bytes 97 (List.replicate 8191 97)) ++
          [.bytes 97 (List.replicate 8190 97 ++ [newline])], a.content.length = 8192 := by
        intro a ha
        rcases List.mem_append.mp ha with ha | ha
        · rw [List.eq_of_mem_replicate ha, Arrival.content, List.length_cons,
            List.length_replicate]
        · rw [List.mem_singleton.mp ha, Arrival.content, List.length_cons, List.length_append,
            List.length_replicate, List.length_singleton]
      exact absurd (mod_of_mem_fillEnds hfull hend) (by decide)

end Mac
end Panops
