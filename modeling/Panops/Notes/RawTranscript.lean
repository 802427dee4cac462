import Panops.Lib.Decimal
import Panops.Lib.TextLines
import Panops.Segment

/-!
# The raw transcript

`transcript.txt` has one line for each segment.  A reader of such lines gives back what
was written.
-/

namespace Panops

open Lib.Text Lib.Decimal

namespace RawTranscript

/-- A millisecond timestamp as `m:ss.mmm`. -/
def formatTs (ms : Nat) : List Char :=
  let totalS := ms / 1000
  let millis := ms % 1000
  let m := totalS / 60
  let s := totalS % 60
  digits m ++ (":".toList ++ (zeroPadded 2 s ++ (".".toList ++ zeroPadded 3 millis)))

/-- `replace(['\n', '\r'], " ")`. -/
def replaceBreaks (text : List Char) : List Char :=
  text.map fun c => if c = '\n' ∨ c = '\r' then ' ' else c

def speakerOf (id : Option UInt32) : List Char :=
  match id with
  | some id => "speaker_".toList ++ digits id.toNat
  | none => "unknown".toList

theorem speakerOf_none : speakerOf none = "unknown".toList := rfl

theorem speakerOf_some (id : UInt32) :
    speakerOf (some id) = "speaker_".toList ++ digits id.toNat := rfl

def langOf (seg : Segment) : String := seg.languageDetected.getD "und"

/-- What a segment adds to the file. -/
def rawLine (seg : Segment) : List Char :=
  let speaker := speakerOf seg.speakerId
  let lang := (langOf seg).toList
  let text := replaceBreaks seg.text.toList
  "[".toList ++ (formatTs seg.startMs ++ ("-".toList ++ (formatTs seg.endMs ++ ("] ".toList ++
    (speaker ++ (" (".toList ++ (lang ++ ("): ".toList ++ (trim text ++ "\n".toList)))))))))

def renderRawTranscript (segments : List Segment) : String :=
  String.ofList (segments.foldl (fun out seg => out ++ rawLine seg) [])

/-! ## Reading a line back -/

/-- What the file keeps of a segment. -/
structure RawRow where
  startMs : Nat
  endMs : Nat
  speaker : Option UInt32
  lang : List Char
  text : List Char
deriving DecidableEq

def RawRow.of (seg : Segment) : RawRow where
  startMs := seg.startMs
  endMs := seg.endMs
  speaker := seg.speakerId
  lang := (langOf seg).toList
  text := trim (replaceBreaks seg.text.toList)

def readNumber (s : List Char) : Nat × List Char :=
  (value (s.takeWhile Char.isDigit), s.dropWhile Char.isDigit)

def readTs (s : List Char) : Option (Nat × List Char) := do
  let m := readNumber s
  let rest ← stripPrefix ":".toList m.2
  let sec := readNumber rest
  let rest ← stripPrefix ".".toList sec.2
  let millis := readNumber rest
  some ((m.1 * 60 + sec.1) * 1000 + millis.1, millis.2)

def readSpeaker (s : List Char) : Option (Option UInt32 × List Char) :=
  match stripPrefix "speaker_".toList s with
  | some rest => some (some (UInt32.ofNat (readNumber rest).1), (readNumber rest).2)
  | none => (stripPrefix "unknown".toList s).map fun rest => (none, rest)

def readLine (line : List Char) : Option RawRow := do
  let rest ← stripPrefix "[".toList line
  let start ← readTs rest
  let rest ← stripPrefix "-".toList start.2
  let stop ← readTs rest
  let rest ← stripPrefix "] ".toList stop.2
  let speaker ← readSpeaker rest
  let rest ← stripPrefix " (".toList speaker.2
  let text ← stripPrefix "): ".toList (rest.dropWhile (· ≠ ')'))
  some
    { startMs := start.1
      endMs := stop.1
      speaker := speaker.1
      lang := rest.takeWhile (· ≠ ')')
      text := text }

/-- The lines of the file, each ended by a line feed. -/
def readRawTranscript (file : String) : Option (List RawRow) :=
  (file.toList.splitOn '\n').dropLast.mapM readLine

/-- A number in front of the text ends where the text begins. -/
def NoDigitHead (s : List Char) : Prop := ∀ c, s.head? = some c → c.isDigit = false

section Reading

variable {rest : List Char}

theorem stripPrefix_append (pat rest : List Char) : stripPrefix pat (pat ++ rest) = some rest :=
  stripPrefix_eq_some_iff.mpr rfl

theorem noDigitHead_cons {c : Char} (h : c.isDigit = false) : NoDigitHead (c :: rest) := by
  intro d hd
  obtain rfl : c = d := Option.some.inj hd
  exact h

theorem readNumber_append {ds : List Char} (hds : ∀ c ∈ ds, c.isDigit = true)
    (hrest : NoDigitHead rest) : readNumber (ds ++ rest) = (value ds, rest) := by
  have htake : (ds ++ rest).takeWhile Char.isDigit = ds := takeWhile_eq_of_maximal hds hrest
  have hdrop : (ds ++ rest).dropWhile Char.isDigit = rest := by
    have hsplit := List.takeWhile_append_dropWhile (p := Char.isDigit) (l := ds ++ rest)
    rw [htake] at hsplit
    exact List.append_cancel_left hsplit
  rw [readNumber, htake, hdrop]

theorem readNumber_digits (n : Nat) (hrest : NoDigitHead rest) :
    readNumber (digits n ++ rest) = (n, rest) := by
  rw [readNumber_append (fun c hc => isDigit_of_mem_digits hc) hrest, value_digits]

theorem readNumber_zeroPadded (width n : Nat) (hrest : NoDigitHead rest) :
    readNumber (zeroPadded width n ++ rest) = (n, rest) := by
  rw [readNumber_append (fun c hc => isDigit_of_mem_zeroPadded hc) hrest, value_zeroPadded]

/-- Minutes, seconds and milliseconds make up the time. -/
theorem readTs_append (ms : Nat) (hrest : NoDigitHead rest) :
    readTs (formatTs ms ++ rest) = some (ms, rest) := by
  have hms : (ms / 1000 / 60 * 60 + ms / 1000 % 60) * 1000 + ms % 1000 = ms := by omega
  have hcolon : NoDigitHead (":".toList ++ (zeroPadded 2 (ms / 1000 % 60) ++
      (".".toList ++ (zeroPadded 3 (ms % 1000) ++ rest)))) := noDigitHead_cons rfl
  have hpoint : NoDigitHead (".".toList ++ (zeroPadded 3 (ms % 1000) ++ rest)) :=
    noDigitHead_cons rfl
  simp only [readTs, formatTs, List.append_assoc, readNumber_digits _ hcolon, stripPrefix_append,
    Option.bind_eq_bind, Option.bind_some, readNumber_zeroPadded _ _ hpoint,
    readNumber_zeroPadded _ _ hrest, hms]

theorem readSpeaker_append (id : Option UInt32) (hrest : NoDigitHead rest) :
    readSpeaker (speakerOf id ++ rest) = some (id, rest) := by
  cases id with
  | none =>
    have hno : stripPrefix "speaker_".toList ("unknown".toList ++ rest) = none := by
      simp [stripPrefix]
    rw [speakerOf_none, readSpeaker, hno]
    simp only
    rw [stripPrefix_append]
    rfl
  | some id =>
    rw [speakerOf_some, readSpeaker, List.append_assoc, stripPrefix_append]
    simp only
    rw [readNumber_digits _ hrest, UInt32.ofNat_toNat]

end Reading

/-! ## One line for a segment -/

section Lines

variable {seg : Segment}

/-- A line of the file without the line feed. -/
def lineOf (seg : Segment) : List Char :=
  "[".toList ++ (formatTs seg.startMs ++ ("-".toList ++ (formatTs seg.endMs ++ ("] ".toList ++
    (speakerOf seg.speakerId ++ (" (".toList ++ ((langOf seg).toList ++ ("): ".toList ++
      trim (replaceBreaks seg.text.toList)))))))))

theorem rawLine_eq (seg : Segment) : rawLine seg = lineOf seg ++ ['\n'] := by
  simp only [rawLine, lineOf, List.append_assoc]
  rfl

/-- The closing bracket ends the language, the text is all that follows. -/
theorem readLine_lineOf (h : ')' ∉ (langOf seg).toList) :
    readLine (lineOf seg) = some (.of seg) := by
  have hlang : ∀ c ∈ (langOf seg).toList, decide (c ≠ ')') = true :=
    fun c hc => decide_eq_true fun heq => h (heq ▸ hc)
  have hspeaker : ∀ rest, NoDigitHead (" (".toList ++ rest) := fun _ => noDigitHead_cons rfl
  have hstart : ∀ rest, NoDigitHead ("-".toList ++ rest) := fun _ => noDigitHead_cons rfl
  have hstop : ∀ rest, NoDigitHead ("] ".toList ++ rest) := fun _ => noDigitHead_cons rfl
  have htake : ∀ rest, ((langOf seg).toList ++ ("): ".toList ++ rest)).takeWhile (· ≠ ')') =
      (langOf seg).toList := by
    intro rest
    refine takeWhile_eq_of_maximal hlang fun c hc => ?_
    obtain rfl : ')' = c := Option.some.inj hc
    rfl
  have hdrop : ∀ rest, ((langOf seg).toList ++ ("): ".toList ++ rest)).dropWhile (· ≠ ')') =
      "): ".toList ++ rest := by
    intro rest
    have hsplit := List.takeWhile_append_dropWhile (p := (· ≠ ')'))
      (l := (langOf seg).toList ++ ("): ".toList ++ rest))
    rw [htake] at hsplit
    exact List.append_cancel_left hsplit
  simp only [readLine, lineOf, stripPrefix_append, Option.bind_eq_bind, Option.bind_some,
    readTs_append _ (hstart _), readTs_append _ (hstop _), readSpeaker_append _ (hspeaker _),
    htake, hdrop]
  rfl

theorem newline_not_mem_digits (n : Nat) : '\n' ∉ digits n :=
  fun h => absurd (isDigit_of_mem_digits h) (by decide)

theorem newline_not_mem_zeroPadded (width n : Nat) : '\n' ∉ zeroPadded width n :=
  fun h => absurd (isDigit_of_mem_zeroPadded h) (by decide)

theorem newline_not_mem_formatTs (ms : Nat) : '\n' ∉ formatTs ms := by
  simp [formatTs, newline_not_mem_digits, newline_not_mem_zeroPadded]

theorem newline_not_mem_speakerOf (id : Option UInt32) : '\n' ∉ speakerOf id := by
  cases id with
  | none => decide
  | some id =>
    rw [speakerOf_some, List.mem_append, not_or]
    exact ⟨by decide, newline_not_mem_digits id.toNat⟩

theorem newline_not_mem_replaceBreaks (text : List Char) : '\n' ∉ replaceBreaks text := by
  intro h
  obtain ⟨c, -, hc⟩ := List.mem_map.mp h
  by_cases hbreak : c = '\n' ∨ c = '\r'
  · rw [if_pos hbreak] at hc
    exact absurd hc (by decide)
  · rw [if_neg hbreak] at hc
    exact hbreak (.inl hc)

theorem newline_not_mem_lineOf (h : '\n' ∉ (langOf seg).toList) : '\n' ∉ lineOf seg := by
  have htext : '\n' ∉ trim (replaceBreaks seg.text.toList) := by
    obtain ⟨before, after, hsplit, -, -⟩ := exists_eq_append_trim (replaceBreaks seg.text.toList)
    intro hmem
    apply newline_not_mem_replaceBreaks seg.text.toList
    rw [hsplit]
    exact List.mem_append_left _ (List.mem_append_right _ hmem)
  simp [lineOf, newline_not_mem_formatTs, newline_not_mem_speakerOf, h, htext]

theorem toList_renderRawTranscript (segments : List Segment) :
    (renderRawTranscript segments).toList = unlines (segments.map lineOf) := by
  have hfold : ∀ (segs : List Segment) (out : List Char),
      segs.foldl (fun out seg => out ++ rawLine seg) out = out ++ unlines (segs.map lineOf) := by
    intro segs
    induction segs with
    | nil => exact fun out => (List.append_nil out).symm
    | cons seg segs ih =>
      intro out
      rw [List.foldl_cons, ih, rawLine_eq, List.map_cons, unlines_cons, List.append_assoc,
        List.append_assoc]
  rw [renderRawTranscript, String.toList_ofList, hfold, List.nil_append]

end Lines

/-- The languages for which a line can be read. -/
def CleanLanguages (segments : List Segment) : Prop :=
  ∀ seg ∈ segments, ∀ lang, seg.languageDetected = some lang →
    '\n' ∉ lang.toList ∧ ')' ∉ lang.toList

theorem CleanLanguages.langOf {segments : List Segment} (h : CleanLanguages segments)
    {seg : Segment} (hseg : seg ∈ segments) :
    '\n' ∉ (langOf seg).toList ∧ ')' ∉ (langOf seg).toList := by
  cases hlang : seg.languageDetected with
  | none =>
    rw [RawTranscript.langOf, hlang]
    decide
  | some lang =>
    rw [RawTranscript.langOf, hlang]
    exact h seg hseg lang hlang

theorem mapM_readLine {segments : List Segment} (h : CleanLanguages segments) :
    (segments.map lineOf).mapM readLine = some (segments.map .of) := by
  induction segments with
  | nil => rfl
  | cons seg segs ih =>
    have hseg := readLine_lineOf (h.langOf List.mem_cons_self).2
    have hsegs := ih fun s hs => h s (List.mem_cons_of_mem seg hs)
    rw [List.map_cons, List.mapM_cons, hseg, hsegs]
    rfl

theorem lines_renderRawTranscript {segments : List Segment} (h : CleanLanguages segments) :
    (renderRawTranscript segments).toList.splitOn '\n' = segments.map lineOf ++ [[]] := by
  have hlines : ∀ l ∈ segments.map lineOf, '\n' ∉ l := by
    intro l hl
    obtain ⟨seg, hseg, rfl⟩ := List.mem_map.mp hl
    exact newline_not_mem_lineOf (h.langOf hseg).1
  have hsplit := splitOn_unlines hlines []
  rw [List.append_nil] at hsplit
  rw [toList_renderRawTranscript, hsplit]
  rfl

theorem readRawTranscript_render {segments : List Segment} (h : CleanLanguages segments) :
    readRawTranscript (renderRawTranscript segments) = some (segments.map .of) := by
  rw [readRawTranscript, lines_renderRawTranscript h, List.dropLast_concat, mapM_readLine h]

/-- One line for each segment, in order, and the rows can be read back: the rendering
determines them. -/
theorem renderRawTranscript_spec (segments : List Segment) (h : CleanLanguages segments) :
    (renderRawTranscript segments).toList.splitOn '\n' = segments.map lineOf ++ [[]] ∧
      (∀ seg ∈ segments, readLine (lineOf seg) = some (.of seg)) ∧
      readRawTranscript (renderRawTranscript segments) = some (segments.map .of) ∧
      ∀ others, CleanLanguages others →
        renderRawTranscript others = renderRawTranscript segments →
        others.map RawRow.of = segments.map RawRow.of := by
  refine ⟨lines_renderRawTranscript h, fun seg hseg => readLine_lineOf (h.langOf hseg).2,
    readRawTranscript_render h, fun others hothers heq => ?_⟩
  have hread := readRawTranscript_render hothers
  rw [heq, readRawTranscript_render h] at hread
  exact (Option.some.inj hread).symm

/-- A text with the shape of a line of the file, after a line break. -/
def lineLike : Segment :=
  { startMs := 61005, endMs := 70000, text := "so\n[0:00.000-0:01.000] unknown (en): yes ",
    languageDetected := some "e(n", confidence := .finite 1, speakerId := some 4 }

theorem renderRawTranscript_spec_lineLike :
    readRawTranscript (renderRawTranscript [lineLike]) = some [.of lineLike] := by
  have hclean : CleanLanguages [lineLike] := by
    intro seg hseg lang hlang
    obtain rfl := List.mem_singleton.mp hseg
    obtain rfl : "e(n" = lang := Option.some.inj hlang
    decide
  exact (renderRawTranscript_spec [lineLike] hclean).2.2.1

end RawTranscript
end Panops
