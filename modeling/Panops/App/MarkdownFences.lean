import Panops.App.MarkdownText
import Panops.Lib.Fences
import Panops.Lib.Search

/-!
# Fenced code

`Markdown.fencedCodeRanges`: the parts of a text between a line that begins with a
fence marker and the next one that begins with the same marker, both included.  A
fence that is not closed runs to the end.
-/

namespace Panops
namespace Markdown

open Lib.Text
open Lib.Fences
open Lib.Search

def fenceMarkers : List (List Char) := ["```".toList, "~~~".toList]

/-- The marker that a trimmed line begins with. -/
def fenceMarker (trimmed : List Char) : Option (List Char) :=
  fenceMarkers.find? fun marker => marker.isPrefixOf trimmed

def markerOf (line : List Char) : Option (List Char) := fenceMarker (trimOf isSpace line)

/-- The loop over the lines from `lineStart` on; `opened` is where the open fence began
and its marker. -/
def fencedFrom (total : Nat) :
    Nat → Option (Nat × List Char) → List (List Char) → List Span
  | _, some (start, _), [] => [⟨start, total⟩]
  | _, none, [] => []
  | lineStart, some (start, marker), line :: lines =>
    let lineEnd := lineStart + line.length
    if marker.isPrefixOf (trimOf isSpace line) then
      ⟨start, if lineEnd < total then lineEnd + 1 else total⟩ ::
        fencedFrom total (lineEnd + 1) none lines
    else fencedFrom total (lineEnd + 1) (some (start, marker)) lines
  | lineStart, none, line :: lines =>
    let lineEnd := lineStart + line.length
    match markerOf line with
    | some marker => fencedFrom total (lineEnd + 1) (some (lineStart, marker)) lines
    | none => fencedFrom total (lineEnd + 1) none lines

def fencedCodeRanges (text : List Char) : List Span :=
  fencedFrom text.length 0 none (text.splitOn '\n')

def inFence (fenced : List Span) (pos : Nat) : Bool :=
  fenced.any fun range => decide (range.lower ≤ pos) && decide (pos < range.upper)

/-! ## Markers -/

section Markers

variable {s front rest line marker trimmed : List Char}

theorem fenceMarker_eq (trimmed : List Char) :
    fenceMarker trimmed =
      if "```".toList.isPrefixOf trimmed then some "```".toList
      else if "~~~".toList.isPrefixOf trimmed then some "~~~".toList else none := by
  rw [fenceMarker, fenceMarkers, List.find?_cons, List.find?_cons]
  split <;> split <;> simp_all

/-- No line begins with both markers. -/
theorem not_isPrefixOf_backticks (h : "~~~".toList.isPrefixOf trimmed = true) :
    "```".toList.isPrefixOf trimmed = false := by
  obtain ⟨rest, rfl⟩ := List.isPrefixOf_iff_prefix.mp h
  rfl

theorem fenceMarker_eq_some_iff (h : marker ∈ fenceMarkers) :
    fenceMarker trimmed = some marker ↔ marker.isPrefixOf trimmed = true := by
  rw [fenceMarker_eq]
  rcases List.mem_cons.mp h with rfl | h
  · split
    · next hback => exact iff_of_true rfl hback
    · next hback =>
      refine iff_of_false (fun heq => ?_) hback
      split at heq <;> cases heq
  · obtain rfl := List.mem_singleton.mp h
    split
    · next hback =>
      refine iff_of_false (fun heq => by cases heq) fun htilde => ?_
      rw [not_isPrefixOf_backticks htilde] at hback
      cases hback
    · split
      · next htilde => exact iff_of_true rfl htilde
      · next htilde => exact iff_of_false (fun heq => by cases heq) htilde

theorem ne_nil_of_mem_fenceMarkers (h : marker ∈ fenceMarkers) : marker ≠ [] := by
  rcases List.mem_cons.mp h with rfl | h
  · decide
  · obtain rfl := List.mem_singleton.mp h
    decide

theorem isSpace_of_mem_marker (h : marker ∈ fenceMarkers) : ∀ c ∈ marker, isSpace c = false := by
  have hall : fenceMarkers.all (fun marker => marker.all fun c => !isSpace c) = true := by decide
  intro c hc
  have hmarker := List.all_eq_true.mp (List.all_eq_true.mp hall marker h) c hc
  rwa [Bool.not_eq_true'] at hmarker

theorem mem_fenceMarkers_of_fenceMarker (h : fenceMarker trimmed = some marker) :
    marker ∈ fenceMarkers := List.mem_of_find?_eq_some h

/-- Trimming the end leaves what the line begins with. -/
theorem prefix_trimOf_iff (h : marker ∈ fenceMarkers) :
    marker <+: trimOf isSpace s ↔ marker <+: s.dropWhile isSpace := by
  constructor
  · intro hprefix
    refine hprefix.trans ?_
    rw [trimOf, ← List.reverse_suffix, List.reverse_reverse]
    exact List.dropWhile_suffix _
  · rintro ⟨rest, hrest⟩
    have hback : marker.reverse.dropWhile isSpace = marker.reverse := by
      cases hmarker : marker.reverse with
      | nil => rfl
      | cons c cs =>
        have hc : c ∈ marker := List.mem_reverse.mp (hmarker ▸ List.mem_cons_self)
        exact List.dropWhile_cons_of_neg (by simp [isSpace_of_mem_marker h c hc])
    rw [trimOf, ← hrest, List.reverse_append, List.dropWhile_append]
    split
    · simp only [hback, List.reverse_reverse, List.prefix_rfl]
    · rw [List.reverse_append, List.reverse_reverse]
      exact List.prefix_append _ _

/-- A part of a line without a marker begins with none. -/
theorem markerOf_of_append (front rest : List Char) (h : markerOf (front ++ rest) = none) :
    markerOf front = none := by
  by_contra hne
  obtain ⟨marker, hmarker⟩ := Option.ne_none_iff_exists'.mp hne
  have hmem := mem_fenceMarkers_of_fenceMarker hmarker
  have hfront := (prefix_trimOf_iff hmem).mp
    (List.isPrefixOf_iff_prefix.mp ((fenceMarker_eq_some_iff hmem).mp hmarker))
  have hsome : (front.dropWhile isSpace).isEmpty = false := by
    rw [List.isEmpty_eq_false_iff]
    exact hfront.ne_nil (ne_nil_of_mem_fenceMarkers hmem)
  have hall : marker <+: (front ++ rest).dropWhile isSpace := by
    rw [List.dropWhile_append, hsome]
    exact hfront.trans (List.prefix_append _ _)
  have hwhole := (fenceMarker_eq_some_iff hmem).mpr
    (List.isPrefixOf_iff_prefix.mpr ((prefix_trimOf_iff hmem).mpr hall))
  rw [markerOf, hwhole] at h
  cases h

end Markers

/-! ## Ranges and lines -/

section Ranges

variable {total lineStart pos start : Nat} {opened : Option (Nat × List Char)}
variable {line marker text : List Char} {lines : List (List Char)}

theorem inFence_cons (range : Span) (fenced : List Span) (pos : Nat) :
    inFence (range :: fenced) pos = true ↔
      (range.lower ≤ pos ∧ pos < range.upper) ∨ inFence fenced pos = true := by
  simp [inFence]

/-- What is open behind a line. -/
def nextOpen (lineStart : Nat) : Option (Nat × List Char) → Option (List Char) →
    Option (Nat × List Char)
  | none, mark => mark.map fun marker => (lineStart, marker)
  | some (start, marker), mark => if mark = some marker then none else some (start, marker)

/-- An open fence has one of the markers and began before the line. -/
def OpenedBefore (lineStart : Nat) (opened : Option (Nat × List Char)) : Prop :=
  ∀ start marker, opened = some (start, marker) → start ≤ lineStart ∧ marker ∈ fenceMarkers

theorem fencedFrom_marked (hmem : marker ∈ fenceMarkers) (h : markerOf line = some marker) :
    fencedFrom total lineStart (some (start, marker)) (line :: lines) =
      ⟨start, if lineStart + line.length < total then lineStart + line.length + 1 else total⟩ ::
        fencedFrom total (lineStart + line.length + 1) none lines :=
  if_pos ((fenceMarker_eq_some_iff hmem).mp h)

theorem fencedFrom_unmarked (hmem : marker ∈ fenceMarkers) (h : markerOf line ≠ some marker) :
    fencedFrom total lineStart (some (start, marker)) (line :: lines) =
      fencedFrom total (lineStart + line.length + 1) (some (start, marker)) lines :=
  if_neg fun hprefix => h ((fenceMarker_eq_some_iff hmem).mpr hprefix)

theorem fencedFrom_none :
    fencedFrom total lineStart none (line :: lines) =
      fencedFrom total (lineStart + line.length + 1) (nextOpen lineStart none (markerOf line))
        lines := by
  rw [fencedFrom]
  cases markerOf line with
  | none => rfl
  | some marker => rfl

theorem snd_nextOpen (mark : Option (List Char)) :
    (nextOpen lineStart opened mark).map Prod.snd = next (opened.map Prod.snd) mark := by
  cases opened with
  | none => cases mark <;> rfl
  | some o =>
    unfold nextOpen next
    simp only [Option.map_some]
    split <;> rfl

theorem OpenedBefore.next (h : OpenedBefore lineStart opened) (line : List Char) :
    OpenedBefore (lineStart + line.length + 1) (nextOpen lineStart opened (markerOf line)) := by
  intro start marker hopen
  cases opened with
  | none =>
    obtain ⟨m, hm, heq⟩ := Option.map_eq_some_iff.mp hopen
    cases heq
    exact ⟨by omega, mem_fenceMarkers_of_fenceMarker hm⟩
  | some o =>
    have hsame : nextOpen lineStart (some o) (markerOf line) =
        if markerOf line = some o.2 then none else some o := rfl
    rw [hsame] at hopen
    split at hopen
    · cases hopen
    · obtain ⟨hstart, hmem⟩ := h start marker hopen
      exact ⟨by omega, hmem⟩

/-- No range begins before the open fence, or before the line when none is open. -/
theorem not_inFence_before (h : OpenedBefore lineStart opened)
    (hpos : pos < opened.elim lineStart Prod.fst) :
    inFence (fencedFrom total lineStart opened lines) pos = false := by
  induction lines generalizing lineStart opened with
  | nil =>
    cases opened with
    | none => rfl
    | some o =>
      have hlow : pos < o.1 := hpos
      simp [fencedFrom, inFence, hlow]
  | cons line lines ih =>
    have hnext := h.next line
    cases opened with
    | none =>
      rw [fencedFrom_none]
      refine ih hnext ?_
      have hlow : pos < lineStart := hpos
      cases markerOf line with
      | none =>
        show pos < lineStart + line.length + 1
        omega
      | some marker => exact hlow
    | some o =>
      obtain ⟨start, marker⟩ := o
      obtain ⟨hstart, hmem⟩ := h start marker rfl
      have hlow : pos < start := hpos
      by_cases hmark : markerOf line = some marker
      · rw [nextOpen, if_pos hmark] at hnext
        have hrest := ih hnext (show pos < lineStart + line.length + 1 by omega)
        rw [fencedFrom_marked hmem hmark, ← Bool.not_eq_true, inFence_cons, hrest]
        rintro (⟨hfrom, -⟩ | hfalse)
        · exact absurd hfrom (Nat.not_le_of_lt hlow)
        · cases hfalse
      · rw [nextOpen, if_neg hmark] at hnext
        rw [fencedFrom_unmarked hmem hmark]
        exact ih hnext hlow

/-- An open fence reaches at least to the line that is looked at. -/
theorem inFence_of_open (hmem : marker ∈ fenceMarkers) (hstart : start ≤ pos)
    (hpos : pos < lineStart) (htotal : pos < total) :
    inFence (fencedFrom total lineStart (some (start, marker)) lines) pos = true := by
  induction lines generalizing lineStart with
  | nil => simp [fencedFrom, inFence, hstart, htotal]
  | cons line lines ih =>
    by_cases hmark : markerOf line = some marker
    · rw [fencedFrom_marked hmem hmark, inFence_cons]
      refine .inl ⟨hstart, ?_⟩
      show pos < if lineStart + line.length < total then _ else _
      split <;> omega
    · rw [fencedFrom_unmarked hmem hmark]
      exact ih (by omega)

theorem inFence_line (h : OpenedBefore lineStart opened) (hfrom : lineStart ≤ pos)
    (hto : pos ≤ lineStart + line.length) (htotal : pos < total) :
    inFence (fencedFrom total lineStart opened (line :: lines)) pos =
      covered (opened.map Prod.snd) (markerOf line) := by
  have hnext := h.next line
  cases opened with
  | none =>
    rw [fencedFrom_none]
    cases hmark : markerOf line with
    | none => exact not_inFence_before (hmark ▸ hnext) (Nat.lt_succ_of_le hto)
    | some marker =>
      exact inFence_of_open (mem_fenceMarkers_of_fenceMarker hmark) hfrom (by omega) htotal
  | some o =>
    obtain ⟨start, marker⟩ := o
    obtain ⟨hstart, hmem⟩ := h start marker rfl
    show _ = true
    by_cases hmark : markerOf line = some marker
    · rw [fencedFrom_marked hmem hmark, inFence_cons]
      refine .inl ⟨Nat.le_trans hstart hfrom, ?_⟩
      show pos < if lineStart + line.length < total then _ else _
      split <;> omega
    · rw [fencedFrom_unmarked hmem hmark]
      exact inFence_of_open hmem (Nat.le_trans hstart hfrom) (by omega) htotal

theorem inFence_later (h : OpenedBefore lineStart opened)
    (hpos : lineStart + line.length < pos) :
    inFence (fencedFrom total lineStart opened (line :: lines)) pos =
      inFence (fencedFrom total (lineStart + line.length + 1)
        (nextOpen lineStart opened (markerOf line)) lines) pos := by
  cases opened with
  | none => rw [fencedFrom_none]
  | some o =>
    obtain ⟨start, marker⟩ := o
    obtain ⟨hstart, hmem⟩ := h start marker rfl
    by_cases hmark : markerOf line = some marker
    · rw [nextOpen, if_pos hmark, fencedFrom_marked hmem hmark, Bool.eq_iff_iff, inFence_cons]
      refine or_iff_right fun hrange => ?_
      have hupper : pos < if lineStart + line.length < total then _ else _ := hrange.2
      split at hupper <;> omega
    · rw [nextOpen, if_neg hmark, fencedFrom_unmarked hmem hmark]

/-- By induction on the lines, from any of them on. -/
theorem inFence_fencedFrom (lines : List (List Char)) :
    ∀ (rest : List Char) (lineStart : Nat) (opened : Option (Nat × List Char)),
      rest.splitOn '\n' = lines → OpenedBefore lineStart opened → lineStart ≤ pos →
      pos < lineStart + rest.length →
      (coverage (opened.map Prod.snd) (lines.map markerOf))[lineNumber '\n' rest
          (pos - lineStart)]? =
        some (inFence (fencedFrom (lineStart + rest.length) lineStart opened lines) pos) := by
  induction lines with
  | nil => exact fun rest _ _ hlines => absurd hlines (List.splitOn_ne_nil '\n' rest)
  | cons line lines ih =>
    intro rest lineStart opened hlines hopen hfrom hto
    rcases splitOn_cases '\n' rest with ⟨hmem, hsingle⟩ | ⟨first, later, rfl, hmem, hcons⟩
    · rw [hlines] at hsingle
      cases hsingle
      have hcount : lineNumber '\n' line (pos - lineStart) = 0 :=
        List.count_eq_zero.mpr fun h => hmem (List.mem_of_mem_take h)
      rw [hcount, inFence_line hopen hfrom (Nat.le_of_lt hto) hto]
      rfl
    · rw [hlines] at hcons
      obtain ⟨rfl, hrest⟩ := List.cons.inj hcons
      rw [List.length_append, List.length_cons] at hto ⊢
      by_cases hline : pos ≤ lineStart + line.length
      · have hcount : lineNumber '\n' (line ++ '\n' :: later) (pos - lineStart) = 0 := by
          rw [lineNumber, List.take_append_of_le_length (by omega)]
          exact List.count_eq_zero.mpr fun h => hmem (List.mem_of_mem_take h)
        rw [hcount, inFence_line hopen hfrom hline hto]
        rfl
      · have hcount : lineNumber '\n' (line ++ '\n' :: later) (pos - lineStart) =
            lineNumber '\n' later (pos - (lineStart + line.length + 1)) + 1 := by
          have hskip : pos - lineStart =
              line.length + (pos - (lineStart + line.length + 1) + 1) := by omega
          rw [lineNumber, hskip, List.take_length_add_append, List.take_succ_cons,
            List.count_append, List.count_cons_self, List.count_eq_zero.mpr hmem, Nat.zero_add]
          rfl
        have htotal : lineStart + (line.length + (later.length + 1)) =
            lineStart + line.length + 1 + later.length := by omega
        rw [hcount, inFence_later hopen (by omega), htotal]
        have hlater := ih later (lineStart + line.length + 1) _ hrest.symm (hopen.next line)
          (by omega) (by omega)
        rw [snd_nextOpen] at hlater
        exact hlater

/-- A position is in a range when its line belongs to a block. -/
theorem blocks_eq_inFence (h : pos < text.length) :
    (blocks '\n' markerOf text)[lineNumber '\n' text pos]? =
      some (inFence (fencedCodeRanges text) pos) := by
  have hranges := inFence_fencedFrom (text.splitOn '\n') text 0 none rfl
    (fun _ _ hopen => by cases hopen) (Nat.zero_le pos) (by omega)
  rw [Nat.zero_add] at hranges
  exact hranges

theorem outside_iff (h : pos < text.length) :
    Outside '\n' markerOf text pos ↔ inFence (fencedCodeRanges text) pos = false := by
  rw [Outside, blocks_eq_inFence h, Option.some.injEq]

end Ranges

end Markdown
end Panops
