import Panops.App.MarkdownText
import Panops.Export.Assets
import Panops.Export.YamlReading

/-!
# The frame around the notes

What the exporter writes in front of the sections, and what the app displays of the
file.
-/

namespace Panops

open Lib Lib.Text Lib.Decimal Markdown

namespace MarkdownExporter

/-! ## One line each -/

/-- No break that the app splits a text at or rewrites. -/
def OneLine (s : List Char) : Prop := ∀ c ∈ s, c ≠ '\n' ∧ c ≠ '\r'

instance (s : List Char) : Decidable (OneLine s) :=
  List.decidableBAll (fun c => c ≠ '\n' ∧ c ≠ '\r') s

theorem OneLine.append {s t : List Char} (hs : OneLine s) (ht : OneLine t) : OneLine (s ++ t) :=
  List.forall_mem_append.mpr ⟨hs, ht⟩

theorem oneLine_hex : ∀ n < 128, OneLine (padLeft '0' 4 (Nat.toDigits 16 n)) := by
  decide +kernel

theorem oneLine_yamlEscape (c : Char) : OneLine (yamlEscape c) := by
  rcases yamlEscape_cases c with ⟨d, hmem, hc⟩ | ⟨hsmall, hc⟩ | ⟨hc, hshort, _, _⟩
  · have hall : shortEscapes.all (fun pair => OneLine ['\\', pair.2]) = true := by decide
    exact hc ▸ of_decide_eq_true (List.all_eq_true.mp hall (c, d) hmem)
  · rw [hc]
    exact OneLine.append (by decide) (oneLine_hex c.toNat hsmall)
  · have hline : c ≠ '\n' := fun h => hshort 'n' (by rw [h]; decide)
    have hreturn : c ≠ '\r' := fun h => hshort 'r' (by rw [h]; decide)
    intro d hd
    rw [hc] at hd
    rw [List.mem_singleton.mp hd]
    exact ⟨hline, hreturn⟩

theorem oneLine_yamlScalar (s : String) : OneLine (yamlScalar s).toList := by
  by_cases hsafe : isSafePlainScalar s = true
  · rw [yamlScalar, if_pos hsafe]
    simp only [isSafePlainScalar, Bool.and_eq_true] at hsafe
    obtain ⟨c, rest, hs, _, hchars, _⟩ := matchesPlainPattern_cases hsafe.1.1
    intro d hd
    have hd := hchars d (hs ▸ hd)
    constructor
    · rintro rfl
      cases hd
    · rintro rfl
      cases hd
  · have hquote : OneLine ['"'] := by decide
    rw [yamlScalar, if_neg hsafe, String.toList_ofList]
    refine (hquote.append ?_).append hquote
    intro d hd
    obtain ⟨c, _, hd⟩ := List.mem_flatMap.mp hd
    exact oneLine_yamlEscape c d hd

theorem oneLine_elementsText (items : List String) : OneLine (elementsText items) := by
  have hclose : OneLine [']'] := by decide
  have hcomma : OneLine [',', ' '] := by decide
  induction items with
  | nil => exact hclose
  | cons s items ih =>
    cases items with
    | nil => exact (oneLine_yamlScalar s).append hclose
    | cons t items => exact (oneLine_yamlScalar s).append (hcomma.append ih)

theorem oneLine_digits (n : Nat) : OneLine (digits n) := by
  intro c hc
  have hdigit := isDigit_of_mem_digits hc
  constructor
  · rintro rfl
    cases hdigit
  · rintro rfl
    cases hdigit

/-! ## The frontmatter by its lines -/

/-- The lines of `yamlBlock`. -/
def blockLines (key : String) (items : List String) : List String :=
  if items.isEmpty then [key ++ ": []"]
  else (key ++ ":") :: items.map fun item => "  - " ++ yamlScalar item

/-- The lines between the fences. -/
def frontmatterLines (notes : StructuredNotes) : List String :=
  let fm := notes.frontmatter
  ["title: " ++ yamlScalar fm.title, "date: " ++ fm.date,
      "started_at: " ++ fm.startedAt.rfc3339,
      "duration_ms: " ++ String.ofList (digits fm.durationMs),
      "languages: " ++ yamlList fm.languages] ++
    blockLines "speakers" (fm.speakers.map humanizeSpeakerId) ++ blockLines "tags" fm.tags ++
    ["template: " ++ yamlScalar fm.template, "dialect: " ++ fm.dialect.asStr,
      "panops_version: " ++ yamlScalar fm.panopsVersion] ++
    match fm.sourceAudio with
    | some p => ["source_audio: " ++ yamlScalar p.display]
    | none => []

theorem yamlBlock_eq (key : String) (items : List String) :
    (yamlBlock key items).toList = unlines ((blockLines key items).map String.toList) := by
  cases items with
  | nil => simp [yamlBlock, blockLines, unlines]
  | cons item items =>
    simp [yamlBlock, blockLines, unlines, List.flatMap_map, String.toList_join]

theorem renderFrontmatter_eq (notes : StructuredNotes) :
    (renderFrontmatter notes).toList =
      unlines (fence :: (frontmatterLines notes).map String.toList) ++ unlines [fence] := by
  have hspeakers := yamlBlock_eq "speakers" (notes.frontmatter.speakers.map humanizeSpeakerId)
  have htags := yamlBlock_eq "tags" notes.frontmatter.tags
  have hline : "\n".toList = ['\n'] := rfl
  have hfence : "---\n".toList = fence ++ ['\n'] := rfl
  have hempty : "".toList = [] := rfl
  unfold renderFrontmatter frontmatterLines
  cases hsource : notes.frontmatter.sourceAudio with
  | none =>
    simp only [hsource, String.toList_append, hspeakers, htags, hline, hfence, hempty, unlines_append,
      unlines_cons, unlines_nil, List.map_append, List.map_cons, List.map_nil, List.append_assoc,
      List.append_nil]
  | some p =>
    simp only [hsource, String.toList_append, hspeakers, htags, hline, hfence, unlines_append,
      unlines_cons, unlines_nil, List.map_append, List.map_cons, List.map_nil, List.append_assoc,
      List.append_nil]

/-- What chrono's formats of a date and a time are made of. -/
def IsStamp (s : String) : Prop :=
  ∀ c ∈ s.toList, c.isDigit = true ∨ c ∈ ['+', '-', ':', '.', 'T', 'Z']

instance (s : String) : Decidable (IsStamp s) :=
  List.decidableBAll (fun c : Char => c.isDigit = true ∨ c ∈ ['+', '-', ':', '.', 'T', 'Z']) s.toList

theorem IsStamp.oneLine {s : String} (h : IsStamp s) : OneLine s.toList := by
  intro c hc
  constructor
  · rintro rfl
    exact absurd (h _ hc) (by decide)
  · rintro rfl
    exact absurd (h _ hc) (by decide)

/-! ## No line of it is a fence -/

theorem isWhiteSpace_of_isSpace {c : Char} (h : isSpace c = true) : isWhiteSpace c = true := by
  simp only [isSpace, isWhiteSpace, Bool.or_eq_true, Bool.and_eq_true, decide_eq_true_eq,
    beq_iff_eq] at h ⊢
  rcases h with ((((((h | h) | h) | h) | h) | h) | h) | h <;> simp [h]

/-- What begins a word of the frontmatter. -/
def IsWordStart (c : Char) : Prop := c = '"' ∨ c.isAlpha = true

instance (c : Char) : Decidable (IsWordStart c) :=
  inferInstanceAs (Decidable (c = '"' ∨ c.isAlpha = true))

theorem isSpace_of_isWordStart {c : Char} (h : IsWordStart c) : isSpace c = false := by
  rcases h with rfl | halpha
  · decide
  · by_contra hne
    have hspace := isWhiteSpace_of_isSpace (Bool.eq_true_of_not_eq_false hne)
    have halnum := isAlphanum_eq_false_of_isWhiteSpace hspace
    simp [Char.isAlphanum, halpha] at halnum

/-- A line that the app takes for one line and for no fence. -/
structure IsContent (line : List Char) : Prop where
  oneLine : OneLine line
  word : ∃ c ∈ line, IsWordStart c

theorem IsContent.not_isFence {line : List Char} (h : IsContent line) : isFence line = false := by
  obtain ⟨c, hc, hword⟩ := h.word
  refine isFence_of_mem hc (isSpace_of_isWordStart hword) ?_
  rintro rfl
  exact absurd hword (by decide)

/-- A key is on one line and has a letter. -/
def IsKey (key : String) : Prop :=
  OneLine key.toList ∧ key.toList.any Char.isAlpha = true

instance (key : String) : Decidable (IsKey key) :=
  inferInstanceAs (Decidable (OneLine key.toList ∧ key.toList.any Char.isAlpha = true))

theorem isContent_append {key rest : String} (hkey : IsKey key) (hrest : OneLine rest.toList) :
    IsContent (key ++ rest).toList := by
  rw [String.toList_append]
  obtain ⟨c, hc, halpha⟩ := List.any_eq_true.mp hkey.2
  exact ⟨hkey.1.append hrest, c, List.mem_append_left _ hc, Or.inr halpha⟩

theorem isContent_item (item : String) : IsContent ("  - " ++ yamlScalar item).toList := by
  rw [String.toList_append]
  obtain ⟨c, rest, hs, hfirst⟩ := yamlScalar_cons item
  refine ⟨OneLine.append (by decide) (oneLine_yamlScalar item), c, ?_, hfirst⟩
  exact List.mem_append_right _ (hs ▸ List.mem_cons_self)

theorem isContent_blockLines {key : String} (hkey : IsKey key) (items : List String) :
    ∀ line ∈ blockLines key items, IsContent line.toList := by
  intro line hline
  cases items with
  | nil =>
    rw [List.mem_singleton.mp hline]
    exact isContent_append hkey (by decide)
  | cons item items =>
    rcases List.mem_cons.mp hline with rfl | hline
    · exact isContent_append hkey (by decide)
    · obtain ⟨item, _, rfl⟩ := List.mem_map.mp hline
      exact isContent_item item

theorem isContent_frontmatterLines {notes : StructuredNotes}
    (hdate : IsStamp notes.frontmatter.date)
    (hstarted : IsStamp notes.frontmatter.startedAt.rfc3339) :
    ∀ line ∈ frontmatterLines notes, IsContent line.toList := by
  have hlist : OneLine (yamlList notes.frontmatter.languages).toList := by
    rw [yamlList_eq]
    exact OneLine.append (s := ['[']) (by decide) (oneLine_elementsText _)
  have hdigits : OneLine (String.ofList (digits notes.frontmatter.durationMs)).toList := by
    rw [String.toList_ofList]
    exact oneLine_digits _
  have hdialect : OneLine notes.frontmatter.dialect.asStr.toList := by
    cases notes.frontmatter.dialect <;> decide
  have hfirst : ∀ line ∈ ["title: " ++ yamlScalar notes.frontmatter.title,
      "date: " ++ notes.frontmatter.date, "started_at: " ++ notes.frontmatter.startedAt.rfc3339,
      "duration_ms: " ++ String.ofList (digits notes.frontmatter.durationMs),
      "languages: " ++ yamlList notes.frontmatter.languages], IsContent line.toList := by
    simp only [List.forall_mem_cons]
    exact ⟨isContent_append (by decide) (oneLine_yamlScalar _),
      isContent_append (by decide) hdate.oneLine,
      isContent_append (by decide) hstarted.oneLine,
      isContent_append (by decide) hdigits,
      isContent_append (by decide) hlist, by simp⟩
  have hlast : ∀ line ∈ ["template: " ++ yamlScalar notes.frontmatter.template,
      "dialect: " ++ notes.frontmatter.dialect.asStr,
      "panops_version: " ++ yamlScalar notes.frontmatter.panopsVersion],
      IsContent line.toList := by
    simp only [List.forall_mem_cons]
    exact ⟨isContent_append (by decide) (oneLine_yamlScalar _),
      isContent_append (by decide) hdialect,
      isContent_append (by decide) (oneLine_yamlScalar _), by simp⟩
  have hspeakers := @isContent_blockLines "speakers" (by decide)
    (notes.frontmatter.speakers.map humanizeSpeakerId)
  have htags := @isContent_blockLines "tags" (by decide) notes.frontmatter.tags
  unfold frontmatterLines
  refine List.forall_mem_append.mpr ⟨List.forall_mem_append.mpr ⟨List.forall_mem_append.mpr
    ⟨List.forall_mem_append.mpr ⟨hfirst, hspeakers⟩, htags⟩, hlast⟩, ?_⟩
  cases notes.frontmatter.sourceAudio with
  | none => simp
  | some p =>
    intro line hline
    rw [List.mem_singleton.mp hline]
    exact isContent_append (by decide) (oneLine_yamlScalar _)

/-! ## The body -/

theorem join_separators (s : String) (sections : List String) :
    String.join ((s :: sections).map (· ++ sectionSeparator)) =
      String.intercalate sectionSeparator (s :: sections) ++ sectionSeparator := by
  induction sections generalizing s with
  | nil => simp
  | cons t sections ih =>
    rw [List.map_cons, String.join_cons, ih t, String.intercalate_cons_cons]
    simp only [String.append_assoc]

/-- With sections, the separator that is cut off is the last one. -/
theorem assembleBody_cons (frontmatter s : String) (sections : List String) :
    (assembleBody frontmatter (s :: sections)).toList =
      frontmatter.toList ++ ('\n' ::
        ((String.intercalate sectionSeparator (s :: sections)).toList ++ ['\n'])) := by
  have hstrip := stripSuffix_append
    (frontmatter ++ "\n" ++ String.intercalate sectionSeparator (s :: sections)).toList
    sectionSeparator.toList
  rw [← String.toList_append, String.append_assoc, ← join_separators] at hstrip
  rw [assembleBody]
  simp only [hstrip]
  simp

/-- Without sections, it is the closing fence with what is around it. -/
theorem assembleBody_nil (notes : StructuredNotes) :
    (assembleBody (renderFrontmatter notes) []).toList =
      unlines (fence :: (frontmatterLines notes).map String.toList) := by
  have htext : (renderFrontmatter notes ++ "\n" ++ String.join []).toList =
      ['\n'].intercalate (fence :: (frontmatterLines notes).map String.toList) ++
        sectionSeparator.toList := by
    rw [String.toList_append, String.toList_append, renderFrontmatter_eq,
      unlines_eq_intercalate]
    simp [sectionSeparator, unlines, fence]
  have hstrip := stripSuffix_append
    (['\n'].intercalate (fence :: (frontmatterLines notes).map String.toList))
    sectionSeparator.toList
  rw [← htext] at hstrip
  rw [assembleBody, unlines_eq_intercalate]
  simp only [List.map_nil, hstrip]
  simp

/-! ## What is displayed of it -/

/-- The rendered sections with their separators, as the app displays them. -/
def displayedSections (notes : StructuredNotes) : String :=
  String.ofList (trim (unifyBreaks (String.intercalate sectionSeparator
    (notes.sections.map (sectionText notes.frontmatter.dialect))).toList))

/-- The text begins with a block between two fences, and what the app displays of it
is the sections. -/
structure Framed (notes : StructuredNotes) (body : String) : Prop where
  closed : ∃ block rest, body.toList.splitOn '\n' = fence :: block ++ fence :: rest ∧
    ∀ line ∈ block, isFence line = false
  displayed : stripFrontmatter body = displayedSections notes

section Body

variable {notes : StructuredNotes} (hdate : IsStamp notes.frontmatter.date)
  (hstarted : IsStamp notes.frontmatter.startedAt.rfc3339)

include hdate hstarted

theorem oneLine_block :
    ∀ l ∈ (frontmatterLines notes).map String.toList, '\n' ∉ l ∧ '\r' ∉ l := by
  intro l hl
  obtain ⟨line, hline, rfl⟩ := List.mem_map.mp hl
  have hone := (isContent_frontmatterLines hdate hstarted line hline).oneLine
  exact ⟨fun hmem => (hone _ hmem).1 rfl, fun hmem => (hone _ hmem).2 rfl⟩

theorem isFence_block :
    ∀ l ∈ (frontmatterLines notes).map String.toList, isFence l = false := by
  intro l hl
  obtain ⟨line, hline, rfl⟩ := List.mem_map.mp hl
  exact (isContent_frontmatterLines hdate hstarted line hline).not_isFence

theorem framed_of_sections (hne : notes.sections ≠ []) : Framed notes (bodyOf notes) := by
  cases hsections : notes.sections with
  | nil => exact absurd hsections hne
  | cons sec sections =>
    have hbody := assembleBody_cons (renderFrontmatter notes)
      (sectionText notes.frontmatter.dialect sec)
      (sections.map (sectionText notes.frontmatter.dialect))
    rw [← List.map_cons, ← hsections, renderFrontmatter_eq, List.append_assoc] at hbody
    have hlines : ∀ l ∈ fence :: (frontmatterLines notes).map String.toList, '\n' ∉ l := by
      intro l hl
      rcases List.mem_cons.mp hl with rfl | hl
      · decide
      · exact (oneLine_block hdate hstarted l hl).1
    constructor
    · refine ⟨(frontmatterLines notes).map String.toList, List.splitOn '\n' ('\n' ::
        ((String.intercalate sectionSeparator
          (notes.sections.map (sectionText notes.frontmatter.dialect))).toList ++ ['\n'])),
        ?_, isFence_block hdate hstarted⟩
      rw [bodyOf, hbody, splitOn_unlines hlines, splitOn_unlines (by decide)]
      rfl
    · have hstrip := stripFrontmatter_closed (oneLine_block hdate hstarted)
        (isFence_block hdate hstarted) hbody
      rw [bodyOf, hstrip, displayedSections, trim_unifyBreaks_between]

theorem not_framed_of_no_sections (hnone : notes.sections = []) :
    ¬ Framed notes (bodyOf notes) := by
  intro h
  have hbody : (bodyOf notes).toList =
      unlines (fence :: (frontmatterLines notes).map String.toList) := by
    rw [bodyOf, hnone]
    exact assembleBody_nil notes
  have hopen := stripFrontmatter_open (oneLine_block hdate hstarted)
    (isFence_block hdate hstarted) hbody
  have hempty : displayedSections notes = "" := by
    rw [displayedSections, hnone]
    rfl
  rw [h.displayed, hempty] at hopen
  rw [← hopen, unlines_cons] at hbody
  cases hbody

end Body

/-- A successful export writes the body, whose frame holds exactly when there is a
section. -/
theorem export_framed_iff (notes : StructuredNotes) (dest : Path)
    (hdate : IsStamp notes.frontmatter.date)
    (hstarted : IsStamp notes.frontmatter.startedAt.rfc3339) :
    (∀ (d d' : Disk Bytes) (artifact : ExportArtifact),
      exportNotes notes dest d = (.ok artifact, d') →
        d'.read artifact.primaryFile = some (utf8 (bodyOf notes))) ∧
    (Framed notes (bodyOf notes) ↔ notes.sections ≠ []) := by
  refine ⟨?_, fun h hnone => not_framed_of_no_sections hdate hstarted hnone h,
    framed_of_sections hdate hstarted⟩
  intro d d' artifact h
  obtain ⟨rfl, hok, rfl⟩ := (follows_exportNotes notes dest).eq_ok_iff.mp h
  exact Script.read_runAll_write hok

/-- Notes of a short meeting with these sections. -/
def shortMeeting (sections : List NotesSection) : StructuredNotes where
  schemaVersion := 1
  frontmatter :=
    { title := "Team sync", date := "2026-06-05",
      startedAt := { date := "2026-06-05", rfc3339 := "2026-06-05T09:30:00+00:00" },
      durationMs := 60000, speakers := ["speaker_0"], languages := ["en"], tags := ["---"],
      template := "general", dialect := .basic, panopsVersion := "0.1.0", sourceAudio := none }
  sections := sections
  language := "en"
  generatedAt := { date := "2026-06-05", rfc3339 := "2026-06-05T09:31:00+00:00" }

def shortSection : NotesSection where
  index := 1
  title := "Opening"
  timeRangeMs := (0, 60000)
  narrativeMd := "Hello.\n---\nGoodbye."
  keyPoints := []
  actionItems := []
  screenshots := []

theorem shortMeeting_framed :
    Framed (shortMeeting [shortSection]) (bodyOf (shortMeeting [shortSection])) :=
  (export_framed_iff (shortMeeting [shortSection]) ["notes"] (by decide) (by decide)).2.mpr
    (List.cons_ne_nil _ _)

/-- Notes without a section lose the closing fence. -/
theorem not_export_framed :
    ¬ ∀ notes : StructuredNotes, IsStamp notes.frontmatter.date →
      IsStamp notes.frontmatter.startedAt.rfc3339 → Framed notes (bodyOf notes) := by
  intro h
  exact not_framed_of_no_sections (by decide) (by decide) rfl
    (h (shortMeeting []) (by decide) (by decide))

end MarkdownExporter
end Panops
