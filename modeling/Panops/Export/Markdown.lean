import Panops.Export.Speakers
import Panops.Export.Yaml
import Panops.Lib.Script

/-!
# The Markdown exporter

`MarkdownExporter::export`: `notes.md`, and the screenshots copied next to it
under names made of the section and the timestamp.
-/

namespace Panops

open Lib Lib.Text Lib.Decimal

abbrev Bytes := List UInt8

def utf8 (s : String) : Bytes := s.toUTF8.toList

inductive ExportError where
  | io (e : IoError)
  /-- The destination exists but is not a directory. -/
  | invalidDest (dest : Path)
  | render (message : String)
deriving DecidableEq

structure ExportArtifact where
  primaryFile : Path
  assets : List Path

namespace MarkdownExporter

abbrev ExportM := DiskM Bytes ExportError

def perform (a : Act Bytes ExportError) : ExportM Unit := DiskM.perform .io a

def formatMmss (ms : Nat) : String :=
  let totalS := ms / 1000
  String.ofList (digits (totalS / 60)) ++ ":" ++ String.ofList (zeroPadded 2 (totalS % 60))

/-- A YAML block list under a key. -/
def yamlBlock (key : String) (items : List String) : String :=
  if items.isEmpty then key ++ ": []\n"
  else key ++ ":\n" ++ String.join (items.map fun item => "  - " ++ yamlScalar item ++ "\n")

def renderFrontmatter (notes : StructuredNotes) : String :=
  let fm := notes.frontmatter
  "---\n" ++ "title: " ++ yamlScalar fm.title ++ "\n" ++ "date: " ++ fm.date ++ "\n" ++
    "started_at: " ++ fm.startedAt.rfc3339 ++ "\n" ++
    "duration_ms: " ++ String.ofList (digits fm.durationMs) ++ "\n" ++
    "languages: " ++ yamlList fm.languages ++ "\n" ++
    yamlBlock "speakers" (fm.speakers.map humanizeSpeakerId) ++ yamlBlock "tags" fm.tags ++
    "template: " ++ yamlScalar fm.template ++ "\n" ++ "dialect: " ++ fm.dialect.asStr ++ "\n" ++
    "panops_version: " ++ yamlScalar fm.panopsVersion ++ "\n" ++
    (match fm.sourceAudio with
      | some p => "source_audio: " ++ yamlScalar p.display ++ "\n"
      | none => "") ++ "---\n"

/-- The extension of a file name with its dot. -/
def dotExtension (p : Path) : String :=
  match p.extension with
  | some e => "." ++ e
  | none => ""

/-- The name of the copy of a screenshot. -/
def uniqueName (sectionIndex : Nat) (shot : Screenshot) : String :=
  "section" ++ String.ofList (zeroPadded 2 sectionIndex) ++ "_" ++
    String.ofList (zeroPadded 8 shot.msSinceStart) ++ dotExtension shot.path

/-- The image link that shows a screenshot. -/
def imageOf (sectionIndex : Nat) (shot : Screenshot) : String :=
  let original := shot.path.fileName.getD ""
  "![" ++ shot.caption.getD original ++ "](screenshots/" ++ uniqueName sectionIndex shot ++ ")"

/-- One round of the loop over the screenshots: the link and the copy's path. -/
def exportScreenshot (screenshotsDir : Path) (sectionIndex : Nat) (shot : Screenshot) :
    ExportM (String × Path) :=
  match shot.path.fileName with
  | none => DiskM.throw (.render "screenshot has no file_name")
  | some _ => do
    let dest := screenshotsDir.join (uniqueName sectionIndex shot)
    perform (.copy shot.path dest)
    pure (imageOf sectionIndex shot, dest)

/-- Pairs of neighbours, the last one alone where the number is odd. -/
def chunks2 {α : Type} : List α → List (List α)
  | [] => []
  | [a] => [[a]]
  | a :: b :: rest => [a, b] :: chunks2 rest

def layoutImages (imgs : List String) : MarkdownDialect → String
  | .notionEnhanced =>
    let row := fun chunk : List String =>
      "  <tr>" ++ String.join (chunk.map fun img => "<td>" ++ img ++ "</td>") ++ "</tr>\n"
    "\n<table>\n" ++ String.join ((chunks2 imgs).map row) ++ "</table>\n\n"
  | .basic => String.join (imgs.map fun img => img ++ "\n\n")

def renderScreenshots (screenshotsDir : Path) (dialect : MarkdownDialect) (sectionIndex : Nat)
    (shots : List Screenshot) : ExportM (String × List Path) := do
  perform (.ensureDir screenshotsDir)
  let copied ← shots.mapM' (exportScreenshot screenshotsDir sectionIndex)
  pure (layoutImages (copied.map Prod.fst) dialect, copied.map Prod.snd)

def renderActionItem (a : ActionItem) : String :=
  let owner := (a.owner.map humanizeSpeakerId).getD "owner TBD"
  "- " ++ humanizeSpeakersInText a.description ++ " (owner: " ++ owner ++ ")\n"

/-- A section without its screenshots. -/
def renderText (sec : NotesSection) : String :=
  let keyPoints :=
    if sec.keyPoints.isEmpty then ""
    else "**Key points:**\n" ++
      String.join (sec.keyPoints.map fun kp => "- " ++ humanizeSpeakersInText kp ++ "\n") ++ "\n"
  let actionItems :=
    if sec.actionItems.isEmpty then ""
    else "**Action items:**\n" ++ String.join (sec.actionItems.map renderActionItem) ++ "\n"
  "## " ++ String.ofList (digits sec.index) ++ ". " ++ sec.title ++ "\n\n" ++
    "*[" ++ formatMmss sec.timeRangeMs.1 ++ " – " ++ formatMmss sec.timeRangeMs.2 ++ "]*\n\n" ++
    humanizeSpeakersInText (String.ofList (trim sec.narrativeMd.toList)) ++ "\n\n" ++
    keyPoints ++ actionItems

def renderSection (screenshotsDir : Path) (dialect : MarkdownDialect) (sec : NotesSection) :
    ExportM (String × List Path) :=
  if sec.screenshots.isEmpty then pure (renderText sec, [])
  else do
    let (images, assets) ← renderScreenshots screenshotsDir dialect sec.index sec.screenshots
    pure (renderText sec ++ images, assets)

def sectionSeparator : String := "\n---\n\n"

/-- The body with the separators of its sections; a separator at the end is cut
off. -/
def assembleBody (frontmatter : String) (sections : List String) : String :=
  let body := frontmatter ++ "\n" ++ String.join (sections.map (· ++ sectionSeparator))
  match stripSuffix sectionSeparator.toList body.toList with
  | some kept => String.ofList kept ++ "\n"
  | none => body

/-- `MarkdownExporter::export`. -/
def exportNotes (notes : StructuredNotes) (dest : Path) : ExportM ExportArtifact := do
  perform (.requireDir dest (.invalidDest dest))
  perform (.ensureDir dest)
  let screenshotsDir := dest.join "screenshots"
  let rendered ← notes.sections.mapM' (renderSection screenshotsDir notes.frontmatter.dialect)
  let body := assembleBody (renderFrontmatter notes) (rendered.map Prod.fst)
  let primary := dest.join "notes.md"
  perform (.write primary (utf8 body))
  pure { primaryFile := primary, assets := (rendered.map Prod.snd).flatten }

/-! ## The script of an export -/

def assetOf (dest : Path) (sectionIndex : Nat) (shot : Screenshot) : Path :=
  (dest.join "screenshots").join (uniqueName sectionIndex shot)

def screenshotActs (dest : Path) (sectionIndex : Nat) (shot : Screenshot) :
    List (Act Bytes ExportError) :=
  if shot.path.fileName = none then [.fail (.render "screenshot has no file_name")]
  else [.copy shot.path (assetOf dest sectionIndex shot)]

def sectionActs (dest : Path) (sec : NotesSection) : List (Act Bytes ExportError) :=
  if sec.screenshots.isEmpty then []
  else .ensureDir (dest.join "screenshots") :: sec.screenshots.flatMap (screenshotActs dest sec.index)

/-- Everything but the notes themselves. -/
def assetActs (notes : StructuredNotes) (dest : Path) : List (Act Bytes ExportError) :=
  .requireDir dest (.invalidDest dest) :: .ensureDir dest ::
    notes.sections.flatMap (sectionActs dest)

/-- A section with its screenshots. -/
def sectionText (dialect : MarkdownDialect) (sec : NotesSection) : String :=
  if sec.screenshots.isEmpty then renderText sec
  else renderText sec ++ layoutImages (sec.screenshots.map (imageOf sec.index)) dialect

def bodyOf (notes : StructuredNotes) : String :=
  assembleBody (renderFrontmatter notes)
    (notes.sections.map (sectionText notes.frontmatter.dialect))

def exportActs (notes : StructuredNotes) (dest : Path) : List (Act Bytes ExportError) :=
  assetActs notes dest ++ [.write (dest.join "notes.md") (utf8 (bodyOf notes))]

def assetsOf (notes : StructuredNotes) (dest : Path) : List Path :=
  (notes.sections.map fun sec => sec.screenshots.map (assetOf dest sec.index)).flatten

theorem follows_exportScreenshot (dest : Path) (sectionIndex : Nat) (shot : Screenshot) :
    DiskM.Follows .io (exportScreenshot (dest.join "screenshots") sectionIndex shot)
      (screenshotActs dest sectionIndex shot)
      (imageOf sectionIndex shot, assetOf dest sectionIndex shot) := by
  unfold exportScreenshot screenshotActs
  cases shot.path.fileName with
  | none => exact .throw _ _
  | some original => exact (DiskM.Follows.perform _).bind (.pure _)

theorem follows_renderScreenshots (dest : Path) (dialect : MarkdownDialect) (sectionIndex : Nat)
    (shots : List Screenshot) :
    DiskM.Follows .io (renderScreenshots (dest.join "screenshots") dialect sectionIndex shots)
      (.ensureDir (dest.join "screenshots") :: shots.flatMap (screenshotActs dest sectionIndex))
      (layoutImages (shots.map (imageOf sectionIndex)) dialect,
        shots.map (assetOf dest sectionIndex)) := by
  have hloop := DiskM.Follows.mapM' fun shot (_ : shot ∈ shots) =>
    follows_exportScreenshot dest sectionIndex shot
  have hpairs := hloop.bind_pure fun copied =>
    (layoutImages (copied.map Prod.fst) dialect, copied.map Prod.snd)
  rw [List.map_map, List.map_map] at hpairs
  exact .perform_bind _ hpairs

theorem follows_renderSection (dest : Path) (dialect : MarkdownDialect) (sec : NotesSection) :
    DiskM.Follows .io (renderSection (dest.join "screenshots") dialect sec) (sectionActs dest sec)
      (sectionText dialect sec, sec.screenshots.map (assetOf dest sec.index)) := by
  unfold renderSection sectionActs sectionText
  cases hshots : sec.screenshots with
  | nil => exact .pure _
  | cons shot shots =>
    have hshots := follows_renderScreenshots dest dialect sec.index (shot :: shots)
    exact hshots.bind_pure fun parts => (renderText sec ++ parts.1, parts.2)

theorem follows_exportNotes (notes : StructuredNotes) (dest : Path) :
    DiskM.Follows .io (exportNotes notes dest) (exportActs notes dest)
      { primaryFile := dest.join "notes.md", assets := assetsOf notes dest } := by
  have hloop := DiskM.Follows.mapM' fun sec (_ : sec ∈ notes.sections) =>
    follows_renderSection dest notes.frontmatter.dialect sec
  refine .perform_bind _ (.perform_bind _ (hloop.bind ?_))
  rw [List.map_map, List.map_map]
  exact .perform_bind _ (.pure _)

end MarkdownExporter
end Panops
