import Panops.Lib.Decimal
import Panops.Llm
import Panops.Notes.Ir

/-!
# Prompts

The requests the notes pipeline sends, and the sizes it estimates for them.
-/

namespace Panops

open Lib Lib.Machine

/-- The UTF-8 length of a string, `str::len`. -/
def len (s : String) : Nat := s.utf8ByteSize

def MarkdownDialect.cheatSheet : MarkdownDialect → String
  | notionEnhanced =>
    "You are emitting Notion-flavored markdown. Allowed constructs:\n" ++
    "- CommonMark: headings (#, ##, ###), lists (-, 1.), tables, fenced code blocks, blockquotes, links, images.\n" ++
    "- <callout icon=\"🎯\">…</callout> for highlighted notes.\n" ++
    "- <details><summary>Title</summary>…</details> for collapsible blocks.\n" ++
    "- <table>…</table> with explicit <tr>/<td> for rich tables.\n" ++
    "- \x7bcolor=\"red\"\x7d after a paragraph or heading for block colors.\n" ++
    "- Inline mentions: @user, @date.\n" ++
    "NEVER emit raw HTML beyond the listed tags. NEVER nest callouts.\n"
  | basic =>
    "You are emitting strict CommonMark. Allowed constructs:\n" ++
    "- Headings (#, ##, ###).\n" ++
    "- Unordered lists (-) and ordered lists (1.).\n" ++
    "- Pipe tables.\n" ++
    "- Fenced code blocks with language tags.\n" ++
    "- Blockquotes (>).\n" ++
    "- Links and image embeds.\n" ++
    "NEVER emit HTML tags, callouts, color attributes, or Notion-specific extensions.\n" ++
    "This is for Obsidian / GitHub / vanilla CommonMark viewers.\n"

namespace Prompts

/-- `0.6f32`. -/
def SECTION_NARRATIVE_TEMPERATURE : Single := .finite (5033165 / 8388608)

/-- `0.3f32`. -/
def FRONTMATTER_TEMPERATURE : Single := .finite (10066330 / 33554432)

def SECTION_NARRATIVE_MAX_TOKENS : Nat := 2048

def FRONTMATTER_MAX_TOKENS : Nat := 512

def SECTION_CHUNK_THRESHOLD_CHARS : Nat := 8000

def SECTION_CHUNK_TARGET_CHARS : Nat := 4000

def SEGMENT_LINE_OVERHEAD : Nat := 20

def SPLIT_GAP_THRESHOLD_MS : Nat := 2000

structure SectionSummary where
  title : String
  keyPoints : List String

def SECTION_NARRATIVE_SYSTEM : String :=
  "You are an expert meeting-notes writer. You receive a diarized transcript\n" ++
  "section and produce a structured narrative summary. You write in clear,\n" ++
  "neutral prose. You NEVER attribute a quote or statement to a specific speaker\n" ++
  "unless that segment carries a confirmed speaker_id from diarization. When\n" ++
  "attribution is ambiguous, write in passive voice (\"the team discussed\", \"a\n" ++
  "concern was raised\", \"it was proposed that\"). You return a single JSON object\n" ++
  "with the schema you are given."

def FRONTMATTER_SYSTEM : String :=
  "You are an expert meeting-notes editor. You receive a list of section titles\n" ++
  "and key points and produce a meeting title and tag list. Title is concise\n" ++
  "(<=80 chars), descriptive, neutral. Tags are lowercase kebab-case, max 10,\n" ++
  "factual (no marketing). You return a single JSON object with the schema you\n" ++
  "are given."

def stringSchema : Value := .object [("type", .string "string")]

/-- The members of an object come in the order of their names, as the map that
holds them sorts them. -/
def sectionNarrativeSchema : Value :=
  .object
    [("properties", .object
      [("action_items", .object
        [("items", .object
          [("properties", .object
            [("description", stringSchema),
             ("owner", .object [("type", .array [.string "string", .string "null"])])]),
           ("required", .array [.string "description"]),
           ("type", .string "object")]),
         ("type", .string "array")]),
       ("key_points", .object [("items", stringSchema), ("type", .string "array")]),
       ("narrative_md", stringSchema),
       ("title", stringSchema)]),
     ("required", .array
      [.string "title", .string "narrative_md", .string "key_points", .string "action_items"]),
     ("type", .string "object")]

def frontmatterSchema : Value :=
  .object
    [("properties", .object
      [("tags", .object [("items", stringSchema), ("type", .string "array")]),
       ("title", stringSchema)]),
     ("required", .array [.string "title", .string "tags"]),
     ("type", .string "object")]

/-! ## Transcript -/

/-- `{:>4}`. -/
def padSeconds (n : Nat) : String := String.ofList (Decimal.padLeft ' ' 4 (Decimal.digits n))

def renderSegment (seg : Segment) : String :=
  "[" ++ padSeconds (seg.startMs / 1000) ++ "–" ++ padSeconds (seg.endMs / 1000) ++ "s] " ++
    speakerLabel seg.speakerId ++ ": " ++ seg.text ++ "\n"

def renderTranscript (segments : List Segment) : String :=
  segments.foldl (fun out seg => out ++ renderSegment seg) ""

/-- The estimated size of one transcript line. -/
def segmentChars (seg : Segment) : Nat := len seg.text + SEGMENT_LINE_OVERHEAD

def estimateTranscriptChars (segments : List Segment) : Nat := (segments.map segmentChars).sum

def estimateChunkSummaryChars (summary : Value) : Nat := len summary.toJson

/-! ## Requests -/

def buildSectionNarrativePrompt (segments : List Segment) (dialect : MarkdownDialect)
    (language : String) : LlmRequest where
  system := some SECTION_NARRATIVE_SYSTEM
  user :=
    "Section transcript (diarized; speaker_X is a stable label per voice):\n\n" ++
    renderTranscript segments ++
    "\n" ++
    "Markdown dialect for `narrative_md`:\n" ++
    dialect.cheatSheet ++
    "\n" ++
    "CRITICAL: write the ENTIRE output (title, narrative_md, key_points,\n" ++
    "action_items) in " ++
    language ++
    ". Do NOT translate to English; keep the\n" ++
    "speakers' original language.\n\n" ++
    "Speaker attribution rule (STRICT): never attribute a quote to a speaker_id\n" ++
    "that does not appear in the transcript. When in doubt, use passive voice.\n\n" ++
    "Non-duplication rule (STRICT): `narrative_md`, `key_points`, and `action_items`\n" ++
    "must NOT restate the same facts in different shapes. They are three\n" ++
    "distinct views of the section:\n" ++
    "- `narrative_md`: connective prose — context, who arrived/left, how the\n" ++
    "conversation moved, transitions between topics, mood/tone where it\n" ++
    "matters. NO bullet lists. NO embedded \"Key points:\" or \"Action items:\"\n" ++
    "sections. Do NOT restate the bullets in prose form.\n" ++
    "- `key_points`: durable takeaways the reader scans for later — facts,\n" ++
    "numbers, decisions, named outcomes. Punchy and self-contained. Each\n" ++
    "bullet is a fact that does NOT appear (in any paraphrase) in\n" ++
    "`narrative_md`.\n" ++
    "- `action_items`: explicit commitments — \"who will do what by when\".\n" ++
    "A commitment that is also a key takeaway belongs HERE, not in\n" ++
    "`key_points`. Owner is a speaker_id (or null when unassigned).\n\n" ++
    "Return JSON matching exactly:\n" ++
    "\x7b\n" ++
    "  \"title\": \"string (descriptive, <80 chars)\",\n" ++
    "  \"narrative_md\": \"string (prose only — no bullets — in the dialect above; up to 400 words, scaled to section length)\",\n" ++
    "  \"key_points\": [\"string\", ...] (0–6 short bullets, each a fact NOT in narrative_md),\n" ++
    "  \"action_items\": [\x7b\"description\": \"string\", \"owner\": \"speaker_0\"\x7d] or [\x7b\"description\": \"string\", \"owner\": null\x7d]\n" ++
    "\x7d"
  schema := some sectionNarrativeSchema
  temperature := SECTION_NARRATIVE_TEMPERATURE
  maxTokens := SECTION_NARRATIVE_MAX_TOKENS

/-- The lines of the `i`-th section, counting from zero. -/
def renderSummary (i : Nat) (sum : SectionSummary) : String :=
  "Section " ++ toString (i + 1) ++ ": " ++ sum.title ++ "\n" ++
    String.join (sum.keyPoints.map fun kp => "  - " ++ kp ++ "\n")

def buildFrontmatterPrompt (summaries : List SectionSummary) (language : String)
    (durationMs : Nat) : LlmRequest where
  system := some FRONTMATTER_SYSTEM
  user :=
    "Section summaries:\n\n" ++
    String.join (summaries.mapIdx renderSummary) ++
    "\n" ++
    "CRITICAL: write the title in " ++
    language ++
    ". Do NOT translate to English;\n" ++
    "keep the speakers' original language.\n" ++
    "Meeting duration: " ++
    toString durationMs ++
    " ms\n\n" ++
    "Return JSON matching exactly:\n" ++
    "\x7b\n" ++
    "  \"title\": \"string (<=80 chars, descriptive, in " ++
    language ++
    ")\",\n" ++
    "  \"tags\": [\"lowercase-kebab-case\", ...] (max 10)\n" ++
    "\x7d"
  schema := some frontmatterSchema
  temperature := FRONTMATTER_TEMPERATURE
  maxTokens := FRONTMATTER_MAX_TOKENS

/-- One chunk summary in the merge prompt. -/
def renderChunkSummary (i : Nat) (summary : Value) : String :=
  "Chunk " ++ toString (i + 1) ++ ":\n" ++
    "  Title: " ++ (summary.getStr "title").getD "Untitled chunk" ++ "\n" ++
    "  Narrative: " ++ (summary.getStr "narrative_md").getD "" ++ "\n" ++
    String.join ((summary.getMapped "key_points" Value.asStr).map fun kp =>
      "  Key point: " ++ kp ++ "\n") ++
    String.join ((summary.getMapped "action_items" Value.actionItem).map fun (desc, owner) =>
      "  Action: - " ++ desc ++ " (owner: " ++ owner.getD "unassigned" ++ ")\n") ++
    "\n"

def buildMergeSectionPrompt (chunkSummaries : List Value) (dialect : MarkdownDialect)
    (language : String) : LlmRequest where
  system := some SECTION_NARRATIVE_SYSTEM
  user :=
    "Sub-chunk summaries (ordered chronologically):\n\n" ++
    String.join (chunkSummaries.mapIdx renderChunkSummary) ++
    "\n" ++
    "Markdown dialect for `narrative_md`:\n" ++
    dialect.cheatSheet ++
    "\n" ++
    "CRITICAL: write the ENTIRE output (title, narrative_md, key_points,\n" ++
    "action_items) in " ++
    language ++
    ". Do NOT translate to English; keep the\n" ++
    "speakers' original language.\n\n" ++
    "Merge these sub-chunks into a single unified section summary.\n" ++
    "- Combine narratives into flowing prose (no bullet lists).\n" ++
    "- Deduplicate key_points: keep distinct facts, merge overlapping.\n" ++
    "- Deduplicate action_items: keep distinct commitments.\n" ++
    "- Title should represent the unified theme.\n\n" ++
    "Return JSON matching exactly:\n" ++
    "\x7b\n" ++
    "  \"title\": \"string (descriptive, <80 chars)\",\n" ++
    "  \"narrative_md\": \"string (prose only, in the dialect above)\",\n" ++
    "  \"key_points\": [\"string\", ...],\n" ++
    "  \"action_items\": [\x7b\"description\": \"string\", \"owner\": \"speaker_0\"\x7d] or [\x7b\"description\": \"string\", \"owner\": null\x7d]\n" ++
    "\x7d"
  schema := some sectionNarrativeSchema
  temperature := SECTION_NARRATIVE_TEMPERATURE
  maxTokens := SECTION_NARRATIVE_MAX_TOKENS

def renderedLlmRequestChars (req : LlmRequest) : Nat :=
  (req.system.map len).getD 0 + len req.user +
    (req.schema.map fun schema => len schema.toJson).getD 0

end Prompts
end Panops
