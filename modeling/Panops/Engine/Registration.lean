import Panops.Engine.MeetingDir
import Panops.Storage.Schema
import Panops.Storage.Statements

/-!
# Registered meetings

Who makes rows of meetings, and which of them the check of a meeting's directory
lets through later.
-/

namespace Panops
namespace Engine

open Lib.Symlinks Storage

/-- `Uuid::new_v4().simple()`. -/
structure Uuid where
  text : String
  simple : text.length = 32 ∧ ∀ c ∈ text.toList, c.isDigit ∨ c ∈ ['a', 'b', 'c', 'd', 'e', 'f']

/-- The tables of the registry and the file system. -/
structure Registered (β : Type) where
  tables : Tables
  tree : Tree OsStr β

def meetingDir (dataDir : PathBuf) (id : Uuid) : PathBuf := (meetingsRoot dataDir).join id.text

variable {β : Type}

/-- The directory first, then the row; a row that fails takes the directory back. -/
def createMeetingDirAndRow (sql : Sqlite) (dataDir : PathBuf) (id : Uuid)
    (title startedAt language : String) (faults : List (Option String)) (s : Registered β) :
    Except IpcError (String × PathBuf) × Registered β :=
  let dir := meetingDir dataDir id
  match createDirAll s.tree (dir.join "screenshots") with
  | (.error _, tree) => (.error (.internal "create meeting dir failed"), { s with tree := tree })
  | (.ok (), tree) =>
    let draft : MeetingDraft :=
      { id := id.text, title := title, startedAt := startedAt, language := language,
        dirPath := dir.toStringLossy }
    match RusqliteStorage.createMeeting sql draft ⟨s.tables, faults⟩ with
    | (.error e, session) =>
      (.error (.ofStorageError e), ⟨session.tables, (removeDirAll tree dir).2⟩)
    | (.ok _, session) => (.ok (id.text, dir), ⟨session.tables, tree⟩)

/-- The path that a location is shown as. -/
def displayLocation (l : Location OsStr) : PathBuf :=
  if l = [] then [.char '/'] else l.flatMap fun name => .char '/' :: name

/-- What the command line gives `register_meeting_in_registry`; `opened` is what
`RusqliteStorage::new` comes to, `contentMd` the notes file read back. -/
structure CliNotes where
  outDir : PathBuf
  meetingId : Uuid
  noteId : Uuid
  title : String
  startedAt : String
  endedAt : Option String
  durationMs : Nat
  language : String
  dialect : String
  primaryPath : String
  opened : Except Schema.OpenError Unit
  contentMd : Option String

/-- Each of them ends the program with exit code 3. -/
inductive RegisterError where
  | createDataDir (e : Errno)
  | openRegistry (e : Schema.OpenError)
  | readNotesFile (path : String)
  | registerMeetingAndNote (e : StorageError)

/-- The directory as the command line records it. -/
def CliNotes.dirPath (t : Tree OsStr β) (n : CliNotes) : String :=
  (match canonicalize t n.outDir with
    | .ok l => displayLocation l
    | .error _ => n.outDir).toStringLossy

/-- The end of `run_notes`. -/
def runNotesRegister (sql : Sqlite) (ambient : Ambient) (dataDir : PathBuf) (n : CliNotes)
    (faults : List (Option String)) (s : Registered β) :
    Except RegisterError Unit × Registered β :=
  match createDirAll s.tree dataDir with
  | (.error e, tree) => (.error (.createDataDir e), { s with tree := tree })
  | (.ok (), tree) =>
    match n.opened, n.contentMd with
    | .error e, _ => (.error (.openRegistry e), { s with tree := tree })
    | .ok (), none => (.error (.readNotesFile n.primaryPath), { s with tree := tree })
    | .ok (), some contentMd =>
      let meeting : MeetingDraft :=
        { id := n.meetingId.text, title := n.title, startedAt := n.startedAt,
          language := n.language, dirPath := n.dirPath s.tree }
      let note : NoteDraft :=
        { id := n.noteId.text, meetingId := n.meetingId.text, dialect := n.dialect,
          contentMd := contentMd, primaryPath := n.primaryPath }
      match RusqliteStorage.createMeetingWithNote sql ambient meeting note n.endedAt
          (some n.durationMs) ⟨s.tables, faults⟩ with
      | (.error e, session) => (.error (.registerMeetingAndNote e), ⟨session.tables, tree⟩)
      | (.ok _, session) => (.ok (), ⟨session.tables, tree⟩)

/-- `meeting.start` and `notes.generate` without a meeting, the command line, and
whatever else happens to the file system. -/
inductive Creation (β : Type) where
  | engine (id : Uuid) (title startedAt language : String) (faults : List (Option String))
  | cli (notes : CliNotes) (faults : List (Option String))
  | elsewhere (tree : Tree OsStr β)

section Run

variable (sql : Sqlite) (ambient : Ambient) (dataDir : PathBuf)

def creationStep (s : Registered β) : Creation β → Registered β
  | .engine id title startedAt language faults =>
    (createMeetingDirAndRow sql dataDir id title startedAt language faults s).2
  | .cli notes faults => (runNotesRegister sql ambient dataDir notes faults s).2
  | .elsewhere tree => { s with tree := tree }

def creations (steps : List (Creation β)) (s : Registered β) : Registered β :=
  steps.foldl (creationStep sql ambient dataDir) s

end Run

/-- How `meeting.delete`, `notes.save`, `recording.start` and `notes.generate` come
to the directory of a meeting. -/
def registeredDir (s : Registered β) (dataDir : PathBuf) (id : String) : Except IpcError PathBuf :=
  match s.tables.selectMeeting id with
  | none => .error (.ofStorageError (.notFound id "meeting"))
  | some row => validateMeetingDir s.tree dataDir row.dirPath

def rejectPathLikeMeetingId (id : String) : Except IpcError Unit :=
  match components (PathBuf.pathname (OsStr.ofString id)) with
  | [.normal _] =>
    if id.toList.contains '/' || id.toList.contains '\\' then
      .error (.invalidInput "meeting_id must be a single path-safe component")
    else .ok ()
  | _ => .error (.invalidInput "meeting_id must be a single path-safe component")

/-- How `meeting.deleteVideo` comes to it. -/
def deleteVideoDir (s : Registered β) (dataDir : PathBuf) (id : String) :
    Except IpcError PathBuf :=
  match rejectPathLikeMeetingId id with
  | .error e => .error e
  | .ok () => registeredDir s dataDir id

/-! ## What the rows say -/

/-- A creation made the row, when the file system was as given. -/
def Records (dataDir : PathBuf) (tree : Tree OsStr β) (c : Creation β) (row : MeetingRow) : Prop :=
  match c with
  | .engine id _ _ _ _ => row.id = id.text ∧ row.dirPath = (meetingDir dataDir id).toStringLossy
  | .cli notes _ => row.id = notes.meetingId.text ∧ row.dirPath = notes.dirPath tree
  | .elsewhere _ => False

section Rows

variable {sql : Sqlite} {ambient : Ambient} {dataDir : PathBuf} {s : Registered β}

/-- The rows after a statement that adds one, if it does anything. -/
theorem rows_of_append {t t' : Tables} {new : MeetingRow} (h : t' = t ∨
    t'.meeting = t.meeting ++ [new]) : ∀ row ∈ t'.meeting, row ∈ t.meeting ∨ row = new := by
  intro row hrow
  rcases h with rfl | h
  · exact Or.inl hrow
  · rw [h] at hrow
    rcases List.mem_append.mp hrow with hold | hnew
    · exact Or.inl hold
    · exact Or.inr (List.mem_singleton.mp hnew)

theorem createMeeting_rows {d : MeetingDraft} {t : Tables} {faults : List (Option String)}
    {r : Except StorageError Meeting} {session : Lib.Database.Session Tables}
    (h : RusqliteStorage.createMeeting sql d ⟨t, faults⟩ = (r, session)) :
    ∀ row ∈ session.tables.meeting, row ∈ t.meeting ∨ row = d.row none none := by
  have hsession : session = (RusqliteStorage.createMeeting sql d ⟨t, faults⟩).2 := by rw [h]
  rw [hsession]
  apply rows_of_append
  rcases (RusqliteStorage.implements_createMeeting d).tables t faults with ht | ht
  · rw [ht]
    unfold Registry.createMeeting
    split
    · exact Or.inl rfl
    · exact Or.inr rfl
  · exact Or.inl ht

theorem createMeetingWithNote_rows {meeting : MeetingDraft} {note : NoteDraft}
    {endedAt : Option String} {durationMs : Option Nat} {t : Tables}
    {faults : List (Option String)} {r : Except StorageError (Meeting × Note)}
    {session : Lib.Database.Session Tables}
    (h : RusqliteStorage.createMeetingWithNote sql ambient meeting note endedAt durationMs
      ⟨t, faults⟩ = (r, session)) : ∀ row ∈ session.tables.meeting,
        row ∈ t.meeting ∨ row = meeting.row endedAt (durationMs.map asI64) := by
  have hsession : session = (RusqliteStorage.createMeetingWithNote sql ambient meeting note endedAt
      durationMs ⟨t, faults⟩).2 := by rw [h]
  rw [hsession]
  apply rows_of_append
  rcases (RusqliteStorage.implements_createMeetingWithNote meeting note endedAt durationMs).tables
    t faults with ht | ht
  · rw [ht]
    unfold Registry.createMeetingWithNote
    split
    · exact Or.inl rfl
    · split
      · exact Or.inl rfl
      · split
        · exact Or.inl rfl
        · exact Or.inr rfl
  · exact Or.inl ht

theorem creationStep_rows (c : Creation β) :
    ∀ row ∈ (creationStep sql ambient dataDir s c).tables.meeting,
      row ∈ s.tables.meeting ∨ Records dataDir s.tree c row := by
  intro row hrow
  cases c with
  | engine id title startedAt language faults =>
    simp only [creationStep, createMeetingDirAndRow] at hrow
    split at hrow
    · exact Or.inl hrow
    · split at hrow
      · next hcall =>
        rcases createMeeting_rows hcall row hrow with hold | rfl
        · exact Or.inl hold
        · exact Or.inr ⟨rfl, rfl⟩
      · next hcall =>
        rcases createMeeting_rows hcall row hrow with hold | rfl
        · exact Or.inl hold
        · exact Or.inr ⟨rfl, rfl⟩
  | cli notes faults =>
    simp only [creationStep, runNotesRegister] at hrow
    split at hrow
    · exact Or.inl hrow
    · split at hrow
      · exact Or.inl hrow
      · exact Or.inl hrow
      · split at hrow
        · next hcall =>
          rcases createMeetingWithNote_rows hcall row hrow with hold | rfl
          · exact Or.inl hold
          · exact Or.inr ⟨rfl, rfl⟩
        · next hcall =>
          rcases createMeetingWithNote_rows hcall row hrow with hold | rfl
          · exact Or.inl hold
          · exact Or.inr ⟨rfl, rfl⟩
  | elsewhere tree => exact Or.inl hrow

/-- Every row is as some creation made it. -/
theorem creations_rows (steps : List (Creation β)) :
    ∀ row ∈ (creations sql ambient dataDir steps s).tables.meeting, row ∈ s.tables.meeting ∨
      ∃ before c after, steps = before ++ c :: after ∧
        Records dataDir (creations sql ambient dataDir before s).tree c row := by
  induction steps generalizing s with
  | nil => exact fun row hrow => Or.inl hrow
  | cons c steps ih =>
    intro row hrow
    rcases ih row hrow with hold | ⟨before, c', after, rfl, hrecords⟩
    · rcases creationStep_rows c row hold with hold | hrecords
      · exact Or.inl hold
      · exact Or.inr ⟨[], c, steps, rfl, hrecords⟩
    · exact Or.inr ⟨c :: before, c', after, rfl, hrecords⟩

end Rows

/-! ## Which rows are let through -/

/-- No link has taken the place of the meeting's directory. -/
def NotReplaced (t : Tree OsStr β) (dataDir : PathBuf) (id : Uuid) : Prop :=
  ∀ R target, canonicalize t (meetingsRoot dataDir) = .ok R →
    t.entry (R ++ [OsStr.ofString id.text]) ≠ some (.link target)

theorem Uuid.isName (id : Uuid) : IsName id.text where
  no_slash := by
    intro h
    obtain ⟨c, hc, heq⟩ := List.mem_map.mp h
    obtain rfl := OsChar.char.inj heq
    rcases id.simple.2 _ hc with hdigit | hhex
    · exact absurd hdigit (by decide)
    · exact absurd hhex (by decide)
  toPiece := by
    have hlength : (OsStr.ofString id.text).length = 32 := by
      rw [OsStr.ofString, List.length_map, String.length_toList]
      exact id.simple.1
    unfold OsStr.toPiece
    rw [if_neg, if_neg, if_neg]
    · intro h
      simp [h] at hlength
    · intro h
      simp [h] at hlength
    · intro h
      simp [h] at hlength

theorem meetingDir_pathname (dataDir : PathBuf) (id : Uuid) : (meetingDir dataDir id).pathname =
    ⟨(meetingsRoot dataDir).pathname.absolute,
      (meetingsRoot dataDir).pathname.pieces ++ [.name (OsStr.ofString id.text)]⟩ := by
  refine PathBuf.pathname_join (PathBuf.join_ne_nil dataDir isName_meetings) ?_ id.isName
  rw [PathBuf.getLast?_join dataDir isName_meetings]
  decide

theorem startsWith_append {absolute : Bool} {ps : List (Piece OsStr)} (hne : ps ≠ [])
    (qs : List (Piece OsStr)) : startsWith ⟨absolute, ps ++ qs⟩ ⟨absolute, ps⟩ = true := by
  unfold startsWith components
  rw [List.isPrefixOf_iff_prefix]
  simp only [List.head?_append_of_ne_nil ps hne, steps_append, List.map_append]
  rw [← List.append_assoc]
  exact List.prefix_append _ _

/-- The directory of a meeting that was made by the engine is let through, as long
as it is no link. -/
theorem validateMeetingDir_meetingDir {t : Tree OsStr β} {dataDir : PathBuf} {id : Uuid}
    (hutf8 : OsStr.IsUtf8 dataDir) (hown : NotReplaced t dataDir id) :
    validateMeetingDir t dataDir (meetingDir dataDir id).toStringLossy =
      .ok (meetingDir dataDir id) := by
  have hdir : OsStr.IsUtf8 (meetingDir dataDir id) :=
    PathBuf.isUtf8_join (PathBuf.isUtf8_join hutf8 "meetings") id.text
  have hpathname := meetingDir_pathname dataDir id
  have hne : (meetingsRoot dataDir).pathname.pieces ≠ [] := by
    intro hnil
    apply steps_meetingsRoot_ne_nil dataDir
    rw [hnil]
    rfl
  refine validateMeetingDir_eq_ok.mpr ⟨(OsStr.ofString_toStringLossy hdir).symm, ?_, ?_⟩
  · rw [hpathname]
    exact startsWith_append hne _
  · intro l R hl hR
    have hres := lookup_resolves (canonicalize_eq_ok_iff.mp hl).2
    rw [hpathname] at hres
    obtain ⟨parent, hparent, -, -, hlast⟩ := hres.of_append_name
    have hroot := lookup_leads (canonicalize_eq_ok_iff.mp hR).2
    obtain rfl : parent = R := hparent.leads.deterministic hroot
    rw [← hlast fun target => hown parent target hR]
    exact List.prefix_append _ _

theorem IsName.pathname {name : String} (h : IsName name) :
    PathBuf.pathname (OsStr.ofString name) = ⟨false, [.name (OsStr.ofString name)]⟩ := by
  have hhead : (OsStr.ofString name).head? ≠ some (.char '/') := by
    intro hhead
    exact h.no_slash (List.mem_of_head? hhead)
  unfold PathBuf.pathname
  rw [if_neg h.ne_nil, segments_of_no_slash h.no_slash, List.map_singleton, h.toPiece]
  simp [hhead]

theorem Uuid.not_mem (id : Uuid) {c : Char}
    (hc : c.isDigit = false ∧ c ∉ ['a', 'b', 'c', 'd', 'e', 'f']) :
    id.text.toList.contains c = false := by
  rw [Bool.eq_false_iff]
  intro hmem
  rcases id.simple.2 c (by simpa using hmem) with hdigit | hhex
  · rw [hc.1] at hdigit
    cases hdigit
  · exact hc.2 hhex

theorem rejectPathLikeMeetingId_uuid (id : Uuid) : rejectPathLikeMeetingId id.text = .ok () := by
  have hcomponents : components (PathBuf.pathname (OsStr.ofString id.text)) =
      [.normal (OsStr.ofString id.text)] := by
    rw [id.isName.pathname]
    rfl
  unfold rejectPathLikeMeetingId
  rw [hcomponents]
  simp only [id.not_mem (c := '/') (by decide), id.not_mem (c := '\\') (by decide),
    Bool.or_self, Bool.false_eq_true, if_false]

/-- The engine made the meeting.  The methods find its directory as long as no link
has taken the place of that, when the data directory is text. -/
def EngineMade (dataDir : PathBuf) (steps : List (Creation β)) (tables : Tables) (id : String) :
    Prop :=
  ∃ uuid title startedAt language faults,
    .engine uuid title startedAt language faults ∈ steps ∧ uuid.text = id ∧
    (OsStr.IsUtf8 dataDir → ∀ t : Tree OsStr β, NotReplaced t dataDir uuid →
      registeredDir ⟨tables, t⟩ dataDir id = .ok (meetingDir dataDir uuid) ∧
      deleteVideoDir ⟨tables, t⟩ dataDir id = .ok (meetingDir dataDir uuid))

/-- The command line made the meeting.  The methods find its directory, as it was
recorded, when that lies under the root as written and where it leads. -/
def CliMade (sql : Sqlite) (ambient : Ambient) (dataDir : PathBuf) (steps : List (Creation β))
    (s : Registered β) (tables : Tables) (row : MeetingRow) : Prop :=
  ∃ before notes faults after, steps = before ++ .cli notes faults :: after ∧
    row.id = notes.meetingId.text ∧
    row.dirPath = notes.dirPath (creations sql ambient dataDir before s).tree ∧
    ∀ (t : Tree OsStr β) (dir : PathBuf),
      registeredDir ⟨tables, t⟩ dataDir row.id = .ok dir ↔
        dir = OsStr.ofString row.dirPath ∧
        startsWith dir.pathname (meetingsRoot dataDir).pathname = true ∧
        ∀ l R, canonicalize t dir = .ok l → canonicalize t (meetingsRoot dataDir) = .ok R →
          R <+: l

/-- Every meeting of the registry is operable as the engine or as the command line
made it. -/
theorem registered_operable (sql : Sqlite) (ambient : Ambient) (dataDir : PathBuf)
    (tree : Tree OsStr β) (steps : List (Creation β)) {id : String} {row : MeetingRow}
    (hrow : (creations sql ambient dataDir steps ⟨.empty, tree⟩).tables.selectMeeting id =
      some row) :
    EngineMade dataDir steps (creations sql ambient dataDir steps ⟨.empty, tree⟩).tables id ∨
      CliMade sql ambient dataDir steps ⟨.empty, tree⟩
        (creations sql ambient dataDir steps ⟨.empty, tree⟩).tables row := by
  let tables := (creations sql ambient dataDir steps ⟨.empty, tree⟩).tables
  have hid : row.id = id := by
    unfold Tables.selectMeeting at hrow
    simpa using List.find?_some hrow
  have hmem : row ∈ tables.meeting := List.mem_of_find?_eq_some hrow
  have hdir : ∀ t : Tree OsStr β,
      registeredDir ⟨tables, t⟩ dataDir id = validateMeetingDir t dataDir row.dirPath := by
    intro t
    unfold registeredDir
    simp only [tables, hrow]
  rcases creations_rows steps row hmem with hnone | ⟨before, c, after, hsteps, hrecords⟩
  · cases hnone
  · cases c with
    | engine uuid title startedAt language faults =>
      obtain ⟨huuid, hpath⟩ := hrecords
      have htext : uuid.text = id := huuid.symm.trans hid
      refine Or.inl ⟨uuid, title, startedAt, language, faults, by simp [hsteps], htext,
        fun hutf8 t hown => ?_⟩
      have hok : registeredDir ⟨tables, t⟩ dataDir id = .ok (meetingDir dataDir uuid) := by
        rw [hdir, hpath]
        exact validateMeetingDir_meetingDir hutf8 hown
      refine ⟨hok, ?_⟩
      unfold deleteVideoDir
      rw [← htext, rejectPathLikeMeetingId_uuid, htext]
      exact hok
    | cli notes faults =>
      obtain ⟨huuid, hpath⟩ := hrecords
      refine Or.inr ⟨before, notes, faults, after, hsteps, huuid, hpath, fun t dir => ?_⟩
      rw [hid, hdir]
      exact validateMeetingDir_eq_ok
    | elsewhere tree' => cases hrecords

/-! ## Rows that are refused -/

/-- A data directory, and notes beside a recording elsewhere. -/
def notesElsewhere : Tree OsStr String where
  entry l :=
    if l ∈ ([[], ["d"], ["r"], ["r", "n"]] : List (List String)).map fun names =>
      names.map OsStr.ofString then some .dir
    else none
  cwd := []
  maxLinks := 40

def firstUuid : Uuid := ⟨"0123456789abcdef0123456789abcdef", rfl, by simp⟩

def cliNotes : CliNotes where
  outDir := OsStr.ofString "/r/n"
  meetingId := firstUuid
  noteId := firstUuid
  title := "r"
  startedAt := "2026-01-01T09:00:00Z"
  endedAt := none
  durationMs := 1000
  language := "auto"
  dialect := "basic"
  primaryPath := "/r/n/notes.md"
  opened := .ok ()
  contentMd := some "# R"

def clock : Ambient := ⟨"2026-01-01T09:00:00Z", 1, 0⟩

def cliSteps : List (Creation String) := [.cli cliNotes []]

def afterCli : Registered String :=
  creations Sqlite.insertion clock (OsStr.ofString "/d") cliSteps ⟨.empty, notesElsewhere⟩

/-- A data directory whose name is no text. -/
def bytesDir : PathBuf := [.char '/', .invalid 255]

def bytesTree : Tree OsStr String where
  entry l := if l ∈ [[], [[.invalid 255]]] then some .dir else none
  cwd := []
  maxLinks := 40

def afterStart : Registered String :=
  creations Sqlite.insertion clock bytesDir [.engine firstUuid "" "2026-01-01T09:00:00Z" "auto" []]
    ⟨.empty, bytesTree⟩

/-- The directories exist, and the rows are refused. -/
theorem not_every_row_operable :
    (pathExists afterCli.tree (OsStr.ofString "/r/n") = true ∧
      registeredDir afterCli (OsStr.ofString "/d") firstUuid.text = .error registryPathInvalid) ∧
    pathExists afterStart.tree (meetingDir bytesDir firstUuid) = true ∧
      registeredDir afterStart bytesDir firstUuid.text = .error registryPathInvalid := by
  decide +kernel

theorem registered_operable_cli :
    EngineMade (OsStr.ofString "/d") cliSteps afterCli.tables firstUuid.text ∨
      CliMade Sqlite.insertion clock (OsStr.ofString "/d") cliSteps ⟨.empty, notesElsewhere⟩
        afterCli.tables
        ⟨firstUuid.text, "r", "2026-01-01T09:00:00Z", none, some 1000, "auto", "/r/n", none,
          none⟩ :=
  registered_operable Sqlite.insertion clock (OsStr.ofString "/d") notesElsewhere cliSteps
    (by decide +kernel)

end Engine
end Panops
