import Mathlib.Data.List.Forall2
import Panops.Export.Markdown
import Panops.Notes.Outcome

/-!
# The copies of the screenshots

When the names that the exporter makes up for the copies are different, and when
each copy holds what its source held.
-/

namespace Panops

open Lib Lib.Text Lib.Decimal

namespace MarkdownExporter

/-! ## Names -/

theorem append_inj_of_digits {ds ds' rest rest' : List Char}
    (hds : ∀ c ∈ ds, c.isDigit = true) (hds' : ∀ c ∈ ds', c.isDigit = true)
    (hrest : ∀ c, rest.head? = some c → c.isDigit = false)
    (hrest' : ∀ c, rest'.head? = some c → c.isDigit = false) (h : ds ++ rest = ds' ++ rest') :
    ds = ds' ∧ rest = rest' := by
  have htake := takeWhile_eq_of_maximal hds hrest
  rw [h, takeWhile_eq_of_maximal hds' hrest'] at htake
  subst htake
  exact ⟨rfl, List.append_cancel_left h⟩

theorem head?_dotExtension (p : Path) :
    ∀ c, (dotExtension p).toList.head? = some c → c.isDigit = false := by
  intro c hc
  unfold dotExtension at hc
  split at hc
  · rw [String.toList_append] at hc
    obtain rfl : '.' = c := Option.some.inj hc
    rfl
  · simp at hc

theorem dotExtension_inj {p q : Path} (h : dotExtension p = dotExtension q) :
    p.extension = q.extension := by
  unfold dotExtension at h
  split at h <;> split at h <;> simp_all

/-- A name tells the section, the timestamp and the extension. -/
theorem uniqueName_inj {k k' : Nat} {a b : Screenshot} :
    uniqueName k a = uniqueName k' b ↔
      k = k' ∧ a.msSinceStart = b.msSinceStart ∧ a.path.extension = b.path.extension := by
  constructor
  · intro h
    have hlist := congrArg String.toList h
    simp only [uniqueName, String.toList_append, String.toList_ofList, List.append_assoc] at hlist
    have htail := List.append_cancel_left hlist
    have hunder : ∀ (rest : List Char) (c : Char), ("_".toList ++ rest).head? = some c →
        c.isDigit = false := by
      intro rest c hc
      obtain rfl : '_' = c := Option.some.inj hc
      rfl
    obtain ⟨hindex, htail⟩ := append_inj_of_digits (fun c => isDigit_of_mem_zeroPadded)
      (fun c => isDigit_of_mem_zeroPadded) (hunder _) (hunder _) htail
    obtain ⟨hms, hext⟩ := append_inj_of_digits (fun c => isDigit_of_mem_zeroPadded)
      (fun c => isDigit_of_mem_zeroPadded) (head?_dotExtension a.path) (head?_dotExtension b.path)
      (List.append_cancel_left htail)
    exact ⟨zeroPadded_injective hindex, zeroPadded_injective hms,
      dotExtension_inj (String.toList_injective hext)⟩
  · intro h
    obtain ⟨rfl, hms, hext⟩ := h
    rw [uniqueName, uniqueName, hms, dotExtension, dotExtension, hext]

/-! ## The copies of a script -/

/-- Every screenshot with the path of its copy, in the order of the export. -/
def exportedCopies (notes : StructuredNotes) (dest : Path) : List (Path × Path) :=
  (notes.sections.map fun sec =>
    sec.screenshots.map fun shot => (shot.path, assetOf dest sec.index shot)).flatten

theorem map_snd_exportedCopies (notes : StructuredNotes) (dest : Path) :
    (exportedCopies notes dest).map Prod.snd = assetsOf notes dest := by
  rw [exportedCopies, assetsOf, List.map_flatten, List.map_map]
  congr 1
  refine List.map_congr_left fun sec _ => ?_
  rw [Function.comp_apply, List.map_map]
  rfl

theorem not_isWrite_of_mem_assetActs {notes : StructuredNotes} {dest : Path}
    {a : Act Bytes ExportError} (ha : a ∈ assetActs notes dest) : ¬ a.IsWrite := by
  have hshot : ∀ {k shot}, a ∈ screenshotActs dest k shot → ¬ a.IsWrite := by
    intro k shot ha
    unfold screenshotActs at ha
    split at ha <;> obtain rfl := List.mem_singleton.mp ha <;> exact id
  rcases List.mem_cons.mp ha with rfl | ha
  · exact id
  · rcases List.mem_cons.mp ha with rfl | ha
    · exact id
    · obtain ⟨sec, _, ha⟩ := List.mem_flatMap.mp ha
      unfold sectionActs at ha
      split at ha
      · simp at ha
      · rcases List.mem_cons.mp ha with rfl | ha
        · exact id
        · obtain ⟨shot, _, ha⟩ := List.mem_flatMap.mp ha
          exact hshot ha

/-- An export writes its copies and the notes. -/
theorem target_of_mem_exportActs {notes : StructuredNotes} {dest : Path}
    {a : Act Bytes ExportError} (ha : a ∈ exportActs notes dest) {q : Path}
    (htarget : a.target = some q) :
    q = dest.join "notes.md" ∨ ∃ c ∈ exportedCopies notes dest, c.2 = q := by
  rcases List.mem_append.mp ha with ha | ha
  · rcases List.mem_cons.mp ha with rfl | ha
    · simp [Act.target] at htarget
    · rcases List.mem_cons.mp ha with rfl | ha
      · simp [Act.target] at htarget
      · obtain ⟨sec, hsec, ha⟩ := List.mem_flatMap.mp ha
        unfold sectionActs at ha
        split at ha
        · simp at ha
        · rcases List.mem_cons.mp ha with rfl | ha
          · simp [Act.target] at htarget
          · obtain ⟨shot, hshot, ha⟩ := List.mem_flatMap.mp ha
            unfold screenshotActs at ha
            split at ha <;> obtain rfl := List.mem_singleton.mp ha
            · simp [Act.target] at htarget
            · exact Or.inr ⟨_, List.mem_flatten.mpr ⟨_, List.mem_map_of_mem hsec,
                List.mem_map_of_mem hshot⟩, Option.some.inj htarget⟩
  · obtain rfl := List.mem_singleton.mp ha
    exact Or.inl (Option.some.inj htarget).symm

/-- The copies of an export in which no screenshot lacks a file name. -/
theorem copiesOf_assetActs {notes : StructuredNotes} {dest : Path}
    (h : ∀ err, Act.fail err ∉ assetActs notes dest) :
    Script.copiesOf (assetActs notes dest) = exportedCopies notes dest := by
  have hname : ∀ sec ∈ notes.sections, ∀ shot ∈ sec.screenshots, shot.path.fileName ≠ none := by
    intro sec hsec shot hshot hnone
    refine h (.render "screenshot has no file_name") ?_
    have hne : sec.screenshots.isEmpty = false := by
      cases hshots : sec.screenshots with
      | nil => simp [hshots] at hshot
      | cons _ _ => rfl
    refine List.mem_cons_of_mem _ (List.mem_cons_of_mem _ (List.mem_flatMap.mpr ⟨sec, hsec, ?_⟩))
    rw [sectionActs, hne, if_neg (by simp)]
    refine List.mem_cons_of_mem _ (List.mem_flatMap.mpr ⟨shot, hshot, ?_⟩)
    rw [screenshotActs, if_pos hnone]
    exact List.mem_singleton_self _
  have hsections : ∀ sec ∈ notes.sections, (sectionActs dest sec).flatMap Act.copies =
      sec.screenshots.map fun shot => (shot.path, assetOf dest sec.index shot) := by
    intro sec hsec
    have hshots : ∀ shots : List Screenshot, (∀ shot ∈ shots, shot.path.fileName ≠ none) →
        (shots.flatMap (screenshotActs dest sec.index)).flatMap Act.copies =
          shots.map fun shot => (shot.path, assetOf dest sec.index shot) := by
      intro shots
      induction shots with
      | nil => intro _; rfl
      | cons shot shots ih =>
        intro hall
        rw [List.flatMap_cons, List.flatMap_append,
          ih fun other hother => hall other (List.mem_cons_of_mem shot hother), screenshotActs,
          if_neg (hall shot List.mem_cons_self)]
        rfl
    unfold sectionActs
    split
    · next hempty => rw [List.isEmpty_iff.mp hempty]; rfl
    · exact hshots sec.screenshots (hname sec hsec)
  show (notes.sections.flatMap (sectionActs dest)).flatMap Act.copies = exportedCopies notes dest
  rw [List.flatMap_assoc, exportedCopies, List.flatMap_def]
  congr 1
  exact List.map_congr_left hsections

/-- The notes file is none of the copies. -/
theorem assetOf_ne_notes (dest : Path) (k : Nat) (shot : Screenshot) :
    assetOf dest k shot ≠ dest.join "notes.md" := by
  intro h
  have hlen := congrArg List.length h
  simp [assetOf, Path.join] at hlen

/-- What a successful export says of its parts. -/
theorem exportNotes_ok {notes : StructuredNotes} {dest : Path} {d d' : Disk Bytes}
    {artifact : ExportArtifact} (h : exportNotes notes dest d = (.ok artifact, d')) :
    artifact.assets = assetsOf notes dest ∧
      (Script.runAll .io (exportActs notes dest) d).1 = .ok () ∧
      (Script.runAll .io (assetActs notes dest) d).1 = .ok () ∧
      ∀ k shot, d'.read (assetOf dest k shot) =
        (Script.runAll .io (assetActs notes dest) d).2.read (assetOf dest k shot) := by
  obtain ⟨rfl, hok, rfl⟩ := (follows_exportNotes notes dest).eq_ok_iff.mp h
  obtain ⟨hassets, hrest⟩ := Script.runAll_append_ok hok
  refine ⟨rfl, hok, hassets, fun k shot => ?_⟩
  rw [exportActs, hrest]
  refine Script.read_runAll_of_not_target (fun a ha => ?_) _
  obtain rfl := List.mem_singleton.mp ha
  intro htarget
  exact assetOf_ne_notes dest k shot (Option.some.inj htarget).symm

theorem mem_exportedCopies {notes : StructuredNotes} {dest : Path} {c : Path × Path}
    (hc : c ∈ exportedCopies notes dest) : ∃ k shot, c = (shot.path, assetOf dest k shot) := by
  obtain ⟨copies, hcopies, hc⟩ := List.mem_flatten.mp hc
  obtain ⟨sec, _, rfl⟩ := List.mem_map.mp hcopies
  obtain ⟨shot, _, rfl⟩ := List.mem_map.mp hc
  exact ⟨sec.index, shot, rfl⟩

/-- An export into directories that exist, of files that exist, cannot fail on
its screenshots. -/
theorem enabled_assetActs {notes : StructuredNotes} {dest : Path} {d : Disk Bytes}
    (hdest : d.kind dest = some .dir) (hshots : d.kind (dest.join "screenshots") = some .dir)
    (hsource : ∀ c ∈ exportedCopies notes dest, d.kind c.1 = some .file)
    (htarget : ∀ c ∈ exportedCopies notes dest, d.kind c.2 ≠ some .dir) :
    ∀ a ∈ assetActs notes dest, a.Enabled d := by
  intro a ha
  rcases List.mem_cons.mp ha with rfl | ha
  · exact hdest
  · rcases List.mem_cons.mp ha with rfl | ha
    · exact hdest
    · obtain ⟨sec, hsec, ha⟩ := List.mem_flatMap.mp ha
      unfold sectionActs at ha
      split at ha
      · simp at ha
      · rcases List.mem_cons.mp ha with rfl | ha
        · exact hshots
        · obtain ⟨shot, hshot, ha⟩ := List.mem_flatMap.mp ha
          have hc : (shot.path, assetOf dest sec.index shot) ∈ exportedCopies notes dest :=
            List.mem_flatten.mpr ⟨_, List.mem_map_of_mem hsec, List.mem_map_of_mem hshot⟩
          have hfile := hsource _ hc
          have hname : shot.path.fileName ≠ none := by
            intro hnone
            have hroot : shot.path = [] := List.getLast?_eq_none_iff.mp hnone
            rw [hroot] at hfile
            simp [Disk.kind, Disk.node, Node.kind] at hfile
          rw [screenshotActs, if_neg hname] at ha
          obtain rfl := List.mem_singleton.mp ha
          exact ⟨hfile, by rw [assetOf, Path.dropLast_join]; exact hshots, htarget _ hc⟩

theorem exportNotes_of_kinds {notes : StructuredNotes} {dest : Path} {d : Disk Bytes}
    (hdest : d.kind dest = some .dir) (hshots : d.kind (dest.join "screenshots") = some .dir)
    (hnotes : d.kind (dest.join "notes.md") ≠ some .dir)
    (hsource : ∀ c ∈ exportedCopies notes dest, d.kind c.1 = some .file)
    (htarget : ∀ c ∈ exportedCopies notes dest, d.kind c.2 ≠ some .dir) :
    ∃ d', exportNotes notes dest d =
      (.ok { primaryFile := dest.join "notes.md", assets := assetsOf notes dest }, d') := by
  refine ⟨_, (follows_exportNotes notes dest).eq_ok_iff.mpr ⟨rfl, ?_, rfl⟩⟩
  refine Script.runAll_of_enabled fun a ha => ?_
  rcases List.mem_append.mp ha with ha | ha
  · exact enabled_assetActs hdest hshots hsource htarget a ha
  · obtain rfl := List.mem_singleton.mp ha
    exact ⟨by rwa [Path.dropLast_join], hnotes⟩

/-- Every copy of an export holds what its source held before the export. -/
def KeepsSources (notes : StructuredNotes) (dest : Path) (d d' : Disk Bytes) : Prop :=
  ∀ c ∈ exportedCopies notes dest, d'.read c.2 = d.read c.1

/-- Where an export can succeed, the copies have different names and hold what
their sources held, on every disk on which it succeeds, exactly when the names
differ and no screenshot is read from the path of its own or an earlier copy. -/
theorem keepsSources_iff {notes : StructuredNotes} {dest : Path}
    (hdest : ∃ d artifact d', exportNotes notes dest d = (.ok artifact, d')) :
    (∀ d artifact d', exportNotes notes dest d = (.ok artifact, d') →
        artifact.assets.Nodup ∧ KeepsSources notes dest d d') ↔
      (assetsOf notes dest).Nodup ∧ Copies.Clean (exportedCopies notes dest) := by
  obtain ⟨d₀, artifact₀, d₀', h₀⟩ := hdest
  obtain ⟨hassets₀, hok₀, hpre₀, _⟩ := exportNotes_ok h₀
  have hcopies := copiesOf_assetActs fun err => Script.fail_not_mem_of_runAll hpre₀ err
  have hwrite : ∀ a ∈ assetActs notes dest, ¬ a.IsWrite := fun a => not_isWrite_of_mem_assetActs
  constructor
  · intro h
    have hnodup : (assetsOf notes dest).Nodup := hassets₀ ▸ (h _ _ _ h₀).1
    refine ⟨hnodup, ?_⟩
    rw [← hcopies]
    rw [← map_snd_exportedCopies, ← hcopies] at hnodup
    have hxy : ([0] : Bytes) ≠ [1] := by decide
    have hx : ([0] : Bytes) ≠ ∅ := List.cons_ne_nil _ _
    refine Script.clean_of_read hxy hx hwrite hnodup hpre₀ fun m c hc => ?_
    have hfill : (Script.runAll .io (exportActs notes dest) (d₀.fill m)).1 = .ok () :=
      Script.runAll_congr (d₀.sameShape_fill m) hok₀
    have hexport := (follows_exportNotes notes dest).eq_ok_iff.mpr ⟨rfl, hfill, rfl⟩
    obtain ⟨_, _, _, hread⟩ := exportNotes_ok hexport
    rw [hcopies] at hc
    have hkeep := (h _ _ _ hexport).2 c hc
    obtain ⟨k, shot, rfl⟩ := mem_exportedCopies hc
    rwa [hread k shot] at hkeep
  · intro h d artifact d' hexport
    obtain ⟨hnodup, hclean⟩ := h
    obtain ⟨hassets, _, hpre, hread⟩ := exportNotes_ok hexport
    refine ⟨hassets ▸ hnodup, fun c hc => ?_⟩
    rw [← map_snd_exportedCopies, ← hcopies] at hnodup
    rw [← hcopies] at hclean hc
    have hkeep := Script.read_of_clean hwrite hnodup hclean hpre hc
    rw [hcopies] at hc
    obtain ⟨k, shot, rfl⟩ := mem_exportedCopies hc
    rw [← hkeep]
    exact hread k shot

end MarkdownExporter

/-! ## The copies of a run -/

namespace Pipeline

open MarkdownExporter ScreenshotAnchoring

variable (ambient : Ambient) (input : NotesInput) (dest : Path)

/-- The path of the copy of a screenshot that carries its final timestamp. -/
def assetPath (shot : Screenshot) : Path :=
  assetOf dest (sectionIndex (sectionForTimestamp (topics ambient input) shot.msSinceStart)) shot

/-- The screenshots in the order in which they are exported. -/
def exportedScreenshots : List Screenshot := (anchoredScreenshots ambient input).flatten

variable {ambient input dest} {provider : Provider} {dialect : MarkdownDialect}

/-- A screenshot stands in the section of its timestamp. -/
theorem sectionForTimestamp_of_mem {i : Nat} {shots : List Screenshot}
    (hshots : (anchoredScreenshots ambient input)[i]? = some shots) {shot : Screenshot}
    (hshot : shot ∈ shots) :
    sectionForTimestamp (topics ambient input) shot.msSinceStart = i := by
  have hi : i < (topics ambient input).length := by
    rw [← length_anchorScreenshots _ (clampScreenshots input.meetingMetadata.durationMs
      input.screenshots)]
    exact (List.getElem?_eq_some_iff.mp hshots).1
  rw [anchoredScreenshots, getElem?_anchorScreenshots _ hi] at hshots
  rw [← Option.some.inj hshots] at hshot
  simpa using (List.mem_filter.mp hshot).2

theorem exportedCopies_notesOf :
    exportedCopies (notesOf ambient provider dialect input) dest =
      (exportedScreenshots ambient input).map fun shot =>
        (shot.path, assetPath ambient input dest shot) := by
  have hsections : (notesOf ambient provider dialect input).sections.map
      (fun sec => sec.screenshots.map fun shot => (shot.path, assetOf dest sec.index shot)) =
      (anchoredScreenshots ambient input).map
        (List.map fun shot => (shot.path, assetPath ambient input dest shot)) := by
    apply List.ext_getElem?
    intro i
    rw [List.getElem?_map, List.getElem?_map]
    cases hsec : (notesOf ambient provider dialect input).sections[i]? with
    | none =>
      rw [List.getElem?_eq_none_iff, length_sections_notesOf] at hsec
      have hnone : (anchoredScreenshots ambient input)[i]? = none := by
        rw [List.getElem?_eq_none_iff, anchoredScreenshots, length_anchorScreenshots]
        exact hsec
      rw [hnone]
      rfl
    | some sec =>
      obtain ⟨run, shots, _, hshots, rfl⟩ := getElem?_sections_notesOf hsec
      rw [hshots, Option.map_some, Option.map_some]
      refine congrArg some (List.map_congr_left fun shot hshot => ?_)
      rw [assetPath, sectionForTimestamp_of_mem hshots hshot]
      rfl
  rw [exportedCopies, hsections, exportedScreenshots, List.map_flatten]

theorem flatMap_screenshots_notesOf :
    (notesOf ambient provider dialect input).sections.flatMap NotesSection.screenshots =
      exportedScreenshots ambient input := by
  rw [List.flatMap_def, map_screenshots_notesOf]
  rfl

theorem assetPath_inj {a b : Screenshot} :
    assetPath ambient input dest a = assetPath ambient input dest b ↔
      a.msSinceStart = b.msSinceStart ∧ a.path.extension = b.path.extension := by
  rw [assetPath, assetPath, assetOf, assetOf, Path.join_right_inj, uniqueName_inj]
  constructor
  · exact fun h => h.2
  · exact fun h => ⟨by rw [h.1], h⟩

/-- Two screenshots of one kind of file that both lie at or past the end of the
meeting. -/
def BothPastEnd (durationMs : Nat) (a b : Screenshot) : Prop :=
  a.path.extension = b.path.extension ∧ 0 < durationMs ∧ durationMs ≤ a.msSinceStart ∧
    durationMs ≤ b.msSinceStart

/-- Screenshots taken at different times get different names unless the clamp
moves two of one kind to the same timestamp. -/
theorem nodup_assetsOf_iff (hne : input.transcript ≠ [])
    (hdistinct : input.screenshots.Pairwise fun a b => a.msSinceStart ≠ b.msSinceStart) :
    (assetsOf (notesOf ambient provider dialect input) dest).Nodup ↔
      input.screenshots.Pairwise fun a b =>
        ¬ BothPastEnd input.meetingMetadata.durationMs a b := by
  have hperm : (exportedScreenshots ambient input).Perm
      (clampScreenshots input.meetingMetadata.durationMs input.screenshots) :=
    flatten_anchorScreenshots_perm (topics_ne_nil hne) _
  rw [← map_snd_exportedCopies, exportedCopies_notesOf, List.map_map,
    (hperm.map _).nodup_iff, clampScreenshots]
  have hpairs : ∀ f : Screenshot → Screenshot,
      ((input.screenshots.map f).map (Prod.snd ∘ fun shot =>
          (shot.path, assetPath ambient input dest shot))).Nodup ↔
        input.screenshots.Pairwise fun a b =>
          ¬ ((f a).msSinceStart = (f b).msSinceStart ∧
            (f a).path.extension = (f b).path.extension) := by
    intro f
    rw [List.map_map, List.Nodup, List.pairwise_map]
    simp only [Function.comp_apply, ne_eq, assetPath_inj]
  split
  · next hzero =>
    have hid := hpairs id
    rw [List.map_id] at hid
    rw [hid]
    refine ⟨fun _ => ?_, fun _ => hdistinct.imp fun hms h => hms h.1⟩
    exact hdistinct.imp fun _ h => by
      have := h.2.1
      omega
  · next hpos =>
    rw [hpairs]
    have hclamp : ∀ a b : Screenshot, a.msSinceStart ≠ b.msSinceStart →
        ((min a.msSinceStart input.meetingMetadata.durationMs =
            min b.msSinceStart input.meetingMetadata.durationMs ∧
          a.path.extension = b.path.extension) ↔
            BothPastEnd input.meetingMetadata.durationMs a b) := by
      intro a b hms
      rw [BothPastEnd]
      constructor
      · intro h
        exact ⟨h.2, by omega⟩
      · intro h
        exact ⟨by omega, h.1⟩
    constructor
    · intro h
      exact List.Pairwise.imp (fun hab => (not_congr (hclamp _ _ hab.2)).mp hab.1)
        (h.and hdistinct)
    · intro h
      exact List.Pairwise.imp (fun hab => (not_congr (hclamp _ _ hab.2)).mpr hab.1)
        (h.and hdistinct)

/-! ## A meeting of one topic -/

theorem sectionForTimestamp_singleton (raw : RawSection) (ms : Nat) :
    sectionForTimestamp [raw] ms = 0 := by
  have hlt := sectionForTimestamp_lt (List.cons_ne_nil raw []) ms
  rw [List.length_singleton] at hlt
  omega

/-- In a meeting of one topic every screenshot goes to its section. -/
theorem exportedScreenshots_of_topics {raw : RawSection} (htopics : topics ambient input = [raw]) :
    exportedScreenshots ambient input =
      clampScreenshots input.meetingMetadata.durationMs input.screenshots := by
  rw [exportedScreenshots, anchoredScreenshots, htopics]
  have hone := getElem?_anchorScreenshots (clampScreenshots input.meetingMetadata.durationMs
    input.screenshots) (show 0 < [raw].length from Nat.one_pos)
  simp only [sectionForTimestamp_singleton, decide_true, List.filter_true] at hone
  have hlen := length_anchorScreenshots [raw]
    (clampScreenshots input.meetingMetadata.durationMs input.screenshots)
  obtain ⟨shots, hshots⟩ := List.length_eq_one_iff.mp hlen
  rw [hshots] at hone ⊢
  obtain rfl := Option.some.inj hone
  exact List.flatten_singleton

theorem exportedCopies_of_topics {raw : RawSection} (htopics : topics ambient input = [raw]) :
    exportedCopies (notesOf ambient provider dialect input) dest =
      (clampScreenshots input.meetingMetadata.durationMs input.screenshots).map fun shot =>
        (shot.path, assetOf dest 1 shot) := by
  rw [exportedCopies_notesOf, exportedScreenshots_of_topics htopics]
  refine List.map_congr_left fun shot _ => ?_
  rw [assetPath, htopics, sectionForTimestamp_singleton]
  rfl

def shotsInput (screenshots : List Screenshot) : NotesInput :=
  { manyTopicsInput 1 with screenshots := screenshots }

/-- A meeting directory, and two images next to it. -/
def meetingDisk : Disk Bytes :=
  [(["m"], .dir), (["m", "screenshots"], .dir), (["a.png"], .file [1]), (["b.png"], .file [2])]

theorem topics_shotsInput (screenshots : List Screenshot) :
    topics .fixed (shotsInput screenshots) = [TopicSegmentation.sectionOf (manyTopics 1) [0]] :=
  TopicSegmentation.segmentTopics_singleton _ .default (TopicSegmentation.utterance 0 50000)

theorem exportedCopies_shotsInput (screenshots : List Screenshot) :
    exportedCopies (notesOf .fixed textProvider .basic (shotsInput screenshots)) ["m"] =
      (clampScreenshots 100000 screenshots).map fun shot => (shot.path, assetOf ["m"] 1 shot) := by
  exact exportedCopies_of_topics (topics_shotsInput screenshots)

theorem export_shotsInput (screenshots : List Screenshot)
    (h : ∀ shot ∈ screenshots, shot.path = ["a.png"] ∨ shot.path = ["b.png"]) :
    ∃ d', exportNotes (notesOf .fixed textProvider .basic (shotsInput screenshots)) ["m"]
        meetingDisk =
      (.ok { primaryFile := ["m", "notes.md"],
             assets := (clampScreenshots 100000 screenshots).map (assetOf ["m"] 1) }, d') := by
  have hpath : ∀ shot ∈ clampScreenshots 100000 screenshots,
      shot.path = ["a.png"] ∨ shot.path = ["b.png"] := by
    rw [clampScreenshots, if_neg (by omega)]
    exact List.forall_mem_map.mpr h
  have hassets : assetsOf (notesOf .fixed textProvider .basic (shotsInput screenshots)) ["m"] =
      (clampScreenshots 100000 screenshots).map (assetOf ["m"] 1) := by
    rw [← map_snd_exportedCopies, exportedCopies_shotsInput, List.map_map]
    rfl
  rw [← hassets]
  apply exportNotes_of_kinds (by decide) (by decide) (by decide) <;>
    rw [exportedCopies_shotsInput, List.forall_mem_map]
  · intro shot hshot
    rcases hpath shot hshot with hp | hp <;> rw [hp] <;> rfl
  · intro shot _
    simp [assetOf, Path.join, meetingDisk, Disk.kind, Disk.node, List.lookup_cons]

/-! ## Intact copies -/

/-- The copies of the screenshots of a meeting have different names and hold what
their sources held, on every disk on which the export succeeds, exactly when no
two images of one kind lie past the end and no image is read from the path of its
own or an earlier copy. -/
theorem exported_screenshots_intact_iff (ambient : Ambient) (provider : Provider)
    (dialect : MarkdownDialect) {input : NotesInput} {notes : StructuredNotes}
    (hok : generate ambient provider dialect input = .ok notes)
    (hdistinct : input.screenshots.Pairwise fun a b => a.msSinceStart ≠ b.msSinceStart)
    {dest : Path} (hdest : ∃ d artifact d', exportNotes notes dest d = (.ok artifact, d')) :
    (∀ d artifact d', exportNotes notes dest d = (.ok artifact, d') →
        artifact.assets.Nodup ∧
          List.Forall₂ (fun shot asset => d'.read asset = d.read shot.path)
            (notes.sections.flatMap NotesSection.screenshots) artifact.assets) ↔
      (input.screenshots.Pairwise fun a b =>
          ¬ BothPastEnd input.meetingMetadata.durationMs a b) ∧
        ((exportedScreenshots ambient input).Pairwise fun a b =>
          b.path ≠ assetPath ambient input dest a) ∧
        ∀ a ∈ exportedScreenshots ambient input, a.path ≠ assetPath ambient input dest a := by
  obtain ⟨hne, rfl⟩ := eq_notesOf_of_generate hok
  have hkeeps : ∀ d d' : Disk Bytes, KeepsSources (notesOf ambient provider dialect input) dest d d' ↔
      List.Forall₂ (fun shot asset => d'.read asset = d.read shot.path)
        ((notesOf ambient provider dialect input).sections.flatMap NotesSection.screenshots)
        (assetsOf (notesOf ambient provider dialect input) dest) := by
    intro d d'
    rw [KeepsSources, ← map_snd_exportedCopies, exportedCopies_notesOf,
      flatMap_screenshots_notesOf, List.map_map, List.forall_mem_map,
      List.forall₂_map_right_iff, List.forall₂_same]
    rfl
  rw [← nodup_assetsOf_iff hne hdistinct]
  have hclean : Copies.Clean (exportedCopies (notesOf ambient provider dialect input) dest) ↔
      ((exportedScreenshots ambient input).Pairwise fun a b =>
          b.path ≠ assetPath ambient input dest a) ∧
        ∀ a ∈ exportedScreenshots ambient input, a.path ≠ assetPath ambient input dest a := by
    rw [Copies.Clean, exportedCopies_notesOf, List.pairwise_map, List.forall_mem_map]
  rw [← hclean, ← keepsSources_iff hdest]
  refine forall₃_congr fun d artifact d' => ?_
  refine forall_congr' fun hexport => ?_
  rw [hkeeps, (exportNotes_ok hexport).1]

/-- Two images from past the end of the meeting. -/
def lateScreenshots : List Screenshot :=
  [⟨100000, ["a.png"], none⟩, ⟨200000, ["b.png"], none⟩]

/-- Images past the end get one name, and the second replaces the first. -/
theorem exported_screenshots_collide :
    (lateScreenshots.Pairwise fun a b => a.msSinceStart ≠ b.msSinceStart) ∧
    ∃ notes d artifact d',
      generate .fixed textProvider .basic (shotsInput lateScreenshots) = .ok notes ∧
      exportNotes notes ["m"] d = (.ok artifact, d') ∧ ¬ artifact.assets.Nodup ∧
      ¬ List.Forall₂ (fun shot asset => d'.read asset = d.read shot.path)
        (notes.sections.flatMap NotesSection.screenshots) artifact.assets := by
  obtain ⟨d', hexport⟩ := export_shotsInput lateScreenshots (by simp [lateScreenshots])
  refine ⟨by simp [lateScreenshots], _, meetingDisk, _, d',
    generate_textProvider .fixed .basic (List.cons_ne_nil _ _), hexport, by decide, fun hkeep => ?_⟩
  rw [flatMap_screenshots_notesOf, exportedScreenshots_of_topics (topics_shotsInput _)] at hkeep
  obtain ⟨hfirst, hrest⟩ := List.forall₂_cons.mp hkeep
  obtain ⟨hsecond, _⟩ := List.forall₂_cons.mp hrest
  have hname : assetOf ["m"] 1 ⟨100000, ["a.png"], none⟩ =
      assetOf ["m"] 1 ⟨100000, ["b.png"], none⟩ := by decide
  have hsame : meetingDisk.read ["a.png"] = meetingDisk.read ["b.png"] :=
    hfirst.symm.trans ((congrArg d'.read hname).trans hsecond)
  exact absurd hsame (by decide)

/-- Images from the middle and past the end of the meeting. -/
def apartScreenshots : List Screenshot :=
  [⟨50000, ["a.png"], none⟩, ⟨200000, ["b.png"], none⟩]

theorem exported_screenshots_intact_apart :
    ∃ notes d artifact d',
      generate .fixed textProvider .basic (shotsInput apartScreenshots) = .ok notes ∧
      exportNotes notes ["m"] d = (.ok artifact, d') ∧ artifact.assets.Nodup ∧
      List.Forall₂ (fun shot asset => d'.read asset = d.read shot.path)
        (notes.sections.flatMap NotesSection.screenshots) artifact.assets := by
  obtain ⟨d', hexport⟩ := export_shotsInput apartScreenshots (by simp [apartScreenshots])
  have hok : generate .fixed textProvider .basic (shotsInput apartScreenshots) = .ok _ :=
    generate_textProvider .fixed .basic (List.cons_ne_nil _ _)
  refine ⟨_, _, _, _, hok, hexport,
    (exported_screenshots_intact_iff .fixed textProvider .basic hok
      (by simp [shotsInput, apartScreenshots]) ⟨_, _, _, hexport⟩).mpr ?_ _ _ _ hexport⟩
  rw [exportedScreenshots_of_topics (topics_shotsInput _)]
  refine ⟨by simp [shotsInput, apartScreenshots, BothPastEnd, manyTopicsInput], ?_, ?_⟩
  · simp [shotsInput, apartScreenshots, clampScreenshots, manyTopicsInput, assetPath, assetOf,
      Path.join]
  · simp [shotsInput, apartScreenshots, clampScreenshots, manyTopicsInput, assetPath, assetOf,
      Path.join]

end Pipeline
end Panops
