import Mathlib.Logic.Function.Basic
import Panops.Engine.Paths
import Panops.Lib.Transitions

/-!
# `notes.json`

Every generation of notes on a meeting writes `notes.json.partial` and renames it.
The name is the same for all of them, and a file stays open under its old name, so
the model tells a name from the file that it stands for.
-/

namespace Panops
namespace Engine

open Lib.Transitions

variable {ι : Type}

inductive Writing where
  | ready
  /-- The file that the job has open, and how far it has come in it. -/
  | writing (file offset : Nat)
  | finished
deriving DecidableEq

/-- The directory of a meeting, the content of each file, and what each job does. -/
structure JsonFiles (ι : Type) where
  content : Nat → Bytes
  /-- No file from here on has been made. -/
  unused : Nat
  tempFile : Option Nat
  notesJson : Option Nat
  job : ι → Writing

def JsonFiles.start : JsonFiles ι where
  content _ := []
  unused := 0
  tempFile := none
  notesJson := none
  job _ := .ready

inductive JsonStep where
  /-- Makes the file, or cuts it to nothing. -/
  | openFile
  | write (count : Nat)
  | rename
  /-- The job fails, or the engine ends. -/
  | stop

/-- A file after some bytes are written at an offset. -/
def writeAt (content : Bytes) (offset : Nat) (bytes : Bytes) : Bytes :=
  content.take offset ++ List.replicate (offset - content.length) 0 ++ bytes ++
    content.drop (offset + bytes.length)

variable [DecidableEq ι]

/-- What a job of `write_structured_notes_json` does next; `json i` is what job `i`
has serialised. -/
def jsonStep (json : ι → Bytes) (s : JsonFiles ι) : ι × JsonStep → Option (JsonFiles ι)
  | (i, .openFile) =>
    match s.job i with
    | .ready =>
      match s.tempFile with
      | some file =>
        some { s with
          content := Function.update s.content file []
          job := Function.update s.job i (.writing file 0) }
      | none =>
        some { s with
          content := Function.update s.content s.unused []
          unused := s.unused + 1
          tempFile := some s.unused
          job := Function.update s.job i (.writing s.unused 0) }
    | _ => none
  | (i, .write count) =>
    match s.job i with
    | .writing file offset =>
      if 0 < count ∧ offset + count ≤ (json i).length then
        some { s with
          content := Function.update s.content file
            (writeAt (s.content file) offset (((json i).drop offset).take count))
          job := Function.update s.job i (.writing file (offset + count)) }
      else none
    | _ => none
  | (i, .rename) =>
    match s.job i with
    | .writing _ offset =>
      if offset = (json i).length then
        match s.tempFile with
        | some file =>
          some { s with
            tempFile := none
            notesJson := some file
            job := Function.update s.job i .finished }
        | none => some { s with job := Function.update s.job i .finished }
      else none
    | _ => none
  | (i, .stop) => some { s with job := Function.update s.job i .finished }

/-- `notes.json` is absent or the whole of what one job has serialised. -/
def Whole (json : ι → Bytes) (s : JsonFiles ι) : Prop :=
  ∀ file, s.notesJson = some file → ∃ i, s.content file = json i

/-- Every write and every rename is by the job that has opened the partial file last. -/
def ByLastOpener : Option ι → List (ι × JsonStep) → Prop
  | _, [] => True
  | _, (i, .openFile) :: steps => ByLastOpener (some i) steps
  | owner, (i, .write _) :: steps => owner = some i ∧ ByLastOpener owner steps
  | owner, (i, .rename) :: steps => owner = some i ∧ ByLastOpener owner steps
  | owner, (_, .stop) :: steps => ByLastOpener owner steps

/-- A job opens the partial file only while no other one is between its open and its end. -/
def OpensAlone (s : JsonFiles ι) (step : ι × JsonStep) : Prop :=
  step.2 = .openFile → ∀ j file offset, s.job j ≠ .writing file offset

/-! ## What every step keeps -/

/-- The job that has opened the partial file last finds in it what it has written, and
`notes.json` is another file. -/
structure JsonInv (json : ι → Bytes) (owner : Option ι) (s : JsonFiles ι) : Prop where
  whole : Whole json s
  apart : ∀ file, s.tempFile = some file → s.notesJson ≠ some file
  temp : ∀ file, s.tempFile = some file → file < s.unused
  made : ∀ file, s.notesJson = some file → file < s.unused
  own : ∀ i file offset, owner = some i → s.job i = .writing file offset →
    s.tempFile = some file ∧ s.content file = (json i).take offset

section Inv

variable {json : ι → Bytes} {s s' : JsonFiles ι} {owner : Option ι} {i : ι}

omit [DecidableEq ι] in
theorem JsonInv.start (json : ι → Bytes) : JsonInv json none JsonFiles.start where
  whole _ h := nomatch h
  apart _ h := nomatch h
  temp _ h := nomatch h
  made _ h := nomatch h
  own _ _ _ h := nomatch h

/-- What is written comes behind what was written before. -/
theorem writeAt_take (bytes : Bytes) {offset count : Nat} (h : offset + count ≤ bytes.length) :
    writeAt (bytes.take offset) offset ((bytes.drop offset).take count) =
      bytes.take (offset + count) := by
  have hlength : (bytes.take offset).length = offset := by
    rw [List.length_take]
    omega
  have hbehind : (bytes.take offset).drop (offset + ((bytes.drop offset).take count).length) = [] :=
    List.drop_eq_nil_of_le (by omega)
  rw [writeAt, List.take_take, Nat.min_self, hlength, Nat.sub_self, List.replicate_zero,
    List.append_nil, hbehind, List.append_nil, List.take_add]

theorem JsonInv.openFile (hinv : JsonInv json owner s)
    (h : jsonStep json s (i, .openFile) = some s') : JsonInv json (some i) s' := by
  unfold jsonStep at h
  cases hjob : s.job i with
  | ready =>
    cases htemp : s.tempFile with
    | some temp =>
      simp only [hjob, htemp, Option.some.injEq] at h
      subst h
      refine ⟨fun file hfile => ?_, fun file hfile => hinv.apart file (htemp.trans hfile),
        fun file hfile => hinv.temp file (htemp.trans hfile), hinv.made, ?_⟩
      · have hne : file ≠ temp := fun heq => hinv.apart temp htemp (heq ▸ hfile)
        obtain ⟨k, hk⟩ := hinv.whole file hfile
        exact ⟨k, (Function.update_of_ne hne ..).trans hk⟩
      · intro k file offset hk hjob'
        obtain rfl := Option.some.inj hk
        obtain ⟨rfl, rfl⟩ := Writing.writing.inj ((Function.update_self ..).symm.trans hjob')
        exact ⟨rfl, Function.update_self ..⟩
    | none =>
      simp only [hjob, htemp, Option.some.injEq] at h
      subst h
      refine ⟨fun file hfile => ?_, fun file hfile hjson => ?_, fun file hfile => ?_,
        fun file hfile => Nat.lt_succ_of_lt (hinv.made file hfile), ?_⟩
      · have hne : file ≠ s.unused := Nat.ne_of_lt (hinv.made file hfile)
        obtain ⟨k, hk⟩ := hinv.whole file hfile
        exact ⟨k, (Function.update_of_ne hne ..).trans hk⟩
      · have hlt := hinv.made file hjson
        obtain rfl := Option.some.inj hfile
        exact absurd hlt (Nat.lt_irrefl _)
      · obtain rfl := Option.some.inj hfile
        exact Nat.lt_succ_self _
      · intro k file offset hk hjob'
        obtain rfl := Option.some.inj hk
        obtain ⟨rfl, rfl⟩ := Writing.writing.inj ((Function.update_self ..).symm.trans hjob')
        exact ⟨rfl, Function.update_self ..⟩
  | writing file offset => simp [hjob] at h
  | finished => simp [hjob] at h

theorem JsonInv.write (hinv : JsonInv json (some i) s) {count : Nat}
    (h : jsonStep json s (i, .write count) = some s') : JsonInv json (some i) s' := by
  unfold jsonStep at h
  cases hjob : s.job i with
  | ready => simp [hjob] at h
  | finished => simp [hjob] at h
  | writing temp offset =>
    simp only [hjob] at h
    split at h
    · next hcount =>
      obtain rfl := Option.some.inj h
      obtain ⟨htemp, hcontent⟩ := hinv.own i temp offset rfl hjob
      refine ⟨fun file hfile => ?_, hinv.apart, hinv.temp, hinv.made, ?_⟩
      · have hne : file ≠ temp := fun heq => hinv.apart temp htemp (heq ▸ hfile)
        obtain ⟨k, hk⟩ := hinv.whole file hfile
        exact ⟨k, (Function.update_of_ne hne ..).trans hk⟩
      · intro k file offset' hk hjob'
        obtain rfl := Option.some.inj hk
        obtain ⟨rfl, rfl⟩ := Writing.writing.inj ((Function.update_self ..).symm.trans hjob')
        refine ⟨htemp, (Function.update_self ..).trans ?_⟩
        rw [hcontent, writeAt_take _ hcount.2]
    · cases h

theorem JsonInv.rename (hinv : JsonInv json (some i) s)
    (h : jsonStep json s (i, .rename) = some s') : JsonInv json (some i) s' := by
  unfold jsonStep at h
  cases hjob : s.job i with
  | ready => simp [hjob] at h
  | finished => simp [hjob] at h
  | writing temp offset =>
    simp only [hjob] at h
    split at h
    · next hoffset =>
      obtain ⟨htemp, hcontent⟩ := hinv.own i temp offset rfl hjob
      simp only [htemp, Option.some.injEq] at h
      subst h
      refine ⟨fun file hfile => ?_, fun file hfile => (nomatch hfile),
        fun file hfile => (nomatch hfile), fun file hfile => ?_, ?_⟩
      · obtain rfl := Option.some.inj hfile
        refine ⟨i, ?_⟩
        rw [hoffset, List.take_length] at hcontent
        exact hcontent
      · obtain rfl := Option.some.inj hfile
        exact hinv.temp _ htemp
      · intro k file offset' hk hjob'
        obtain rfl := Option.some.inj hk
        cases (Function.update_self ..).symm.trans hjob'
    · cases h

theorem JsonInv.stop (hinv : JsonInv json owner s) (h : jsonStep json s (i, .stop) = some s') :
    JsonInv json owner s' := by
  obtain rfl := Option.some.inj h
  refine ⟨hinv.whole, hinv.apart, hinv.temp, hinv.made, fun k file offset hk hjob => ?_⟩
  have hne : k ≠ i := by
    rintro rfl
    cases (Function.update_self ..).symm.trans hjob
  exact hinv.own k file offset hk ((Function.update_of_ne hne ..).symm.trans hjob)

theorem JsonInv.of_run {steps : List (ι × JsonStep)} (hinv : JsonInv json owner s)
    (hsteps : ByLastOpener owner steps) (hrun : run (jsonStep json) s steps = some s') :
    ∃ owner', JsonInv json owner' s' := by
  induction steps generalizing s owner with
  | nil =>
    cases hrun
    exact ⟨owner, hinv⟩
  | cons step steps ih =>
    unfold run at hrun
    cases hnext : jsonStep json s step with
    | none => simp [hnext] at hrun
    | some s₁ =>
      simp only [hnext] at hrun
      obtain ⟨i, step⟩ := step
      cases step with
      | openFile => exact ih (hinv.openFile hnext) hsteps hrun
      | write count =>
        obtain ⟨rfl, hrest⟩ := hsteps
        exact ih (hinv.write hnext) hrest hrun
      | rename =>
        obtain ⟨rfl, hrest⟩ := hsteps
        exact ih (hinv.rename hnext) hrest hrun
      | stop => exact ih (hinv.stop hnext) hsteps hrun

theorem job_of_others {j : ι} {step : JsonStep} (hj : j ≠ i)
    (h : jsonStep json s (i, step) = some s') : s'.job j = s.job j := by
  have hupdate : ∀ state, Function.update s.job i state j = s.job j :=
    fun _ => Function.update_of_ne hj ..
  unfold jsonStep at h
  cases step with
  | stop =>
    cases h
    exact hupdate _
  | openFile | write count | rename =>
    simp only at h
    repeat' split at h
    all_goals cases h
    all_goals exact hupdate _

theorem writing_of_write {count : Nat} (h : jsonStep json s (i, .write count) = some s') :
    ∃ file offset, s.job i = .writing file offset := by
  unfold jsonStep at h
  cases hjob : s.job i with
  | writing file offset => exact ⟨file, offset, rfl⟩
  | ready | finished => simp [hjob] at h

theorem writing_of_rename (h : jsonStep json s (i, .rename) = some s') :
    ∃ file offset, s.job i = .writing file offset := by
  unfold jsonStep at h
  cases hjob : s.job i with
  | writing file offset => exact ⟨file, offset, rfl⟩
  | ready | finished => simp [hjob] at h

end Inv

/-- However many jobs there are, however their steps interleave and wherever the run ends:
when every write and every rename is by the job that opened the partial file last,
`notes.json` is absent or the whole of what one job has serialised. -/
theorem whole_of_lastOpener (json : ι → Bytes) (steps : List (ι × JsonStep))
    (s : JsonFiles ι) (hsteps : ByLastOpener none steps)
    (hrun : run (jsonStep json) JsonFiles.start steps = some s) : Whole json s := by
  obtain ⟨owner, hinv⟩ := (JsonInv.start json).of_run hsteps hrun
  exact hinv.whole

/-- Jobs that open the file one after the other are each the last that has opened it. -/
theorem byLastOpener_of_opensAlone {json : ι → Bytes} {s s' : JsonFiles ι} {owner : Option ι}
    {steps : List (ι × JsonStep)}
    (howner : ∀ j file offset, s.job j = .writing file offset → owner = some j)
    (hmeets : Meets (jsonStep json) OpensAlone s steps)
    (hrun : run (jsonStep json) s steps = some s') : ByLastOpener owner steps := by
  induction steps generalizing s owner with
  | nil => trivial
  | cons step steps ih =>
    unfold run at hrun
    unfold Meets at hmeets
    cases hnext : jsonStep json s step with
    | none => simp [hnext] at hrun
    | some s₁ =>
      simp only [hnext] at hrun hmeets
      obtain ⟨i, step⟩ := step
      -- the other jobs are where they were
      have hothers : ∀ j, j ≠ i → s₁.job j = s.job j := fun j hj => job_of_others hj hnext
      cases step with
      | openFile =>
        refine ih (fun j file offset hj => ?_) hmeets.2 hrun
        by_cases hji : j = i
        · rw [hji]
        · rw [hothers j hji] at hj
          exact absurd hj (hmeets.1 rfl j file offset)
      | write count =>
        obtain ⟨file, offset, hjob⟩ := writing_of_write hnext
        obtain rfl := howner i file offset hjob
        refine ⟨rfl, ih (fun j file' offset' hj => ?_) hmeets.2 hrun⟩
        by_cases hji : j = i
        · rw [hji]
        · rw [hothers j hji] at hj
          exact howner j file' offset' hj
      | rename =>
        obtain ⟨file, offset, hjob⟩ := writing_of_rename hnext
        obtain rfl := howner i file offset hjob
        refine ⟨rfl, ih (fun j file' offset' hj => ?_) hmeets.2 hrun⟩
        by_cases hji : j = i
        · rw [hji]
        · rw [hothers j hji] at hj
          exact howner j file' offset' hj
      | stop =>
        refine ih (fun j file offset hj => ?_) hmeets.2 hrun
        by_cases hji : j = i
        · obtain rfl := Option.some.inj hnext
          rw [hji] at hj
          cases (Function.update_self ..).symm.trans hj
        · rw [hothers j hji] at hj
          exact howner j file offset hj

/-- In particular when no job opens the partial file while another one has it open. -/
theorem whole_of_opensAlone (json : ι → Bytes) (steps : List (ι × JsonStep)) (s : JsonFiles ι)
    (hmeets : Meets (jsonStep json) OpensAlone JsonFiles.start steps)
    (hrun : run (jsonStep json) JsonFiles.start steps = some s) : Whole json s :=
  whole_of_lastOpener json steps s
    (byLastOpener_of_opensAlone (fun _ _ _ h => by cases h) hmeets hrun) hrun

/-- What two jobs have serialised. -/
def twoJsons (i : Bool) : Bytes := if i then asBytes "[3, 4, 5]" else asBytes "[1, 2]"

/-- The second job cuts what the first one has written, and the first one renames
what the second one has written so far. -/
def tornSteps : List (Bool × JsonStep) :=
  [(false, .openFile), (false, .write 6), (true, .openFile), (true, .write 2), (false, .rename)]

/-- `notes.json` has two bytes of the second job's nine. -/
theorem notesJson_torn : ¬ ∀ (json : Bool → Bytes) (steps : List (Bool × JsonStep))
    (s : JsonFiles Bool), run (jsonStep json) JsonFiles.start steps = some s → Whole json s := by
  intro h
  have hrun : (run (jsonStep twoJsons) JsonFiles.start tornSteps).map
      (fun s => (s.notesJson, s.content 0)) = some (some 0, asBytes "[3") := by decide +kernel
  obtain ⟨s, hs, hfinal⟩ := Option.map_eq_some_iff.mp hrun
  obtain ⟨hjson, hcontent⟩ := Prod.mk.inj hfinal
  obtain ⟨i, hi⟩ := h twoJsons tornSteps s hs 0 hjson
  rw [hcontent] at hi
  revert i
  decide +kernel


/-- A job is stopped after another one has opened its file. -/
def stoppedSteps : List (Bool × JsonStep) :=
  [(false, .openFile), (false, .write 2), (true, .openFile), (true, .write 4), (false, .stop),
    (true, .write 5), (true, .rename)]

theorem whole_stopped : ∃ s,
    run (jsonStep twoJsons) JsonFiles.start stoppedSteps = some s ∧ s.notesJson = some 0 ∧
      Whole twoJsons s := by
  have hruns : (run (jsonStep twoJsons) JsonFiles.start stoppedSteps).map (fun s => s.notesJson) =
      some (some 0) := by decide +kernel
  obtain ⟨s, hs, hjson⟩ := Option.map_eq_some_iff.mp hruns
  refine ⟨s, hs, hjson, whole_of_lastOpener twoJsons stoppedSteps s ?_ hs⟩
  exact ⟨rfl, rfl, rfl, rfl, trivial⟩

end Engine
end Panops
