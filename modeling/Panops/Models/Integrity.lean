import Panops.Lib.Transitions
import Panops.Models.Ensure

/-!
# The model cache

A file that `ensure_model` returns has the registered hash, whatever the marker has been
written for, as long as its size and mtime identify its content and no two contents have
mtimes before the epoch, which the marker does not tell apart.
-/

namespace Panops
namespace Models

open Lib.Transitions

/-- The file at a path has the registered hash. -/
def Verified (host : Host) (d : Disk) (info : ModelInfo) (path : Lib.Path) : Prop :=
  ∃ f, d.files path = some f ∧ host.sha256 f.content = info.sha256

/-- Neither the override of the model nor the skip is set. -/
def NoOverride : Event → Prop
  | .ensureModel _ _ env => env.model = false ∧ env.skipModelChecksum = false
  | .ensureVadModel _ env => env.vadModel = false ∧ env.skipModelChecksum = false
  | _ => True

/-- A file that a step leaves has the content that its path, its size and its mtime stand
for. -/
def Identified (host : Host) (contents : Lib.Path → Nat → Int → List UInt8) (s : State)
    (event : Event) : Prop :=
  ∀ s', step host s event = some s' → ∀ path f, s'.disk.files path = some f →
    f.content = contents path f.size f.mtime

/-- Contents of one size are not told apart by mtimes before the epoch. -/
def SinceEpoch (contents : Lib.Path → Nat → Int → List UInt8) : Prop :=
  ∀ path size mtime, mtime < 0 → contents path size mtime = contents path size 0

/-- The mtime that a marker stands for. -/
def VerificationMarker.mtime (marker : VerificationMarker) : Int :=
  marker.mtimeSecs * 1000000000 + marker.mtimeNanos

/-- The name that a job is for is that of its hash. -/
def JobOk (job : Job) : Prop :=
  ∀ name, job.next = .returns name → lookupModel name = some job.info

def PhaseOk (host : Host) (contents : Lib.Path → Nat → Int → List UInt8) (d : Disk) :
    Phase → Prop
  | .requesting job _ | .receiving job _ _ | .checking job | .verifying job => JobOk job
  | .marking job => JobOk job ∧ Verified host d job.info job.dest
  | .markerCreated job marker =>
    JobOk job ∧ Verified host d job.info job.dest ∧
      host.sha256 (contents job.dest marker.size marker.mtime) = marker.sha256
  | .returned (some (.model name path)) =>
    ∃ info, lookupModel name = some info ∧ Verified host d info path
  | _ => True

/-- No marker vouches for other content than the one that has its hash. -/
structure CacheInv (host : Host) (contents : Lib.Path → Nat → Int → List UInt8)
    (s : State) : Prop where
  markers : ∀ path marker, s.disk.markers path = some (some marker) →
    host.sha256 (contents path marker.size marker.mtime) = marker.sha256
  phase : PhaseOk host contents s.disk s.phase

section Inv

variable {host : Host} {contents : Lib.Path → Nat → Int → List UInt8} {s s' : State}

theorem name_of_lookupModel {name : String} {info : ModelInfo} (h : lookupModel name = some info) :
    info.name = name := by
  simpa using List.find?_some h

theorem CacheInv.goto (h : CacheInv host contents s) {phase : Phase}
    (hphase : PhaseOk host contents s.disk phase) : CacheInv host contents (s.goto phase) :=
  ⟨h.markers, hphase⟩

theorem CacheInv.finish (h : CacheInv host contents s) {job : Job}
    (hjob : ∀ name, job.next = .returns name →
      lookupModel name = some job.info ∧ Verified host s.disk job.info job.dest) :
    CacheInv host contents (s.finish job) := by
  unfold State.finish
  split
  · next name hnext => exact h.goto ⟨job.info, hjob name hnext⟩
  · exact h.goto trivial
  · exact h.goto trivial

/-- A job begins.  One that returns a model and is not verified has been downloaded. -/
theorem CacheInv.begin (h : CacheInv host contents s) {job : Job} (hjob : JobOk job)
    (hverifies : ∀ name, job.next = .returns name → job.verifies = true) :
    CacheInv host contents (s.begin job) := by
  unfold State.begin
  split
  · split
    · exact h.goto hjob
    · next hnot => exact h.finish fun name hnext => absurd (hverifies name hnext) hnot
  · exact h.goto hjob

/-- A file changes while no phase relies on it. -/
theorem CacheInv.changed (h : CacheInv host contents s) {disk : Disk} {phase : Phase}
    (hmarkers : disk.markers = s.disk.markers) (hphase : PhaseOk host contents disk phase) :
    CacheInv host contents { disk := disk, phase := phase } :=
  ⟨fun path marker hmarker => h.markers path marker (hmarkers ▸ hmarker), hphase⟩

theorem CacheInv.rewrite_step (h : CacheInv host contents s) {path : Lib.Path} {file : File}
    (hnext : step host s (.rewrite path file) = some s') : CacheInv host contents s' := by
  simp only [step] at hnext
  split at hnext
  · obtain rfl := Option.some.inj hnext
    exact h.changed rfl trivial
  · cases hnext

theorem CacheInv.delete_step (h : CacheInv host contents s) {path : Lib.Path}
    (hnext : step host s (.delete path) = some s') : CacheInv host contents s' := by
  simp only [step] at hnext
  split at hnext
  · obtain rfl := Option.some.inj hnext
    exact h.changed rfl trivial
  · cases hnext

theorem CacheInv.downloadFailed (h : CacheInv host contents s) {disk : Disk}
    (hmarkers : disk.markers = s.disk.markers) {job : Job} (hjob : JobOk job) (source : Source) :
    CacheInv host contents ({ s with disk := disk }.downloadFailed job source) := by
  cases source with
  | mirror => exact h.changed hmarkers hjob
  | upstream => exact h.changed hmarkers trivial

theorem CacheInv.downloaded (h : CacheInv host contents s) {disk : Disk}
    (hmarkers : disk.markers = s.disk.markers) {job : Job} (hjob : JobOk job) :
    CacheInv host contents ({ s with disk := disk }.downloaded job) := by
  have hchanged : CacheInv host contents { disk := disk, phase := .idle } :=
    h.changed hmarkers trivial
  unfold State.downloaded
  split
  · exact h.changed hmarkers hjob
  · next hnot =>
    split
    · exact h.changed hmarkers hjob
    · have hnext : ∀ name, job.next = .returns name →
          lookupModel name = some job.info ∧ Verified host disk job.info job.dest :=
        fun name hname => absurd hname (hnot name)
      have hfinish := hchanged.finish hnext
      unfold State.finish at hfinish ⊢
      exact hfinish

theorem CacheInv.ensureFile (h : CacheInv host contents s) {info : ModelInfo} {dest : Lib.Path}
    {userOverride skipChecksum : Bool} (hinfo : lookupModel info.name = some info)
    (hunset : userOverride = false ∧ skipChecksum = false) :
    CacheInv host contents (s.ensureFile info dest userOverride skipChecksum) := by
  refine h.begin (fun name hname => ?_) fun _ _ => ?_
  · cases hname
    exact hinfo
  · simp [hunset.1, hunset.2]

theorem SinceEpoch.contents_mtime (h : SinceEpoch contents) {path : Lib.Path} {size : Nat}
    {mtime : Int} {marker : VerificationMarker} (hsecs : marker.mtimeSecs = (mtimeParts mtime).1)
    (hnanos : marker.mtimeNanos = (mtimeParts mtime).2) :
    contents path size marker.mtime = contents path size mtime := by
  simp only [mtimeParts] at hsecs hnanos
  by_cases hepoch : mtime < 0
  · have hzero : marker.mtime = 0 := by
      simp only [VerificationMarker.mtime, hsecs, hnanos]
      omega
    rw [hzero, h path size mtime hepoch]
  · have hsame : marker.mtime = mtime := by
      simp only [VerificationMarker.mtime, hsecs, hnanos]
      omega
    rw [hsame]

/-- A marker that agrees with the file vouches for it. -/
theorem CacheInv.verified_of_cached (h : CacheInv host contents s) (hepoch : SinceEpoch contents)
    (hids : ∀ path f, s.disk.files path = some f →
      f.content = contents path f.size f.mtime)
    {path : Lib.Path} {info : ModelInfo}
    (hvalid : s.disk.verificationCacheValid path info.sha256 = true) :
    Verified host s.disk info path := by
  unfold Disk.verificationCacheValid at hvalid
  split at hvalid
  · next marker f hmarker hfile =>
    simp only [Bool.and_eq_true, beq_iff_eq] at hvalid
    obtain ⟨⟨⟨hsha, hsize⟩, hsecs⟩, hnanos⟩ := hvalid
    refine ⟨f, hfile, ?_⟩
    have hmarked := h.markers path marker hmarker
    rw [hsize, hepoch.contents_mtime hsecs hnanos, hsha] at hmarked
    rw [hids path f hfile]
    exact hmarked
  · cases hvalid

theorem disk_finish (job : Job) : (s.finish job).disk = s.disk := by
  unfold State.finish
  split <;> rfl

theorem CacheInv.ensureSegmentation (h : CacheInv host contents s) (env : Env) :
    CacheInv host contents (s.ensureSegmentation host env) := by
  unfold State.ensureSegmentation
  dsimp only
  split
  · exact h.goto trivial
  · split
    · exact h.goto trivial
    · exact h.begin nofun nofun

/-- The marker of a verified file. -/
theorem CacheInv.marking (h : CacheInv host contents s) (hepoch : SinceEpoch contents) {job : Job}
    (hphase : s.phase = .marking job) {f : File} (hfile : s.disk.files job.dest = some f)
    (hids : f.content = contents job.dest f.size f.mtime) :
    CacheInv host contents { disk := s.disk.putMarker job.dest none
                             phase := .markerCreated job (markerOf job.info.sha256 f) } := by
  have hok := h.phase
  rw [hphase] at hok
  obtain ⟨hjob, f', hfile', hsha⟩ := hok
  rw [hfile] at hfile'
  obtain rfl := Option.some.inj hfile'
  refine ⟨fun path marker hmarker => ?_, hjob, ⟨f, hfile, hsha⟩, ?_⟩
  · simp only [Disk.putMarker] at hmarker
    split at hmarker
    · cases hmarker
    · exact h.markers path marker hmarker
  · rw [hids] at hsha
    rw [hepoch.contents_mtime rfl rfl]
    exact hsha

theorem CacheInv.written (h : CacheInv host contents s) {job : Job} {marker : VerificationMarker}
    (hphase : s.phase = .markerCreated job marker) :
    CacheInv host contents
      ({ s with disk := s.disk.putMarker job.dest (some marker) }.finish job) := by
  have hok := h.phase
  rw [hphase] at hok
  obtain ⟨hjob, hverified, hmarker⟩ := hok
  have hput : CacheInv host contents
      { s with disk := s.disk.putMarker job.dest (some marker), phase := .idle } := by
    refine ⟨fun path other hother => ?_, trivial⟩
    simp only [Disk.putMarker] at hother
    split at hother
    · next hpath =>
      obtain rfl := Option.some.inj (Option.some.inj hother)
      rw [hpath]
      exact hmarker
    · exact h.markers path other hother
  have hnext : ∀ name, job.next = .returns name →
      lookupModel name = some job.info ∧ Verified host s.disk job.info job.dest :=
    fun name hname => ⟨hjob name hname, hverified⟩
  have hfinish := hput.finish hnext
  unfold State.finish at hfinish ⊢
  exact hfinish

theorem CacheInv.ensureModel_step (h : CacheInv host contents s)
    {name : String} {dest : Lib.Path} {env : Env} (hok : NoOverride (.ensureModel name dest env))
    (hnext : step host s (.ensureModel name dest env) = some s') : CacheInv host contents s' := by
  simp only [step] at hnext
  split at hnext
  · obtain rfl := Option.some.inj hnext
    unfold State.ensureModel
    split
    · exact h.goto trivial
    · next info hinfo =>
      refine h.ensureFile ?_ hok
      rw [name_of_lookupModel hinfo]
      exact hinfo
  · cases hnext

theorem CacheInv.ensureVadModel_step (h : CacheInv host contents s) {dest : Lib.Path} {env : Env}
    (hok : NoOverride (.ensureVadModel dest env))
    (hnext : step host s (.ensureVadModel dest env) = some s') : CacheInv host contents s' := by
  simp only [step] at hnext
  split at hnext
  · obtain rfl := Option.some.inj hnext
    exact h.ensureFile (by decide) hok
  · cases hnext

theorem CacheInv.ensureDiarModels_step (h : CacheInv host contents s) {env : Env}
    (hnext : step host s (.ensureDiarModels env) = some s') : CacheInv host contents s' := by
  simp only [step] at hnext
  split at hnext
  · obtain rfl := Option.some.inj hnext
    exact h.begin nofun nofun
  · cases hnext

theorem CacheInv.fail_step (h : CacheInv host contents s) (hnext : step host s .fail = some s') :
    CacheInv host contents s' := by
  have hphase := h.phase
  simp only [step] at hnext
  split at hnext
  case h_1 _ job source heq =>
    obtain rfl := Option.some.inj hnext
    rw [heq] at hphase
    exact h.downloadFailed rfl hphase source
  case h_2 _ job source limit heq =>
    obtain rfl := Option.some.inj hnext
    rw [heq] at hphase
    exact h.downloadFailed rfl hphase source
  case h_7 => cases hnext
  all_goals
    obtain rfl := Option.some.inj hnext
    exact h.goto trivial

theorem CacheInv.respond_step (h : CacheInv host contents s)
    {contentLength : Option Nat} {now : Int}
    (hnext : step host s (.respond contentLength now) = some s') : CacheInv host contents s' := by
  have hphase := h.phase
  simp only [step] at hnext
  split at hnext
  · next job source heq =>
    rw [heq] at hphase
    split at hnext <;> obtain rfl := Option.some.inj hnext
    · exact h.downloadFailed rfl hphase source
    · exact h.changed rfl hphase
  · cases hnext

theorem CacheInv.chunk_step (h : CacheInv host contents s)
    {bytes : List UInt8} {now : Int} {removable : Bool}
    (hnext : step host s (.chunk bytes now removable) = some s') : CacheInv host contents s' := by
  have hphase := h.phase
  simp only [step] at hnext
  split at hnext
  · next job source limit heq =>
    rw [heq] at hphase
    split at hnext <;> obtain rfl := Option.some.inj hnext
    · refine h.downloadFailed ?_ hphase source
      split <;> rfl
    · rw [heq]
      exact h.changed rfl hphase
  · cases hnext

theorem CacheInv.eof_step (h : CacheInv host contents s) (hnext : step host s .eof = some s') :
    CacheInv host contents s' := by
  have hphase := h.phase
  simp only [step] at hnext
  split at hnext
  · next job source limit heq =>
    rw [heq] at hphase
    split at hnext
    · next f hfile =>
      obtain rfl := Option.some.inj hnext
      refine h.downloaded ?_ hphase
      rfl
    · cases hnext
  · cases hnext

theorem CacheInv.check_step (h : CacheInv host contents s) (hepoch : SinceEpoch contents)
    {readable : Bool}
    (hids : ∀ path f, s'.disk.files path = some f → f.content = contents path f.size f.mtime)
    (hnext : step host s (.check readable) = some s') : CacheInv host contents s' := by
  have hphase := h.phase
  simp only [step] at hnext
  split at hnext
  · next job heq =>
    rw [heq] at hphase
    split at hnext <;> obtain rfl := Option.some.inj hnext
    · next hvalid =>
      rw [disk_finish] at hids
      refine h.finish fun name hname => ⟨hphase name hname, h.verified_of_cached hepoch hids ?_⟩
      simp only [Bool.and_eq_true] at hvalid
      exact hvalid.2
    · exact h.goto hphase
  · cases hnext

theorem CacheInv.verify_step (h : CacheInv host contents s) {readable removable : Bool}
    (hnext : step host s (.verify readable removable) = some s') : CacheInv host contents s' := by
  have hphase := h.phase
  simp only [step] at hnext
  split at hnext
  · next job heq =>
    rw [heq] at hphase
    split at hnext
    · next hsha =>
      obtain rfl := Option.some.inj hnext
      obtain ⟨f, hfile, hhash⟩ := Option.map_eq_some_iff.mp hsha.2
      exact h.goto ⟨hphase, f, hfile, hhash⟩
    · split at hnext <;> obtain rfl := Option.some.inj hnext
      · exact h.changed rfl trivial
      · exact h.goto trivial
  · cases hnext

theorem CacheInv.mark_step (h : CacheInv host contents s) (hepoch : SinceEpoch contents) {ok : Bool}
    (hids : ∀ path f, s'.disk.files path = some f → f.content = contents path f.size f.mtime)
    (hnext : step host s (.mark ok) = some s') : CacheInv host contents s' := by
  have hphase := h.phase
  simp only [step] at hnext
  split at hnext
  · next job heq =>
    rw [heq] at hphase
    split at hnext <;> obtain rfl := Option.some.inj hnext
    · next f hfile => exact h.marking hepoch heq hfile (hids job.dest f hfile)
    · exact h.finish fun name hname => ⟨hphase.1 name hname, hphase.2⟩
  · cases hnext

theorem CacheInv.writeMarker_step (h : CacheInv host contents s) {ok : Bool}
    (hnext : step host s (.writeMarker ok) = some s') : CacheInv host contents s' := by
  have hphase := h.phase
  simp only [step] at hnext
  split at hnext
  · next job marker heq =>
    rw [heq] at hphase
    split at hnext <;> obtain rfl := Option.some.inj hnext
    · exact h.written heq
    · exact h.finish fun name hname => ⟨hphase.1 name hname, hphase.2.1⟩
  · cases hnext

theorem CacheInv.look_step (h : CacheInv host contents s) (hnext : step host s .look = some s') :
    CacheInv host contents s' := by
  simp only [step] at hnext
  split at hnext
  · obtain rfl := Option.some.inj hnext
    exact h.ensureSegmentation _
  · split at hnext <;> obtain rfl := Option.some.inj hnext <;> exact h.goto trivial
  · split at hnext <;> obtain rfl := Option.some.inj hnext <;> exact h.goto trivial
  · cases hnext

theorem CacheInv.entry_step (h : CacheInv host contents s) {now : Int}
    (hnext : step host s (.entry now) = some s') : CacheInv host contents s' := by
  simp only [step] at hnext
  split at hnext
  · obtain rfl := Option.some.inj hnext
    exact h.changed rfl trivial
  · cases hnext

theorem CacheInv.extract_step (h : CacheInv host contents s) {written : Nat} {now : Int}
    (hnext : step host s (.extract written now) = some s') : CacheInv host contents s' := by
  simp only [step] at hnext
  split at hnext
  · split at hnext
    · obtain rfl := Option.some.inj hnext
      refine h.changed rfl ?_
      split <;> trivial
    · split at hnext
      · obtain rfl := Option.some.inj hnext
        exact h.goto trivial
      · cases hnext
  · cases hnext

theorem cacheInv_step (h : CacheInv host contents s) (hepoch : SinceEpoch contents)
    {event : Event}
    (hok : NoOverride event ∧ Identified host contents s event)
    (hnext : step host s event = some s') : CacheInv host contents s' := by
  have hids := hok.2 s' hnext
  cases event with
  | ensureModel name dest env => exact h.ensureModel_step hok.1 hnext
  | ensureVadModel dest env => exact h.ensureVadModel_step hok.1 hnext
  | ensureDiarModels env => exact h.ensureDiarModels_step hnext
  | crash =>
    obtain rfl := Option.some.inj hnext
    exact h.goto trivial
  | fail => exact h.fail_step hnext
  | respond contentLength now => exact h.respond_step hnext
  | chunk bytes now removable => exact h.chunk_step hnext
  | eof => exact h.eof_step hnext
  | check readable => exact h.check_step hepoch hids hnext
  | verify readable removable => exact h.verify_step hnext
  | mark ok => exact h.mark_step hepoch hids hnext
  | writeMarker ok => exact h.writeMarker_step hnext
  | look => exact h.look_step hnext
  | entry now => exact h.entry_step hnext
  | extract written now => exact h.extract_step hnext
  | rewrite path file => exact h.rewrite_step hnext
  | delete path => exact h.delete_step hnext

/-- A model that is returned has the hash registered for its name. -/
theorem ensure_model_integrity (hepoch : SinceEpoch contents) {files : Lib.Path → Option File}
    {events : List Event}
    (hok : Meets (step host) (fun s event => NoOverride event ∧ Identified host contents s event)
      (start files) events)
    (hrun : run (step host) (start files) events = some s) {name : String} {path : Lib.Path}
    (hreturned : s.phase = .returned (some (.model name path))) :
    ∃ info f, lookupModel name = some info ∧ s.disk.files path = some f ∧
      host.sha256 f.content = info.sha256 := by
  have hstart : CacheInv host contents (start files) := ⟨nofun, trivial⟩
  have h : CacheInv host contents s := run_invariant_of_meets
    (fun _ _ _ hI hok hnext => cacheInv_step hI hepoch hok hnext) hstart hok hrun
  have hphase := h.phase
  rw [hreturned] at hphase
  obtain ⟨info, hinfo, f, hfile, hsha⟩ := hphase
  exact ⟨info, f, hinfo, hfile, hsha⟩

end Inv

/-! ## A file from before the epoch -/

/-- One content has the registered hash. -/
def tinyHost : Host where
  dataDir := ["data"]
  sha256 content :=
    if content = [1] then "818710568da3ca15689e31a743197b520007872ff9576237bda97bd1b469c3d7"
    else ""
  entries _ := []

def tinyFile (path : Lib.Path) : Option File :=
  if path = ["m"] then some ⟨[1], -2⟩ else none

/-- The file is verified, and the marker is written. -/
def tinyRun : List Event :=
  [.ensureModel "ggml-tiny-q5_1" ["m"] .unset, .check true, .verify true true, .mark true,
    .writeMarker true]

/-- The file is replaced. -/
def tinyRewrite : List Event :=
  [.rewrite ["m"] ⟨[2], -1⟩, .ensureModel "ggml-tiny-q5_1" ["m"] .unset, .check true]

theorem lookupModel_tiny : lookupModel "ggml-tiny-q5_1" = some ⟨"ggml-tiny-q5_1",
    "818710568da3ca15689e31a743197b520007872ff9576237bda97bd1b469c3d7"⟩ := by
  decide

/-- Both files have an mtime of their own, and the marker of the first vouches for the
second. -/
theorem not_ensure_model_integrity : ∃ s,
    run (step tinyHost) (start tinyFile) (tinyRun ++ tinyRewrite) = some s ∧
    Meets (step tinyHost) (fun s event => NoOverride event ∧
      Identified tinyHost (fun _ _ mtime => if mtime = -2 then [1] else [2]) s event)
      (start tinyFile) (tinyRun ++ tinyRewrite) ∧
    s.phase = .returned (some (.model "ggml-tiny-q5_1" ["m"])) ∧
    s.disk.files ["m"] = some ⟨[2], -1⟩ ∧ tinyHost.sha256 [2] = "" := by
  have hvalues : (run (step tinyHost) (start tinyFile) (tinyRun ++ tinyRewrite)).map
      (fun s => (s.phase, s.disk.files ["m"])) =
        some (.returned (some (.model "ggml-tiny-q5_1" ["m"])), some ⟨[2], -1⟩) :=
    rfl
  obtain ⟨s, hs, hs'⟩ := Option.map_eq_some_iff.mp hvalues
  simp only [Prod.mk.injEq] at hs'
  refine ⟨s, hs, ?_, hs'.1, hs'.2, by decide⟩
  simp [tinyRun, tinyRewrite, Meets, Identified, NoOverride, step, start, Phase.AtRest,
    State.ensureModel, State.ensureFile, State.begin, State.goto, State.finish, Env.unset,
    lookupModel_tiny, Disk.exists_, tinyFile, tinyHost, Disk.verificationCacheValid, Disk.put,
    Disk.putMarker, markerOf, File.size, mtimeParts]
  intro path f hfile
  split at hfile
  · cases hfile
    rfl
  · cases hfile

theorem ensure_model_integrity_tiny : ∃ s, run (step tinyHost) (start tinyFile) tinyRun = some s ∧
    ∃ info f, lookupModel "ggml-tiny-q5_1" = some info ∧ s.disk.files ["m"] = some f ∧
      tinyHost.sha256 f.content = info.sha256 := by
  have hvalues : (run (step tinyHost) (start tinyFile) tinyRun).map (fun s => s.phase) =
      some (.returned (some (.model "ggml-tiny-q5_1" ["m"]))) :=
    rfl
  obtain ⟨s, hs, hphase⟩ := Option.map_eq_some_iff.mp hvalues
  have hok : Meets (step tinyHost) (fun s event => NoOverride event ∧
      Identified tinyHost (fun _ _ _ => [1]) s event) (start tinyFile) tinyRun := by
    simp [tinyRun, Meets, Identified, NoOverride, step, start, Phase.AtRest, State.ensureModel,
      State.ensureFile, State.begin, State.goto, State.finish, Env.unset, lookupModel_tiny,
      Disk.exists_, tinyFile, tinyHost, Disk.verificationCacheValid, Disk.putMarker, markerOf,
      File.size, mtimeParts]
  exact ⟨s, hs, ensure_model_integrity (fun _ _ _ _ => rfl) hok hs hphase⟩

end Models
end Panops
