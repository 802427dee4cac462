import Panops.Lib.Transitions
import Panops.Models.Integrity

/-!
# The diarization models

The embedding model is verified in every run.  The segmentation model is accepted when it
is there, so it is complete as long as no run ends while it is being unpacked.
-/

namespace Panops
namespace Models

open Lib Lib.Transitions

def segPath (host : Host) : Path := defaultDiarSegPath host .unset

def embPath (host : Host) : Path := defaultDiarEmbPath host .unset

/-- Only `ensure_diar_models` runs, with no override, and no run ends between the creation
of the segmentation model and its last byte. -/
def Uninterrupted (host : Host) (s : State) : Event → Prop
  | .ensureDiarModels env => env = .unset
  | .ensureModel .. | .ensureVadModel .. | .rewrite .. | .delete .. => False
  | .crash | .fail => ∀ env entry written rest, s.phase = .extracting env entry written rest →
      entry.path = segPath host → entry.content.length ≤ written
  | _ => True

/-- What the registered archive has for the segmentation model. -/
def Complete (host : Host) (f : File) : Prop :=
  ∃ tar entry, host.sha256 tar = diarSegInfo.sha256 ∧ entry ∈ host.entries tar ∧
    entry.path = segPath host ∧ f.content = entry.content

/-- The registered archive has no file where the embedding model or the archive itself is. -/
def Layout (host : Host) : Prop :=
  ∀ tar, host.sha256 tar = diarSegInfo.sha256 → ∀ entry ∈ host.entries tar,
    entry.path ≠ embPath host ∧ entry.path ≠ tarPath host

def embJob (host : Host) (existedBefore : Bool) : Job where
  info := diarEmbInfo
  dest := embPath host
  existedBefore := existedBefore
  verifies := true
  next := .segmentation .unset

def tarJob (host : Host) (existedBefore : Bool) : Job where
  info := diarSegInfo
  dest := tarPath host
  existedBefore := existedBefore
  verifies := true
  next := .unpack .unset

/-- The embedding model is had first. -/
def DiarJob (host : Host) (d : Disk) (job : Job) : Prop :=
  (∃ existed, job = embJob host existed) ∨
    ((∃ existed, job = tarJob host existed) ∧ Verified host d diarEmbInfo (embPath host))

def Unmarked (d : Disk) (path : Path) : Prop :=
  ∀ marker, d.markers path ≠ some (some marker)

/-- What is left to unpack is of the registered archive. -/
def FromTar (host : Host) (entries : List Entry) : Prop :=
  ∃ tar, host.sha256 tar = diarSegInfo.sha256 ∧ ∀ entry ∈ entries, entry ∈ host.entries tar

def DiarPhase (host : Host) (d : Disk) : Phase → Prop
  | .idle | .returned none => True
  | .requesting job _ | .receiving job _ _ => DiarJob host d job ∧ d.files job.dest = none
  | .checking job | .verifying job =>
    DiarJob host d job ∧ (job.existedBefore = false → Unmarked d job.dest)
  | .marking job | .markerCreated job _ => DiarJob host d job ∧ Verified host d job.info job.dest
  | .segmentation env => env = .unset ∧ Verified host d diarEmbInfo (embPath host)
  | .opening env =>
    env = .unset ∧ Verified host d diarEmbInfo (embPath host) ∧
      Verified host d diarSegInfo (tarPath host)
  | .unpacking env rest =>
    env = .unset ∧ Verified host d diarEmbInfo (embPath host) ∧ FromTar host rest
  | .extracting env entry _ rest =>
    env = .unset ∧ Verified host d diarEmbInfo (embPath host) ∧ FromTar host (entry :: rest)
  | .returned (some (.diar seg emb)) =>
    seg = segPath host ∧ emb = embPath host ∧ Verified host d diarEmbInfo emb ∧
      ∃ f, d.files seg = some f ∧ Complete host f
  | .returned (some (.model _ _)) => False

/-- The segmentation model is being unpacked. -/
def Unpacking (host : Host) (phase : Phase) : Prop :=
  ∃ env entry written rest, phase = .extracting env entry written rest ∧
    entry.path = segPath host ∧ written < entry.content.length

def NotExtracting (phase : Phase) : Prop :=
  ∀ env entry written rest, phase ≠ .extracting env entry written rest

structure DiarInv (host : Host) (s : State) : Prop where
  emb : ¬ Unmarked s.disk (embPath host) → Verified host s.disk diarEmbInfo (embPath host)
  tar : ¬ Unmarked s.disk (tarPath host) → Verified host s.disk diarSegInfo (tarPath host)
  seg : ∀ f, s.disk.files (segPath host) = some f → Complete host f ∨ Unpacking host s.phase
  phase : DiarPhase host s.disk s.phase

section Inv

variable {host : Host} {s s' : State}

/-! ## Paths -/

theorem ne_of_fileName {p q : Path} (h : p.fileName ≠ q.fileName) : p ≠ q :=
  fun hsame => h (congrArg Path.fileName hsame)

theorem fileName_emb : (embPath host).fileName =
    some "3dspeaker_speech_eres2net_base_sv_zh-cn_3dspeaker_16k.onnx" :=
  Path.getLast?_join ..

theorem fileName_tar : (tarPath host).fileName =
    some "sherpa-onnx-pyannote-segmentation-3-0.tar.bz2" :=
  Path.getLast?_join ..

theorem fileName_seg : (segPath host).fileName = some "model.onnx" :=
  Path.getLast?_join ..

theorem fileName_withExtension {p : Path} {name extension : String} (h : p.fileName = some name) :
    (withExtension p extension).fileName =
      some (String.ofList (stemOfName name.toList) ++ "." ++ extension) := by
  have hlast : p.getLast? = some name := h
  simp only [withExtension, hlast]
  exact Path.getLast?_join ..

theorem fileName_tmp {job : Job} {d : Disk} (h : DiarJob host d job) :
    (withExtension job.dest "partial").fileName =
        some "3dspeaker_speech_eres2net_base_sv_zh-cn_3dspeaker_16k.partial" ∨
      (withExtension job.dest "partial").fileName =
        some "sherpa-onnx-pyannote-segmentation-3-0.tar.partial" := by
  rcases h with ⟨existed, rfl⟩ | ⟨⟨existed, rfl⟩, -⟩
  · refine Or.inl ?_
    rw [fileName_withExtension (p := (embJob host existed).dest) fileName_emb]
    decide +kernel
  · refine Or.inr ?_
    rw [fileName_withExtension (p := (tarJob host existed).dest) fileName_tar]
    decide +kernel

/-- A file with another name than the two partial files. -/
theorem ne_tmp_of_fileName {job : Job} {d : Disk} (h : DiarJob host d job) {p : Path}
    {name : String} (hname : p.fileName = some name)
    (hemb : name ≠ "3dspeaker_speech_eres2net_base_sv_zh-cn_3dspeaker_16k.partial")
    (htar : name ≠ "sherpa-onnx-pyannote-segmentation-3-0.tar.partial") :
    p ≠ withExtension job.dest "partial" := by
  refine ne_of_fileName fun heq => ?_
  rw [hname] at heq
  rcases fileName_tmp h with htmp | htmp
  · exact hemb (Option.some.inj (heq.trans htmp))
  · exact htar (Option.some.inj (heq.trans htmp))

/-- The partial file is none of the three. -/
theorem tmp_ne {job : Job} {d : Disk} (h : DiarJob host d job) {p : Path}
    (hp : p = embPath host ∨ p = tarPath host ∨ p = segPath host) :
    p ≠ withExtension job.dest "partial" := by
  rcases hp with rfl | rfl | rfl
  · exact ne_tmp_of_fileName h fileName_emb (by decide) (by decide)
  · exact ne_tmp_of_fileName h fileName_tar (by decide) (by decide)
  · exact ne_tmp_of_fileName h fileName_seg (by decide) (by decide)

theorem emb_ne_tar : embPath host ≠ tarPath host := by
  refine ne_of_fileName ?_
  rw [fileName_emb, fileName_tar]
  decide

theorem emb_ne_seg : embPath host ≠ segPath host := by
  refine ne_of_fileName ?_
  rw [fileName_emb, fileName_seg]
  decide

theorem tar_ne_seg : tarPath host ≠ segPath host := by
  refine ne_of_fileName ?_
  rw [fileName_tar, fileName_seg]
  decide

theorem DiarJob.dest_eq {job : Job} {d : Disk} (h : DiarJob host d job) :
    job.dest = embPath host ∨ job.dest = tarPath host := by
  rcases h with ⟨existed, rfl⟩ | ⟨⟨existed, rfl⟩, -⟩
  · exact Or.inl rfl
  · exact Or.inr rfl

theorem DiarJob.dest_ne_seg {job : Job} {d : Disk} (h : DiarJob host d job) :
    segPath host ≠ job.dest := by
  rcases h.dest_eq with hdest | hdest <;> rw [hdest]
  · exact emb_ne_seg.symm
  · exact tar_ne_seg.symm

/-! ## What stays -/

theorem Verified.congr {d d' : Disk} {info : ModelInfo} {p : Path} (h : Verified host d info p)
    (hfiles : d'.files p = d.files p) : Verified host d' info p := by
  obtain ⟨f, hf, hsha⟩ := h
  exact ⟨f, hfiles.trans hf, hsha⟩

theorem DiarJob.congr {job : Job} {d d' : Disk} (h : DiarJob host d job)
    (hemb : d'.files (embPath host) = d.files (embPath host)) : DiarJob host d' job :=
  h.imp_right fun htar => ⟨htar.1, htar.2.congr hemb⟩

/-- The job of a file that is missing or made anew needs only the embedding model. -/
theorem DiarJob.congr_of_ne {job : Job} {d d' : Disk} (h : DiarJob host d job)
    (hemb : embPath host ≠ job.dest → d'.files (embPath host) = d.files (embPath host)) :
    DiarJob host d' job := by
  rcases h with hjob | ⟨⟨existed, rfl⟩, hverified⟩
  · exact Or.inl hjob
  · exact Or.inr ⟨⟨existed, rfl⟩, hverified.congr (hemb emb_ne_tar)⟩

theorem put_of_ne {d : Disk} {p q : Path} {f : File} (h : q ≠ p) :
    (d.put p f).files q = d.files q :=
  if_neg h

theorem remove_of_ne {d : Disk} {p q : Path} (h : q ≠ p) : (d.remove p).files q = d.files q :=
  if_neg h

/-- The disk changes apart from the three files and their markers. -/
theorem DiarInv.changed (h : DiarInv host s) {disk : Disk} {phase : Phase}
    (hmarkers : disk.markers = s.disk.markers)
    (hfiles : ∀ p, p = embPath host ∨ p = tarPath host ∨ p = segPath host →
      disk.files p = s.disk.files p)
    (hseg : Unpacking host s.phase → Unpacking host phase)
    (hphase : DiarPhase host disk phase) : DiarInv host { disk := disk, phase := phase } where
  emb hmarked := by
    refine (h.emb ?_).congr (hfiles _ (Or.inl rfl))
    simp only [Unmarked, hmarkers] at hmarked ⊢
    exact hmarked
  tar hmarked := by
    refine (h.tar ?_).congr (hfiles _ (Or.inr (Or.inl rfl)))
    simp only [Unmarked, hmarkers] at hmarked ⊢
    exact hmarked
  seg f hf := by
    rw [hfiles _ (Or.inr (Or.inr rfl))] at hf
    exact (h.seg f hf).imp_right hseg
  phase := hphase

theorem DiarInv.goto (h : DiarInv host s) {phase : Phase}
    (hseg : Unpacking host s.phase → Unpacking host phase)
    (hphase : DiarPhase host s.disk phase) : DiarInv host (s.goto phase) :=
  h.changed rfl (fun _ _ => rfl) hseg hphase

theorem not_unpacking {phase : Phase} (h : NotExtracting phase) {P : Prop} :
    Unpacking host phase → P := by
  rintro ⟨env, entry, written, rest, hphase, -⟩
  exact absurd hphase (h env entry written rest)

theorem DiarInv.complete (h : DiarInv host s) (hphase : NotExtracting s.phase) {f : File}
    (hf : s.disk.files (segPath host) = some f) : Complete host f :=
  (h.seg f hf).elim id (not_unpacking hphase)

/-- A marked file is there. -/
theorem DiarInv.unmarked (h : DiarInv host s) {job : Job} (hjob : DiarJob host s.disk job)
    (hmissing : s.disk.files job.dest = none) : Unmarked s.disk job.dest := by
  by_contra hmarked
  rcases hjob.dest_eq with hdest | hdest
  · rw [hdest] at hmarked hmissing
    obtain ⟨f, hf, -⟩ := h.emb hmarked
    rw [hmissing] at hf
    cases hf
  · rw [hdest] at hmarked hmissing
    obtain ⟨f, hf, -⟩ := h.tar hmarked
    rw [hmissing] at hf
    cases hf

/-! ## Each step -/

/-- A job is done. -/
theorem DiarInv.finish (h : DiarInv host s) {job : Job} (hjob : DiarJob host s.disk job)
    (hverified : Verified host s.disk job.info job.dest)
    (hseg : Unpacking host s.phase → Unpacking host (s.finish job).phase) :
    DiarInv host (s.finish job) := by
  rcases hjob with ⟨existed, rfl⟩ | ⟨⟨existed, rfl⟩, hemb⟩
  · exact h.goto hseg ⟨rfl, hverified⟩
  · exact h.goto hseg ⟨rfl, hemb, hverified⟩

theorem DiarInv.begin (h : DiarInv host s) {job : Job} (hjob : DiarJob host s.disk job)
    (hexisted : job.existedBefore = s.disk.exists_ job.dest)
    (hphase : NotExtracting s.phase) :
    DiarInv host (s.begin job) := by
  have hverifies : job.verifies = true := by
    rcases hjob with ⟨existed, rfl⟩ | ⟨⟨existed, rfl⟩, -⟩ <;> rfl
  unfold State.begin
  split
  · next hthere =>
    refine h.goto (not_unpacking hphase) ⟨hjob, fun hnew => ?_⟩
    rw [hthere] at hnew
    cases hnew
  · next hnew =>
    refine h.goto (not_unpacking hphase) ⟨hjob, ?_⟩
    simpa [hexisted, Disk.exists_] using hnew

theorem DiarInv.downloadFailed (h : DiarInv host s) {job : Job} {source : Source} {disk : Disk}
    (hmarkers : disk.markers = s.disk.markers)
    (hfiles : ∀ p, p = embPath host ∨ p = tarPath host ∨ p = segPath host →
      disk.files p = s.disk.files p)
    (hjob : DiarJob host s.disk job) (hmissing : s.disk.files job.dest = none)
    (hphase : NotExtracting s.phase) :
    DiarInv host ({ s with disk := disk }.downloadFailed job source) := by
  cases source with
  | mirror =>
    refine h.changed hmarkers hfiles (not_unpacking hphase)
      ⟨hjob.congr (hfiles _ (Or.inl rfl)), ?_⟩
    rw [hfiles _ (hjob.dest_eq.imp_right Or.inl), hmissing]
  | upstream => exact h.changed hmarkers hfiles (not_unpacking hphase) trivial

/-- The file of a job changes, which is not marked. -/
theorem DiarInv.changedDest (h : DiarInv host s) {disk : Disk} {phase : Phase} {job : Job}
    (hjob : DiarJob host s.disk job) (hunmarked : Unmarked s.disk job.dest)
    (hmarkers : disk.markers = s.disk.markers)
    (hfiles : ∀ p, p ≠ job.dest → p = embPath host ∨ p = tarPath host ∨ p = segPath host →
      disk.files p = s.disk.files p)
    (hnot : NotExtracting s.phase)
    (hphase : DiarPhase host disk phase) : DiarInv host { disk := disk, phase := phase } where
  emb hmarked := by
    by_cases hdest : embPath host = job.dest
    · refine absurd ?_ hmarked
      simp only [Unmarked, hmarkers, hdest]
      exact hunmarked
    · refine (h.emb ?_).congr (hfiles _ hdest (Or.inl rfl))
      simp only [Unmarked, hmarkers] at hmarked ⊢
      exact hmarked
  tar hmarked := by
    by_cases hdest : tarPath host = job.dest
    · refine absurd ?_ hmarked
      simp only [Unmarked, hmarkers, hdest]
      exact hunmarked
    · refine (h.tar ?_).congr (hfiles _ hdest (Or.inr (Or.inl rfl)))
      simp only [Unmarked, hmarkers] at hmarked ⊢
      exact hmarked
  seg f hf := by
    rw [hfiles _ hjob.dest_ne_seg (Or.inr (Or.inr rfl))] at hf
    exact Or.inl (h.complete hnot hf)
  phase := hphase

/-- The marker of a file changes, which is verified. -/
theorem DiarInv.marked (h : DiarInv host s) {job : Job} {marker : Option VerificationMarker}
    {phase : Phase} (hjob : DiarJob host s.disk job)
    (hverified : Verified host s.disk job.info job.dest)
    (hnot : NotExtracting s.phase)
    (hphase : DiarPhase host (s.disk.putMarker job.dest marker) phase) :
    DiarInv host { disk := s.disk.putMarker job.dest marker, phase := phase } := by
  have hothers : ∀ p, p ≠ job.dest → ¬ Unmarked (s.disk.putMarker job.dest marker) p →
      ¬ Unmarked s.disk p := by
    intro p hp hmarked hunmarked
    refine hmarked fun other hother => hunmarked other ?_
    simpa [Disk.putMarker, hp] using hother
  have hseg : ∀ f, s.disk.files (segPath host) = some f → Complete host f :=
    fun f hf => h.complete hnot hf
  rcases hjob with ⟨existed, rfl⟩ | ⟨⟨existed, rfl⟩, hemb⟩
  · exact ⟨fun _ => hverified,
      fun hmarked => (h.tar (hothers _ emb_ne_tar.symm hmarked)).congr rfl,
      fun f hf => Or.inl (hseg f hf), hphase⟩
  · exact ⟨fun _ => hemb.congr rfl, fun _ => hverified, fun f hf => Or.inl (hseg f hf), hphase⟩

/-- The archive is being unpacked, and a file of it changes. -/
theorem DiarInv.extracted (h : DiarInv host s) (hlayout : Layout host) {entry : Entry} {f : File}
    {phase : Phase} {rest : List Entry} (htar : FromTar host (entry :: rest))
    (hother : entry.path ≠ segPath host → ¬ Unpacking host s.phase)
    (hphase : DiarPhase host (s.disk.put entry.path f) phase)
    (hseg : entry.path = segPath host → f.content = entry.content ∨ Unpacking host phase) :
    DiarInv host { disk := s.disk.put entry.path f, phase := phase } := by
  obtain ⟨tar, hsha, hmem⟩ := htar
  obtain ⟨hemb, htar⟩ := hlayout tar hsha entry (hmem entry List.mem_cons_self)
  constructor
  case emb => exact fun hmarked => (h.emb hmarked).congr (put_of_ne hemb.symm)
  case tar => exact fun hmarked => (h.tar hmarked).congr (put_of_ne htar.symm)
  case seg =>
    intro g hg
    by_cases hpath : entry.path = segPath host
    · have hsame : g = f := by
        simp only [Disk.put, hpath, if_true, Option.some.injEq] at hg
        exact hg.symm
      subst hsame
      exact (hseg hpath).imp_left fun hcontent =>
        ⟨tar, entry, hsha, hmem entry List.mem_cons_self, hpath, hcontent⟩
    · rw [put_of_ne (Ne.symm hpath)] at hg
      exact Or.inl ((h.seg g hg).resolve_right (hother hpath))
  case phase => exact hphase

theorem DiarInv.ensureSegmentation (h : DiarInv host s) {env : Env}
    (hphase : s.phase = .segmentation env) : DiarInv host (s.ensureSegmentation host env) := by
  have hok := h.phase
  rw [hphase] at hok
  obtain ⟨rfl, hemb⟩ := hok
  have hnot : NotExtracting s.phase := by simp [NotExtracting, hphase]
  unfold State.ensureSegmentation
  dsimp only
  split
  · next hthere =>
    obtain ⟨f, hf⟩ := Option.isSome_iff_exists.mp hthere
    exact h.goto (not_unpacking hnot) ⟨rfl, rfl, hemb, f, hf, h.complete hnot hf⟩
  · exact h.begin (Or.inr ⟨⟨_, rfl⟩, hemb⟩) rfl hnot

theorem DiarInv.ensureDiarModels_step (h : DiarInv host s) {env : Env}
    (hok : Uninterrupted host s (.ensureDiarModels env))
    (hnext : step host s (.ensureDiarModels env) = some s') : DiarInv host s' := by
  simp only [step] at hnext
  split at hnext
  · next hrest =>
    obtain rfl := Option.some.inj hnext
    obtain rfl : env = .unset := hok
    refine h.begin (Or.inl ⟨s.disk.exists_ (embPath host), ?_⟩) rfl ?_
    · simp only [embJob, Env.unset, Bool.not_false, Option.isNone_none, Bool.or_true,
        Bool.and_true]
      rfl
    · intro env entry written rest heq
      rw [heq] at hrest
      cases hrest
  · cases hnext

theorem DiarInv.crash_step (h : DiarInv host s) (hok : Uninterrupted host s .crash)
    (hnext : step host s .crash = some s') : DiarInv host s' := by
  obtain rfl := Option.some.inj hnext
  refine h.goto ?_ trivial
  rintro ⟨env, entry, written, rest, heq, hpath, hlt⟩
  exact absurd (hok env entry written rest heq hpath) (by omega)

theorem DiarInv.fail_step (h : DiarInv host s) (hok : Uninterrupted host s .fail)
    (hnext : step host s .fail = some s') : DiarInv host s' := by
  have hphase := h.phase
  have hunpacking : ¬ Unpacking host s.phase := by
    rintro ⟨env, entry, written, rest, heq, hpath, hlt⟩
    exact absurd (hok env entry written rest heq hpath) (by omega)
  simp only [step] at hnext
  split at hnext
  case h_1 _ job source heq =>
    obtain rfl := Option.some.inj hnext
    rw [heq] at hphase
    exact h.downloadFailed rfl (fun _ _ => rfl) hphase.1 hphase.2 (by simp [NotExtracting, heq])
  case h_2 _ job source limit heq =>
    obtain rfl := Option.some.inj hnext
    rw [heq] at hphase
    exact h.downloadFailed rfl (fun _ _ => rfl) hphase.1 hphase.2 (by simp [NotExtracting, heq])
  case h_7 => cases hnext
  all_goals
    obtain rfl := Option.some.inj hnext
    exact h.goto (fun hseg => absurd hseg hunpacking) trivial

theorem DiarInv.respond_step (h : DiarInv host s) {contentLength : Option Nat} {now : Int}
    (hnext : step host s (.respond contentLength now) = some s') : DiarInv host s' := by
  have hphase := h.phase
  simp only [step] at hnext
  split at hnext
  · next job source heq =>
    rw [heq] at hphase
    have hnot : NotExtracting s.phase := by simp [NotExtracting, heq]
    split at hnext <;> obtain rfl := Option.some.inj hnext
    · exact h.downloadFailed rfl (fun _ _ => rfl) hphase.1 hphase.2 hnot
    · have hfiles : ∀ p, p = embPath host ∨ p = tarPath host ∨ p = segPath host →
          (s.disk.put (withExtension job.dest "partial") ⟨[], now⟩).files p = s.disk.files p :=
        fun p hp => put_of_ne (tmp_ne hphase.1 hp)
      refine h.changed rfl hfiles (not_unpacking hnot)
        ⟨hphase.1.congr (hfiles _ (Or.inl rfl)), ?_⟩
      rw [hfiles _ (hphase.1.dest_eq.imp_right Or.inl), hphase.2]
  · cases hnext

theorem DiarInv.chunk_step (h : DiarInv host s) {bytes : List UInt8} {now : Int} {removable : Bool}
    (hnext : step host s (.chunk bytes now removable) = some s') : DiarInv host s' := by
  have hphase := h.phase
  simp only [step] at hnext
  split at hnext
  · next job source limit heq =>
    rw [heq] at hphase
    have hnot : NotExtracting s.phase := by simp [NotExtracting, heq]
    have hfiles (f : File) : ∀ p, p = embPath host ∨ p = tarPath host ∨ p = segPath host →
        (s.disk.put (withExtension job.dest "partial") f).files p = s.disk.files p :=
      fun p hp => put_of_ne (tmp_ne hphase.1 hp)
    split at hnext <;> obtain rfl := Option.some.inj hnext
    · refine h.downloadFailed ?_ (fun p hp => ?_) hphase.1 hphase.2 hnot
      · split <;> rfl
      · split
        · rw [remove_of_ne (tmp_ne hphase.1 hp), hfiles _ p hp]
        · exact hfiles _ p hp
    · rw [heq]
      refine h.changed rfl (hfiles _) (not_unpacking hnot)
        ⟨hphase.1.congr (hfiles _ _ (Or.inl rfl)), ?_⟩
      rw [hfiles _ _ (hphase.1.dest_eq.imp_right Or.inl), hphase.2]
  · cases hnext

theorem DiarInv.eof_step (h : DiarInv host s) (hnext : step host s .eof = some s') :
    DiarInv host s' := by
  have hphase := h.phase
  simp only [step] at hnext
  split at hnext
  · next job source limit heq =>
    rw [heq] at hphase
    have hnot : NotExtracting s.phase := by simp [NotExtracting, heq]
    have hunmarked := h.unmarked hphase.1 hphase.2
    split at hnext
    · next f hfile =>
      obtain rfl := Option.some.inj hnext
      have hfiles : ∀ p, p ≠ job.dest → p = embPath host ∨ p = tarPath host ∨ p = segPath host →
          ((s.disk.remove (withExtension job.dest "partial")).put job.dest f).files p =
            s.disk.files p := by
        intro p hdest hp
        rw [put_of_ne hdest, remove_of_ne (tmp_ne hphase.1 hp)]
      have hdownloaded : State.downloaded job { s with
          disk := (s.disk.remove (withExtension job.dest "partial")).put job.dest f } =
          { disk := (s.disk.remove (withExtension job.dest "partial")).put job.dest f
            phase := .checking job } := by
        rcases hphase.1 with ⟨existed, rfl⟩ | ⟨⟨existed, rfl⟩, -⟩ <;> rfl
      rw [hdownloaded]
      refine h.changedDest hphase.1 hunmarked rfl hfiles hnot
        ⟨hphase.1.congr_of_ne fun hne => hfiles _ hne (Or.inl rfl), fun _ => hunmarked⟩
    · cases hnext
  · cases hnext

theorem DiarInv.check_step (h : DiarInv host s) {readable : Bool}
    (hnext : step host s (.check readable) = some s') : DiarInv host s' := by
  have hphase := h.phase
  simp only [step] at hnext
  split at hnext
  · next job heq =>
    rw [heq] at hphase
    have hnot : NotExtracting s.phase := by simp [NotExtracting, heq]
    split at hnext <;> obtain rfl := Option.some.inj hnext
    · next hvalid =>
      refine h.finish hphase.1 ?_ (not_unpacking hnot)
      have hmarked : ¬ Unmarked s.disk job.dest := by
        intro hunmarked
        simp only [Bool.and_eq_true] at hvalid
        have hcached := hvalid.2
        unfold Disk.verificationCacheValid at hcached
        split at hcached
        · next marker f hmarker hfile => exact hunmarked marker hmarker
        · cases hcached
      rcases hphase.1 with ⟨existed, rfl⟩ | ⟨⟨existed, rfl⟩, -⟩
      · exact h.emb hmarked
      · exact h.tar hmarked
    · exact h.goto (not_unpacking hnot) hphase
  · cases hnext

theorem DiarInv.verify_step (h : DiarInv host s) {readable removable : Bool}
    (hnext : step host s (.verify readable removable) = some s') : DiarInv host s' := by
  have hphase := h.phase
  simp only [step] at hnext
  split at hnext
  · next job heq =>
    rw [heq] at hphase
    have hnot : NotExtracting s.phase := by simp [NotExtracting, heq]
    split at hnext
    · next hsha =>
      obtain rfl := Option.some.inj hnext
      obtain ⟨f, hfile, hhash⟩ := Option.map_eq_some_iff.mp hsha.2
      exact h.goto (not_unpacking hnot) ⟨hphase.1, f, hfile, hhash⟩
    · split at hnext <;> obtain rfl := Option.some.inj hnext
      · next hremoved =>
        simp only [Bool.and_eq_true, Bool.not_eq_true'] at hremoved
        exact h.changedDest hphase.1 (hphase.2 hremoved.1) rfl
          (fun p hp _ => remove_of_ne hp) hnot trivial
      · exact h.goto (not_unpacking hnot) trivial
  · cases hnext

theorem DiarInv.mark_step (h : DiarInv host s) {ok : Bool}
    (hnext : step host s (.mark ok) = some s') : DiarInv host s' := by
  have hphase := h.phase
  simp only [step] at hnext
  split at hnext
  · next job heq =>
    rw [heq] at hphase
    have hnot : NotExtracting s.phase := by simp [NotExtracting, heq]
    split at hnext <;> obtain rfl := Option.some.inj hnext
    · next f hfile =>
      exact h.marked hphase.1 hphase.2 hnot ⟨hphase.1.congr rfl, hphase.2.congr rfl⟩
    · exact h.finish hphase.1 hphase.2 (not_unpacking hnot)
  · cases hnext

theorem DiarInv.writeMarker_step (h : DiarInv host s) {ok : Bool}
    (hnext : step host s (.writeMarker ok) = some s') : DiarInv host s' := by
  have hphase := h.phase
  simp only [step] at hnext
  split at hnext
  · next job marker heq =>
    rw [heq] at hphase
    have hnot : NotExtracting s.phase := by simp [NotExtracting, heq]
    split at hnext <;> obtain rfl := Option.some.inj hnext
    · have hmarked : DiarInv host
          { disk := s.disk.putMarker job.dest (some marker), phase := .idle } :=
        h.marked hphase.1 hphase.2 hnot trivial
      exact hmarked.finish (hphase.1.congr rfl) (hphase.2.congr rfl)
        (not_unpacking (by simp [NotExtracting]))
    · exact h.finish hphase.1 hphase.2 (not_unpacking hnot)
  · cases hnext

theorem DiarInv.look_step (h : DiarInv host s) (hnext : step host s .look = some s') :
    DiarInv host s' := by
  have hphase := h.phase
  simp only [step] at hnext
  split at hnext
  · next env heq =>
    obtain rfl := Option.some.inj hnext
    exact h.ensureSegmentation heq
  · next env heq =>
    rw [heq] at hphase
    have hnot : NotExtracting s.phase := by simp [NotExtracting, heq]
    obtain ⟨rfl, hemb, g, hg, hsha⟩ := hphase
    split at hnext <;> obtain rfl := Option.some.inj hnext
    · next f hfile =>
      rw [hg] at hfile
      obtain rfl := Option.some.inj hfile
      exact h.goto (not_unpacking hnot) ⟨rfl, hemb, g.content, hsha, fun _ hentry => hentry⟩
    · exact h.goto (not_unpacking hnot) trivial
  · next env heq =>
    rw [heq] at hphase
    have hnot : NotExtracting s.phase := by simp [NotExtracting, heq]
    obtain ⟨rfl, hemb, -⟩ := hphase
    split at hnext <;> obtain rfl := Option.some.inj hnext
    · next hthere =>
      obtain ⟨f, hf⟩ := Option.isSome_iff_exists.mp hthere
      exact h.goto (not_unpacking hnot) ⟨rfl, rfl, hemb, f, hf, h.complete hnot hf⟩
    · exact h.goto (not_unpacking hnot) trivial
  · cases hnext

theorem DiarInv.entry_step (h : DiarInv host s) (hlayout : Layout host) {now : Int}
    (hnext : step host s (.entry now) = some s') : DiarInv host s' := by
  have hphase := h.phase
  simp only [step] at hnext
  split at hnext
  · next env entry rest heq =>
    obtain rfl := Option.some.inj hnext
    rw [heq] at hphase
    have hnot : NotExtracting s.phase := by simp [NotExtracting, heq]
    obtain ⟨rfl, hemb, htar⟩ := hphase
    obtain ⟨tar, hsha, hmem⟩ := htar
    have hne := (hlayout tar hsha entry (hmem entry List.mem_cons_self)).1
    refine h.extracted hlayout ⟨tar, hsha, hmem⟩ (fun _ => not_unpacking hnot)
      ⟨rfl, hemb.congr (put_of_ne hne.symm), tar, hsha, hmem⟩ fun hpath => ?_
    cases hcontent : entry.content with
    | nil => exact Or.inl rfl
    | cons b bs =>
      exact Or.inr ⟨.unset, entry, 0, rest, rfl, hpath, by simp [hcontent]⟩
  · cases hnext

theorem DiarInv.extract_step (h : DiarInv host s) (hlayout : Layout host)
    {written : Nat} {now : Int} (hnext : step host s (.extract written now) = some s') :
    DiarInv host s' := by
  have hphase := h.phase
  simp only [step] at hnext
  split at hnext
  · next env entry before rest heq =>
    rw [heq] at hphase
    obtain ⟨rfl, hemb, tar, hsha, hmem⟩ := hphase
    have hne := (hlayout tar hsha entry (hmem entry List.mem_cons_self)).1
    have hrest : FromTar host rest :=
      ⟨tar, hsha, fun other hother => hmem other (List.mem_cons_of_mem _ hother)⟩
    split at hnext
    · obtain rfl := Option.some.inj hnext
      refine h.extracted hlayout ⟨tar, hsha, hmem⟩ ?_ ?_ ?_
      · rintro hother ⟨env', entry', written', rest', heq', hpath, -⟩
        rw [heq] at heq'
        cases heq'
        exact hother hpath
      · have hemb' := hemb.congr (put_of_ne (f := ⟨entry.content.take written, now⟩) hne.symm)
        split
        · exact ⟨rfl, hemb', hrest⟩
        · exact ⟨rfl, hemb', tar, hsha, hmem⟩
      · intro hpath
        split
        · next hall => exact Or.inl (List.take_of_length_le hall)
        · next hpart => exact Or.inr ⟨.unset, entry, written, rest, rfl, hpath, by omega⟩
    · split at hnext
      · next hall =>
        obtain rfl := Option.some.inj hnext
        refine h.goto ?_ ⟨rfl, hemb, hrest⟩
        rintro ⟨env', entry', written', rest', heq', -, hlt⟩
        rw [heq] at heq'
        cases heq'
        omega
      · cases hnext
  · cases hnext

theorem diarInv_step (h : DiarInv host s) (hlayout : Layout host) {event : Event}
    (hok : Uninterrupted host s event) (hnext : step host s event = some s') :
    DiarInv host s' := by
  have hphase := h.phase
  cases event with
  | ensureModel name dest env => exact absurd hok not_false
  | ensureVadModel dest env => exact absurd hok not_false
  | rewrite path file => exact absurd hok not_false
  | delete path => exact absurd hok not_false
  | ensureDiarModels env => exact h.ensureDiarModels_step hok hnext
  | crash => exact h.crash_step hok hnext
  | fail => exact h.fail_step hok hnext
  | respond contentLength now => exact h.respond_step hnext
  | chunk bytes now removable => exact h.chunk_step hnext
  | eof => exact h.eof_step hnext
  | check readable => exact h.check_step hnext
  | verify readable removable => exact h.verify_step hnext
  | mark ok => exact h.mark_step hnext
  | writeMarker ok => exact h.writeMarker_step hnext
  | look => exact h.look_step hnext
  | entry now => exact h.entry_step hlayout hnext
  | extract written now => exact h.extract_step hlayout hnext

/-- The models that `ensure_diar_models` returns are complete, as long as no run ends while
the segmentation model is being unpacked. -/
theorem diar_models_complete (hlayout : Layout host) {files : Path → Option File}
    (hnew : files (segPath host) = none) {events : List Event}
    (hok : Meets (step host) (Uninterrupted host) (start files) events)
    (hrun : run (step host) (start files) events = some s) {seg emb : Path}
    (hreturned : s.phase = .returned (some (.diar seg emb))) :
    (∃ f, s.disk.files seg = some f ∧ Complete host f) ∧ Verified host s.disk diarEmbInfo emb := by
  have hstart : DiarInv host (start files) := by
    refine ⟨fun hmarked => ?_, fun hmarked => ?_, fun f hf => ?_, trivial⟩
    · exact absurd (fun marker => nofun) hmarked
    · exact absurd (fun marker => nofun) hmarked
    · rw [show (start files).disk.files = files from rfl, hnew] at hf
      cases hf
  have h : DiarInv host s := run_invariant_of_meets
    (fun _ _ _ hI hok hnext => diarInv_step hI hlayout hok hnext) hstart hok hrun
  have hphase := h.phase
  rw [hreturned] at hphase
  exact ⟨hphase.2.2.2, hphase.2.2.1⟩

end Inv

/-! ## A crash during unpacking -/

def diarSegFile : Path := ["data", "sherpa-onnx-pyannote-segmentation-3-0", "model.onnx"]

def diarEmbFile : Path := ["data", "3dspeaker_speech_eres2net_base_sv_zh-cn_3dspeaker_16k.onnx"]

/-- The archive is `[2]` and has one file. -/
def diarHost : Host where
  dataDir := ["data"]
  sha256 content :=
    if content = [1] then diarEmbInfo.sha256
    else if content = [2] then diarSegInfo.sha256 else ""
  entries content := if content = [2] then [⟨diarSegFile, [7, 8]⟩] else []

/-- Both downloads, up to the first byte of the segmentation model. -/
def diarRun : List Event :=
  [.ensureDiarModels .unset, .respond none 0, .chunk [1] 0 true, .eof, .check true,
    .verify true true, .mark false, .look, .respond none 0, .chunk [2] 0 true, .eof, .check true,
    .verify true true, .mark false, .look, .entry 0, .extract 1 0]

/-- The next run finds the segmentation model, and returns it. -/
def diarAgain : List Event :=
  [.crash, .ensureDiarModels .unset, .check true, .verify true true, .mark false, .look]

theorem not_diar_models_complete : ∃ s,
    run (step diarHost) (start fun _ => none) (diarRun ++ diarAgain) = some s ∧
    s.phase = .returned (some (.diar diarSegFile diarEmbFile)) ∧
    s.disk.files diarSegFile = some ⟨[7], 0⟩ ∧ ¬ Complete diarHost ⟨[7], 0⟩ := by
  have hvalues : (run (step diarHost) (start fun _ => none) (diarRun ++ diarAgain)).map
      (fun s => (s.phase, s.disk.files diarSegFile)) =
        some (.returned (some (.diar diarSegFile diarEmbFile)), some ⟨[7], 0⟩) := by
    decide +kernel
  obtain ⟨s, hs, hs'⟩ := Option.map_eq_some_iff.mp hvalues
  simp only [Prod.mk.injEq] at hs'
  refine ⟨s, hs, hs'.1, hs'.2, ?_⟩
  rintro ⟨tar, entry, -, hentry, -, hcontent⟩
  simp only [diarHost] at hentry
  split at hentry
  · rw [List.mem_singleton.mp hentry] at hcontent
    cases hcontent
  · cases hentry

theorem diar_models_complete_unpacked : ∃ s,
    run (step diarHost) (start fun _ => none) (diarRun ++ [.extract 2 0, .look]) = some s ∧
    ∃ f, s.disk.files diarSegFile = some f ∧ Complete diarHost f := by
  have hvalues : (run (step diarHost) (start fun _ => none)
      (diarRun ++ [.extract 2 0, .look])).map (fun s => s.phase) =
        some (.returned (some (.diar diarSegFile diarEmbFile))) := by
    decide +kernel
  obtain ⟨s, hs, hphase⟩ := Option.map_eq_some_iff.mp hvalues
  have hlayout : Layout diarHost := by
    intro tar _ entry hentry
    simp only [diarHost] at hentry
    split at hentry
    · rw [List.mem_singleton.mp hentry]
      decide
    · cases hentry
  have hok : Meets (step diarHost) (Uninterrupted diarHost) (start fun _ => none)
      (diarRun ++ [.extract 2 0, .look]) := by
    have hall : Meets (step diarHost) (fun _ event => ∀ s, Uninterrupted diarHost s event)
        (start fun _ => none) (diarRun ++ [.extract 2 0, .look]) := by
      apply meets_of_mem
      rw [← List.forall_iff_forall_mem]
      simp only [diarRun, List.cons_append, List.nil_append, List.Forall, Uninterrupted,
        implies_true, and_self]
    exact hall.mono fun s event h => h s
  exact ⟨s, hs, (diar_models_complete hlayout rfl hok hs hphase).1⟩

end Models
end Panops
