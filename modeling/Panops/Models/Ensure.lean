import Panops.Lib.Disk

/-!
# Model files

`ensure_model`, `ensure_vad_model` and `ensure_diar_models` step by step, from one run of
the program to the next: downloads into a partial file, verification against the
registered hash, the marker that remembers it, and the unpacking of an archive.  A run may
end at any step.
-/

namespace Panops
namespace Models

open Lib

structure ModelInfo where
  name : String
  sha256 : String
deriving DecidableEq

def MODELS : List ModelInfo :=
  [⟨"ggml-tiny-q5_1", "818710568da3ca15689e31a743197b520007872ff9576237bda97bd1b469c3d7"⟩,
   ⟨"ggml-base-q5_1", "422f1ae452ade6f30a004d7e5c6a43195e4433bc370bf23fac9cc591f01a8898"⟩,
   ⟨"ggml-large-v3-turbo-q5_0",
    "394221709cd5ad1f40c46e6031ca61bce88931e6e088c188294c6d5a55ffa7e2"⟩]

def diarSegInfo : ModelInfo where
  name := "sherpa-onnx-pyannote-segmentation-3-0"
  sha256 := "24615ee884c897d9d2ba09bb4d30da6bb1b15e685065962db5b02e76e4996488"

def diarEmbInfo : ModelInfo where
  name := "3dspeaker_speech_eres2net_base_sv_zh-cn_3dspeaker_16k"
  sha256 := "1a331345f04805badbb495c775a6ddffcdd1a732567d5ec8b3d5749e3c7a5e4b"

def DIAR_MODELS : List ModelInfo := [diarSegInfo, diarEmbInfo]

def vadInfo : ModelInfo where
  name := "ggml-silero-v6.2.0"
  sha256 := "2aa269b785eeb53a82983a20501ddf7c1d9c48e33ab63a41391ac6c9f7fb6987"

def VAD_MODELS : List ModelInfo := [vadInfo]

def lookupModel (name : String) : Option ModelInfo :=
  (MODELS ++ DIAR_MODELS ++ VAD_MODELS).find? fun info => info.name == name

/-! ## Files and markers -/

/-- A file with its modification time, in nanoseconds since the Unix epoch. -/
structure File where
  content : List UInt8
  mtime : Int
deriving DecidableEq

def File.size (f : File) : Nat := f.content.length

/-- A name without its last extension. -/
def stemOfName (name : List Char) : List Char :=
  match name.reverse.dropWhile (· ≠ '.') with
  | [] => name
  | [_] => name
  | _ :: front => front.reverse

/-- `Path::with_extension`. -/
def withExtension (p : Path) (extension : String) : Path :=
  match p.getLast? with
  | none => p
  | some name =>
    Path.join p.dropLast (String.ofList (stemOfName name.toList) ++ "." ++ extension)

structure VerificationMarker where
  sha256 : String
  size : Nat
  mtimeSecs : Nat
  mtimeNanos : Nat
deriving DecidableEq

/-- Seconds and nanoseconds; a time before the epoch has no duration since it, which
counts as none at all. -/
def mtimeParts (mtime : Int) : Nat × Nat :=
  (mtime.toNat / 1000000000, mtime.toNat % 1000000000)

structure Disk where
  files : Path → Option File
  /-- The `.verified` files by the path of the model, none inside for a text that is no
  marker, such as one cut short. -/
  markers : Path → Option (Option VerificationMarker)

namespace Disk

def exists_ (d : Disk) (p : Path) : Bool := (d.files p).isSome

def put (d : Disk) (p : Path) (f : File) : Disk :=
  { d with files := fun q => if q = p then some f else d.files q }

def remove (d : Disk) (p : Path) : Disk :=
  { d with files := fun q => if q = p then none else d.files q }

def putMarker (d : Disk) (p : Path) (marker : Option VerificationMarker) : Disk :=
  { d with markers := fun q => if q = p then some marker else d.markers q }

def verificationCacheValid (d : Disk) (p : Path) (expected : String) : Bool :=
  match d.markers p, d.files p with
  | some (some marker), some f =>
    marker.sha256 == expected && marker.size == f.size &&
      marker.mtimeSecs == (mtimeParts f.mtime).1 && marker.mtimeNanos == (mtimeParts f.mtime).2
  | _, _ => false

end Disk

/-- The marker of a file that has been verified. -/
def markerOf (sha256 : String) (f : File) : VerificationMarker where
  sha256 := sha256
  size := f.size
  mtimeSecs := (mtimeParts f.mtime).1
  mtimeNanos := (mtimeParts f.mtime).2

/-! ## Runs -/

def DOWNLOAD_SIZE_GRACE : Nat := 1024 * 1024

def MAX_MODEL_DOWNLOAD_BYTES : Nat := 6 * 1024 * 1024 * 1024

def downloadSizeLimit : Option Nat → Nat
  | some total => min (min (total + DOWNLOAD_SIZE_GRACE) 18446744073709551615)
      MAX_MODEL_DOWNLOAD_BYTES
  | none => MAX_MODEL_DOWNLOAD_BYTES

/-- The override variables. -/
structure Env where
  model : Bool
  vadModel : Bool
  diarSeg : Option Path
  diarEmb : Option Path
  skipModelChecksum : Bool
deriving DecidableEq

def Env.unset : Env where
  model := false
  vadModel := false
  diarSeg := none
  diarEmb := none
  skipModelChecksum := false

/-- A file in an archive, with the path that it is unpacked to. -/
structure Entry where
  path : Path
  content : List UInt8
deriving DecidableEq

/-- What is outside the program: where its data is, and what the `sha2`, `bzip2` and `tar`
crates compute. -/
structure Host where
  dataDir : Path
  sha256 : List UInt8 → String
  entries : List UInt8 → List Entry

def defaultDiarSegPath (host : Host) (env : Env) : Path :=
  env.diarSeg.getD
    ((host.dataDir.join "sherpa-onnx-pyannote-segmentation-3-0").join "model.onnx")

def defaultDiarEmbPath (host : Host) (env : Env) : Path :=
  env.diarEmb.getD
    (host.dataDir.join "3dspeaker_speech_eres2net_base_sv_zh-cn_3dspeaker_16k.onnx")

def tarPath (host : Host) : Path :=
  host.dataDir.join "sherpa-onnx-pyannote-segmentation-3-0.tar.bz2"

/-- What follows when a file is there. -/
inductive Next where
  | returns (name : String)
  | segmentation (env : Env)
  | unpack (env : Env)
deriving DecidableEq

/-- A file to be had. -/
structure Job where
  info : ModelInfo
  dest : Path
  existedBefore : Bool
  verifies : Bool
  next : Next
deriving DecidableEq

inductive Source where
  | mirror
  | upstream
deriving DecidableEq

inductive Outcome where
  | model (name : String) (path : Path)
  | diar (seg emb : Path)
deriving DecidableEq

inductive Phase where
  | idle
  | requesting (job : Job) (source : Source)
  | receiving (job : Job) (source : Source) (limit : Nat)
  | checking (job : Job)
  | verifying (job : Job)
  | marking (job : Job)
  | markerCreated (job : Job) (marker : VerificationMarker)
  | segmentation (env : Env)
  | opening (env : Env)
  | unpacking (env : Env) (rest : List Entry)
  | extracting (env : Env) (entry : Entry) (written : Nat) (rest : List Entry)
  /-- None for an error. -/
  | returned (outcome : Option Outcome)
deriving DecidableEq

structure State where
  disk : Disk
  phase : Phase

inductive Event where
  | ensureModel (name : String) (dest : Path) (env : Env)
  | ensureVadModel (dest : Path) (env : Env)
  | ensureDiarModels (env : Env)
  | crash
  /-- The operation at hand fails. -/
  | fail
  | respond (contentLength : Option Nat) (now : Int)
  | chunk (bytes : List UInt8) (now : Int) (removable : Bool)
  | eof
  | check (readable : Bool)
  | verify (readable removable : Bool)
  | mark (ok : Bool)
  | writeMarker (ok : Bool)
  | look
  /-- The next file of the archive is created, emptied if it is there. -/
  | entry (now : Int)
  /-- More of it is written. -/
  | extract (written : Nat) (now : Int)
  /-- The program is not running. -/
  | rewrite (path : Path) (file : File)
  | delete (path : Path)

namespace State

def goto (s : State) (phase : Phase) : State := { s with phase := phase }

def finish (job : Job) (s : State) : State :=
  match job.next with
  | .returns name => s.goto (.returned (some (.model name job.dest)))
  | .segmentation env => s.goto (.segmentation env)
  | .unpack env => s.goto (.opening env)

/-- A file that is there is checked, one that is not is downloaded. -/
def begin (job : Job) (s : State) : State :=
  if job.existedBefore then
    if job.verifies then s.goto (.checking job) else s.finish job
  else s.goto (.requesting job .mirror)

/-- The mirror is tried first. -/
def downloadFailed (job : Job) (source : Source) (s : State) : State :=
  match source with
  | .mirror => s.goto (.requesting job .upstream)
  | .upstream => s.goto (.returned none)

/-- `ensure_model` verifies what it has downloaded, the diarization models look for a
marker first. -/
def downloaded (job : Job) (s : State) : State :=
  match job.next with
  | .returns _ => s.goto (.verifying job)
  | _ => if job.verifies then s.goto (.checking job) else s.finish job

/-- `ensure_model` and `ensure_vad_model`, with the variable that each of them honors. -/
def ensureFile (info : ModelInfo) (dest : Path) (userOverride skipChecksum : Bool)
    (s : State) : State :=
  s.begin
    { info := info, dest := dest, existedBefore := s.disk.exists_ dest
      verifies := !userOverride && !skipChecksum, next := .returns info.name }

def ensureModel (name : String) (dest : Path) (env : Env) (s : State) : State :=
  match lookupModel name with
  | none => s.goto (.returned none)
  | some info => s.ensureFile info dest env.model env.skipModelChecksum

def ensureVadModel (dest : Path) (env : Env) (s : State) : State :=
  s.ensureFile vadInfo dest env.vadModel env.skipModelChecksum

def ensureDiarModels (host : Host) (env : Env) (s : State) : State :=
  let emb := defaultDiarEmbPath host env
  let embExistedBefore := s.disk.exists_ emb
  s.begin
    { info := diarEmbInfo, dest := emb, existedBefore := embExistedBefore
      verifies := !env.skipModelChecksum && (!embExistedBefore || env.diarEmb.isNone)
      next := .segmentation env }

/-- The part of `ensure_diar_models` about the segmentation model. -/
def ensureSegmentation (host : Host) (env : Env) (s : State) : State :=
  let seg := defaultDiarSegPath host env
  if s.disk.exists_ seg then
    s.goto (.returned (some (.diar seg (defaultDiarEmbPath host env))))
  else if env.diarSeg.isSome then s.goto (.returned none)
  else s.begin
    { info := diarSegInfo, dest := tarPath host, existedBefore := s.disk.exists_ (tarPath host)
      verifies := !env.skipModelChecksum, next := .unpack env }

end State

/-- Between two runs. -/
def Phase.AtRest : Phase → Bool
  | .idle | .returned _ => true
  | _ => false

def step (host : Host) (s : State) : Event → Option State
  | .ensureModel name dest env =>
    if s.phase.AtRest then some (s.ensureModel name dest env) else none
  | .ensureVadModel dest env =>
    if s.phase.AtRest then some (s.ensureVadModel dest env) else none
  | .ensureDiarModels env =>
    if s.phase.AtRest then some (s.ensureDiarModels host env) else none
  | .crash => some (s.goto .idle)
  | .fail =>
    match s.phase with
    | .requesting job source => some (s.downloadFailed job source)
    | .receiving job source _ => some (s.downloadFailed job source)
    | .segmentation _ | .opening _ | .unpacking .. | .extracting .. => some (s.goto (.returned none))
    | _ => none
  | .respond contentLength now =>
    match s.phase with
    | .requesting job source =>
      if contentLength.any (MAX_MODEL_DOWNLOAD_BYTES < ·) then some (s.downloadFailed job source)
      else some
        { disk := s.disk.put (withExtension job.dest "partial") ⟨[], now⟩
          phase := .receiving job source (downloadSizeLimit contentLength) }
    | _ => none
  | .chunk bytes now removable =>
    match s.phase with
    | .receiving job source limit =>
      let tmp := withExtension job.dest "partial"
      let content := ((s.disk.files tmp).map File.content).getD [] ++ bytes
      let disk := s.disk.put tmp ⟨content, now⟩
      if limit < content.length then
        some ({ s with disk := if removable then disk.remove tmp else disk }.downloadFailed
          job source)
      else some { s with disk := disk }
    | _ => none
  | .eof =>
    match s.phase with
    | .receiving job _ _ =>
      let tmp := withExtension job.dest "partial"
      match s.disk.files tmp with
      | some f => some ({ s with disk := (s.disk.remove tmp).put job.dest f }.downloaded job)
      | none => none
    | _ => none
  | .check readable =>
    match s.phase with
    | .checking job =>
      if readable && s.disk.verificationCacheValid job.dest job.info.sha256 then
        some (s.finish job)
      else some (s.goto (.verifying job))
    | _ => none
  | .verify readable removable =>
    match s.phase with
    | .verifying job =>
      if readable ∧ (s.disk.files job.dest).map (fun f => host.sha256 f.content) =
          some job.info.sha256 then some (s.goto (.marking job))
      else if !job.existedBefore && removable then
        some { disk := s.disk.remove job.dest, phase := .returned none }
      else some (s.goto (.returned none))
    | _ => none
  | .mark ok =>
    match s.phase with
    | .marking job =>
      match ok, s.disk.files job.dest with
      | true, some f => some
        { disk := s.disk.putMarker job.dest none
          phase := .markerCreated job (markerOf job.info.sha256 f) }
      | _, _ => some (s.finish job)
    | _ => none
  | .writeMarker ok =>
    match s.phase with
    | .markerCreated job marker =>
      if ok then
        some ({ s with disk := s.disk.putMarker job.dest (some marker) }.finish job)
      else some (s.finish job)
    | _ => none
  | .look =>
    match s.phase with
    | .segmentation env => some (s.ensureSegmentation host env)
    | .opening env =>
      match s.disk.files (tarPath host) with
      | some f => some (s.goto (.unpacking env (host.entries f.content)))
      | none => some (s.goto (.returned none))
    | .unpacking env [] =>
      let seg := defaultDiarSegPath host env
      if s.disk.exists_ seg then
        some (s.goto (.returned (some (.diar seg (defaultDiarEmbPath host env)))))
      else some (s.goto (.returned none))
    | _ => none
  | .entry now =>
    match s.phase with
    | .unpacking env (entry :: rest) => some
      { disk := s.disk.put entry.path ⟨[], now⟩, phase := .extracting env entry 0 rest }
    | _ => none
  | .extract written now =>
    match s.phase with
    | .extracting env entry before rest =>
      if before < written then some
        { disk := s.disk.put entry.path ⟨entry.content.take written, now⟩
          phase := if entry.content.length ≤ written then .unpacking env rest
            else .extracting env entry written rest }
      else if entry.content.length ≤ before then some (s.goto (.unpacking env rest))
      else none
    | _ => none
  | .rewrite path file =>
    if s.phase.AtRest then some { disk := s.disk.put path file, phase := .idle } else none
  | .delete path =>
    if s.phase.AtRest then some { disk := s.disk.remove path, phase := .idle } else none

def start (files : Path → Option File) : State where
  disk := { files := files, markers := fun _ => none }
  phase := .idle

end Models
end Panops
