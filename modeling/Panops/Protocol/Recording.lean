import Panops.Mac.CaptureStart

/-!
# `recording.start` on the wire

`RecordingStartParams`, and the `CaptureConfig` that the engine takes from it.
-/

namespace Panops
namespace Protocol

open Lib.Serde
open Mac (CaptureConfig)

inductive AudioSourcesWire where
  | systemOnly
  | micOnly
  | systemAndMic
deriving DecidableEq

inductive CaptureTarget where
  | display (displayId : UInt32)
  | window (windowId : UInt32)
  | app (bundleId : String)
  | region (displayId x y w h : UInt32)
deriving DecidableEq

def CaptureTarget.default : CaptureTarget := .display 0

def defaultScreenshotInterval : UInt64 := 500

variable {τ : Type}

structure RecordingStartParams (τ : Type) where
  meetingId : String
  audioSources : AudioSourcesWire
  recordVideo : Bool
  autoGenerateNotes : Bool
  screenshotIntervalMs : UInt64
  screenshotThreshold : τ
  captureTarget : CaptureTarget
  width : Option UInt32
  height : Option UInt32

/-! ## Reading -/

/-- The name of a variant without fields, alone or over `null`. -/
def readVariant : Value → Option String
  | .string name => some name
  | .object [(name, .null)] => some name
  | _ => none

def readAudioSources (v : Value) : Option AudioSourcesWire := do
  let name ← readVariant v
  match name with
  | "system_only" => some .systemOnly
  | "mic_only" => some .micOnly
  | "system_and_mic" => some .systemAndMic
  | _ => none

def readCaptureTarget (v : Value) : Option CaptureTarget := do
  let tagged ← untag "kind" v
  match tagged.1 with
  | "display" =>
    readStruct ["display_id"] (fun f => (readOr asU32 0 (f "display_id")).map .display) tagged.2
  | "window" =>
    readStruct ["window_id"] (fun f => ((f "window_id").bind asU32).map .window) tagged.2
  | "app" =>
    readStruct ["bundle_id"] (fun f => ((f "bundle_id").bind Value.asStr).map .app) tagged.2
  | "region" =>
    readStruct ["display_id", "x", "y", "w", "h"] (fun f => do
      let displayId ← readOr asU32 0 (f "display_id")
      let x ← (f "x").bind asU32
      let y ← (f "y").bind asU32
      let w ← (f "w").bind asU32
      let h ← (f "h").bind asU32
      some (.region displayId x y w h)) tagged.2
  | _ => none

/-- `threshold` is the default, 0.15. -/
def readRecordingStartParams (single : Codec τ) (threshold : τ) :
    Value → Option (RecordingStartParams τ) :=
  readStruct ["meeting_id", "audio_sources", "record_video", "auto_generate_notes",
      "screenshot_interval_ms", "screenshot_threshold", "capture_target", "width", "height"]
    fun f => do
      let meetingId ← (f "meeting_id").bind Value.asStr
      let audioSources ← readOr readAudioSources .systemAndMic (f "audio_sources")
      let recordVideo ← readOr asBool false (f "record_video")
      let autoGenerateNotes ← readOr asBool false (f "auto_generate_notes")
      let screenshotIntervalMs ←
        readOr asU64 defaultScreenshotInterval (f "screenshot_interval_ms")
      let screenshotThreshold ← readOr single.read threshold (f "screenshot_threshold")
      let captureTarget ← readOr readCaptureTarget .default (f "capture_target")
      let width ← readOptional asU32 (f "width")
      let height ← readOptional asU32 (f "height")
      some ⟨meetingId, audioSources, recordVideo, autoGenerateNotes, screenshotIntervalMs,
        screenshotThreshold, captureTarget, width, height⟩

/-! ## The domain -/

/-- `AudioSources::from` -/
def AudioSourcesWire.toDomain : AudioSourcesWire → Mac.AudioSources
  | .systemOnly => .systemOnly
  | .micOnly => .micOnly
  | .systemAndMic => .systemAndMic

/-- `CaptureTarget::from` -/
def CaptureTarget.toDomain : CaptureTarget → Mac.CaptureTarget
  | .display displayId => .display displayId
  | .window windowId => .window windowId
  | .app bundleId => .app bundleId
  | .region displayId x y w h => .region displayId x y w h

/-- `CaptureConfig::from` -/
def RecordingStartParams.toConfig (value : RecordingStartParams τ) : CaptureConfig τ where
  audioSources := value.audioSources.toDomain
  recordVideo := value.recordVideo
  screenshotIntervalMs := value.screenshotIntervalMs
  screenshotThreshold := value.screenshotThreshold
  captureTarget := value.captureTarget.toDomain
  width := value.width
  height := value.height

end Protocol
end Panops
