import Panops.App.CaptureSource
import Panops.Lib.Codable
import Panops.Protocol.Recording

/-!
# The request of a recording

What the app writes for `recording.start`, and that the engine reads it as it was meant.
-/

namespace Panops
namespace App

open App.Capture (CaptureTargetDTO RecordingOptions)
open Lib.Codable Lib.Serde
open Protocol (RecordingStartParams readCaptureTarget readRecordingStartParams)

variable {τ : Type}

/-! ## Encoding -/

def rawValue : Capture.AudioSourcesWire → String
  | .systemOnly => "system_only"
  | .micOnly => "mic_only"
  | .systemAndMic => "system_and_mic"

/-- `CaptureTargetDTO.encode(to:)` -/
def encodeCaptureTarget : CaptureTargetDTO → Value
  | .display displayID =>
    .object [("kind", .string "display"), ("display_id", ofU32 displayID)]
  | .window windowID => .object [("kind", .string "window"), ("window_id", ofU32 windowID)]
  | .app bundleID => .object [("kind", .string "app"), ("bundle_id", .string bundleID)]
  | .region displayID x y w h =>
    .object [("kind", .string "region"), ("display_id", ofU32 displayID), ("x", ofU32 x),
      ("y", ofU32 y), ("w", ofU32 w), ("h", ofU32 h)]

/-- The parameters of `recordingStart`. -/
def encodeRecordingStartParams (single : Codec τ) (meetingId : String) (options : RecordingOptions)
    (screenshotIntervalMs : UInt64) (screenshotThreshold : τ) : Value :=
  .object
    ([("meeting_id", .string meetingId),
      ("audio_sources", .string (rawValue options.audioSources)),
      ("screenshot_interval_ms", ofU64 screenshotIntervalMs),
      ("screenshot_threshold", single.write screenshotThreshold),
      ("record_video", .bool options.recordVideo),
      ("auto_generate_notes", .bool options.autoGenerateNotes),
      ("capture_target", encodeCaptureTarget options.captureTarget)] ++
      (writeOptional "width" ofU32 options.width ++ writeOptional "height" ofU32 options.height))

/-! ## What the engine reads -/

def wireSources : Capture.AudioSourcesWire → Protocol.AudioSourcesWire
  | .systemOnly => .systemOnly
  | .micOnly => .micOnly
  | .systemAndMic => .systemAndMic

def wireTarget : CaptureTargetDTO → Protocol.CaptureTarget
  | .display displayID => .display displayID
  | .window windowID => .window windowID
  | .app bundleID => .app bundleID
  | .region displayID x y w h => .region displayID x y w h

theorem readAudioSources_rawValue (sources : Capture.AudioSourcesWire) :
    Protocol.readAudioSources (.string (rawValue sources)) = some (wireSources sources) := by
  cases sources with
  | systemAndMic | micOnly | systemOnly => rfl

theorem readCaptureTarget_encode (target : CaptureTargetDTO) :
    readCaptureTarget (encodeCaptureTarget target) = some (wireTarget target) := by
  cases target with
  | display displayID =>
    simp [readCaptureTarget, encodeCaptureTarget, untag, readStruct_object, asStr_string, readOr,
      asU32_ofU32, wireTarget]
  | window windowID =>
    simp [readCaptureTarget, encodeCaptureTarget, untag, readStruct_object, asStr_string,
      asU32_ofU32, wireTarget]
  | app bundleID =>
    simp [readCaptureTarget, encodeCaptureTarget, untag, readStruct_object, asStr_string,
      wireTarget]
  | region displayID x y w h =>
    simp [readCaptureTarget, encodeCaptureTarget, untag, readStruct_object, List.lookup_cons,
      asStr_string, readOr, asU32_ofU32, wireTarget]

/-- What the options of a recording ask for. -/
def startParams (meetingId : String) (options : RecordingOptions) (screenshotIntervalMs : UInt64)
    (screenshotThreshold : τ) : RecordingStartParams τ where
  meetingId := meetingId
  audioSources := wireSources options.audioSources
  recordVideo := options.recordVideo
  autoGenerateNotes := options.autoGenerateNotes
  screenshotIntervalMs := screenshotIntervalMs
  screenshotThreshold := screenshotThreshold
  captureTarget := wireTarget options.captureTarget
  width := options.width
  height := options.height

theorem readRecordingStartParams_encode (single : Codec τ) (default : τ) (meetingId : String)
    (options : RecordingOptions) (screenshotIntervalMs : UInt64) (screenshotThreshold : τ) :
    readRecordingStartParams single default
        (encodeRecordingStartParams single meetingId options screenshotIntervalMs
          screenshotThreshold) =
      some (startParams meetingId options screenshotIntervalMs screenshotThreshold) := by
  have hwidth : readOptional asU32 ((writeOptional "width" ofU32 options.width).lookup "width") =
      some options.width := readOptional_lookup_writeOptional asU32_ofU32 (fun _ => nofun) _
  have hheight : readOptional asU32 ((writeOptional "height" ofU32 options.height).lookup
      "height") = some options.height :=
    readOptional_lookup_writeOptional asU32_ofU32 (fun _ => nofun) _
  have hother : ∀ (a : Option UInt32) {name other : String}, other ≠ name →
      (writeOptional name ofU32 a).lookup other = none :=
    fun a _ _ hne => lookup_writeOptional_of_ne hne ofU32 a
  rw [readRecordingStartParams, encodeRecordingStartParams, readStruct_object]
  simp [List.lookup_cons, List.lookup_append, hother, hwidth, hheight, readOr, asStr_string,
    asBool_bool, asU64_ofU64, single.read_write, readAudioSources_rawValue,
    readCaptureTarget_encode, startParams]

end App
end Panops
