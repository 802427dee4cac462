import Panops.Lib.Serde

/-!
# What a capture is started with

`CaptureConfig`, and the parameters of `capture.start` that `ScreenCaptureKitCapture`
makes of it.
-/

namespace Panops
namespace Mac

open Lib.Serde

inductive AudioSources where
  | systemOnly
  | micOnly
  | systemAndMic
deriving DecidableEq

/-- Display 0 is the primary one. -/
inductive CaptureTarget where
  | display (displayId : UInt32)
  | window (windowId : UInt32)
  | app (bundleId : String)
  | region (displayId x y w h : UInt32)
deriving DecidableEq

/-- `τ` are the numbers of single precision. -/
structure CaptureConfig (τ : Type) where
  audioSources : AudioSources
  recordVideo : Bool
  screenshotIntervalMs : UInt64
  screenshotThreshold : τ
  captureTarget : CaptureTarget
  width : Option UInt32
  height : Option UInt32

/-- `dir.join(name)` -/
def joinName (dir name : String) : String :=
  if dir = "" ∨ dir.toList.getLast? = some '/' then dir ++ name else dir ++ "/" ++ name

/-- The paths of the tracks that are asked for. -/
def trackPaths (meetingDir : String) (sources : AudioSources) : Option String × Option String :=
  (if sources = .micOnly then none else some (joinName meetingDir "system.wav"),
    if sources = .systemOnly then none else some (joinName meetingDir "mic.wav"))

def audioSourcesStr : AudioSources → String
  | .systemOnly => "system_only"
  | .micOnly => "mic_only"
  | .systemAndMic => "system_and_mic"

def captureTargetJson : CaptureTarget → Value
  | .display displayId =>
    .object [("kind", .string "display"), ("display_id", ofU32 displayId)]
  | .window windowId => .object [("kind", .string "window"), ("window_id", ofU32 windowId)]
  | .app bundleId => .object [("kind", .string "app"), ("bundle_id", .string bundleId)]
  | .region displayId x y w h =>
    .object [("kind", .string "region"), ("display_id", ofU32 displayId), ("x", ofU32 x),
      ("y", ofU32 y), ("w", ofU32 w), ("h", ofU32 h)]

def ofOptionString : Option String → Value
  | none => .null
  | some s => .string s

variable {τ : Type}

def captureStartParams (single : Codec τ) (meetingId meetingDir : String)
    (config : CaptureConfig τ) : Value :=
  let paths := trackPaths meetingDir config.audioSources
  .object
    ([("meeting_id", .string meetingId),
      ("system_audio_path", ofOptionString paths.1),
      ("mic_audio_path", ofOptionString paths.2),
      ("screenshots_dir", .string (joinName meetingDir "screenshots")),
      ("audio_sources", .string (audioSourcesStr config.audioSources)),
      ("record_video", .bool config.recordVideo),
      ("video_path", .string (joinName meetingDir "recording.mov")),
      ("screenshot_interval_ms", ofU64 config.screenshotIntervalMs),
      ("screenshot_threshold", single.write config.screenshotThreshold),
      ("capture_target", captureTargetJson config.captureTarget)] ++
      (writeOptional "width" ofU32 config.width ++ writeOptional "height" ofU32 config.height))

/-- The parameters of `capture.stop`. -/
def captureStopParams (meetingId : String) : Value := .object [("meeting_id", .string meetingId)]

/-- A request as it is written, without its id. -/
def captureRequest (id : UInt64) (method : String) (params : Value) : Value :=
  .object [("jsonrpc", .string "2.0"), ("id", ofU64 id), ("method", .string method),
    ("params", .array [params])]

end Mac
end Panops
