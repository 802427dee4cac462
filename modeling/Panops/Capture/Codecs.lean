import Panops.Capture.Recorder
import Panops.Lib.Codable
import Panops.Mac.CaptureStart

/-!
# Requests as the sidecar reads them

`CaptureParams` and `JsonRpcRequest`, decoded from what `ScreenCaptureKitCapture` writes,
and the target that is made of them.
-/

namespace Panops
namespace Capture

open Lib.Codable Lib.Serde

/-- The wire form of a target. -/
structure CaptureTarget where
  kind : String
  windowId : Option UInt32
  bundleId : Option String
  displayId : Option UInt32
  x : Option UInt32
  y : Option UInt32
  w : Option UInt32
  h : Option UInt32
deriving DecidableEq

structure CaptureParams (τ : Type) where
  meetingId : Option String
  systemAudioPath : Option String
  micAudioPath : Option String
  screenshotsDir : Option String
  audioSources : Option String
  screenshotIntervalMs : Option UInt64
  screenshotThreshold : Option τ
  recordVideo : Option Bool
  captureTarget : Option CaptureTarget
  width : Option UInt32
  height : Option UInt32

structure JsonRpcRequest (τ : Type) where
  jsonrpc : String
  id : Option UInt64
  method : String
  params : List (CaptureParams τ)

def decodeCaptureTarget (v : Value) : Option CaptureTarget := do
  let c ← container v
  let kind ← decode Value.asStr c "kind"
  let windowId ← decodeIfPresent asU32 c "window_id"
  let bundleId ← decodeIfPresent Value.asStr c "bundle_id"
  let displayId ← decodeIfPresent asU32 c "display_id"
  let x ← decodeIfPresent asU32 c "x"
  let y ← decodeIfPresent asU32 c "y"
  let w ← decodeIfPresent asU32 c "w"
  let h ← decodeIfPresent asU32 c "h"
  some { kind, windowId, bundleId, displayId, x, y, w, h }

variable {τ : Type}

def decodeCaptureParams (single : Codec τ) (v : Value) : Option (CaptureParams τ) := do
  let c ← container v
  let meetingId ← decodeIfPresent Value.asStr c "meeting_id"
  let systemAudioPath ← decodeIfPresent Value.asStr c "system_audio_path"
  let micAudioPath ← decodeIfPresent Value.asStr c "mic_audio_path"
  let screenshotsDir ← decodeIfPresent Value.asStr c "screenshots_dir"
  let audioSources ← decodeIfPresent Value.asStr c "audio_sources"
  let screenshotIntervalMs ← decodeIfPresent asU64 c "screenshot_interval_ms"
  let screenshotThreshold ← decodeIfPresent single.read c "screenshot_threshold"
  let recordVideo ← decodeIfPresent asBool c "record_video"
  let captureTarget ← decodeIfPresent decodeCaptureTarget c "capture_target"
  let width ← decodeIfPresent asU32 c "width"
  let height ← decodeIfPresent asU32 c "height"
  some { meetingId, systemAudioPath, micAudioPath, screenshotsDir, audioSources,
         screenshotIntervalMs, screenshotThreshold, recordVideo, captureTarget, width, height }

def decodeJsonRpcRequest (single : Codec τ) (v : Value) : Option (JsonRpcRequest τ) := do
  let c ← container v
  let jsonrpc ← decode Value.asStr c "jsonrpc"
  let id ← decodeIfPresent asU64 c "id"
  let method ← decode Value.asStr c "method"
  let params ← decode (fun v => v.asArray.bind (List.mapM (decodeCaptureParams single))) c "params"
  some { jsonrpc, id, method, params }

/-! ## The target -/

inductive CaptureTargetKind where
  | display
  | window (windowId : UInt32)
  | app (bundleId : String)
  | region (displayId x y w h : UInt32)
deriving DecidableEq

/-- `CaptureTargetKind.init(wire:)` -/
def CaptureTargetKind.ofWire (wire : Option CaptureTarget) : Option CaptureTargetKind :=
  match wire with
  | none => some .display
  | some wire =>
    match wire.kind with
    | "window" =>
      match wire.windowId with
      | some id => some (.window id)
      | none => some .display
    | "app" => wire.bundleId.map .app
    | "region" =>
      match wire.w, wire.h, wire.x, wire.y with
      | some w, some h, some x, some y => some (.region (wire.displayId.getD 0) x y w h)
      | _, _, _, _ => some .display
    | _ => some .display

structure CaptureRect where
  x : Nat
  y : Nat
  w : Nat
  h : Nat
deriving DecidableEq

def CaptureTargetKind.regionRect : CaptureTargetKind → Option CaptureRect
  | .region _ x y w h => some ⟨x.toNat, y.toNat, w.toNat, h.toNat⟩
  | _ => none

/-- The target that `capture.start` hands to the recorder. -/
def CaptureParams.target (p : CaptureParams τ) : CaptureTargetKind :=
  (CaptureTargetKind.ofWire p.captureTarget).getD .display

def CaptureParams.plan (p : CaptureParams τ) : TrackPlan :=
  .ofSources (p.audioSources.getD "system_and_mic")

/-! ## What the adapter has written -/

/-- The display is not told apart any more. -/
def targetKind : Mac.CaptureTarget → CaptureTargetKind
  | .display _ => .display
  | .window windowId => .window windowId
  | .app bundleId => .app bundleId
  | .region displayId x y w h => .region displayId x y w h

def wireForm : Mac.CaptureTarget → CaptureTarget
  | .display displayId => ⟨"display", none, none, some displayId, none, none, none, none⟩
  | .window windowId => ⟨"window", some windowId, none, none, none, none, none, none⟩
  | .app bundleId => ⟨"app", none, some bundleId, none, none, none, none, none⟩
  | .region displayId x y w h =>
    ⟨"region", none, none, some displayId, some x, some y, some w, some h⟩

theorem ofWire_wireForm (target : Mac.CaptureTarget) :
    CaptureTargetKind.ofWire (some (wireForm target)) = some (targetKind target) := by
  cases target with
  | display | window | app | region => rfl

theorem readOptional_ofU32 (n : UInt32) : readOptional asU32 (some (ofU32 n)) = some (some n) :=
  readOptional_some (asU32_ofU32 n) nofun

theorem readOptional_string (s : String) :
    readOptional Value.asStr (some (.string s)) = some (some s) := rfl

theorem readOptional_none {α : Type} (read : Value → Option α) :
    readOptional read none = some none := rfl

theorem decodeCaptureTarget_write (target : Mac.CaptureTarget) :
    decodeCaptureTarget (Mac.captureTargetJson target) = some (wireForm target) := by
  cases target with
  | display displayId =>
    iterate 4 refine (bind_of_eq_some rfl _).trans ?_
    exact bind_of_eq_some (readOptional_ofU32 displayId) _
  | window windowId =>
    iterate 2 refine (bind_of_eq_some rfl _).trans ?_
    exact bind_of_eq_some (readOptional_ofU32 windowId) _
  | app => rfl
  | region displayId x y w h =>
    iterate 4 refine (bind_of_eq_some rfl _).trans ?_
    refine (bind_of_eq_some (readOptional_ofU32 displayId) _).trans ?_
    refine (bind_of_eq_some (readOptional_ofU32 x) _).trans ?_
    refine (bind_of_eq_some (readOptional_ofU32 y) _).trans ?_
    refine (bind_of_eq_some (readOptional_ofU32 w) _).trans ?_
    exact bind_of_eq_some (readOptional_ofU32 h) _

/-- What the adapter asks for. -/
def askedParams (meetingId meetingDir : String) (config : Mac.CaptureConfig τ) :
    CaptureParams τ where
  meetingId := some meetingId
  systemAudioPath := (Mac.trackPaths meetingDir config.audioSources).1
  micAudioPath := (Mac.trackPaths meetingDir config.audioSources).2
  screenshotsDir := some (Mac.joinName meetingDir "screenshots")
  audioSources := some (Mac.audioSourcesStr config.audioSources)
  screenshotIntervalMs := some config.screenshotIntervalMs
  screenshotThreshold := some config.screenshotThreshold
  recordVideo := some config.recordVideo
  captureTarget := some (wireForm config.captureTarget)
  width := config.width
  height := config.height

theorem readOptional_ofOptionString (s : Option String) :
    readOptional Value.asStr (some (Mac.ofOptionString s)) = some s := by
  cases s with
  | none | some => rfl

theorem decodeCaptureParams_write (single : Codec τ) (meetingId meetingDir : String)
    (config : Mac.CaptureConfig τ) :
    decodeCaptureParams single (Mac.captureStartParams single meetingId meetingDir config) =
      some (askedParams meetingId meetingDir config) := by
  have hother : ∀ (a : Option UInt32) {name other : String}, other ≠ name →
      (writeOptional name ofU32 a).lookup other = none :=
    fun a _ _ hne => lookup_writeOptional_of_ne hne ofU32 a
  have hwidth : readOptional asU32 ((writeOptional "width" ofU32 config.width ++
      writeOptional "height" ofU32 config.height).lookup "width") = some config.width := by
    rw [List.lookup_append, hother config.height (by decide), Option.or_none]
    exact readOptional_lookup_writeOptional asU32_ofU32 (fun _ => nofun) _
  have hheight : readOptional asU32 ((writeOptional "width" ofU32 config.width ++
      writeOptional "height" ofU32 config.height).lookup "height") = some config.height := by
    rw [List.lookup_append, hother config.width (by decide), Option.none_or]
    exact readOptional_lookup_writeOptional asU32_ofU32 (fun _ => nofun) _
  have hinterval : readOptional asU64 (some (ofU64 config.screenshotIntervalMs)) =
      some (some config.screenshotIntervalMs) := readOptional_some (asU64_ofU64 _) nofun
  have hthreshold : readOptional single.read (some (single.write config.screenshotThreshold)) =
      some (some config.screenshotThreshold) :=
    readOptional_some (single.read_write _) (single.write_ne_null _)
  have htarget : readOptional decodeCaptureTarget
      (some (Mac.captureTargetJson config.captureTarget)) =
        some (some (wireForm config.captureTarget)) := by
    apply readOptional_some (decodeCaptureTarget_write _)
    cases config.captureTarget with
    | display | window | app | region => nofun
  rw [decodeCaptureParams]
  refine (bind_of_eq_some rfl _).trans ?_
  refine (bind_of_eq_some (readOptional_string meetingId) _).trans ?_
  refine (bind_of_eq_some (readOptional_ofOptionString _) _).trans ?_
  refine (bind_of_eq_some (readOptional_ofOptionString _) _).trans ?_
  refine (bind_of_eq_some (readOptional_string _) _).trans ?_
  refine (bind_of_eq_some (readOptional_string _) _).trans ?_
  refine (bind_of_eq_some hinterval _).trans ?_
  refine (bind_of_eq_some hthreshold _).trans ?_
  refine (bind_of_eq_some rfl _).trans ?_
  refine (bind_of_eq_some htarget _).trans ?_
  refine (bind_of_eq_some hwidth _).trans ?_
  exact bind_of_eq_some hheight _

theorem target_askedParams (meetingId meetingDir : String) (config : Mac.CaptureConfig τ) :
    (askedParams meetingId meetingDir config).target = targetKind config.captureTarget := by
  rw [CaptureParams.target, askedParams, ofWire_wireForm, Option.getD_some]

theorem plan_askedParams (meetingId meetingDir : String) (config : Mac.CaptureConfig τ) :
    (askedParams meetingId meetingDir config).plan =
      ⟨decide (config.audioSources ≠ .micOnly), decide (config.audioSources ≠ .systemOnly)⟩ := by
  cases hsources : config.audioSources with
  | systemOnly | micOnly | systemAndMic =>
    simp [CaptureParams.plan, askedParams, hsources, Mac.audioSourcesStr, TrackPlan.ofSources]

theorem decodeJsonRpcRequest_write (single : Codec τ) (id : UInt64) (method : String)
    {params : Value} {p : CaptureParams τ} (hparams : decodeCaptureParams single params = some p) :
    decodeJsonRpcRequest single (Mac.captureRequest id method params) =
      some ⟨"2.0", some id, method, [p]⟩ := by
  have hid : readOptional asU64 (some (ofU64 id)) = some (some id) :=
    readOptional_some (asU64_ofU64 _) nofun
  have hparams' : [params].mapM (decodeCaptureParams single) = some [p] := by
    rw [List.mapM_cons, hparams, List.mapM_nil]
    rfl
  refine (bind_of_eq_some rfl _).trans ?_
  refine (bind_of_eq_some rfl _).trans ?_
  refine (bind_of_eq_some hid _).trans ?_
  refine (bind_of_eq_some rfl _).trans ?_
  exact bind_of_eq_some hparams' _

theorem decodeCaptureParams_stop (single : Codec τ) (meetingId : String) :
    decodeCaptureParams single (Mac.captureStopParams meetingId) =
      some ⟨some meetingId, none, none, none, none, none, none, none, none, none, none⟩ := by
  rfl

end Capture
end Panops
