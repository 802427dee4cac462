import Panops.App.RecordingRequest
import Panops.Capture.Server

/-!
# From the app to the stream

What a recording is asked for goes from the app to the engine and from the engine to the
sidecar, each time as JSON of another shape.
-/

namespace Panops
namespace Capture

open App (encodeRecordingStartParams readRecordingStartParams_encode wireSources wireTarget)
open App.Capture (RecordingOptions)
open Lib.Serde
open Protocol (readRecordingStartParams)

variable {τ : Type}

/-- `deletingLastPathComponent` and `appendingPathComponent` on the path of a file. -/
def siblingOf (path name : String) : String :=
  String.ofList (path.toList.reverse.dropWhile (· ≠ '/')).reverse ++ name

/-- `VideoWriter.outputURL` -/
def outputURL (systemAudioPath micAudioPath screenshotsDir : Option String) : Option String :=
  match systemAudioPath.or micAudioPath with
  | some audio => some (siblingOf audio "recording.mov")
  | none => screenshotsDir.map (siblingOf · "recording.mov")

def CaptureParams.videoPath (p : CaptureParams τ) : Option String :=
  if p.recordVideo = some true then outputURL p.systemAudioPath p.micAudioPath p.screenshotsDir
  else none

/-- The engine reads the request and asks the sidecar for a capture. -/
def routed (app engine : Codec τ) (threshold : τ) (meetingDir : String) (request : Value) :
    Option (CaptureParams τ) := do
  let params ← readRecordingStartParams app threshold request
  decodeCaptureParams engine
    (Mac.captureStartParams engine params.meetingId meetingDir params.toConfig)

/-- The target of a recording in the engine. -/
def domainTarget (options : RecordingOptions) : Mac.CaptureTarget :=
  (wireTarget options.captureTarget).toDomain

/-- The tracks, the video, the screenshots and the size are those that were asked for. -/
structure AsAsked (meetingId meetingDir : String) (options : RecordingOptions)
    (screenshotIntervalMs : UInt64) (screenshotThreshold : τ) (p : CaptureParams τ) : Prop where
  meetingId : p.meetingId = some meetingId
  system : p.plan.wantsSystem = true ↔ options.audioSources ≠ .micOnly
  mic : p.plan.wantsMic = true ↔ options.audioSources ≠ .systemOnly
  accepted : recorderInit p.plan p.systemAudioPath p.micAudioPath = .ok ()
  systemPath : p.systemAudioPath =
    if p.plan.wantsSystem then some (Mac.joinName meetingDir "system.wav") else none
  micPath : p.micAudioPath =
    if p.plan.wantsMic then some (Mac.joinName meetingDir "mic.wav") else none
  videoPath : p.videoPath =
    if options.recordVideo then some (Mac.joinName meetingDir "recording.mov") else none
  screenshotsDir : p.screenshotsDir = some (Mac.joinName meetingDir "screenshots")
  screenshotIntervalMs : p.screenshotIntervalMs = some screenshotIntervalMs
  screenshotThreshold : p.screenshotThreshold = some screenshotThreshold
  recordVideo : p.recordVideo = some options.recordVideo
  size : p.width = options.width ∧ p.height = options.height

/-! ## The files of a meeting -/

theorem dropWhile_name {name : List Char} (hname : '/' ∉ name) (dir : List Char) :
    (dir ++ name).reverse.dropWhile (· ≠ '/') = dir.reverse.dropWhile (· ≠ '/') := by
  rw [List.reverse_append, List.dropWhile_append_of_pos]
  intro c hc
  have hne : c ≠ '/' := fun h => hname (h ▸ List.mem_reverse.mp hc)
  simpa using hne

theorem dropWhile_slash (dir : List Char) :
    (dir ++ ['/']).reverse.dropWhile (· ≠ '/') = (dir ++ ['/']).reverse := by
  rw [List.reverse_append, List.reverse_singleton, List.singleton_append]
  exact List.dropWhile_cons_of_neg (by simp)

/-- Files that lie in one directory are siblings. -/
theorem siblingOf_joinName (dir name other : String) (hname : '/' ∉ name.toList) :
    siblingOf (Mac.joinName dir name) other = Mac.joinName dir other := by
  unfold siblingOf Mac.joinName
  by_cases hplain : dir = "" ∨ dir.toList.getLast? = some '/'
  · rw [if_pos hplain, if_pos hplain, String.toList_append, dropWhile_name hname]
    have hkept : dir.toList.reverse.dropWhile (· ≠ '/') = dir.toList.reverse := by
      cases hplain with
      | inl hempty =>
        rw [hempty]
        rfl
      | inr hslash =>
        obtain ⟨front, hfront⟩ := List.getLast?_eq_some_iff.mp hslash
        rw [hfront]
        exact dropWhile_slash front
    rw [hkept, List.reverse_reverse, String.ofList_toList]
  · rw [if_neg hplain, if_neg hplain, String.toList_append, dropWhile_name hname]
    have htoList : (dir ++ "/").toList = dir.toList ++ ['/'] := String.toList_append
    rw [htoList, dropWhile_slash, List.reverse_reverse, ← htoList, String.ofList_toList]

/-- The sidecar writes the video where the engine looks for it. -/
theorem outputURL_trackPaths (meetingDir : String) (sources : Mac.AudioSources)
    (screenshotsDir : Option String) :
    outputURL (Mac.trackPaths meetingDir sources).1 (Mac.trackPaths meetingDir sources).2
      screenshotsDir = some (Mac.joinName meetingDir "recording.mov") := by
  have hsystem := siblingOf_joinName meetingDir "system.wav" "recording.mov" (by decide)
  have hmic := siblingOf_joinName meetingDir "mic.wav" "recording.mov" (by decide)
  cases sources with
  | systemOnly | systemAndMic =>
    show some (siblingOf (Mac.joinName meetingDir "system.wav") "recording.mov") = _
    rw [hsystem]
  | micOnly =>
    show some (siblingOf (Mac.joinName meetingDir "mic.wav") "recording.mov") = _
    rw [hmic]

/-! ## What arrives -/

theorem routed_encode (app engine : Codec τ) (threshold : τ) (meetingId meetingDir : String)
    (options : RecordingOptions) (screenshotIntervalMs : UInt64) (screenshotThreshold : τ) :
    routed app engine threshold meetingDir
        (encodeRecordingStartParams app meetingId options screenshotIntervalMs
          screenshotThreshold) =
      some (askedParams meetingId meetingDir
        (App.startParams meetingId options screenshotIntervalMs screenshotThreshold).toConfig) := by
  rw [routed, readRecordingStartParams_encode]
  exact decodeCaptureParams_write engine meetingId meetingDir _

/-- The paths of the tracks, by the tracks that are wanted. -/
theorem trackPaths_toDomain (meetingDir : String) (sources : App.Capture.AudioSourcesWire) :
    Mac.trackPaths meetingDir (wireSources sources).toDomain =
      (if sources ≠ .micOnly then some (Mac.joinName meetingDir "system.wav") else none,
        if sources ≠ .systemOnly then some (Mac.joinName meetingDir "mic.wav") else none) := by
  cases sources with
  | systemAndMic | micOnly | systemOnly => rfl

theorem plan_toDomain (meetingId meetingDir : String) (options : RecordingOptions)
    (screenshotIntervalMs : UInt64) (screenshotThreshold : τ) :
    (askedParams meetingId meetingDir (App.startParams meetingId options screenshotIntervalMs
      screenshotThreshold).toConfig).plan =
        ⟨decide (options.audioSources ≠ .micOnly),
          decide (options.audioSources ≠ .systemOnly)⟩ := by
  rw [plan_askedParams]
  show (⟨decide ((wireSources options.audioSources).toDomain ≠ _),
    decide ((wireSources options.audioSources).toDomain ≠ _)⟩ : TrackPlan) = _
  cases options.audioSources with
  | systemAndMic | micOnly | systemOnly => rfl

theorem asAsked_askedParams (meetingId meetingDir : String) (options : RecordingOptions)
    (screenshotIntervalMs : UInt64) (screenshotThreshold : τ) :
    AsAsked meetingId meetingDir options screenshotIntervalMs screenshotThreshold
      (askedParams meetingId meetingDir
        (App.startParams meetingId options screenshotIntervalMs screenshotThreshold).toConfig) := by
  have hplan := plan_toDomain meetingId meetingDir options screenshotIntervalMs screenshotThreshold
  have hpaths := trackPaths_toDomain meetingDir options.audioSources
  have hvideo := outputURL_trackPaths meetingDir (wireSources options.audioSources).toDomain
    (some (Mac.joinName meetingDir "screenshots"))
  constructor
  case meetingId | screenshotsDir | screenshotIntervalMs | screenshotThreshold | recordVideo =>
    rfl
  case size => exact ⟨rfl, rfl⟩
  case system =>
    rw [hplan]
    exact decide_eq_true_iff
  case mic =>
    rw [hplan]
    exact decide_eq_true_iff
  case systemPath =>
    rw [hplan]
    show (Mac.trackPaths meetingDir (wireSources options.audioSources).toDomain).1 = _
    rw [hpaths]
    simp only [decide_eq_true_eq]
  case micPath =>
    rw [hplan]
    show (Mac.trackPaths meetingDir (wireSources options.audioSources).toDomain).2 = _
    rw [hpaths]
    simp only [decide_eq_true_eq]
  case videoPath =>
    show (if some options.recordVideo = some true then outputURL
      (Mac.trackPaths meetingDir (wireSources options.audioSources).toDomain).1
      (Mac.trackPaths meetingDir (wireSources options.audioSources).toDomain).2
      (some (Mac.joinName meetingDir "screenshots")) else none) = _
    rw [hvideo]
    simp only [Option.some.injEq]
  case accepted =>
    rw [hplan]
    show recorderInit _ (Mac.trackPaths meetingDir (wireSources options.audioSources).toDomain).1
      (Mac.trackPaths meetingDir (wireSources options.audioSources).toDomain).2 = _
    rw [hpaths]
    cases options.audioSources with
    | systemAndMic | micOnly | systemOnly => rfl

/-- The sidecar takes what the user has asked for, and shows it just when it is there. -/
theorem recording_route (app engine : Codec τ) (threshold : τ) (meetingId meetingDir : String)
    (options : RecordingOptions) (screenshotIntervalMs : UInt64) (screenshotThreshold : τ)
    (content : SCShareableContent) :
    ∃ p, routed app engine threshold meetingDir
        (encodeRecordingStartParams app meetingId options screenshotIntervalMs
          screenshotThreshold) = some p ∧
      AsAsked meetingId meetingDir options screenshotIntervalMs screenshotThreshold p ∧
      ((∃ view, asked content (domainTarget options) = some view ∧
        captured content p.target = .ok view) ↔ Reaches content (domainTarget options)) := by
  refine ⟨_, routed_encode app engine threshold meetingId meetingDir options screenshotIntervalMs
    screenshotThreshold, asAsked_askedParams meetingId meetingDir options screenshotIntervalMs
    screenshotThreshold, ?_⟩
  rw [target_askedParams]
  exact captured_iff (domainTarget options)

/-- Numbers between 0 and 1 with one digit. -/
def writeTenths (n : Fin 10) : Value := .number ("0." ++ toString n.val)

def readTenths : Value → Option (Fin 10)
  | .number text => (List.finRange 10).find? fun n => "0." ++ toString n.val = text
  | _ => none

theorem readTenths_writeTenths : ∀ n, readTenths (writeTenths n) = some n := by
  decide +kernel

theorem writeTenths_ne_null (n : Fin 10) : writeTenths n ≠ .null := by
  intro h
  cases h

def tenths : Codec (Fin 10) := ⟨writeTenths, readTenths, readTenths_writeTenths, writeTenths_ne_null⟩

def twoDisplays : SCShareableContent := ⟨[⟨1, 1920, 1080⟩, ⟨2, 2560, 1440⟩], [], by decide⟩

def optionsOf (target : App.Capture.CaptureTargetDTO) : RecordingOptions :=
  ⟨.systemAndMic, true, false, target, some 1280, some 720⟩

/-- A part of the second display is recorded, the whole of it is not. -/
theorem recording_route_twoDisplays :
    (∃ p, routed tenths tenths 1 "/m" (encodeRecordingStartParams tenths "id"
        (optionsOf (.region 2 10 20 640 480)) 500 3) = some p ∧
      p.videoPath = some "/m/recording.mov" ∧ p.screenshotThreshold = some 3 ∧
      captured twoDisplays p.target = .ok (.display 2 (some ⟨10, 20, 640, 480⟩))) ∧
    ∃ p, routed tenths tenths 1 "/m" (encodeRecordingStartParams tenths "id"
        (optionsOf (.display 2)) 500 3) = some p ∧
      captured twoDisplays p.target ≠ .ok (.display 2 none) := by
  constructor
  · obtain ⟨p, hp, hasked, hview⟩ := recording_route tenths tenths 1 "id" "/m"
      (optionsOf (.region 2 10 20 640 480)) 500 3 twoDisplays
    obtain ⟨view, hsome, hcaptured⟩ := hview.mpr rfl
    obtain rfl := Option.some.inj hsome
    exact ⟨p, hp, hasked.videoPath, hasked.screenshotThreshold, hcaptured⟩
  · obtain ⟨p, hp, -, hview⟩ := recording_route tenths tenths 1 "id" "/m"
      (optionsOf (.display 2)) 500 3 twoDisplays
    refine ⟨p, hp, fun hcaptured => ?_⟩
    obtain ⟨first, hfirst, hid⟩ := hview.mp ⟨.display 2 none, rfl, hcaptured⟩
    obtain rfl := Option.some.inj hfirst
    exact absurd hid (by decide)

end Capture
end Panops
