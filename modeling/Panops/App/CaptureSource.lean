import Panops.App.CapturePreview

/-!
# The source of a recording

`NewRecordingSheet` reads the target of the preview controller when Start is pressed, and
takes the primary display where there is none.
-/

namespace Panops
namespace App
namespace Capture

open Lib.Transitions

inductive AudioSourcesWire where
  | systemAndMic
  | micOnly
  | systemOnly
deriving DecidableEq

inductive ResolutionPreset where
  | native
  | p1080
  | p720
  | p480
deriving DecidableEq

structure Dimensions where
  width : Int
  height : Int
deriving DecidableEq

def ResolutionPreset.targetHeight : ResolutionPreset → Option Int
  | native => none
  | p1080 => some 1080
  | p720 => some 720
  | p480 => some 480

/-- A preset does not make the source larger. -/
def ResolutionPreset.dimensions (preset : ResolutionPreset) (nativeHeight : Int) :
    Option Dimensions :=
  match preset.targetHeight with
  | none => none
  | some height =>
    if nativeHeight > 0 ∧ nativeHeight ≤ height then none
    else some ⟨rounded ((height : Rat) * 16 / 9 / 2) * 2, height⟩

structure RecordingSetup where
  audioSources : AudioSourcesWire
  recordVideo : Bool
  autoGenerateNotes : Bool
  captureTarget : CaptureTargetDTO
  resolution : ResolutionPreset
  captureNativeHeight : Int
deriving DecidableEq

def RecordingSetup.default : RecordingSetup where
  audioSources := .systemAndMic
  recordVideo := false
  autoGenerateNotes := true
  captureTarget := .primaryDisplay
  resolution := .native
  captureNativeHeight := 0

structure RecordingOptions where
  audioSources : AudioSourcesWire
  recordVideo : Bool
  autoGenerateNotes : Bool
  captureTarget : CaptureTargetDTO
  width : Option UInt32
  height : Option UInt32
deriving DecidableEq

def RecordingSetup.recordingOptions (setup : RecordingSetup) : RecordingOptions :=
  let dimensions := setup.resolution.dimensions setup.captureNativeHeight
  { audioSources := setup.audioSources
    recordVideo := setup.recordVideo
    autoGenerateNotes := setup.autoGenerateNotes
    captureTarget := setup.captureTarget
    width := dimensions.map fun d => UInt32.ofNat d.width.toNat
    height := dimensions.map fun d => UInt32.ofNat d.height.toNat }

variable {ι : Type}

namespace NewRecordingSheet

/-- The setup that is handed back. -/
def start (setup : RecordingSetup) (preview : Controller ι) : RecordingSetup :=
  { setup with
    captureTarget := preview.target.getD .primaryDisplay
    captureNativeHeight := preview.nativePixelHeight }

/-- What Start, which nothing disables, sends to `recording.start`. -/
def pressStart (setup : RecordingSetup) (preview : Controller ι) : Option RecordingOptions :=
  some (start setup preview).recordingOptions

end NewRecordingSheet

/-! ## What the user chose -/

inductive Chosen where
  | nothing
  | rejected
  | source (target : CaptureTargetDTO)
  | cropped (displayID : UInt32) (rect : CaptureRect)
deriving DecidableEq

namespace Chosen

/-- What is to be recorded.  Nothing is after a rejected pick. -/
def expected : Chosen → Option CaptureTargetDTO
  | nothing => some .primaryDisplay
  | rejected => none
  | source target => some target
  | cropped displayID rect => some (.region displayID rect.x rect.y rect.w rect.h)

/-- The display that can be cropped. -/
def display : Chosen → Option UInt32
  | source (.display displayID) => some displayID
  | cropped displayID _ => some displayID
  | _ => none

def crop (chosen : Chosen) (rect : CaptureRect) : Chosen :=
  match chosen.display with
  | some displayID => cropped displayID rect
  | none => chosen

def uncrop (chosen : Chosen) : Chosen :=
  match chosen.display with
  | some displayID => source (.display displayID)
  | none => chosen

/-- The target that stands for the choice. -/
def target : Chosen → Option CaptureTargetDTO
  | source target => some target
  | cropped displayID rect => some (.region displayID rect.x rect.y rect.w rect.h)
  | _ => none

end Chosen

structure Choices where
  chosen : Chosen
  /-- A crop was removed since the last pick or teardown. -/
  cropRemoved : Bool
  /-- The last display that was picked. -/
  lastDisplay : UInt32
deriving DecidableEq

namespace Choices

def initial : Choices := ⟨.nothing, false, 0⟩

def pick (h : Choices) : Option CaptureTargetDTO → Choices
  | none => ⟨.rejected, false, h.lastDisplay⟩
  | some (.display displayID) => ⟨.source (.display displayID), false, displayID⟩
  | some dto => ⟨.source dto, false, h.lastDisplay⟩

def after (readable : Bool) (h : Choices) : Call → Choices
  | .didPick filter => h.pick (captureTarget readable filter)
  | .teardown => ⟨.nothing, false, h.lastDisplay⟩
  | .applyCrop rect => { h with chosen := h.chosen.crop rect }
  | .clearCrop => ⟨h.chosen.uncrop, true, h.lastDisplay⟩
  | _ => h

/-- The latest pick was not rejected, and a crop was removed only from a display, or from
nothing before a display (other than display 0) was ever picked. -/
def Kept (h : Choices) : Prop :=
  h.chosen ≠ .rejected ∧
    (h.cropRemoved = true → h.chosen.display = none → h.chosen = .nothing ∧ h.lastDisplay = 0)

/-- The target that the controller has. -/
def target (h : Choices) : Option CaptureTargetDTO :=
  if h.cropRemoved = true ∧ h.chosen.display = none then some (.display h.lastDisplay)
  else h.chosen.target

end Choices

def Event.choicesAfter (readable : Bool) (h : Choices) : Event ι → Choices
  | .call _ c => h.after readable c
  | .resume _ _ => h

def choices (readable : Bool) (events : List (Event ι)) : Choices :=
  events.foldl (Event.choicesAfter readable) .initial

/-! ## What the controller knows of it -/

structure Knows (h : Choices) (c : Controller ι) : Prop where
  target : c.target = h.target
  isDisplayTarget : c.isDisplayTarget = h.chosen.display.isSome
  currentDisplayID : c.currentDisplayID = h.lastDisplay
  lastDisplay : ∀ displayID, h.chosen.display = some displayID → displayID = h.lastDisplay
  selectionError : c.selectionError =
    if h.chosen = .rejected then some unsupportedSelection else none

namespace Knows

variable {h : Choices} {c : Controller ι}

theorem initial : Knows .initial (Controller.initial : Controller ι) where
  target := rfl
  isDisplayTarget := rfl
  currentDisplayID := rfl
  lastDisplay := fun _ heq => by cases heq
  selectionError := rfl

theorem not_rejected (hknows : Knows h c) {displayID : UInt32}
    (hdisplay : h.chosen.display = some displayID) : c.selectionError = none := by
  rw [hknows.selectionError, if_neg]
  intro heq
  rw [heq] at hdisplay
  cases hdisplay

theorem retry (hknows : Knows h c) : Knows h c.retry.1 := by
  unfold Controller.retry
  split <;> exact hknows

theorem didPick (hknows : Knows h c) (readable : Bool) (filter : SCContentFilter) :
    Knows (h.pick (captureTarget readable filter)) (c.didPick readable filter).1 := by
  unfold Controller.didPick
  cases captureTarget readable filter with
  | none => exact ⟨rfl, rfl, hknows.currentDisplayID, fun _ heq => (by cases heq), rfl⟩
  | some dto =>
    cases dto with
    | display displayID => exact ⟨rfl, rfl, rfl, fun _ heq => (Option.some.inj heq).symm, rfl⟩
    | window windowID =>
      exact ⟨rfl, rfl, hknows.currentDisplayID, fun _ heq => (by cases heq), rfl⟩
    | app bundleID => exact ⟨rfl, rfl, hknows.currentDisplayID, fun _ heq => (by cases heq), rfl⟩
    | region displayID x y w h =>
      exact ⟨rfl, rfl, hknows.currentDisplayID, fun _ heq => (by cases heq), rfl⟩

theorem applyCrop (hknows : Knows h c) (rect : CaptureRect) :
    Knows { h with chosen := h.chosen.crop rect } (c.applyCrop rect).1 := by
  unfold Controller.applyCrop Chosen.crop
  cases hdisplay : h.chosen.display with
  | none =>
    have hnot : c.isDisplayTarget = false := by rw [hknows.isDisplayTarget, hdisplay]; rfl
    rw [hnot]
    exact hknows
  | some displayID =>
    have hyes : c.isDisplayTarget = true := by rw [hknows.isDisplayTarget, hdisplay]; rfl
    have hlast := hknows.lastDisplay displayID hdisplay
    rw [if_pos hyes]
    refine ⟨?_, hyes, hknows.currentDisplayID, ?_, hknows.not_rejected hdisplay⟩
    · rw [hknows.currentDisplayID, ← hlast]
      unfold Choices.target
      rw [if_neg fun hnone => by cases hnone.2]
      rfl
    · intro _ heq
      exact (Option.some.inj heq).symm.trans hlast

theorem clearCrop (hknows : Knows h c) :
    Knows ⟨h.chosen.uncrop, true, h.lastDisplay⟩ c.clearCrop.1 := by
  unfold Controller.clearCrop Chosen.uncrop
  cases hdisplay : h.chosen.display with
  | none =>
    refine ⟨?_, hknows.isDisplayTarget, hknows.currentDisplayID, hknows.lastDisplay,
      hknows.selectionError⟩
    rw [hknows.currentDisplayID]
    exact (if_pos ⟨rfl, hdisplay⟩).symm
  | some displayID =>
    have hlast := hknows.lastDisplay displayID hdisplay
    refine ⟨?_, ?_, hknows.currentDisplayID, ?_, hknows.not_rejected hdisplay⟩
    · rw [hknows.currentDisplayID, ← hlast]
      unfold Choices.target
      rw [if_neg fun hnone => by cases hnone.2]
      rfl
    · rw [hknows.isDisplayTarget, hdisplay]
      rfl
    · intro _ heq
      exact (Option.some.inj heq).symm.trans hlast

theorem call (hknows : Knows h c) (readable : Bool) (call : Call) :
    Knows (h.after readable call) (c.call readable call).1 := by
  cases call with
  | retry => exact hknows.retry
  | retryIfPermissionDenied =>
    simp only [Controller.call, Controller.retryIfPermissionDenied]
    split
    · exact hknows.retry
    · exact hknows
  | teardown => exact ⟨rfl, rfl, hknows.currentDisplayID, fun _ heq => (by cases heq), rfl⟩
  | didPick filter => exact hknows.didPick readable filter
  | applyCrop rect => exact hknows.applyCrop rect
  | clearCrop => exact hknows.clearCrop
  | didCancelPick => exact hknows
  | pickerFailed error =>
    exact ⟨hknows.target, hknows.isDisplayTarget, hknows.currentDisplayID, hknows.lastDisplay,
      hknows.selectionError⟩

end Knows

variable [DecidableEq ι]

theorem knows_step {readable : Bool} {s s' : Preview ι} {e : Event ι} {h : Choices}
    (hknows : Knows h s.controller) (hstep : step readable s e = some s') :
    Knows (e.choicesAfter readable h) s'.controller := by
  rcases step_cases hstep with ⟨i, c, rfl, _, rfl⟩ | ⟨i, outcome, rfl, hresumed⟩
  · exact hknows.call readable c
  · obtain ⟨state, previewEpoch, stream, hcontroller⟩ := Preview.resumed_controller hresumed
    rw [hcontroller]
    exact ⟨hknows.target, hknows.isDisplayTarget, hknows.currentDisplayID, hknows.lastDisplay,
      hknows.selectionError⟩

theorem knows_run {readable : Bool} {s s' : Preview ι} {events : List (Event ι)} {h : Choices}
    (hknows : Knows h s.controller) (hrun : run (step readable) s events = some s') :
    Knows (events.foldl (Event.choicesAfter readable) h) s'.controller := by
  induction events generalizing s h with
  | nil =>
    cases hrun
    exact hknows
  | cons e events ih =>
    unfold run at hrun
    cases hnext : step readable s e with
    | none => simp [hnext] at hrun
    | some s₁ =>
      simp only [hnext] at hrun
      exact ih (knows_step hknows hnext) hrun

/-! ## What is sent -/

/-- The sheet shows an error exactly while the latest pick is a rejected one. -/
theorem selectionError_run {readable : Bool} {s : Preview ι} {events : List (Event ι)}
    (hrun : run (step readable) Preview.initial events = some s) :
    s.controller.selectionError ≠ none ↔ (choices readable events).chosen = .rejected := by
  have herror : s.controller.selectionError =
      if (choices readable events).chosen = .rejected then some unsupportedSelection else none :=
    (knows_run Knows.initial hrun).selectionError
  rw [herror]
  by_cases hrejected : (choices readable events).chosen = .rejected
  · rw [if_pos hrejected]
    exact iff_of_true nofun hrejected
  · rw [if_neg hrejected]
    exact iff_of_false (fun h => h rfl) hrejected

/-- The target of the controller, or the primary display, is the one expected. -/
theorem Choices.target_eq_expected_iff (h : Choices) :
    some (h.target.getD .primaryDisplay) = h.chosen.expected ↔ h.Kept := by
  unfold Choices.target Choices.Kept
  by_cases hremoved : h.cropRemoved = true ∧ h.chosen.display = none
  · rw [if_pos hremoved]
    cases hchosen : h.chosen with
    | nothing => simp [Chosen.expected, Chosen.display, CaptureTargetDTO.primaryDisplay, hremoved.1]
    | rejected => simp [Chosen.expected]
    | source dto =>
      have hdisplay := hremoved.2
      rw [hchosen] at hdisplay
      cases dto with
      | display displayID => cases hdisplay
      | window windowID => simp [Chosen.expected, Chosen.display, hremoved.1]
      | app bundleID => simp [Chosen.expected, Chosen.display, hremoved.1]
      | region displayID x y w h => simp [Chosen.expected, Chosen.display, hremoved.1]
    | cropped displayID rect =>
      have hdisplay := hremoved.2
      rw [hchosen] at hdisplay
      cases hdisplay
  · rw [if_neg hremoved]
    have hkept : h.cropRemoved = true → h.chosen.display = none →
        h.chosen = .nothing ∧ h.lastDisplay = 0 :=
      fun hcrop hdisplay => absurd ⟨hcrop, hdisplay⟩ hremoved
    cases hchosen : h.chosen with
    | nothing => exact iff_of_true rfl ⟨nofun, hchosen ▸ hkept⟩
    | rejected => exact iff_of_false nofun fun h => h.1 rfl
    | source dto => exact iff_of_true rfl ⟨nofun, hchosen ▸ hkept⟩
    | cropped displayID rect => exact iff_of_true rfl ⟨nofun, hchosen ▸ hkept⟩

/-- What Start sends is what the user chose exactly if the latest pick was not rejected and
no crop was removed that was not there. -/
theorem start_sends_choice_iff {readable : Bool} {s : Preview ι} {events : List (Event ι)}
    (hrun : run (step readable) Preview.initial events = some s) (setup : RecordingSetup) :
    (NewRecordingSheet.pressStart setup s.controller).map RecordingOptions.captureTarget =
        (choices readable events).chosen.expected ↔
      (choices readable events).Kept := by
  have htarget : s.controller.target = (choices readable events).target :=
    (knows_run Knows.initial hrun).target
  show some (s.controller.target.getD .primaryDisplay) = _ ↔ _
  rw [htarget]
  exact (choices readable events).target_eq_expected_iff

/-- A crop of a display goes out as a region. -/
theorem start_sends_crop : ∃ s, run (step true) Preview.initial croppedInTime = some s ∧
    (NewRecordingSheet.pressStart .default s.controller).map RecordingOptions.captureTarget =
      some (.region 1 10 10 50 50) := by
  have hchoices : choices true croppedInTime = ⟨.cropped 1 oneCrop, false, 1⟩ := rfl
  have hkept : (choices true croppedInTime).Kept := by
    rw [hchoices]
    exact ⟨by decide, fun hremoved => by cases hremoved⟩
  refine ⟨_, rfl, ?_⟩
  rw [(@start_sends_choice_iff _ _ true _ croppedInTime rfl .default).mpr hkept, hchoices]
  rfl

/-- A filter of a style that is not known. -/
def unknownStyle : SCContentFilter := ⟨.other, [], [], [], 100, 100, 1⟩

/-- After a rejected pick Start records the primary display. -/
theorem not_start_sends_choice :
    ∃ s, run (step true) Preview.initial [Event.call (0 : Fin 2) (.didPick unknownStyle)] =
        some s ∧
      (choices true [Event.call (0 : Fin 2) (.didPick unknownStyle)]).chosen = .rejected ∧
      s.controller.selectionError = some unsupportedSelection ∧
      (NewRecordingSheet.pressStart .default s.controller).map RecordingOptions.captureTarget =
        some .primaryDisplay :=
  ⟨_, rfl, rfl, rfl, rfl⟩

end Capture
end App
end Panops
