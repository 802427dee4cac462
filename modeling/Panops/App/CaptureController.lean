import Mathlib.Algebra.Order.Floor.Ring
import Mathlib.Data.Rat.Floor
import Mathlib.Logic.Function.Basic
import Panops.Lib.Transitions

/-!
# The capture preview controller

`CapturePreviewController` holds what the picker returned and a preview stream of it.
Its calls run on the main actor; each may leave a task that runs later and is suspended
while a stream starts, stops or changes.
-/

namespace Panops
namespace App
namespace Capture

/-- A crop, in display points. -/
structure CaptureRect where
  x : UInt32
  y : UInt32
  w : UInt32
  h : UInt32
deriving DecidableEq

inductive CaptureTargetDTO where
  | display (displayID : UInt32)
  | window (windowID : UInt32)
  | app (bundleID : String)
  | region (displayID x y w h : UInt32)
deriving DecidableEq

def CaptureTargetDTO.primaryDisplay : CaptureTargetDTO := .display 0

structure CGRect where
  x : Int
  y : Int
  width : Int
  height : Int
deriving DecidableEq

inductive SharedStyle where
  | window
  | application
  | display
  | other
deriving DecidableEq

/-- What the controller reads of the picker's filter. -/
structure SCContentFilter where
  style : SharedStyle
  includedWindows : List UInt32
  includedApplications : List String
  includedDisplays : List UInt32
  contentWidth : Rat
  contentHeight : Rat
  pointPixelScale : Rat
deriving DecidableEq

structure SCStreamConfiguration where
  width : Int
  height : Int
  sourceRect : Option CGRect
deriving DecidableEq

structure StreamError where
  /-- It is an `SCStreamError`. -/
  ofStream : Bool
  code : Int
  localizedDescription : String
deriving DecidableEq

inductive CapturePreviewState where
  | idle
  | starting
  | live
  | permissionDenied
  | failed (message : String)
deriving DecidableEq

/-- `rounded()`: to the nearest, and from a half away from zero. -/
def rounded (x : Rat) : Int := if 0 ≤ x then ⌊x + 1 / 2⌋ else ⌈x - 1 / 2⌉

/-- The target of a filter.  Before macOS 15.2 its ids are not readable. -/
def captureTarget (readable : Bool) (filter : SCContentFilter) : Option CaptureTargetDTO :=
  if readable then
    match filter.style with
    | .window => filter.includedWindows.head?.map .window
    | .application => filter.includedApplications.head?.map .app
    | .display => filter.includedDisplays.head?.map .display
    | .other => none
  else none

def makeConfig (filter : SCContentFilter) (sourceRect : Option CGRect) : SCStreamConfiguration :=
  let nativeW := max (filter.contentWidth * filter.pointPixelScale) 1
  let nativeH := max (filter.contentHeight * filter.pointPixelScale) 1
  let previewW := min 1280 nativeW
  let previewH := previewW * (nativeH / nativeW)
  ⟨max (rounded previewW) 2, max (rounded previewH) 2, sourceRect⟩

/-- 1001 is the denial of screen recording. -/
def mapStartError (error : StreamError) : CapturePreviewState :=
  if error.ofStream ∧ error.code = 1001 then .permissionDenied
  else .failed error.localizedDescription

def unsupportedSelection : String :=
  "That selection isn't supported — pick a window, display, or app."

/-- A task of the controller.  A stream is named by the task that started it. -/
inductive CaptureTask (ι : Type) where
  | ready
  /-- `restartPreview`, not begun. -/
  | restart (filter : SCContentFilter)
  /-- `restartPreview`, while the old stream stops. -/
  | stopping (filter : SCContentFilter) (epoch : Nat) (old : ι)
  /-- `restartPreview`, while its own stream starts. -/
  | starting (filter : SCContentFilter) (epoch : Nat) (config : SCStreamConfiguration)
  | stopCapture (stream : Option ι)
  /-- `updateStreamConfig`, not begun. -/
  | update
  | updating (stream : ι) (config : SCStreamConfiguration)
  | finished
deriving DecidableEq

structure Controller (ι : Type) where
  state : CapturePreviewState
  target : Option CaptureTargetDTO
  nativePixelHeight : Int
  isDisplayTarget : Bool
  sourceContentSize : Rat × Rat
  isCropped : Bool
  selectionError : Option String
  stream : Option ι
  previewEpoch : Nat
  currentFilter : Option SCContentFilter
  sourceRect : Option CGRect
  currentDisplayID : UInt32

variable {ι : Type}

/-! ## Calls

Each returns the task that it leaves, `finished` where there is none. -/

namespace Controller

def initial : Controller ι where
  state := .idle
  target := none
  nativePixelHeight := 0
  isDisplayTarget := false
  sourceContentSize := (0, 0)
  isCropped := false
  selectionError := none
  stream := none
  previewEpoch := 0
  currentFilter := none
  sourceRect := none
  currentDisplayID := 0

/-- Without a filter it presents the picker. -/
def retry (c : Controller ι) : Controller ι × CaptureTask ι :=
  match c.currentFilter with
  | some filter => (c, .restart filter)
  | none => (c, .finished)

def retryIfPermissionDenied (c : Controller ι) : Controller ι × CaptureTask ι :=
  if c.state = .permissionDenied then c.retry else (c, .finished)

def teardown (c : Controller ι) : Controller ι × CaptureTask ι :=
  ({ c with
      previewEpoch := c.previewEpoch + 1
      stream := none
      currentFilter := none
      state := .idle
      target := none
      isDisplayTarget := false
      isCropped := false
      sourceRect := none
      nativePixelHeight := 0
      sourceContentSize := (0, 0)
      selectionError := none },
    .stopCapture c.stream)

def rejectUnsupportedSelection (c : Controller ι) : Controller ι × CaptureTask ι :=
  ({ c with
      previewEpoch := c.previewEpoch + 1
      stream := none
      currentFilter := none
      selectionError := some unsupportedSelection
      target := none
      isDisplayTarget := false
      isCropped := false
      sourceRect := none
      nativePixelHeight := 0
      sourceContentSize := (0, 0)
      state := .idle },
    .stopCapture c.stream)

def pixelHeight (filter : SCContentFilter) : Int :=
  rounded (filter.contentHeight * filter.pointPixelScale)

/-- The flag and the id of a display target. -/
def shown (dto : CaptureTargetDTO) (c : Controller ι) : Controller ι :=
  match dto with
  | .display displayID => { c with isDisplayTarget := true, currentDisplayID := displayID }
  | _ => { c with isDisplayTarget := false }

def didPick (readable : Bool) (filter : SCContentFilter) (c : Controller ι) :
    Controller ι × CaptureTask ι :=
  match captureTarget readable filter with
  | none => c.rejectUnsupportedSelection
  | some dto =>
    (shown dto { c with
        currentFilter := some filter
        selectionError := none
        target := some dto
        nativePixelHeight := pixelHeight filter
        sourceContentSize := (filter.contentWidth, filter.contentHeight)
        sourceRect := none
        isCropped := false },
      .restart filter)

def applyCrop (rect : CaptureRect) (c : Controller ι) : Controller ι × CaptureTask ι :=
  if c.isDisplayTarget then
    ({ c with
        sourceRect := some ⟨rect.x.toNat, rect.y.toNat, rect.w.toNat, rect.h.toNat⟩
        target := some (.region c.currentDisplayID rect.x rect.y rect.w rect.h)
        isCropped := true
        nativePixelHeight :=
          match c.currentFilter with
          | some filter => rounded (rect.h.toNat * filter.pointPixelScale)
          | none => c.nativePixelHeight },
      .update)
  else (c, .finished)

/-- It does not ask for a display target, nor for a crop. -/
def clearCrop (c : Controller ι) : Controller ι × CaptureTask ι :=
  ({ c with
      sourceRect := none
      isCropped := false
      target := some (.display c.currentDisplayID)
      nativePixelHeight :=
        match c.currentFilter with
        | some filter => pixelHeight filter
        | none => c.nativePixelHeight },
    .update)

def pickerFailed (error : StreamError) (c : Controller ι) : Controller ι × CaptureTask ι :=
  ({ c with state := mapStartError error }, .finished)

end Controller

/-- What is called on the controller from outside. -/
inductive Call where
  | retry
  | retryIfPermissionDenied
  | teardown
  | didPick (filter : SCContentFilter)
  | applyCrop (rect : CaptureRect)
  | clearCrop
  | didCancelPick
  | pickerFailed (error : StreamError)
deriving DecidableEq

def Controller.call (readable : Bool) (c : Controller ι) : Call → Controller ι × CaptureTask ι
  | .retry => c.retry
  | .retryIfPermissionDenied => c.retryIfPermissionDenied
  | .teardown => c.teardown
  | .didPick filter => c.didPick readable filter
  | .applyCrop rect => c.applyCrop rect
  | .clearCrop => c.clearCrop
  | .didCancelPick => (c, .finished)
  | .pickerFailed error => c.pickerFailed error

/-! ## Tasks -/

/-- A stream that captures. -/
structure Running where
  filter : SCContentFilter
  config : SCStreamConfiguration
deriving DecidableEq

/-- The controller, its tasks and the streams that they started. -/
structure Preview (ι : Type) where
  controller : Controller ι
  task : ι → CaptureTask ι
  running : ι → Option Running

def Preview.initial : Preview ι := ⟨.initial, fun _ => .ready, fun _ => none⟩

inductive Event (ι : Type) where
  | call (i : ι) (call : Call)
  /-- A task begins, or what it waits for comes back. -/
  | resume (i : ι) (outcome : Except StreamError Unit)

/-- `restartPreview` after `stopStream`. -/
def Controller.proceed (filter : SCContentFilter) (epoch : Nat) (c : Controller ι) :
    Controller ι × CaptureTask ι :=
  if epoch = c.previewEpoch then
    ({ c with state := .starting }, .starting filter epoch (makeConfig filter c.sourceRect))
  else (c, .finished)

variable [DecidableEq ι]

namespace Preview

/-- Task `i` comes to its next suspension. -/
def become (i : ι) (next : Controller ι × CaptureTask ι) (s : Preview ι) : Preview ι :=
  { s with controller := next.1, task := Function.update s.task i next.2 }

def capture (i : ι) (stream : Option Running) (s : Preview ι) : Preview ι :=
  { s with running := Function.update s.running i stream }

def resume (i : ι) (outcome : Except StreamError Unit) (s : Preview ι) : Option (Preview ι) :=
  let c := s.controller
  match s.task i with
  | .ready => none
  | .restart filter =>
    let epoch := c.previewEpoch + 1
    match c.stream with
    | some old =>
      some (s.become i ({ c with previewEpoch := epoch, stream := none },
        .stopping filter epoch old))
    | none => some (s.become i ({ c with previewEpoch := epoch }.proceed filter epoch))
  | .stopping filter epoch old =>
    some ((s.capture old none).become i (c.proceed filter epoch))
  | .starting filter epoch config =>
    match outcome with
    | .ok () =>
      if epoch = c.previewEpoch then
        some ((s.capture i (some ⟨filter, config⟩)).become i
          ({ c with stream := some i, state := .live }, .finished))
      else
        some ((s.capture i (some ⟨filter, config⟩)).become i (c, .stopCapture (some i)))
    | .error error =>
      if epoch = c.previewEpoch then
        some (s.become i ({ c with state := mapStartError error }, .finished))
      else some (s.become i (c, .finished))
  | .stopCapture none => some (s.become i (c, .finished))
  | .stopCapture (some stream) => some ((s.capture stream none).become i (c, .finished))
  | .update =>
    match c.currentFilter, c.stream with
    | some filter, some stream =>
      some (s.become i (c, .updating stream (makeConfig filter c.sourceRect)))
    | _, _ => some (s.become i (c, .finished))
  | .updating stream config =>
    match outcome with
    | .ok () =>
      some ((s.capture stream ((s.running stream).map fun r => { r with config := config })).become
        i (c, .finished))
    | .error error => some (s.become i ({ c with state := mapStartError error }, .finished))
  | .finished => none

end Preview

/-- `readable` says that the ids of a filter can be read. -/
def step (readable : Bool) (s : Preview ι) : Event ι → Option (Preview ι)
  | .call i call =>
    match s.task i with
    | .ready => some (s.become i (s.controller.call readable call))
    | _ => none
  | .resume i outcome => s.resume i outcome

end Capture
end App
end Panops
