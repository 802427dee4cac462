import Panops.Capture.Codecs

/-!
# What a stream shows

`Recorder.start` looks for the target among what can be shared, and falls back to the
first display.
-/

namespace Panops
namespace Capture

structure SCDisplay where
  displayID : UInt32
  width : Nat
  height : Nat
deriving DecidableEq

structure SCWindow where
  windowID : UInt32
  bundleIdentifier : Option String
  width : Nat
  height : Nat
deriving DecidableEq

/-- No display has the id 0. -/
structure SCShareableContent where
  displays : List SCDisplay
  windows : List SCWindow
  displayID_ne_zero : ∀ display ∈ displays, display.displayID ≠ 0

inductive CaptureFailure where
  | noDisplay
  | permissionDenied (what : String)
  | invalidParams (message : String)
  /-- An error of the system. -/
  | other (text : String)
deriving DecidableEq

inductive SCContentFilter where
  | display (display : SCDisplay)
  | window (window : SCWindow)
deriving DecidableEq

structure StreamSource where
  filter : SCContentFilter
  nativeWidth : Nat
  nativeHeight : Nat
  sourceRect : Option CaptureRect
deriving DecidableEq

def StreamSource.ofWindow (window : SCWindow) (region : Option CaptureRect) : StreamSource :=
  ⟨.window window, window.width, window.height, region⟩

def StreamSource.ofDisplay (display : SCDisplay) (region : Option CaptureRect) : StreamSource :=
  ⟨.display display, display.width, display.height, region⟩

def firstDisplay (content : SCShareableContent) : Except CaptureFailure SCDisplay :=
  match content.displays.head? with
  | none => .error .noDisplay
  | some display => .ok display

def regionDisplay (content : SCShareableContent) (displayId : UInt32) :
    Except CaptureFailure SCDisplay :=
  match content.displays.find? (·.displayID = displayId) with
  | some display => .ok display
  | none => firstDisplay content

def streamSource (content : SCShareableContent) (target : CaptureTargetKind)
    (region : Option CaptureRect) : Except CaptureFailure StreamSource :=
  match target with
  | .window windowID =>
    match content.windows.find? (·.windowID = windowID) with
    | some window => .ok (.ofWindow window region)
    | none => do
      let display ← firstDisplay content
      .ok (.ofDisplay display none)
  | .display => do
    let display ← firstDisplay content
    .ok (.ofDisplay display region)
  | .app bundleId =>
    match content.windows.find? (·.bundleIdentifier = some bundleId) with
    | some window => .ok (.ofWindow window region)
    | none => do
      let display ← firstDisplay content
      .ok (.ofDisplay display none)
  | .region displayId x y w h => do
    let display ← regionDisplay content displayId
    .ok ⟨.display display, w.toNat, h.toNat,
      some (region.getD ⟨x.toNat, y.toNat, w.toNat, h.toNat⟩)⟩

/-! ## What is seen -/

/-- Any number of windows, or a part of a display. -/
inductive View where
  | windows (ids : List UInt32)
  | display (displayID : UInt32) (rect : Option CaptureRect)
deriving DecidableEq

def StreamSource.view (source : StreamSource) : View :=
  match source.filter with
  | .window window => .windows [window.windowID]
  | .display display => .display display.displayID source.sourceRect

/-- 0 is the primary display. -/
def displayNamed (content : SCShareableContent) (displayId : UInt32) : Option SCDisplay :=
  if displayId = 0 then content.displays.head?
  else content.displays.find? (·.displayID = displayId)

/-- What a target stands for: a window, every window of an app, a display, or a rectangle
of it. -/
def asked (content : SCShareableContent) : Mac.CaptureTarget → Option View
  | .display displayId =>
    (displayNamed content displayId).map fun display => .display display.displayID none
  | .window windowId =>
    (content.windows.find? (·.windowID = windowId)).map fun window => .windows [window.windowID]
  | .app bundleId =>
    match content.windows.filter (·.bundleIdentifier = some bundleId) with
    | [] => none
    | windows => some (.windows (windows.map (·.windowID)))
  | .region displayId x y w h =>
    (displayNamed content displayId).map fun display =>
      .display display.displayID (some ⟨x.toNat, y.toNat, w.toNat, h.toNat⟩)

/-- The target is there; a display is the first one, and an app has one window. -/
def Reaches (content : SCShareableContent) : Mac.CaptureTarget → Prop
  | .display displayId =>
    ∃ first, content.displays.head? = some first ∧ (displayId = 0 ∨ first.displayID = displayId)
  | .window windowId => ∃ window ∈ content.windows, window.windowID = windowId
  | .app bundleId =>
    ∃ window, content.windows.filter (·.bundleIdentifier = some bundleId) = [window]
  | .region displayId _ _ _ _ => (displayNamed content displayId).isSome

theorem firstDisplay_eq (content : SCShareableContent) {first : SCDisplay}
    (h : content.displays.head? = some first) : firstDisplay content = .ok first := by
  rw [firstDisplay, h]

theorem find_zero (content : SCShareableContent) :
    content.displays.find? (·.displayID = 0) = none := by
  apply List.find?_eq_none.mpr
  intro display hmem
  simpa using content.displayID_ne_zero display hmem

/-- What the recorder shows of the target of a recording. -/
def captured (content : SCShareableContent) (target : CaptureTargetKind) :
    Except CaptureFailure View :=
  (streamSource content target target.regionRect).map StreamSource.view

variable {content : SCShareableContent}

theorem captured_display_iff (displayId : UInt32) :
    (∃ view, asked content (.display displayId) = some view ∧
      captured content .display = .ok view) ↔ Reaches content (.display displayId) := by
  have hcaptured : captured content .display =
      (firstDisplay content).map fun display => .display display.displayID none := by
    show ((firstDisplay content).bind _).map _ = _
    cases firstDisplay content with
    | error | ok => rfl
  rw [hcaptured, firstDisplay, asked, Reaches, displayNamed]
  cases hfirst : content.displays.head? with
  | none =>
    refine iff_of_false ?_ ?_
    · rintro ⟨view, -, h⟩
      cases h
    · rintro ⟨first, h, -⟩
      cases h
  | some first =>
    by_cases hzero : displayId = 0
    · rw [if_pos hzero]
      exact iff_of_true ⟨_, rfl, rfl⟩ ⟨first, rfl, .inl hzero⟩
    · rw [if_neg hzero]
      constructor
      · rintro ⟨view, hasked, hview⟩
        obtain ⟨display, hfound, rfl⟩ := Option.map_eq_some_iff.mp hasked
        refine ⟨first, rfl, .inr ?_⟩
        have hid : display.displayID = displayId := by simpa using List.find?_some hfound
        have heq := Except.ok.inj hview
        rw [← hid]
        exact (View.display.inj heq).1
      · rintro ⟨first', hsome, hid⟩
        obtain rfl := Option.some.inj hsome
        have hid := hid.resolve_left hzero
        have hfound : content.displays.find? (·.displayID = displayId) = some first := by
          cases hdisplays : content.displays with
          | nil => simp [hdisplays] at hfirst
          | cons display displays =>
            rw [hdisplays] at hfirst
            obtain rfl := Option.some.inj hfirst
            exact List.find?_cons_of_pos (by simpa using hid)
        rw [hfound]
        exact ⟨_, rfl, rfl⟩

theorem captured_window_iff (windowId : UInt32) :
    (∃ view, asked content (.window windowId) = some view ∧
      captured content (.window windowId) = .ok view) ↔ Reaches content (.window windowId) := by
  rw [asked, Reaches, captured, streamSource]
  cases hfound : content.windows.find? (·.windowID = windowId) with
  | none =>
    refine iff_of_false ?_ ?_
    · rintro ⟨view, h, -⟩
      cases h
    · rintro ⟨window, hmem, hid⟩
      have hnone := List.find?_eq_none.mp hfound window hmem
      exact hnone (by simpa using hid)
  | some window =>
    refine iff_of_true ⟨_, rfl, rfl⟩ ⟨window, List.mem_of_find?_eq_some hfound, ?_⟩
    simpa using List.find?_some hfound

theorem captured_app_iff (bundleId : String) :
    (∃ view, asked content (.app bundleId) = some view ∧
      captured content (.app bundleId) = .ok view) ↔ Reaches content (.app bundleId) := by
  rw [asked, Reaches, captured, streamSource, ← List.head?_filter]
  cases content.windows.filter (·.bundleIdentifier = some bundleId) with
  | nil =>
    refine iff_of_false ?_ ?_
    · rintro ⟨view, h, -⟩
      cases h
    · rintro ⟨window, h⟩
      cases h
  | cons window windows =>
    constructor
    · rintro ⟨view, hasked, hview⟩
      have hview : View.windows [window.windowID] = view := Except.ok.inj hview
      rw [← hview] at hasked
      have hids := View.windows.inj (Option.some.inj hasked)
      rw [List.map_cons, List.cons.injEq, List.map_eq_nil_iff] at hids
      exact ⟨window, by rw [hids.2]⟩
    · rintro ⟨other, h⟩
      rw [List.cons.injEq] at h
      rw [h.1, h.2]
      exact ⟨_, rfl, rfl⟩

theorem regionDisplay_of_named {displayId : UInt32} {display : SCDisplay}
    (h : displayNamed content displayId = some display) :
    regionDisplay content displayId = .ok display := by
  rw [displayNamed] at h
  rw [regionDisplay]
  by_cases hzero : displayId = 0
  · rw [if_pos hzero] at h
    rw [hzero, find_zero]
    exact firstDisplay_eq content h
  · rw [if_neg hzero] at h
    rw [h]

theorem captured_region_iff (displayId x y w h : UInt32) :
    (∃ view, asked content (.region displayId x y w h) = some view ∧
      captured content (.region displayId x y w h) = .ok view) ↔
        Reaches content (.region displayId x y w h) := by
  rw [asked, Reaches]
  cases hdisplay : displayNamed content displayId with
  | none =>
    refine iff_of_false ?_ (by simp)
    rintro ⟨view, hasked, -⟩
    cases hasked
  | some display =>
    refine iff_of_true ⟨_, rfl, ?_⟩ rfl
    show ((regionDisplay content displayId).bind _).map _ = _
    rw [regionDisplay_of_named hdisplay]
    rfl

/-- A recording shows what was asked for, just when that is there to be shown. -/
theorem captured_iff (target : Mac.CaptureTarget) :
    (∃ view, asked content target = some view ∧
      captured content (targetKind target) = .ok view) ↔ Reaches content target := by
  cases target with
  | display displayId => exact captured_display_iff displayId
  | window windowId => exact captured_window_iff windowId
  | app bundleId => exact captured_app_iff bundleId
  | region displayId x y w h => exact captured_region_iff displayId x y w h

end Capture
end Panops
