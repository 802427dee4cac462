import Panops.Capture.Screenshots
import Panops.Lib.Transitions

/-!
# Screenshots and the wall clock

The times of the frames are read from a clock that can be set back.  `Screenshotter`
takes the difference to the recorded start without a guard; a clock that is later at
each screenshot than at the one before keeps the recording safe.
-/

namespace Panops
namespace Capture

open Lib Lib.Decimal Lib.Transitions

variable {V β : Type}

/-- Named in the order of the names. -/
def Later (dir : Path) (a b : Nat × Path) : Prop :=
  ∃ x y, a.2 = dir.join x ∧ b.2 = dir.join y ∧ x < y

/-- The earlier screenshots are there, with the content they were written with. -/
def Extends (s s' : Shots V β) : Prop :=
  (∃ more, s'.kept = s.kept ++ more) ∧ ∀ shot ∈ s.kept, s'.disk.node shot.2 = s.disk.node shot.2

/-- No subtraction traps; in every state on the way the names are in the order of the
screenshots, and nothing that follows touches them. -/
def ClockSafe (near : V → V → Bool) (dir : Path) (s : Nat × Shots V β)
    (events : List (LiveEvent V β)) : Prop :=
  ∀ before after, events = before ++ after →
    ∃ s₁ s₂, run (screenshotterStep near dir) s before = some s₁ ∧
      run (screenshotterStep near dir) s₁ after = some s₂ ∧
      s₁.2.kept.Pairwise (Later dir) ∧ Extends s₁.2 s₂.2

/-- What has to be true of the clock when the detector keeps a frame.  Before the start
is recorded this is the first screenshot.  After that the clock is not before the
start, it is later than at every screenshot so far, and not `10 ^ 9` milliseconds
away from the start. -/
def Steady (near : V → V → Bool) (s : Nat × Shots V β) : LiveEvent V β → Prop
  | .markStarted _ => True
  | .frame f =>
    (s.2.detector.shouldKeep near f.atMs f.featurePrint).1 = true →
      if s.1 = 0 then s.2.kept = []
      else s.1 ≤ f.atMs ∧ f.atMs < s.1 + 10 ^ 9 ∧ ∀ shot ∈ s.2.kept, s.1 + shot.1 < f.atMs

instance decidableSteady (near : V → V → Bool) :
    ∀ (s : Nat × Shots V β) (e : LiveEvent V β), Decidable (Steady near s e)
  | _, .markStarted _ => inferInstanceAs (Decidable True)
  | s, .frame f =>
    inferInstanceAs
      (Decidable
        ((s.2.detector.shouldKeep near f.atMs f.featurePrint).1 = true →
          if s.1 = 0 then s.2.kept = []
          else s.1 ≤ f.atMs ∧ f.atMs < s.1 + 10 ^ 9 ∧ ∀ shot ∈ s.2.kept, s.1 + shot.1 < f.atMs))

theorem Extends.refl (s : Shots V β) : Extends s s :=
  ⟨⟨[], (List.append_nil _).symm⟩, fun _ _ => rfl⟩

theorem Extends.trans {s s' s'' : Shots V β} (h : Extends s s') (h' : Extends s' s'') :
    Extends s s'' := by
  obtain ⟨⟨more, hmore⟩, hnode⟩ := h
  obtain ⟨⟨more', hmore'⟩, hnode'⟩ := h'
  refine ⟨⟨more ++ more', by rw [hmore', hmore, List.append_assoc]⟩, fun shot hshot => ?_⟩
  rw [hnode' shot (by rw [hmore]; exact List.mem_append_left _ hshot), hnode shot hshot]

/-! ## One frame -/

/-- A frame whose timestamp does not underflow leaves the screenshots as they are, or
adds one under its name. -/
theorem keepFrame_cases (near : V → V → Bool) (dir : Path) {stamp : Nat → Option Nat}
    (s : Shots V β) (f : Frame V β) {ms : Nat}
    (hstamp : (s.detector.shouldKeep near f.atMs f.featurePrint).1 = true →
      stamp f.atMs = some ms) :
    ∃ s', keepFrame near dir stamp s f = some s' ∧
      ((s'.kept = s.kept ∧ s'.disk = s.disk) ∨
        ((s.detector.shouldKeep near f.atMs f.featurePrint).1 = true ∧
          s'.kept = s.kept ++ [(ms, dir.join (jpgName ms))] ∧
          ∀ q, q ≠ dir.join (jpgName ms) → s'.disk.node q = s.disk.node q)) := by
  unfold keepFrame
  cases hkeep : s.detector.shouldKeep near f.atMs f.featurePrint with
  | mk keep detector =>
    cases keep with
    | false => exact ⟨_, rfl, .inl ⟨rfl, rfl⟩⟩
    | true =>
      simp only [hstamp (by rw [hkeep])]
      cases f.jpeg with
      | none => exact ⟨_, rfl, .inl ⟨rfl, rfl⟩⟩
      | some jpeg =>
        cases f.writable with
        | false => exact ⟨_, rfl, .inl ⟨rfl, rfl⟩⟩
        | true =>
          rcases Disk.write_cases (dir.join (jpgName ms)) jpeg s.disk with
            ⟨e, -, hfail⟩ | ⟨-, hok, hnode⟩
          · simp only [hfail]
            exact ⟨_, rfl, .inl ⟨rfl, rfl⟩⟩
          · cases hwrite : s.disk.write (dir.join (jpgName ms)) jpeg with
            | mk result disk =>
              rw [hwrite] at hok hnode
              cases hok
              simp only [hwrite]
              refine ⟨⟨detector, disk, s.kept ++ [(ms, dir.join (jpgName ms))]⟩, rfl,
                .inr ⟨trivial, rfl, fun q hq => ?_⟩⟩
              exact (hnode q).trans (if_neg hq)

/-- The timestamps grow and fit into nine digits. -/
structure InOrder (dir : Path) (s : Shots V β) : Prop where
  named : ∀ shot ∈ s.kept, shot.2 = dir.join (jpgName shot.1)
  fits : ∀ shot ∈ s.kept, shot.1 < 10 ^ 9
  grows : s.kept.Pairwise fun a b => a.1 < b.1

theorem InOrder.later {dir : Path} {s : Shots V β} (h : InOrder dir s) :
    s.kept.Pairwise (Later dir) := by
  refine h.grows.imp_of_mem fun {a b} ha hb hab => ?_
  exact ⟨_, _, h.named a ha, h.named b hb, jpgName_lt (h.fits b hb) hab⟩

/-- A timestamp above the ones so far. -/
theorem InOrder.keepFrame {near : V → V → Bool} {dir : Path} {stamp : Nat → Option Nat}
    {s : Shots V β} {f : Frame V β} {ms : Nat} (h : InOrder dir s)
    (hkeep : (s.detector.shouldKeep near f.atMs f.featurePrint).1 = true →
      stamp f.atMs = some ms ∧ ms < 10 ^ 9 ∧ ∀ shot ∈ s.kept, shot.1 < ms) :
    ∃ s', keepFrame near dir stamp s f = some s' ∧ InOrder dir s' ∧ Extends s s' := by
  obtain ⟨s', hstep, ⟨hkept, hdisk⟩ | ⟨htrue, hkept, hnode⟩⟩ :=
    keepFrame_cases near dir s f fun htrue => (hkeep htrue).1
  · refine ⟨s', hstep, ⟨?_, ?_, ?_⟩, ⟨[], by rw [hkept, List.append_nil]⟩, fun _ _ => by rw [hdisk]⟩
    · rw [hkept]
      exact h.named
    · rw [hkept]
      exact h.fits
    · rw [hkept]
      exact h.grows
  · obtain ⟨-, hfits, habove⟩ := hkeep htrue
    refine ⟨s', hstep, ⟨?_, ?_, ?_⟩, ⟨_, hkept⟩, fun shot hshot => hnode _ ?_⟩
    · intro shot hshot
      rw [hkept, List.mem_append, List.mem_singleton] at hshot
      rcases hshot with hshot | rfl
      · exact h.named shot hshot
      · rfl
    · intro shot hshot
      rw [hkept, List.mem_append, List.mem_singleton] at hshot
      rcases hshot with hshot | rfl
      · exact h.fits shot hshot
      · exact hfits
    · rw [hkept, List.pairwise_append]
      refine ⟨h.grows, List.pairwise_singleton _ _, fun a ha b hb => ?_⟩
      obtain rfl := List.mem_singleton.mp hb
      exact habove a ha
    · -- its name is below the new one
      have hlt := jpgName_lt hfits (habove shot hshot)
      rw [h.named shot hshot]
      intro heq
      rw [Path.join_right_inj.mp heq] at hlt
      exact absurd hlt (lt_irrefl _)

/-! ## Runs -/

theorem steady_step {near : V → V → Bool} {dir : Path} {s : Nat × Shots V β} {e : LiveEvent V β}
    (h : InOrder dir s.2) (hsteady : Steady near s e) :
    ∃ s', screenshotterStep near dir s e = some s' ∧ InOrder dir s'.2 ∧ Extends s.2 s'.2 := by
  cases e with
  | markStarted ms => exact ⟨(ms, s.2), rfl, h, .refl s.2⟩
  | frame f =>
    have hstep : ∃ shots, keepFrame near dir (liveStamp s.1) s.2 f = some shots ∧
        InOrder dir shots ∧ Extends s.2 shots := by
      have hkept : (s.2.detector.shouldKeep near f.atMs f.featurePrint).1 = true →
          liveStamp s.1 f.atMs = some (if s.1 = 0 then 0 else f.atMs - s.1) ∧
            (if s.1 = 0 then 0 else f.atMs - s.1) < 10 ^ 9 ∧
            ∀ shot ∈ s.2.kept, shot.1 < if s.1 = 0 then 0 else f.atMs - s.1 := ?_
      · exact h.keepFrame hkept
      intro hkeep
      have hclock := hsteady hkeep
      by_cases hstart : s.1 = 0
      · rw [if_pos hstart] at hclock
        rw [liveStamp, if_pos hstart, if_pos hstart, hclock]
        exact ⟨rfl, by omega, fun _ hshot => nomatch hshot⟩
      · rw [if_neg hstart] at hclock
        obtain ⟨hle, hfits, hlater⟩ := hclock
        rw [liveStamp, if_neg hstart, if_neg hstart, if_neg (by omega)]
        refine ⟨rfl, by omega, fun shot hshot => ?_⟩
        have hbefore := hlater shot hshot
        omega
    obtain ⟨shots, hframe, horder, hextends⟩ := hstep
    exact ⟨(s.1, shots), by rw [screenshotterStep, hframe]; rfl, horder, hextends⟩

theorem steady_run {near : V → V → Bool} {dir : Path} (events : List (LiveEvent V β)) :
    ∀ s : Nat × Shots V β, InOrder dir s.2 →
      Meets (screenshotterStep near dir) (Steady near) s events →
      ∃ s', run (screenshotterStep near dir) s events = some s' ∧ InOrder dir s'.2 ∧
        Extends s.2 s'.2 := by
  induction events with
  | nil => exact fun s h _ => ⟨s, rfl, h, .refl s.2⟩
  | cons e events ih =>
    intro s h hmeets
    obtain ⟨s₁, hstep, h₁, hextends₁⟩ := steady_step h hmeets.1
    have hrest := hmeets.2
    rw [hstep] at hrest
    obtain ⟨s₂, hrun, h₂, hextends₂⟩ := ih s₁ h₁ hrest
    refine ⟨s₂, ?_, h₂, hextends₁.trans hextends₂⟩
    rw [run, hstep]
    exact hrun

/-- A recording whose clock is steady at every frame that is kept. -/
theorem clockSafe_of_steady {near : V → V → Bool} {dir : Path} {intervalMs : Nat} {d : Disk β}
    {shots : Shots V β} (hstart : startShots dir intervalMs d = some shots)
    {events : List (LiveEvent V β)}
    (hsteady : Meets (screenshotterStep near dir) (Steady near) (0, shots) events) :
    ClockSafe near dir (0, shots) events := by
  have hempty : shots.kept = [] := (startShots_wrote hstart).2
  have horder : InOrder dir shots :=
    ⟨by simp [hempty], by simp [hempty], by simp [hempty]⟩
  intro before after hevents
  rw [hevents] at hsteady
  obtain ⟨s, hrun, -⟩ := steady_run (before ++ after) (0, shots) horder hsteady
  rw [run_append] at hrun
  obtain ⟨s₁, hbefore, hafter⟩ := Option.bind_eq_some_iff.mp hrun
  obtain ⟨hfirst, hrest⟩ := (meets_append hbefore).mp hsteady
  obtain ⟨s₁', hbefore', h₁, -⟩ := steady_run before (0, shots) horder hfirst
  obtain rfl := Option.some.inj (hbefore.symm.trans hbefore')
  obtain ⟨s₂, hafter', -, hextends⟩ := steady_run after s₁ h₁ hrest
  exact ⟨s₁, s₂, hbefore, hafter', h₁.later, hextends⟩

/-- Vision for the runs below: a frame is near itself only. -/
def nearSelf (a b : Nat) : Bool := a == b

def frameAt (atMs vector : Nat) : LiveEvent Nat Nat :=
  .frame { atMs := atMs, featurePrint := some vector, jpeg := some vector, writable := true }

def emptyShots : Shots Nat Nat :=
  { detector := .new 1000, disk := [(["shots"], .dir)], kept := [] }

theorem startShots_emptyShots : startShots ["shots"] 1000 [] = some emptyShots := rfl

theorem clockSafe_of_steady_ahead :
    ClockSafe nearSelf ["shots"] (0, emptyShots)
      [.markStarted 5000, frameAt 5000 1, frameAt 6200 2, frameAt 7000 3, frameAt 7200 4] :=
  clockSafe_of_steady startShots_emptyShots (by decide)

/-- The clock is set back: before the start, which traps, or between two screenshots,
where the second one has the earlier name. -/
theorem clock_set_back :
    ¬ ClockSafe nearSelf ["shots"] (0, emptyShots) [.markStarted 5000, frameAt 4999 1] ∧
      ¬ ClockSafe nearSelf ["shots"] (0, emptyShots)
        [.markStarted 5000, frameAt 9000 1, frameAt 7000 2] := by
  constructor
  · intro h
    obtain ⟨s₁, s₂, hbefore, -⟩ := h [.markStarted 5000, frameAt 4999 1] [] rfl
    cases hbefore
  · intro h
    obtain ⟨s₁, s₂, hbefore, -, hlater, -⟩ :=
      h [.markStarted 5000, frameAt 9000 1, frameAt 7000 2] [] rfl
    have hkept : s₁.2.kept =
        [(4000, ["shots", "000004000.jpg"]), (2000, ["shots", "000002000.jpg"])] :=
      (Option.some.inj (congrArg (Option.map fun s => s.2.kept) hbefore)).symm
    rw [hkept, List.pairwise_pair] at hlater
    obtain ⟨x, y, hx, hy, hlt⟩ := hlater
    have hx' : "000004000.jpg" = x := (Path.join_right_inj (p := ["shots"])).mp hx
    have hy' : "000002000.jpg" = y := (Path.join_right_inj (p := ["shots"])).mp hy
    rw [← hx', ← hy'] at hlt
    exact absurd hlt (by decide)

end Capture
end Panops
