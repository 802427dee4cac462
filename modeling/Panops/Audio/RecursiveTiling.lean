import Panops.Audio.RecursiveAsr

/-!
# The regions of a recursive transcription

The calls of `recurse` as a tree, with the run it comes from.  The leaves lie one
after the other, and the halves of a split share out the samples of the whole.
-/

namespace Panops

open Lib.Machine Lib.Fallible

namespace Audio

/-- The calls of a run: a region that was not split, one whose left half failed, so
that the right one was not begun, and one with both halves. -/
inductive CallTree where
  | leaf (region : SpeechRegion)
  | halted (region : SpeechRegion) (left : CallTree) (right : SpeechRegion)
  | split (region : SpeechRegion) (left right : CallTree)

namespace CallTree

def region : CallTree → SpeechRegion
  | leaf region => region
  | halted region _ _ => region
  | split region _ _ => region

/-- The regions that were not split, in the order in which they were transcribed. -/
def leaves : CallTree → List SpeechRegion
  | leaf region => [region]
  | halted _ left _ => left.leaves
  | split _ left right => left.leaves ++ right.leaves

/-- Each of them is one call of the recogniser. -/
def calls : CallTree → Nat
  | leaf _ => 1
  | halted _ left _ => 1 + left.calls
  | split _ left right => 1 + left.calls + right.calls

def depth : CallTree → Nat
  | leaf _ => 0
  | halted _ left _ => 1 + left.depth
  | split _ left right => 1 + max left.depth right.depth

/-- What holds of a region and its halves, wherever one was split. -/
def Splits (P : SpeechRegion → SpeechRegion → SpeechRegion → Prop) : CallTree → Prop
  | leaf _ => True
  | halted region left right => P region left.region right ∧ left.Splits P
  | split region left right =>
    P region left.region right.region ∧ left.Splits P ∧ right.Splits P

/-- A binary tree of a given depth has so many nodes at most. -/
theorem calls_lt (tree : CallTree) : tree.calls + 1 ≤ 2 ^ (tree.depth + 1) := by
  induction tree with
  | leaf region => exact Nat.le_refl 2
  | halted region left right ih =>
    simp only [calls, depth]
    rw [show 1 + left.depth + 1 = (left.depth + 1) + 1 by omega, Nat.pow_succ]
    omega
  | split region left right ihl ihr =>
    have hleft : 2 ^ (left.depth + 1) ≤ 2 ^ (max left.depth right.depth + 1) :=
      Nat.pow_le_pow_right (by omega) (by omega)
    have hright : 2 ^ (right.depth + 1) ≤ 2 ^ (max left.depth right.depth + 1) :=
      Nat.pow_le_pow_right (by omega) (by omega)
    simp only [calls, depth]
    rw [show 1 + max left.depth right.depth + 1 = (max left.depth right.depth + 1) + 1 by omega,
      Nat.pow_succ]
    omega

end CallTree

/-! ## The run with its calls -/

/-- `recurse`, with the calls it makes. -/
def recurseTree (asr : AsrProvider) (samples : List Single) (sampleRate : UInt32)
    (languageHint : Option String) (remaining : Nat) (region : SpeechRegion) (calls : Nat) :
    Except AsrFailure (RegionResult × Nat) × CallTree :=
  match sliceForRegion samples sampleRate region with
  | .error e => (.error e, .leaf region)
  | .ok chunk =>
    match asr.transcribe calls chunk sampleRate languageHint with
    | .error e => (.error (.error e), .leaf region)
    | .ok t =>
      match languageHint, remaining with
      | none, remaining + 1 =>
        match splitPoint asr region t with
        | .error e => (.error e, .leaf region)
        | .ok none => (.ok (wholeRegion region t, calls + 1), .leaf region)
        | .ok (some splitMs) =>
          let left : SpeechRegion := { region with endMs := splitMs }
          let right : SpeechRegion := { region with startMs := splitMs }
          match recurseTree asr samples sampleRate none remaining left (calls + 1) with
          | (.error e, leftTree) => (.error e, .halted region leftTree right)
          | (.ok leftResult, leftTree) =>
            match recurseTree asr samples sampleRate none remaining right leftResult.2 with
            | (.error e, rightTree) => (.error e, .split region leftTree rightTree)
            | (.ok rightResult, rightTree) =>
              (.ok (joinHalves (wholeRegion region t).model leftResult.1 rightResult.1,
                rightResult.2), .split region leftTree rightTree)
      | _, _ => (.ok (wholeRegion region t, calls + 1), .leaf region)

variable {asr : AsrProvider} {samples : List Single} {sampleRate : UInt32}

/-- Keeping the calls changes nothing. -/
theorem recurseTree_fst (hint : Option String) (remaining : Nat) (region : SpeechRegion)
    (calls : Nat) :
    (recurseTree asr samples sampleRate hint remaining region calls).1 =
      recurse asr samples sampleRate hint remaining region calls := by
  have hbind : ∀ {β : Type} (chunk : List Single)
      (f : List Single → Except AsrFailure β), ((.ok chunk : Except AsrFailure _) >>= f) = f chunk :=
    fun _ _ => rfl
  induction remaining generalizing hint region calls with
  | zero =>
    rw [recurseTree.eq_def, recurse.eq_def, sliceForRegion_eq, hbind]
    simp only
    cases asr.transcribe calls _ sampleRate hint with
    | error e => rfl
    | ok t => cases hint <;> rfl
  | succ remaining ih =>
    rw [recurseTree.eq_def, recurse.eq_def, sliceForRegion_eq, hbind]
    simp only
    cases asr.transcribe calls _ sampleRate hint with
    | error e => rfl
    | ok t =>
      cases hint with
      | some language => rfl
      | none =>
        simp only
        show _ = splitPoint asr region t >>= _
        cases splitPoint asr region t with
        | error e => rfl
        | ok point =>
          cases point with
          | none => rfl
          | some splitMs =>
            have hleft := ih none { region with endMs := splitMs } (calls + 1)
            show _ = recurse asr samples sampleRate none remaining { region with endMs := splitMs }
              (calls + 1) >>= _
            simp only
            cases hl : recurseTree asr samples sampleRate none remaining
                { region with endMs := splitMs } (calls + 1) with
            | mk left leftTree =>
              rw [← hleft, hl]
              cases left with
              | error e => rfl
              | ok leftResult =>
                have hright := ih none { region with startMs := splitMs } leftResult.2
                show _ = recurse asr samples sampleRate none remaining
                  { region with startMs := splitMs } leftResult.2 >>= _
                simp only
                cases hr : recurseTree asr samples sampleRate none remaining
                    { region with startMs := splitMs } leftResult.2 with
                | mk right rightTree =>
                  rw [← hright, hr]
                  cases right <;> rfl

/-! ## The samples of a split -/

theorem sliceBounds_mono {a b : Nat} (h : a ≤ b) :
    saturatingMul a sampleRate.toNat / 1000 ≤ saturatingMul b sampleRate.toNat / 1000 := by
  have hmul : a * sampleRate.toNat ≤ b * sampleRate.toNat := Nat.mul_le_mul_right _ h
  apply Nat.div_le_div_right
  simp only [saturatingMul]
  omega

/-- Two stretches of a list that meet are one. -/
theorem drop_take_append {α : Type} (xs : List α) {a b c : Nat} (hab : a ≤ b) (hbc : b ≤ c) :
    (xs.drop a).take (b - a) ++ (xs.drop b).take (c - b) = (xs.drop a).take (c - a) := by
  rw [show c - a = (b - a) + (c - b) by omega, List.take_add, List.drop_drop,
    show a + (b - a) = b by omega]

/-- What is transcribed of a region is what is transcribed of its halves. -/
theorem sliceForRegion_append (samples : List Single) (sampleRate : UInt32) {a b c : Nat}
    (hab : a ≤ b) (hbc : b ≤ c) :
    ∃ left right, sliceForRegion samples sampleRate ⟨a, b⟩ = .ok left ∧
      sliceForRegion samples sampleRate ⟨b, c⟩ = .ok right ∧
      sliceForRegion samples sampleRate ⟨a, c⟩ = .ok (left ++ right) := by
  have hfirst := @sliceBounds_mono sampleRate a b hab
  have hsecond := @sliceBounds_mono sampleRate b c hbc
  refine ⟨_, _, sliceForRegion_eq _ _ _, sliceForRegion_eq _ _ _, ?_⟩
  rw [sliceForRegion_eq]
  simp only [sliceBounds] at *
  generalize saturatingMul a sampleRate.toNat / 1000 = x at *
  generalize saturatingMul b sampleRate.toNat / 1000 = y at *
  generalize saturatingMul c sampleRate.toNat / 1000 = z at *
  rw [show max (min y samples.length) (min x samples.length) = min y samples.length by omega,
    show max (min z samples.length) (min y samples.length) = min z samples.length by omega,
    show max (min z samples.length) (min x samples.length) = min z samples.length by omega]
  exact congrArg Except.ok (drop_take_append samples (by omega) (by omega)).symm

/-! ## The tree of a run -/

/-- A region and its halves: they meet, none is too short, and their samples are those
of the whole. -/
structure GoodSplit (samples : List Single) (sampleRate : UInt32)
    (region left right : SpeechRegion) : Prop where
  starts : left.startMs = region.startMs
  meets : left.endMs = right.startMs
  ends : right.endMs = region.endMs
  left_long : left.startMs + minRegionMs ≤ left.endMs
  right_long : right.startMs + minRegionMs ≤ right.endMs
  samples : ∃ a b, sliceForRegion samples sampleRate left = .ok a ∧
    sliceForRegion samples sampleRate right = .ok b ∧
    sliceForRegion samples sampleRate region = .ok (a ++ b)

/-- Regions of some length, one after the other from `start` to `stop`. -/
def Adjacent (start : Nat) (regions : List SpeechRegion) (stop : Nat) : Prop :=
  match regions with
  | [] => start = stop
  | r :: rest => r.startMs = start ∧ r.startMs < r.endMs ∧ Adjacent r.endMs rest stop

theorem Adjacent.append {rs : List SpeechRegion} {start middle stop : Nat}
    {rs' : List SpeechRegion} (h : Adjacent start rs middle) (h' : Adjacent middle rs' stop) :
    Adjacent start (rs ++ rs') stop := by
  induction rs generalizing start with
  | nil =>
    obtain rfl : start = middle := h
    exact h'
  | cons r rs ih => exact ⟨h.1, h.2.1, ih h.2.2⟩

/-- A run that was not split, one that failed on the left, or one that came to both
halves. -/
theorem recurseTree_cases (asr : AsrProvider) (samples : List Single) (sampleRate : UInt32)
    (hint : Option String) (remaining : Nat) (region : SpeechRegion) (calls : Nat) :
    (∃ result, recurseTree asr samples sampleRate hint remaining region calls =
        (result, .leaf region) ∧ ∀ out, result = .ok out → out.2 = calls + 1) ∨
      ∃ rest splitMs left, remaining = rest + 1 ∧
        region.startMs + minRegionMs ≤ splitMs ∧ splitMs + minRegionMs ≤ region.endMs ∧
        recurseTree asr samples sampleRate none rest ⟨region.startMs, splitMs⟩ (calls + 1) = left ∧
        ((∃ e, recurseTree asr samples sampleRate hint remaining region calls =
            (.error e, .halted region left.2 ⟨splitMs, region.endMs⟩)) ∨
          ∃ leftResult result right, left.1 = .ok leftResult ∧
            recurseTree asr samples sampleRate none rest ⟨splitMs, region.endMs⟩ leftResult.2 =
              right ∧
            recurseTree asr samples sampleRate hint remaining region calls =
              (result, .split region left.2 right.2) ∧
            ∀ out, result = .ok out → ∃ rightResult, right.1 = .ok rightResult ∧
              out.2 = rightResult.2) := by
  rw [recurseTree.eq_def, sliceForRegion_eq]
  simp only
  cases asr.transcribe calls _ sampleRate hint with
  | error e => exact Or.inl ⟨_, rfl, fun out hout => by cases hout⟩
  | ok t =>
    cases hint with
    | some language => exact Or.inl ⟨_, rfl, fun out hout => by cases hout; rfl⟩
    | none =>
      cases remaining with
      | zero => exact Or.inl ⟨_, rfl, fun out hout => by cases hout; rfl⟩
      | succ rest =>
        simp only
        rcases splitPoint_cases asr region t with hnone | ⟨splitMs, hpoint, hlo, hhi⟩
        · rw [hnone]
          exact Or.inl ⟨_, rfl, fun out hout => by cases hout; rfl⟩
        · rw [hpoint]
          simp only
          refine Or.inr ⟨rest, splitMs, _, rfl, hlo, hhi, rfl, ?_⟩
          cases hleft : recurseTree asr samples sampleRate none rest ⟨region.startMs, splitMs⟩
              (calls + 1) with
          | mk left leftTree =>
            cases left with
            | error e => exact Or.inl ⟨e, rfl⟩
            | ok leftResult =>
              simp only
              cases hright : recurseTree asr samples sampleRate none rest
                  ⟨splitMs, region.endMs⟩ leftResult.2 with
              | mk right rightTree =>
                cases right with
                | error e =>
                  exact Or.inr ⟨leftResult, _, _, rfl, hright, rfl, fun out hout => by cases hout⟩
                | ok rightResult =>
                  exact Or.inr ⟨leftResult, _, _, rfl, hright, rfl,
                    fun out hout => by cases hout; exact ⟨rightResult, rfl, rfl⟩⟩

/-- What is known of the calls of a run.  A run that fails has come to some point of
the region, and one that succeeds to its end. -/
structure TreeSpec (samples : List Single) (sampleRate : UInt32) (remaining : Nat)
    (region : SpeechRegion) (calls : Nat) (result : Except AsrFailure (RegionResult × Nat))
    (tree : CallTree) : Prop where
  root : tree.region = region
  splits : tree.Splits (GoodSplit samples sampleRate)
  tiles : ∃ stop, Adjacent region.startMs tree.leaves stop ∧ stop ≤ region.endMs ∧
    ∀ out, result = .ok out → stop = region.endMs
  depth : tree.depth ≤ remaining
  counted : ∀ out, result = .ok out → out.2 = calls + tree.calls

theorem treeSpec_leaf {remaining : Nat} {region : SpeechRegion}
    (hregion : region.startMs < region.endMs) {calls : Nat}
    {result : Except AsrFailure (RegionResult × Nat)}
    (hcount : ∀ out, result = .ok out → out.2 = calls + 1) :
    TreeSpec samples sampleRate remaining region calls result (.leaf region) where
  root := rfl
  splits := trivial
  tiles := ⟨region.endMs, ⟨rfl, hregion, rfl⟩, Nat.le_refl _, fun _ _ => rfl⟩
  depth := Nat.zero_le _
  counted := hcount

theorem treeSpec_recurseTree (hint : Option String) (remaining : Nat) {region : SpeechRegion}
    (hregion : region.startMs < region.endMs) (calls : Nat) :
    TreeSpec samples sampleRate remaining region calls
      (recurseTree asr samples sampleRate hint remaining region calls).1
      (recurseTree asr samples sampleRate hint remaining region calls).2 := by
  induction remaining generalizing hint region calls with
  | zero =>
    rcases recurseTree_cases asr samples sampleRate hint 0 region calls with
      ⟨result, hrun, hcount⟩ | ⟨rest, _, _, hrest, _⟩
    · rw [hrun]
      exact treeSpec_leaf hregion hcount
    · omega
  | succ remaining ih =>
    rcases recurseTree_cases asr samples sampleRate hint (remaining + 1) region calls with
      ⟨result, hrun, hcount⟩ | ⟨rest, splitMs, left, hrest, hlo, hhi, hleft, hcases⟩
    · rw [hrun]
      exact treeSpec_leaf hregion hcount
    · obtain rfl : rest = remaining := by omega
      have hmin : 0 < minRegionMs := by decide
      have hl := @ih none ⟨region.startMs, splitMs⟩ (by show region.startMs < splitMs; omega)
        (calls + 1)
      rw [hleft] at hl
      obtain ⟨stop, hadjacent, hstop, hreached⟩ := hl.tiles
      have hgood : GoodSplit samples sampleRate region left.2.region ⟨splitMs, region.endMs⟩ := by
        rw [hl.root]
        exact ⟨rfl, rfl, rfl, hlo, hhi,
          sliceForRegion_append samples sampleRate (by omega) (by omega)⟩
      rcases hcases with ⟨e, hrun⟩ | ⟨leftResult, result, right, hresult, hright, hrun, hcount⟩
      · rw [hrun]
        refine
          { root := rfl
            splits := ⟨hgood, hl.splits⟩
            tiles := ⟨stop, hadjacent, ?_, fun _ hout => by cases hout⟩
            depth := ?_
            counted := fun _ hout => by cases hout }
        · have : stop ≤ splitMs := hstop
          omega
        · have := hl.depth
          simp only [CallTree.depth]
          omega
      · have hr := @ih none ⟨splitMs, region.endMs⟩ (by show splitMs < region.endMs; omega)
          leftResult.2
        rw [hright] at hr
        obtain ⟨stop', hadjacent', hstop', hreached'⟩ := hr.tiles
        have hmiddle : stop = splitMs := hreached leftResult hresult
        rw [hrun]
        refine
          { root := rfl
            splits := ⟨hr.root ▸ hgood, hl.splits, hr.splits⟩
            tiles := ⟨stop', hadjacent.append (hmiddle ▸ hadjacent'), hstop', fun out hout => ?_⟩
            depth := ?_
            counted := fun out hout => ?_ }
        · obtain ⟨rightResult, hok, -⟩ := hcount out hout
          exact hreached' rightResult hok
        · have := hl.depth
          have := hr.depth
          simp only [CallTree.depth]
          omega
        · obtain ⟨rightResult, hok, hout⟩ := hcount out hout
          have := hl.counted leftResult hresult
          have := hr.counted rightResult hok
          simp only [CallTree.calls]
          omega

/-- The calls of a transcription: the halves of a split are long enough and share out its
samples; the regions that were not split follow each other from the start, to the end
if no call fails; there are at most fifteen calls, at most three below one another, and
nothing panics. -/
theorem transcribeRecursive_tiles (asr : AsrProvider) (samples : List Single)
    (sampleRate : UInt32) (hint : Option String) {region : SpeechRegion}
    (hregion : region.startMs < region.endMs) (calls : Nat) :
    ∃ tree : CallTree,
      recurseTree asr samples sampleRate hint maxDepth region calls =
        (transcribeRecursive asr samples sampleRate hint region calls, tree) ∧
      TreeSpec samples sampleRate maxDepth region calls
        (transcribeRecursive asr samples sampleRate hint region calls) tree ∧
      tree.calls ≤ 2 ^ (maxDepth + 1) - 1 ∧
      ∀ p, transcribeRecursive asr samples sampleRate hint region calls ≠ .error (.panicked p) := by
  have hfst := @recurseTree_fst asr samples sampleRate hint maxDepth region calls
  have hspec := @treeSpec_recurseTree asr samples sampleRate hint maxDepth region hregion calls
  refine ⟨(recurseTree asr samples sampleRate hint maxDepth region calls).2, ?_, ?_, ?_,
    recurse_ne_panicked hint maxDepth region calls⟩
  · rw [transcribeRecursive, ← hfst]
  · rw [hfst] at hspec
    exact hspec
  · have hcalls := (recurseTree asr samples sampleRate hint maxDepth region calls).2.calls_lt
    have hpow := Nat.pow_le_pow_right (show 0 < 2 by omega) (Nat.succ_le_succ hspec.depth)
    simp only [Nat.succ_eq_add_one] at hpow
    omega

/-- A recogniser that is never sure. -/
def unsure : AsrProvider where
  transcribe _ _ _ _ :=
    .ok ⟨"tiny", [{ (default : Segment) with startMs := 12000, confidence := .finite 0 }],
      fun _ => false⟩
  isFake := false

/-- A minute and a half is split three times over. -/
theorem transcribeRecursive_tiles_unsure :
    ∃ tree : CallTree,
      recurseTree unsure [] 16000 none maxDepth ⟨0, 90000⟩ 0 =
        (transcribeRecursive unsure [] 16000 none ⟨0, 90000⟩ 0, tree) ∧
      TreeSpec [] 16000 maxDepth ⟨0, 90000⟩ 0
        (transcribeRecursive unsure [] 16000 none ⟨0, 90000⟩ 0) tree ∧
      tree.calls ≤ 2 ^ (maxDepth + 1) - 1 ∧
      ∀ p, transcribeRecursive unsure [] 16000 none ⟨0, 90000⟩ 0 ≠ .error (.panicked p) :=
  transcribeRecursive_tiles unsure [] 16000 none (by decide) 0

end Audio
end Panops
