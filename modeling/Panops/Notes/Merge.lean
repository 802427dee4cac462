import Panops.Lib.MergeTree
import Panops.Lib.Runs
import Panops.Notes.Prompts

/-!
# Merging chunk summaries

Rounds of merge requests: each round joins neighbouring summaries as far as the
request stays within the threshold, until one summary is left.  The provider is
free to answer with summaries larger than what it was given.
-/

namespace Panops

open Lib Lib.Runs Lib.Dialogue

namespace Pipeline

open Prompts

structure MergeError where
  message : String
  llmFailed : Bool

def MergeError.llm (message : String) : MergeError where
  message := message
  llmFailed := true

def MergeError.reduction (message : String) : MergeError where
  message := message
  llmFailed := false

section

variable (dialect : MarkdownDialect) (language : String)

/-- The size of the merge request for a batch. -/
def mergeChars (batch : List Value) : Nat :=
  renderedLlmRequestChars (buildMergeSectionPrompt batch dialect language)

/-- The next summary no longer fits into the batch. -/
def overThreshold (batch : List Value) (next : Value) : Bool :=
  !batch.isEmpty && SECTION_CHUNK_THRESHOLD_CHARS < mergeChars dialect language (batch ++ [next])

/-- The inner loop: the batch, and the summaries it leaves. -/
def growBatch (batch : List Value) : List Value → List Value × List Value
  | [] => (batch, [])
  | next :: rest =>
    if overThreshold dialect language batch next then (batch, next :: rest)
    else growBatch (batch ++ [next]) rest

/-- The batch and the rest are the next run and what follows it. -/
theorem growBatch_eq (batch rest : List Value) :
    runsFrom (overThreshold dialect language) batch rest =
      (growBatch dialect language batch rest).1 ::
        runs (overThreshold dialect language) (growBatch dialect language batch rest).2 := by
  induction rest generalizing batch with
  | nil => rfl
  | cons next rest ih =>
    cases h : overThreshold dialect language batch next with
    | true => rw [runsFrom_cons_of_cut h, growBatch, if_pos h]; rfl
    | false => rw [runsFrom_cons_of_not_cut h, growBatch, if_neg (by simp [h]), ih]

/-- The first summary always goes into the batch. -/
theorem growBatch_nil_cons (next : Value) (rest : List Value) :
    growBatch dialect language [] (next :: rest) = growBatch dialect language [next] rest := rfl

theorem length_growBatch_le (batch rest : List Value) :
    (growBatch dialect language batch rest).2.length ≤ rest.length := by
  induction rest generalizing batch with
  | nil => exact Nat.le_refl 0
  | cons next rest ih =>
    rw [growBatch]
    split
    · exact Nat.le_refl _
    · exact Nat.le_succ_of_le (ih _)

variable (llm : LlmProvider)

/-- One batch: a lone summary is carried over, more are sent to the provider. -/
def joinBatch (batch : List Value) (log : LlmLog) : Except MergeError Value × LlmLog :=
  match batch with
  | [v] => (.ok v, log)
  | batch =>
    match complete llm log (buildMergeSectionPrompt batch dialect language) with
    | (.ok (.json v), log) => (.ok v, log)
    | (.ok (.text _), log) => (.error (.reduction "LLM unavailable"), log)
    | (.error _, log) => (.error (.llm "LLM unavailable"), log)

/-- The loop over one round. -/
def mergeRound (summaries nextRound : List Value) (log : LlmLog) :
    Except MergeError (List Value) × LlmLog :=
  match summaries with
  | [] => (.ok nextRound, log)
  | next :: rest =>
    match joinBatch dialect language llm (growBatch dialect language [] (next :: rest)).1 log with
    | (.error e, log) => (.error e, log)
    | (.ok v, log) =>
      mergeRound (growBatch dialect language [] (next :: rest)).2 (nextRound ++ [v]) log
termination_by summaries.length
decreasing_by
  rw [growBatch_nil_cons]
  exact Nat.lt_succ_of_le (length_growBatch_le dialect language [next] rest)

/-! ## One round -/

/-- The batches of a round. -/
def batchesOf (summaries : List Value) : List (List Value) :=
  runs (overThreshold dialect language) summaries

theorem batchesOf_cons (next : Value) (rest : List Value) :
    batchesOf dialect language (next :: rest) =
      (growBatch dialect language [] (next :: rest)).1 ::
        batchesOf dialect language (growBatch dialect language [] (next :: rest)).2 := by
  rw [growBatch_nil_cons]
  exact growBatch_eq dialect language [next] rest

theorem flatten_batchesOf (summaries : List Value) :
    (batchesOf dialect language summaries).flatten = summaries :=
  flatten_runs _ summaries

theorem mem_batchesOf {summaries : List Value} {batch : List Value}
    (h : batch ∈ batchesOf dialect language summaries) :
    batch.length = 1 ∨
      2 ≤ batch.length ∧ mergeChars dialect language batch ≤ SECTION_CHUNK_THRESHOLD_CHARS := by
  revert batch
  show ∀ batch ∈ runs (overThreshold dialect language) summaries, batch.length = 1 ∨
    2 ≤ batch.length ∧ mergeChars dialect language batch ≤ SECTION_CHUNK_THRESHOLD_CHARS
  apply forall_mem_runs
  · exact fun v => Or.inl rfl
  · intro run v hrun hcut
    have hlen : (run ++ [v]).length = run.length + 1 := by simp
    have hne : run.isEmpty = false := by
      cases run with
      | nil => simp at hrun
      | cons _ _ => rfl
    simp only [overThreshold, hne, Bool.not_false, Bool.true_and, decide_eq_false_iff_not,
      Nat.not_lt] at hcut
    exact Or.inr ⟨by omega, hcut⟩

/-- A request for at least two summaries that stays within the threshold. -/
def IsMergeRequest (req : LlmRequest) : Prop :=
  ∃ batch, 2 ≤ batch.length ∧ req = buildMergeSectionPrompt batch dialect language ∧
    renderedLlmRequestChars req ≤ SECTION_CHUNK_THRESHOLD_CHARS

/-- The provider was asked to merge `batch` and answered with `v`. -/
def Joins (calls : LlmLog) (batch : List Value) (v : Value) : Prop :=
  ⟨buildMergeSectionPrompt batch dialect language, .ok (.json v)⟩ ∈ calls

/-- What a batch becomes: a lone summary stays, more are joined by a call. -/
def Joined (calls : LlmLog) (batch : List Value) (v : Value) : Prop :=
  batch = [v] ∨ 2 ≤ batch.length ∧ Joins dialect language calls batch v

def AnsweredText (calls : LlmLog) : Prop := ∃ e ∈ calls, ∃ s, e.answer = .ok (.text s)

def AnsweredError (calls : LlmLog) : Prop := ∃ e ∈ calls, ∃ err, e.answer = .error err

/-- An error that counts as a provider failure. -/
def ProviderError {α : Type} (result : Except MergeError α) : Prop :=
  ∃ err, result = .error err ∧ err.llmFailed = true

/-- An error that does not count as a provider failure. -/
def ReductionError {α : Type} (result : Except MergeError α) : Prop :=
  ∃ err, result = .error err ∧ err.llmFailed = false

variable {dialect language}

theorem Joined.mono {calls calls' : LlmLog} (h : ∀ e ∈ calls, e ∈ calls') {batch : List Value}
    {v : Value} (hjoin : Joined dialect language calls batch v) :
    Joined dialect language calls' batch v :=
  hjoin.imp_right fun hcall => ⟨hcall.1, h _ hcall.2⟩

/-- What `joinBatch` did with one batch. -/
structure BatchSpec (dialect : MarkdownDialect) (language : String) (batch : List Value)
    (calls : LlmLog) (result : Except MergeError Value) : Prop where
  count : calls.length + 1 ≤ batch.length
  requests : ∀ e ∈ calls, IsMergeRequest dialect language e.query
  failed : ∀ err, result = .error err → calls ≠ []
  text : ReductionError result ↔ AnsweredText calls
  failure : ProviderError result ↔ AnsweredError calls
  joined : ∀ v, result = .ok v → Joined dialect language calls batch v

theorem joinBatch_spec {batch : List Value}
    (hbatch : batch.length = 1 ∨
      2 ≤ batch.length ∧ mergeChars dialect language batch ≤ SECTION_CHUNK_THRESHOLD_CHARS)
    (log : LlmLog) :
    ∃ calls, (joinBatch dialect language llm batch log).2 = log ++ calls ∧
      BatchSpec dialect language batch calls (joinBatch dialect language llm batch log).1 := by
  rcases hbatch with hone | ⟨htwo, hfits⟩
  · obtain ⟨v, rfl⟩ := List.length_eq_one_iff.mp hone
    refine ⟨[], by simp [joinBatch], ?_⟩
    exact
      { count := Nat.le_refl 1
        requests := by simp
        failed := by simp [joinBatch]
        text := by simp [joinBatch, ReductionError, AnsweredText]
        failure := by simp [joinBatch, ProviderError, AnsweredError]
        joined := fun w hw => Or.inl (by simpa [joinBatch] using hw) }
  · let req := buildMergeSectionPrompt batch dialect language
    have hreq : IsMergeRequest dialect language req := ⟨batch, htwo, rfl, hfits⟩
    have hjoin : joinBatch dialect language llm batch log =
        match complete llm log req with
        | (.ok (.json v), log) => (.ok v, log)
        | (.ok (.text _), log) => (.error (.reduction "LLM unavailable"), log)
        | (.error _, log) => (.error (.llm "LLM unavailable"), log) := by
      rw [joinBatch.eq_2]
      intro v hv
      simp [hv] at htwo
    have hcomplete : complete llm log req = (llm log req, log ++ [⟨req, llm log req⟩]) := rfl
    have hrequests : ∀ e ∈ ([⟨req, llm log req⟩] : LlmLog),
        IsMergeRequest dialect language e.query := by simpa using hreq
    rw [hjoin, hcomplete]
    refine ⟨[⟨req, llm log req⟩], ?_, ?_⟩
    · cases llm log req with
      | error e => rfl
      | ok response => cases response <;> rfl
    · cases hanswer : llm log req with
      | error e =>
        exact
          { count := by simpa using htwo
            requests := by simpa [hanswer] using hrequests
            failed := by simp
            text := by simp [ReductionError, AnsweredText, MergeError.llm]
            failure := by simp [ProviderError, AnsweredError, MergeError.llm]
            joined := by simp }
      | ok response =>
        cases response with
        | text s =>
          exact
            { count := by simpa using htwo
              requests := by simpa [hanswer] using hrequests
              failed := by simp
              text := by simp [ReductionError, AnsweredText, MergeError.reduction]
              failure := by simp [ProviderError, AnsweredError, MergeError.reduction]
              joined := by simp }
        | json w =>
          refine
            { count := by simpa using htwo
              requests := by simpa [hanswer] using hrequests
              failed := by simp
              text := by simp [ReductionError, AnsweredText]
              failure := by simp [ProviderError, AnsweredError]
              joined := fun v hv => ?_ }
          obtain rfl : w = v := by simpa using hv
          exact Or.inr ⟨htwo, by simp [Joins, req]⟩

/-- What a round did with its batches. -/
structure RoundSpec (dialect : MarkdownDialect) (language : String)
    (batches : List (List Value)) (nextRound : List Value) (calls : LlmLog)
    (result : Except MergeError (List Value)) : Prop where
  count : calls.length + batches.length ≤ batches.flatten.length
  requests : ∀ e ∈ calls, IsMergeRequest dialect language e.query
  failed : ∀ err, result = .error err → calls ≠ []
  text : ReductionError result ↔ AnsweredText calls
  failure : ProviderError result ↔ AnsweredError calls
  joined : ∀ next, result = .ok next → ∃ more, next = nextRound ++ more ∧
    List.Forall₂ (Joined dialect language calls) batches more

theorem answeredText_append (calls calls' : LlmLog) :
    AnsweredText (calls ++ calls') ↔ AnsweredText calls ∨ AnsweredText calls' := by
  simp only [AnsweredText, List.mem_append, or_and_right, exists_or]

theorem answeredError_append (calls calls' : LlmLog) :
    AnsweredError (calls ++ calls') ↔ AnsweredError calls ∨ AnsweredError calls' := by
  simp only [AnsweredError, List.mem_append, or_and_right, exists_or]

variable (dialect language) in
theorem mergeRound_spec (summaries : List Value) : ∀ (nextRound : List Value) (log : LlmLog),
    ∃ calls, (mergeRound dialect language llm summaries nextRound log).2 = log ++ calls ∧
      RoundSpec dialect language (batchesOf dialect language summaries) nextRound calls
        (mergeRound dialect language llm summaries nextRound log).1 := by
  induction hn : summaries.length using Nat.strong_induction_on generalizing summaries with
  | _ n ih =>
    intro nextRound log
    cases summaries with
    | nil =>
      refine ⟨[], by simp [mergeRound], ?_⟩
      exact
        { count := Nat.le_refl 0
          requests := by simp
          failed := by simp [mergeRound]
          text := by simp [mergeRound, ReductionError, AnsweredText]
          failure := by simp [mergeRound, ProviderError, AnsweredError]
          joined := fun next h => ⟨[], by simpa [mergeRound, eq_comm] using h, .nil⟩ }
    | cons first rest =>
      let batch := (growBatch dialect language [] (first :: rest)).1
      let left := (growBatch dialect language [] (first :: rest)).2
      have hbatches : batchesOf dialect language (first :: rest) =
          batch :: batchesOf dialect language left := batchesOf_cons dialect language first rest
      have hmem : batch ∈ batchesOf dialect language (first :: rest) := by
        rw [hbatches]
        exact List.mem_cons_self
      have hbatch := mem_batchesOf dialect language hmem
      have hleft : left.length < n := by
        have := length_growBatch_le dialect language [first] rest
        rw [← growBatch_nil_cons] at this
        simp only [List.length_cons] at hn
        show (growBatch dialect language [] (first :: rest)).2.length < n
        omega
      have hflat : left.length + batch.length = (first :: rest).length := by
        have hsplit := flatten_batchesOf dialect language (first :: rest)
        rw [hbatches, List.flatten_cons, flatten_batchesOf] at hsplit
        rw [← hsplit, List.length_append, Nat.add_comm]
      obtain ⟨calls, hlog, hspec⟩ := joinBatch_spec llm hbatch log
      have hround : mergeRound dialect language llm (first :: rest) nextRound log =
          match joinBatch dialect language llm batch log with
          | (.error e, log) => (.error e, log)
          | (.ok v, log) => mergeRound dialect language llm left (nextRound ++ [v]) log := by
        rw [mergeRound]
      rw [hround, hbatches]
      cases hjoin : joinBatch dialect language llm batch log with
      | mk result log' =>
        rw [hjoin] at hlog hspec
        simp only at hlog
        subst hlog
        cases result with
        | error err =>
          refine ⟨calls, rfl, ?_⟩
          have hleftCount : (batchesOf dialect language left).length ≤ left.length :=
            length_runs_le _ left
          have hcount := hspec.count
          exact
            { count := by
                simp only [List.length_cons, List.flatten_cons, List.length_append,
                  flatten_batchesOf]
                omega
              requests := hspec.requests
              failed := fun _ _ => hspec.failed err rfl
              text := by
                rw [← hspec.text]
                simp [ReductionError]
              failure := by
                rw [← hspec.failure]
                simp [ProviderError]
              joined := by simp }
        | ok v =>
          obtain ⟨calls', hlog', hrest⟩ := ih left.length hleft left rfl (nextRound ++ [v])
            (log ++ calls)
          refine ⟨calls ++ calls', by simp only [hlog', List.append_assoc], ?_⟩
          have hcount := hspec.count
          have hcount' := hrest.count
          rw [flatten_batchesOf] at hcount'
          have hnoText : ¬ AnsweredText calls := by
            rw [← hspec.text]
            simp [ReductionError]
          have hnoError : ¬ AnsweredError calls := by
            rw [← hspec.failure]
            simp [ProviderError]
          refine
            { count := by
                simp only [List.length_cons, List.flatten_cons, List.length_append,
                  flatten_batchesOf]
                omega
              requests := fun e he => (List.mem_append.mp he).elim (hspec.requests e)
                (hrest.requests e)
              failed := fun err herr hnil => hrest.failed err herr (List.append_eq_nil_iff.mp hnil).2
              text := by rw [answeredText_append, hrest.text, or_iff_right hnoText]
              failure := by rw [answeredError_append, hrest.failure, or_iff_right hnoError]
              joined := fun next hnext => ?_ }
          obtain ⟨more, rfl, hmore⟩ := hrest.joined next hnext
          refine ⟨v :: more, by simp, .cons ?_ (hmore.imp fun batch w hw => ?_)⟩
          · exact (hspec.joined v rfl).mono fun e he => List.mem_append_left _ he
          · exact hw.mono fun e he => List.mem_append_right _ he

/-! ## All rounds -/

/-- Every two neighbours are too large to merge. -/
def Stuck (dialect : MarkdownDialect) (language : String) (summaries : List Value) : Prop :=
  2 ≤ summaries.length ∧
    summaries.IsChain fun a b => SECTION_CHUNK_THRESHOLD_CHARS < mergeChars dialect language [a, b]

theorem length_batchesOf_eq_iff {summaries : List Value} (hlen : 2 ≤ summaries.length) :
    (batchesOf dialect language summaries).length = summaries.length ↔
      Stuck dialect language summaries := by
  have hpair : ∀ a b, overThreshold dialect language [a] b = true ↔
      SECTION_CHUNK_THRESHOLD_CHARS < mergeChars dialect language [a, b] := by
    intro a b
    simp [overThreshold]
  cases summaries with
  | nil => simp at hlen
  | cons first rest =>
    have hiff : (runsFrom (overThreshold dialect language) [first] rest).length =
        rest.length + 1 ↔ _ := length_runsFrom_eq_iff
    simp only [hpair] at hiff
    rw [List.length_cons, Stuck, ← hiff]
    exact (and_iff_right hlen).symm

/-- A successful round keeps the number of summaries only when it is stuck, and
then it changes nothing. -/
theorem mergeRound_ok {summaries next : List Value} {log log' : LlmLog}
    (h : mergeRound dialect language llm summaries [] log = (.ok next, log')) :
    next.length ≤ summaries.length ∧
      (2 ≤ summaries.length → next.length = summaries.length →
        Stuck dialect language summaries ∧ next = summaries) := by
  obtain ⟨calls, _, hspec⟩ := mergeRound_spec dialect language llm summaries [] log
  rw [h] at hspec
  obtain ⟨more, hmore, hjoined⟩ := hspec.joined next rfl
  obtain rfl : next = more := by simpa using hmore
  have hlen : (batchesOf dialect language summaries).length = next.length := hjoined.length_eq
  refine ⟨hlen ▸ length_runs_le _ summaries, fun htwo heq => ?_⟩
  have hstuck := (length_batchesOf_eq_iff htwo).mp (hlen.trans heq)
  refine ⟨hstuck, ?_⟩
  -- all batches are single summaries, which are carried over
  cases summaries with
  | nil => simp at htwo
  | cons first rest =>
    have hchain : List.IsChain (fun a b => overThreshold dialect language [a] b = true)
        (first :: rest) := by
      refine hstuck.2.imp fun a b hab => ?_
      simpa [overThreshold] using hab
    have hsingle : batchesOf dialect language (first :: rest) =
        (first :: rest).map fun v => [v] := runsFrom_eq_map_singleton hchain
    rw [hsingle, List.forall₂_map_left_iff] at hjoined
    refine (List.forall₂_eq_eq_eq ▸ hjoined.imp fun v w hvw => ?_ : first :: rest = next).symm
    rcases hvw with heq | hcall
    · simpa using heq
    · simp at hcall

def estimateSummaries (summaries : List Value) : Nat :=
  (summaries.map estimateChunkSummaryChars).sum

/-- The `while` loop: rounds until one summary is left. -/
def mergeLoop (dialect : MarkdownDialect) (language : String) (llm : LlmProvider)
    (summaries : List Value) (log : LlmLog) : Except MergeError Value × LlmLog :=
  if _h : 1 < summaries.length then
    match _hround : mergeRound dialect language llm summaries [] log with
    | (.error e, log) => (.error e, log)
    | (.ok next, log) =>
      if _hsame : next.length = summaries.length ∧
          estimateSummaries summaries ≤ estimateSummaries next then
        (.error (.reduction
          "merge LLM call failed: chunk summaries cannot be reduced within context threshold"),
          log)
      else mergeLoop dialect language llm next log
  else
    -- `summaries.remove(0)`; the list is never empty here
    (.ok (summaries.headD .null), log)
termination_by summaries.length
decreasing_by
  obtain ⟨hle, hkeep⟩ := mergeRound_ok llm _hround
  rcases Nat.lt_or_eq_of_le hle with hlt | heq
  · exact hlt
  · obtain ⟨_, rfl⟩ := hkeep _h heq
    exact absurd ⟨rfl, Nat.le_refl _⟩ _hsame

def mergeChunkSummaries (dialect : MarkdownDialect) (language : String) (llm : LlmProvider)
    (summaries : List Value) (log : LlmLog) : Except MergeError Value × LlmLog :=
  match summaries with
  | [] => (.error (.reduction "merge LLM call failed: no chunk summaries"), log)
  | [v] => (.ok v, log)
  | summaries => mergeLoop dialect language llm summaries log

/-- The summaries and the log at the start of some round of a run. -/
inductive Reaches (dialect : MarkdownDialect) (language : String) (llm : LlmProvider) :
    List Value → LlmLog → List Value → LlmLog → Prop
  | refl (summaries : List Value) (log : LlmLog) :
      Reaches dialect language llm summaries log summaries log
  | step {summaries next current : List Value} {log log' log'' : LlmLog} :
      2 ≤ summaries.length → ¬ Stuck dialect language summaries →
      mergeRound dialect language llm summaries [] log = (.ok next, log') →
      Reaches dialect language llm next log' current log'' →
      Reaches dialect language llm summaries log current log''

/-- Some round of the run could not join any two neighbours. -/
def GetsStuck (dialect : MarkdownDialect) (language : String) (llm : LlmProvider)
    (summaries : List Value) (log : LlmLog) : Prop :=
  ∃ current log', Reaches dialect language llm summaries log current log' ∧
    Stuck dialect language current

/-- One turn of the loop, with the test on the estimates replaced by what it
detects. -/
theorem mergeLoop_eq {summaries : List Value} (h : 2 ≤ summaries.length) (log : LlmLog) :
    mergeLoop dialect language llm summaries log =
      match mergeRound dialect language llm summaries [] log with
      | (.error e, log) => (.error e, log)
      | (.ok next, log) =>
        if next.length = summaries.length then
          (.error (.reduction
            "merge LLM call failed: chunk summaries cannot be reduced within context threshold"),
            log)
        else mergeLoop dialect language llm next log := by
  have hlt : 1 < summaries.length := h
  rw [mergeLoop, dif_pos hlt]
  split
  · next e log' hround => rw [hround]
  · next next log' hround =>
    rw [hround]
    by_cases heq : next.length = summaries.length
    · obtain ⟨_, rfl⟩ := (mergeRound_ok llm hround).2 h heq
      simp
    · simp [heq]

/-- What a run of the loop did. -/
structure LoopSpec (dialect : MarkdownDialect) (language : String) (llm : LlmProvider)
    (summaries : List Value) (log calls : LlmLog) (result : Except MergeError Value) : Prop where
  count : calls.length + 1 ≤ summaries.length
  requests : ∀ e ∈ calls, IsMergeRequest dialect language e.query
  reduction : ReductionError result ↔
    AnsweredText calls ∨ GetsStuck dialect language llm summaries log
  failure : ProviderError result ↔ AnsweredError calls
  tree : ∀ v, result = .ok v → ∀ (all : LlmLog) (trees : List (MergeTree Value)),
    (∀ e ∈ calls, e ∈ all) → trees.map MergeTree.root = summaries →
    MergeTree.ValidAll (Joins dialect language all) trees →
    ∃ tree : MergeTree Value, tree.Valid (Joins dialect language all) ∧
      tree.leaves = MergeTree.leavesAll trees ∧ tree.root = v

/-- Where a round errs, or comes back shorter, the summaries were not stuck. -/
theorem not_stuck_of_mergeRound {summaries : List Value} {log : LlmLog}
    (h : ∀ next, (mergeRound dialect language llm summaries [] log).1 = .ok next →
      next.length ≠ summaries.length) :
    ¬ Stuck dialect language summaries := by
  intro hstuck
  obtain ⟨calls, _, hspec⟩ := mergeRound_spec dialect language llm summaries [] log
  have hlen := (length_batchesOf_eq_iff hstuck.1).mpr hstuck
  have hcount := hspec.count
  rw [flatten_batchesOf] at hcount
  cases hresult : (mergeRound dialect language llm summaries [] log).1 with
  | error err =>
    have hcalls := List.length_pos_iff.mpr (hspec.failed err hresult)
    omega
  | ok next =>
    obtain ⟨more, hmore, hjoined⟩ := hspec.joined next hresult
    have hnext : next.length = more.length := by simpa using congrArg List.length hmore
    exact h next hresult (by rw [hnext, ← hjoined.length_eq, hlen])

theorem getsStuck_iff_of_ok {summaries next : List Value} {log log' : LlmLog}
    (htwo : 2 ≤ summaries.length) (hstuck : ¬ Stuck dialect language summaries)
    (hround : mergeRound dialect language llm summaries [] log = (.ok next, log')) :
    GetsStuck dialect language llm summaries log ↔ GetsStuck dialect language llm next log' := by
  constructor
  · intro h
    obtain ⟨current, log'', hreach, hcurrent⟩ := h
    cases hreach with
    | refl => exact absurd hcurrent hstuck
    | step _ _ hround' hrest =>
      rw [hround] at hround'
      obtain ⟨rfl, rfl⟩ : next = _ ∧ log' = _ := by simpa using hround'
      exact ⟨current, log'', hrest, hcurrent⟩
  · intro h
    obtain ⟨current, log'', hreach, hcurrent⟩ := h
    exact ⟨current, log'', .step htwo hstuck hround hreach, hcurrent⟩

theorem not_getsStuck_of_error {summaries : List Value} {log log' : LlmLog} {err : MergeError}
    (hround : mergeRound dialect language llm summaries [] log = (.error err, log')) :
    ¬ GetsStuck dialect language llm summaries log := by
  intro h
  obtain ⟨current, log'', hreach, hcurrent⟩ := h
  cases hreach with
  | refl =>
    have herr : ∀ next, (mergeRound dialect language llm summaries [] log).1 = .ok next →
        next.length ≠ summaries.length := by simp [hround]
    exact not_stuck_of_mergeRound llm herr hcurrent
  | step _ _ hround' _ => simp [hround] at hround'

theorem not_getsStuck_singleton (v : Value) (log : LlmLog) :
    ¬ GetsStuck dialect language llm [v] log := by
  intro h
  obtain ⟨current, log', hreach, hcurrent⟩ := h
  cases hreach with
  | refl => simp [Stuck] at hcurrent
  | step htwo _ _ _ => simp at htwo

theorem loopSpec_singleton (v : Value) (log : LlmLog) :
    LoopSpec dialect language llm [v] log [] (.ok v) where
  count := Nat.le_refl 1
  requests := by simp
  reduction := by simp [ReductionError, AnsweredText, not_getsStuck_singleton]
  failure := by simp [ProviderError, AnsweredError]
  tree := by
    intro w hw all trees _ hroots hvalid
    obtain rfl : v = w := by simpa using hw
    obtain ⟨tree, rfl, hroot⟩ := List.map_eq_singleton_iff.mp hroots
    exact ⟨tree, hvalid.1, by simp [MergeTree.leavesAll], hroot⟩

theorem mergeLoop_spec (summaries : List Value) : ∀ (log : LlmLog), summaries ≠ [] →
    ∃ calls, (mergeLoop dialect language llm summaries log).2 = log ++ calls ∧
      LoopSpec dialect language llm summaries log calls
        (mergeLoop dialect language llm summaries log).1 := by
  induction hn : summaries.length using Nat.strong_induction_on generalizing summaries with
  | _ n ih =>
    intro log hne
    have hpos : 0 < summaries.length := List.length_pos_iff.mpr hne
    by_cases htwo : 2 ≤ summaries.length
    · rw [mergeLoop_eq llm htwo]
      obtain ⟨calls, hlog, hspec⟩ := mergeRound_spec dialect language
        llm summaries [] log
      have hcount := hspec.count
      rw [flatten_batchesOf] at hcount
      have hbatches : 0 < (batchesOf dialect language summaries).length := by
        have hflat := flatten_batchesOf dialect language summaries
        refine List.length_pos_iff.mpr fun hnil => hne ?_
        rw [← hflat, hnil, List.flatten_nil]
      cases hround : mergeRound dialect language llm summaries [] log with
      | mk result log' =>
        rw [hround] at hspec hlog
        simp only at hlog hspec
        subst hlog
        cases result with
        | error err =>
          refine ⟨calls, rfl, ?_⟩
          have hnot := not_getsStuck_of_error llm hround
          exact
            { count := by omega
              requests := hspec.requests
              reduction := by
                rw [← hspec.text, or_iff_left hnot]
                simp [ReductionError]
              failure := by
                rw [← hspec.failure]
                simp [ProviderError]
              tree := by simp }
        | ok next =>
          have hnoText : ¬ AnsweredText calls := by
            rw [← hspec.text]
            simp [ReductionError]
          have hnoError : ¬ AnsweredError calls := by
            rw [← hspec.failure]
            simp [ProviderError]
          obtain ⟨more, hmore, hjoined⟩ := hspec.joined next rfl
          obtain rfl : next = more := by simpa using hmore
          have hlen := hjoined.length_eq
          by_cases heq : next.length = summaries.length
          · have hstuck := ((mergeRound_ok llm hround).2 htwo heq).1
            simp only [heq, if_true]
            refine ⟨calls, rfl, ?_⟩
            exact
              { count := by omega
                requests := hspec.requests
                reduction := by
                  have hgets : GetsStuck dialect language llm summaries log :=
                    ⟨summaries, log, .refl _ _, hstuck⟩
                  simp [ReductionError, MergeError.reduction, hgets]
                failure := by simp [ProviderError, MergeError.reduction, hnoError]
                tree := by simp }
          · have hlt : next.length < n := by omega
            have hnext : next ≠ [] := by
              intro hnil
              rw [hnil, List.length_nil] at hlen
              omega
            have hstuck : ¬ Stuck dialect language summaries :=
              @not_stuck_of_mergeRound _ _ llm _ log fun other hother => by
                rw [hround] at hother
                obtain rfl : next = other := by simpa using hother
                exact heq
            obtain ⟨calls', hlog', hrest⟩ := ih next.length hlt next rfl (log ++ calls) hnext
            simp only [heq, if_false]
            refine ⟨calls ++ calls', by rw [hlog', List.append_assoc], ?_⟩
            have hcount' := hrest.count
            refine
              { count := by
                  rw [List.length_append]
                  omega
                requests := fun e he => (List.mem_append.mp he).elim (hspec.requests e)
                  (hrest.requests e)
                reduction := by
                  rw [hrest.reduction, answeredText_append,
                    getsStuck_iff_of_ok llm htwo hstuck hround]
                  simp [hnoText]
                failure := by rw [hrest.failure, answeredError_append, or_iff_right hnoError]
                tree := fun v hv all trees hall hroots hvalid => ?_ }
            -- the trees of this round carry the roots of the next
            have hjoinedAll : List.Forall₂ (Joined dialect language all)
                (batchesOf dialect language summaries) next :=
              hjoined.imp fun batch w hw => hw.mono fun e he => hall e (List.mem_append_left _ he)
            obtain ⟨trees', hroots', hleaves', hvalid'⟩ := MergeTree.exists_joined hjoinedAll
              (hroots.trans (flatten_batchesOf dialect language summaries).symm) hvalid
            obtain ⟨tree, htree, hleaves, hroot⟩ := hrest.tree v hv all trees'
              (fun e he => hall e (List.mem_append_right _ he)) hroots' hvalid'
            exact ⟨tree, htree, hleaves.trans hleaves', hroot⟩
    · obtain ⟨v, rfl⟩ := List.length_eq_one_iff.mp (show summaries.length = 1 by omega)
      have hdone : mergeLoop dialect language llm [v] log = (.ok v, log) := by
        rw [mergeLoop, dif_neg (by simp)]
        rfl
      rw [hdone]
      exact ⟨[], by simp, loopSpec_singleton llm v log⟩

variable (dialect language) in
theorem mergeChunkSummaries_spec (first : Value) (rest : List Value) (log : LlmLog) :
    ∃ calls, (mergeChunkSummaries dialect language llm (first :: rest) log).2 = log ++ calls ∧
      LoopSpec dialect language llm (first :: rest) log calls
        (mergeChunkSummaries dialect language llm (first :: rest) log).1 := by
  cases rest with
  | nil => exact ⟨[], by simp [mergeChunkSummaries], loopSpec_singleton llm first log⟩
  | cons second rest =>
    exact mergeLoop_spec llm (first :: second :: rest) log (List.cons_ne_nil _ _)

end

end Pipeline
end Panops
