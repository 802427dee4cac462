import Panops.Capture.StreamSource

/-!
# The sidecar

The main loop of the capture sidecar: a request a line, one capture at a time, and what
is left at the end is stopped.
-/

namespace Panops
namespace Capture

open Lib.Serde

variable {τ : Type}

structure JsonRpcError where
  code : Int
  message : String
deriving DecidableEq

structure StoppedResult where
  systemAudioPath : Option String
  micAudioPath : Option String
  screenshotPaths : List String
  durationMs : UInt64
deriving DecidableEq

inductive CaptureReply where
  | started (startedAtMs : UInt64)
  | stopped (result : StoppedResult)
deriving DecidableEq

structure JsonRpcResponse where
  id : Option UInt64
  outcome : Except JsonRpcError CaptureReply

/-- A capture.  The number of its recorder is not in the source. -/
structure CaptureSession where
  meetingId : String
  recorder : Nat
  systemPath : Option String
  micPath : Option String
  screenshotter : Bool
deriving DecidableEq

/-- `audio_sources` is not asked for without a path for it. -/
def recorderInit (plan : TrackPlan) (systemPath micPath : Option String) :
    Except CaptureFailure Unit :=
  if plan.wantsSystem = true ∧ systemPath = none then
    .error (.invalidParams "missing system_audio_path for requested system audio")
  else if plan.wantsMic = true ∧ micPath = none then
    .error (.invalidParams "missing mic_audio_path for requested microphone audio")
  else .ok ()

/-- An opaque code: what the system says is not sent. -/
def failureCode : CaptureFailure → JsonRpcError
  | .noDisplay => ⟨-32000, "no display available"⟩
  | .permissionDenied what =>
    if what = "microphone" then ⟨-32002, "microphone"⟩ else ⟨-32001, "screen recording"⟩
  | .invalidParams message => ⟨-32602, message⟩
  | .other _ => ⟨-32000, "capture failed"⟩

/-- What the system does for a line: the files are opened, the content is looked up, the
stream starts at a time; or it stops, with the screenshots kept and the duration. -/
structure Circumstances where
  opens : Except CaptureFailure Unit
  content : Except CaptureFailure SCShareableContent
  starts : Except CaptureFailure UInt64
  stops : Except CaptureFailure (List String × UInt64)

/-- How text is read and written.  An error is made of a number and a text, and can be
encoded. -/
structure Host (τ : Type) where
  parse : String → Option Value
  single : Codec τ
  encodes : JsonRpcResponse → Bool
  encodes_error : ∀ id e, encodes ⟨id, .error e⟩ = true

/-- What is done while lines are read. -/
inductive Act where
  | started (session : CaptureSession) (view : View)
  | stopped (session : CaptureSession)
  | responded (response : JsonRpcResponse)

section Loop

variable (h : Host τ)

def emitError (id : Option UInt64) (e : JsonRpcError) : List Act :=
  if h.encodes ⟨id, .error e⟩ then [.responded ⟨id, .error e⟩] else []

def emit (id : Option UInt64) (reply : CaptureReply) : List Act :=
  if h.encodes ⟨id, .ok reply⟩ then [.responded ⟨id, .ok reply⟩]
  else emitError h id ⟨-32603, "response send failed"⟩

/-- A recorder is made and started. -/
def openCapture (c : Circumstances) (params : CaptureParams τ) :
    Except CaptureFailure (View × UInt64) := do
  recorderInit params.plan params.systemAudioPath params.micAudioPath
  c.opens
  let content ← c.content
  let view ← captured content params.target
  let startedAtMs ← c.starts
  .ok (view, startedAtMs)

/-- The tracks of a recorder, and its screenshots when there is no video. -/
def sessionOf (meetingId : String) (recorder : Nat) (params : CaptureParams τ) :
    CaptureSession where
  meetingId := meetingId
  recorder := recorder
  systemPath := if params.plan.wantsSystem then params.systemAudioPath else none
  micPath := if params.plan.wantsMic then params.micAudioPath else none
  screenshotter := decide (params.recordVideo ≠ some true)

def captureStart (n : Nat) (c : Circumstances) (current : Option CaptureSession)
    (id : Option UInt64) (params : CaptureParams τ) : Option CaptureSession × List Act :=
  match params.meetingId with
  | none => (current, emitError h id ⟨-32602, "missing meeting_id"⟩)
  | some meetingId =>
    match current with
    | some session => (some session, emitError h id ⟨-32000, "capture already running"⟩)
    | none =>
      match openCapture c params with
      | .error failure => (none, emitError h id (failureCode failure))
      | .ok (view, startedAtMs) =>
        (some (sessionOf meetingId n params),
          .started (sessionOf meetingId n params) view :: emit h id (.started startedAtMs))

/-- The answer to the stop of a session. -/
def stoppedResult (session : CaptureSession) (kept : List String) (durationMs : UInt64) :
    StoppedResult where
  systemAudioPath := session.systemPath
  micAudioPath := session.micPath
  screenshotPaths := if session.screenshotter then kept else []
  durationMs := durationMs

def captureStop (c : Circumstances) (current : Option CaptureSession) (id : Option UInt64)
    (params : CaptureParams τ) : Option CaptureSession × List Act :=
  match params.meetingId, current with
  | some meetingId, some session =>
    if session.meetingId = meetingId then
      match c.stops with
      | .error failure => (none, .stopped session :: emitError h id (failureCode failure))
      | .ok (kept, durationMs) =>
        (none, .stopped session :: emit h id (.stopped (stoppedResult session kept durationMs)))
    else (some session, emitError h id ⟨-32004, "session not found"⟩)
  | _, current => (current, emitError h id ⟨-32004, "session not found"⟩)

/-- What a line says, `none` when it is not JSON. -/
def handleMessage (n : Nat) (c : Circumstances) (current : Option CaptureSession)
    (message : Option Value) : Option CaptureSession × List Act :=
  match message.bind (decodeJsonRpcRequest h.single) with
  | none => (current, emitError h none ⟨-32700, "parse error"⟩)
  | some request =>
    match request.params.head? with
    | none => (current, emitError h request.id ⟨-32602, "missing params"⟩)
    | some params =>
      match request.method with
      | "capture.start" => captureStart h n c current request.id params
      | "capture.stop" => captureStop h c current request.id params
      | _ => (current, emitError h request.id ⟨-32601, "method not found"⟩)

def handleLine (n : Nat) (c : Circumstances) (current : Option CaptureSession) (line : String) :
    Option CaptureSession × List Act :=
  if line = "" then (current, []) else handleMessage h n c current (h.parse line)

/-- The loop over the lines from the `n`-th on, until the input ends or the sidecar is
told to shut down. -/
def serve : Nat → Option CaptureSession → List (String × Circumstances) →
    Option CaptureSession × List Act
  | _, current, [] => (current, [])
  | n, current, (line, c) :: lines =>
    let handled := handleLine h n c current line
    let rest := serve (n + 1) handled.1 lines
    (rest.1, handled.2 ++ rest.2)

/-- What is left when the loop ends is stopped, whatever comes of it. -/
def cleanup : Option CaptureSession → List Act
  | some session => [.stopped session]
  | none => []

/-- All that a sidecar does. -/
def runSidecar (lines : List (String × Circumstances)) : List Act :=
  (serve h 0 none lines).2 ++ cleanup (serve h 0 none lines).1

end Loop

/-! ## What a line can do -/

/-- The request of a line, none where it cannot be read. -/
def requestOf (h : Host τ) (line : String) : Option (JsonRpcRequest τ) :=
  (h.parse line).bind (decodeJsonRpcRequest h.single)

/-- The line asks for the session, and the view is what is shown for it. -/
def OpenedBy (h : Host τ) (line : String) (c : Circumstances) (n : Nat) (session : CaptureSession)
    (view : View) : Prop :=
  ∃ request params meetingId startedAtMs, requestOf h line = some request ∧
    request.method = "capture.start" ∧ request.params.head? = some params ∧
    params.meetingId = some meetingId ∧ openCapture c params = .ok (view, startedAtMs) ∧
    session = sessionOf meetingId n params

/-- A success tells of the call that was made for it. -/
def Answers : Act → CaptureReply → Prop
  | .started .., .started _ => True
  | .stopped session, .stopped result =>
    ∃ kept durationMs, result = stoppedResult session kept durationMs
  | _, _ => False

/-- One constructor for each way of handling a line. -/
inductive Handles (h : Host τ) (n : Nat) (c : Circumstances) (line : String) :
    Option CaptureSession → List Act → Option CaptureSession → Prop
  | skipped {current : Option CaptureSession} : line = "" → Handles h n c line current [] current
  | refused {current : Option CaptureSession} {e : JsonRpcError} :
      line ≠ "" →
      Handles h n c line current [.responded ⟨(requestOf h line).bind (·.id), .error e⟩] current
  | started {session : CaptureSession} {view : View} {outcome : Except JsonRpcError CaptureReply} :
      line ≠ "" → OpenedBy h line c n session view →
      (∀ reply, outcome = .ok reply → Answers (.started session view) reply) →
      Handles h n c line none
        [.started session view, .responded ⟨(requestOf h line).bind (·.id), outcome⟩]
        (some session)
  | stopped {session : CaptureSession} {outcome : Except JsonRpcError CaptureReply} :
      line ≠ "" → (∀ reply, outcome = .ok reply → Answers (.stopped session) reply) →
      Handles h n c line (some session)
        [.stopped session, .responded ⟨(requestOf h line).bind (·.id), outcome⟩] none

theorem emitError_eq (h : Host τ) (id : Option UInt64) (e : JsonRpcError) :
    emitError h id e = [.responded ⟨id, .error e⟩] := by
  rw [emitError, if_pos (h.encodes_error id e)]

/-- What is sent is the reply, or an error instead of it. -/
theorem exists_emit_eq (h : Host τ) (id : Option UInt64) (reply : CaptureReply) :
    ∃ outcome, emit h id reply = [.responded ⟨id, outcome⟩] ∧
      ∀ reply', outcome = .ok reply' → reply' = reply := by
  by_cases hencodes : h.encodes ⟨id, .ok reply⟩ = true
  · refine ⟨.ok reply, by rw [emit, if_pos hencodes], ?_⟩
    intro reply' hreply
    exact (Except.ok.inj hreply).symm
  · refine ⟨_, by rw [emit, if_neg hencodes, emitError_eq], ?_⟩
    intro reply' hreply
    cases hreply

variable {h : Host τ} {n : Nat} {c : Circumstances} {line : String}

theorem handles_emitError {request : JsonRpcRequest τ} (hline : line ≠ "")
    (hrequest : requestOf h line = some request) (current : Option CaptureSession)
    (e : JsonRpcError) : Handles h n c line current (emitError h request.id e) current := by
  have hhere : Handles h n c line current
      [.responded ⟨(requestOf h line).bind (·.id), .error e⟩] current := .refused hline
  rw [hrequest] at hhere
  rw [emitError_eq]
  exact hhere

theorem handles_captureStart {current : Option CaptureSession} {request : JsonRpcRequest τ}
    {params : CaptureParams τ} (hline : line ≠ "") (hrequest : requestOf h line = some request)
    (hmethod : request.method = "capture.start") (hparams : request.params.head? = some params) :
    Handles h n c line current (captureStart h n c current request.id params).2
      (captureStart h n c current request.id params).1 := by
  unfold captureStart
  cases hmeeting : params.meetingId with
  | none => exact handles_emitError hline hrequest current _
  | some meetingId =>
    cases current with
    | some session => exact handles_emitError hline hrequest (some session) _
    | none =>
      cases hopen : openCapture c params with
      | error failure => exact handles_emitError hline hrequest none _
      | ok opened =>
        obtain ⟨outcome, hemit, hreply⟩ := exists_emit_eq h request.id (.started opened.2)
        have hopened : OpenedBy h line c n (sessionOf meetingId n params) opened.1 :=
          ⟨request, params, meetingId, opened.2, hrequest, hmethod, hparams, hmeeting, hopen, rfl⟩
        have hhere := @Handles.started _ h n c line _ _ outcome hline hopened fun reply heq => by
          rw [hreply reply heq]
          exact trivial
        rw [hrequest] at hhere
        show Handles h n c line none (.started _ opened.1 :: emit h request.id _) _
        rw [hemit]
        exact hhere

theorem handles_captureStop {current : Option CaptureSession} {request : JsonRpcRequest τ}
    {params : CaptureParams τ} (hline : line ≠ "") (hrequest : requestOf h line = some request) :
    Handles h n c line current (captureStop h c current request.id params).2
      (captureStop h c current request.id params).1 := by
  have hnotFound := handles_emitError (n := n) (c := c) hline hrequest current
    ⟨-32004, "session not found"⟩
  unfold captureStop
  cases params.meetingId with
  | none => exact hnotFound
  | some meetingId =>
    cases current with
    | none => exact hnotFound
    | some session =>
      by_cases hid : session.meetingId = meetingId
      · simp only [if_pos hid]
        cases c.stops with
        | error failure =>
          have hhere := @Handles.stopped _ h n c line session (.error (failureCode failure))
            hline fun _ heq => by cases heq
          rw [hrequest] at hhere
          show Handles h n c line _ (.stopped session :: emitError h request.id _) none
          rw [emitError_eq]
          exact hhere
        | ok stopped =>
          obtain ⟨outcome, hemit, hreply⟩ := exists_emit_eq h request.id
            (.stopped (stoppedResult session stopped.1 stopped.2))
          have hhere := @Handles.stopped _ h n c line session outcome hline
            fun reply heq => by
              rw [hreply reply heq]
              exact ⟨_, _, rfl⟩
          rw [hrequest] at hhere
          show Handles h n c line _ (.stopped session :: emit h request.id _) none
          rw [hemit]
          exact hhere
      · simp only [if_neg hid]
        exact hnotFound

theorem handles_handleLine (h : Host τ) (n : Nat) (c : Circumstances)
    (current : Option CaptureSession) (line : String) :
    Handles h n c line current (handleLine h n c current line).2
      (handleLine h n c current line).1 := by
  unfold handleLine
  by_cases hline : line = ""
  · rw [if_pos hline]
    exact .skipped hline
  · rw [if_neg hline, handleMessage]
    cases hrequest : (h.parse line).bind (decodeJsonRpcRequest h.single) with
    | none =>
      have hhere : Handles h n c line current
          [.responded ⟨(requestOf h line).bind (·.id), .error ⟨-32700, "parse error"⟩⟩] current :=
        .refused hline
      rw [requestOf, hrequest] at hhere
      show Handles h n c line current (emitError h none _) current
      rw [emitError_eq]
      exact hhere
    | some request =>
      cases hparams : request.params.head? with
      | none =>
        simp only [hparams]
        exact handles_emitError hline hrequest current _
      | some params =>
        simp only [hparams]
        split
        · next hmethod => exact handles_captureStart hline hrequest hmethod hparams
        · exact handles_captureStop hline hrequest
        · exact handles_emitError hline hrequest current _

/-! ## Whole runs -/

inductive RecorderCall where
  | start (session : CaptureSession)
  | stop (session : CaptureSession)
deriving DecidableEq

def Act.recorderCall : Act → Option RecorderCall
  | .started session _ => some (.start session)
  | .stopped session => some (.stop session)
  | .responded _ => none

def Act.response : Act → Option JsonRpcResponse
  | .responded response => some response
  | _ => none

/-- A recorder is started and then stopped, before the next one. -/
def startStop (session : CaptureSession) : List RecorderCall := [.start session, .stop session]

/-- Every success comes right after the call that it tells of. -/
def Truthful : Option Act → List Act → Prop
  | _, [] => True
  | before, act :: acts =>
    (∀ id reply, act = .responded ⟨id, .ok reply⟩ →
      ∃ call, before = some call ∧ Answers call reply) ∧ Truthful (some act) acts

theorem truthful_append {before : Option Act} {first second : List Act}
    (hfirst : Truthful before first) (hsecond : ∀ before, Truthful before second) :
    Truthful before (first ++ second) := by
  induction first generalizing before with
  | nil => exact hsecond before
  | cons act acts ih => exact ⟨hfirst.1, ih hfirst.2⟩

theorem truthful_cons {before : Option Act} {act : Act} {acts : List Act}
    (hact : ∀ id reply, act ≠ .responded ⟨id, .ok reply⟩) (hacts : Truthful (some act) acts) :
    Truthful before (act :: acts) :=
  ⟨fun id reply heq => absurd heq (hact id reply), hacts⟩

theorem truthful_cleanup (current : Option CaptureSession) (before : Option Act) :
    Truthful before (cleanup current) := by
  cases current with
  | none => trivial
  | some session => exact truthful_cons (fun _ _ heq => by cases heq) trivial

/-- A call, and what is said of it. -/
theorem truthful_answered {before : Option Act} {call : Act} {id : Option UInt64}
    {outcome : Except JsonRpcError CaptureReply}
    (hcall : ∀ id reply, call ≠ .responded ⟨id, .ok reply⟩)
    (hanswers : ∀ reply, outcome = .ok reply → Answers call reply) :
    Truthful before [call, .responded ⟨id, outcome⟩] := by
  refine truthful_cons hcall ⟨fun id' reply heq => ⟨call, rfl, hanswers reply ?_⟩, trivial⟩
  exact (JsonRpcResponse.mk.inj (Act.responded.inj heq)).2

theorem Handles.truthful {current next : Option CaptureSession} {acts : List Act}
    (hhandles : Handles h n c line current acts next) (before : Option Act) :
    Truthful before acts := by
  cases hhandles with
  | skipped => trivial
  | refused => exact truthful_cons (fun _ _ heq => by cases heq) trivial
  | started hline hopened hanswers =>
    exact truthful_answered (fun _ _ heq => by cases heq) hanswers
  | stopped hline hanswers => exact truthful_answered (fun _ _ heq => by cases heq) hanswers

theorem Handles.responses {current next : Option CaptureSession} {acts : List Act}
    (hhandles : Handles h n c line current acts next) :
    (acts.filterMap Act.response).map (·.id) =
      if line = "" then [] else [(requestOf h line).bind (·.id)] := by
  cases hhandles with
  | skipped hline => rw [if_pos hline]; rfl
  | refused hline | started hline | stopped hline => rw [if_neg hline]; rfl

/-- The sessions that a run opens, each by its line. -/
def OpensInOrder (h : Host τ) (lines : List (String × Circumstances)) (n : Nat)
    (sessions : List CaptureSession) : Prop :=
  (sessions.map (·.recorder)).Pairwise (· < ·) ∧
    ∀ session ∈ sessions, ∃ i line c view, session.recorder = n + i ∧
      lines[i]? = some (line, c) ∧ OpenedBy h line c session.recorder session view

theorem OpensInOrder.nil {lines : List (String × Circumstances)} : OpensInOrder h lines n [] :=
  ⟨.nil, nofun⟩

theorem OpensInOrder.le {lines : List (String × Circumstances)} {sessions : List CaptureSession}
    (hopens : OpensInOrder h lines n sessions) {session : CaptureSession}
    (hmem : session ∈ sessions) : n ≤ session.recorder := by
  obtain ⟨i, -, -, -, hrecorder, -⟩ := hopens.2 session hmem
  omega

/-- A line that opens nothing. -/
theorem OpensInOrder.tail {lines : List (String × Circumstances)}
    {sessions : List CaptureSession} (hopens : OpensInOrder h lines (n + 1) sessions)
    (first : String × Circumstances) : OpensInOrder h (first :: lines) n sessions := by
  refine ⟨hopens.1, fun session hmem => ?_⟩
  obtain ⟨i, line, c, view, hrecorder, hline, hopened⟩ := hopens.2 session hmem
  exact ⟨i + 1, line, c, view, by omega, hline, hopened⟩

theorem OpensInOrder.cons {lines : List (String × Circumstances)}
    {sessions : List CaptureSession} (hopens : OpensInOrder h lines (n + 1) sessions)
    {session : CaptureSession} {view : View} (hrecorder : session.recorder = n)
    (hopened : OpenedBy h line c n session view) :
    OpensInOrder h ((line, c) :: lines) n (session :: sessions) := by
  refine ⟨?_, fun other hmem => ?_⟩
  · rw [List.map_cons, List.pairwise_cons]
    refine ⟨fun recorder hmem => ?_, hopens.1⟩
    obtain ⟨other, hother, rfl⟩ := List.mem_map.mp hmem
    have hle := hopens.le hother
    omega
  · cases List.mem_cons.mp hmem with
    | inl heq =>
      rw [heq, hrecorder]
      exact ⟨0, line, c, view, rfl, rfl, hopened⟩
    | inr hrest => exact (hopens.tail (line, c)).2 other hrest

/-- The calls of a run: those for the session at its beginning, then pairs. -/
theorem serve_calls (h : Host τ) (lines : List (String × Circumstances)) (n : Nat)
    (current : Option CaptureSession) : ∃ sessions,
      ((serve h n current lines).2 ++ cleanup (serve h n current lines).1).filterMap
          Act.recorderCall =
        current.toList.map .stop ++ sessions.flatMap startStop ∧
      OpensInOrder h lines n sessions := by
  induction lines generalizing n current with
  | nil =>
    refine ⟨[], ?_, .nil⟩
    cases current with
    | none | some => rfl
  | cons first lines ih =>
    obtain ⟨line, c⟩ := first
    have hhandles := handles_handleLine h n c current line
    obtain ⟨sessions, hcalls, hopens⟩ := ih (n + 1) (handleLine h n c current line).1
    rw [serve]
    generalize handleLine h n c current line = handled at hhandles hcalls
    obtain ⟨next, acts⟩ := handled
    simp only [List.append_assoc, List.filterMap_append (l := acts), hcalls]
    cases hhandles with
    | skipped | refused => exact ⟨sessions, rfl, hopens.tail _⟩
    | @started session view outcome hline hopened =>
      have hrecorder : session.recorder = n := by
        obtain ⟨_, _, _, _, -, -, -, -, -, rfl⟩ := hopened
        rfl
      exact ⟨session :: sessions, rfl, hopens.cons hrecorder hopened⟩
    | stopped => exact ⟨sessions, rfl, hopens.tail _⟩

theorem truthful_serve (h : Host τ) (lines : List (String × Circumstances)) (n : Nat)
    (current : Option CaptureSession) (before : Option Act) :
    Truthful before (serve h n current lines).2 := by
  induction lines generalizing n current before with
  | nil => trivial
  | cons first lines ih =>
    exact truthful_append ((handles_handleLine h n first.2 current first.1).truthful before)
      fun before => ih (n + 1) _ before

/-- Every line that is not empty is answered under its own id. -/
theorem responses_serve (h : Host τ) (lines : List (String × Circumstances)) (n : Nat)
    (current : Option CaptureSession) :
    ((serve h n current lines).2.filterMap Act.response).map (·.id) =
      (lines.filter (·.1 ≠ "")).map fun l => (requestOf h l.1).bind (·.id) := by
  induction lines generalizing n current with
  | nil => rfl
  | cons first lines ih =>
    rw [serve, List.filterMap_append, List.map_append, ih,
      (handles_handleLine h n first.2 current first.1).responses]
    by_cases hline : first.1 = ""
    · rw [if_pos hline, List.filter_cons_of_neg (by simpa using hline)]
      rfl
    · rw [if_neg hline, List.filter_cons_of_pos (by simpa using hline)]
      rfl

/-- Over every input: a recorder that is started is stopped, once and before the next one
starts, when the input ends at the latest; lines are answered in their order and under their
ids; and a success tells of what was done. -/
theorem runSidecar_sessions (h : Host τ) (lines : List (String × Circumstances)) :
    (∃ sessions, (runSidecar h lines).filterMap Act.recorderCall = sessions.flatMap startStop ∧
      OpensInOrder h lines 0 sessions) ∧
    ((runSidecar h lines).filterMap Act.response).map (·.id) =
      (lines.filter (·.1 ≠ "")).map (fun l => (requestOf h l.1).bind (·.id)) ∧
    Truthful none (runSidecar h lines) := by
  refine ⟨serve_calls h lines 0 none, ?_, truthful_append (truthful_serve h lines 0 none none)
    (truthful_cleanup _)⟩
  have hquiet : ∀ current, (cleanup current).filterMap Act.response = [] := by
    intro current
    cases current with
    | none | some => rfl
  rw [runSidecar, List.filterMap_append, hquiet, List.append_nil]
  exact responses_serve h lines 0 none

end Capture
end Panops
