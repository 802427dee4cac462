import Mathlib.Data.List.Induction
import Panops.Mac.Sidecar

/-!
# Which response answers which request

The slot holds a process only while its output is aligned: as many lines are taken
from it as requests were written to it.
-/

namespace Panops
namespace Mac

open Lib.Lines

variable {α ρ ε : Type} {p : Protocol α ρ ε} {w : World α ρ}

/-- Everything that the process writes. -/
def World.output (w : World α ρ) (process : Nat) : List UInt8 :=
  (BufReader.mk [] (w.out process)).content

/-- The line is a response to request `id` with the result `r`. -/
def Answers (w : World α ρ) (args : α) (id : UInt64) (line : List UInt8) (r : ρ) : Prop :=
  ∃ text resp, utf8 line = some text ∧ w.fromStr args (trimEnd text) = .ok resp ∧
    resp.jsonrpc = "2.0" ∧ resp.id = some id ∧ resp.error = none ∧ resp.result = some r

/-- As many lines are taken from the process as requests were written to it. -/
def Aligned (w : World α ρ) (s : SidecarState) : Prop :=
  ∃ ls : List (List UInt8), ls.length = s.sent ∧ (∀ l ∈ ls, IsLine l) ∧
    w.output s.process = ls.flatten ++ s.stdout.content

/-- `req`, made of the adapter `a`, read the line that belongs to it from the
process `s`, or the slot was cleared. -/
def Exchanged (w : World α ρ) (args : α) (id : UInt64) (s : SidecarState)
    (out : Except ε ρ × Adapter) : Prop :=
  (out.2.state = none ∧ ∀ r, out.1 ≠ .ok r) ∨
  ∃ line s', out.2.state = some s' ∧ s'.process = s.process ∧ s'.sent = s.sent + 1 ∧
    IsLine line ∧ s.stdout.content = line ++ s'.stdout.content ∧
    (lines (w.output s.process))[s.sent]? = some line ∧
    ∀ r, out.1 = .ok r → Answers w args id line r

/-- What a request comes to.  One that is not written leaves the slot empty, when
no process could be started, or the process as it was; one that is written is
paired with its line. -/
def Paired (p : Protocol α ρ ε) (w : World α ρ) (a : Adapter) (req : Request α) : Prop :=
  match (ensureSpawned p w req a).1, p.encode req.args with
  | .error e, _ => (call p w a req).1 = .error e ∧ (call p w a req).2.state = none
  | .ok s, .error e => (call p w a req).1 = .error e ∧ (call p w a req).2.state = some s
  | .ok s, .ok () => Exchanged w req.args a.nextId s (call p w a req)

theorem respond_ok {args : α} {id : UInt64} {buf : List UInt8} {r : ρ} {keep : Bool}
    (h : respond p w args id buf = (.ok r, keep)) : keep = true ∧ Answers w args id buf r := by
  unfold respond at h
  split at h
  · cases h
  split at h
  · split at h
    · cases h
    · cases h
  split at h
  · cases h
  rename_i line hline
  split at h
  · cases h
  rename_i resp hresp
  split at h
  · cases h
  rename_i rid hrid
  split at h
  · cases h
  rename_i hid
  split at h
  · cases h
  rename_i herror
  split at h
  · rename_i r' hresult
    cases h
    unfold decode at hresp
    split at hresp
    · cases hresp
    rename_i resp' hfrom
    split at hresp
    · cases hresp
    rename_i hversion
    cases hresp
    refine ⟨rfl, line, resp, hline, hfrom, not_not.mp hversion, ?_, herror, hresult⟩
    rw [hrid, not_not.mp hid]
  · cases h

/-- Only a whole line leaves the slot filled. -/
theorem getLast_of_respond {args : α} {id : UInt64} {buf : List UInt8} {r : Except ε ρ}
    (h : respond p w args id buf = (r, true)) : buf.getLast? = some newline := by
  unfold respond at h
  split at h
  · cases h
  split at h
  · split at h
    · cases h
    · cases h
  · rename_i hlast
    exact not_not.mp hlast

theorem ensureSpawned_error {req : Request α} {a a' : Adapter} {e : ε}
    (h : ensureSpawned p w req a = (.error e, a')) : a'.state = none := by
  unfold ensureSpawned at h
  split at h
  · cases h
  rename_i hnone
  split at h
  · cases h
    exact hnone
  · split at h
    · cases h
      exact hnone
    · cases h

/-- A process that was just spawned has written nothing that was read. -/
theorem ensureSpawned_ok {req : Request α} {a a' : Adapter} {s : SidecarState}
    (ha : ∀ s, a.state = some s → Aligned w s)
    (h : ensureSpawned p w req a = (.ok s, a')) :
    a'.state = some s ∧ a'.nextId = a.nextId ∧ Aligned w s := by
  unfold ensureSpawned at h
  split at h
  · rename_i s' hs'
    cases h
    exact ⟨hs', rfl, ha s hs'⟩
  · split at h
    · cases h
    · split at h
      · cases h
      · cases h
        exact ⟨rfl, rfl, [], rfl, by simp, rfl⟩

/-- A line read from an aligned process is the one of the request just written. -/
theorem Aligned.next {s : SidecarState} (h : Aligned w s) {line : List UInt8} {r : BufReader}
    (hline : IsLine line) (hcontent : s.stdout.content = line ++ r.content) :
    Aligned w { s with sent := s.sent + 1, stdout := r } ∧
      (lines (w.output s.process))[s.sent]? = some line := by
  obtain ⟨ls, hlength, hlines, houtput⟩ := h
  constructor
  · refine ⟨ls ++ [line], by simp [hlength], ?_, ?_⟩
    · intro l hl
      rcases List.mem_append.mp hl with hl | hl
      · exact hlines l hl
      · rw [List.mem_singleton.mp hl]
        exact hline
    · show w.output s.process = _
      rw [houtput, hcontent]
      simp
  · rw [houtput, lines_flatten_append hlines, hcontent, lines_append hline, ← hlength]
    simp

theorem call_paired {a : Adapter} (ha : ∀ s, a.state = some s → Aligned w s) (req : Request α) :
    Paired p w a req ∧ ∀ s, (call p w a req).2.state = some s → Aligned w s := by
  have hcleared : ∀ {a' : Adapter} s, a'.clear.state = some s → Aligned w s := by
    intro a' s hs
    cases hs
  unfold Paired
  cases hspawn : ensureSpawned p w req a with
  | mk spawned a' =>
    cases spawned with
    | error e =>
      have hnone := ensureSpawned_error hspawn
      simp only [call, hspawn]
      exact ⟨⟨trivial, hnone⟩, fun s hs => absurd hs (by simp [hnone])⟩
    | ok s =>
      obtain ⟨hstate, hid, haligned⟩ := ensureSpawned_ok ha hspawn
      simp only [call, hspawn, hid]
      cases hencode : p.encode req.args with
      | error e =>
        refine ⟨⟨rfl, hstate⟩, fun s' hs' => ?_⟩
        have hsame : s = s' := Option.some.inj (hstate.symm.trans hs')
        rw [← hsame]
        exact haligned
      | ok u =>
        cases hwrite : req.write with
        | error e => exact ⟨Or.inl ⟨rfl, fun r hr => by cases hr⟩, hcleared⟩
        | ok u =>
          cases hread : p.read s.stdout with
          | mk got stdout =>
            cases got with
            | error e => exact ⟨Or.inl ⟨rfl, fun r hr => by cases hr⟩, hcleared⟩
            | ok buf =>
              obtain ⟨hcontent, hline⟩ := p.took hread
              simp only
              cases hrespond : respond p w req.args a.nextId buf with
              | mk r keep =>
                cases keep with
                | false =>
                  refine ⟨Or.inl ⟨rfl, ?_⟩, hcleared⟩
                  rintro r' hr
                  simp only at hr
                  rw [hr] at hrespond
                  cases (respond_ok hrespond).1
                | true =>
                  have hbuf := isLine_of_getLast hline (getLast_of_respond hrespond)
                  obtain ⟨hnext, hpaired⟩ := haligned.next hbuf hcontent.symm
                  refine ⟨Or.inr ⟨buf, _, rfl, rfl, rfl, hbuf, hcontent.symm, hpaired, ?_⟩, ?_⟩
                  · rintro r' hr
                    simp only at hr
                    rw [hr] at hrespond
                    exact (respond_ok hrespond).2
                  · rintro s' hs'
                    cases hs'
                    exact hnext

theorem aligned_run (reqs : List (Request α)) :
    ∀ s, (run p w reqs).state = some s → Aligned w s := by
  induction reqs using List.reverseRecOn with
  | nil =>
    intro s hs
    cases hs
  | append_singleton reqs req ih =>
    rw [run, List.foldl_append]
    exact (call_paired ih req).2

/-- After any requests, the next one of each adapter is paired with its line. -/
theorem requests_paired :
    (∀ (w : World String ρ) reqs req,
      Paired screenCaptureKit w (run screenCaptureKit w reqs) req) ∧
    (∀ (w : World TranscribeParams ρ) reqs req,
      Paired whisperKit w (run whisperKit w reqs) req) ∧
    (∀ (w : World String ρ) reqs req, Paired foundationLlm w (run foundationLlm w reqs) req) :=
  ⟨fun _ reqs req => (call_paired (aligned_run reqs) req).1,
    fun _ reqs req => (call_paired (aligned_run reqs) req).1,
    fun _ reqs req => (call_paired (aligned_run reqs) req).1⟩

/-! ## A request that is not written -/

/-- What is unread of the process that the next request goes to. -/
def unread (p : Protocol α ρ ε) (w : World α ρ) (a : Adapter) (req : Request α) : List UInt8 :=
  match (ensureSpawned p w req a).1 with
  | .ok s => s.stdout.content
  | .error _ => []

/-- The request cleared the slot, or took exactly one line. -/
def ClearsOrConsumes (p : Protocol α ρ ε) (w : World α ρ) (a : Adapter) (req : Request α) : Prop :=
  (call p w a req).2.state = none ∨
  ∃ line s, (call p w a req).2.state = some s ∧ IsLine line ∧
    unread p w a req = line ++ s.stdout.content

/-- A request for a file whose path is no text. -/
def unwritten : Request TranscribeParams where
  args := ⟨[0xFF], 16000, none⟩
  spawn := .ok ()
  setNonblocking := .ok ()
  write := .ok ()

/-- Processes that write one empty line. -/
def oneLine : World TranscribeParams Unit where
  out _ := [.bytes newline []]
  utf8Error _ := ""
  fromStr _ _ := .error ""
  errorPosition _ := none

/-- It is refused after the process was started, whose line stays unread. -/
theorem not_clearsOrConsumes : ¬ ∀ (w : World TranscribeParams Unit) reqs req,
    ClearsOrConsumes whisperKit w (run whisperKit w reqs) req := by
  intro h
  have hcall : ∃ s, (call whisperKit oneLine Adapter.new unwritten).2.state = some s ∧
      s.stdout.content = [newline] := ⟨_, rfl, rfl⟩
  obtain ⟨s, hstate, hcontent⟩ := hcall
  rcases h oneLine [] unwritten with hnone | ⟨line, s', hs', ⟨body, -, rfl⟩, hunread⟩
  · rw [show run whisperKit oneLine [] = Adapter.new from rfl, hstate] at hnone
    cases hnone
  · rw [show run whisperKit oneLine [] = Adapter.new from rfl, hstate] at hs'
    have hsame := Option.some.inj hs'
    have hlength := congrArg List.length hunread
    rw [← hsame, hcontent] at hlength
    have hone : (unread whisperKit oneLine (run whisperKit oneLine []) unwritten).length = 1 := rfl
    simp only [hone, List.length_append, List.length_singleton] at hlength
    omega

end Mac
end Panops
