/-!
# Programs over a database

A program is a sequence of statements on the tables of one connection.  Any
statement may fail for a reason outside the program, such as a full disk, and
then changes nothing; a transaction that is not committed is rolled back.
`wp` is the weakest precondition of a program, with or without such faults, and
its rules execute a program symbolically, one statement at a time.
-/

namespace Panops
namespace Lib
namespace Database

/-- The tables, and for each of the coming statements how it fails, if it does.
Statements past the end of the list do not fail. -/
structure Session (σ : Type) where
  tables : σ
  faults : List (Option String)

/-- A program with result `α` that may fail with `ε`; what it did until then
stays done. -/
def Db (σ ε α : Type) := Session σ → Except ε α × Session σ

namespace Db

variable {σ ε δ α β : Type}

instance : Monad (Db σ ε) where
  pure a := fun s => (.ok a, s)
  bind x f := fun s =>
    match x s with
    | (.ok a, s) => f a s
    | (.error e, s) => (.error e, s)

def throw (e : ε) : Db σ ε α := fun s => (.error e, s)

/-- One statement.  `fault` is the error for a failure of the database itself,
`run` what the statement does otherwise. -/
def statement (fault : String → ε) (run : σ → Except ε (α × σ)) : Db σ ε α := fun s =>
  match s.faults with
  | some message :: rest => (.error (fault message), { s with faults := rest })
  | _ =>
    match run s.tables with
    | .error e => (.error e, { s with faults := s.faults.tail })
    | .ok (a, t) => (.ok a, { tables := t, faults := s.faults.tail })

/-- A statement that only reads. -/
def query (fault : String → ε) (read : σ → α) : Db σ ε α :=
  statement fault fun t => .ok (read t, t)

/-- The outcome as a value. -/
def attempt (x : Db σ δ α) : Db σ ε (Except δ α) := fun s => (.ok (x s).1, (x s).2)

def mapErr (f : ε → δ) (x : Db σ ε α) : Db σ δ α := fun s => ((x s).1.mapError f, (x s).2)

/-- `BEGIN`, the program, and `COMMIT` when it succeeds.  Nothing is left of a
transaction that was not committed. -/
def transaction (fault : String → ε) (x : Db σ ε α) : Db σ ε α := do
  query fault fun _ => ()
  fun s =>
    match x s with
    | (.error e, s') => (.error e, { s' with tables := s.tables })
    | (.ok a, s') =>
      match query fault (fun _ => ()) s' with
      | (.error e, s'') => (.error e, { s'' with tables := s.tables })
      | (.ok (), s'') => (.ok a, s'')

/-- Every run of the program from the tables `t` ends in a result and tables for
which `Q` holds.  Statements fail by themselves only when `F` holds. -/
def wp (F : Prop) (x : Db σ ε α) (Q : Except ε α → σ → Prop) (t : σ) : Prop :=
  ∀ faults, faults = [] ∨ F →
    Q (x ⟨t, faults⟩).1 (x ⟨t, faults⟩).2.tables ∧ ((x ⟨t, faults⟩).2.faults = [] ∨ F)

variable {F : Prop} {Q : Except ε α → σ → Prop} {t : σ}

/-! ## Rules -/

theorem wp_pure {a : α} (h : Q (.ok a) t) : wp F (pure a : Db σ ε α) Q t :=
  fun _ hfaults => ⟨h, hfaults⟩

theorem wp_throw {e : ε} (h : Q (.error e) t) : wp F (throw e : Db σ ε α) Q t :=
  fun _ hfaults => ⟨h, hfaults⟩

theorem bind_of_ok {x : Db σ ε β} {f : β → Db σ ε α} {s s' : Session σ} {b : β}
    (h : x s = (.ok b, s')) : (x >>= f) s = f b s' := by
  show (match x s with
    | (.ok b, s) => f b s
    | (.error e, s) => (.error e, s)) = _
  rw [h]

theorem bind_of_error {x : Db σ ε β} {f : β → Db σ ε α} {s s' : Session σ} {e : ε}
    (h : x s = (.error e, s')) : (x >>= f) s = (.error e, s') := by
  show (match x s with
    | (.ok b, s) => f b s
    | (.error e, s) => (.error e, s)) = _
  rw [h]

theorem wp_bind {x : Db σ ε β} {f : β → Db σ ε α}
    (h : wp F x (fun r t' =>
      match r with
      | .ok b => wp F (f b) Q t'
      | .error e => Q (.error e) t') t) : wp F (x >>= f) Q t := by
  intro faults hfaults
  obtain ⟨hx, hrest⟩ := h faults hfaults
  cases hrun : x ⟨t, faults⟩ with
  | mk r s =>
    rw [hrun] at hx hrest
    cases r with
    | ok b =>
      rw [bind_of_ok hrun]
      exact hx s.faults hrest
    | error e =>
      rw [bind_of_error hrun]
      exact ⟨hx, hrest⟩

theorem wp_attempt {x : Db σ δ α} {Q : Except ε (Except δ α) → σ → Prop}
    (h : wp F x (fun r t' => Q (.ok r) t') t) : wp F (attempt x : Db σ ε (Except δ α)) Q t :=
  h

theorem wp_mapErr {x : Db σ δ α} {f : δ → ε} (h : wp F x (fun r t' => Q (r.mapError f) t') t) :
    wp F (mapErr f x) Q t :=
  h

theorem wp_statement {fault : String → ε} {run : σ → Except ε (α × σ)}
    (hfault : F → ∀ message, Q (.error (fault message)) t)
    (h : match run t with
      | .error e => Q (.error e) t
      | .ok (a, t') => Q (.ok a) t') : wp F (statement fault run) Q t := by
  intro faults hfaults
  have hclean : statement fault run ⟨t, faults⟩ =
        (match run t with
        | .error e => (.error e, ⟨t, faults.tail⟩)
        | .ok (a, t') => (.ok a, ⟨t', faults.tail⟩)) ∨
      F ∧ ∃ message rest, faults = some message :: rest := by
    match faults, hfaults with
    | [], _ => exact Or.inl rfl
    | none :: rest, _ => exact Or.inl rfl
    | some message :: rest, hF => exact Or.inr ⟨by simpa using hF, message, rest, rfl⟩
  rcases hclean with hclean | ⟨hF, message, rest, rfl⟩
  · rw [hclean]
    have hrest : faults.tail = [] ∨ F := by
      rcases hfaults with rfl | hF
      · exact Or.inl rfl
      · exact Or.inr hF
    cases hrun : run t with
    | error e =>
      rw [hrun] at h
      exact ⟨h, hrest⟩
    | ok out =>
      rw [hrun] at h
      exact ⟨h, hrest⟩
  · exact ⟨hfault hF message, Or.inr hF⟩

theorem wp_query {fault : String → ε} {read : σ → α}
    (hfault : F → ∀ message, Q (.error (fault message)) t) (h : Q (.ok (read t)) t) :
    wp F (query fault read) Q t :=
  wp_statement hfault h

theorem wp_transaction {fault : String → ε} {x : Db σ ε α}
    (hfault : F → ∀ message, Q (.error (fault message)) t)
    (h : wp F x (fun r t' =>
      match r with
      | .ok a => Q (.ok a) t'
      | .error e => Q (.error e) t) t) : wp F (transaction fault x) Q t := by
  refine wp_bind (wp_query hfault ?_)
  intro faults hfaults
  obtain ⟨hx, hrest⟩ := h faults hfaults
  simp only
  cases hrun : x ⟨t, faults⟩ with
  | mk r s =>
    rw [hrun] at hx hrest
    cases r with
    | error e => exact ⟨hx, hrest⟩
    | ok a =>
      have hcommit : wp F (query fault fun _ => () : Db σ ε Unit)
          (fun r t' =>
            match r with
            | .ok () => t' = s.tables
            | .error e => F ∧ ∃ message, e = fault message) s.tables :=
        wp_query (fun hF message => ⟨hF, message, rfl⟩) rfl
      obtain ⟨hend, hrest'⟩ := hcommit s.faults hrest
      cases hquery : query fault (fun _ => ()) (⟨s.tables, s.faults⟩ : Session σ) with
      | mk r' s' =>
        rw [hquery] at hend hrest'
        simp only [hquery]
        cases r' with
        | error e =>
          obtain ⟨hF, message, rfl⟩ := hend
          exact ⟨hfault hF message, hrest'⟩
        | ok u =>
          have hsame : s'.tables = s.tables := hend
          show Q (.ok a) s'.tables ∧ _
          rw [hsame]
          exact ⟨hx, hrest'⟩

theorem wp_mono {x : Db σ ε α} {R : Except ε α → σ → Prop} (h : wp F x R t)
    (hRQ : ∀ r t', R r t' → Q r t') : wp F x Q t := by
  intro faults hfaults
  obtain ⟨hR, hrest⟩ := h faults hfaults
  exact ⟨hRQ _ _ hR, hrest⟩

/-! ## Meanings -/

/-- What a program may come to: its meaning, or a failure for a reason outside
it that leaves the tables as they were. -/
def Outcome (F : Prop) (fault : String → ε) (meaning : Except ε α × σ) (t : σ)
    (r : Except ε α) (t' : σ) : Prop :=
  (r = meaning.1 ∧ t' = meaning.2) ∨ F ∧ (∃ message, r = .error (fault message)) ∧ t' = t

theorem Outcome.fault {fault : String → ε} {meaning : Except ε α × σ} (hF : F)
    (message : String) : Outcome F fault meaning t (.error (fault message)) t :=
  Or.inr ⟨hF, ⟨message, rfl⟩, rfl⟩

theorem Outcome.of_eq {fault : String → ε} {meaning : Except ε α × σ} {r : Except ε α} {t' : σ}
    (h : meaning = (r, t')) : Outcome F fault meaning t r t' :=
  Or.inl ⟨by rw [h], by rw [h]⟩

/-- The program does what `meaning` says, or fails for a reason outside it and
leaves the tables as they were. -/
def Implements (F : Prop) (fault : String → ε) (x : Db σ ε α)
    (meaning : σ → Except ε α × σ) : Prop :=
  ∀ t, wp F x (Outcome F fault (meaning t) t) t

/-- Whatever fails, the tables are as the program means them or as they were. -/
theorem Implements.tables {fault : String → ε} {x : Db σ ε α} {meaning : σ → Except ε α × σ}
    (h : Implements True fault x meaning) (t : σ) (faults : List (Option String)) :
    (x ⟨t, faults⟩).2.tables = (meaning t).2 ∨ (x ⟨t, faults⟩).2.tables = t := by
  obtain ⟨hout, -⟩ := h t faults (Or.inr trivial)
  rcases hout with ⟨-, ht⟩ | ⟨-, -, ht⟩
  · exact Or.inl ht
  · exact Or.inr ht

/-! ## Programs that only faults make fail -/

/-- None of the next `n` statements fails by itself. -/
def Clean (n : Nat) (faults : List (Option String)) : Prop := ∀ fault ∈ faults.take n, fault = none

instance (n : Nat) (faults : List (Option String)) : Decidable (Clean n faults) :=
  inferInstanceAs (Decidable (∀ fault ∈ faults.take n, fault = none))

theorem clean_add {n k : Nat} {faults : List (Option String)} :
    Clean (n + k) faults ↔ Clean n faults ∧ Clean k (faults.drop n) := by
  unfold Clean
  rw [List.take_add]
  constructor
  · intro h
    exact ⟨fun fault hfault => h fault (List.mem_append_left _ hfault),
      fun fault hfault => h fault (List.mem_append_right _ hfault)⟩
  · intro h fault hfault
    rcases List.mem_append.mp hfault with hfault | hfault
    · exact h.1 fault hfault
    · exact h.2 fault hfault

/-- From the tables `t` the program takes `n` statements, to the result `a` and
the tables `t'`, and fails when one of them does. -/
def Takes (n : Nat) (x : Db σ ε α) (t : σ) (a : α) (t' : σ) : Prop :=
  ∀ faults, (Clean n faults → x ⟨t, faults⟩ = (.ok a, ⟨t', faults.drop n⟩)) ∧
    (¬ Clean n faults → ∃ e s, x ⟨t, faults⟩ = (.error e, s))

/-- The program fails from the tables `t`, faults or not. -/
def Fails (x : Db σ ε α) (t : σ) : Prop := ∀ faults, ∃ e s, x ⟨t, faults⟩ = (.error e, s)

theorem takes_pure (a : α) (t : σ) : Takes 0 (pure a : Db σ ε α) t a t := by
  intro faults
  refine ⟨fun _ => rfl, fun h => absurd ?_ h⟩
  intro fault hfault
  simp at hfault

theorem fails_throw (e : ε) (t : σ) : Fails (throw e : Db σ ε α) t := fun _ => ⟨e, _, rfl⟩

theorem takes_statement {fault : String → ε} {run : σ → Except ε (α × σ)} {a : α} {t' : σ}
    (h : run t = .ok (a, t')) : Takes 1 (statement fault run) t a t' := by
  intro faults
  cases faults with
  | nil =>
    refine ⟨fun _ => ?_, fun hdirty => absurd ?_ hdirty⟩
    · simp [statement, h]
    · simp [Clean]
  | cons f rest =>
    cases f with
    | none =>
      refine ⟨fun _ => ?_, fun hdirty => absurd ?_ hdirty⟩
      · simp [statement, h]
      · simp [Clean]
    | some message =>
      refine ⟨fun hclean => ?_, fun _ => ⟨fault message, _, rfl⟩⟩
      have hnone := hclean (some message) (by simp)
      cases hnone

theorem takes_query {fault : String → ε} {read : σ → α} :
    Takes 1 (query fault read) t (read t) t :=
  takes_statement rfl

theorem fails_statement {fault : String → ε} {run : σ → Except ε (α × σ)} {e : ε}
    (h : run t = .error e) : Fails (statement fault run) t := by
  intro faults
  cases faults with
  | nil => exact ⟨e, _, by simp only [statement, h]; rfl⟩
  | cons f rest =>
    cases f with
    | none => exact ⟨e, _, by simp only [statement, h]; rfl⟩
    | some message => exact ⟨fault message, _, rfl⟩

theorem Takes.mapErr {n : Nat} {x : Db σ δ α} {f : δ → ε} {a : α} {t' : σ}
    (h : Takes n x t a t') : Takes n (Db.mapErr f x) t a t' := by
  intro faults
  refine ⟨fun hclean => ?_, fun hdirty => ?_⟩
  · simp only [Db.mapErr, (h faults).1 hclean]
    rfl
  · obtain ⟨e, s, hx⟩ := (h faults).2 hdirty
    exact ⟨f e, s, by simp only [Db.mapErr, hx]; rfl⟩

theorem Takes.bind {n k : Nat} {x : Db σ ε β} {f : β → Db σ ε α} {b : β} {a : α} {t₁ t' : σ}
    (hx : Takes n x t b t₁) (hf : Takes k (f b) t₁ a t') : Takes (n + k) (x >>= f) t a t' := by
  intro faults
  rw [clean_add]
  by_cases hclean : Clean n faults
  · rw [bind_of_ok ((hx faults).1 hclean)]
    refine ⟨fun h => ?_, fun h => (hf _).2 fun hrest => h ⟨hclean, hrest⟩⟩
    rw [(hf _).1 h.2, List.drop_drop]
  · obtain ⟨e, s, herror⟩ := (hx faults).2 hclean
    rw [bind_of_error herror]
    exact ⟨fun h => absurd h.1 hclean, fun _ => ⟨e, s, rfl⟩⟩

theorem Takes.bind_fails {n : Nat} {x : Db σ ε β} {f : β → Db σ ε α} {b : β} {t₁ : σ}
    (hx : Takes n x t b t₁) (hf : Fails (f b) t₁) : Fails (x >>= f) t := by
  intro faults
  by_cases hclean : Clean n faults
  · rw [bind_of_ok ((hx faults).1 hclean)]
    exact hf _
  · obtain ⟨e, s, herror⟩ := (hx faults).2 hclean
    rw [bind_of_error herror]
    exact ⟨e, s, rfl⟩

/-- A failure that is looked at, and then passed on as another one. -/
theorem Takes.attempt_bind {n k : Nat} {x : Db σ δ β} {f : Except δ β → Db σ ε α} {b : β} {a : α}
    {t₁ t' : σ} (hx : Takes n x t b t₁) (hf : Takes k (f (.ok b)) t₁ a t')
    (herr : ∀ e s, ∃ e' s', f (.error e) s = (.error e', s')) :
    Takes (n + k) (attempt x >>= f) t a t' := by
  intro faults
  rw [clean_add]
  by_cases hclean : Clean n faults
  · have hattempt : (attempt x : Db σ ε _) ⟨t, faults⟩ = (.ok (.ok b), ⟨t₁, faults.drop n⟩) := by
      simp only [attempt, (hx faults).1 hclean]
    rw [bind_of_ok hattempt]
    refine ⟨fun h => ?_, fun h => (hf _).2 fun hrest => h ⟨hclean, hrest⟩⟩
    rw [(hf _).1 h.2, List.drop_drop]
  · obtain ⟨e, s, herror⟩ := (hx faults).2 hclean
    have hattempt : (attempt x : Db σ ε _) ⟨t, faults⟩ = (.ok (.error e), s) := by
      simp only [attempt, herror]
    rw [bind_of_ok hattempt]
    exact ⟨fun h => absurd h.1 hclean, fun _ => herr e s⟩

theorem Fails.attempt_bind {x : Db σ δ β} {f : Except δ β → Db σ ε α} (hx : Fails x t)
    (herr : ∀ e s, ∃ e' s', f (.error e) s = (.error e', s')) : Fails (attempt x >>= f) t := by
  intro faults
  obtain ⟨e, s, herror⟩ := hx faults
  have hattempt : (attempt x : Db σ ε _) ⟨t, faults⟩ = (.ok (.error e), s) := by
    simp only [attempt, herror]
  rw [bind_of_ok hattempt]
  exact herr e s

theorem Takes.transaction {n : Nat} {fault : String → ε} {x : Db σ ε α} {a : α} {t' : σ}
    (h : Takes n x t a t') : Takes (1 + (n + 1)) (Db.transaction fault x) t a t' := by
  refine takes_query.bind ?_
  intro faults
  rw [clean_add]
  by_cases hclean : Clean n faults
  · have hcommit := @takes_query σ ε Unit t' fault (fun _ => ()) (faults.drop n)
    simp only [(h faults).1 hclean]
    refine ⟨fun hboth => ?_, fun hboth => ?_⟩
    · rw [hcommit.1 hboth.2, List.drop_drop]
    · obtain ⟨e, s, herror⟩ := hcommit.2 fun hrest => hboth ⟨hclean, hrest⟩
      rw [herror]
      exact ⟨e, _, rfl⟩
  · obtain ⟨e, s, herror⟩ := (h faults).2 hclean
    simp only [herror]
    exact ⟨fun hboth => absurd hboth.1 hclean, fun _ => ⟨e, _, rfl⟩⟩

theorem Fails.transaction {fault : String → ε} {x : Db σ ε α} (h : Fails x t) :
    Fails (Db.transaction fault x) t := by
  refine takes_query.bind_fails ?_
  intro faults
  obtain ⟨e, s, herror⟩ := h faults
  simp only [herror]
  exact ⟨e, _, rfl⟩

end Db
end Database
end Lib
end Panops
