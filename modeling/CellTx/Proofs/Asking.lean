import CellTx.Assembler
import CellTx.Proofs.Outcome

/-!
# Questions that fail

A run can be watched. A `Logged σ` is a world that writes down, for each question it is asked, the
error of the answer, and a `Strike` makes one of its questions fail instead of being answered. A run
that `Heeds` its questions only goes on while they are answered: a question that fails is the last
one, and its error is what the run comes to. A question that is never reached changes nothing.

Results:
* `Accounts.trans`: what is written down in a sequence is written down in its parts.
* `Heeds.bind`: what heeds its questions is closed under sequence, so it passes from a single
  question (`Heeds.logged`) to a page, to a walk and to a search.
* `Heeds.ofExcept`, `Heeds.decoded`, `Heeds.demand`: steps that ask nothing heed all of it.

Out of scope: the constructions themselves, which are in `CellTx.Proofs.Heeding`.
-/

namespace CellTx

variable {ε σ α β : Type}

/-! ## Watching a world -/

/-- A world with a log: for each question it was asked, the error of the answer, if any. -/
structure Logged (σ : Type) where
  world : σ
  log : List (Option QueryError) := []
deriving DecidableEq

/-- A failure in place of an answer: the question, counted from zero, and the error. -/
structure Strike where
  question : Nat
  error : QueryError
deriving DecidableEq

/-- The error with which the next question is struck. -/
def Logged.struck? (w : Logged σ) : Option Strike → Option QueryError
  | some s => if s.question = w.log.length then some s.error else none
  | none => none

/-- The error of an answer that failed. -/
def errorOf : Except ε α → Option ε
  | .ok _ => none
  | .error e => some e

/-- The answer of a world with a log. A struck question is not put to the world. -/
def Query.logged (strike : Option Strike) (q : Query σ α) : Query (Logged σ) α :=
  ExceptT.mk fun w =>
    match w.struck? strike with
    | some e => (.error e, { w with log := w.log ++ [some e] })
    | none =>
      let (r, s) := q.run.run w.world
      (r, ⟨s, w.log ++ [errorOf r]⟩)

namespace Query

variable {strike : Option Strike} {q : Query σ α} {w : Logged σ}

theorem run_logged_of_struck {e : QueryError} (h : w.struck? strike = some e) :
    (Query.logged strike q).run.run w = (.error e, { w with log := w.log ++ [some e] }) := by
  simp only [Query.logged, ExceptT.run_mk, StateT.run, h]

theorem run_logged_of_not_struck (h : w.struck? strike = none) :
    (Query.logged strike q).run.run w =
      ((q.run.run w.world).1,
        ⟨(q.run.run w.world).2, w.log ++ [errorOf (q.run.run w.world).1]⟩) := by
  simp only [Query.logged, ExceptT.run_mk, StateT.run, h]
  rfl

theorem length_log_logged (strike : Option Strike) (q : Query σ α) (w : Logged σ) :
    ((Query.logged strike q).run.run w).2.log.length = w.log.length + 1 := by
  cases hs : w.struck? strike with
  | some e => rw [run_logged_of_struck hs, List.length_append, List.length_singleton]
  | none => rw [run_logged_of_not_struck hs, List.length_append, List.length_singleton]

end Query

/-- The ledger of a world with a log. -/
def Ledger.logged (strike : Option Strike) (l : Ledger σ) : Ledger (Logged σ) where
  tip := Query.logged strike l.tip
  header hash := Query.logged strike (l.header hash)
  transaction hash := Query.logged strike (l.transaction hash)
  cells key order limit after := Query.logged strike (l.cells key order limit after)
  maximumWithdraw p block := Query.logged strike (l.maximumWithdraw p block)
  span := l.span

/-- The assembler of a world with a log, which the estimator is part of. -/
def Assembler.logged (strike : Option Strike) (a : Assembler σ) : Assembler (Logged σ) where
  ledger := a.ledger.logged strike
  estimator t rate := Query.logged strike (a.estimator t rate)
  feeRate := a.feeRate
  pageSize := a.pageSize
  scripts := a.scripts
  cheque := a.cheque

/-! ## Logs -/

/-- How a run goes on from a log: all its questions were answered, or the last one failed and its
error is what the run came to. -/
inductive Accounts (wrap : QueryError → ε) (before : List (Option QueryError)) :
    Except ε α → List (Option QueryError) → Prop
  | answered (r : Except ε α) (n : Nat) :
      Accounts wrap before r (before ++ List.replicate n none)
  | failed (n : Nat) (e : QueryError) :
      Accounts wrap before (.error (wrap e)) (before ++ List.replicate n none ++ [some e])

namespace Accounts

variable {wrap : QueryError → ε} {before after : List (Option QueryError)} {r : Except ε α}

theorem nil (r : Except ε α) : Accounts wrap before r before := by
  have h : Accounts wrap before r (before ++ List.replicate 0 none) := answered r 0
  rwa [List.replicate_zero, List.append_nil] at h

/-- One question. -/
theorem single (r : Except QueryError α) : Accounts id before r (before ++ [errorOf r]) := by
  cases r with
  | ok x => exact answered (.ok x) 1
  | error e =>
    have h : Accounts id before (.error e : Except QueryError α)
      (before ++ List.replicate 0 none ++ [some e]) := failed 0 e
    rwa [List.replicate_zero, List.append_nil] at h

theorem of_ok {x : α} (h : Accounts wrap before (.ok x) after) :
    ∃ n, after = before ++ List.replicate n none := by
  cases h with
  | answered _ n => exact ⟨n, rfl⟩

/-- A failure ends what would have come to a value of another type. -/
theorem of_error {e : ε} (h : Accounts wrap before (.error e : Except ε α) after) :
    Accounts wrap before (.error e : Except ε β) after := by
  cases h with
  | answered _ n => exact answered _ n
  | failed n e => exact failed n e

theorem trans {n : Nat} (h : Accounts wrap (before ++ List.replicate n none) r after) :
    Accounts wrap before r after := by
  cases h with
  | answered _ k =>
    rw [List.append_assoc, List.replicate_append_replicate]
    exact answered r (n + k)
  | failed k e =>
    rw [List.append_assoc before, List.replicate_append_replicate]
    exact failed (n + k) e

theorem prefix_after (h : Accounts wrap before r after) : before <+: after := by
  cases h with
  | answered _ n => exact List.prefix_append _ _
  | failed n e =>
    rw [List.append_assoc]
    exact List.prefix_append _ _

/-- In a log that was empty before, an error stands last, and the run came to it. -/
theorem last {i : Nat} {e : QueryError} (h : Accounts wrap [] r after)
    (hi : after[i]? = some (some e)) : after.length = i + 1 ∧ r = .error (wrap e) := by
  cases h with
  | answered _ n =>
    have hmem := List.mem_of_getElem? hi
    rw [List.nil_append] at hmem
    exact nomatch List.eq_of_mem_replicate hmem
  | failed n e' =>
    rw [List.nil_append] at hi
    obtain hlt | hge := Nat.lt_or_ge i n
    · rw [List.getElem?_append_left (by rwa [List.length_replicate])] at hi
      exact nomatch List.eq_of_mem_replicate (List.mem_of_getElem? hi)
    · rw [List.getElem?_append_right (by rwa [List.length_replicate]), List.length_replicate,
        List.getElem?_singleton] at hi
      split at hi
      · rename_i hz
        obtain rfl : e' = e := Option.some.inj (Option.some.inj hi)
        refine ⟨?_, rfl⟩
        rw [List.nil_append, List.length_append, List.length_replicate, List.length_singleton]
        omega
      · exact nomatch hi

theorem mapError {answer : Except QueryError α} (h : Accounts id before answer after) :
    Accounts wrap before (answer.mapError wrap) after := by
  cases h with
  | answered _ n => exact answered _ n
  | failed n e => exact failed n e

end Accounts

/-! ## Runs that heed their questions -/

/-- What a sequence comes to when its first part comes to a value. -/
theorem run_bind_ok {m : ExceptT ε (StateM σ) α} {f : α → ExceptT ε (StateM σ) β} {s t : σ}
    {x : α} (h : m.run.run s = (.ok x, t)) : (m >>= f).run.run s = (f x).run.run t := by
  rw [ExceptT.run_bind, StateT.run_bind, h]
  rfl

/-- What a sequence comes to when its first part fails. -/
theorem run_bind_error {m : ExceptT ε (StateM σ) α} {f : α → ExceptT ε (StateM σ) β} {s t : σ}
    {e : ε} (h : m.run.run s = (.error e, t)) : (m >>= f).run.run s = (.error e, t) := by
  rw [ExceptT.run_bind, StateT.run_bind, h]
  rfl

/-- What a sequence comes to when its first part cannot fail. -/
theorem run_lift_bind (m : StateM σ α) (f : α → ExceptT ε (StateM σ) β) (s : σ) :
    ((liftM m : ExceptT ε (StateM σ) α) >>= f).run.run s =
      (f (m.run s).1).run.run (m.run s).2 := rfl

theorem run_ask (q : Query σ α) (s : σ) :
    (Build.ask q).run.run s = ((q.run.run s).1.mapError Failure.query, (q.run.run s).2) := by
  rw [Build.ask, ExceptT.run_adapt, StateT.run_map]
  rfl

/-- A run `m`, watched while questions are struck, does what `plain` does as long as its questions
are answered, and ends with the first that is not. -/
structure Heeds (wrap : QueryError → ε) (plain : ExceptT ε (StateM σ) α)
    (m : Option Strike → ExceptT ε (StateM (Logged σ)) α) : Prop where
  /-- Without a strike only the log is new. -/
  calm : ∀ w, plain.run.run w.world = (((m none).run.run w).1, ((m none).run.run w).2.world)
  accounts : ∀ strike w,
    Accounts wrap w.log ((m strike).run.run w).1 ((m strike).run.run w).2.log
  /-- A question that is not reached changes nothing. -/
  spared : ∀ (strike : Strike) w, ((m none).run.run w).2.log.length ≤ strike.question →
    (m (some strike)).run.run w = (m none).run.run w
  /-- A question that is reached ends the run. -/
  struck : ∀ (strike : Strike) w, w.log.length ≤ strike.question →
    strike.question < ((m none).run.run w).2.log.length →
      ((m (some strike)).run.run w).1 = .error (wrap strike.error) ∧
      ((m (some strike)).run.run w).2.log =
        ((m none).run.run w).2.log.take strike.question ++ [some strike.error]

namespace Heeds

variable {wrap : QueryError → ε}

/-- What asks nothing. -/
theorem of_result (r : Except ε α) :
    Heeds wrap (ExceptT.mk (pure r) : ExceptT ε (StateM σ) α) fun _ => ExceptT.mk (pure r) where
  calm _ := rfl
  accounts _ _ := Accounts.nil r
  spared _ _ _ := rfl
  struck _ _ hle hlt := absurd hlt (Nat.not_lt.mpr hle)

theorem pure (x : α) :
    Heeds wrap (pure x : ExceptT ε (StateM σ) α) fun _ => pure x := of_result (.ok x)

theorem throw (e : ε) :
    Heeds wrap (throw e : ExceptT ε (StateM σ) α) fun _ => throw e := of_result (.error e)

/-- What a first part asked stays in the log. -/
theorem log_prefix_bind {m : ExceptT ε (StateM (Logged σ)) α} {next : α → ExceptT ε (StateM σ) β}
    {f : Option Strike → α → ExceptT ε (StateM (Logged σ)) β} (strike : Option Strike)
    (hf : ∀ x, Heeds wrap (next x) fun strike => f strike x) (w : Logged σ) :
    (m.run.run w).2.log <+: ((m >>= f strike).run.run w).2.log := by
  rcases hrun : m.run.run w with ⟨e | x, w₁⟩
  · exact ⟨[], by rw [run_bind_error hrun, List.append_nil]⟩
  · rw [run_bind_ok hrun]
    exact ((hf x).accounts strike w₁).prefix_after

theorem bind {plain : ExceptT ε (StateM σ) α} {next : α → ExceptT ε (StateM σ) β}
    {m : Option Strike → ExceptT ε (StateM (Logged σ)) α}
    {f : Option Strike → α → ExceptT ε (StateM (Logged σ)) β} (hm : Heeds wrap plain m)
    (hf : ∀ x, Heeds wrap (next x) fun strike => f strike x) :
    Heeds wrap (plain >>= next) fun strike => m strike >>= f strike where
  calm w := by
    have hplain := hm.calm w
    rcases hrun : (m none).run.run w with ⟨e | x, w₁⟩
    · rw [hrun] at hplain
      rw [run_bind_error hrun, run_bind_error hplain]
    · rw [hrun] at hplain
      rw [run_bind_ok hrun, run_bind_ok hplain]
      exact (hf x).calm w₁
  accounts strike w := by
    have hlog := hm.accounts strike w
    rcases hrun : (m strike).run.run w with ⟨e | x, w₁⟩
    · rw [hrun] at hlog
      rw [run_bind_error hrun]
      exact hlog.of_error
    · rw [hrun] at hlog
      obtain ⟨n, hn⟩ := hlog.of_ok
      rw [run_bind_ok hrun]
      have hrest := (hf x).accounts strike w₁
      rw [hn] at hrest
      exact hrest.trans
  spared strike w hle := by
    have hgrows := (log_prefix_bind (m := m none) none hf w).length_le
    have hspared := hm.spared strike w (Nat.le_trans hgrows hle)
    rcases hrun : (m none).run.run w with ⟨e | x, w₁⟩
    · rw [run_bind_error hrun, run_bind_error (hspared.trans hrun)]
    · rw [run_bind_ok hrun] at hle ⊢
      rw [run_bind_ok (hspared.trans hrun)]
      exact (hf x).spared strike w₁ hle
  struck strike w hle hlt := by
    -- the first part meets the strike, or it passes and the second part meets it
    obtain hreached | hlater :=
      Nat.lt_or_ge strike.question ((m none).run.run w).2.log.length
    · have hstruck := hm.struck strike w hle hreached
      rcases hrun : (m (some strike)).run.run w with ⟨r, w₁⟩
      rw [hrun] at hstruck
      obtain ⟨rfl, hlog⟩ := hstruck
      rw [run_bind_error hrun]
      obtain ⟨rest, hrest⟩ := log_prefix_bind (m := m none) none hf w
      refine ⟨rfl, hlog.trans ?_⟩
      rw [← hrest, List.take_append_of_le_length (Nat.le_of_lt hreached)]
    · have hspared := hm.spared strike w hlater
      rcases hrun : (m none).run.run w with ⟨e | x, w₁⟩
      · rw [run_bind_error hrun] at hlt
        rw [hrun] at hlater
        exact absurd hlt (Nat.not_lt.mpr hlater)
      · rw [hrun] at hlater
        rw [run_bind_ok hrun] at hlt ⊢
        rw [run_bind_ok (hspared.trans hrun)]
        exact (hf x).struck strike w₁ hlater hlt

/-- A choice that both runs make. -/
theorem ite {c : Prop} [Decidable c] {p p' : ExceptT ε (StateM σ) α}
    {m m' : Option Strike → ExceptT ε (StateM (Logged σ)) α} (h : Heeds wrap p m)
    (h' : Heeds wrap p' m') :
    Heeds wrap (if c then p else p') fun strike => if c then m strike else m' strike := by
  split
  · exact h
  · exact h'

/-- A single question. -/
theorem logged (q : Query σ α) : Heeds id q fun strike => Query.logged strike q where
  calm _ := rfl
  accounts strike w := by
    cases hs : w.struck? strike with
    | some e =>
      rw [Query.run_logged_of_struck hs]
      exact Accounts.single (.error e)
    | none =>
      rw [Query.run_logged_of_not_struck hs]
      exact Accounts.single _
  spared strike w hle := by
    rw [Query.length_log_logged] at hle
    have hs : w.struck? (some strike) = none := if_neg (by omega)
    rw [Query.run_logged_of_not_struck hs]
    rfl
  struck strike w hle hlt := by
    rw [Query.length_log_logged] at hlt
    have hnow : strike.question = w.log.length := by omega
    have hs : w.struck? (some strike) = some strike.error := if_pos hnow
    rw [Query.run_logged_of_struck hs]
    refine ⟨rfl, ?_⟩
    rw [Query.run_logged_of_not_struck rfl, hnow, List.take_left]

/-- A question whose error ends a building. -/
theorem ask {q : Query σ α} {m : Option Strike → Query (Logged σ) α} (h : Heeds id q m) :
    Heeds Failure.query (Build.ask q) fun strike => Build.ask (m strike) where
  calm w := by
    rw [run_ask, run_ask, h.calm w]
  accounts strike w := by
    rw [run_ask]
    exact (h.accounts strike w).mapError
  spared strike w hle := by
    rw [run_ask] at hle
    rw [run_ask, run_ask, h.spared strike w hle]
  struck strike w hle hlt := by
    rw [run_ask] at hlt
    obtain ⟨hr, hlog⟩ := h.struck strike w hle hlt
    rw [run_ask, run_ask, hr]
    exact ⟨rfl, hlog⟩

theorem ofExcept (r : Except Failure α) :
    Heeds Failure.query (Build.ofExcept r : Build σ α) fun _ => Build.ofExcept r := by
  cases r with
  | ok x => exact pure x
  | error f => exact throw f

theorem decoded (r : Except EncodingError α) :
    Heeds Failure.query (Build.decoded r : Build σ α) fun _ => Build.decoded r := ofExcept _

theorem demand (f : Failure) (o : Option α) :
    Heeds Failure.query (Build.demand f o : Build σ α) fun _ => Build.demand f o := by
  cases o with
  | some x => exact pure x
  | none => exact throw f

end Heeds

end CellTx
