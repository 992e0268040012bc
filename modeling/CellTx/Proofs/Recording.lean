import CellTx.Proofs.Construction
import CellTx.Proofs.Asking

/-!
# Searches on record

A run can keep a record of the searches it asks for. A `Recorded σ` is a world that writes down the
key of each page it is asked for (`Construction.searches`). A run without a record `Mirrors` one
with a record when the two come to the same, provided that all keys on record are quiet: keys to
which the worlds of both runs answer alike.

Results:
* `Query.run_recorded`: a record changes nothing in what a question comes to.
* `Grows.bind`: a record only grows, so what is quiet at the end was quiet all along.
* `Mirrors.bind`, `Mirrors.bind_eq`: mirroring passes from the parts of a sequence to the whole.

Out of scope: which worlds answer alike (`CellTx.Proofs.Abreast`), and what follows for the
constructions (`CellTx.Proofs.ForeignCells`).
-/

namespace CellTx

variable {ε σ α β : Type}

/-! ## Recording -/

/-- A world with a record: the keys of the pages it was asked for, in order. -/
structure Recorded (σ : Type) where
  world : σ
  searches : List SearchKey := []

/-- The answer of a world that puts some keys on record. -/
def Query.recorded (keys : List SearchKey) (q : Query σ α) : Query (Recorded σ) α :=
  ExceptT.mk fun w =>
    let (r, s) := q.run.run w.world
    (r, ⟨s, w.searches ++ keys⟩)

theorem Query.run_recorded (keys : List SearchKey) (q : Query σ α) (w : Recorded σ) :
    (Query.recorded keys q).run.run w =
      ((q.run.run w.world).1, ⟨(q.run.run w.world).2, w.searches ++ keys⟩) := rfl

/-- The ledger of a world with a record. -/
def Ledger.recorded (l : Ledger σ) : Ledger (Recorded σ) where
  tip := Query.recorded [] l.tip
  header hash := Query.recorded [] (l.header hash)
  transaction hash := Query.recorded [] (l.transaction hash)
  cells key order limit after := Query.recorded [key] (l.cells key order limit after)
  maximumWithdraw p block := Query.recorded [] (l.maximumWithdraw p block)
  span := l.span

/-- The assembler of a world with a record. -/
def Assembler.recorded (a : Assembler σ) : Assembler (Recorded σ) where
  ledger := a.ledger.recorded
  estimator t rate := Query.recorded [] (a.estimator t rate)
  feeRate := a.feeRate
  pageSize := a.pageSize
  scripts := a.scripts
  cheque := a.cheque

/-- The keys of the pages that a construction asks for, beginning in a state of the world. -/
def Construction.searches (a : Assembler σ) (s : σ) (k : Construction) : List SearchKey :=
  ((k.run a.recorded).run.run { world := s }).2.searches

/-! ## Growing records -/

/-- A run that takes nothing off the record. -/
def Grows (m : ExceptT ε (StateM (Recorded σ)) α) : Prop :=
  ∀ w, w.searches ⊆ (m.run.run w).2.searches

namespace Grows

theorem of_result (r : Except ε α) :
    Grows (ExceptT.mk (pure r) : ExceptT ε (StateM (Recorded σ)) α) :=
  fun w => List.Subset.refl w.searches

theorem bind {m : ExceptT ε (StateM (Recorded σ)) α} {f : α → ExceptT ε (StateM (Recorded σ)) β}
    (hm : Grows m) (hf : ∀ x, Grows (f x)) : Grows (m >>= f) := by
  intro w
  have hw := hm w
  rcases hrun : m.run.run w with ⟨e | x, w₁⟩
  · rw [hrun] at hw
    rwa [run_bind_error hrun]
  · rw [hrun] at hw
    rw [run_bind_ok hrun]
    exact List.Subset.trans hw (hf x w₁)

theorem recorded (keys : List SearchKey) (q : Query σ α) : Grows (Query.recorded keys q) :=
  fun w => List.subset_append_left w.searches keys

theorem ask {q : Query (Recorded σ) α} (h : Grows q) : Grows (Build.ask q) := by
  intro w
  rw [run_ask]
  exact h w

end Grows

/-! ## Following a record -/

/-- Two runs come to related values, or to the same failure. -/
inductive Alike (R : α → α → Prop) : Except ε α → Except ε α → Prop
  | ok {x y : α} (h : R x y) : Alike R (.ok x) (.ok y)
  | error (e : ε) : Alike R (.error e) (.error e)

theorem Alike.mapError {R : α → α → Prop} {r r' : Except ε α} {δ : Type} (f : ε → δ)
    (h : Alike R r r') : Alike R (r.mapError f) (r'.mapError f) := by
  cases h with
  | ok h => exact .ok h
  | error e => exact .error (f e)

theorem Alike.imp {R T : α → α → Prop} {r r' : Except ε α} (h : Alike R r r')
    (himp : ∀ x y, R x y → T x y) : Alike T r r' := by
  cases h with
  | ok h => exact .ok (himp _ _ h)
  | error e => exact .error e

theorem alike_eq {r r' : Except ε α} : Alike Eq r r' ↔ r = r' := by
  constructor
  · rintro (⟨rfl⟩ | _) <;> rfl
  · rintro rfl
    cases r with
    | ok x => exact .ok rfl
    | error e => exact .error e

/-- Equal values with a property. -/
def Same (P : α → Prop) (x y : α) : Prop := x = y ∧ P x

/-- While the keys on record are quiet, `m'` always comes to what `m` comes to. -/
def Follows (quiet : SearchKey → Prop) (R : α → α → Prop)
    (m : ExceptT ε (StateM (Recorded σ)) α) (m' : ExceptT ε (StateM σ) α) : Prop :=
  ∀ w, (∀ key ∈ (m.run.run w).2.searches, quiet key) →
    ∃ r, Ends m' r ∧ Alike R (m.run.run w).1 r

/-- A run `m` that keeps a record, and a run `m'` that follows it under a condition. -/
structure Mirrors (quiet : SearchKey → Prop) (pre : Prop) (R : α → α → Prop)
    (m : ExceptT ε (StateM (Recorded σ)) α) (m' : ExceptT ε (StateM σ) α) : Prop where
  grows : Grows m
  follows : pre → Follows quiet R m m'

namespace Mirrors

variable {quiet : SearchKey → Prop} {pre : Prop} {R : α → α → Prop} {T : β → β → Prop}
  {P : α → Prop} {m : ExceptT ε (StateM (Recorded σ)) α} {m' : ExceptT ε (StateM σ) α}
  {f : α → ExceptT ε (StateM (Recorded σ)) β} {f' : α → ExceptT ε (StateM σ) β}

theorem mono {before : Prop} (h : Mirrors quiet pre R m m') (hpre : before → pre) :
    Mirrors quiet before R m m' :=
  ⟨h.grows, fun hbefore => h.follows (hpre hbefore)⟩

theorem imp {S : α → α → Prop} (h : Mirrors quiet pre R m m')
    (himp : pre → ∀ x y, R x y → S x y) : Mirrors quiet pre S m m' := by
  refine ⟨h.grows, fun hpre w hquiet => ?_⟩
  obtain ⟨r, hr, halike⟩ := h.follows hpre w hquiet
  exact ⟨r, hr, halike.imp (himp hpre)⟩

/-- Two runs of which the first is never made. -/
theorem never (e : ε) (h : ¬ pre) :
    Mirrors quiet pre R (throw e : ExceptT ε (StateM (Recorded σ)) α) m' :=
  ⟨Grows.of_result (.error e), fun hpre => absurd hpre h⟩

theorem pure {x y : α} (h : pre → R x y) :
    Mirrors quiet pre R (pure x : ExceptT ε (StateM (Recorded σ)) α) (pure y) :=
  ⟨Grows.of_result (.ok x), fun hpre _ _ => ⟨.ok y, Ends.pure y, .ok (h hpre)⟩⟩

theorem pure_eq (x : α) :
    Mirrors quiet pre Eq (Pure.pure x : ExceptT ε (StateM (Recorded σ)) α) (Pure.pure x) :=
  pure fun _ => rfl

theorem throw (e : ε) :
    Mirrors quiet pre R (throw e : ExceptT ε (StateM (Recorded σ)) α) (throw e) :=
  ⟨Grows.of_result (.error e), fun _ _ _ => ⟨.error e, Ends.throw e, .error e⟩⟩

/-- What is quiet when a sequence ends is quiet when its first part does. -/
theorem bind (hm : Mirrors quiet pre R m m') (hgrows : ∀ x, Grows (f x))
    (hf : ∀ x y, pre → R x y → Follows quiet T (f x) (f' y)) :
    Mirrors quiet pre T (m >>= f) (m' >>= f') where
  grows := hm.grows.bind hgrows
  follows hpre w hquiet := by
    have hfirst := hm.follows hpre w
    rcases hrun : m.run.run w with ⟨e | x, w₁⟩
    · rw [run_bind_error hrun] at hquiet
      rw [hrun] at hfirst
      obtain ⟨r, hr, halike⟩ := hfirst hquiet
      rw [run_bind_error hrun]
      cases halike with
      | error => exact ⟨.error e, Ends.bind_error f' hr, .error e⟩
    · rw [run_bind_ok hrun] at hquiet
      rw [hrun] at hfirst
      obtain ⟨r, hr, halike⟩ := hfirst fun key hkey => hquiet key (hgrows x w₁ hkey)
      rw [run_bind_ok hrun]
      cases halike with
      | @ok _ y hxy =>
        obtain ⟨r', hr', halike'⟩ := hf x y hpre hxy w₁ hquiet
        exact ⟨r', hr.bind hr', halike'⟩

theorem bind_same (hm : Mirrors quiet pre (Same P) m m')
    (hf : ∀ x, Mirrors quiet (pre ∧ P x) T (f x) (f' x)) :
    Mirrors quiet pre T (m >>= f) (m' >>= f') := by
  refine hm.bind (fun x => (hf x).grows) fun x y hpre hxy => ?_
  obtain ⟨rfl, hx⟩ := hxy
  exact (hf x).follows ⟨hpre, hx⟩

theorem bind_eq (hm : Mirrors quiet pre Eq m m') (hf : ∀ x, Mirrors quiet pre T (f x) (f' x)) :
    Mirrors quiet pre T (m >>= f) (m' >>= f') := by
  refine hm.bind (fun x => (hf x).grows) fun x y hpre hxy => ?_
  subst hxy
  exact (hf x).follows hpre

/-- Equal values, whatever else is known of them. -/
theorem eq (h : Mirrors quiet pre (Same P) m m') : Mirrors quiet pre Eq m m' :=
  h.imp fun _ _ _ hxy => hxy.1

/-- A choice that both runs make. -/
theorem ite {c : Prop} [Decidable c] {n : ExceptT ε (StateM (Recorded σ)) α}
    {n' : ExceptT ε (StateM σ) α} (h : Mirrors quiet pre R m m') (h' : Mirrors quiet pre R n n') :
    Mirrors quiet pre R (if c then m else n) (if c then m' else n') := by
  split
  · exact h
  · exact h'

/-- A question to which both worlds give the same answer. -/
theorem question {q q' : Query σ α} (keys : List SearchKey)
    (h : pre → ∃ r, Ends q r ∧ Ends q' r ∧ ∀ x, r = .ok x → P x) :
    Mirrors quiet pre (Same P) (Query.recorded keys q) q' := by
  refine ⟨Grows.recorded keys q, fun hpre w _ => ?_⟩
  obtain ⟨r, hq, hq', hr⟩ := h hpre
  obtain ⟨s, hs⟩ := hq w.world
  have hrun : ((Query.recorded keys q).run.run w).1 = r := congrArg Prod.fst hs
  refine ⟨r, hq', ?_⟩
  rw [hrun]
  cases r with
  | ok x => exact .ok ⟨rfl, hr x rfl⟩
  | error e => exact .error e

theorem question_eq {q q' : Query σ α} (keys : List SearchKey)
    (h : pre → ∃ r, Ends q r ∧ Ends q' r) :
    Mirrors quiet pre Eq (Query.recorded keys q) q' := by
  refine (question (P := fun _ => True) keys fun hpre => ?_).eq
  obtain ⟨r, hq, hq'⟩ := h hpre
  exact ⟨r, hq, hq', fun _ _ => trivial⟩

/-- A question whose error ends a building. -/
theorem ask {q : Query (Recorded σ) α} {q' : Query σ α} (h : Mirrors quiet pre R q q') :
    Mirrors quiet pre R (Build.ask q) (Build.ask q') := by
  refine ⟨h.grows.ask, fun hpre w hquiet => ?_⟩
  rw [run_ask] at hquiet ⊢
  obtain ⟨r, hr, halike⟩ := h.follows hpre w hquiet
  refine ⟨r.mapError Failure.query, ?_, halike.mapError Failure.query⟩
  cases r with
  | ok x => exact hr.ask
  | error e => exact hr.ask_error

theorem ofExcept_same (r : Except Failure α) :
    Mirrors quiet pre (Same fun x => r = .ok x) (Build.ofExcept r : Build (Recorded σ) α)
      (Build.ofExcept r) := by
  cases r with
  | ok x => exact pure fun _ => ⟨rfl, rfl⟩
  | error f => exact throw f

theorem ofExcept (r : Except Failure α) :
    Mirrors quiet pre Eq (Build.ofExcept r : Build (Recorded σ) α) (Build.ofExcept r) :=
  (ofExcept_same r).eq

theorem decoded (r : Except EncodingError α) :
    Mirrors quiet pre Eq (Build.decoded r : Build (Recorded σ) α) (Build.decoded r) := ofExcept _

theorem demand_same (f : Failure) (o : Option α) :
    Mirrors quiet pre (Same fun x => o = some x) (Build.demand f o : Build (Recorded σ) α)
      (Build.demand f o) := by
  cases o with
  | some x => exact pure fun _ => ⟨rfl, rfl⟩
  | none => exact throw f

theorem demand (f : Failure) (o : Option α) :
    Mirrors quiet pre Eq (Build.demand f o : Build (Recorded σ) α) (Build.demand f o) :=
  (demand_same f o).eq

end Mirrors

end CellTx
