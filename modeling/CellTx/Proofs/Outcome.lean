import CellTx.Ledger.Basic

/-!
# Outcomes

What a construction can come to, whatever state the world is in. `Reaches m a` says that some state
leads to `a`, `Always m a` that every state does; `Yields` is `Reaches` for a value that is not a
failure, and `Ends` is `Always` for a given answer. `Steady` says that every state leads to the
same.

Results:
* `Yields.bind`: a successful sequence is taken apart step by step, so that a construction is read
  backwards from its result. `Yields.of_ofExcept`, `Yields.of_decoded` and `Yields.of_demand` do so
  for the steps that ask nothing, `yields_ask` for a question.
* `Ends.bind`, `Ends.bind_error`: a sequence is put together from what its steps always come to.
* `Always.eq`: what is always so is the only thing that can be reached.
* `Steady.ends`: where every state leads to the same, what is reached is always so.
* `exists_yields`: a run from one state shows what is reached.

Out of scope: what a state is, and how it is changed on the way; `CellTx.Proofs.Asking` and
`CellTx.Proofs.Recording` look at that.
-/

namespace CellTx

variable {ε σ α β : Type}

/-- Some state of the world leads to `a`. -/
def Reaches (m : StateM σ α) (a : α) : Prop := ∃ s s', m.run s = (a, s')

/-- Every state of the world leads to `a`. -/
def Always (m : StateM σ α) (a : α) : Prop := ∀ s, ∃ s', m.run s = (a, s')

/-- Some state of the world leads to the value `x`. -/
def Yields (m : ExceptT ε (StateM σ) α) (x : α) : Prop := Reaches m.run (.ok x)

/-- Every state of the world leads to the value or failure `r`. -/
def Ends (m : ExceptT ε (StateM σ) α) (r : Except ε α) : Prop := Always m.run r

/-- Every state of the world leads to the same. -/
def Steady (m : ExceptT ε (StateM σ) α) : Prop := ∃ r, Ends m r

/-! ## States -/

theorem Reaches.of_pure {a b : α} (h : Reaches (pure a : StateM σ α) b) : b = a := by
  obtain ⟨s, s', h⟩ := h
  exact (congrArg Prod.fst h).symm

theorem Reaches.bind {m : StateM σ α} {f : α → StateM σ β} {b : β} (h : Reaches (m >>= f) b) :
    ∃ a, Reaches m a ∧ Reaches (f a) b := by
  obtain ⟨s, s', h⟩ := h
  exact ⟨(m.run s).1, ⟨s, (m.run s).2, rfl⟩, (m.run s).2, s', h⟩

theorem Reaches.of_map {m : StateM σ α} {f : α → β} {b : β} (h : Reaches (f <$> m) b) :
    ∃ a, Reaches m a ∧ b = f a := by
  rw [map_eq_pure_bind] at h
  obtain ⟨a, hm, hf⟩ := h.bind
  exact ⟨a, hm, hf.of_pure⟩

theorem Always.pure (a : α) : Always (pure a : StateM σ α) a := fun s => ⟨s, rfl⟩

theorem Always.bind {m : StateM σ α} {f : α → StateM σ β} {a : α} {b : β} (hm : Always m a)
    (hf : Always (f a) b) : Always (m >>= f) b := by
  intro s
  obtain ⟨s₁, h₁⟩ := hm s
  obtain ⟨s₂, h₂⟩ := hf s₁
  refine ⟨s₂, ?_⟩
  rw [StateT.run_bind, h₁]
  exact h₂

theorem Always.map {m : StateM σ α} {a : α} (f : α → β) (h : Always m a) :
    Always (f <$> m) (f a) := by
  rw [map_eq_pure_bind]
  exact h.bind (Always.pure _)

theorem Always.eq {m : StateM σ α} {a b : α} (ha : Always m a) (hb : Reaches m b) : a = b := by
  obtain ⟨s, s', hb⟩ := hb
  obtain ⟨s'', ha⟩ := ha s
  exact (congrArg Prod.fst (ha.symm.trans hb))

/-! ## Values and failures -/

theorem Yields.of_pure {x y : α} (h : Yields (pure x : ExceptT ε (StateM σ) α) y) : y = x :=
  Except.ok.inj (Reaches.of_pure h)

theorem not_yields_throw {e : ε} {x : α} : ¬ Yields (throw e : ExceptT ε (StateM σ) α) x :=
  fun h => nomatch Reaches.of_pure h

theorem Yields.of_throw_if {p : Prop} [Decidable p] {e : ε} {m : ExceptT ε (StateM σ) α} {x : α}
    (h : Yields (if p then throw e else m) x) : ¬ p ∧ Yields m x := by
  split at h
  · exact absurd h not_yields_throw
  · exact ⟨‹¬ p›, h⟩

theorem Yields.bind {m : ExceptT ε (StateM σ) α} {f : α → ExceptT ε (StateM σ) β} {y : β}
    (h : Yields (m >>= f) y) : ∃ x, Yields m x ∧ Yields (f x) y := by
  rw [Yields, ExceptT.run_bind] at h
  obtain ⟨r, hm, hf⟩ := Reaches.bind h
  cases r with
  | ok x => exact ⟨x, hm, hf⟩
  | error e => exact absurd (Reaches.of_pure hf) (by simp)

theorem Yields.of_map {m : ExceptT ε (StateM σ) α} {f : α → β} {y : β} (h : Yields (f <$> m) y) :
    ∃ x, Yields m x ∧ y = f x := by
  rw [map_eq_pure_bind] at h
  obtain ⟨x, hm, hf⟩ := h.bind
  exact ⟨x, hm, hf.of_pure⟩

theorem Yields.of_lift {m : StateM σ α} {x : α} (h : Yields (liftM m : ExceptT ε (StateM σ) α) x) :
    Reaches m x := by
  obtain ⟨a, ha, hx⟩ := Reaches.of_map (f := Except.ok) h
  rw [Except.ok.inj hx]
  exact ha

theorem Ends.pure (x : α) : Ends (pure x : ExceptT ε (StateM σ) α) (.ok x) := Always.pure _

theorem Ends.throw (e : ε) : Ends (throw e : ExceptT ε (StateM σ) α) (.error e) := Always.pure _

theorem Ends.bind {m : ExceptT ε (StateM σ) α} {f : α → ExceptT ε (StateM σ) β} {x : α}
    {r : Except ε β} (hm : Ends m (.ok x)) (hf : Ends (f x) r) : Ends (m >>= f) r := by
  rw [Ends, ExceptT.run_bind]
  exact Always.bind hm hf

theorem Ends.bind_error {m : ExceptT ε (StateM σ) α} {e : ε} (f : α → ExceptT ε (StateM σ) β)
    (hm : Ends m (.error e)) : Ends (m >>= f) (.error e) := by
  rw [Ends, ExceptT.run_bind]
  exact Always.bind hm (Always.pure _)

theorem Ends.of_lift {m : StateM σ α} {x : α} (h : Always m x) :
    Ends (liftM m : ExceptT ε (StateM σ) α) (.ok x) :=
  Always.map Except.ok h

theorem Ends.eq {m : ExceptT ε (StateM σ) α} {x y : α} (hx : Ends m (.ok x)) (hy : Yields m y) :
    x = y :=
  Except.ok.inj (Always.eq hx hy)

theorem Ends.yields [Inhabited σ] {m : ExceptT ε (StateM σ) α} {x : α} (h : Ends m (.ok x)) :
    Yields m x := by
  obtain ⟨s', h⟩ := h default
  exact ⟨default, s', h⟩

/-- A state that leads to `a`. -/
theorem reaches_of_run {m : StateM σ α} {s : σ} {a : α} (h : (m.run s).1 = a) : Reaches m a :=
  ⟨s, (m.run s).2, h ▸ rfl⟩

/-- A state that leads to a value with a property. -/
theorem exists_yields {m : ExceptT ε (StateM σ) α} {s : σ} (p : α → Bool)
    (h : (m.run.run s).1.toOption.any p = true) : ∃ x, Yields m x ∧ p x = true := by
  rcases hr : m.run.run s with ⟨r, s'⟩
  rw [hr] at h
  cases r with
  | ok x => exact ⟨x, ⟨s, s', hr⟩, h⟩
  | error e => exact absurd h Bool.false_ne_true

/-! ## Answers, results and demands -/

theorem yields_ask {q : Query σ α} {x : α} : Yields (Build.ask q) x ↔ Yields q x := by
  rw [Yields, Build.ask, ExceptT.run_adapt]
  constructor
  · intro h
    obtain ⟨r, hr, hx⟩ := h.of_map
    cases r with
    | ok y => exact Except.ok.inj hx ▸ hr
    | error e => exact nomatch hx
  · rintro ⟨s, s', h⟩
    exact ⟨s, s', by rw [StateT.run_map, h]; rfl⟩

theorem Ends.ask {q : Query σ α} {x : α} (h : Ends q (.ok x)) : Ends (Build.ask q) (.ok x) := by
  rw [Ends, Build.ask, ExceptT.run_adapt]
  exact Always.map (Except.mapError Failure.query) h

theorem Yields.of_ofExcept {e : Except Failure α} {x : α}
    (h : Yields (Build.ofExcept e : Build σ α) x) : e = .ok x := by
  cases e with
  | ok y => rw [h.of_pure]
  | error f => exact absurd h not_yields_throw

theorem Yields.of_decoded {r : Except EncodingError α} {x : α}
    (h : Yields (Build.decoded r : Build σ α) x) : r = .ok x := by
  cases r with
  | ok y => rw [h.of_pure]
  | error e => exact absurd h not_yields_throw

theorem Yields.of_demand {f : Failure} {o : Option α} {x : α}
    (h : Yields (Build.demand f o : Build σ α) x) : o = some x := by
  cases o with
  | some y => rw [h.of_pure]
  | none => exact absurd h not_yields_throw

theorem ends_ofExcept (r : Except Failure α) : Ends (Build.ofExcept r : Build σ α) r := by
  cases r with
  | ok x => exact Ends.pure x
  | error f => exact Ends.throw f

theorem ends_decoded_ok (x : α) : Ends (Build.decoded (.ok x) : Build σ α) (.ok x) := Ends.pure x

theorem ends_demand_some (f : Failure) (x : α) :
    Ends (Build.demand f (some x) : Build σ α) (.ok x) := Ends.pure x

theorem ends_demand_none (f : Failure) :
    Ends (Build.demand f none : Build σ α) (.error f) := Ends.throw f

theorem Ends.ask_error {q : Query σ α} {e : QueryError} (h : Ends q (.error e)) :
    Ends (Build.ask q) (.error (.query e)) := by
  rw [Ends, Build.ask, ExceptT.run_adapt]
  exact Always.map (Except.mapError Failure.query) h

/-! ## What does not depend on the state -/

theorem Steady.bind {m : ExceptT ε (StateM σ) α} {f : α → ExceptT ε (StateM σ) β}
    (hm : Steady m) (hf : ∀ x, Steady (f x)) : Steady (m >>= f) := by
  obtain ⟨r, hr⟩ := hm
  cases r with
  | ok x =>
    obtain ⟨r', hr'⟩ := hf x
    exact ⟨r', hr.bind hr'⟩
  | error e => exact ⟨.error e, Ends.bind_error f hr⟩

theorem Steady.ask {q : Query σ α} (h : Steady q) : Steady (Build.ask q) := by
  obtain ⟨r, hr⟩ := h
  cases r with
  | ok x => exact ⟨.ok x, hr.ask⟩
  | error e => exact ⟨.error (.query e), hr.ask_error⟩

theorem steady_demand (f : Failure) (o : Option α) : Steady (Build.demand f o : Build σ α) := by
  cases o with
  | some x => exact ⟨.ok x, ends_demand_some f x⟩
  | none => exact ⟨.error f, ends_demand_none f⟩

theorem Steady.ends {m : ExceptT ε (StateM σ) α} {x : α} (h : Steady m) (hx : Yields m x) :
    Ends m (.ok x) := by
  obtain ⟨r, hr⟩ := h
  have heq : r = .ok x := Always.eq hr hx
  exact heq ▸ hr

/-- A successful sequence of results, taken apart. -/
theorem except_bind_eq_ok {e : Except ε α} {f : α → Except ε β} {y : β} :
    (e >>= f) = .ok y ↔ ∃ x, e = .ok x ∧ f x = .ok y := by
  cases e with
  | ok x => exact ⟨fun h => ⟨x, rfl, h⟩, fun ⟨_, hx, h⟩ => (Except.ok.inj hx) ▸ h⟩
  | error e => exact ⟨nofun, nofun⟩

/-- A sequence of results that fails does so in the first step or in a later one. -/
theorem except_bind_eq_error {r : Except ε α} {f : α → Except ε β} {e : ε}
    (h : (r >>= f) = .error e) : r = .error e ∨ ∃ x, r = .ok x ∧ f x = .error e := by
  cases r with
  | ok x => exact Or.inr ⟨x, rfl, h⟩
  | error e' => exact Or.inl (congrArg Except.error (Except.error.inj h))

end CellTx
