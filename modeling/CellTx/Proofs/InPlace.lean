import CellTx.Balance

/-!
# Balancing in place

A draft that its owner keeps is still there after an operation that failed, with all that the
operation had done to it by then. An `Edit` is a program on such a draft, and the operations of
balancing are edits (`InPlace`).

Results:
* `InPlace.returned_collectCapacity`, `InPlace.returned_collectTokens`,
  `InPlace.returned_settleChange`: to an owner who drops the draft when they fail, the edits are the
  operations that return a draft.
* `Edit.Leaves.look_bind` and its companions: what an edit does to the draft, whatever it comes to,
  passes from its steps to the whole.
* `InPlace.leaves_collectCapacity`: collecting does nothing but spend cells.

Out of scope: drafts that several owners keep.
-/

namespace CellTx

variable {σ α β : Type}

/-! ## Edits -/

/-- A program on a draft. What it has done to the draft stays when it fails. -/
abbrev Edit (σ α : Type) := ExceptT Failure (StateT Draft (StateM σ)) α

namespace Edit

/-- The draft as it is. -/
def draft : Edit σ Draft := ExceptT.mk fun d => pure (.ok d, d)

/-- Puts another draft in the place of the draft. -/
def replace (d : Draft) : Edit σ Unit := ExceptT.mk fun _ => pure (.ok (), d)

/-- Finds something out. -/
def look (m : Build σ α) : Edit σ α := ExceptT.mk fun d => do return (← m.run, d)

/-- What an edit comes to, and the draft and the world afterwards. -/
def on (e : Edit σ α) (d : Draft) (s : σ) : Except Failure α × Draft × σ :=
  let ((r, d'), s') := (e.run.run d).run s
  (r, d', s')

/-- What an edit returns to an owner who drops the draft when it fails. -/
def returned (e : Edit σ α) (d : Draft) : Build σ (α × Draft) :=
  ExceptT.mk fun s => ((e.on d s).1.map fun x => (x, (e.on d s).2.1), (e.on d s).2.2)

/-! ### Runs -/

section Runs

variable {d d' : Draft} {s s' : σ}

@[simp] theorem on_draft (d : Draft) (s : σ) : (draft : Edit σ Draft).on d s = (.ok d, d, s) := rfl

@[simp] theorem on_replace (d' d : Draft) (s : σ) :
    (replace d' : Edit σ Unit).on d s = (.ok (), d', s) := rfl

@[simp] theorem on_look (m : Build σ α) (d : Draft) (s : σ) :
    (look m).on d s = ((m.run.run s).1, d, (m.run.run s).2) := rfl

@[simp] theorem on_look_ofExcept (r : Except Failure α) (d : Draft) (s : σ) :
    (look (Build.ofExcept r)).on d s = (r, d, s) := by
  cases r <;> rfl

@[simp] theorem on_look_decoded (r : Except EncodingError α) (d : Draft) (s : σ) :
    (look (Build.decoded r)).on d s = (r.mapError Failure.encoding, d, s) :=
  on_look_ofExcept _ d s

@[simp] theorem on_look_demand (f : Failure) (x : α) (d : Draft) (s : σ) :
    (look (Build.demand f (some x))).on d s = (.ok x, d, s) := rfl

@[simp] theorem on_look_demand_none (f : Failure) (d : Draft) (s : σ) :
    (look (Build.demand f (none : Option α))).on d s = (.error f, d, s) := rfl

/-- A sequence goes on where its first part ended, unless that failed. -/
theorem on_bind (e : Edit σ α) (f : α → Edit σ β) (d : Draft) (s : σ) :
    (e >>= f).on d s =
      match e.on d s with
      | (.ok x, d', s') => (f x).on d' s'
      | (.error g, d', s') => (.error g, d', s') := by
  unfold on
  rw [ExceptT.run_bind, StateT.run_bind, StateT.run_bind]
  rcases (e.run.run d).run s with ⟨⟨_ | x, d'⟩, s'⟩ <;> rfl

theorem on_bind_ok {e : Edit σ α} {x : α} (f : α → Edit σ β) (h : e.on d s = (.ok x, d', s')) :
    (e >>= f).on d s = (f x).on d' s' := by
  rw [on_bind, h]

theorem on_bind_error {e : Edit σ α} {g : Failure} (f : α → Edit σ β)
    (h : e.on d s = (.error g, d', s')) : (e >>= f).on d s = (.error g, d', s') := by
  rw [on_bind, h]

end Runs

/-! ### Dropping the draft -/

@[simp] theorem returned_draft_bind (f : Draft → Edit σ β) (d : Draft) :
    (draft >>= f).returned d = (f d).returned d := rfl

@[simp] theorem returned_replace_bind (d' : Draft) (f : Unit → Edit σ β) (d : Draft) :
    (replace d' >>= f).returned d = (f ()).returned d' := rfl

@[simp] theorem returned_look_bind (m : Build σ α) (f : α → Edit σ β) (d : Draft) :
    (look m >>= f).returned d = m >>= fun x => (f x).returned d := by
  refine funext fun s => ?_
  change (((look m >>= f).on d s).1.map fun x => (x, ((look m >>= f).on d s).2.1),
    ((look m >>= f).on d s).2.2) = (m >>= fun x => (f x).returned d).run.run s
  rw [on_bind, on_look, ExceptT.run_bind, StateT.run_bind]
  rcases m.run.run s with ⟨_ | x, s'⟩ <;> rfl

/-! ### Operations -/

/-- One operation on the draft, which does nothing to it when it fails. -/
def apply (f : Draft → Except Failure Draft) : Edit σ Unit := do
  let d ← draft
  let d' ← look (Build.ofExcept (f d))
  replace d'

theorem on_apply_ok {f : Draft → Except Failure Draft} {d d' : Draft} (s : σ) (h : f d = .ok d') :
    (apply f).on d s = (.ok (), d', s) := by
  have hlook : (look (Build.ofExcept (f d)) : Edit σ Draft).on d s = (.ok d', d, s) := by
    rw [on_look_ofExcept, h]
  exact (on_bind_ok _ (on_draft d s)).trans (on_bind_ok _ hlook)

@[simp] theorem returned_apply (f : Draft → Except Failure Draft) (d : Draft) :
    Prod.snd <$> (apply f : Edit σ Unit).returned d = Build.ofExcept (f d) := by
  have hreturned : (apply f : Edit σ Unit).returned d =
      Build.ofExcept (f d) >>= fun d' => pure ((), d') :=
    (returned_draft_bind _ d).trans (returned_look_bind _ _ d)
  rw [hreturned]
  cases f d <;> rfl

/-! ### What an edit leaves behind -/

/-- Whatever state the world is in, the edit of a draft comes to a result and a draft that are
related so. -/
def Leaves (Q : Except Failure α → Draft → Prop) (d : Draft) (e : Edit σ α) : Prop :=
  ∀ s, Q (e.on d s).1 (e.on d s).2.1

namespace Leaves

variable {Q Q' : Except Failure α → Draft → Prop} {d : Draft}

theorem mono {e : Edit σ α} (h : Leaves Q d e) (hQ : ∀ r d', Q r d' → Q' r d') :
    Leaves Q' d e := fun s => hQ _ _ (h s)

theorem pure {x : α} (h : Q (.ok x) d) : Leaves Q d (pure x : Edit σ α) := fun _ => h

theorem throw {f : Failure} (h : Q (.error f) d) : Leaves Q d (throw f : Edit σ α) := fun _ => h

theorem draft_bind {f : Draft → Edit σ α} (h : Leaves Q d (f d)) :
    Leaves Q d (draft >>= f) := h

theorem replace_bind {d' : Draft} {f : Unit → Edit σ α} (h : Leaves Q d' (f ())) :
    Leaves Q d (replace d' >>= f) := h

/-- An answer leaves the draft as it is, also when there is none. -/
theorem look_bind {m : Build σ β} {f : β → Edit σ α} (herror : ∀ g, Q (.error g) d)
    (h : ∀ x, Leaves Q d (f x)) : Leaves Q d (look m >>= f) := by
  intro s
  rw [on_bind, on_look]
  rcases m.run.run s with ⟨_ | x, s'⟩
  · exact herror _
  · exact h x s'

end Leaves

end Edit

/-! ## Spending on -/

namespace Draft

/-- The draft, and some cells that are spent after its inputs. -/
def SpendsOn (d d' : Draft) : Prop := ∃ cells : List LiveCell, d' = cells.foldl Draft.consume d

namespace SpendsOn

variable {d d' : Draft}

theorem refl (d : Draft) : d.SpendsOn d := ⟨[], rfl⟩

theorem of_consume {c : LiveCell} (h : (d.consume c).SpendsOn d') : d.SpendsOn d' := by
  obtain ⟨cells, rfl⟩ := h
  exact ⟨c :: cells, rfl⟩

/-- Nothing but the inputs changes, and those that were there stay. -/
theorem kept (h : d.SpendsOn d') :
    d'.version = d.version ∧ d'.headerDeps = d.headerDeps ∧ d'.cellDeps = d.cellDeps ∧
      d'.outputs = d.outputs ∧ d'.change = d.change ∧ d.inputs <+: d'.inputs := by
  obtain ⟨cells, rfl⟩ := h
  induction cells generalizing d with
  | nil => exact ⟨rfl, rfl, rfl, rfl, rfl, List.prefix_rfl⟩
  | cons c cells ih =>
    obtain ⟨hversion, hheaders, hdeps, houtputs, hchange, hinputs⟩ := ih (d := d.consume c)
    exact ⟨hversion, hheaders, hdeps, houtputs, hchange,
      (List.prefix_append d.inputs _).trans hinputs⟩

end SpendsOn

end Draft

/-! ## Balancing -/

namespace InPlace

open Edit

/-- `Assembler.collectCapacityWithin` in place. -/
def collectCapacityWithin (a : Assembler σ) (bound : Nat) :
    Nat → Collected → List CellStream → Edit σ Collected
  | 0, _, _ => throw (.defect .endlessSearch)
  | fuel + 1, got, streams => do
    let d ← draft
    let b ← look (a.measure d)
    if b.isSufficient then return got
    let accept := fun c : LiveCell => !d.spends c.outPoint && c.cell.isPlain
    match ← look (CellStream.find a.ledger accept bound streams) with
    | (some c, streams) => do
      let got ← look (Build.ofExcept (got.add c))
      replace (d.consume c)
      collectCapacityWithin a bound fuel got streams
    | (none, _) => if b.isExact then return got else throw b.shortfall

/-- `Assembler.collectCapacity` in place. -/
def collectCapacity (a : Assembler σ) (streams : List CellStream) : Edit σ Collected :=
  let bound := CellStream.bound a.ledger streams
  collectCapacityWithin a bound bound {} streams

/-- `Assembler.collectTokensWithin` in place. -/
def collectTokensWithin (a : Assembler σ) (bound : Nat) (type : Script) (required : TokenAmount) :
    Nat → Collected × TokenAmount → List CellStream → Edit σ (Collected × TokenAmount)
  | 0, _, _ => throw (.defect .endlessSearch)
  | fuel + 1, (got, amount), streams => do
    if required ≤ amount then return (got, amount)
    let d ← draft
    let accept := fun c : LiveCell => !d.spends c.outPoint && c.cell.hasType type
    match ← look (CellStream.find a.ledger accept bound streams) with
    | (some c, streams) => do
      let held ← look (Build.decoded (TokenAmount.ofData c.cell.data))
      let amount ← look (Build.demand .collectedTokensTooLarge (TokenAmount.add? amount held))
      let got ← look (Build.ofExcept (got.add c))
      replace (d.consume c)
      collectTokensWithin a bound type required fuel (got, amount) streams
    | (none, _) => throw (.insufficientTokens required amount)

/-- `Assembler.collectTokens` in place. -/
def collectTokens (a : Assembler σ) (type : Script) (required : TokenAmount)
    (streams : List CellStream) : Edit σ (Collected × TokenAmount) :=
  let bound := CellStream.bound a.ledger streams
  collectTokensWithin a bound type required bound ({}, 0) streams

/-- `Draft.settleTokenChange` in place. -/
def settleTokenChange (i : Nat) (collected required : TokenAmount) : Edit σ Unit :=
  if collected < required then throw (.insufficientTokens required collected)
  else if collected = required then apply (·.removeOutput i)
  else apply (·.setData i (TokenAmount.data (collected - required)))

/-- `Assembler.settleChange` in place. -/
def settleChange (a : Assembler σ) : Edit σ Unit := do
  let d ← draft
  match d.change with
  | none => pure ()
  | some i => do
    let b ← look (a.measure d)
    let left ← look (Build.demand b.shortfall b.leftover?)
    let change ← look (Build.demand .capacityOverflow (Capacity.ofNat? left))
    let occupied ← look (Build.ofExcept (d.occupied i))
    if occupied ≤ change then apply (·.setCapacity i change)
    else apply (·.removeOutput i)

/-! ### What is returned -/

section Returned

variable (a : Assembler σ) (d : Draft)

theorem returned_collectCapacityWithin (bound fuel : Nat) (got : Collected)
    (streams : List CellStream) :
    (collectCapacityWithin a bound fuel got streams).returned d =
      a.collectCapacityWithin bound fuel got d streams := by
  induction fuel generalizing got d streams with
  | zero => rfl
  | succ fuel ih =>
    rw [collectCapacityWithin, Assembler.collectCapacityWithin, returned_draft_bind,
      returned_look_bind]
    refine bind_congr fun b => ?_
    split
    · rfl
    rw [returned_look_bind]
    refine bind_congr fun found => ?_
    obtain ⟨_ | c, rest⟩ := found
    · dsimp only
      split <;> rfl
    · simp only [returned_look_bind, returned_replace_bind, ih]

theorem returned_collectCapacity (streams : List CellStream) :
    (collectCapacity a streams).returned d = a.collectCapacity d streams :=
  returned_collectCapacityWithin a d _ _ {} streams

theorem returned_collectTokensWithin (bound fuel : Nat) (type : Script) (required : TokenAmount)
    (got : Collected × TokenAmount) (streams : List CellStream) :
    (collectTokensWithin a bound type required fuel got streams).returned d =
      a.collectTokensWithin bound type required fuel got d streams := by
  induction fuel generalizing got d streams with
  | zero => rfl
  | succ fuel ih =>
    obtain ⟨got, amount⟩ := got
    rw [collectTokensWithin, Assembler.collectTokensWithin]
    split
    · rfl
    rw [returned_draft_bind, returned_look_bind]
    refine bind_congr fun found => ?_
    obtain ⟨_ | c, rest⟩ := found
    · rfl
    · simp only [returned_look_bind, returned_replace_bind, ih]

theorem returned_collectTokens (type : Script) (required : TokenAmount)
    (streams : List CellStream) :
    (collectTokens a type required streams).returned d =
      a.collectTokens d type required streams :=
  returned_collectTokensWithin a d _ _ type required ({}, 0) streams

theorem returned_settleTokenChange (i : Nat) (collected required : TokenAmount) :
    Prod.snd <$> (settleTokenChange i collected required : Edit σ Unit).returned d =
      Build.ofExcept (d.settleTokenChange i collected required) := by
  unfold settleTokenChange Draft.settleTokenChange
  split
  · rfl
  · split <;> exact returned_apply _ d

theorem returned_settleChange :
    Prod.snd <$> (settleChange a).returned d = a.settleChange d := by
  unfold settleChange Assembler.settleChange
  rw [returned_draft_bind]
  cases d.change with
  | none => rfl
  | some i =>
    simp only [returned_look_bind, map_bind]
    refine bind_congr fun b => bind_congr fun left => bind_congr fun change => ?_
    refine bind_congr fun occupied => ?_
    split <;> exact returned_apply _ d

end Returned

/-! ### What is left behind -/

section Left

variable (a : Assembler σ) (d : Draft)

/-- Whatever comes of it, a collection of capacity does nothing to the draft but spend cells. -/
theorem leaves_collectCapacity (streams : List CellStream) :
    Leaves (fun _ d' => d.SpendsOn d') d (collectCapacity a streams) := by
  suffices h : ∀ bound fuel got d streams,
      Leaves (fun _ d' => d.SpendsOn d') d (collectCapacityWithin a bound fuel got streams) from
    h _ _ _ _ _
  intro bound fuel
  induction fuel with
  | zero => exact fun _ d _ => Leaves.throw (Draft.SpendsOn.refl d)
  | succ fuel ih =>
    intro got d streams
    rw [collectCapacityWithin]
    refine Leaves.draft_bind (Leaves.look_bind (fun _ => Draft.SpendsOn.refl d) fun b => ?_)
    split
    · exact Leaves.pure (Draft.SpendsOn.refl d)
    refine Leaves.look_bind (fun _ => Draft.SpendsOn.refl d) fun found => ?_
    obtain ⟨_ | c, rest⟩ := found
    · dsimp only
      split
      · exact Leaves.pure (Draft.SpendsOn.refl d)
      · exact Leaves.throw (Draft.SpendsOn.refl d)
    · refine Leaves.look_bind (fun _ => Draft.SpendsOn.refl d) fun got => ?_
      exact Leaves.replace_bind ((ih got _ rest).mono fun _ _ h => h.of_consume)

end Left

end InPlace
end CellTx
