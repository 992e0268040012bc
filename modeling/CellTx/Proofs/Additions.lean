import CellTx.Proofs.Construction

/-!
# How inputs come into a draft

Inputs are only ever added, one spent cell after the other (`NewInput`, `Draft.addNew`). What an
addition appends depends on the inputs before it and on nothing else, so a draft is, as far as its
inputs go, a sequence of additions. Every flow builds its inputs like that (`Draft.Adds`).

Results:
* `inputs_addAll_congr`, `prefix_inputs_addAll`: the inputs of a sequence depend on the inputs it
  starts from, which stay in front.
* `Adds.of_collectCapacity`, `Adds.of_collectTokens`: collections add inputs.
* `Construction.adds`: the inputs of every result are those of additions to the empty draft.

Out of scope: which cells are added. What the witnesses of additions are is in
`CellTx.Proofs.Placeholders`.
-/

namespace CellTx

variable {σ : Type}

/-- What is given for an input. -/
structure NewInput where
  outPoint : OutPoint
  cell : Cell
  since : Since
  inputType : Option Bytes
  /-- What the input is worth, when that is not what the cell holds. -/
  worth : Option Capacity

/-- What is given for type scripts is a number in eight bytes, if anything. -/
def NewInput.Brief (n : NewInput) : Prop := ∀ t, n.inputType = some t → t.length = 8

namespace Draft

/-- Spends a cell, at a worth of its own if there is one. -/
def addNew (d : Draft) (n : NewInput) : Draft :=
  match n.worth with
  | none => d.addInput n.outPoint n.cell n.since n.inputType
  | some worth => d.addInputWorth n.outPoint n.cell n.since n.inputType worth

/-- Spends cells one after the other. -/
def addAll (d : Draft) (l : List NewInput) : Draft := l.foldl addNew d

/-- What an addition appends to the inputs of a draft. -/
def entry (d : Draft) (n : NewInput) : DraftInput where
  outPoint := n.outPoint
  since := n.since
  cell := n.cell
  worth := n.worth.getD n.cell.capacity
  witness := d.witnessFor n.cell.lock.hash n.inputType
  lockHash := n.cell.lock.hash

/-! ## Additions -/

@[simp] theorem inputs_addNew (d : Draft) (n : NewInput) :
    (d.addNew n).inputs = d.inputs ++ [d.entry n] := by
  unfold addNew entry
  split
  · rename_i h
    simp [addInput, h]
  · rename_i worth h
    simp [h]

/-- An addition sees the inputs of a draft only. -/
theorem entry_congr {d d' : Draft} (h : d.inputs = d'.inputs) (n : NewInput) :
    d.entry n = d'.entry n := by
  unfold entry witnessFor
  rw [h]

theorem addAll_append (d : Draft) (l m : List NewInput) :
    d.addAll (l ++ m) = (d.addAll l).addAll m := List.foldl_append

theorem inputs_addAll_congr {d d' : Draft} (h : d.inputs = d'.inputs) (l : List NewInput) :
    (d.addAll l).inputs = (d'.addAll l).inputs := by
  induction l generalizing d d' with
  | nil => exact h
  | cons n l ih => exact ih (by rw [inputs_addNew, inputs_addNew, h, entry_congr h])

/-- Additions leave the inputs before them alone. -/
theorem prefix_inputs_addAll (d : Draft) (l : List NewInput) :
    d.inputs <+: (d.addAll l).inputs := by
  induction l generalizing d with
  | nil => exact List.prefix_refl d.inputs
  | cons n l ih =>
    refine List.IsPrefix.trans ?_ (ih (d.addNew n))
    rw [inputs_addNew]
    exact List.prefix_append _ _

/-- What an addition takes over as it is given is found again in the inputs. -/
theorem map_inputs_addAll {α : Type} {f : DraftInput → α} {g : NewInput → α}
    (hentry : ∀ d n, f (entry d n) = g n) (d : Draft) (l : List NewInput) :
    (d.addAll l).inputs.map f = d.inputs.map f ++ l.map g := by
  induction l generalizing d with
  | nil => exact (List.append_nil _).symm
  | cons n l ih =>
    change ((d.addNew n).addAll l).inputs.map f = _
    rw [ih, inputs_addNew, List.map_append, List.append_assoc, List.map_singleton, hentry,
      List.map_cons, List.singleton_append]

theorem locks_addAll (l : List NewInput) :
    (empty.addAll l).inputs.map (·.cell.lock) = l.map (·.cell.lock) :=
  map_inputs_addAll (fun _ _ => rfl) empty l

/-- The input at a place is what its addition appends to the additions before it. -/
theorem getElem?_inputs_addAll {d : Draft} {l : List NewInput} {i : Nat} {n : NewInput}
    (h : l[i]? = some n) :
    (d.addAll l).inputs[d.inputs.length + i]? = some ((d.addAll (l.take i)).entry n) := by
  induction l generalizing d i with
  | nil => exact nomatch h
  | cons m l ih =>
    have hlength : (d.addNew m).inputs.length = d.inputs.length + 1 := by simp
    cases i with
    | zero =>
      obtain rfl := Option.some.inj h
      obtain ⟨rest, hrest⟩ := (d.addNew m).prefix_inputs_addAll l
      change ((d.addNew m).addAll l).inputs[d.inputs.length]? = some (d.entry m)
      rw [← hrest, inputs_addNew, List.append_assoc, List.getElem?_append_right (Nat.le_refl _),
        Nat.sub_self]
      rfl
    | succ i =>
      have := ih (d := d.addNew m) h
      rw [hlength, Nat.add_right_comm, Nat.add_assoc] at this
      exact this

/-! ## What adds inputs -/

/-- The inputs of one draft are those of another and some additions. -/
def Adds (d d' : Draft) : Prop :=
  ∃ l : List NewInput, (∀ n ∈ l, n.Brief) ∧ d'.inputs = (d.addAll l).inputs

namespace Adds

variable {d d' d'' : Draft}

theorem of_eq (h : d'.inputs = d.inputs) : d.Adds d' := ⟨[], List.forall_mem_nil _, h⟩

theorem trans (h : d.Adds d') (h' : d'.Adds d'') : d.Adds d'' := by
  obtain ⟨l, hbrief, hl⟩ := h
  obtain ⟨m, hbrief', hm⟩ := h'
  refine ⟨l ++ m, List.forall_mem_append.mpr ⟨hbrief, hbrief'⟩, ?_⟩
  rw [hm, inputs_addAll_congr hl, addAll_append]

theorem addInput (d : Draft) (p : OutPoint) (c : Cell) (since : Since) :
    d.Adds (d.addInput p c since none) :=
  ⟨[⟨p, c, since, none, none⟩], List.forall_mem_singleton.mpr nofun, rfl⟩

/-- An input with a number for type scripts. -/
theorem addInputWorth (d : Draft) (p : OutPoint) (c : Cell) (since : Since) (i : Nat)
    (worth : Capacity) : d.Adds (d.addInputWorth p c since (some (leBytes 8 i)) worth) := by
  refine ⟨[⟨p, c, since, some (leBytes 8 i), some worth⟩], List.forall_mem_singleton.mpr ?_, rfl⟩
  intro t ht
  rw [← Option.some.inj ht, length_leBytes]

theorem foldl_consume (cells : List LiveCell) (d : Draft) :
    d.Adds (cells.foldl Draft.consume d) := by
  induction cells generalizing d with
  | nil => exact of_eq rfl
  | cons c cells ih => exact (addInput d _ _ _).trans (ih (d.consume c))

theorem of_pass {l : Ledger σ} {keys : List SearchKey} {accept : Cell → Bool}
    {cells : List LiveCell} (h : Pass l keys accept d cells d') : d.Adds d' := by
  induction h with
  | done => exact of_eq rfl
  | @spend d _ c _ _ _ _ _ ih => exact (addInput d _ _ _).trans ih

theorem of_collectCapacity {a : Assembler σ} {keys : List SearchKey} {got : Collected}
    (h : Yields (a.collectCapacity d (keys.map a.stream)) (got, d')) : d.Adds d' := by
  obtain ⟨cells, hpass, -⟩ := Assembler.collectCapacity_spec h
  exact of_pass hpass

theorem of_collectTokens {a : Assembler σ} (keys : List SearchKey) {type : Script}
    {required amount : TokenAmount} {got : Collected}
    (h : Yields (a.collectTokens d type required (keys.map a.stream)) ((got, amount), d')) :
    d.Adds d' := by
  obtain ⟨cells, hpass, -⟩ := Assembler.collectTokens_spec h
  exact of_pass hpass

end Adds

/-! ## What leaves the inputs alone -/

theorem inputs_settleTokenChange {d d' : Draft} {i : Nat} {collected required : TokenAmount}
    (h : d.settleTokenChange i collected required = .ok d') : d'.inputs = d.inputs := by
  unfold settleTokenChange at h
  split at h
  · exact nomatch h
  split at h
  · exact (removeOutput_eq_ok h).1
  · obtain ⟨c, -, h⟩ := except_bind_eq_ok.mp h
    exact Except.ok.inj h ▸ rfl

end Draft

namespace Assembler

variable {a : Assembler σ} {d d' : Draft}

theorem inputs_addDeposit {owner : Script} {capacity : Capacity}
    (h : a.addDeposit owner capacity d = .ok d') : d'.inputs = d.inputs := by
  obtain ⟨o, -, h⟩ := except_bind_eq_ok.mp h
  split at h
  · exact nomatch h
  · exact Except.ok.inj h ▸ rfl

theorem inputs_addCheque {r : ChequeRequest} (h : a.addCheque r d = .ok d') :
    d'.inputs = d.inputs := by
  obtain ⟨d₁, h₁, h⟩ := except_bind_eq_ok.mp h
  obtain ⟨d₂, h₂, h⟩ := except_bind_eq_ok.mp h
  obtain rfl := Except.ok.inj h
  exact (addRaised_eq_ok h₂).1.trans (addRaised_eq_ok h₁).1

theorem inputs_addReturned {r : ChequeRequest} {c : LiveCell} (h : addReturned r c d = .ok d') :
    d'.inputs = d.inputs := by
  obtain ⟨d₁, h₁, h⟩ := except_bind_eq_ok.mp h
  obtain rfl := Except.ok.inj h
  exact (addRaised_eq_ok h₁).1

theorem inputs_addClaimed {receiver : Script} {owner : Hash} {t : ClaimTally}
    (h : a.addClaimed receiver owner t d = .ok d') : d'.inputs = d.inputs := by
  obtain ⟨d₁, h₁, h⟩ := except_bind_eq_ok.mp h
  obtain rfl := Except.ok.inj h
  exact (Draft.foldl_addOutput t.refunds d₁).1.trans (addRaised_eq_ok h₁).1

/-- Settling the change leaves inputs and header deps alone. -/
theorem frame_settleChange (h : Yields (a.settleChange d) d') :
    d'.inputs = d.inputs ∧ d'.headerDeps = d.headerDeps := by
  rcases of_settleChange h with
    ⟨-, rfl⟩ | ⟨_, _, _, _, _, -, -, -, -, -, ⟨-, hset⟩ | ⟨-, hremove⟩⟩
  · exact ⟨rfl, rfl⟩
  · obtain ⟨_, -, rfl⟩ := Draft.setCapacity_eq_ok.mp hset
    exact ⟨rfl, rfl⟩
  · exact ⟨(Draft.removeOutput_eq_ok hremove).1, Draft.headerDeps_removeOutput hremove⟩

theorem inputs_settleClaim {w : WithdrawingCell} (h : Yields (a.settleClaim w d) d') :
    d'.inputs = d.inputs := by
  obtain ⟨_, _, _, -, -, -, -, rfl⟩ := of_settleClaim h
  rfl

end Assembler

/-! ## Flows -/

/-- A phase leaves the inputs alone. -/
def Frames {Plan : Type} (phase : Plan → Draft → Build σ Draft) : Prop :=
  ∀ plan d d', Yields (phase plan d) d' → d'.inputs = d.inputs

theorem Frames.of_pure {Plan : Type} {f : Plan → Draft → Draft}
    (h : ∀ plan d, (f plan d).inputs = d.inputs) :
    Frames (σ := σ) fun plan d => pure (f plan d) := by
  intro plan d d' hd
  rw [hd.of_pure]
  exact h plan d

/-- A flow that adds inputs in one phase only. -/
structure Flow.AddsInputs {Plan : Type} (flow : Flow σ Plan) : Prop where
  setVersion : Frames flow.setVersion
  setHeaderDeps : Frames flow.setHeaderDeps
  setCellDeps : Frames flow.setCellDeps
  buildOutputs : Frames flow.buildOutputs
  buildInputs : ∀ plan d d', Yields (flow.buildInputs plan d) d' → d.Adds d'
  settleChange : Frames flow.settleChange

/-- The inputs of such a flow are additions to the empty draft. -/
theorem Flow.AddsInputs.adds {Plan : Type} {flow : Flow σ Plan} {r : Assembled}
    (hflow : flow.AddsInputs) (h : Yields flow.assemble r) :
    ∃ d supplied, Draft.empty.Adds d ∧ r.transaction = d.transaction ∧
      r.groups = groupInputs supplied (d.inputs.map (·.cell.lock)) := by
  obtain ⟨plan, d₁, d₂, d₃, d₄, d₅, d, -, h₁, h₂, h₃, h₄, h₅, h₆, ht, -, hg⟩ := Flow.of_assemble h
  refine ⟨d, flow.signingLocks plan, ?_, ht, hg⟩
  have hempty : d₄.inputs = Draft.empty.inputs := by
    rw [hflow.buildOutputs _ _ _ h₄, hflow.setCellDeps _ _ _ h₃, hflow.setHeaderDeps _ _ _ h₂,
      hflow.setVersion _ _ _ h₁]
  exact ((Draft.Adds.of_eq hempty).trans (hflow.buildInputs _ _ _ h₅)).trans
    (.of_eq (hflow.settleChange _ _ _ h₆))

namespace Assembler

variable (a : Assembler σ)

/-- The last step of the phases that collect capacity. -/
theorem adds_of_collected {a : Assembler σ} (keys : List SearchKey) {d d' : Draft}
    (h : Yields (do return (← a.collectCapacity d (keys.map a.stream)).2) d') : d.Adds d' := by
  obtain ⟨⟨got, d₁⟩, hcollect, h⟩ := h.bind
  rw [h.of_pure]
  exact .of_collectCapacity hcollect

theorem addsInputs_transferFlow (r : TransferRequest) : (a.transferFlow r).AddsInputs where
  setVersion := .of_pure fun _ _ => rfl
  setHeaderDeps := .of_pure fun _ _ => rfl
  setCellDeps := .of_pure fun _ _ => Draft.inputs_addCellDep _ _
  buildOutputs := by
    intro _ d d' h
    obtain ⟨d₁, hadd, h⟩ := h.bind
    rw [h.of_pure, ← (TransferRequest.addReceivers_eq_ok hadd.of_ofExcept).1]
    unfold TransferRequest.addChange
    split <;> rfl
  buildInputs := by
    intro _ d d' h
    refine adds_of_collected (a := a) (r.senders.map SearchKey.plainByLock) ?_
    rw [List.map_map]
    exact h
  settleChange := fun _ _ _ h => (frame_settleChange h).1

theorem addsInputs_depositFlow (owner : Script) (capacity : Capacity) :
    (a.depositFlow owner capacity).AddsInputs where
  setVersion := .of_pure fun _ _ => rfl
  setHeaderDeps := .of_pure fun _ _ => rfl
  setCellDeps := .of_pure fun _ _ => by simp
  buildOutputs := fun _ _ _ h => inputs_addDeposit (Yields.of_ofExcept h)
  buildInputs := fun _ _ _ h => adds_of_collected [SearchKey.plainByLock owner] h
  settleChange := fun _ _ _ h => (frame_settleChange h).1

theorem addsInputs_withdrawFlow (p : OutPoint) : (a.withdrawFlow p).AddsInputs where
  setVersion := .of_pure fun _ _ => rfl
  setHeaderDeps := .of_pure fun _ _ => Draft.inputs_addHeaderDep _ _
  setCellDeps := .of_pure fun _ _ => by simp
  buildOutputs := .of_pure fun _ _ => rfl
  buildInputs := fun c d _ h => (Draft.Adds.addInput d _ _ _).trans
    (adds_of_collected [SearchKey.plainByLock c.cell.lock] h)
  settleChange := fun _ _ _ h => (frame_settleChange h).1

theorem addsInputs_claimFlow (p : OutPoint) : (a.claimFlow p).AddsInputs where
  setVersion := .of_pure fun _ _ => rfl
  setHeaderDeps := .of_pure fun _ _ => by simp
  setCellDeps := .of_pure fun _ _ => by simp
  buildOutputs := .of_pure fun _ _ => rfl
  buildInputs := by
    intro w d d' h
    rw [Yields.of_pure h]
    exact (Draft.Adds.of_eq (Draft.inputs_addHeaderDep d _)).trans (.addInputWorth _ _ _ _ _ _)
  settleChange := fun _ _ _ h => inputs_settleClaim h

theorem addsInputs_issueFlow (r : ChequeRequest) : (a.issueFlow r).AddsInputs where
  setVersion := .of_pure fun _ _ => rfl
  setHeaderDeps := .of_pure fun _ _ => rfl
  setCellDeps := .of_pure fun _ _ => by simp
  buildOutputs := fun _ _ _ h => inputs_addCheque (Yields.of_ofExcept h)
  buildInputs := by
    intro _ d d' h
    obtain ⟨⟨⟨_, collected⟩, d₁⟩, htokens, h⟩ := h.bind
    obtain ⟨d₂, hsettle, h⟩ := h.bind
    have htokens' : d.Adds d₁ := Draft.Adds.of_collectTokens
      [SearchKey.byLockAndType r.sender (a.scripts.sudtType r.owner)] htokens
    exact (htokens'.trans (.of_eq (Draft.inputs_settleTokenChange hsettle.of_ofExcept))).trans
      (adds_of_collected [SearchKey.plainByLock r.sender] h)
  settleChange := fun _ _ _ h => (frame_settleChange h).1

theorem addsInputs_claimChequesFlow (receiver : Script) (owner : Hash) :
    (a.claimChequesFlow receiver owner).AddsInputs where
  setVersion := .of_pure fun _ _ => rfl
  setHeaderDeps := .of_pure fun _ _ => rfl
  setCellDeps := .of_pure fun _ _ => by simp
  buildOutputs := fun _ _ _ h => inputs_addClaimed (Yields.of_ofExcept h)
  buildInputs := fun t d _ h => (Draft.Adds.foldl_consume t.cheques d).trans
    (adds_of_collected [SearchKey.plainByLock receiver] h)
  settleChange := fun _ _ _ h => (frame_settleChange h).1

theorem addsInputs_withdrawChequeFlow (r : ChequeRequest) :
    (a.withdrawChequeFlow r).AddsInputs where
  setVersion := .of_pure fun _ _ => rfl
  setHeaderDeps := .of_pure fun _ _ => rfl
  setCellDeps := .of_pure fun _ _ => by simp
  buildOutputs := fun _ _ _ h => inputs_addReturned (Yields.of_ofExcept h)
  buildInputs := fun _ d _ h => (Draft.Adds.addInput d _ _ _).trans
    (adds_of_collected [SearchKey.plainByLock r.sender] h)
  settleChange := fun _ _ _ h => (frame_settleChange h).1

end Assembler

/-- The inputs of every result are those of additions to the empty draft, and the groups are those
of the locks that were added. -/
theorem Construction.adds_brief {a : Assembler σ} {k : Construction} {r : Assembled}
    (h : Yields (k.run a) r) :
    ∃ (l : List NewInput) (supplied : List Script), (∀ n ∈ l, n.Brief) ∧
      r.transaction.inputs = (Draft.empty.addAll l).transaction.inputs ∧
      r.transaction.witnesses = (Draft.empty.addAll l).transaction.witnesses ∧
      r.groups = groupInputs supplied (l.map (·.cell.lock)) := by
  obtain ⟨d, supplied, ⟨l, hbrief, hl⟩, ht, hg⟩ : ∃ (d : Draft) (supplied : List Script),
      Draft.empty.Adds d ∧ r.transaction = d.transaction ∧
      r.groups = groupInputs supplied (d.inputs.map (·.cell.lock)) := by
    cases k with
    | transfer t => exact (a.addsInputs_transferFlow t).adds h
    | deposit owner capacity => exact (a.addsInputs_depositFlow owner capacity).adds h
    | withdraw p => exact (a.addsInputs_withdrawFlow p).adds h
    | claim p => exact (a.addsInputs_claimFlow p).adds h
    | issueCheque c => exact (a.addsInputs_issueFlow c).adds h
    | claimCheques receiver owner => exact (a.addsInputs_claimChequesFlow receiver owner).adds h
    | withdrawCheque c => exact (a.addsInputs_withdrawChequeFlow c).adds h
  refine ⟨l, supplied, hbrief, ?_, ?_, ?_⟩
  · rw [ht]
    exact congrArg (List.map DraftInput.input) hl
  · rw [ht]
    exact congrArg (List.map DraftInput.witnessBytes) hl
  · rw [hg, hl, Draft.locks_addAll]

theorem Construction.adds {a : Assembler σ} {k : Construction} {r : Assembled}
    (h : Yields (k.run a) r) :
    ∃ (l : List NewInput) (supplied : List Script),
      r.transaction.inputs = (Draft.empty.addAll l).transaction.inputs ∧
      r.transaction.witnesses = (Draft.empty.addAll l).transaction.witnesses ∧
      r.groups = groupInputs supplied (l.map (·.cell.lock)) := by
  obtain ⟨l, supplied, -, hadds⟩ := adds_brief h
  exact ⟨l, supplied, hadds⟩

end CellTx
