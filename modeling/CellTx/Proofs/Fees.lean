import CellTx.Proofs.Size
import CellTx.Proofs.Spent

/-!
# Balance and fee of a construction

Under the estimator by size, a successful construction balances: its inputs are worth what its
outputs hold and the fee (specification, section 4.3). The argument is that settling the change sees
the balance at which the collection stopped, and that the size of a transaction does not depend on
capacities.

Results:
* `Completes.changeOutcome`: the fee is the estimate for the transaction, and nothing more is burnt
  than the estimate for a change output that was dropped because it could not be funded
  (`ChangeOutcome`). Without a change output all that is left over is burnt.
* `Claims.fee_eq`: the claim of a withdrawing cell pays exactly the estimate.
* `Construction.balanced`: all of it for the seven constructions, with what the chain says that
  inputs are worth.

Out of scope: other estimators, and whether a fee is enough for a block.
-/

namespace CellTx

variable {σ : Type}

/-! ## Amounts that fit -/

/-- A number of 64 bits is an amount. -/
theorem Capacity.exists_of_lt {m : Nat} (h : m < UInt64.size) : ∃ c : Capacity, c.toNat = m :=
  ⟨UInt64.ofNat m, UInt64.toNat_ofNat_of_lt' h⟩

theorem Capacity.exists_add? {a b : Capacity} (h : a.toNat + b.toNat < UInt64.size) :
    ∃ c, add? a b = some c := by
  rw [← Option.isSome_iff_exists, Option.isSome_iff_ne_none]
  exact fun hnone => Nat.not_lt.mpr (ofNat?_eq_none_iff.mp hnone) h

theorem TokenAmount.exists_add? {a b : TokenAmount} (h : a.toNat + b.toNat < size) :
    ∃ c, add? a b = some c := by
  rw [← Option.isSome_iff_exists, Option.isSome_iff_ne_none]
  exact fun hnone => Nat.not_lt.mpr (ofNat?_eq_none_iff.mp hnone) h

/-! ## Estimates -/

namespace Assembler

variable {a : Assembler σ}

theorem estimate_eq (hf : a.estimator = Fee.bySize) {d : Draft} {fee : Capacity}
    (h : Yields (a.estimate d) fee) : fee = Fee.ofSize d.transaction.size a.feeRate := by
  rw [estimate, hf, yields_ask] at h
  exact h.of_pure

theorem ends_estimate (hf : a.estimator = Fee.bySize) (d : Draft) :
    Ends (a.estimate d) (.ok (Fee.ofSize d.transaction.size a.feeRate)) := by
  rw [estimate, hf]
  exact Ends.ask (Ends.pure _)

/-- What is measured of a draft in which nothing is settled. -/
theorem measure_eq (hf : a.estimator = Fee.bySize) {d : Draft} {promised : List Cell}
    {change : Option Script} (ho : d.Offers promised change) {b : Balance}
    (h : Yields (a.measure d) b) :
    b = ⟨Capacity.total (d.inputs.map DraftInput.worth),
      Capacity.total (promised.map Cell.capacity) +
        (Fee.ofSize d.transaction.size a.feeRate).toNat, change.map changeFloor⟩ := by
  obtain ⟨fee, hfee, hcollected, hrequired, hoccupied⟩ := measure_spec ho h
  rw [estimate_eq hf hfee] at hrequired
  cases b
  simp only at hcollected hrequired hoccupied
  rw [hcollected, hrequired, hoccupied]

/-- A draft without change output whose sums fit 64 bits can be measured. -/
theorem ends_measure (hf : a.estimator = Fee.bySize) {d : Draft} {promised : List Cell}
    (ho : d.Offers promised none)
    (hinputs : Capacity.total (d.inputs.map DraftInput.worth) < UInt64.size)
    (hpromised : Capacity.total (promised.map Cell.capacity) < UInt64.size) :
    Ends (a.measure d) (.ok ⟨Capacity.total (d.inputs.map DraftInput.worth),
      Capacity.total (promised.map Cell.capacity) +
        (Fee.ofSize d.transaction.size a.feeRate).toNat, none⟩) := by
  obtain ⟨i, hi⟩ := Capacity.exists_of_lt hinputs
  obtain ⟨p, hp⟩ := Capacity.exists_of_lt hpromised
  have houtputs : d.outputs = promised := ho.outputs.trans (List.append_nil _)
  have hcommitted : d.committedCapacity = .ok p := by
    refine except_bind_eq_ok.mpr ⟨p, Draft.outputsCapacity_eq_ok.mpr (houtputs ▸ hp), ?_⟩
    rw [ho.changeOutput?]
    exact Draft.exactly_eq_ok.mpr (Capacity.sub?_eq_some_iff.mpr rfl)
  rw [measure]
  refine (ends_estimate hf d).bind ?_
  rw [hcommitted, ho.changeOutput?, Draft.inputsCapacity_eq_ok.mpr hi, ← hi, ← hp]
  exact Ends.pure _

/-- The size of a draft with a change output does not depend on the capacity there. -/
theorem size_withChange {d : Draft} {promised : List Cell} {lock : Script}
    (ho : d.Offers promised (some lock)) (capacity : Capacity) :
    Transaction.size { d.transaction with outputs := promised ++ [Cell.plain lock capacity] } =
      d.transaction.size := by
  refine Transaction.size_withOutputs _ ?_
  change _ = d.outputs.map Cell.weight
  rw [ho.outputs, List.map_append, List.map_append]
  exact congrArg (fun w => promised.map Cell.weight ++ [w])
    ((Cell.weight_plain lock capacity).trans (Cell.weight_plain lock 0).symm)

end Assembler

/-! ## The change -/

/-- What becomes of the change of a construction that starts from `o`, and what the fee is then. -/
inductive ChangeOutcome (rate : UInt64) (o : Opening) (r : Assembled) : Prop
  /-- The change output is there and funded. -/
  | kept {lock : Script} {capacity : Capacity} (change : o.change = some lock)
      (outputs : r.transaction.outputs = o.promised ++ [Cell.plain lock capacity])
      (funded : changeFloor lock ≤ capacity.toNat)
      (fee : r.fee = Fee.ofSize r.transaction.size rate)
  /-- The change output is gone, but paid for. -/
  | dropped {lock : Script} (change : o.change = some lock)
      (outputs : r.transaction.outputs = o.promised)
      (fee : r.fee = Fee.ofSize (Transaction.size { r.transaction with
        outputs := o.promised ++ [Cell.plain lock 0] }) rate)
  /-- There was no change output. -/
  | none (change : o.change = none) (outputs : r.transaction.outputs = o.promised)
      (fee : Fee.ofSize r.transaction.size rate ≤ r.fee)

/-- The fee is never below the estimate. -/
theorem ChangeOutcome.estimate_le {rate : UInt64} {o : Opening} {r : Assembled}
    (h : ChangeOutcome rate o r) : Fee.ofSize r.transaction.size rate ≤ r.fee := by
  cases h with
  | kept _ _ _ fee => exact UInt64.le_of_eq fee.symm
  | dropped _ outputs fee =>
    rw [fee, ← outputs]
    exact Fee.ofSize_mono (Nat.le_of_lt (Transaction.size_lt_append _ _)) (UInt64.le_refl rate)
  | none _ _ fee => exact fee

theorem Balance.leftover?_eq_some {b : Balance} {left : Nat} (h : b.leftover? = some left) :
    b.required + left = b.collected := by
  unfold leftover? at h
  split at h
  · have := Option.some.inj h
    omega
  · exact nomatch h

/-- A covered draft leaves over nothing or a funded change. -/
theorem Balance.leftover_of_covered {b : Balance} {floor left : Nat}
    (hc : b.isSufficient = true ∨ b.isExact = true) (ho : b.changeOccupied = some floor)
    (hl : b.leftover? = some left) : left = 0 ∨ floor ≤ left := by
  rcases hc with hc | hc
  · rw [isSufficient, hl, ho] at hc
    simpa using hc
  · rw [isExact, ho] at hc
    exact absurd hc (by simp)

/-- Without change output a draft is sufficient when something is left over. -/
theorem Balance.isSufficient_iff_of_none {b : Balance} (h : b.changeOccupied = none) :
    b.isSufficient = true ↔ b.required < b.collected := by
  by_cases hle : b.required ≤ b.collected
  · rw [isSufficient, leftover?, if_pos hle, h, decide_eq_true_eq]
    omega
  · rw [isSufficient, leftover?, if_neg hle, h]
    exact iff_of_false Bool.false_ne_true (fun hlt => hle (Nat.le_of_lt hlt))

theorem Balance.required_le_of_covered {b : Balance}
    (hc : b.isSufficient = true ∨ b.isExact = true) : b.required ≤ b.collected := by
  cases hl : b.leftover? with
  | some left =>
    have := leftover?_eq_some hl
    omega
  | none =>
    rcases hc with hc | hc
    · rw [isSufficient, hl] at hc
      exact absurd hc Bool.false_ne_true
    · rw [isExact, hl] at hc
      exact absurd hc (by simp)

/-- Settling sees the balance at which the collection stopped, so nothing more than the estimate is
burnt. -/
theorem Completes.changeOutcome {a : Assembler σ} {o : Opening} {r : Assembled}
    (hf : a.estimator = Fee.bySize) (h : Completes a o r) : ChangeOutcome a.feeRate o r := by
  obtain ⟨-, offers, collected, settled, ht, hfee, -⟩ := h
  rename_i d d₁ d₂ got
  obtain ⟨cells, pass, b, hb, hcov⟩ := Assembler.collectCapacity_spec collected
  have ho := pass.offers offers
  have htotal := Draft.fee_eq_ok hfee
  cases hchange : o.change with
  | none =>
    rw [hchange] at ho
    obtain rfl := Assembler.settleChange_none ho settled
    have houtputs : d₂.outputs = o.promised := ho.outputs.trans (List.append_nil _)
    have hle := Balance.required_le_of_covered hcov
    rw [Assembler.measure_eq hf ho hb] at hle
    refine .none hchange (ht ▸ houtputs) (UInt64.le_iff_toNat_le.mpr ?_)
    rw [houtputs] at htotal
    rw [ht]
    simp only at hle
    omega
  | some lock =>
    rw [hchange] at ho
    obtain ⟨hi, b', left, hb', hleft, hsettled⟩ := Assembler.settleChange_spec ho settled
    have hmeasure := Assembler.measure_eq hf ho hb
    -- both measures are of the same draft
    obtain rfl : b' = b := (Assembler.measure_eq hf ho hb').trans hmeasure.symm
    have hsum := Balance.leftover?_eq_some hleft
    rw [hmeasure] at hsum
    simp only at hsum
    rw [hi] at htotal
    rcases hsettled with ⟨hfunded, capacity, hcapacity, htx⟩ | ⟨hlt, htx⟩
    · have houtputs : d₂.outputs = o.promised ++ [Cell.plain lock capacity] :=
        congrArg Transaction.outputs htx
      refine .kept hchange (ht ▸ houtputs) (hcapacity ▸ hfunded) (UInt64.toNat_inj.mp ?_)
      rw [houtputs, List.map_append, Capacity.total_append] at htotal
      rw [ht, htx, Assembler.size_withChange ho]
      simp only [List.map_cons, List.map_nil, Capacity.total_cons, Capacity.total_nil,
        Cell.plain] at htotal
      omega
    · have houtputs : d₂.outputs = o.promised := congrArg Transaction.outputs htx
      have hzero : left = 0 := by
        rcases Balance.leftover_of_covered hcov (by rw [hmeasure]; rfl) hleft with h | h
        · exact h
        · omega
      refine .dropped hchange (ht ▸ houtputs) (UInt64.toNat_inj.mp ?_)
      rw [houtputs] at htotal
      rw [ht, htx, Assembler.size_withChange ho]
      omega

/-- A claim of a withdrawing cell pays exactly the estimate. -/
theorem Claims.fee_eq {a : Assembler σ} {p : OutPoint} {r : Assembled}
    (hf : a.estimator = Fee.bySize) (h : Claims a p r) :
    r.fee = Fee.ofSize r.transaction.size a.feeRate := by
  obtain ⟨-, -, worths, outputs, settled, ht, hfee, -⟩ := h
  rename_i w d d'
  obtain ⟨fee, capacity, hest, hworth, hi, htx⟩ := Assembler.settleClaim_spec outputs settled
  have hestimate := Assembler.estimate_eq hf hest
  have houtputs : d'.outputs = [Cell.plain w.cell.cell.lock capacity] :=
    congrArg Transaction.outputs htx
  have hweights : [Cell.plain w.cell.cell.lock capacity].map Cell.weight =
      d.transaction.outputs.map Cell.weight := by
    rw [Draft.transaction, outputs, List.map_singleton, List.map_singleton, Cell.weight_plain,
      Cell.weight_plain]
  have htotal := Draft.fee_eq_ok hfee
  rw [hi, worths, houtputs] at htotal
  rw [ht, htx, Transaction.size_withOutputs _ hweights, ← hestimate]
  refine UInt64.toNat_inj.mp ?_
  simp only [List.map_cons, List.map_nil, Capacity.total_cons, Capacity.total_nil,
    Cell.plain] at htotal
  omega

/-! ## What inputs are worth -/

/-- What a withdrawing cell is worth: what the deposit behind it is worth in the block that
committed the withdrawing cell. -/
def Chain.claimWorth? (c : Chain) (p : OutPoint) : Option Capacity := do
  let t ← c.transaction? p.txHash
  let header ← c.header? (← t.block)
  let i ← t.transaction.inputs[p.index.toNat]?
  (c.maximumWithdraw i.previous header.hash).toOption

/-- What an input of a construction is worth: what the spent cell holds, or for the claim of a
withdrawing cell what that is worth. -/
def Construction.worthOf? (c : Chain) : Construction → OutPoint → Option Capacity
  | .claim _, p => c.claimWorth? p
  | _, p => (c.output? p).map Cell.capacity

theorem Node.worth_of_loadWithdrawing {n : Node} {a : Assembler Nat} {p : OutPoint}
    {w : Assembler.WithdrawingCell} (ha : a.ledger = n.ledger)
    (hknown : n.faults.maximumWithdraw = none) (h : Yields (a.loadWithdrawing p) w) :
    w.cell.outPoint = p ∧ n.chain.claimWorth? p = some w.worth := by
  obtain ⟨hcell, -, ⟨q, hq, hdeposit⟩, -, -, hworth⟩ := Assembler.of_loadWithdrawing h
  rw [ha] at hcell hdeposit hworth
  obtain ⟨hp, t, block, ht, hblock, htx, hheader, -⟩ := Node.of_load hcell
  obtain ⟨hq', -⟩ := Node.of_load hdeposit
  -- the worth is the chain's own
  have hmaximum : n.chain.maximumWithdraw w.deposit.outPoint w.cell.header.hash = .ok w.worth := by
    obtain ⟨_, -, hworth⟩ := hworth.bind
    rw [hknown] at hworth
    obtain ⟨_, -, hworth⟩ := hworth.bind
    exact (Reaches.of_pure hworth).symm
  have hinput : w.cell.transaction.inputs[p.index.toNat]?.map Input.previous = some q := by
    unfold Dao.CommittedCell.depositOutPoint at hq
    rw [hp] at hq
    split at hq
    · rename_i i hi
      rw [hi, ← Except.ok.inj hq]
      rfl
    · exact nomatch hq
  obtain ⟨i, hi, rfl⟩ := Option.map_eq_some_iff.mp hinput
  refine ⟨hp, ?_⟩
  rw [hq'] at hmaximum
  rw [← htx] at hi
  simp [Chain.claimWorth?, ht, hblock, hheader, hi, hmaximum, Except.toOption]

theorem mapM_eq_some {α β γ : Type} {f : β → Option γ} {g : α → β} {w : α → γ} {l : List α}
    (h : ∀ x ∈ l, f (g x) = some (w x)) : (l.map g).mapM f = some (l.map w) := by
  induction l with
  | nil => rfl
  | cons x l ih =>
    obtain ⟨hx, hl⟩ := List.forall_mem_cons.mp h
    rw [List.map_cons, List.mapM_cons, hx, ih hl]
    rfl

theorem Draft.spent_transaction (d : Draft) :
    d.transaction.spent = d.inputs.map DraftInput.outPoint := by
  rw [Transaction.spent, Draft.transaction, List.map_map]
  rfl

/-- Inputs at the capacity that they hold are worth what the chain stores. -/
theorem Draft.Spends.worths {d : Draft} {spent : List Spending} (h : d.Spends spent)
    {f : OutPoint → Option Capacity} (hf : ∀ s ∈ spent, f s.outPoint = some s.cell.capacity) :
    d.transaction.spent.mapM f = some (d.inputs.map DraftInput.worth) := by
  rw [spent_transaction]
  refine mapM_eq_some fun i hi => ?_
  rw [h.2 i hi]
  exact hf i.spending (h.1 ▸ List.mem_map_of_mem hi)

/-! ## Balance -/

/-- What holds of the capacity of a result: inputs are worth what outputs hold and the fee, the fee
is not below the estimate, and what is burnt beyond the estimate is accounted for. -/
structure Balanced (c : Chain) (a : Assembler Nat) (k : Construction) (r : Assembled) : Prop where
  worth : ∃ worths, r.transaction.spent.mapM (k.worthOf? c) = some worths ∧
    Capacity.total worths =
      Capacity.total (r.transaction.outputs.map Cell.capacity) + r.fee.toNat
  estimate_le : Fee.ofSize r.transaction.size a.feeRate ≤ r.fee
  change : (∃ p, k = .claim p) ∧ r.fee = Fee.ofSize r.transaction.size a.feeRate ∨
    ∃ o, Opens a k o ∧ ChangeOutcome a.feeRate o r
  /-- Only a transfer without change lock has no change output. -/
  changeless : ∀ o, Opens a k o → o.change = none → ∃ t, k = .transfer t ∧ t.change = none

/-- Every successful construction balances. -/
theorem Construction.balanced {c : Chain} {offline : Bool} {a : Assembler Nat} {k : Construction}
    {r : Assembled} (hstored : c.Stored)
    (ha : a.ledger = ({ chain := c, offline := offline } : Node).ledger)
    (hf : a.estimator = Fee.bySize) (h : Yields (k.run a) r) : Balanced c a k r := by
  have hchangeless : ∀ o, Opens a k o → o.change = none →
      ∃ t, k = .transfer t ∧ t.change = none := by
    intro o ho hnone
    cases ho with
    | transfer => exact ⟨_, rfl, hnone⟩
    | _ => exact nomatch hnone
  rcases anatomy h with ⟨o, hopens, hcompletes⟩ | ⟨p, rfl, hclaims⟩
  · have houtcome := hcompletes.changeOutcome hf
    refine ⟨?_, houtcome.estimate_le, Or.inr ⟨o, hopens, houtcome⟩, hchangeless⟩
    obtain ⟨d, cells, left, ht, hfee, hspends, hpaid, -, -⟩ := hcompletes.result
    refine ⟨d.inputs.map DraftInput.worth, ?_, ht ▸ Draft.fee_eq_ok hfee⟩
    have hworth : ∀ q, k.worthOf? c q = (c.output? q).map Cell.capacity := by
      cases hopens <;> exact fun q => rfl
    rw [ht]
    refine hspends.worths fun s hs => ?_
    rw [hworth, (hopens.has_all ha hpaid s hs).output? hstored]
    rfl
  · have hfee := hclaims.fee_eq hf
    refine ⟨?_, UInt64.le_of_eq hfee.symm, Or.inl ⟨⟨p, rfl⟩, hfee⟩, hchangeless⟩
    obtain ⟨w, d, hloaded, ht, hd, hspends, hworths, -⟩ := hclaims.result
    obtain ⟨hp, hworth⟩ := Node.worth_of_loadWithdrawing ha rfl hloaded
    refine ⟨[w.worth], ?_, ?_⟩
    · have hpoints : d.inputs.map DraftInput.outPoint = [p] := by
        rw [← hp]
        exact (List.map_map (f := DraftInput.spending) (g := Spending.outPoint)).symm.trans
          (congrArg _ hspends)
      rw [ht, Draft.spent_transaction, hpoints]
      simp only [List.mapM_cons, List.mapM_nil, Construction.worthOf?, hworth]
      rfl
    · rw [ht, ← hworths]
      exact Draft.fee_eq_ok hd

/-- A transfer that keeps its change balances. -/
theorem Construction.balanced_transfer :
    ∃ r, Yields ((Construction.transfer ⟨[.ofByte 1], [(.ofByte 2, 10000000000)],
        some (.ofByte 1)⟩).run (.onChain (.oneCell (.plain (.ofByte 1) 50000000000)))) r ∧
      Balanced (.oneCell (.plain (.ofByte 1) 50000000000))
        (.onChain (.oneCell (.plain (.ofByte 1) 50000000000)))
        (.transfer ⟨[.ofByte 1], [(.ofByte 2, 10000000000)], some (.ofByte 1)⟩) r := by
  obtain ⟨r, h, -⟩ := exists_yields
    (m := (Construction.transfer ⟨[.ofByte 1], [(.ofByte 2, 10000000000)],
      some (.ofByte 1)⟩).run (.onChain (.oneCell (.plain (.ofByte 1) 50000000000))))
    (s := 0) (fun _ => true) (by decide +kernel)
  exact ⟨r, h, balanced (Chain.stored_oneCell _) (Node.ledger_chain _).symm rfl h⟩

end CellTx
