import CellTx.Proofs.Fees
import CellTx.Proofs.Records
import CellTx.Proofs.Unlock

/-!
# What a claim comes to

On a chain the claim of a withdrawing cell always comes to the same, and there are four ways it can
end (`ClaimOutcome`): the unlock point is beyond the packed form, the chain does not say what the
deposit is worth, that does not pay for the fee and the output, or there is a transaction with one
input, one output, the two header deps and a witness that points to the first of them
(specification, section 4.5).

Results:
* `Assembler.ends_loadWithdrawing`: what the first phase finds of two cells that are on the chain.
* `Assembler.ends_settleClaim`: the fee is taken out of the worth, when that pays for both.
* `Assembler.ends_claim`: the claim comes to one of the four, under the estimator by size.

Out of scope: withdrawing cells whose deposit is not on the chain, and locks so long that their
cells occupy more than 64 bits can say.
-/

namespace CellTx

variable {σ : Type}

/-- How the claim of a withdrawing cell at `p` can end, when a chain answers `worth`. -/
inductive ClaimOutcome (deposit withdraw : Header) (p : OutPoint) (lock : Script)
    (worth : Except QueryError Capacity) : Except Failure Assembled → Prop
  | beyond (number : Epoch.numberBound ≤
      deposit.epoch.number + Dao.lockedEpochs deposit.epoch withdraw.epoch) :
      ClaimOutcome deposit withdraw p lock worth (.error (.encoding (.epochNumber
        (deposit.epoch.number + Dao.lockedEpochs deposit.epoch withdraw.epoch))))
  | unanswered {e : QueryError} (answer : worth = .error e) :
      ClaimOutcome deposit withdraw p lock worth (.error (.query e))
  | tooLittle {fee w : Capacity} (answer : worth = .ok w)
      (less : w.toNat < fee.toNat + changeFloor lock) :
      ClaimOutcome deposit withdraw p lock worth (.error (.insufficientForFee fee w))
  | claimed {r : Assembled} {w capacity : Capacity} {unlock : EpochFraction} {i : Nat}
      (answer : worth = .ok w)
      (unlocks : Dao.minimalUnlock deposit.epoch withdraw.epoch = .ok unlock)
      (inputs : r.transaction.inputs = [⟨p, Since.absoluteEpoch unlock⟩])
      (outputs : r.transaction.outputs = [⟨capacity, lock, none, []⟩])
      (headerDeps : r.transaction.headerDeps = [deposit.hash, withdraw.hash])
      (pointed : r.transaction.headerDeps[i]? = some deposit.hash)
      (witnesses : r.transaction.witnesses =
        [WitnessArgs.serialize ⟨some (zeros 65), some (leBytes 8 i), none⟩])
      (pays : capacity.toNat + r.fee.toNat = w.toNat) :
      ClaimOutcome deposit withdraw p lock worth (.ok r)

/-! ## The draft of a claim -/

namespace Assembler

section Draft

variable (a : Assembler σ) (w : WithdrawingCell)

/-- The draft of a claim before anything is spent. -/
def claimOpening : Draft :=
  let d := ((Draft.empty.setVersion 0).addHeaderDep w.deposit.header.hash).2
  let d := (d.addHeaderDep w.cell.header.hash).2
  let d := (d.addCellDep a.scripts.secp256k1Blake160.dep).addCellDep a.scripts.dao.dep
  d.addOutput (Cell.plain w.cell.cell.lock 0)

/-- The place of the deposit's header dep. -/
def depositDep : Nat := ((a.claimOpening w).addHeaderDep w.deposit.header.hash).1

/-- The draft of a claim before it is settled. -/
def claimDraft : Draft :=
  ((a.claimOpening w).addHeaderDep w.deposit.header.hash).2.addInputWorth w.cell.outPoint
    w.cell.cell (Since.absoluteEpoch w.unlock) (some (leBytes 8 (a.depositDep w))) w.worth

theorem inputs_claimOpening : (a.claimOpening w).inputs = [] := by
  simp [claimOpening, Draft.setVersion, Draft.empty]

theorem outputs_claimDraft : (a.claimDraft w).outputs = [Cell.plain w.cell.cell.lock 0] := by
  simp [claimDraft, claimOpening, Draft.addInputWorth, Draft.setVersion, Draft.empty]

theorem inputs_claimDraft : ∃ i : DraftInput, (a.claimDraft w).inputs = [i] ∧
    i.input = ⟨w.cell.outPoint, Since.absoluteEpoch w.unlock⟩ ∧ i.worth = w.worth ∧
    i.witness = some ⟨some (zeros 65), some (leBytes 8 (a.depositDep w)), none⟩ := by
  rw [claimDraft, Draft.inputs_addInputWorth, Draft.inputs_addHeaderDep, inputs_claimOpening]
  refine ⟨_, rfl, rfl, rfl, ?_⟩
  rw [Draft.witnessFor, Draft.inputs_addHeaderDep, inputs_claimOpening]
  rfl

theorem headerDeps_claimDraft (h : w.cell.header.hash ≠ w.deposit.header.hash) :
    (a.claimDraft w).headerDeps = [w.deposit.header.hash, w.cell.header.hash] := by
  simp [claimDraft, claimOpening, Draft.headerDeps_addHeaderDep, Draft.setVersion, Draft.empty, h]

theorem getElem?_depositDep :
    (a.claimDraft w).headerDeps[a.depositDep w]? = some w.deposit.header.hash := by
  rw [claimDraft, Draft.headerDeps_addInputWorth, depositDep]
  exact (a.claimOpening w).getElem?_addHeaderDep w.deposit.header.hash

end Draft

/-! ## Settling -/

variable {a : Assembler σ}

/-- A claim gives its output what the cell is worth but the fee, if that is enough. -/
theorem ends_settleClaim {w : WithdrawingCell} {d : Draft} {lock : Script} {fee : Capacity}
    (hfee : Ends (a.estimate d) (.ok fee)) (ho : d.outputs = [Cell.plain lock 0])
    (hfloor : changeFloor lock < UInt64.size) :
    (w.worth.toNat < fee.toNat + changeFloor lock ∧
      Ends (a.settleClaim w d) (.error (.insufficientForFee fee w.worth))) ∨
    ∃ capacity : Capacity, capacity.toNat + fee.toNat = w.worth.toNat ∧
      Ends (a.settleClaim w d) (.ok (d.setOutput 0 (Cell.plain lock capacity))) := by
  obtain ⟨occupied, hoccupied⟩ := Capacity.exists_of_lt hfloor
  have hend : Ends (Build.ofExcept (d.occupied claimOutput) : Build σ Capacity)
      (.ok occupied) := by
    rw [Draft.occupied_eq_ok.mpr ⟨Cell.plain lock 0, by rw [ho]; rfl,
      Cell.occupied?_eq_some_iff.mpr hoccupied⟩]
    exact Ends.pure _
  cases hsub : Capacity.sub? w.worth fee with
  | none =>
    rw [Capacity.sub?_eq_none_iff] at hsub
    refine Or.inl ⟨by omega, hfee.bind (hend.bind ?_)⟩
    rw [Capacity.sub?_eq_none_iff.mpr hsub]
    exact Ends.throw _
  | some capacity =>
    have hcapacity := Capacity.sub?_eq_some_iff.mp hsub
    by_cases hle : occupied ≤ capacity
    · refine Or.inr ⟨capacity, hcapacity, hfee.bind (hend.bind ?_)⟩
      have hset : d.setCapacity claimOutput capacity =
          .ok (d.setOutput 0 (Cell.plain lock capacity)) :=
        Draft.setCapacity_eq_ok.mpr ⟨Cell.plain lock 0, by rw [ho]; rfl, rfl⟩
      simp only [hsub, if_pos hle, hset]
      exact Ends.pure _
    · have hless : w.worth.toNat < fee.toNat + changeFloor lock := by
        rw [UInt64.le_iff_toNat_le] at hle
        omega
      refine Or.inl ⟨hless, hfee.bind (hend.bind ?_)⟩
      simp only [hsub, if_neg hle]
      exact Ends.throw _

/-! ## Claiming -/

/-- Finding a withdrawing cell on a chain, once both cells are there. -/
theorem ends_loadWithdrawing {a : Assembler Nat} {c : Chain} (ha : a.ledger = c.ledger)
    {p q : OutPoint} {w d : Dao.CommittedCell}
    (hw : Ends (Dao.CommittedCell.load c.ledger p) (.ok w))
    (hwithdrawing : w.isWithdrawing a.scripts = true) (hq : w.depositOutPoint = .ok q)
    (hd : Ends (Dao.CommittedCell.load c.ledger q) (.ok d))
    (hdeposit : d.isDeposit a.scripts = true) :
    Ends (a.loadWithdrawing p) (do
      let unlock ← Dao.minimalUnlock d.header.epoch w.header.epoch
      let worth ← (c.maximumWithdraw d.outPoint w.header.hash).mapError Failure.query
      return ⟨w, d, unlock, worth⟩) := by
  have hofExcept : ∀ {α : Type} {r : Except Failure α} {x : α}, r = .ok x →
      Ends (Build.ofExcept r : Build Nat α) (.ok x) := fun h => h ▸ ends_ofExcept _
  rw [← ha] at hw hd
  refine hw.bind ((hofExcept (Dao.CommittedCell.ensureWithdrawing_eq_ok.mpr hwithdrawing)).bind
    ((hofExcept hq).bind (hd.bind
      ((hofExcept (Dao.CommittedCell.ensureDeposit_eq_ok.mpr hdeposit)).bind ?_))))
  cases hunlock : Dao.minimalUnlock d.header.epoch w.header.epoch with
  | error e => exact Ends.bind_error _ (ends_ofExcept _)
  | ok unlock =>
    refine (ends_ofExcept (.ok unlock)).bind ?_
    rw [ha]
    cases hworth : c.maximumWithdraw d.outPoint w.header.hash with
    | error e =>
      have hask : Ends (c.ledger.maximumWithdraw d.outPoint w.header.hash) (.error e) :=
        hworth ▸ Always.pure _
      exact Ends.bind_error _ hask.ask_error
    | ok worth =>
      have hask : Ends (c.ledger.maximumWithdraw d.outPoint w.header.hash) (.ok worth) :=
        hworth ▸ Always.pure _
      exact hask.ask.bind (Ends.pure _)

/-- The one input of a claim, whatever the draft. -/
theorem buildInputs_claimFlow (p : OutPoint) (w : WithdrawingCell) (d : Draft) :
    (a.claimFlow p).buildInputs w d =
      pure ((d.addHeaderDep w.deposit.header.hash).2.addInputWorth w.cell.outPoint w.cell.cell
        (Since.absoluteEpoch w.unlock)
        (some (leBytes 8 (d.addHeaderDep w.deposit.header.hash).1)) w.worth) := rfl

/-- A claim that found its cells ends as settling ends. -/
theorem ends_claim_of_settleClaim {p : OutPoint} {w : WithdrawingCell}
    (hload : Ends (a.loadWithdrawing p) (.ok w)) :
    (∀ {e}, Ends (a.settleClaim w (a.claimDraft w)) (.error e) → Ends (a.claim p) (.error e)) ∧
    ∀ {d fee}, Ends (a.settleClaim w (a.claimDraft w)) (.ok d) → d.fee = .ok fee →
      Ends (a.claim p) (.ok ⟨d.transaction,
        groupInputs [w.cell.cell.lock] (d.inputs.map (·.cell.lock)), fee⟩) := by
  have hinputs : Ends ((a.claimFlow p).buildInputs w (a.claimOpening w))
      (.ok (a.claimDraft w)) := by
    rw [buildInputs_claimFlow]
    exact Ends.pure _
  have hopening : Ends ((a.claimFlow p).buildOutputs w _) (.ok (a.claimOpening w)) := Ends.pure _
  constructor
  · intro e h
    have hdraft : Ends (a.claimFlow p).draft (.error e) :=
      hload.bind ((Ends.pure _).bind ((Ends.pure _).bind ((Ends.pure _).bind (hopening.bind
        (hinputs.bind (Ends.bind_error _ h))))))
    exact Ends.bind_error _ hdraft
  · intro d fee h hfee
    exact Flow.ends_assemble hload (Ends.pure _) (Ends.pure _) (Ends.pure _) hopening hinputs h
      hfee

end Assembler

/-- What one input is worth beyond one output is the fee. -/
theorem Draft.fee_of_singletons {d : Draft} {i : DraftInput} {o : Cell} {fee : Capacity}
    (hi : d.inputs = [i]) (ho : d.outputs = [o])
    (h : o.capacity.toNat + fee.toNat = i.worth.toNat) : d.fee = .ok fee := by
  have hinputs : d.inputsCapacity = .ok i.worth := by
    rw [Draft.inputsCapacity_eq_ok, hi]
    rfl
  have houtputs : d.outputsCapacity = .ok o.capacity := by
    rw [Draft.outputsCapacity_eq_ok, ho]
    rfl
  refine except_bind_eq_ok.mpr ⟨_, hinputs, except_bind_eq_ok.mpr ⟨_, houtputs, ?_⟩⟩
  rw [Draft.exactly_eq_ok, Capacity.sub?_eq_some_iff, Nat.add_comm]
  exact h

/-- The settled draft of a claim. -/
theorem Assembler.claimed_of_settled {a : Assembler σ} {w : WithdrawingCell} {d : Draft}
    {capacity fee : Capacity}
    (hd : d = (a.claimDraft w).setOutput 0 (Cell.plain w.cell.cell.lock capacity))
    (hpays : capacity.toNat + fee.toNat = w.worth.toNat)
    (hheaders : w.cell.header.hash ≠ w.deposit.header.hash)
    (hunlock : Dao.minimalUnlock w.deposit.header.epoch w.cell.header.epoch = .ok w.unlock) :
    d.fee = .ok fee ∧ ∀ groups, ClaimOutcome w.deposit.header w.cell.header w.cell.outPoint
      w.cell.cell.lock (.ok w.worth) (.ok ⟨d.transaction, groups, fee⟩) := by
  obtain ⟨i, hi, hinput, hworth, hwitness⟩ := a.inputs_claimDraft w
  have hinputs : d.inputs = [i] := by rw [hd, Draft.inputs_setOutput, hi]
  have houtputs : d.outputs = [Cell.plain w.cell.cell.lock capacity] := by
    rw [hd, Draft.outputs_setOutput, a.outputs_claimDraft w, List.set_cons_zero]
  have hspent : d.transaction.inputs = [⟨w.cell.outPoint, Since.absoluteEpoch w.unlock⟩] := by
    rw [Draft.transaction, hinputs, List.map_singleton, hinput]
  have hwitnesses : d.transaction.witnesses = [WitnessArgs.serialize
      ⟨some (zeros 65), some (leBytes 8 (a.depositDep w)), none⟩] := by
    have hbytes : i.witnessBytes = (i.witness.map WitnessArgs.serialize).getD [] := rfl
    have hmap : d.transaction.witnesses = d.inputs.map DraftInput.witnessBytes := rfl
    rw [hmap, hinputs, List.map_singleton, hbytes, hwitness, Option.map_some, Option.getD_some]
  have hdeps : d.headerDeps = [w.deposit.header.hash, w.cell.header.hash] := by
    rw [hd, Draft.headerDeps_setOutput]
    exact a.headerDeps_claimDraft w hheaders
  have hpointed : d.headerDeps[a.depositDep w]? = some w.deposit.header.hash := by
    rw [hd, Draft.headerDeps_setOutput]
    exact a.getElem?_depositDep w
  refine ⟨Draft.fee_of_singletons hinputs houtputs ?_, fun groups => ?_⟩
  · rw [hworth]
    exact hpays
  · exact .claimed rfl hunlock hspent houtputs hdeps hpointed hwitnesses hpays

/-- The claim of a withdrawing cell that is worth something. -/
theorem Assembler.ends_claim_of_worth {a : Assembler σ} (hf : a.estimator = Fee.bySize)
    {p : OutPoint} {w : WithdrawingCell} (hload : Ends (a.loadWithdrawing p) (.ok w))
    (hheaders : w.cell.header.hash ≠ w.deposit.header.hash)
    (hunlock : Dao.minimalUnlock w.deposit.header.epoch w.cell.header.epoch = .ok w.unlock)
    (hfloor : changeFloor w.cell.cell.lock < UInt64.size) :
    ∃ res, Ends (a.claim p) res ∧ ClaimOutcome w.deposit.header w.cell.header w.cell.outPoint
      w.cell.cell.lock (.ok w.worth) res := by
  obtain ⟨herror, hok⟩ := ends_claim_of_settleClaim hload
  rcases ends_settleClaim (ends_estimate hf _) (a.outputs_claimDraft w) hfloor with
    ⟨hless, hsettle⟩ | ⟨capacity, hpays, hsettle⟩
  · exact ⟨_, herror hsettle, .tooLittle rfl hless⟩
  · obtain ⟨hfee, hclaimed⟩ := claimed_of_settled rfl hpays hheaders hunlock
    exact ⟨_, hok hsettle hfee, hclaimed _⟩

/-- The claim of a withdrawing cell on a chain, once both cells are there. -/
theorem Assembler.ends_claim {a : Assembler Nat} {c : Chain} (ha : a.ledger = c.ledger)
    (hf : a.estimator = Fee.bySize) {p q : OutPoint} {w d : Dao.CommittedCell}
    (hw : Ends (Dao.CommittedCell.load c.ledger p) (.ok w))
    (hwithdrawing : w.isWithdrawing a.scripts = true) (hq : w.depositOutPoint = .ok q)
    (hd : Ends (Dao.CommittedCell.load c.ledger q) (.ok d))
    (hdeposit : d.isDeposit a.scripts = true) (hheaders : w.header.hash ≠ d.header.hash)
    (hfloor : changeFloor w.cell.lock < UInt64.size) :
    ∃ res, Ends (a.claim p) res ∧ ClaimOutcome d.header w.header w.outPoint w.cell.lock
      (c.maximumWithdraw d.outPoint w.header.hash) res := by
  have hload := ends_loadWithdrawing ha hw hwithdrawing hq hd hdeposit
  rcases Dao.minimalUnlock_cases d.header.epoch w.header.epoch with ⟨unlock, hunlock⟩ | ⟨hbound, he⟩
  · rw [hunlock] at hload
    cases hworth : c.maximumWithdraw d.outPoint w.header.hash with
    | error e =>
      rw [hworth] at hload
      exact ⟨_, Ends.bind_error _ (Ends.bind_error _ hload), .unanswered rfl⟩
    | ok worth =>
      rw [hworth] at hload
      exact ends_claim_of_worth (w := ⟨w, d, unlock, worth⟩) hf hload hheaders hunlock hfloor
  · rw [he] at hload
    exact ⟨_, Ends.bind_error _ (Ends.bind_error _ hload), .beyond hbound⟩

end CellTx
