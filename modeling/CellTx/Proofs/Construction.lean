import CellTx.Proofs.Balance
import CellTx.Proofs.Outputs

/-!
# What a construction does

The seven constructions as one type (`Construction`), and what a successful one has done. Six of
them open a draft, with cells that they spend in any case, outputs that stay and the lock of the
change (`Opens`), and then all go on in the same way: plain cells are spent until the draft is
covered, and the change is settled (`Completes`). The seventh, the claim of a withdrawing cell, has
one input and one output (`Claims`).

Results:
* `Flow.of_assemble`, `Flow.ends_assemble`: a flow is its phases, read backwards and forwards.
* `Construction.anatomy`: a result is taken apart accordingly. What holds of every construction is
  proved from it, without opening a flow again.

Out of scope: failures, which are told apart likewise in `CellTx.Proofs.Answering`.
-/

namespace CellTx

variable {σ : Type}

/-- A call of one of the seven constructions. -/
inductive Construction where
  | transfer (r : TransferRequest)
  | deposit (owner : Script) (capacity : Capacity)
  | withdraw (deposit : OutPoint)
  | claim (withdrawing : OutPoint)
  | issueCheque (r : ChequeRequest)
  | claimCheques (receiver : Script) (owner : Hash)
  | withdrawCheque (r : ChequeRequest)

/-- The construction that is called. -/
def Construction.run (a : Assembler σ) : Construction → Build σ Assembled
  | transfer r => a.transfer r
  | deposit owner capacity => a.deposit owner capacity
  | withdraw p => a.withdraw p
  | claim p => a.claim p
  | issueCheque r => a.issueCheque r
  | claimCheques receiver owner => a.claimCheques receiver owner
  | withdrawCheque r => a.withdrawCheque r

/-! ## The phases of a flow -/

/-- A finished flow went through its phases. -/
theorem Flow.of_assemble {Plan : Type} {flow : Flow σ Plan} {r : Assembled}
    (h : Yields flow.assemble r) :
    ∃ plan d₁ d₂ d₃ d₄ d₅ d, Yields flow.init plan ∧
      Yields (flow.setVersion plan Draft.empty) d₁ ∧ Yields (flow.setHeaderDeps plan d₁) d₂ ∧
      Yields (flow.setCellDeps plan d₂) d₃ ∧ Yields (flow.buildOutputs plan d₃) d₄ ∧
      Yields (flow.buildInputs plan d₄) d₅ ∧ Yields (flow.settleChange plan d₅) d ∧
      r.transaction = d.transaction ∧ d.fee = .ok r.fee ∧
      r.groups = groupInputs (flow.signingLocks plan) (d.inputs.map (·.cell.lock)) := by
  obtain ⟨⟨plan, d⟩, hd, h⟩ := h.bind
  obtain ⟨fee, hfee, h⟩ := h.bind
  obtain rfl := h.of_pure
  obtain ⟨_, hinit, hd⟩ := hd.bind
  obtain ⟨d₁, h₁, hd⟩ := hd.bind
  obtain ⟨d₂, h₂, hd⟩ := hd.bind
  obtain ⟨d₃, h₃, hd⟩ := hd.bind
  obtain ⟨d₄, h₄, hd⟩ := hd.bind
  obtain ⟨d₅, h₅, hd⟩ := hd.bind
  obtain ⟨_, h₆, hd⟩ := hd.bind
  obtain ⟨rfl, rfl⟩ := Prod.mk.inj hd.of_pure
  exact ⟨_, d₁, d₂, d₃, d₄, d₅, _, hinit, h₁, h₂, h₃, h₄, h₅, h₆, rfl, hfee.of_ofExcept, rfl⟩

/-! ## Anatomy -/

/-- A flow whose phases all end well ends well. -/
theorem Flow.ends_assemble {Plan : Type} {flow : Flow σ Plan} {plan : Plan}
    {d₁ d₂ d₃ d₄ d₅ d : Draft} {fee : Capacity} (hinit : Ends flow.init (.ok plan))
    (h₁ : Ends (flow.setVersion plan Draft.empty) (.ok d₁))
    (h₂ : Ends (flow.setHeaderDeps plan d₁) (.ok d₂))
    (h₃ : Ends (flow.setCellDeps plan d₂) (.ok d₃))
    (h₄ : Ends (flow.buildOutputs plan d₃) (.ok d₄))
    (h₅ : Ends (flow.buildInputs plan d₄) (.ok d₅))
    (h₆ : Ends (flow.settleChange plan d₅) (.ok d)) (hfee : d.fee = .ok fee) :
    Ends flow.assemble (.ok ⟨d.transaction,
      groupInputs (flow.signingLocks plan) (d.inputs.map (·.cell.lock)), fee⟩) := by
  have hdraft : Ends flow.draft (.ok (plan, d)) :=
    hinit.bind (h₁.bind (h₂.bind (h₃.bind (h₄.bind (h₅.bind (h₆.bind (Ends.pure _)))))))
  refine hdraft.bind (Ends.bind ?_ (Ends.pure _))
  rw [hfee]
  exact Ends.pure fee

/-- A flow that fails in its first phase fails so. -/
theorem Flow.ends_assemble_of_init {Plan : Type} {flow : Flow σ Plan} {f : Failure}
    (h : Ends flow.init (.error f)) : Ends flow.assemble (.error f) := by
  have hdraft : Ends flow.draft (.error f) := h.bind_error _
  exact hdraft.bind_error _

/-- What a construction starts from. -/
structure Opening where
  /-- The cells that it spends in any case. -/
  spent : List Spending
  /-- The outputs that stay. -/
  promised : List Cell
  /-- The lock of the change. -/
  change : Option Script
  /-- The locks whose plain cells pay, which also sign. -/
  payers : List Script

theorem Dao.CommittedCell.ensureDeposit_eq_ok {c : Dao.CommittedCell} {scripts : SystemScripts} :
    c.ensureDeposit scripts = .ok () ↔ c.isDeposit scripts = true := by
  unfold ensureDeposit
  split
  · exact iff_of_true rfl ‹_›
  · exact iff_of_false nofun ‹_›

theorem Dao.CommittedCell.ensureWithdrawing_eq_ok {c : Dao.CommittedCell}
    {scripts : SystemScripts} :
    c.ensureWithdrawing scripts = .ok () ↔ c.isWithdrawing scripts = true := by
  unfold ensureWithdrawing
  split
  · exact iff_of_true rfl ‹_›
  · exact iff_of_false nofun ‹_›

/-- How each construction but the claim of a withdrawing cell starts. -/
inductive Opens (a : Assembler σ) : Construction → Opening → Prop
  | transfer {r : TransferRequest} (senders : r.senders ≠ []) (receivers : r.receivers ≠ [])
      (funded : ∀ e ∈ r.receivers, (Cell.plain e.1 e.2).Funded) :
      Opens a (.transfer r)
        ⟨[], r.receivers.map fun e => Cell.plain e.1 e.2, r.change, r.senders⟩
  | deposit {owner : Script} {capacity : Capacity}
      (funded : (a.depositCell owner capacity).Funded) :
      Opens a (.deposit owner capacity)
        ⟨[], [a.depositCell owner capacity], some owner, [owner]⟩
  | withdraw {p : OutPoint} {c : Dao.CommittedCell}
      (loaded : Yields (Dao.CommittedCell.load a.ledger p) c)
      (isDeposit : c.isDeposit a.scripts = true) :
      Opens a (.withdraw p)
        ⟨[⟨c.outPoint, c.cell, Since.zero⟩], [c.withdrawing], some c.cell.lock, [c.cell.lock]⟩
  | issueCheque {r : ChequeRequest} {d d' : Draft} {got : Collected} {collected : TokenAmount}
      (amount : r.amount ≠ 0) (others : r.sender.hash ≠ r.receiver.hash) (fresh : d.inputs = [])
      (tokens : Yields (a.collectTokens d (a.scripts.sudtType r.owner) r.amount
        ([SearchKey.byLockAndType r.sender (a.scripts.sudtType r.owner)].map a.stream))
        ((got, collected), d')) :
      Opens a (.issueCheque r)
        ⟨d'.inputs.map DraftInput.spending, (a.chequeCell r).raised :: a.tokenChangeOf r collected,
          some r.sender, [r.sender]⟩
  | claimCheques {receiver : Script} {owner : Hash} {t : ClaimTally}
      (found : Yields (a.findCheques receiver owner) t) :
      Opens a (.claimCheques receiver owner)
        ⟨t.cheques.map LiveCell.spending,
          (a.tokenCell receiver owner t.amount).raised ::
            t.refunds.map fun e => Cell.plain e.1 e.2,
          some receiver, [receiver]⟩
  | withdrawCheque {r : ChequeRequest} {c : LiveCell} (found : Yields (a.findCheque r) c) :
      Opens a (.withdrawCheque r)
        ⟨[⟨c.outPoint, c.cell, withdrawSince⟩], [(r.returned c.cell).raised], some r.sender,
          [r.sender]⟩

/-- How a construction goes on: from a draft `d` of what it starts from, plain cells of the payers
are spent until the draft is covered, and the change is settled. -/
inductive Completes (a : Assembler σ) (o : Opening) (r : Assembled) : Prop
  | intro {d d₁ d₂ : Draft} {got : Collected} (spends : d.Spends o.spent)
      (offers : d.Offers o.promised o.change)
      (collected : Yields
        (a.collectCapacity d ((o.payers.map SearchKey.plainByLock).map a.stream)) (got, d₁))
      (settled : Yields (a.settleChange d₁) d₂)
      (transaction : r.transaction = d₂.transaction) (fee : d₂.fee = .ok r.fee)
      (groups : r.groups = groupInputs o.payers (d₂.inputs.map (·.cell.lock)))

/-- The claim of a withdrawing cell: one input, worth what the ledger says, and one output. -/
inductive Claims (a : Assembler σ) (p : OutPoint) (r : Assembled) : Prop
  | intro {w : Assembler.WithdrawingCell} {d d' : Draft} (loaded : Yields (a.loadWithdrawing p) w)
      (spends : d.inputs.map DraftInput.spending =
        [⟨w.cell.outPoint, w.cell.cell, Since.absoluteEpoch w.unlock⟩])
      (worths : d.inputs.map DraftInput.worth = [w.worth])
      (outputs : d.outputs = [Cell.plain w.cell.cell.lock 0])
      (settled : Yields (a.settleClaim w d) d') (transaction : r.transaction = d'.transaction)
      (fee : d'.fee = .ok r.fee)
      (groups : r.groups = groupInputs [w.cell.cell.lock] (d'.inputs.map (·.cell.lock)))

/-- What is known of a withdrawing cell that was found, with the deposit behind it. -/
theorem Assembler.of_loadWithdrawing {a : Assembler σ} {p : OutPoint}
    {w : Assembler.WithdrawingCell} (h : Yields (a.loadWithdrawing p) w) :
    Yields (Dao.CommittedCell.load a.ledger p) w.cell ∧ w.cell.isWithdrawing a.scripts = true ∧
      (∃ q, w.cell.depositOutPoint = .ok q ∧
        Yields (Dao.CommittedCell.load a.ledger q) w.deposit) ∧
      w.deposit.isDeposit a.scripts = true ∧
      Dao.minimalUnlock w.deposit.header.epoch w.cell.header.epoch = .ok w.unlock ∧
      Yields (a.ledger.maximumWithdraw w.deposit.outPoint w.cell.header.hash) w.worth := by
  obtain ⟨cell, hcell, h⟩ := h.bind
  obtain ⟨_, hwithdrawing, h⟩ := h.bind
  obtain ⟨q, hq, h⟩ := h.bind
  obtain ⟨deposit, hload, h⟩ := h.bind
  obtain ⟨_, hdeposit, h⟩ := h.bind
  obtain ⟨unlock, hunlock, h⟩ := h.bind
  obtain ⟨worth, hworth, h⟩ := h.bind
  obtain rfl := h.of_pure
  exact ⟨hcell, Dao.CommittedCell.ensureWithdrawing_eq_ok.mp hwithdrawing.of_ofExcept,
    ⟨q, hq.of_ofExcept, hload⟩, Dao.CommittedCell.ensureDeposit_eq_ok.mp hdeposit.of_ofExcept,
    hunlock.of_ofExcept, yields_ask.mp hworth⟩

/-- All that settling a claim can do: the output gets what the cell is worth but the estimate, and is
funded then. -/
theorem Assembler.of_settleClaim {a : Assembler σ} {w : Assembler.WithdrawingCell} {d d' : Draft}
    (h : Yields (a.settleClaim w d) d') :
    ∃ (fee capacity : Capacity) (c : Cell), Yields (a.estimate d) fee ∧
      Capacity.sub? w.worth fee = some capacity ∧ d.outputs[0]? = some c ∧
      ({ c with capacity := capacity } : Cell).Funded ∧
      d' = d.setOutput 0 { c with capacity := capacity } := by
  obtain ⟨fee, hest, h⟩ := h.bind
  obtain ⟨occupied, hoccupied, h⟩ := h.bind
  obtain ⟨c, hc, hocc⟩ := Draft.occupied_eq_ok.mp hoccupied.of_ofExcept
  cases hsub : Capacity.sub? w.worth fee with
  | none =>
    rw [hsub] at h
    exact absurd h not_yields_throw
  | some capacity =>
    rw [hsub] at h
    simp only at h
    split at h
    · rename_i hle
      obtain ⟨c', hc', rfl⟩ := Draft.setCapacity_eq_ok.mp h.of_ofExcept
      obtain rfl := Option.some.inj (hc.symm.trans hc')
      exact ⟨fee, capacity, c, hest, hsub, hc,
        Cell.funded_of_le (c := { c with capacity := capacity }) hocc (UInt64.not_lt.mpr hle), rfl⟩
    · exact absurd h not_yields_throw

/-- A draft of what a construction starts from, for which some locks are going to pay. -/
def Begun (a : Assembler σ) (k : Construction) (payers : List Script) (d : Draft) : Prop :=
  ∃ o, Opens a k o ∧ o.payers = payers ∧ d.Spends o.spent ∧ d.Offers o.promised o.change

/-- The last phases of a construction that collects capacity from its payers. -/
theorem Begun.completes {a : Assembler σ} {k : Construction} {payers : List Script} {r : Assembled}
    {d d₁ d₂ : Draft} (h : Begun a k payers d)
    (collected : Yields (do
      return (← a.collectCapacity d ((payers.map SearchKey.plainByLock).map a.stream)).2) d₁)
    (settled : Yields (a.settleChange d₁) d₂) (transaction : r.transaction = d₂.transaction)
    (fee : d₂.fee = .ok r.fee)
    (groups : r.groups = groupInputs payers (d₂.inputs.map (·.cell.lock))) :
    ∃ o, Opens a k o ∧ Completes a o r := by
  obtain ⟨o, hopens, rfl, hspends, hoffers⟩ := h
  obtain ⟨⟨got, d'⟩, hc, hd⟩ := collected.bind
  obtain rfl := hd.of_pure
  exact ⟨o, hopens, .intro hspends hoffers hc settled transaction fee groups⟩

namespace Construction

variable {a : Assembler σ} {res : Assembled}

/-! ## From the phases -/

theorem begun_transfer {r : TransferRequest} {plan : Unit} {d d' : Draft} (hblank : d.Blank)
    (hinit : Yields (a.transferFlow r).init plan)
    (houtputs : Yields ((a.transferFlow r).buildOutputs plan d) d') :
    Begun a (.transfer r) r.senders d' := by
  obtain ⟨d₁, hr, houtputs⟩ := houtputs.bind
  obtain ⟨hi, ho, hchange, hfunded⟩ := TransferRequest.addReceivers_eq_ok hr.of_ofExcept
  rw [hblank.inputs] at hi
  rw [hblank.outputs, List.nil_append] at ho
  rw [hblank.change] at hchange
  obtain rfl := houtputs.of_pure
  have hoffers : (r.addChange d₁).Offers (r.receivers.map fun e => Cell.plain e.1 e.2)
      r.change := by
    unfold TransferRequest.addChange
    split
    · rename_i lock hl
      rw [hl]
      exact ⟨by rw [Draft.outputs_addChange, ho]; rfl, by rw [Draft.change_addChange, ho]; rfl⟩
    · rename_i hl
      rw [hl]
      exact ⟨by rw [ho]; simp, hchange⟩
  have hinputs : (r.addChange d₁).inputs = [] := by
    unfold TransferRequest.addChange
    split <;> exact hi
  -- neither list of locks is empty
  obtain ⟨hs, hinit⟩ := Yields.of_throw_if hinit
  obtain ⟨hr, -⟩ := hinit.of_throw_if
  exact ⟨_, .transfer (fun h => hs (by rw [h]; rfl)) (fun h => hr (by rw [h]; rfl)) hfunded, rfl,
    Draft.spends_nil hinputs, hoffers⟩

theorem begun_deposit {owner : Script} {capacity : Capacity} {d d' : Draft} (hblank : d.Blank)
    (houtputs : a.addDeposit owner capacity d = .ok d') :
    Begun a (.deposit owner capacity) [owner] d' := by
  obtain ⟨hi, hoffers, hfunded⟩ := Assembler.addDeposit_eq_ok hblank houtputs
  exact ⟨_, .deposit hfunded, rfl, Draft.spends_nil hi, hoffers⟩

theorem begun_withdraw {p : OutPoint} {c : Dao.CommittedCell} {d d' : Draft} (hblank : d.Blank)
    (hinit : Yields (a.withdrawFlow p).init c)
    (houtputs : Yields ((a.withdrawFlow p).buildOutputs c d) d') :
    Begun a (.withdraw p) [c.cell.lock] (d'.addInput c.outPoint c.cell Since.zero none) := by
  obtain ⟨c', hload, hinit⟩ := hinit.bind
  obtain ⟨_, hdeposit, hinit⟩ := hinit.bind
  obtain rfl := hinit.of_pure
  obtain rfl := houtputs.of_pure
  have hisDeposit := Dao.CommittedCell.ensureDeposit_eq_ok.mp hdeposit.of_ofExcept
  refine ⟨_, .withdraw hload hisDeposit, rfl, (Draft.spends_nil ?_).addInput _ _ _ none,
    Draft.Offers.addInput ⟨?_, ?_⟩ _ _ _ none⟩
  · exact hblank.inputs
  · rw [Draft.outputs_addChange, Draft.outputs_addOutput, hblank.outputs]
    rfl
  · rw [Draft.change_addChange, Draft.outputs_addOutput, hblank.outputs]
    rfl

theorem begun_issueCheque {r : ChequeRequest} {plan : Unit} {d d₁ d₂ d₃ : Draft} {got : Collected}
    {collected : TokenAmount} (hblank : d.Blank) (hinit : Yields (a.issueFlow r).init plan)
    (houtputs : a.addCheque r d = .ok d₁)
    (htokens : Yields (a.collectTokens d₁ (a.scripts.sudtType r.owner) r.amount
      ([SearchKey.byLockAndType r.sender (a.scripts.sudtType r.owner)].map a.stream))
      ((got, collected), d₂))
    (hsettle : d₂.settleTokenChange Assembler.tokenChange collected r.amount = .ok d₃) :
    Begun a (.issueCheque r) [r.sender] d₃ := by
  obtain ⟨hi, hoffers⟩ := Assembler.addCheque_eq_ok hblank houtputs
  obtain ⟨cells, held, hpass, hspends, -⟩ := Assembler.collectTokens_fresh hi htokens
  obtain ⟨hinputs, hoffers'⟩ :=
    Assembler.settleTokenChange_eq_ok (hpass.offers hoffers) hsettle
  obtain ⟨hamount, hinit⟩ := Yields.of_throw_if hinit
  refine ⟨_, .issueCheque hamount hinit.of_throw_if.1 hi htokens, rfl, ?_, hoffers'⟩
  rw [Draft.Spends, hinputs]
  exact ⟨rfl, hspends.2⟩

theorem begun_claimCheques {receiver : Script} {owner : Hash} {t : ClaimTally} {d d' : Draft}
    (hblank : d.Blank) (hinit : Yields (a.findCheques receiver owner) t)
    (houtputs : a.addClaimed receiver owner t d = .ok d') :
    Begun a (.claimCheques receiver owner) [receiver] (t.cheques.foldl Draft.consume d') := by
  obtain ⟨hi, hoffers⟩ := Assembler.addClaimed_eq_ok hblank houtputs
  exact ⟨_, .claimCheques hinit, rfl, (Draft.spends_nil hi).foldl_consume t.cheques,
    hoffers.foldl_consume t.cheques⟩

theorem begun_withdrawCheque {r : ChequeRequest} {c : LiveCell} {d d' : Draft} (hblank : d.Blank)
    (hinit : Yields (a.findCheque r) c) (houtputs : Assembler.addReturned r c d = .ok d') :
    Begun a (.withdrawCheque r) [r.sender] (d'.addInput c.outPoint c.cell withdrawSince none) := by
  obtain ⟨hi, hoffers⟩ := Assembler.addReturned_eq_ok hblank houtputs
  exact ⟨_, .withdrawCheque hinit, rfl, (Draft.spends_nil hi).addInput _ _ _ none,
    hoffers.addInput _ _ _ none⟩

/-! ## From the result -/

theorem anatomy_transfer {r : TransferRequest} (h : Yields (a.transfer r) res) :
    ∃ o, Opens a (.transfer r) o ∧ Completes a o res := by
  obtain ⟨_, d₁, d₂, d₃, d₄, d₅, d, hinit, h₁, h₂, h₃, h₄, h₅, h₆, ht, hfee, hg⟩ :=
    Flow.of_assemble h
  obtain rfl := h₁.of_pure
  obtain rfl := h₂.of_pure
  obtain rfl := h₃.of_pure
  have hblank := (Draft.Blank.empty.setVersion 0).addCellDep a.scripts.secp256k1Blake160.dep
  refine (begun_transfer hblank hinit h₄).completes ?_ h₆ ht hfee hg
  rw [List.map_map]
  exact h₅

theorem anatomy_deposit {owner : Script} {capacity : Capacity}
    (h : Yields (a.deposit owner capacity) res) :
    ∃ o, Opens a (.deposit owner capacity) o ∧ Completes a o res := by
  obtain ⟨_, d₁, d₂, d₃, d₄, d₅, d, hinit, h₁, h₂, h₃, h₄, h₅, h₆, ht, hfee, hg⟩ :=
    Flow.of_assemble h
  obtain rfl := h₁.of_pure
  obtain rfl := h₂.of_pure
  obtain rfl := h₃.of_pure
  have hblank := ((Draft.Blank.empty.setVersion 0).addCellDep
    a.scripts.secp256k1Blake160.dep).addCellDep a.scripts.dao.dep
  exact (begun_deposit hblank h₄.of_ofExcept).completes h₅ h₆ ht hfee hg

theorem anatomy_withdraw {p : OutPoint} (h : Yields (a.withdraw p) res) :
    ∃ o, Opens a (.withdraw p) o ∧ Completes a o res := by
  obtain ⟨c, d₁, d₂, d₃, d₄, d₅, d, hinit, h₁, h₂, h₃, h₄, h₅, h₆, ht, hfee, hg⟩ :=
    Flow.of_assemble h
  obtain rfl := h₁.of_pure
  obtain rfl := h₂.of_pure
  obtain rfl := h₃.of_pure
  have hblank := (((Draft.Blank.empty.setVersion 0).addHeaderDep c.header.hash).addCellDep
    a.scripts.secp256k1Blake160.dep).addCellDep a.scripts.dao.dep
  exact (begun_withdraw hblank hinit h₄).completes h₅ h₆ ht hfee hg

theorem anatomy_issueCheque {r : ChequeRequest} (h : Yields (a.issueCheque r) res) :
    ∃ o, Opens a (.issueCheque r) o ∧ Completes a o res := by
  obtain ⟨_, d₁, d₂, d₃, d₄, d₅, d, hinit, h₁, h₂, h₃, h₄, h₅, h₆, ht, hfee, hg⟩ :=
    Flow.of_assemble h
  obtain rfl := h₁.of_pure
  obtain rfl := h₂.of_pure
  obtain rfl := h₃.of_pure
  have hblank := ((Draft.Blank.empty.setVersion 0).addCellDep
    a.scripts.secp256k1Blake160.dep).addCellDep a.scripts.sudt.dep
  obtain ⟨⟨⟨_, collected⟩, d'⟩, htokens, h₅⟩ := h₅.bind
  obtain ⟨d'', hsettle, h₅⟩ := h₅.bind
  exact (begun_issueCheque hblank hinit h₄.of_ofExcept htokens hsettle.of_ofExcept).completes
    h₅ h₆ ht hfee hg

theorem anatomy_claimCheques {receiver : Script} {owner : Hash}
    (h : Yields (a.claimCheques receiver owner) res) :
    ∃ o, Opens a (.claimCheques receiver owner) o ∧ Completes a o res := by
  obtain ⟨t, d₁, d₂, d₃, d₄, d₅, d, hinit, h₁, h₂, h₃, h₄, h₅, h₆, ht, hfee, hg⟩ :=
    Flow.of_assemble h
  obtain rfl := h₁.of_pure
  obtain rfl := h₂.of_pure
  obtain rfl := h₃.of_pure
  have hblank := (((Draft.Blank.empty.setVersion 0).addCellDep
    a.scripts.secp256k1Blake160.dep).addCellDep a.scripts.sudt.dep).addCellDep a.scripts.cheque.dep
  exact (begun_claimCheques hblank hinit h₄.of_ofExcept).completes h₅ h₆ ht hfee hg

theorem anatomy_withdrawCheque {r : ChequeRequest} (h : Yields (a.withdrawCheque r) res) :
    ∃ o, Opens a (.withdrawCheque r) o ∧ Completes a o res := by
  obtain ⟨c, d₁, d₂, d₃, d₄, d₅, d, hinit, h₁, h₂, h₃, h₄, h₅, h₆, ht, hfee, hg⟩ :=
    Flow.of_assemble h
  obtain rfl := h₁.of_pure
  obtain rfl := h₂.of_pure
  obtain rfl := h₃.of_pure
  have hblank := (((Draft.Blank.empty.setVersion 0).addCellDep
    a.scripts.secp256k1Blake160.dep).addCellDep a.scripts.sudt.dep).addCellDep a.scripts.cheque.dep
  exact (begun_withdrawCheque hblank hinit h₄.of_ofExcept).completes h₅ h₆ ht hfee hg

theorem anatomy_claim {p : OutPoint} (h : Yields (a.claim p) res) : Claims a p res := by
  obtain ⟨w, d₁, d₂, d₃, d₄, d₅, d, hinit, h₁, h₂, h₃, h₄, h₅, h₆, ht, hfee, hg⟩ :=
    Flow.of_assemble h
  obtain rfl := h₁.of_pure
  obtain rfl := h₂.of_pure
  obtain rfl := h₃.of_pure
  have hblank := ((((Draft.Blank.empty.setVersion 0).addHeaderDep
    w.deposit.header.hash).addHeaderDep w.cell.header.hash).addCellDep
    a.scripts.secp256k1Blake160.dep).addCellDep a.scripts.dao.dep
  have hinputs : d₄.inputs = [] := by rw [h₄.of_pure, Draft.inputs_addOutput, hblank.inputs]
  have houtputs : d₄.outputs = [Cell.plain w.cell.cell.lock 0] := by
    rw [h₄.of_pure, Draft.outputs_addOutput, hblank.outputs]
    rfl
  obtain rfl : d₅ = (d₄.addHeaderDep w.deposit.header.hash).2.addInputWorth w.cell.outPoint
      w.cell.cell (Since.absoluteEpoch w.unlock)
      (some (leBytes 8 (d₄.addHeaderDep w.deposit.header.hash).1)) w.worth := h₅.of_pure
  refine .intro hinit ?_ ?_ ?_ h₆ ht hfee hg
  · rw [Draft.inputs_addInputWorth, Draft.inputs_addHeaderDep, hinputs]
    rfl
  · rw [Draft.inputs_addInputWorth, Draft.inputs_addHeaderDep, hinputs]
    rfl
  · exact (Draft.outputs_addHeaderDep _ _).trans houtputs

/-- Every successful construction, taken apart. -/
theorem anatomy {k : Construction} (h : Yields (k.run a) res) :
    (∃ o, Opens a k o ∧ Completes a o res) ∨ ∃ p, k = .claim p ∧ Claims a p res := by
  cases k with
  | transfer r => exact Or.inl (anatomy_transfer h)
  | deposit owner capacity => exact Or.inl (anatomy_deposit h)
  | withdraw p => exact Or.inl (anatomy_withdraw h)
  | claim p => exact Or.inr ⟨p, rfl, anatomy_claim h⟩
  | issueCheque r => exact Or.inl (anatomy_issueCheque h)
  | claimCheques receiver owner => exact Or.inl (anatomy_claimCheques h)
  | withdrawCheque r => exact Or.inl (anatomy_withdrawCheque h)

end Construction

end CellTx
