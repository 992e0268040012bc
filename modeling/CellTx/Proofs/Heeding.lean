import CellTx.Dao.Info
import CellTx.Proofs.Asking
import CellTx.Proofs.Construction
import CellTx.Proofs.Held

/-!
# No failed question is passed over

Every construction, and every question about the worth of a deposit, heeds the questions that it
puts to the ledger and the estimator (`Call`). There is one lemma for each function that asks: the
walk over a search, which tells an error from the end of the search, the collections, the lookups of
cells and of a cheque's sender, which pass over what is missing or malformed but not over what
failed, and the phases of a flow (`Flow.Heedful`).

Results:
* `CellStream.heeds_pull`, `CellStream.heeds_find`, `CellStream.heeds_drain`: walks.
* `Flow.Heedful.assemble`: a flow heeds what its phases heed.
* `Call.heeds_run`: so do the seven constructions and the three questions about a deposit.
* `Call.failed_question_is_last`: a call whose question fails comes to that failure and asks nothing
  more. A strike at a question that it never reaches changes nothing.

Out of scope: how long a question takes, and asking again.
-/

namespace CellTx

variable {σ α : Type}

/-! ## Walks -/

namespace CellStream

/-- The next cell of streams is the first that the first stream holds, or that its next page does,
or else the next cell of the other streams. -/
theorem pull_cons (l : Ledger σ) (s : CellStream) (rest : List CellStream) :
    pull l (s :: rest) =
      match s.buffer with
      | c :: cells => pure (some c, { s with buffer := cells } :: rest)
      | [] =>
        if s.finished then pull l rest
        else s.fetch l >>= fun t =>
          match t.buffer with
          | c :: cells => pure (some c, { t with buffer := cells } :: rest)
          | [] => pull l rest := by
  cases hb : s.buffer with
  | cons c cells =>
    simp only [pull, next, hb]
    rfl
  | nil =>
    by_cases hend : s.finished = true
    · simp only [pull, next, hb, hend, if_true]
      rfl
    simp only [pull, next, hb, hend, Bool.false_eq_true, if_false]
    refine ExceptT.ext (StateT.ext fun w => ?_)
    rw [run_lift_bind, StateT.run_bind]
    rcases hf : (s.fetch l).run.run w with ⟨e | ⟨key, order, limit, cursor, held, done⟩, w₁⟩
    · rw [run_bind_error hf]
      rfl
    · rw [run_bind_ok hf]
      cases held <;> rfl

variable (l : Ledger σ)

theorem heeds_fetch (s : CellStream) :
    Heeds id (s.fetch l) fun strike => s.fetch (l.logged strike) := by
  refine (Heeds.logged (l.cells s.key s.order s.limit s.cursor)).bind fun page => ?_
  exact (Heeds.pure _).ite (Heeds.pure _)

theorem heeds_pull (streams : List CellStream) :
    Heeds id (pull l streams) fun strike => pull (l.logged strike) streams := by
  induction streams with
  | nil => exact Heeds.pure _
  | cons s rest ih =>
    simp only [pull_cons]
    cases s.buffer with
    | cons c cells => exact Heeds.pure _
    | nil =>
      refine ih.ite ((heeds_fetch l s).bind fun t => ?_)
      cases t.buffer with
      | cons c cells => exact Heeds.pure _
      | nil => exact ih

theorem heeds_find (accept : LiveCell → Bool) (fuel : Nat) (streams : List CellStream) :
    Heeds Failure.query (find l accept fuel streams)
      fun strike => find (l.logged strike) accept fuel streams := by
  induction fuel generalizing streams with
  | zero => exact Heeds.throw _
  | succ fuel ih =>
    refine (heeds_pull l streams).ask.bind fun found => ?_
    obtain ⟨_ | c, streams⟩ := found
    · exact Heeds.pure _
    · exact (Heeds.pure _).ite (ih streams)

theorem heeds_drain (fuel : Nat) (streams : List CellStream) :
    Heeds Failure.query (drain l fuel streams)
      fun strike => drain (l.logged strike) fuel streams := by
  induction fuel generalizing streams with
  | zero => exact Heeds.throw _
  | succ fuel ih =>
    refine (heeds_pull l streams).ask.bind fun found => ?_
    obtain ⟨_ | c, streams⟩ := found
    · exact Heeds.pure _
    · exact (ih streams).bind fun _ => Heeds.pure _

end CellStream

/-! ## Balancing -/

namespace Assembler

variable (a : Assembler σ)

theorem heeds_estimate (d : Draft) :
    Heeds Failure.query (a.estimate d) fun strike => (a.logged strike).estimate d :=
  (Heeds.logged (a.estimator d.transaction a.feeRate)).ask

theorem heeds_measure (d : Draft) :
    Heeds Failure.query (a.measure d) fun strike => (a.logged strike).measure d := by
  refine (a.heeds_estimate d).bind fun fee => (Heeds.ofExcept _).bind fun committed => ?_
  cases d.changeOutput? with
  | none =>
    exact (Heeds.pure _).bind fun _ => (Heeds.ofExcept _).bind fun _ => Heeds.pure _
  | some c =>
    refine (Heeds.demand _ _).bind fun occupied => (Heeds.pure _).bind fun _ => ?_
    exact (Heeds.ofExcept _).bind fun _ => Heeds.pure _

theorem heeds_collectCapacityWithin (bound fuel : Nat) (got : Collected) (d : Draft)
    (streams : List CellStream) :
    Heeds Failure.query (a.collectCapacityWithin bound fuel got d streams)
      fun strike => (a.logged strike).collectCapacityWithin bound fuel got d streams := by
  induction fuel generalizing got d streams with
  | zero => exact Heeds.throw _
  | succ fuel ih =>
    refine (a.heeds_measure d).bind fun b => (Heeds.pure _).ite ?_
    refine (CellStream.heeds_find a.ledger _ bound streams).bind fun found => ?_
    obtain ⟨_ | c, streams⟩ := found
    · exact (Heeds.pure _).ite (Heeds.throw _)
    · exact (Heeds.ofExcept _).bind fun got => ih got _ streams

theorem heeds_collectCapacity (d : Draft) (streams : List CellStream) :
    Heeds Failure.query (a.collectCapacity d streams)
      fun strike => (a.logged strike).collectCapacity d streams :=
  a.heeds_collectCapacityWithin _ _ _ _ _

theorem heeds_collectTokensWithin (bound : Nat) (type : Script) (required : TokenAmount)
    (fuel : Nat) (got : Collected × TokenAmount) (d : Draft) (streams : List CellStream) :
    Heeds Failure.query (a.collectTokensWithin bound type required fuel got d streams)
      fun strike =>
        (a.logged strike).collectTokensWithin bound type required fuel got d streams := by
  induction fuel generalizing got d streams with
  | zero => exact Heeds.throw _
  | succ fuel ih =>
    refine (Heeds.pure _).ite ?_
    refine (CellStream.heeds_find a.ledger _ bound streams).bind fun found => ?_
    obtain ⟨_ | c, streams⟩ := found
    · exact Heeds.throw _
    · refine (Heeds.decoded _).bind fun held => (Heeds.demand _ _).bind fun amount => ?_
      exact (Heeds.ofExcept _).bind fun got => ih _ _ streams

theorem heeds_collectTokens (d : Draft) (type : Script) (required : TokenAmount)
    (streams : List CellStream) :
    Heeds Failure.query (a.collectTokens d type required streams)
      fun strike => (a.logged strike).collectTokens d type required streams :=
  a.heeds_collectTokensWithin _ _ _ _ _ _ _

theorem heeds_settleChange (d : Draft) :
    Heeds Failure.query (a.settleChange d) fun strike => (a.logged strike).settleChange d := by
  simp only [settleChange]
  cases d.change with
  | none => exact Heeds.pure _
  | some i =>
    refine (a.heeds_measure d).bind fun b => (Heeds.demand _ _).bind fun left => ?_
    refine (Heeds.demand _ _).bind fun change => (Heeds.ofExcept _).bind fun occupied => ?_
    exact (Heeds.ofExcept _).ite (Heeds.ofExcept _)

end Assembler

/-! ## Flows -/

/-- A flow whose phases heed their questions, and that names the same signers under a log. -/
structure Flow.Heedful {Plan : Type} (flow : Flow σ Plan)
    (watched : Option Strike → Flow (Logged σ) Plan) : Prop where
  init : Heeds Failure.query flow.init fun strike => (watched strike).init
  setVersion plan d : Heeds Failure.query (flow.setVersion plan d)
    fun strike => (watched strike).setVersion plan d
  setHeaderDeps plan d : Heeds Failure.query (flow.setHeaderDeps plan d)
    fun strike => (watched strike).setHeaderDeps plan d
  setCellDeps plan d : Heeds Failure.query (flow.setCellDeps plan d)
    fun strike => (watched strike).setCellDeps plan d
  buildOutputs plan d : Heeds Failure.query (flow.buildOutputs plan d)
    fun strike => (watched strike).buildOutputs plan d
  buildInputs plan d : Heeds Failure.query (flow.buildInputs plan d)
    fun strike => (watched strike).buildInputs plan d
  settleChange plan d : Heeds Failure.query (flow.settleChange plan d)
    fun strike => (watched strike).settleChange plan d
  signers strike : (watched strike).signingLocks = flow.signingLocks

theorem Flow.Heedful.assemble {Plan : Type} {flow : Flow σ Plan}
    {watched : Option Strike → Flow (Logged σ) Plan} (h : flow.Heedful watched) :
    Heeds Failure.query flow.assemble fun strike => (watched strike).assemble := by
  have hdraft : Heeds Failure.query flow.draft fun strike => (watched strike).draft := by
    refine h.init.bind fun plan => (h.setVersion plan _).bind fun d₁ => ?_
    refine (h.setHeaderDeps plan d₁).bind fun d₂ => (h.setCellDeps plan d₂).bind fun d₃ => ?_
    refine (h.buildOutputs plan d₃).bind fun d₄ => (h.buildInputs plan d₄).bind fun d₅ => ?_
    exact (h.settleChange plan d₅).bind fun _ => Heeds.pure _
  simp only [Flow.assemble, h.signers]
  exact hdraft.bind fun _ => (Heeds.ofExcept _).bind fun _ => Heeds.pure _

/-! ## Looking things up -/

theorem Dao.CommittedCell.heeds_load (l : Ledger σ) (p : OutPoint) :
    Heeds Failure.query (load l p) fun strike => load (l.logged strike) p := by
  refine (Heeds.logged (l.transaction p.txHash)).ask.bind fun found => ?_
  refine (Heeds.demand _ _).bind fun t => (Heeds.demand _ _).bind fun block => ?_
  refine (Heeds.logged (l.header block)).ask.bind fun header => ?_
  exact (Heeds.demand _ _).bind fun _ => (Heeds.demand _ _).bind fun _ => Heeds.pure _

theorem heeds_findSender (l : Ledger σ) (args : ChequeArgs) (spent : List OutPoint) :
    Heeds id (findSender l args spent) fun strike => findSender (l.logged strike) args spent := by
  induction spent with
  | nil => exact Heeds.pure _
  | cons p rest ih =>
    refine (Heeds.logged (l.transaction p.txHash)).bind fun found => ?_
    cases found.bind fun t => t.transaction.outputs[p.index.toNat]? with
    | none => exact ih
    | some cell => exact (Heeds.pure _).ite ih

theorem heeds_recoverSender (l : Ledger σ) (cheque : OutPoint) (args : ChequeArgs) :
    Heeds Failure.query (recoverSender l cheque args)
      fun strike => recoverSender (l.logged strike) cheque args := by
  refine (Heeds.logged (l.transaction cheque.txHash)).ask.bind fun found => ?_
  refine (Heeds.demand _ _).bind fun t => ?_
  exact (heeds_findSender l args t.transaction.spent).ask.bind fun _ => Heeds.demand _ _

namespace Assembler

variable (a : Assembler σ)

theorem heeds_senderOf (t : ClaimTally) (c : LiveCell) (args : ChequeArgs) :
    Heeds Failure.query (a.senderOf t c args) fun strike => (a.logged strike).senderOf t c args := by
  simp only [senderOf]
  cases t.senders.lookup args with
  | some lock => exact Heeds.pure _
  | none => exact (heeds_recoverSender a.ledger c.outPoint args).bind fun _ => Heeds.pure _

theorem heeds_tally (sudt : Script) (receiver : Bytes) (t : ClaimTally) (cells : List LiveCell) :
    Heeds Failure.query (a.tally sudt receiver t cells)
      fun strike => (a.logged strike).tally sudt receiver t cells := by
  induction cells generalizing t with
  | nil => exact Heeds.pure _
  | cons c rest ih =>
    simp only [tally]
    cases chequeArgsFor sudt receiver c with
    | none => exact ih t
    | some args =>
      refine (Heeds.decoded _).bind fun amount => (a.heeds_senderOf t c args).bind fun known => ?_
      exact (Heeds.ofExcept _).bind fun t => ih t

theorem heeds_findCheques (receiver : Script) (owner : Hash) :
    Heeds Failure.query (a.findCheques receiver owner)
      fun strike => (a.logged strike).findCheques receiver owner := by
  refine (CellStream.heeds_drain a.ledger _ _).bind fun cells => ?_
  refine (a.heeds_tally _ _ _ cells).bind fun t => ?_
  exact (Heeds.throw _).ite (Heeds.pure _)

theorem heeds_findCheque (r : ChequeRequest) :
    Heeds Failure.query (a.findCheque r) fun strike => (a.logged strike).findCheque r := by
  refine (CellStream.heeds_find a.ledger _ _ _).bind fun found => ?_
  obtain ⟨_ | c, streams⟩ := found
  · exact Heeds.throw _
  · exact Heeds.pure _

theorem heeds_loadWithdrawing (p : OutPoint) :
    Heeds Failure.query (a.loadWithdrawing p)
      fun strike => (a.logged strike).loadWithdrawing p := by
  refine (Dao.CommittedCell.heeds_load a.ledger p).bind fun w => ?_
  refine (Heeds.ofExcept _).bind fun _ => (Heeds.ofExcept _).bind fun deposit => ?_
  refine (Dao.CommittedCell.heeds_load a.ledger deposit).bind fun d => ?_
  refine (Heeds.ofExcept _).bind fun _ => (Heeds.ofExcept _).bind fun unlock => ?_
  exact (Heeds.logged (a.ledger.maximumWithdraw d.outPoint w.header.hash)).ask.bind
    fun _ => Heeds.pure _

theorem heeds_settleClaim (w : WithdrawingCell) (d : Draft) :
    Heeds Failure.query (a.settleClaim w d) fun strike => (a.logged strike).settleClaim w d := by
  refine (a.heeds_estimate d).bind fun fee => (Heeds.ofExcept _).bind fun occupied => ?_
  cases Capacity.sub? w.worth fee with
  | some capacity => exact (Heeds.ofExcept _).ite (Heeds.throw _)
  | none => exact Heeds.throw _

/-! ## The seven flows -/

theorem heedful_transferFlow (r : TransferRequest) :
    (a.transferFlow r).Heedful fun strike => (a.logged strike).transferFlow r where
  init := (Heeds.throw _).ite ((Heeds.throw _).ite (Heeds.pure _))
  setVersion _ _ := Heeds.pure _
  setHeaderDeps _ _ := Heeds.pure _
  setCellDeps _ _ := Heeds.pure _
  buildOutputs _ _ := (Heeds.ofExcept _).bind fun _ => Heeds.pure _
  buildInputs _ d := (a.heeds_collectCapacity d _).bind fun _ => Heeds.pure _
  settleChange _ d := a.heeds_settleChange d
  signers _ := rfl

theorem heedful_depositFlow (owner : Script) (capacity : Capacity) :
    (a.depositFlow owner capacity).Heedful
      fun strike => (a.logged strike).depositFlow owner capacity where
  init := Heeds.pure _
  setVersion _ _ := Heeds.pure _
  setHeaderDeps _ _ := Heeds.pure _
  setCellDeps _ _ := Heeds.pure _
  buildOutputs _ _ := Heeds.ofExcept _
  buildInputs _ d := (a.heeds_collectCapacity d _).bind fun _ => Heeds.pure _
  settleChange _ d := a.heeds_settleChange d
  signers _ := rfl

theorem heedful_withdrawFlow (p : OutPoint) :
    (a.withdrawFlow p).Heedful fun strike => (a.logged strike).withdrawFlow p where
  init := (Dao.CommittedCell.heeds_load a.ledger p).bind fun _ =>
    (Heeds.ofExcept _).bind fun _ => Heeds.pure _
  setVersion _ _ := Heeds.pure _
  setHeaderDeps _ _ := Heeds.pure _
  setCellDeps _ _ := Heeds.pure _
  buildOutputs _ _ := Heeds.pure _
  buildInputs _ _ := (a.heeds_collectCapacity _ _).bind fun _ => Heeds.pure _
  settleChange _ d := a.heeds_settleChange d
  signers _ := rfl

theorem heedful_claimFlow (p : OutPoint) :
    (a.claimFlow p).Heedful fun strike => (a.logged strike).claimFlow p where
  init := a.heeds_loadWithdrawing p
  setVersion _ _ := Heeds.pure _
  setHeaderDeps _ _ := Heeds.pure _
  setCellDeps _ _ := Heeds.pure _
  buildOutputs _ _ := Heeds.pure _
  buildInputs _ _ := Heeds.pure _
  settleChange w d := a.heeds_settleClaim w d
  signers _ := rfl

theorem heedful_issueFlow (r : ChequeRequest) :
    (a.issueFlow r).Heedful fun strike => (a.logged strike).issueFlow r where
  init := (Heeds.throw _).ite ((Heeds.throw _).ite (Heeds.pure _))
  setVersion _ _ := Heeds.pure _
  setHeaderDeps _ _ := Heeds.pure _
  setCellDeps _ _ := Heeds.pure _
  buildOutputs _ _ := Heeds.ofExcept _
  buildInputs _ d := by
    refine (a.heeds_collectTokens d _ _ _).bind fun _ => (Heeds.ofExcept _).bind fun d => ?_
    exact (a.heeds_collectCapacity d _).bind fun _ => Heeds.pure _
  settleChange _ d := a.heeds_settleChange d
  signers _ := rfl

theorem heedful_claimChequesFlow (receiver : Script) (owner : Hash) :
    (a.claimChequesFlow receiver owner).Heedful
      fun strike => (a.logged strike).claimChequesFlow receiver owner where
  init := a.heeds_findCheques receiver owner
  setVersion _ _ := Heeds.pure _
  setHeaderDeps _ _ := Heeds.pure _
  setCellDeps _ _ := Heeds.pure _
  buildOutputs _ _ := Heeds.ofExcept _
  buildInputs _ _ := (a.heeds_collectCapacity _ _).bind fun _ => Heeds.pure _
  settleChange _ d := a.heeds_settleChange d
  signers _ := rfl

theorem heedful_withdrawChequeFlow (r : ChequeRequest) :
    (a.withdrawChequeFlow r).Heedful fun strike => (a.logged strike).withdrawChequeFlow r where
  init := a.heeds_findCheque r
  setVersion _ _ := Heeds.pure _
  setHeaderDeps _ _ := Heeds.pure _
  setCellDeps _ _ := Heeds.pure _
  buildOutputs _ _ := Heeds.ofExcept _
  buildInputs _ _ := (a.heeds_collectCapacity _ _).bind fun _ => Heeds.pure _
  settleChange _ d := a.heeds_settleChange d
  signers _ := rfl

/-! ## Questions about a deposit -/

theorem heeds_info (deposit : OutPoint) (block : Header) :
    Heeds Failure.query (Dao.depositInfo a deposit block)
      fun strike => Dao.depositInfo (a.logged strike) deposit block := by
  refine (Dao.CommittedCell.heeds_load a.ledger deposit).bind fun d => ?_
  refine (Heeds.ofExcept _).bind fun _ => (Heeds.demand _ _).bind fun occupied => ?_
  refine (Heeds.ofExcept _).bind fun compensation => (Heeds.ofExcept _).bind fun unlock => ?_
  exact Heeds.pure _

theorem heeds_depositInfo (deposit : OutPoint) (block : Hash) :
    Heeds Failure.query (a.depositInfo deposit block)
      fun strike => (a.logged strike).depositInfo deposit block := by
  refine (Heeds.logged (a.ledger.header block)).ask.bind fun found => ?_
  exact (Heeds.demand _ _).bind fun header => a.heeds_info deposit header

theorem heeds_depositInfoOfWithdrawing (p : OutPoint) :
    Heeds Failure.query (a.depositInfoOfWithdrawing p)
      fun strike => (a.logged strike).depositInfoOfWithdrawing p := by
  refine (Dao.CommittedCell.heeds_load a.ledger p).bind fun w => ?_
  refine (Heeds.ofExcept _).bind fun _ => (Heeds.ofExcept _).bind fun deposit => ?_
  exact a.heeds_info deposit w.header

theorem heeds_depositInfoAtTip (deposit : OutPoint) :
    Heeds Failure.query (a.depositInfoAtTip deposit)
      fun strike => (a.logged strike).depositInfoAtTip deposit :=
  (Heeds.logged a.ledger.tip).ask.bind fun tip => a.heeds_info deposit tip

end Assembler

/-! ## Any call -/

/-- A call of the library: a construction, or a question about the worth of a deposit. -/
inductive Call : Type → Type where
  | construct (k : Construction) : Call Assembled
  | depositInfo (deposit : OutPoint) (block : Hash) : Call Dao.DepositInfo
  | depositInfoOfWithdrawing (withdrawing : OutPoint) : Call Dao.DepositInfo
  | depositInfoAtTip (deposit : OutPoint) : Call Dao.DepositInfo

namespace Call

/-- What is called. -/
def run (a : Assembler σ) : Call α → Build σ α
  | construct k => k.run a
  | depositInfo deposit block => a.depositInfo deposit block
  | depositInfoOfWithdrawing p => a.depositInfoOfWithdrawing p
  | depositInfoAtTip deposit => a.depositInfoAtTip deposit

/-- What a call comes to in a world with an empty log, and that world afterwards. -/
def watch (a : Assembler σ) (s : σ) (strike : Option Strike) (call : Call α) :
    Except Failure α × Logged σ :=
  (call.run (a.logged strike)).run.run { world := s }

theorem heeds_run (a : Assembler σ) (call : Call α) :
    Heeds Failure.query (call.run a) fun strike => call.run (a.logged strike) := by
  cases call with
  | construct k =>
    cases k with
    | transfer r => exact (a.heedful_transferFlow r).assemble
    | deposit owner capacity => exact (a.heedful_depositFlow owner capacity).assemble
    | withdraw p => exact (a.heedful_withdrawFlow p).assemble
    | claim p => exact (a.heedful_claimFlow p).assemble
    | issueCheque r => exact (a.heedful_issueFlow r).assemble
    | claimCheques receiver owner => exact (a.heedful_claimChequesFlow receiver owner).assemble
    | withdrawCheque r => exact (a.heedful_withdrawChequeFlow r).assemble
  | depositInfo deposit block => exact a.heeds_depositInfo deposit block
  | depositInfoOfWithdrawing p => exact a.heeds_depositInfoOfWithdrawing p
  | depositInfoAtTip deposit => exact a.heeds_depositInfoAtTip deposit

/-- No failed question is passed over. Watching a call changes neither what it comes to nor the
world. Whatever the world answers and whichever question is struck, a question that failed is the
last one, and the call comes to its error. A strike at a question that the call reaches is such a
failure, after the same questions as without it; a strike at a later one changes nothing at all.
The error of a question is a remote query failure, but for a worth that is undefined. -/
theorem failed_question_is_last (a : Assembler σ) (s : σ) (call : Call α) :
    (call.run a).run.run s = ((call.watch a s none).1, (call.watch a s none).2.world) ∧
    (∀ strike i e, (call.watch a s strike).2.log[i]? = some (some e) →
      (call.watch a s strike).2.log.length = i + 1 ∧
      (call.watch a s strike).1 = .error (.query e)) ∧
    (∀ strike : Strike,
      (strike.question < (call.watch a s none).2.log.length →
        (call.watch a s (some strike)).1 = .error (.query strike.error) ∧
        (call.watch a s (some strike)).2.log =
          (call.watch a s none).2.log.take strike.question ++ [some strike.error]) ∧
      ((call.watch a s none).2.log.length ≤ strike.question →
        call.watch a s (some strike) = call.watch a s none)) ∧
    ∀ e, e ≠ .undefinedWorth → (Failure.query e).kind = .remoteQueryFailure := by
  have h := heeds_run a call
  refine ⟨?_, fun strike i e hi => ?_, fun strike => ⟨fun hreached => ?_, fun hspared => ?_⟩, ?_⟩
  · exact h.calm { world := s }
  · exact (h.accounts strike { world := s }).last hi
  · exact h.struck strike _ (Nat.zero_le _) hreached
  · exact h.spared strike _ hspared
  · intro e he
    cases e <;> first | rfl | exact absurd rfl he

/-- A transfer that asks four questions: a fee, a page, and the fee twice more. When the page is
refused, nothing is asked after it; a fifth question would be refused in vain. -/
theorem failed_question_is_last_transfer :
    ∃ call : Call Assembled, ∃ a : Assembler Nat,
      (call.watch a 0 none).2.log = List.replicate 4 none ∧
      (call.watch a 0 (some ⟨1, .refused⟩)).1 = .error (.query .refused) ∧
      (call.watch a 0 (some ⟨1, .refused⟩)).2.log = [none, some .refused] ∧
      call.watch a 0 (some ⟨4, .refused⟩) = call.watch a 0 none := by
  let call := Call.construct (.transfer ⟨[.ofByte 1], [(.ofByte 2, 10000000000)],
    some (.ofByte 1)⟩)
  let a := Assembler.onChain (.oneCell (.plain (.ofByte 1) 50000000000))
  have hcalm : (call.watch a 0 none).2.log = List.replicate 4 none := by decide +kernel
  obtain ⟨-, -, hstrikes, -⟩ := failed_question_is_last a 0 call
  obtain ⟨hresult, hlog⟩ := (hstrikes ⟨1, .refused⟩).1 (by rw [hcalm]; decide)
  have hspared := (hstrikes ⟨4, .refused⟩).2 (by rw [hcalm]; decide)
  rw [hcalm] at hlog
  exact ⟨call, a, hcalm, hresult, hlog, hspared⟩

end Call

end CellTx
