import CellTx.Proofs.Failing
import CellTx.Proofs.Grouping
import CellTx.Proofs.Refunds

/-!
# Failures of the phases

Of the failures of a construction some are up to the world (a question, a search), some to what the
inputs cover, and the rest is plain (`Failure.Plain`): a request that is refused, a sum that does
not fit, a thing that is not there. A world that fails only as `q` allows (`Assembler.Answers`) is
searched, looked up and asked about deposits with no other failure than `q` allows.

Results:
* `TransferRequest.plain_addReceivers`, `Refunds.plain_credit` and their companions: what is refused
  before anything is spent is refused plainly.
* `Assembler.Answers.load`, `Assembler.Answers.tally` and their companions: lookups fail as the
  world does, or plainly.
* `Construction.failsOnly_run`: the seven constructions can in addition only fall short, and it says
  of what: the draft that their cells did not cover, the tokens that were not found, the worth that
  does not pay for the fee and the output.

Out of scope: which of several failures comes first.
-/

namespace CellTx

open CellStream (Affords)

variable {σ α : Type} {q : Failure → Prop}

/-- Whether a failure is neither up to the world nor to what inputs cover. -/
def Failure.Kind.isPlain : Kind → Bool
  | insufficientCapacity | insufficientToken | insufficientForFee | remoteQueryFailure | defect =>
    false
  | _ => true

/-- A failure that is neither up to the world nor to what inputs cover. -/
def Failure.Plain (f : Failure) : Prop := f.kind.isPlain = true

/-! ## Results -/

/-- A first point that cannot be told is a plain failure: the number of its epoch is refused before
it is packed. -/
theorem Dao.plain_minimalUnlock {deposit withdraw : EpochFraction} {f : Failure}
    (h : minimalUnlock deposit withdraw = .error f) : f.Plain := by
  rcases minimalUnlock_cases deposit withdraw with ⟨e, he⟩ | ⟨-, he⟩
  · exact nomatch he.symm.trans h
  · obtain rfl := Except.error.inj (he.symm.trans h)
    rfl

theorem Dao.plain_compensation {total occupied : Capacity} {depositRate withdrawRate : UInt64}
    {f : Failure} (h : compensation total occupied depositRate withdrawRate = .error f) :
    f.Plain := by
  unfold compensation at h
  split at h
  · exact Except.error.inj h ▸ rfl
  split at h
  · exact Except.error.inj h ▸ rfl
  · dsimp only at h
    split at h
    · exact Except.error.inj h ▸ rfl
    · exact nomatch h

namespace Dao.CommittedCell

variable {c : CommittedCell} {scripts : SystemScripts} {f : Failure}

theorem plain_ensureDeposit (h : c.ensureDeposit scripts = .error f) : f.Plain := by
  unfold ensureDeposit at h
  split at h
  · exact nomatch h
  · exact Except.error.inj h ▸ rfl

theorem plain_ensureWithdrawing (h : c.ensureWithdrawing scripts = .error f) : f.Plain := by
  unfold ensureWithdrawing at h
  split at h
  · exact nomatch h
  · exact Except.error.inj h ▸ rfl

theorem plain_depositOutPoint (h : c.depositOutPoint = .error f) : f.Plain := by
  unfold depositOutPoint at h
  split at h
  · exact nomatch h
  · exact Except.error.inj h ▸ rfl

end Dao.CommittedCell

theorem Refunds.plain_credit {sender : Script} {capacity : Capacity} {r : Refunds} {f : Failure}
    (h : credit sender capacity r = .error f) : f.Plain := by
  rw [(credit_eq_error_iff.mp h).1]
  rfl

namespace ClaimTally

theorem of_fits_eq_error {f g : Failure} {o : Option α} (hf : q f) (h : fits f o = .error g) :
    q g := by
  cases o with
  | some x => exact nomatch h
  | none => exact Except.error.inj h ▸ hf

theorem plain_add {t : ClaimTally} {c : LiveCell} {sender : Script} {amount : TokenAmount}
    {f : Failure} (h : t.add c sender amount = .error f) : f.Plain :=
  of_except_bind_eq_error h (fun _ he => of_fits_eq_error (by rfl) he) fun _ _ he =>
    of_except_bind_eq_error he (fun _ he => Refunds.plain_credit he) fun _ _ he =>
      of_except_bind_eq_error he (fun _ he => of_fits_eq_error (by rfl) he)
        fun _ _ he => nomatch he

end ClaimTally

/-- The outputs that are asked for are there when they are measured, so that what is refused is
their capacity. -/
theorem TransferRequest.plain_addReceivers {receivers : List (Script × Capacity)} {d : Draft}
    {f : Failure} (h : addReceivers receivers d = .error f) : f.Plain := by
  induction receivers generalizing d f with
  | nil => exact nomatch h
  | cons e rest ih =>
    obtain ⟨lock, capacity⟩ := e
    have hi := d.length_lt_addOutput (Cell.plain lock capacity)
    rw [addReceivers] at h
    refine of_except_bind_eq_error h (fun _ he => Draft.of_occupied_eq_error hi rfl he)
      fun o _ he => ?_
    split at he
    · exact Except.error.inj he ▸ rfl
    · exact ih he

namespace Assembler

theorem plain_addDeposit {a : Assembler σ} {owner : Script} {capacity : Capacity} {d : Draft}
    {f : Failure} (h : a.addDeposit owner capacity d = .error f) : f.Plain := by
  have hi := d.length_lt_addOutput ⟨capacity, owner, some a.scripts.daoType, zeros Dao.dataLength⟩
  refine of_except_bind_eq_error h (fun _ he => Draft.of_occupied_eq_error hi rfl he)
    fun o _ he => ?_
  split at he
  · exact Except.error.inj he ▸ rfl
  · exact nomatch he

theorem plain_addCheque {a : Assembler σ} {r : ChequeRequest} {d : Draft} {f : Failure}
    (h : a.addCheque r d = .error f) : f.Plain :=
  of_except_bind_eq_error h (fun _ he => of_addRaised_eq_error rfl he) fun _ _ he =>
    of_except_bind_eq_error he (fun _ he => of_addRaised_eq_error rfl he)
      fun _ _ he => nomatch he

/-- A cheque adds three outputs, of which the token change is the second. -/
theorem length_outputs_of_addCheque {a : Assembler σ} {r : ChequeRequest} {d d' : Draft}
    (h : a.addCheque r d = .ok d') : d'.outputs.length = d.outputs.length + 3 := by
  obtain ⟨d₁, h₁, h⟩ := except_bind_eq_ok.mp h
  obtain ⟨d₂, h₂, h⟩ := except_bind_eq_ok.mp h
  obtain rfl := Except.ok.inj h
  rw [Draft.outputs_addChange, (addRaised_eq_ok h₂).2.1, (addRaised_eq_ok h₁).2.1]
  simp only [List.length_append, List.length_cons, List.length_nil]

end Assembler

/-! ## Worlds -/

/-- A world whose questions and searches fail only as `q` allows, which allows whatever is plain. -/
structure Assembler.Answers (q : Failure → Prop) (a : Assembler σ) : Prop where
  tip : FailsOnly (fun e => q (.query e)) a.ledger.tip
  header hash : FailsOnly (fun e => q (.query e)) (a.ledger.header hash)
  transaction hash : FailsOnly (fun e => q (.query e)) (a.ledger.transaction hash)
  cells key order limit after :
    FailsOnly (fun e => q (.query e)) (a.ledger.cells key order limit after)
  maximumWithdraw p block : FailsOnly (fun e => q (.query e)) (a.ledger.maximumWithdraw p block)
  estimator t rate : FailsOnly (fun e => q (.query e)) (a.estimator t rate)
  search (keys : List SearchKey) : Affords (q (.defect .endlessSearch)) a.ledger
    (CellStream.bound a.ledger (keys.map a.stream)) (keys.map a.stream)
  plain (f : Failure) (h : f.Plain) : q f

/-- Whatever the world answers, its failures are those of questions and searches. -/
theorem Assembler.answers (hworld : ∀ f : Failure, f.kind ∈ [.remoteQueryFailure, .defect] → q f)
    (hplain : ∀ f : Failure, f.Plain → q f) (a : Assembler σ) : a.Answers q where
  tip e _ := hworld _ (by cases e <;> simp [Failure.kind])
  header _ e _ := hworld _ (by cases e <;> simp [Failure.kind])
  transaction _ e _ := hworld _ (by cases e <;> simp [Failure.kind])
  cells _ _ _ _ e _ := hworld _ (by cases e <;> simp [Failure.kind])
  maximumWithdraw _ _ e _ := hworld _ (by cases e <;> simp [Failure.kind])
  estimator _ _ e _ := hworld _ (by cases e <;> simp [Failure.kind])
  search _ := Or.inl (hworld _ (by simp [Failure.kind]))
  plain := hplain

namespace Assembler.Answers

variable {a : Assembler σ}

theorem ask {m : Query σ α} (h : FailsOnly (fun e => q (.query e)) m) :
    FailsOnly q (Build.ask m) := h.ask fun _ => id

/-! ## Searches -/

theorem pull (ha : a.Answers q) (streams : List CellStream) :
    FailsOnly q (Build.ask (CellStream.pull a.ledger streams)) :=
  ask (CellStream.failsOnly_pull ha.cells streams)

/-- Sums that do not fit fail plainly. -/
theorem overflow (ha : a.Answers q) : q .capacityOverflow := ha.plain _ rfl

/-- What is not there is missed plainly. -/
theorem demand (ha : a.Answers q) {f : Failure} (h : f.Plain) (o : Option α) :
    FailsOnly q (Build.demand f o : Build σ α) := failsOnly_demand (ha.plain f h) o

/-- What cannot be read fails plainly. -/
theorem decoded (ha : a.Answers q) (r : Except EncodingError α) :
    FailsOnly q (Build.decoded r : Build σ α) :=
  failsOnly_decoded (fun e => ha.plain (.encoding e) rfl) r

theorem balancesOnly (ha : a.Answers q) : a.BalancesOnly q where
  estimate d := ask (ha.estimator d.transaction a.feeRate)
  pull := ha.pull
  search := ha.search
  overflow := ha.overflow

/-- A collection of tokens falls short when less than the required amount was found. -/
theorem collectTokensWithin (ha : a.Answers q) {bound fuel : Nat} {type : Script}
    {required : TokenAmount} {got : Collected × TokenAmount} {d : Draft}
    {streams : List CellStream}
    (hshort : ∀ collected, collected < required → q (.insufficientTokens required collected))
    (hbound : Affords (q (.defect .endlessSearch)) a.ledger bound streams)
    (hfuel : Affords (q (.defect .endlessSearch)) a.ledger fuel streams) :
    FailsOnly q (a.collectTokensWithin bound type required fuel got d streams) := by
  induction fuel generalizing got d streams with
  | zero => exact FailsOnly.throw hfuel.of_zero
  | succ fuel ih =>
    rw [Assembler.collectTokensWithin]
    split
    · exact FailsOnly.pure _
    rename_i hless
    refine (CellStream.failsOnly_find ha.pull hbound).bind fun e he => ?_
    obtain ⟨_ | c, streams'⟩ := e
    · exact FailsOnly.throw (hshort _ (BitVec.not_le.mp hless))
    · refine (ha.decoded _).bind fun held _ => ?_
      refine (ha.demand (by rfl) _).bind fun amount _ => ?_
      refine (failsOnly_ofExcept fun _ he =>
        Collected.of_add_eq_error ha.overflow he).bind fun _ _ => ?_
      exact ih (hbound.after_find he) (hfuel.find he)

theorem collectTokens (ha : a.Answers q) (d : Draft) (type : Script) {required : TokenAmount}
    (keys : List SearchKey)
    (hshort : ∀ collected, collected < required → q (.insufficientTokens required collected)) :
    FailsOnly q (a.collectTokens d type required (keys.map a.stream)) :=
  ha.collectTokensWithin hshort (ha.search keys) (ha.search keys)

/-! ## Looking things up -/

theorem load (ha : a.Answers q) (p : OutPoint) :
    FailsOnly q (Dao.CommittedCell.load a.ledger p) := by
  refine (ask (ha.transaction p.txHash)).bind fun found _ => ?_
  refine (ha.demand (by rfl) _).bind fun t _ => ?_
  refine (ha.demand (by rfl) _).bind fun block _ => ?_
  refine (ask (ha.header block)).bind fun header _ => ?_
  refine (ha.demand (by rfl) _).bind fun _ _ => ?_
  exact (ha.demand (by rfl) _).bind fun _ _ => FailsOnly.pure _

theorem findSender (ha : a.Answers q) (args : ChequeArgs) (spent : List OutPoint) :
    FailsOnly (fun e => q (.query e)) (CellTx.findSender a.ledger args spent) := by
  induction spent with
  | nil => exact FailsOnly.pure _
  | cons p rest ih =>
    rw [CellTx.findSender]
    refine FailsOnly.bind (ha.transaction p.txHash) fun found _ => ?_
    split
    · split
      · exact FailsOnly.pure _
      · exact ih
    · exact ih

theorem recoverSender (ha : a.Answers q) (cheque : OutPoint) (args : ChequeArgs) :
    FailsOnly q (CellTx.recoverSender a.ledger cheque args) := by
  refine (ask (ha.transaction cheque.txHash)).bind fun found _ => ?_
  refine (ha.demand (by rfl) _).bind fun t _ => ?_
  refine (ask (ha.findSender args t.transaction.spent)).bind fun _ _ => ?_
  exact ha.demand (by rfl) _

theorem senderOf (ha : a.Answers q) (t : ClaimTally) (c : LiveCell) (args : ChequeArgs) :
    FailsOnly q (a.senderOf t c args) := by
  unfold Assembler.senderOf
  split
  · exact FailsOnly.pure _
  · exact (ha.recoverSender c.outPoint args).bind fun _ _ => FailsOnly.pure _

theorem tally (ha : a.Answers q) (sudt : Script) (receiver : Bytes) (t : ClaimTally)
    (cells : List LiveCell) : FailsOnly q (a.tally sudt receiver t cells) := by
  induction cells generalizing t with
  | nil => exact FailsOnly.pure _
  | cons c rest ih =>
    rw [Assembler.tally]
    split
    · exact ih t
    · refine (ha.decoded _).bind fun amount _ =>
        (ha.senderOf t c _).bind fun e _ => ?_
      exact (failsOnly_ofExcept fun _ he => ha.plain _ (ClaimTally.plain_add he)).bind
        fun t _ => ih t

theorem findCheques (ha : a.Answers q) (receiver : Script) (owner : Hash) :
    FailsOnly q (a.findCheques receiver owner) := by
  refine (CellStream.failsOnly_drain ha.pull (ha.search [_])).bind
    fun cells _ => (ha.tally _ _ _ cells).bind fun t _ => ?_
  split
  · exact FailsOnly.throw (ha.plain _ rfl)
  · exact FailsOnly.pure _

theorem findCheque (ha : a.Answers q) (r : ChequeRequest) : FailsOnly q (a.findCheque r) := by
  refine (CellStream.failsOnly_find ha.pull (ha.search [_])).bind fun e _ => ?_
  obtain ⟨_ | c, streams⟩ := e
  · exact FailsOnly.throw (ha.plain _ rfl)
  · exact FailsOnly.pure _

theorem loadWithdrawing (ha : a.Answers q) (p : OutPoint) :
    FailsOnly q (a.loadWithdrawing p) := by
  refine (ha.load p).bind fun w _ => ?_
  refine (failsOnly_ofExcept fun _ he => ha.plain _ (w.plain_ensureWithdrawing he)).bind
    fun _ _ => ?_
  refine (failsOnly_ofExcept fun _ he => ha.plain _ (w.plain_depositOutPoint he)).bind
    fun deposit _ => ?_
  refine (ha.load deposit).bind fun d _ => ?_
  refine (failsOnly_ofExcept fun _ he => ha.plain _ (d.plain_ensureDeposit he)).bind fun _ _ => ?_
  refine (failsOnly_ofExcept fun _ he => ha.plain _ (Dao.plain_minimalUnlock he)).bind
    fun _ _ => ?_
  exact (ask (ha.maximumWithdraw d.outPoint w.header.hash)).bind fun _ _ => FailsOnly.pure _

/-! ## Questions about a deposit -/

theorem info (ha : a.Answers q) (deposit : OutPoint) (block : Header) :
    FailsOnly q (Dao.depositInfo a deposit block) := by
  refine (ha.load deposit).bind fun d _ => ?_
  refine (failsOnly_ofExcept fun _ he => ha.plain _ (d.plain_ensureDeposit he)).bind fun _ _ => ?_
  refine (ha.demand (by rfl) _).bind fun occupied _ => ?_
  refine (failsOnly_ofExcept fun _ he => ha.plain _ (Dao.plain_compensation he)).bind
    fun _ _ => ?_
  refine (failsOnly_ofExcept fun _ he => ha.plain _ (Dao.plain_minimalUnlock he)).bind
    fun _ _ => ?_
  exact FailsOnly.pure _

theorem depositInfo (ha : a.Answers q) (deposit : OutPoint) (block : Hash) :
    FailsOnly q (a.depositInfo deposit block) := by
  refine (ask (ha.header block)).bind fun found _ => ?_
  exact (ha.demand (by rfl) _).bind fun header _ => ha.info deposit header

theorem depositInfoOfWithdrawing (ha : a.Answers q) (p : OutPoint) :
    FailsOnly q (a.depositInfoOfWithdrawing p) := by
  refine (ha.load p).bind fun w _ => ?_
  refine (failsOnly_ofExcept fun _ he => ha.plain _ (w.plain_ensureWithdrawing he)).bind
    fun _ _ => ?_
  refine (failsOnly_ofExcept fun _ he => ha.plain _ (w.plain_depositOutPoint he)).bind
    fun deposit _ => ?_
  exact ha.info deposit w.header

theorem depositInfoAtTip (ha : a.Answers q) (deposit : OutPoint) :
    FailsOnly q (a.depositInfoAtTip deposit) :=
  (ask ha.tip).bind fun tip _ => ha.info deposit tip

/-! ## The other five constructions -/

theorem transfer (ha : a.Answers q) {r : TransferRequest}
    (hshort : (Construction.transfer r).ShortOnly q a) : FailsOnly q (a.transfer r) := by
  refine Flow.failsOnly_assemble (fun _ => ⟨_, _, _, Ends.pure _, Ends.pure _, Ends.pure _,
    (Draft.Blank.empty.setVersion 0).addCellDep _⟩) ha.overflow ?_ (fun _ d _ => ?_)
    fun _ d₀ d hinit hd₀ hd => ?_
  · unfold transferFlow
    simp only
    split
    · exact FailsOnly.throw (ha.plain _ rfl)
    · split
      · exact FailsOnly.throw (ha.plain _ rfl)
      · exact FailsOnly.pure _
  · exact (failsOnly_ofExcept fun _ he =>
      ha.plain _ (TransferRequest.plain_addReceivers he)).bind fun _ _ => FailsOnly.pure _
  · refine ha.balancesOnly.fund hshort (Construction.begun_transfer hd₀ hinit hd) ?_
    rw [List.map_map]
    rfl

theorem deposit (ha : a.Answers q) {owner : Script} {capacity : Capacity}
    (hshort : (Construction.deposit owner capacity).ShortOnly q a) :
    FailsOnly q (a.deposit owner capacity) := by
  refine Flow.failsOnly_assemble (fun _ => ⟨_, _, _, Ends.pure _, Ends.pure _, Ends.pure _,
    ((Draft.Blank.empty.setVersion 0).addCellDep _).addCellDep _⟩) ha.overflow
    (FailsOnly.pure _) (fun _ d _ => ?_) fun _ d₀ d _ hd₀ hd => ?_
  · exact failsOnly_ofExcept fun _ he => ha.plain _ (plain_addDeposit he)
  · exact ha.balancesOnly.fund hshort (Construction.begun_deposit hd₀ hd.of_ofExcept) rfl

theorem withdraw (ha : a.Answers q) {p : OutPoint}
    (hshort : (Construction.withdraw p).ShortOnly q a) : FailsOnly q (a.withdraw p) := by
  refine Flow.failsOnly_assemble (fun c => ⟨_, _, _, Ends.pure _, Ends.pure _, Ends.pure _,
    (((Draft.Blank.empty.setVersion 0).addHeaderDep c.header.hash).addCellDep _).addCellDep _⟩)
    ha.overflow ?_ (fun _ d _ => FailsOnly.pure _) fun c d₀ d hc hd₀ hd => ?_
  · exact (ha.load p).bind fun c _ => (failsOnly_ofExcept fun _ he =>
      ha.plain _ (c.plain_ensureDeposit he)).bind fun _ _ => FailsOnly.pure _
  · exact ha.balancesOnly.fund hshort (Construction.begun_withdraw hd₀ hc hd) rfl

/-- The token change of a cheque is there when the tokens have been collected. -/
theorem issueCheque (ha : a.Answers q) {r : ChequeRequest}
    (hshort : (Construction.issueCheque r).ShortOnly q a)
    (htokens : ∀ collected, collected < r.amount → q (.insufficientTokens r.amount collected)) :
    FailsOnly q (a.issueCheque r) := by
  refine Flow.failsOnly_assemble (fun _ => ⟨_, _, _, Ends.pure _, Ends.pure _, Ends.pure _,
    ((Draft.Blank.empty.setVersion 0).addCellDep _).addCellDep _⟩) ha.overflow ?_
    (fun _ d _ => ?_) fun _ d₀ d hinit hd₀ hd => ?_
  · unfold issueFlow
    simp only
    split
    · exact FailsOnly.throw (ha.plain _ rfl)
    · split
      · exact FailsOnly.throw (ha.plain _ rfl)
      · exact FailsOnly.pure _
  · exact failsOnly_ofExcept fun _ he => ha.plain _ (plain_addCheque he)
  have hbegun {got : Collected} {collected : TokenAmount} {d₁ d₂ : Draft}
      (hcollected : Yields (a.collectTokens d (a.scripts.sudtType r.owner) r.amount
        ([SearchKey.byLockAndType r.sender (a.scripts.sudtType r.owner)].map a.stream))
        ((got, collected), d₁))
      (hsettle : d₁.settleTokenChange tokenChange collected r.amount = .ok d₂) :=
    Construction.begun_issueCheque hd₀ hinit hd.of_ofExcept hcollected hsettle
  refine ⟨?_, fun d₃ hd₃ => ?_⟩
  · refine (ha.collectTokens d _ [_] htokens).bind fun e he => ?_
    obtain ⟨⟨got, collected⟩, d₁⟩ := e
    obtain ⟨cells, hpass, -⟩ := collectTokens_spec he
    have hi : tokenChange < d₁.outputs.length := by
      rw [hpass.outputs, length_outputs_of_addCheque hd.of_ofExcept, tokenChange]
      omega
    refine (failsOnly_ofExcept fun _ hf =>
      Draft.of_settleTokenChange_eq_error hi (htokens _) hf).bind fun d₂ hd₂ => ?_
    exact (ha.balancesOnly.fund hshort (hbegun he hd₂.of_ofExcept) rfl).1
  · obtain ⟨⟨⟨got, collected⟩, d₁⟩, he, hd₃⟩ := hd₃.bind
    obtain ⟨d₂, hd₂, hd₃⟩ := hd₃.bind
    exact (ha.balancesOnly.fund hshort (hbegun he hd₂.of_ofExcept) rfl).2 d₃ hd₃

/-- The only output of a claim is there when it is settled. The claim falls short when the worth
covers the fee and what the output occupies only in part. -/
theorem claim (ha : a.Answers q) {p : OutPoint}
    (hshort : ∀ w d fee, Yields (a.loadWithdrawing p) w → Yields (a.estimate d) fee →
      w.worth.toNat < fee.toNat + changeFloor w.cell.cell.lock →
        q (.insufficientForFee fee w.worth)) :
    FailsOnly q (a.claim p) := by
  refine Flow.failsOnly_assemble (fun w => ⟨_, _, _, Ends.pure _, Ends.pure _, Ends.pure _,
    ((((Draft.Blank.empty.setVersion 0).addHeaderDep _).addHeaderDep _).addCellDep _).addCellDep
      _⟩) ha.overflow (ha.loadWithdrawing p) (fun _ d _ => FailsOnly.pure _)
    fun w d₀ d hw hd₀ hd => ⟨FailsOnly.pure _, fun d' hd' => ?_⟩
  have houtputs : d'.outputs = [Cell.plain w.cell.cell.lock 0] := by
    have hadded : d'.outputs = (d₀.addOutput (Cell.plain w.cell.cell.lock 0)).outputs := by
      rw [hd'.of_pure, ← hd.of_pure]
      exact d.outputs_addHeaderDep w.deposit.header.hash
    rw [hadded, Draft.outputs_addOutput, hd₀.outputs]
    rfl
  have hi : claimOutput < d'.outputs.length := by
    rw [houtputs]
    exact Nat.zero_lt_one
  refine (ha.balancesOnly.estimate d').bind fun fee hfee => ?_
  refine (failsOnly_ofExcept fun _ he => Draft.of_occupied_eq_error hi ha.overflow he).bind
    fun occupied ho => ?_
  have hoccupied : occupied.toNat = changeFloor w.cell.cell.lock := by
    obtain ⟨c, hc, ho⟩ := Draft.occupied_eq_ok.mp ho.of_ofExcept
    obtain rfl : Cell.plain w.cell.cell.lock 0 = c := by
      rw [houtputs] at hc
      exact Option.some.inj hc
    exact Cell.occupied?_eq_some_iff.mp ho
  split
  · rename_i capacity hsub
    rw [Capacity.sub?_eq_some_iff] at hsub
    split
    · exact failsOnly_ofExcept fun _ he => Draft.of_setCapacity_eq_error hi he
    · rename_i hless
      rw [UInt64.le_iff_toNat_le] at hless
      exact FailsOnly.throw (hshort w d' fee hw hfee (by omega))
  · rename_i hsub
    rw [Capacity.sub?_eq_none_iff] at hsub
    exact FailsOnly.throw (hshort w d' fee hw hfee (by omega))

end Assembler.Answers

/-- A construction fails as the world does, plainly, or because it falls short: of capacity, of
tokens, or of a worth that pays for the fee and the output. -/
theorem Construction.failsOnly_run {a : Assembler σ} (ha : a.Answers q) {k : Construction}
    (hcapacity : k.ShortOnly q a)
    (htokens : ∀ required collected : TokenAmount, collected < required →
      q (.insufficientTokens required collected))
    (hfee : ∀ p w d fee, k = .claim p → Yields (a.loadWithdrawing p) w →
      Yields (a.estimate d) fee → w.worth.toNat < fee.toNat + changeFloor w.cell.cell.lock →
        q (.insufficientForFee fee w.worth)) :
    FailsOnly q (k.run a) := by
  cases k with
  | transfer r => exact ha.transfer hcapacity
  | deposit owner capacity => exact ha.deposit hcapacity
  | withdraw p => exact ha.withdraw hcapacity
  | claim p => exact ha.claim fun w d fee => hfee p w d fee rfl
  | issueCheque r => exact ha.issueCheque hcapacity (htokens r.amount)
  | claimCheques receiver owner =>
    exact ha.balancesOnly.claimCheques hcapacity (ha.findCheques receiver owner)
  | withdrawCheque r => exact ha.balancesOnly.withdrawCheque hcapacity (ha.findCheque r)

end CellTx
