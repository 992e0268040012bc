import CellTx.Dao.Info
import CellTx.Proofs.Records
import CellTx.Proofs.Spent
import CellTx.Proofs.Unlock

/-!
# What a deposit pays

What a deposit has earned is computed twice: information about it promises an interest, and the
chain says what it is worth. The formulas differ, and agree when rates do not fall and the growth
fits 64 bits (specification, section 4.5).

Results:
* `Chain.worth_eq`: the two formulas agree there.
* `Dao.of_depositInfo`, `Assembler.of_depositInfoOfWithdrawing`: what information that was given
  says of the two blocks.
* `Claims.pays`: what the claim of a withdrawing cell pays, and until when it is locked.
* `Assembler.claim_pays_info`: so the claim pays what was promised of it, less the fee, and is
  locked until the point that was promised.

Out of scope: chains whose rates fall. There a deposit is worth less than it holds, while the
interest that is promised is zero.
-/

namespace CellTx

variable {σ : Type}

/-! ## Interest -/

theorem Chain.orElse_eq_ok {α : Type} {e : QueryError} {o : Option α} {x : α} :
    maximumWithdraw.orElse e o = .ok x ↔ o = some x := by
  cases o with
  | none => exact iff_of_false nofun nofun
  | some y => exact ⟨fun h => congrArg some (Except.ok.inj h), fun h => congrArg _ (Option.some.inj h)⟩

/-- What a chain says a deposit is worth is what it occupies and its free capacity, grown. -/
theorem Chain.maximumWithdraw_eq_ok {c : Chain} {p : OutPoint} {d : Dao.CommittedCell}
    {block : Hash} {spent : Header} {worth : Capacity}
    (hd : Yields (Dao.CommittedCell.load c.ledger p) d) (hspent : c.header? block = some spent)
    (h : c.maximumWithdraw p block = .ok worth) :
    ∃ occupied free, d.cell.occupied? = some occupied ∧
      Capacity.sub? d.cell.capacity occupied = some free ∧
      Capacity.add? (UInt64.ofNat (free.toNat * spent.rate.toNat / d.header.rate.toNat)) occupied =
        some worth := by
  obtain ⟨-, t, madeIn, ht, hmadeIn, htx, hmade, hcell⟩ := of_load hd
  rw [← htx] at hcell
  obtain ⟨⟨cell, made⟩, hfound, h⟩ := except_bind_eq_ok.mp h
  obtain ⟨_, hblock, h⟩ := except_bind_eq_ok.mp h
  obtain rfl := Option.some.inj (hspent.symm.trans (orElse_eq_ok.mp hblock))
  have hfound := orElse_eq_ok.mp hfound
  simp only [ht, hcell, hmadeIn, hmade, Option.bind_eq_bind, Option.bind_some] at hfound
  obtain ⟨rfl, rfl⟩ := Prod.mk.inj (Option.some.inj hfound)
  dsimp only at h
  split at h
  · exact nomatch h
  obtain ⟨occupied, hoccupied, h⟩ := except_bind_eq_ok.mp h
  obtain ⟨free, hfree, h⟩ := except_bind_eq_ok.mp h
  split at h
  · exact nomatch h
  exact ⟨occupied, free, orElse_eq_ok.mp hoccupied, orElse_eq_ok.mp hfree, orElse_eq_ok.mp h⟩

/-- The interest is what a deposit is worth beyond its capacity, when rates do not fall and its
growth fits 64 bits. -/
theorem Dao.compensation_eq_ok {total occupied free worth interest : Capacity}
    {depositRate withdrawRate : UInt64} (hfree : Capacity.sub? total occupied = some free)
    (hrates : depositRate ≤ withdrawRate)
    (hfits : free.toNat * withdrawRate.toNat / depositRate.toNat < UInt64.size)
    (hworth : Capacity.add? (UInt64.ofNat (free.toNat * withdrawRate.toNat / depositRate.toNat))
      occupied = some worth)
    (h : compensation total occupied depositRate withdrawRate = .ok interest) :
    worth.toNat = total.toNat + interest.toNat := by
  unfold compensation at h
  split at h
  · exact nomatch h
  rename_i hzero
  simp only [hfree] at h
  split at h
  · exact nomatch h
  rename_i hinterest
  obtain rfl := Except.ok.inj h
  have hinterest := Capacity.ofNat?_eq_some_iff.mp hinterest
  have hworth := Capacity.add?_eq_some_iff.mp hworth
  rw [UInt64.toNat_ofNat_of_lt' hfits] at hworth
  have htotal := Capacity.sub?_eq_some_iff.mp hfree
  have hgrows : free.toNat ≤ free.toNat * withdrawRate.toNat / depositRate.toNat := by
    have hpos : 0 < depositRate.toNat :=
      Nat.pos_of_ne_zero fun h => hzero (UInt64.toNat_inj.mp h)
    rw [Nat.le_div_iff_mul_le hpos]
    exact Nat.mul_le_mul_left _ (UInt64.le_iff_toNat_le.mp hrates)
  omega

/-- What the chain says a deposit is worth is its capacity and its interest, though the two are
computed apart. -/
theorem Chain.worth_eq {c : Chain} {p : OutPoint} {d : Dao.CommittedCell} {block : Hash}
    {spent : Header} {occupied worth interest : Capacity}
    (hd : Yields (Dao.CommittedCell.load c.ledger p) d) (hspent : c.header? block = some spent)
    (hoccupied : d.cell.occupied? = some occupied) (hrates : d.header.rate ≤ spent.rate)
    (hfits : (d.cell.capacity.toNat - d.cell.occupiedBytes * Capacity.perCkb) *
      spent.rate.toNat / d.header.rate.toNat < UInt64.size)
    (hinterest : Dao.compensation d.cell.capacity occupied d.header.rate spent.rate = .ok interest)
    (h : c.maximumWithdraw p block = .ok worth) :
    worth.toNat = d.cell.capacity.toNat + interest.toNat := by
  obtain ⟨occupied', free, hoccupied', hfree, hgrown⟩ := maximumWithdraw_eq_ok hd hspent h
  obtain rfl := Option.some.inj (hoccupied.symm.trans hoccupied')
  refine Dao.compensation_eq_ok hfree hrates ?_ hgrown hinterest
  rw [← Cell.occupied?_eq_some_iff.mp hoccupied, ← Capacity.sub?_eq_some_iff.mp hfree,
    Nat.add_sub_cancel] at hfits
  exact hfits

/-! ## Asking for information -/

/-- What is answered at all is answered by the chain. -/
theorem Node.ledger_of_load {c : Chain} {offline : Bool} {p : OutPoint} {x : Dao.CommittedCell}
    (h : Yields (Dao.CommittedCell.load ({ chain := c, offline := offline } : Node).ledger p) x) :
    ({ chain := c, offline := offline } : Node).ledger = c.ledger := by
  cases offline with
  | false => exact ledger_chain c
  | true =>
    obtain ⟨_, hfound, -⟩ := h.bind
    obtain ⟨_, -, hfound⟩ := (yields_ask.mp hfound).bind
    obtain ⟨_, hreach, -⟩ := hfound.bind
    exact absurd hreach not_yields_throw

/-- What is found out about a deposit. -/
theorem Dao.of_depositInfo {a : Assembler σ} {q : OutPoint} {block : Header} {info : DepositInfo}
    (h : Yields (depositInfo a q block) info) :
    ∃ d occupied, Yields (CommittedCell.load a.ledger q) d ∧ d.cell.occupied? = some occupied ∧
      info.capacity = d.cell.capacity ∧
      compensation d.cell.capacity occupied d.header.rate block.rate = .ok info.compensation ∧
      minimalUnlock d.header.epoch block.epoch = .ok info.unlock := by
  obtain ⟨d, hload, h⟩ := h.bind
  obtain ⟨_, -, h⟩ := h.bind
  obtain ⟨occupied, hoccupied, h⟩ := h.bind
  obtain ⟨interest, hinterest, h⟩ := h.bind
  obtain ⟨unlock, hunlock, h⟩ := h.bind
  obtain rfl := h.of_pure
  exact ⟨d, occupied, hload, hoccupied.of_demand, rfl, hinterest.of_ofExcept,
    hunlock.of_ofExcept⟩

theorem Dao.steady_depositInfo {a : Assembler Nat} {c : Chain} (ha : a.ledger = c.ledger)
    (q : OutPoint) (block : Header) : Steady (depositInfo a q block) := by
  have hload : Steady (CommittedCell.load a.ledger q) := by
    rw [ha]
    exact c.steady_load q
  refine hload.bind fun _ => ?_
  refine Steady.bind ⟨_, ends_ofExcept _⟩ fun _ => ?_
  refine (steady_demand _ _).bind fun _ => ?_
  refine Steady.bind ⟨_, ends_ofExcept _⟩ fun _ => ?_
  exact Steady.bind ⟨_, ends_ofExcept _⟩ fun _ => ⟨_, Ends.pure _⟩

namespace Assembler

/-- Information about a withdrawing cell is information about the deposit behind it. -/
theorem of_depositInfoOfWithdrawing {a : Assembler σ} {p : OutPoint} {info : Dao.DepositInfo}
    (h : Yields (a.depositInfoOfWithdrawing p) info) :
    ∃ w q, Yields (Dao.CommittedCell.load a.ledger p) w ∧ w.depositOutPoint = .ok q ∧
      Yields (Dao.depositInfo a q w.header) info := by
  obtain ⟨w, hload, h⟩ := h.bind
  obtain ⟨_, -, h⟩ := h.bind
  obtain ⟨q, hq, h⟩ := h.bind
  exact ⟨w, q, hload, hq.of_ofExcept, h⟩

end Assembler

/-- A claim has one input and one output, which holds what the withdrawing cell is worth but the
fee. -/
theorem Claims.pays {a : Assembler σ} {p : OutPoint} {r : Assembled} (h : Claims a p r) :
    ∃ w o, Yields (a.loadWithdrawing p) w ∧
      r.transaction.inputs = [⟨w.cell.outPoint, Since.absoluteEpoch w.unlock⟩] ∧
      r.transaction.outputs = [o] ∧ o.capacity.toNat + r.fee.toNat = w.worth.toNat := by
  obtain ⟨w, d, hload, ht, hfee, hspends, hworths, capacity, houtputs⟩ := h.result
  have hbalance := Draft.fee_eq_ok hfee
  rw [hworths, houtputs] at hbalance
  refine ⟨w, Cell.plain w.cell.cell.lock capacity, hload, ?_, ?_, hbalance.symm⟩
  · rw [ht, Draft.inputs_transaction, hspends]
    rfl
  · rw [ht]
    exact houtputs

/-! ## Information and claim -/

/-- What is promised of a withdrawing cell is what its claim pays, and it is what is promised of the
deposit behind it in the block of the withdrawal. -/
theorem Assembler.claim_pays_info {c : Chain} {offline : Bool} {a : Assembler Nat}
    {p q : OutPoint} {w d : Dao.CommittedCell} {info : Dao.DepositInfo} {r : Assembled}
    (hc : c.Built) (ha : a.ledger = ({ chain := c, offline := offline } : Node).ledger)
    (hinfo : Yields (a.depositInfoOfWithdrawing p) info) (hclaim : Yields (a.claim p) r)
    (hw : Yields (Dao.CommittedCell.load a.ledger p) w) (hq : w.depositOutPoint = .ok q)
    (hd : Yields (Dao.CommittedCell.load a.ledger q) d)
    (hrates : d.header.rate ≤ w.header.rate)
    (hfits : (d.cell.capacity.toNat - d.cell.occupiedBytes * Capacity.perCkb) *
      w.header.rate.toNat / d.header.rate.toNat < UInt64.size) :
    (∃ o, r.transaction.outputs = [o] ∧
      o.capacity.toNat + r.fee.toNat = info.capacity.toNat + info.compensation.toNat) ∧
    (∃ i, r.transaction.inputs = [i] ∧ i.since.epoch = some info.unlock) ∧
    Ends (a.depositInfo q w.header.hash) (.ok info) ∧
    (c.tip = w.header → Ends (a.depositInfoAtTip q) (.ok info)) := by
  -- an answer has come back, so the chain can be reached
  have hledger : a.ledger = c.ledger := by
    rw [ha] at hw
    exact ha.trans (Node.ledger_of_load hw)
  obtain ⟨w', q', hw', hq', hinfo⟩ := Assembler.of_depositInfoOfWithdrawing hinfo
  obtain ⟨d', occupied, hd', hoccupied, hcapacity, hinterest, hunlock⟩ := Dao.of_depositInfo hinfo
  obtain ⟨x, o, hx, hinputs, houtputs, hpays⟩ := (Construction.anatomy_claim hclaim).pays
  obtain ⟨hcell, -, ⟨q'', hq'', hdeposit⟩, -, hunlock', hworth⟩ := of_loadWithdrawing hx
  -- both found the same withdrawing cell and the same deposit
  rw [hledger] at hw hd hw' hd' hcell hdeposit hworth
  obtain rfl := Chain.eq_of_load hw hw'
  obtain rfl := Chain.eq_of_load hw hcell
  obtain rfl := Except.ok.inj (hq.symm.trans hq')
  obtain rfl := Except.ok.inj (hq.symm.trans hq'')
  obtain rfl := Chain.eq_of_load hd hd'
  obtain rfl := Chain.eq_of_load hd hdeposit
  have hheader := hc.header?_of_load hw
  have hends := (Dao.steady_depositInfo hledger q x.cell.header).ends hinfo
  refine ⟨⟨o, houtputs, ?_⟩, ⟨_, hinputs, ?_⟩, ?_, fun htip => ?_⟩
  · have hmaximum : c.maximumWithdraw q x.cell.header.hash = .ok x.worth := by
      have hpoint : x.deposit.outPoint = q := (Chain.of_load hd).1
      rw [← hpoint]
      exact (Reaches.of_pure hworth).symm
    rw [hpays, hcapacity]
    exact Chain.worth_eq hd hheader hoccupied hrates hfits hinterest hmaximum
  · rw [Except.ok.inj (hunlock.symm.trans hunlock')]
    exact Dao.epoch_absoluteEpoch_minimalUnlock hunlock'
  · have hask : Ends (a.ledger.header x.cell.header.hash) (.ok (some x.cell.header)) := by
      rw [hledger, ← hheader]
      exact Ends.pure _
    exact hask.ask.bind ((ends_demand_some _ _).bind hends)
  · have hask : Ends a.ledger.tip (.ok x.cell.header) := by
      rw [hledger, ← htip]
      exact Ends.pure _
    exact hask.ask.bind hends

/-- A transaction that deposits 300 CKB. -/
def depositing : Transaction where
  outputs := [⟨30000000000, .ofByte 1, some SystemScripts.mainnet.daoType, zeros 8⟩]

/-- A transaction that withdraws that deposit. -/
def withdrawing : Transaction where
  inputs := [⟨⟨depositing.hash, 0⟩, Since.zero⟩]
  outputs := [⟨30000000000, .ofByte 1, some SystemScripts.mainnet.daoType, leBytes 8 1⟩]

/-- The block of the deposit, in epoch 1. -/
def depositBlock : Header := .withRate 1 (.pack 1 0 1800) Chain.genesisRate

/-- The block of the withdrawal, in epoch 10. The rate has grown by a fifth. -/
def withdrawBlock : Header := .withRate 2 (.pack 10 900 1800) 12000000000000000

/-- The chain that has committed both. -/
def Chain.withdrawn : Chain :=
  (new.commit depositing depositBlock).commit withdrawing withdrawBlock

theorem Chain.commits_withdrawn :
    withdrawn.Commits depositing depositBlock ∧ withdrawn.Commits withdrawing withdrawBlock := by
  have hhash : withdrawing.hash ≠ depositing.hash := by decide +kernel
  have hblock : withdrawBlock.hash ≠ depositBlock.hash := by decide +kernel
  exact ⟨(commits_commit _ _ _).commit hhash fun h => absurd h hblock, commits_commit _ _ _⟩

/-- A fifth of the 198 CKB that are free is promised and paid. -/
theorem Assembler.claim_pays_info_withdrawn :
    ∃ info r, Yields ((onChain .withdrawn).depositInfoOfWithdrawing ⟨withdrawing.hash, 0⟩) info ∧
      Yields ((onChain .withdrawn).claim ⟨withdrawing.hash, 0⟩) r ∧
      info.compensation = 3960000000 ∧
      (∃ o, r.transaction.outputs = [o] ∧
        o.capacity.toNat + r.fee.toNat = info.capacity.toNat + info.compensation.toNat) ∧
      (∃ i, r.transaction.inputs = [i] ∧ i.since.epoch = some info.unlock) ∧
      Ends ((onChain .withdrawn).depositInfo ⟨depositing.hash, 0⟩ withdrawBlock.hash) (.ok info) ∧
      Ends ((onChain .withdrawn).depositInfoAtTip ⟨depositing.hash, 0⟩) (.ok info) := by
  obtain ⟨info, hinfo, hcompensation⟩ := exists_yields
    (m := (onChain .withdrawn).depositInfoOfWithdrawing ⟨withdrawing.hash, 0⟩)
    (s := 0) (fun i => i.compensation = 3960000000) (by decide +kernel)
  obtain ⟨r, hclaim, -⟩ := exists_yields
    (m := (onChain .withdrawn).claim ⟨withdrawing.hash, 0⟩)
    (s := 0) (fun _ => true) (by decide +kernel)
  obtain ⟨hdeposit, hwithdraw⟩ := Chain.commits_withdrawn
  have hw := (hwithdraw.ends_load (i := 0) rfl).yields
  have hd := (hdeposit.ends_load (i := 0) rfl).yields
  have hbuilt : Chain.withdrawn.Built := (Chain.Built.new.commit _ _).commit _ _
  obtain ⟨hpays, hunlock, hblock, htip⟩ :=
    claim_pays_info hbuilt (Node.ledger_chain _).symm hinfo hclaim hw rfl hd (by decide +kernel)
      (by decide +kernel)
  exact ⟨info, r, hinfo, hclaim, of_decide_eq_true hcompensation, hpays, hunlock, hblock,
    htip (by decide +kernel)⟩

end CellTx
