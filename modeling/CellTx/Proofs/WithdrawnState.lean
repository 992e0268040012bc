import CellTx.Proofs.LifeCycle

/-!
# The state of what a deposit turns into

Deposits and withdrawing cells are told apart by their data alone: a DAO cell is in one state
exactly if it is not in the other (specification, section 4.5). The withdrawal of a deposit writes
the number of the deposit's block there.

Results:
* `isDeposit_eq_not_isWithdrawing`: one state or the other.
* `isWithdrawing_withdrawing_iff`: the written cell is a withdrawing cell exactly when the block is
  not the first.
* `Assembler.withdrawn_state`: so the first output of a withdrawal is a withdrawing cell, and no
  deposit any more, for a deposit of every block but the first.
* `Assembler.withdrawn_blockZero_isDeposit`: what was deposited in block zero is left a deposit.

Out of scope: whether a chain takes deposits in its first block.
-/

namespace CellTx

variable {σ : Type}

namespace Dao.CommittedCell

/-- A DAO cell that is not being withdrawn is a deposit. -/
theorem isDeposit_eq_not_isWithdrawing {c : CommittedCell} {scripts : SystemScripts}
    (h : c.isDaoCell scripts = true) : c.isDeposit scripts = !c.isWithdrawing scripts := by
  rw [isDeposit, isWithdrawing, h, Bool.true_and, Bool.true_and, List.not_any_eq_all_not]
  exact congrArg (List.all _) (funext fun b => by simp)

/-- What a deposit turns into is being withdrawn exactly if the number of the deposit's block is
not zero. -/
theorem isWithdrawing_withdrawing_iff {d : CommittedCell} {scripts : SystemScripts}
    (hdeposit : d.isDeposit scripts = true) (p : OutPoint) (t : Transaction) (block : Header) :
    isWithdrawing ⟨p, d.withdrawing, t, block⟩ scripts = true ↔ 1 ≤ d.header.number := by
  refine ⟨fun h => ?_, fun h => isWithdrawing_withdrawing hdeposit h p t block⟩
  by_contra hnumber
  have hzero : d.header.number = 0 := by
    simpa [← UInt64.toNat_inj, UInt64.le_iff_toNat_le] using hnumber
  have hdata : d.withdrawing.data = zeros dataLength := by
    rw [withdrawing, hzero]
    rfl
  rw [isWithdrawing, hdata, Bool.and_eq_true] at h
  exact absurd h.2 (by decide)

/-- The type and the length of the data stay what they are for a DAO cell. -/
theorem isDaoCell_withdrawing {d : CommittedCell} {scripts : SystemScripts}
    (hdeposit : d.isDeposit scripts = true) (p : OutPoint) (t : Transaction) (block : Header) :
    isDaoCell ⟨p, d.withdrawing, t, block⟩ scripts = true := by
  rw [isDeposit, isDaoCell, Bool.and_eq_true, Bool.and_eq_true] at hdeposit
  rw [isDaoCell, Bool.and_eq_true]
  exact ⟨by simp [withdrawing], hdeposit.1.2⟩

/-- The two checks of what a deposit turns into, for a block of any number. -/
theorem ensure_withdrawing {d : CommittedCell} {scripts : SystemScripts}
    (hdeposit : d.isDeposit scripts = true) (p : OutPoint) (t : Transaction) (block : Header) :
    let w : CommittedCell := ⟨p, d.withdrawing, t, block⟩
    w.ensureWithdrawing scripts =
        (if 1 ≤ d.header.number then .ok () else .error (.notWithdrawing p)) ∧
      w.ensureDeposit scripts =
        (if 1 ≤ d.header.number then .error (.notDeposit p) else .ok ()) := by
  intro w
  have hiff : w.isWithdrawing scripts = true ↔ 1 ≤ d.header.number :=
    isWithdrawing_withdrawing_iff hdeposit p t block
  have hdao : w.isDaoCell scripts = true := isDaoCell_withdrawing hdeposit p t block
  rw [ensureDeposit, ensureWithdrawing, isDeposit_eq_not_isWithdrawing hdao]
  by_cases hnumber : 1 ≤ d.header.number
  · simp [hiff.mpr hnumber, hnumber, w]
  · simp [Bool.eq_false_iff.mpr (mt hiff.mp hnumber), hnumber, w]

theorem outPoint_of_load {l : Ledger σ} {p : OutPoint} {c : CommittedCell}
    (h : Yields (load l p) c) : c.outPoint = p := by
  obtain ⟨_, -, h⟩ := h.bind
  obtain ⟨_, -, h⟩ := h.bind
  obtain ⟨_, -, h⟩ := h.bind
  obtain ⟨_, -, h⟩ := h.bind
  obtain ⟨_, -, h⟩ := h.bind
  obtain ⟨_, -, h⟩ := h.bind
  rw [h.of_pure]

end Dao.CommittedCell

/-- A withdrawal that a chain has committed is found with the deposit behind it, and is in the
withdrawing state exactly if the deposit was not made in block zero. Else it is still a deposit. -/
theorem Assembler.withdrawn_state {a : Assembler σ} {p : OutPoint} {r : Assembled} {c : Chain}
    {block : Header} (h : Yields (a.withdraw p) r) (hcommits : c.Commits r.transaction block) :
    ∃ d w, Yields (Dao.CommittedCell.load a.ledger p) d ∧ d.ensureDeposit a.scripts = .ok () ∧
      Ends (Dao.CommittedCell.load c.ledger ⟨r.transaction.hash, 0⟩) (.ok w) ∧
      w.depositOutPoint = .ok p ∧
      w.ensureWithdrawing a.scripts = (if 1 ≤ d.header.number then .ok ()
        else .error (.notWithdrawing ⟨r.transaction.hash, 0⟩)) ∧
      w.ensureDeposit a.scripts = (if 1 ≤ d.header.number then
        .error (.notDeposit ⟨r.transaction.hash, 0⟩) else .ok ()) := by
  obtain ⟨o, hopens, hcompletes⟩ := Construction.anatomy_withdraw h
  obtain ⟨_, left, hinputs, houtputs⟩ := hcompletes.first
  cases hopens with
  | @withdraw _ d hload hdeposit =>
    have hinput : r.transaction.inputs[0]? = some ⟨p, Since.zero⟩ := by
      rw [hinputs, Dao.CommittedCell.outPoint_of_load hload]
      rfl
    have houtput : r.transaction.outputs[0]? = some d.withdrawing := by
      rw [houtputs]
      rfl
    exact ⟨d, _, hload, Dao.CommittedCell.ensureDeposit_eq_ok.mpr hdeposit,
      hcommits.ends_load (i := 0) houtput, depositOutPoint_of_first hinput,
      Dao.CommittedCell.ensure_withdrawing hdeposit _ _ _⟩

/-- A deposit of 300 CKB and a plain cell of its owner, which can pay for the withdrawal. -/
def depositAndPlain : List Cell :=
  [⟨30000000000, .ofByte 1, some SystemScripts.mainnet.daoType, zeros Dao.dataLength⟩,
    .plain (.ofByte 1) 100000000000]

/-- A deposit of block 1 is withdrawn in block 2. -/
theorem Assembler.withdrawn_state_blockOne :
    ∃ r w, let deposit : OutPoint := ⟨(Chain.funding 1 depositAndPlain).hash, 0⟩
      let c := Chain.new.commit (Chain.funding 1 depositAndPlain) depositBlock
      Yields ((onChain c).withdraw deposit) r ∧
      Ends (Dao.CommittedCell.load (c.commit r.transaction withdrawBlock).ledger
        ⟨r.transaction.hash, 0⟩) (.ok w) ∧
      w.depositOutPoint = .ok deposit ∧ w.ensureWithdrawing SystemScripts.mainnet = .ok () ∧
      w.ensureDeposit SystemScripts.mainnet = .error (.notDeposit ⟨r.transaction.hash, 0⟩) := by
  let deposit : OutPoint := ⟨(Chain.funding 1 depositAndPlain).hash, 0⟩
  let c := Chain.new.commit (Chain.funding 1 depositAndPlain) depositBlock
  obtain ⟨r, h, -⟩ := exists_yields (m := (onChain c).withdraw deposit) (s := 0) (fun _ => true)
    (by decide +kernel)
  obtain ⟨d, w, hload, -, hfound, hbehind, hwithdrawing, hdeposit⟩ :=
    withdrawn_state h (Chain.commits_commit c r.transaction withdrawBlock)
  have hcommits := Chain.commits_commit Chain.new (Chain.funding 1 depositAndPlain) depositBlock
  obtain rfl := (hcommits.ends_load (i := 0) rfl).eq hload
  rw [if_pos (by decide +kernel)] at hwithdrawing hdeposit
  exact ⟨r, w, h, hfound, hbehind, hwithdrawing, hdeposit⟩

/-- A deposit of the first block is withdrawn in block 1, and is a deposit still. -/
theorem Assembler.withdrawn_blockZero_isDeposit :
    ∃ r w, let (funding, c) := Chain.new.fund depositAndPlain
      Yields ((onChain c).withdraw ⟨funding.hash, 0⟩) r ∧
      c.transaction? r.transaction.hash = none ∧
      Ends (Dao.CommittedCell.load (c.commit r.transaction depositBlock).ledger
        ⟨r.transaction.hash, 0⟩) (.ok w) ∧
      w.ensureWithdrawing SystemScripts.mainnet =
        .error (.notWithdrawing ⟨r.transaction.hash, 0⟩) ∧
      w.ensureDeposit SystemScripts.mainnet = .ok () := by
  let c := (Chain.new.fund depositAndPlain).2
  obtain ⟨r, h, hr⟩ := exists_yields
    (m := (onChain c).withdraw ⟨(Chain.funding 1 depositAndPlain).hash, 0⟩) (s := 0)
    (fun r => c.transaction? r.transaction.hash = none ∧
      r.transaction.outputs[0]? = depositAndPlain[0]?) (by decide +kernel)
  obtain ⟨hnew, houtput⟩ := of_decide_eq_true hr
  have hcommits := Chain.commits_commit c r.transaction depositBlock
  exact ⟨r, _, h, hnew, hcommits.ends_load (i := 0) houtput, rfl, rfl⟩

end CellTx
