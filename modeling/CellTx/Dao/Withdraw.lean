import CellTx.Balance
import CellTx.Dao.Committed
import CellTx.Dao.LockPeriod
import CellTx.Flow

/-!
# Withdrawals

A deposit is withdrawn in two transactions (specification, section 4.5).

* `withdraw` turns it into a withdrawing cell, which keeps the number of the deposit's block; its
  fee comes from the owner's plain cells.
* `claim` claims the withdrawing cell, once the lock period is over, for all that the deposit is
  worth; its fee is taken out of that. The deposit's block and the withdrawal's are named as header
  deps, and the witness says which is the deposit's.

A claim has one input and one output, and no change: the estimate is made of the final shape, and
what is left is what the output holds (`settleClaim`).

That the first transaction makes a withdrawing cell, for deposits of any block but the first, is
`Assembler.withdrawn_state` in `CellTx.Proofs.WithdrawnState`; what the second pays is
`Assembler.claim_pays_info` in `CellTx.Proofs.Payout`.

Out of scope: withdrawing several deposits at once, and claiming part of one.
-/

namespace CellTx.Assembler

variable {σ : Type}

/-! ## The first transaction -/

/-- The flow that turns a deposit into a withdrawing cell. -/
def withdrawFlow (a : Assembler σ) (deposit : OutPoint) : Flow σ Dao.CommittedCell where
  init := do
    let c ← Dao.CommittedCell.load a.ledger deposit
    Build.ofExcept (c.ensureDeposit a.scripts)
    return c
  setHeaderDeps c d := pure (d.addHeaderDep c.header.hash).2
  setCellDeps _ d :=
    pure ((d.addCellDep a.scripts.secp256k1Blake160.dep).addCellDep a.scripts.dao.dep)
  buildOutputs c d :=
    let withdrawing := { c.cell with data := leBytes Dao.dataLength c.header.number.toNat }
    pure ((d.addOutput withdrawing).addChange (Cell.plain c.cell.lock 0))
  buildInputs c d := do
    let d := d.addInput c.outPoint c.cell Since.zero none
    return (← a.collectCapacity d [a.stream (SearchKey.plainByLock c.cell.lock)]).2
  settleChange _ d := a.settleChange d
  signingLocks c := [c.cell.lock]

/-- Turns a deposit into a withdrawing cell. -/
def withdraw (a : Assembler σ) (deposit : OutPoint) : Build σ Assembled :=
  (a.withdrawFlow deposit).assemble

/-! ## The second transaction -/

/-- What is known of a withdrawing cell that is claimed. -/
structure WithdrawingCell where
  cell : Dao.CommittedCell
  deposit : Dao.CommittedCell
  /-- The first point at which it can be claimed. -/
  unlock : EpochFraction
  /-- What it is worth. -/
  worth : Capacity
deriving DecidableEq

/-- Finds a withdrawing cell and the deposit behind it. -/
def loadWithdrawing (a : Assembler σ) (withdrawing : OutPoint) : Build σ WithdrawingCell := do
  let w ← Dao.CommittedCell.load a.ledger withdrawing
  Build.ofExcept (w.ensureWithdrawing a.scripts)
  let p ← Build.ofExcept w.depositOutPoint
  let d ← Dao.CommittedCell.load a.ledger p
  Build.ofExcept (d.ensureDeposit a.scripts)
  let unlock ← Build.ofExcept (Dao.minimalUnlock d.header.epoch w.header.epoch)
  let worth ← Build.ask (a.ledger.maximumWithdraw d.outPoint w.header.hash)
  return ⟨w, d, unlock, worth⟩

/-- The place of the only output of a claim. -/
def claimOutput : Nat := 0

/-- Gives the only output all that the cell is worth but the fee. -/
def settleClaim (a : Assembler σ) (w : WithdrawingCell) (d : Draft) : Build σ Draft := do
  let fee ← a.estimate d
  let occupied ← Build.ofExcept (d.occupied claimOutput)
  match Capacity.sub? w.worth fee with
  | some capacity =>
    if occupied ≤ capacity then Build.ofExcept (d.setCapacity claimOutput capacity)
    else throw (.insufficientForFee fee w.worth)
  | none => throw (.insufficientForFee fee w.worth)

/-- The flow that claims a withdrawing cell. Its witness names the header dep of the deposit. -/
def claimFlow (a : Assembler σ) (withdrawing : OutPoint) : Flow σ WithdrawingCell where
  init := a.loadWithdrawing withdrawing
  setHeaderDeps w d :=
    pure ((d.addHeaderDep w.deposit.header.hash).2.addHeaderDep w.cell.header.hash).2
  setCellDeps _ d :=
    pure ((d.addCellDep a.scripts.secp256k1Blake160.dep).addCellDep a.scripts.dao.dep)
  buildOutputs w d := pure (d.addOutput (Cell.plain w.cell.cell.lock 0))
  buildInputs w d :=
    let (i, d) := d.addHeaderDep w.deposit.header.hash
    pure (d.addInputWorth w.cell.outPoint w.cell.cell (Since.absoluteEpoch w.unlock)
      (some (leBytes 8 i)) w.worth)
  settleChange w d := a.settleClaim w d
  signingLocks w := [w.cell.cell.lock]

/-- Claims a withdrawing cell. -/
def claim (a : Assembler σ) (withdrawing : OutPoint) : Build σ Assembled :=
  (a.claimFlow withdrawing).assemble

end CellTx.Assembler
