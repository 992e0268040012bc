import CellTx.Assembler
import CellTx.Dao.Committed
import CellTx.Dao.Interest
import CellTx.Dao.LockPeriod

/-!
# What a deposit is worth

The worth of a deposit when it is withdrawn in a given block, in the block of its withdrawing cell,
or in the last block (specification, sections 3 and 14): its interest and the first point at which
it can be claimed.

`depositInfoOfWithdrawing` and `depositInfoAtTip` look up the block, and the first one also the
deposit, before they ask the same as `depositInfo`. What it says agrees with the second phase of a
withdrawal: `Assembler.claim_pays_info` in `CellTx.Proofs.Payout`.

Out of scope: worths between blocks, and the interest of blocks to come.
-/

namespace CellTx

namespace Dao

/-- A deposit seen from a block. -/
structure DepositInfo where
  outPoint : OutPoint
  withdrawBlock : Hash
  withdrawNumber : UInt64
  /-- The capacity of the deposit. -/
  capacity : Capacity
  /-- The interest it has earned. -/
  compensation : Capacity
  /-- The first point at which it can be claimed. -/
  unlock : EpochFraction
deriving DecidableEq

/-- A deposit seen from a block that is given. -/
def depositInfo {σ : Type} (a : Assembler σ) (deposit : OutPoint) (block : Header) :
    Build σ DepositInfo := do
  let d ← CommittedCell.load a.ledger deposit
  Build.ofExcept (d.ensureDeposit a.scripts)
  let occupied ← Build.demand .capacityOverflow d.cell.occupied?
  let compensation ← Build.ofExcept
    (Dao.compensation d.cell.capacity occupied d.header.rate block.rate)
  let unlock ← Build.ofExcept (minimalUnlock d.header.epoch block.epoch)
  return ⟨d.outPoint, block.hash, block.number, d.cell.capacity, compensation, unlock⟩

end Dao

namespace Assembler

variable {σ : Type}

/-- A deposit when it is withdrawn in a block. -/
def depositInfo (a : Assembler σ) (deposit : OutPoint) (block : Hash) :
    Build σ Dao.DepositInfo := do
  let found ← Build.ask (a.ledger.header block)
  let header ← Build.demand (.noHeader block) found
  Dao.depositInfo a deposit header

/-- The deposit behind a withdrawing cell, in the block that committed that cell. -/
def depositInfoOfWithdrawing (a : Assembler σ) (withdrawing : OutPoint) :
    Build σ Dao.DepositInfo := do
  let w ← Dao.CommittedCell.load a.ledger withdrawing
  Build.ofExcept (w.ensureWithdrawing a.scripts)
  let deposit ← Build.ofExcept w.depositOutPoint
  Dao.depositInfo a deposit w.header

/-- A deposit when it is withdrawn now. -/
def depositInfoAtTip (a : Assembler σ) (deposit : OutPoint) : Build σ Dao.DepositInfo := do
  let tip ← Build.ask a.ledger.tip
  Dao.depositInfo a deposit tip

end Assembler

end CellTx
