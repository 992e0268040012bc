import CellTx.Epoch
import CellTx.Failure

/-!
# The lock period

A deposit is locked in cycles of 180 epochs (specification, section 4.5). When it is withdrawn at
some point, it can be claimed at the end of the cycle that has begun by then (`minimalUnlock`). An
epoch that has begun counts in full, whatever the lengths of the two epochs.

That this is the first end of a cycle that is not before the withdrawal is
`Dao.minimalUnlock_first_cycle` in `CellTx.Proofs.LockCycles`.

Out of scope: points beyond the 24 bits of an epoch's number, which are refused.
-/

namespace CellTx.Dao

/-- The epochs of a cycle. -/
def cycle : Nat := 180

/-- The epochs from a deposit to its withdrawal; an epoch that has begun counts in full. -/
def depositedEpochs (deposit withdraw : EpochFraction) : Nat :=
  let whole := withdraw.number - deposit.number
  if deposit.index * withdraw.length < withdraw.index * deposit.length then whole + 1 else whole

/-- The epochs of the cycles that have begun. -/
def lockedEpochs (deposit withdraw : EpochFraction) : Nat :=
  (depositedEpochs deposit withdraw + (cycle - 1)) / cycle * cycle

/-- The first point at which a deposit that is withdrawn can be claimed, when its number fits the
packed form of an epoch. -/
def minimalUnlock (deposit withdraw : EpochFraction) : Except Failure EpochFraction := do
  let number := deposit.number + lockedEpochs deposit withdraw
  match Epoch.ofNats number deposit.index deposit.length with
  | .error e => throw (.encoding e)
  | .ok e =>
    match e.fraction? with
    | some point => return point
    | none => throw (.defect (.unpackableEpoch number))

end CellTx.Dao
