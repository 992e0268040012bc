import CellTx.Ledger.Basic

/-!
# Fees by size

The usual fee of a transaction: its size times a rate in shannons per thousand bytes, rounded up
(specification, section 6). The product is cut to 64 bits before it is divided, so that beyond those
the fee is not what the rate demands: `Fee.bySize_exact_iff` in `CellTx.Proofs.DueFees` says when it
is.

Out of scope: estimators that ask someone. Whatever a construction does with another `FeeEstimator`,
it does with this one; results about the fee that is paid are for this one.
-/

namespace CellTx.Fee

/-- The fee of `size` bytes at a rate. -/
def ofSize (size : Nat) (rate : UInt64) : Capacity :=
  UInt64.ofNat ((min (size * rate.toNat) (UInt64.size - 1) + 999) / 1000)

/-- Prices a transaction by its size. -/
def bySize {σ : Type} : FeeEstimator σ := fun t rate => pure (ofSize t.size rate)

end CellTx.Fee
