import CellTx.Failure
import CellTx.Header

/-!
# Interest

What a deposit earns between two blocks (specification, section 4.5). Only the capacity that the
deposit does not occupy grows, in proportion to the accumulate rate; the interest is rounded down
and never negative.

`compensation` is the floor of the fraction for all inputs of 64 bits, with each of its errors:
`Dao.compensation_exact` in `CellTx.Proofs.Interest`.

Out of scope: where the accumulate rates come from. That they grow is not assumed.
-/

namespace CellTx.Dao

/-- The interest of a deposit between blocks of two accumulate rates. -/
def compensation (total occupied : Capacity) (depositRate withdrawRate : UInt64) :
    Except Failure Capacity :=
  if depositRate = 0 then .error (.encoding .zeroRate)
  else
    match Capacity.sub? total occupied with
    | none => .error .capacityOverflow
    | some free =>
      let grown := free.toNat * withdrawRate.toNat / depositRate.toNat
      match Capacity.ofNat? (grown - free.toNat) with
      | none => .error .capacityOverflow
      | some interest => .ok interest

end CellTx.Dao
