import CellTx.Proofs.Fees
import Mathlib.Data.Rat.Floor
import Mathlib.Tactic.NormNum

/-!
# The fee that a rate demands

A rate demands shannons for a thousand bytes, so what it demands of a size may be a fraction. The
fee that is due is that fraction rounded up (specification, section 6). The estimate by size cuts
the product of size and rate to 64 bits before it divides, so it is what is due only up to
`Fee.highest`, and stays there when more is due.

Results:
* `Fee.due_le_iff`, `Fee.isLeast_due`: what is due is the least whole fee that reaches what is
  demanded.
* `Fee.toNat_ofSize_eq_min`: the estimate is the lesser of what is due and the highest estimate. So
  it never exceeds what is due.
* `Fee.bySize_exact_iff`: it is what is due for products up to a thousand times the highest
  estimate, and for no others.
* `Fee.bySize_below_due`: beyond them it is too low, although what is due may have 64 bits.
* `Construction.due_le_fee`: a construction pays at least what is due, or the highest estimate where
  that is less.

Out of scope: other estimators, and whether anyone sets such a rate.
-/

namespace CellTx

variable {σ : Type}

namespace Fee

variable {size fee : Nat} {rate : UInt64}

/-! ## What is due -/

/-- The fee that a rate demands of `size` bytes: a thousandth of their product, rounded up. -/
def due (size : Nat) (rate : UInt64) : Nat := ⌈(size * rate.toNat : ℚ) / 1000⌉₊

theorem due_le_iff : due size rate ≤ fee ↔ size * rate.toNat ≤ 1000 * fee := by
  rw [due, Nat.ceil_le, div_le_iff₀' (by norm_num)]
  exact_mod_cast Iff.rfl

/-- No smaller fee reaches what a rate demands. -/
theorem isLeast_due (size : Nat) (rate : UInt64) :
    IsLeast {fee : Nat | size * rate.toNat ≤ 1000 * fee} (due size rate) :=
  ⟨due_le_iff.mp le_rfl, fun _ h => due_le_iff.mpr h⟩

/-! ## What is estimated -/

/-- The estimate is what is due, but not above the highest one. -/
theorem toNat_ofSize_eq_min (size : Nat) (rate : UInt64) :
    (ofSize size rate).toNat = min (due size rate) highest :=
  -- both are told apart by the fees above them
  eq_of_forall_ge_iff fun fee => by rw [ofSize_le_iff, min_le_iff, due_le_iff]

theorem due_le_ofSize_iff :
    due size rate ≤ (ofSize size rate).toNat ↔ size * rate.toNat ≤ 1000 * highest := by
  calc due size rate ≤ (ofSize size rate).toNat
      ↔ due size rate ≤ due size rate ∧ due size rate ≤ highest := by
        rw [toNat_ofSize_eq_min, le_min_iff]
    _ ↔ due size rate ≤ highest := and_iff_right le_rfl
    _ ↔ size * rate.toNat ≤ 1000 * highest := due_le_iff

/-- The estimate for a transaction, whose size is its binary form and four bytes, is what the rate
demands, or the highest estimate where that is less. It is exact, which is to say not too low, for
products of size and rate up to a thousand times the highest estimate and for no others. -/
theorem bySize_exact_iff (t : Transaction) (rate : UInt64) :
    ∃ fee : Capacity, (bySize t rate : Query σ Capacity) = pure fee ∧
      fee.toNat = min (due (t.serialize.length + 4) rate) highest ∧
      (fee.toNat = due (t.serialize.length + 4) rate ↔
        (t.serialize.length + 4) * rate.toNat ≤ 1000 * highest) ∧
      (due (t.serialize.length + 4) rate ≤ fee.toNat ↔
        (t.serialize.length + 4) * rate.toNat ≤ 1000 * highest) := by
  have hmin := toNat_ofSize_eq_min t.size rate
  have hle : (ofSize t.size rate).toNat ≤ due t.size rate := hmin ▸ Nat.min_le_left _ _
  refine ⟨ofSize t.size rate, rfl, hmin, ?_, due_le_ofSize_iff⟩
  calc (ofSize t.size rate).toNat = due t.size rate
      ↔ due t.size rate ≤ (ofSize t.size rate).toNat :=
        Nat.le_antisymm_iff.trans (and_iff_right hle)
    _ ↔ t.size * rate.toNat ≤ 1000 * highest := due_le_ofSize_iff

/-- At ten billion CKB for a thousand bytes, the empty transaction is to pay 720 million CKB. This
has 64 bits, but the estimate is about a quarter of it. -/
theorem bySize_below_due :
    ∃ (t : Transaction) (rate : UInt64) (fee : Capacity),
      t = {} ∧ rate = 1000000000000000000 ∧ (bySize t rate : Query Nat Capacity) = pure fee ∧
      t.serialize.length + 4 = 72 ∧ due (t.serialize.length + 4) rate = 72000000000000000 ∧
      due (t.serialize.length + 4) rate < 2 ^ 64 ∧ fee.toNat = 18446744073709552 ∧
      fee.toNat < due (t.serialize.length + 4) rate := by
  have hsize : ({} : Transaction).serialize.length + 4 = 72 := by decide +kernel
  have hdue : due 72 1000000000000000000 = 72000000000000000 := by decide +kernel
  refine ⟨{}, 1000000000000000000, 18446744073709552, rfl, rfl, ?_, hsize, ?_⟩
  · rw [bySize, Transaction.size, hsize]
    rfl
  · rw [hsize, hdue]
    decide

end Fee

/-- A construction pays at least what its rate demands, or the highest estimate where that is
less. -/
theorem Construction.due_le_fee {a : Assembler σ} {k : Construction} {r : Assembled}
    (hf : a.estimator = Fee.bySize) (h : Yields (k.run a) r) :
    min (Fee.due r.transaction.size a.feeRate) Fee.highest ≤ r.fee.toNat := by
  rw [← Fee.toNat_ofSize_eq_min, ← UInt64.le_iff_toNat_le]
  rcases anatomy h with ⟨o, -, hcompletes⟩ | ⟨p, -, hclaims⟩
  · exact (hcompletes.changeOutcome hf).estimate_le
  · exact UInt64.le_of_eq (hclaims.fee_eq hf).symm

end CellTx
