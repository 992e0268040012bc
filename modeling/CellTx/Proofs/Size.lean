import CellTx.Fee
import Mathlib.Algebra.BigOperators.Group.List.Basic
import Mathlib.Algebra.GroupWithZero.Nat

/-!
# The size of a transaction

The size of a transaction is linear in its parts: a fixed frame, a fixed amount for each dep and
input, and a `weight` for each output that its capacity has no part in. So the fee by size is that
of the shape.

Results:
* `Transaction.size_eq`: the size as a sum over the parts.
* `Transaction.size_withOutputs`: writing capacities leaves it alone.
* `Fee.toNat_ofSize`, `Fee.ofSize_le_iff`, `Fee.ofSize_mono`: the fee as a number, which goes along
  with size and rate.

Out of scope: what a rate demands where the fee is cut (`CellTx.Proofs.DueFees`), and what each
operation on a draft does to its size (`CellTx.Proofs.Resizing`).
-/

namespace CellTx

/-- The bytes that an output adds to a transaction: its binary form and data, the length of the
data, and an offset for each. -/
def Cell.weight (c : Cell) : Nat := 12 + c.serialize.length + c.data.length

theorem Cell.weight_plain (lock : Script) (capacity : Capacity) :
    (Cell.plain lock capacity).weight = 89 + lock.args.length := by
  simp only [weight, Cell.length_serialize, Cell.plain, Option.map_none, Option.getD_none,
    List.length_nil]
  omega

/-- Items of one length. -/
theorem length_flatten_map {α : Type} {f : α → Bytes} {k : Nat} (hf : ∀ x, (f x).length = k)
    (l : List α) : (l.map f).flatten.length = k * l.length := by
  induction l with
  | nil => rfl
  | cons x l ih =>
    rw [List.map_cons, List.flatten_cons, List.length_append, ih, hf, List.length_cons,
      Nat.mul_succ, Nat.add_comm]

namespace Transaction

theorem length_serializeRaw (t : Transaction) :
    t.serializeRaw.length = 52 + 37 * t.cellDeps.length + 32 * t.headerDeps.length +
      44 * t.inputs.length + (t.outputs.map Cell.weight).sum := by
  have hdeps := length_flatten_map (f := CellDep.serialize) (k := 37)
    (fun d => by rw [CellDep.serialize, List.length_append, OutPoint.length_serialize]; rfl)
    t.cellDeps
  have hheaders := length_flatten_map (f := Hash.bytes) (k := 32) Hash.length_bytes t.headerDeps
  have hinputs := length_flatten_map (f := Input.serialize) (k := 44)
    (fun i => by
      rw [Input.serialize, List.length_append, length_leBytes, OutPoint.length_serialize])
    t.inputs
  have houtputs : ∀ outputs : List Cell,
      8 * outputs.length + (outputs.map Cell.serialize).flatten.length +
        (outputs.map fun c => Molecule.bytes c.data).flatten.length =
        (outputs.map Cell.weight).sum := by
    intro outputs
    induction outputs with
    | nil => rfl
    | cons c outputs ih =>
      simp only [List.map_cons, List.flatten_cons, List.length_append, List.length_cons,
        Molecule.length_bytes, List.sum_cons, Cell.weight] at ih ⊢
      omega
  have := houtputs t.outputs
  simp only [serializeRaw, Molecule.length_table, Molecule.length_fixed, List.flatten_cons,
    List.flatten_nil, List.length_append, List.length_cons, List.length_nil, length_leBytes,
    List.length_map, hdeps, hheaders, hinputs]
  omega

theorem size_eq (t : Transaction) :
    t.size = 72 + 37 * t.cellDeps.length + 32 * t.headerDeps.length + 44 * t.inputs.length +
      (t.outputs.map Cell.weight).sum + (t.witnesses.map fun w => 8 + w.length).sum := by
  have hwitnesses : ∀ witnesses : List Bytes,
      4 * witnesses.length + (witnesses.map Molecule.bytes).flatten.length =
        (witnesses.map fun w => 8 + w.length).sum := by
    intro witnesses
    induction witnesses with
    | nil => rfl
    | cons w witnesses ih =>
      simp only [List.map_cons, List.flatten_cons, List.length_append, List.length_cons,
        Molecule.length_bytes, List.sum_cons] at ih ⊢
      omega
  have := hwitnesses t.witnesses
  simp only [size, serialize, Molecule.length_table, List.flatten_cons, List.flatten_nil,
    List.length_append, List.length_cons, List.length_nil, List.length_map,
    length_serializeRaw]
  omega

/-- Outputs of the same weights leave the size alone. -/
theorem size_withOutputs (t : Transaction) {outputs : List Cell}
    (h : outputs.map Cell.weight = t.outputs.map Cell.weight) :
    size { t with outputs := outputs } = t.size := by
  rw [size_eq, size_eq, h]

/-- An output more is larger. -/
theorem size_lt_append (t : Transaction) (c : Cell) :
    t.size < size { t with outputs := t.outputs ++ [c] } := by
  rw [size_eq, size_eq]
  simp only [List.map_append, List.map_cons, List.map_nil, List.sum_append, List.sum_singleton,
    Cell.weight]
  omega

end Transaction

namespace Fee

theorem toNat_ofSize (size : Nat) (rate : UInt64) :
    (ofSize size rate).toNat = (min (size * rate.toNat) (UInt64.size - 1) + 999) / 1000 := by
  refine UInt64.toNat_ofNat_of_lt' ?_
  simp only [UInt64.size]
  omega

/-- The highest fee by size: a thousandth of the largest number of 64 bits, rounded up. -/
def highest : Nat := 18446744073709552

/-- A fee is not below that of a size when its thousandfold reaches the product. The product is cut
to 64 bits, so the highest fee is never below. -/
theorem ofSize_le_iff {size fee : Nat} {rate : UInt64} :
    (ofSize size rate).toNat ≤ fee ↔ size * rate.toNat ≤ 1000 * fee ∨ highest ≤ fee := by
  rw [toNat_ofSize, highest]
  simp only [UInt64.size]
  omega

theorem ofSize_le (size : Nat) (rate : UInt64) : (ofSize size rate).toNat ≤ highest :=
  ofSize_le_iff.mpr (Or.inr (Nat.le_refl _))

/-- The fee does not fall when the size or the rate grows. -/
theorem ofSize_mono {m n : Nat} {rate rate' : UInt64} (hsize : m ≤ n) (hrate : rate ≤ rate') :
    ofSize m rate ≤ ofSize n rate' := by
  have := Nat.mul_le_mul hsize (UInt64.le_iff_toNat_le.mp hrate)
  rw [UInt64.le_iff_toNat_le, toNat_ofSize, toNat_ofSize]
  omega

end Fee

end CellTx
