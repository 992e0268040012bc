import CellTx.Script

/-!
# Cells

A cell holds capacity and data under a lock and possibly a type (specification, section 3). It is
found by its out point, the transaction that made it and its place among that transaction's outputs.
A cell occupies one byte of capacity for each of its bytes (`Cell.occupiedBytes`); `isPlain` and
`hasType` are the tests by which cells are picked to be spent.

Results:
* `isPlain_iff`: a plain cell has neither type nor data.
* `Cell.length_serialize`: the binary form has one length for all capacities and data.

Out of scope: that a cell holds at least what it occupies. The chain demands it, and cells that do
not can be written down here; which outputs do is `Construction.outputs_funded` and
`Assembler.claimed_outputs_funded_iff`.
-/

namespace CellTx

/-- Where a cell was made: a transaction and the index of an output. -/
structure OutPoint where
  txHash : Hash
  index : UInt32
deriving DecidableEq

namespace OutPoint

/-- The binary form. -/
def serialize (p : OutPoint) : Bytes := p.txHash.bytes ++ leBytes 4 p.index.toNat

/-- An out point as messages show it; the index is shown as its four bytes. -/
def display (p : OutPoint) : String :=
  "OutPoint \x7b tx_hash: " ++ p.txHash.display ++ ", index: Uint32(" ++
    Hex.show0x (leBytes 4 p.index.toNat) ++ ") \x7d"

@[simp] theorem length_serialize (p : OutPoint) : p.serialize.length = 36 := by
  rw [serialize, List.length_append, p.txHash.length_bytes, length_leBytes]

end OutPoint

/-- Capacity and data under a lock and possibly a type. -/
structure Cell where
  capacity : Capacity
  lock : Script
  type : Option Script
  data : Bytes
deriving DecidableEq

namespace Cell

/-- The bytes a cell occupies: eight for its capacity, its data and its scripts. -/
def occupiedBytes (c : Cell) : Nat :=
  8 + c.data.length + c.lock.occupiedBytes + (c.type.map Script.occupiedBytes).getD 0

/-- The least capacity the cell must hold. -/
def occupied? (c : Cell) : Option Capacity := Capacity.ofBytes? c.occupiedBytes

/-- The binary form of everything but the data. -/
def serialize (c : Cell) : Bytes :=
  Molecule.table [leBytes 8 c.capacity.toNat, c.lock.serialize,
    Molecule.option (c.type.map Script.serialize)]

/-- A cell that holds nothing but capacity. -/
def isPlain (c : Cell) : Bool := c.type.isNone && c.data.isEmpty

/-- A plain cell. -/
def plain (lock : Script) (capacity : Capacity) : Cell := ⟨capacity, lock, none, []⟩

/-- Whether the cell's type is exactly `t`. -/
def hasType (t : Script) (c : Cell) : Bool := c.type = some t

theorem isPlain_iff {c : Cell} : c.isPlain = true ↔ c.type = none ∧ c.data = [] := by
  rw [isPlain, Bool.and_eq_true, Option.isNone_iff_eq_none, List.isEmpty_iff]

/-- The binary form has one length for all capacities and data. -/
theorem length_serialize (c : Cell) :
    c.serialize.length =
      77 + c.lock.args.length + (c.type.map fun t => 53 + t.args.length).getD 0 := by
  have ht : (Molecule.option (c.type.map Script.serialize)).length =
      (c.type.map fun t => 53 + t.args.length).getD 0 := by
    cases c.type with
    | none => rfl
    | some t => exact t.length_serialize
  simp only [serialize, Molecule.length_table, List.flatten_cons, List.flatten_nil,
    List.length_append, List.length_cons, List.length_nil, length_leBytes,
    Script.length_serialize, ht]
  omega

end Cell

/-- An unspent cell as a search reports it. -/
structure LiveCell where
  outPoint : OutPoint
  cell : Cell
  blockNumber : UInt64
  txIndex : UInt32
deriving DecidableEq

end CellTx
