import CellTx.Cell
import CellTx.Since

/-!
# Transactions

A transaction spends cells (its inputs) and makes others (its outputs). Its hash covers all but the
witnesses, which hold the signatures; the witness hash covers everything. `Transaction.size` is what
fees are counted for: the binary form and four bytes (specification, section 6).

That the size follows from the shapes of the parts is in `CellTx.Proofs.Size`; that signing changes
neither hash nor size is in `CellTx.Proofs.Signatures`.

Out of scope: verification. Nothing here asks whether inputs exist, scripts succeed or sums agree;
for the transactions that are built the last is `Construction.balanced`.
-/

namespace CellTx

/-- A cell that a transaction's scripts are loaded from. -/
structure CellDep where
  outPoint : OutPoint
  depType : UInt8
deriving DecidableEq

/-- The binary form of a cell dep. -/
def CellDep.serialize (d : CellDep) : Bytes := d.outPoint.serialize ++ [d.depType]

/-- A spent cell and its time lock. -/
structure Input where
  previous : OutPoint
  since : Since
deriving DecidableEq

/-- The binary form of an input. -/
def Input.serialize (i : Input) : Bytes :=
  leBytes 8 i.since.raw.toNat ++ i.previous.serialize

/-- The usual contents of a witness: a signature and what type scripts read. -/
structure WitnessArgs where
  lock : Option Bytes := none
  inputType : Option Bytes := none
  outputType : Option Bytes := none
deriving DecidableEq

/-- The binary form of a witness. -/
def WitnessArgs.serialize (w : WitnessArgs) : Bytes :=
  Molecule.table ([w.lock, w.inputType, w.outputType].map fun field =>
    Molecule.option (field.map Molecule.bytes))

/-- Cells spent and made. -/
structure Transaction where
  version : UInt32 := 0
  cellDeps : List CellDep := []
  headerDeps : List Hash := []
  inputs : List Input := []
  outputs : List Cell := []
  witnesses : List Bytes := []
deriving DecidableEq

namespace Transaction

/-- The binary form without the witnesses. -/
def serializeRaw (t : Transaction) : Bytes :=
  Molecule.table [leBytes 4 t.version.toNat, Molecule.fixed (t.cellDeps.map CellDep.serialize),
    Molecule.fixed (t.headerDeps.map Hash.bytes), Molecule.fixed (t.inputs.map Input.serialize),
    Molecule.table (t.outputs.map Cell.serialize),
    Molecule.table (t.outputs.map fun c => Molecule.bytes c.data)]

/-- The binary form. -/
def serialize (t : Transaction) : Bytes :=
  Molecule.table [t.serializeRaw, Molecule.table (t.witnesses.map Molecule.bytes)]

/-- The hash that names a transaction. -/
def hash (t : Transaction) : Hash := Hash.of t.serializeRaw

/-- The hash of the whole transaction. -/
def witnessHash (t : Transaction) : Hash := Hash.of t.serialize

/-- The bytes a transaction takes in a block: its binary form and its offset there. -/
def size (t : Transaction) : Nat := t.serialize.length + 4

/-- The out points a transaction spends. -/
def spent (t : Transaction) : List OutPoint := t.inputs.map Input.previous

end Transaction

end CellTx
