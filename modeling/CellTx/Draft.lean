import CellTx.Failure
import CellTx.Transaction

/-!
# Drafts

A transaction under construction (specification, section 3). It knows more than the transaction:
what each input is worth, which cell it spends, and which output receives the change. An input comes
with its witness and an output with its data, so that the lists that a transaction has of them
cannot come apart. Inputs are only added; outputs may be changed and removed, and the change stays
with its output (`Draft.removeOutput`).

* The first input under each lock carries a witness with room for a signature, so that the size of
  the draft is that of the signed transaction (`witnessFor`).
* `inputsCapacity`, `outputsCapacity`, `committedCapacity` and `fee` are checked sums of what the
  draft holds.

An operation on an output that is not there is a defect of its caller.

What sequences of operations keep is in `CellTx.Proofs.Operations` (`Draft.parts_of_inRange`); the
form with parallel lists, and that it goes along, in `CellTx.Proofs.Columns`; the size of each
operation's result in `CellTx.Proofs.Resizing`.

Out of scope: removing inputs, and whether a cell that is spent exists.
-/

namespace CellTx

/-- A spent cell with its worth and witness. -/
structure DraftInput where
  outPoint : OutPoint
  since : Since
  cell : Cell
  /-- What the input is worth: the cell's capacity, or more for a deposit that has grown. -/
  worth : Capacity
  witness : Option WitnessArgs
  lockHash : Hash := cell.lock.hash
  lockHash_eq : lockHash = cell.lock.hash := by rfl
deriving DecidableEq

namespace DraftInput

/-- The input as a transaction has it. -/
def input (i : DraftInput) : Input := ⟨i.outPoint, i.since⟩

/-- The bytes of the witness. -/
def witnessBytes (i : DraftInput) : Bytes := (i.witness.map WitnessArgs.serialize).getD []

end DraftInput

/-- A transaction under construction. -/
structure Draft where
  version : UInt32 := 0
  headerDeps : List Hash := []
  cellDeps : List CellDep := []
  inputs : List DraftInput := []
  outputs : List Cell := []
  /-- The output that receives the change. -/
  change : Option Nat := none
  change_lt : ∀ i, change = some i → i < outputs.length := by simp
deriving DecidableEq

namespace Draft

/-- The draft of nothing. -/
def empty : Draft := {}

instance : Inhabited Draft := ⟨empty⟩

/-! ## Deps and inputs -/

/-- Sets the version. -/
def setVersion (d : Draft) (version : UInt32) : Draft := { d with version := version }

/-- The place of a header dep, which is added unless it is there. -/
def addHeaderDep (d : Draft) (hash : Hash) : Nat × Draft :=
  match d.headerDeps.idxOf? hash with
  | some i => (i, d)
  | none => (d.headerDeps.length, { d with headerDeps := d.headerDeps ++ [hash] })

/-- Adds a cell dep unless it is there. -/
def addCellDep (d : Draft) (dep : CellDep) : Draft :=
  if dep ∈ d.cellDeps then d else { d with cellDeps := d.cellDeps ++ [dep] }

/-- Room for a signature, 65 bytes. -/
def placeholder : Bytes := zeros 65

/-- The witness of the next input under a lock: with room for a signature when it is the first
under that lock, and with what type scripts read when something is given. -/
def witnessFor (d : Draft) (lockHash : Hash) (inputType : Option Bytes) : Option WitnessArgs :=
  let isFirst := !d.inputs.any (·.lockHash = lockHash)
  if isFirst || inputType.isSome then
    some { lock := if isFirst then some placeholder else none, inputType := inputType }
  else none

/-- Spends a cell at a worth of its own. -/
def addInputWorth (d : Draft) (outPoint : OutPoint) (cell : Cell) (since : Since)
    (inputType : Option Bytes) (worth : Capacity) : Draft :=
  let lockHash := cell.lock.hash
  { d with
    inputs := d.inputs ++
      [{ outPoint, since, cell, worth, witness := d.witnessFor lockHash inputType, lockHash }] }

/-- Spends a cell. -/
def addInput (d : Draft) (outPoint : OutPoint) (cell : Cell) (since : Since)
    (inputType : Option Bytes) : Draft :=
  d.addInputWorth outPoint cell since inputType cell.capacity

/-- Whether an out point is spent. -/
def spends (d : Draft) (outPoint : OutPoint) : Bool := d.inputs.any (·.outPoint = outPoint)

/-- Spends a live cell without time lock. -/
def consume (d : Draft) (c : LiveCell) : Draft := d.addInput c.outPoint c.cell Since.zero none

/-! ## Outputs -/

/-- Appends an output. -/
def addOutput (d : Draft) (cell : Cell) : Draft :=
  { d with
    outputs := d.outputs ++ [cell]
    change_lt := fun i h => by
      have := d.change_lt i h
      rw [List.length_append]
      omega }

/-- Appends an output that receives the change. -/
def addChange (d : Draft) (cell : Cell) : Draft :=
  { d with
    outputs := d.outputs ++ [cell]
    change := some d.outputs.length
    change_lt := fun i h => by
      rw [List.length_append, List.length_singleton, ← Option.some.inj h]
      omega }

/-- The place of the change after the output at `i` is gone. -/
def shiftChange (change : Option Nat) (i : Nat) : Option Nat :=
  match change with
  | some slot => if slot = i then none else if i < slot then some (slot - 1) else some slot
  | none => none

/-- Removes an output; the change is removed or moves down with its output. -/
def removeOutput (d : Draft) (i : Nat) : Except Failure Draft :=
  if hi : i < d.outputs.length then
    .ok { d with
      outputs := d.outputs.eraseIdx i
      change := shiftChange d.change i
      change_lt := fun j h => by
        rw [List.length_eraseIdx_of_lt hi]
        unfold shiftChange at h
        split at h
        · rename_i slot hslot
          have := d.change_lt slot hslot
          split at h
          · exact absurd h.symm (Option.some_ne_none j)
          · split at h
            all_goals
              have := Option.some.inj h
              omega
        · exact absurd h.symm (Option.some_ne_none j) }
  else .error (.defect (.noOutput i))

/-- An output. -/
def output (d : Draft) (i : Nat) : Except Failure Cell :=
  match d.outputs[i]? with
  | some c => .ok c
  | none => .error (.defect (.noOutput i))

/-- Replaces an output. -/
def setOutput (d : Draft) (i : Nat) (cell : Cell) : Draft :=
  { d with
    outputs := d.outputs.set i cell
    change_lt := fun j h => by
      rw [List.length_set]
      exact d.change_lt j h }

/-- Writes the capacity of an output. -/
def setCapacity (d : Draft) (i : Nat) (capacity : Capacity) : Except Failure Draft := do
  let c ← d.output i
  return d.setOutput i { c with capacity := capacity }

/-- Writes the data of an output. -/
def setData (d : Draft) (i : Nat) (data : Bytes) : Except Failure Draft := do
  let c ← d.output i
  return d.setOutput i { c with data := data }

/-- The capacity that an output must hold. -/
def occupied (d : Draft) (i : Nat) : Except Failure Capacity := do
  match (← d.output i).occupied? with
  | some c => return c
  | none => throw .capacityOverflow

/-- Lifts an output to the capacity it must hold; the capacity it ends up with. -/
def raiseToOccupied (d : Draft) (i : Nat) : Except Failure (Capacity × Draft) := do
  let c ← d.output i
  let occupied ← d.occupied i
  if occupied ≤ c.capacity then return (c.capacity, d)
  else return (occupied, d.setOutput i { c with capacity := occupied })

/-! ## Sums -/

/-- The output that receives the change. -/
def changeOutput? (d : Draft) : Option Cell := d.change.bind (d.outputs[·]?)

/-- A sum that must fit 64 bits. -/
def exactly : Option Capacity → Except Failure Capacity
  | some c => .ok c
  | none => .error .capacityOverflow

/-- What the inputs are worth. -/
def inputsCapacity (d : Draft) : Except Failure Capacity :=
  exactly (Capacity.sum? (d.inputs.map DraftInput.worth))

/-- What the outputs hold. -/
def outputsCapacity (d : Draft) : Except Failure Capacity :=
  exactly (Capacity.sum? (d.outputs.map Cell.capacity))

/-- What the outputs hold, the change apart. -/
def committedCapacity (d : Draft) : Except Failure Capacity := do
  let outputs ← d.outputsCapacity
  exactly (Capacity.sub? outputs ((d.changeOutput?.map Cell.capacity).getD 0))

/-- What the inputs are worth beyond what the outputs hold. -/
def fee (d : Draft) : Except Failure Capacity := do
  let inputs ← d.inputsCapacity
  let outputs ← d.outputsCapacity
  exactly (Capacity.sub? inputs outputs)

/-- The transaction in its current shape. -/
def transaction (d : Draft) : Transaction where
  version := d.version
  cellDeps := d.cellDeps
  headerDeps := d.headerDeps
  inputs := d.inputs.map DraftInput.input
  outputs := d.outputs
  witnesses := d.inputs.map DraftInput.witnessBytes

end Draft

end CellTx
