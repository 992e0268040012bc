import CellTx.Balance
import CellTx.Flow

/-!
# Transfers

Moves capacity from some locks to others. The senders' plain cells are drained in the order in which
the senders are named; what is left over goes to the change lock, or to the fee when there is none
(specification, sections 4.2 and 4.3). A request without senders or receivers is refused, and so is
an output below what it occupies.

What a transfer delivers, and what the senders pay, is `Assembler.transfer_delivers`; that more
funds do not hurt is `Assembler.transfer_with_more`.

Out of scope: moving tokens, and paying from cells that hold data.
-/

namespace CellTx

/-- A transfer of capacity. -/
structure TransferRequest where
  /-- The locks that pay, in the order in which they are drained. -/
  senders : List Script
  /-- The receivers and what each of them gets. -/
  receivers : List (Script × Capacity)
  change : Option Script
deriving DecidableEq

namespace TransferRequest

/-- Adds the receivers' outputs, each of which must hold what it occupies. -/
def addReceivers : List (Script × Capacity) → Draft → Except Failure Draft
  | [], d => .ok d
  | (lock, capacity) :: rest, d => do
    let i := d.outputs.length
    let d := d.addOutput (Cell.plain lock capacity)
    let occupied ← d.occupied i
    if capacity < occupied then throw (.outputTooSmall i capacity occupied)
    addReceivers rest d

/-- Adds the output of the change lock, if there is one. -/
def addChange (r : TransferRequest) (d : Draft) : Draft :=
  match r.change with
  | some lock => d.addChange (Cell.plain lock 0)
  | none => d

end TransferRequest

namespace Assembler

variable {σ : Type}

/-- The flow of a transfer. -/
def transferFlow (a : Assembler σ) (r : TransferRequest) : Flow σ Unit where
  init :=
    if r.senders.isEmpty then throw .noSenderLock
    else if r.receivers.isEmpty then throw .noReceiverLock
    else pure ()
  setCellDeps _ d := pure (d.addCellDep a.scripts.secp256k1Blake160.dep)
  buildOutputs _ d := do
    let d ← Build.ofExcept (TransferRequest.addReceivers r.receivers d)
    return r.addChange d
  buildInputs _ d := do
    let streams := r.senders.map fun lock => a.stream (SearchKey.plainByLock lock)
    return (← a.collectCapacity d streams).2
  settleChange _ d := a.settleChange d
  signingLocks _ := r.senders

/-- Builds a transfer. -/
def transfer (a : Assembler σ) (r : TransferRequest) : Build σ Assembled :=
  (a.transferFlow r).assemble

end Assembler

end CellTx
