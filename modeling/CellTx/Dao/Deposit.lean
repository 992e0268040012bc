import CellTx.Balance
import CellTx.Dao.Committed
import CellTx.Flow

/-!
# Deposits

Locks capacity of an owner's plain cells into a new DAO cell, with eight zero bytes of data
(specification, section 4.5). A deposit below what the cell occupies is refused.

That a deposit can be withdrawn and claimed is `Assembler.deposit_claimed` in
`CellTx.Proofs.LifeCycle`.

Out of scope: depositing for someone else, and several deposits at once.
-/

namespace CellTx.Assembler

variable {σ : Type}

/-- The new DAO cell and the change of the owner. -/
def addDeposit (a : Assembler σ) (owner : Script) (capacity : Capacity) (d : Draft) :
    Except Failure Draft := do
  let i := d.outputs.length
  let d := d.addOutput ⟨capacity, owner, some a.scripts.daoType, zeros Dao.dataLength⟩
  let occupied ← d.occupied i
  if capacity < occupied then throw (.depositTooSmall capacity occupied)
  return d.addChange (Cell.plain owner 0)

/-- The flow of a deposit. -/
def depositFlow (a : Assembler σ) (owner : Script) (capacity : Capacity) : Flow σ Unit where
  init := pure ()
  setCellDeps _ d :=
    pure ((d.addCellDep a.scripts.secp256k1Blake160.dep).addCellDep a.scripts.dao.dep)
  buildOutputs _ d := Build.ofExcept (a.addDeposit owner capacity d)
  buildInputs _ d := return (← a.collectCapacity d [a.stream (SearchKey.plainByLock owner)]).2
  settleChange _ d := a.settleChange d
  signingLocks _ := [owner]

/-- Builds a deposit of an owner's capacity. -/
def deposit (a : Assembler σ) (owner : Script) (capacity : Capacity) : Build σ Assembled :=
  (a.depositFlow owner capacity).assemble

end CellTx.Assembler
