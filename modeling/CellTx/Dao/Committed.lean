import CellTx.Ledger.Basic
import CellTx.SystemScripts

/-!
# DAO cells on the chain

A cell found through the transaction that made it and the block that committed that transaction
(specification, section 4.5). A DAO cell has the DAO type and eight bytes of data: all zero for a
deposit, and the number of the deposit's block for a deposit that is being withdrawn. So a deposit
in block zero stays a deposit when its number is written into it
(`Assembler.withdrawn_blockZero_isDeposit`). The deposit behind a withdrawing cell is the cell spent
by the input at the same place.

What is loaded from a chain, in the order of the questions, is in `CellTx.Proofs.Records`.

Out of scope: whether the cell is still live. Neither phase of a withdrawal asks.
-/

namespace CellTx.Dao

/-- The bytes of data of a DAO cell. -/
def dataLength : Nat := 8

/-- A cell with the transaction that made it and the block that committed it. -/
structure CommittedCell where
  outPoint : OutPoint
  cell : Cell
  transaction : Transaction
  header : Header
deriving DecidableEq

namespace CommittedCell

/-- Finds a cell on a chain. -/
def load {σ : Type} (ledger : Ledger σ) (p : OutPoint) : Build σ CommittedCell := do
  let found ← Build.ask (ledger.transaction p.txHash)
  let t ← Build.demand (.noTransaction p.txHash) found
  let block ← Build.demand (.uncommitted p.txHash) t.block
  let header ← Build.ask (ledger.header block)
  let header ← Build.demand (.noHeader block) header
  let cell ← Build.demand (.noCell p) t.transaction.outputs[p.index.toNat]?
  return ⟨p, cell, t.transaction, header⟩

/-- Whether the cell is a DAO cell. -/
def isDaoCell (c : CommittedCell) (scripts : SystemScripts) : Bool :=
  c.cell.data.length = dataLength && c.cell.hasType scripts.daoType

/-- Whether the cell is a deposit. -/
def isDeposit (c : CommittedCell) (scripts : SystemScripts) : Bool :=
  c.isDaoCell scripts && c.cell.data.all (· = 0)

/-- Whether the cell is a deposit that is being withdrawn. -/
def isWithdrawing (c : CommittedCell) (scripts : SystemScripts) : Bool :=
  c.isDaoCell scripts && c.cell.data.any (· ≠ 0)

/-- Fails unless the cell is a deposit. -/
def ensureDeposit (c : CommittedCell) (scripts : SystemScripts) : Except Failure Unit :=
  if c.isDeposit scripts then .ok () else .error (.notDeposit c.outPoint)

/-- Fails unless the cell is a deposit that is being withdrawn. -/
def ensureWithdrawing (c : CommittedCell) (scripts : SystemScripts) : Except Failure Unit :=
  if c.isWithdrawing scripts then .ok () else .error (.notWithdrawing c.outPoint)

/-- The deposit behind a withdrawing cell. -/
def depositOutPoint (c : CommittedCell) : Except Failure OutPoint :=
  match c.transaction.inputs[c.outPoint.index.toNat]? with
  | some i => .ok i.previous
  | none => .error (.noDepositOf c.outPoint)

end CommittedCell

end CellTx.Dao
