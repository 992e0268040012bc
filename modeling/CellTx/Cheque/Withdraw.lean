import CellTx.Cheque.Issue

/-!
# Taking cheques back

A cheque that was not claimed for six epochs goes back to its sender, who names its receiver, its
token and the amount it holds (specification, section 4.6). The first listed cheque that is exactly
the one asked for is taken (`findCheque`), with a time lock of six epochs on its input alone. Its
capacity and tokens return in one cell, which is lifted when it occupies more; the fee comes from
the sender's plain cells.

The account is `Assembler.withdrawCheque_accounts` in `CellTx.Proofs.TakingBack`.

Out of scope: whether the six epochs are over, which the chain decides.
-/

namespace CellTx

/-- The epochs for which only the receiver may spend a cheque. -/
def claimableEpochs : Nat := 6

/-- The time lock of a cheque that is taken back. -/
def withdrawSince : Since := Since.relativeEpoch (EpochFraction.pack claimableEpochs 0 0)

namespace ChequeRequest

/-- Whether a live cell is the cheque that is asked for. -/
def isAsked (r : ChequeRequest) (scripts : SystemScripts) (c : LiveCell) : Bool :=
  TokenAmount.ofData? c.cell.data = some r.amount && c.cell.hasType (scripts.sudtType r.owner) &&
    c.cell.lock.args = r.args.bytes

end ChequeRequest

namespace Assembler

variable {σ : Type}

/-- Finds the first cheque that is asked for. -/
def findCheque (a : Assembler σ) (r : ChequeRequest) : Build σ LiveCell := do
  let streams := [a.stream (a.scripts.chequeSearch r.args.bytes r.owner)]
  match ← CellStream.find a.ledger (r.isAsked a.scripts) (CellStream.bound a.ledger streams)
    streams with
  | (some c, _) => return c
  | (none, _) => throw (.noChequeHolding r.sender.hash r.receiver.hash r.amount)

/-- The cell that takes back a cheque, and the change of the sender. -/
def addReturned (r : ChequeRequest) (c : LiveCell) (d : Draft) : Except Failure Draft := do
  let d ← addRaised ⟨c.cell.capacity, r.sender, c.cell.type, TokenAmount.data r.amount⟩ d
  return d.addChange (Cell.plain r.sender 0)

/-- The flow that takes back a cheque. -/
def withdrawChequeFlow (a : Assembler σ) (r : ChequeRequest) : Flow σ LiveCell where
  init := a.findCheque r
  setCellDeps _ d :=
    pure (((d.addCellDep a.scripts.secp256k1Blake160.dep).addCellDep
      a.scripts.sudt.dep).addCellDep a.scripts.cheque.dep)
  buildOutputs c d := Build.ofExcept (addReturned r c d)
  buildInputs c d := do
    let d := d.addInput c.outPoint c.cell withdrawSince none
    return (← a.collectCapacity d [a.stream (SearchKey.plainByLock r.sender)]).2
  settleChange _ d := a.settleChange d
  signingLocks _ := [r.sender]

/-- Takes back a cheque. -/
def withdrawCheque (a : Assembler σ) (r : ChequeRequest) : Build σ Assembled :=
  (a.withdrawChequeFlow r).assemble

end Assembler

end CellTx
