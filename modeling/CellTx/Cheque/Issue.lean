import CellTx.Balance
import CellTx.Cheque.Args
import CellTx.Flow

/-!
# Issuing cheques

Puts tokens of a sender into a cheque for a receiver (specification, section 4.6). The tokens come
from the sender's token cells, capacity and fee from the sender's plain cells, and both changes go
back to the sender. The cheque and the token change have configured capacities, and are lifted when
they occupy more (`addRaised`). Refused are a cheque to oneself and one of nothing.

The account of an issued cheque is `Assembler.issue_accounts` in `CellTx.Proofs.Issuing`; that it
can be traced, claimed and taken back is `Assembler.issued_cheque_recoverable`.

Out of scope: cheques for several receivers or tokens at once.
-/

namespace CellTx

/-- A cheque to be issued or taken back: its two locks, its token by the hash of the issuer's lock,
and the tokens it holds. -/
structure ChequeRequest where
  sender : Script
  receiver : Script
  owner : Hash
  amount : TokenAmount
deriving DecidableEq

namespace ChequeRequest

/-- The args of the cheque. -/
def args (r : ChequeRequest) : ChequeArgs := ChequeArgs.ofLocks r.receiver r.sender

end ChequeRequest

namespace Assembler

variable {σ : Type}

/-- Adds an output and lifts it to the capacity it must hold. -/
def addRaised (cell : Cell) (d : Draft) : Except Failure Draft := do
  let i := d.outputs.length
  return (← (d.addOutput cell).raiseToOccupied i).2

/-- The place of the token change of an issued cheque, after the cheque. -/
def tokenChange : Nat := 1

/-- The cheque, the token change and the change of the sender. -/
def addCheque (a : Assembler σ) (r : ChequeRequest) (d : Draft) : Except Failure Draft := do
  let sudt := a.scripts.sudtType r.owner
  let cheque := ⟨a.cheque.cellCapacity, a.scripts.chequeLock r.args.bytes, some sudt,
    TokenAmount.data r.amount⟩
  let d ← addRaised cheque d
  let d ← addRaised ⟨a.cheque.tokenCellCapacity, r.sender, some sudt, TokenAmount.data 0⟩ d
  return d.addChange (Cell.plain r.sender 0)

/-- The flow that issues a cheque. -/
def issueFlow (a : Assembler σ) (r : ChequeRequest) : Flow σ Unit where
  init :=
    if r.amount = 0 then throw .zeroCheque
    else if r.sender.hash = r.receiver.hash then throw .chequeToSelf
    else pure ()
  setCellDeps _ d :=
    pure ((d.addCellDep a.scripts.secp256k1Blake160.dep).addCellDep a.scripts.sudt.dep)
  buildOutputs _ d := Build.ofExcept (a.addCheque r d)
  buildInputs _ d := do
    let sudt := a.scripts.sudtType r.owner
    let tokens := a.stream (SearchKey.byLockAndType r.sender sudt)
    let ((_, collected), d) ← a.collectTokens d sudt r.amount [tokens]
    let d ← Build.ofExcept (d.settleTokenChange tokenChange collected r.amount)
    return (← a.collectCapacity d [a.stream (SearchKey.plainByLock r.sender)]).2
  settleChange _ d := a.settleChange d
  signingLocks _ := [r.sender]

/-- Issues a cheque. -/
def issueCheque (a : Assembler σ) (r : ChequeRequest) : Build σ Assembled :=
  (a.issueFlow r).assemble

end Assembler

end CellTx
