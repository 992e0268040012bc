import CellTx.Cheque.Args
import CellTx.Ledger.Basic

/-!
# Who sent a cheque

The args of a cheque hold only part of the hash of its sender's lock. The lock itself is found among
the cells that the cheque's transaction spent (specification, section 4.6): the first whose lock has
a hash that begins so. A transaction that is not there, or spent no such cell, fails the search with
the cheque's out point; cells that are not known are passed over.

What is found on a chain is `Chain.senderOf?` in `CellTx.Proofs.Recovery`; that it is who issued the
cheque is part of `Assembler.issued_cheque_recoverable`.

Out of scope: two locks whose hashes begin alike, of which the first one is taken.
-/

namespace CellTx

variable {σ : Type}

/-- The first of some spent cells whose lock is the sender's. A cell that the ledger does not know
is passed over. -/
def findSender (ledger : Ledger σ) (args : ChequeArgs) : List OutPoint → Query σ (Option Script)
  | [] => pure none
  | p :: rest => do
    let found ← ledger.transaction p.txHash
    match found.bind fun t => t.transaction.outputs[p.index.toNat]? with
    | some cell =>
      if args.isSender cell.lock then return some cell.lock else findSender ledger args rest
    | none => findSender ledger args rest

/-- The lock of the sender of a cheque with the given args. -/
def recoverSender (ledger : Ledger σ) (cheque : OutPoint) (args : ChequeArgs) :
    Build σ Script := do
  let found ← Build.ask (ledger.transaction cheque.txHash)
  let t ← Build.demand (.unknownSender cheque) found
  let sender ← Build.ask (findSender ledger args t.transaction.spent)
  Build.demand (.unknownSender cheque) sender

end CellTx
