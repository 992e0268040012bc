import CellTx.Cheque.Issue
import CellTx.Cheque.Refunds
import CellTx.Cheque.Sender

/-!
# Claiming cheques

Claims every cheque of one token that was sent to a receiver (specification, section 4.6). The
tokens end up in one cell of the receiver, paid for with the receiver's plain cells; the capacity of
each cheque goes back to its sender.

* `chequeArgsFor` tells a cheque for the receiver. Cells that the search reports but that are no
  such cheques are passed over.
* `tally` adds up what the cheques hold and whom their capacity goes back to. An amount that cannot
  be read ends it.
* `senderOf` recovers the sender of a cheque once for all cheques with the same args (specification,
  section 14), so that a cheque is attributed to the sender of the first one like it.

The account of a claim is `Assembler.claim_accounts` in `CellTx.Proofs.ClaimedCheques`. What follows
from remembering senders is `Assembler.claim_remembers_senders` in
`CellTx.Proofs.RememberedSenders`; when the refunds hold what they occupy is
`Assembler.claimed_outputs_funded_iff` in `CellTx.Proofs.SpendableRefunds`.

Out of scope: claiming some of the cheques, or those of several tokens.
-/

namespace CellTx

/-- What a claim has found so far. -/
structure ClaimTally where
  cheques : List LiveCell := []
  capacity : Capacity := 0
  amount : TokenAmount := 0
  refunds : Refunds := []
  /-- The senders that are known, by the args that name them. -/
  senders : List (ChequeArgs × Script) := []
deriving DecidableEq

namespace ClaimTally

/-- A sum that must fit its width. -/
def fits {α : Type} (f : Failure) : Option α → Except Failure α
  | some a => .ok a
  | none => .error f

/-- Adds a cheque of a sender that holds `amount`. -/
def add (t : ClaimTally) (c : LiveCell) (sender : Script) (amount : TokenAmount) :
    Except Failure ClaimTally := do
  let amount ← fits .claimedTokensTooLarge (TokenAmount.add? t.amount amount)
  let refunds ← t.refunds.credit sender c.cell.capacity
  let capacity ← fits .capacityOverflow (Capacity.add? t.capacity c.cell.capacity)
  return { t with
    cheques := t.cheques ++ [c]
    capacity := capacity
    amount := amount
    refunds := refunds }

end ClaimTally

/-- The args of a cell that is a cheque of the token `sudt` for the receiver whose lock hash begins
with `receiver`. -/
def chequeArgsFor (sudt : Script) (receiver : Bytes) (c : LiveCell) : Option ChequeArgs :=
  match ChequeArgs.ofBytes c.cell.lock.args with
  | .error _ => none
  | .ok args => if c.cell.hasType sudt && args.receiver = receiver then some args else none

namespace Assembler

variable {σ : Type}

/-- The sender of a cheque, looked up once for each args. -/
def senderOf (a : Assembler σ) (t : ClaimTally) (c : LiveCell) (args : ChequeArgs) :
    Build σ (Script × ClaimTally) :=
  match t.senders.lookup args with
  | some lock => pure (lock, t)
  | none => do
    let lock ← recoverSender a.ledger c.outPoint args
    return (lock, { t with senders := (args, lock) :: t.senders })

/-- Adds the cheques among some live cells. -/
def tally (a : Assembler σ) (sudt : Script) (receiver : Bytes) :
    ClaimTally → List LiveCell → Build σ ClaimTally
  | t, [] => pure t
  | t, c :: rest =>
    match chequeArgsFor sudt receiver c with
    | none => tally a sudt receiver t rest
    | some args => do
      let amount ← Build.decoded (TokenAmount.ofData c.cell.data)
      let (sender, t) ← a.senderOf t c args
      let t ← Build.ofExcept (t.add c sender amount)
      tally a sudt receiver t rest

/-- Finds the cheques of a token for a receiver; there must be one. -/
def findCheques (a : Assembler σ) (receiver : Script) (owner : Hash) : Build σ ClaimTally := do
  let streams := [a.stream (a.scripts.chequeSearch receiver.hashHead owner)]
  let cells ← CellStream.drain a.ledger (CellStream.bound a.ledger streams) streams
  let t ← a.tally (a.scripts.sudtType owner) receiver.hashHead {} cells
  if t.cheques.isEmpty then throw (.noChequeFor receiver.hash)
  return t

/-- The claimed tokens, the refunds and the change of the receiver. -/
def addClaimed (a : Assembler σ) (receiver : Script) (owner : Hash) (t : ClaimTally)
    (d : Draft) : Except Failure Draft := do
  let claimed := ⟨a.cheque.tokenCellCapacity, receiver, some (a.scripts.sudtType owner),
    TokenAmount.data t.amount⟩
  let d ← addRaised claimed d
  let d := t.refunds.foldl (fun d (lock, owed) => d.addOutput (Cell.plain lock owed)) d
  return d.addChange (Cell.plain receiver 0)

/-- The flow that claims cheques. -/
def claimChequesFlow (a : Assembler σ) (receiver : Script) (owner : Hash) :
    Flow σ ClaimTally where
  init := a.findCheques receiver owner
  setCellDeps _ d :=
    pure (((d.addCellDep a.scripts.secp256k1Blake160.dep).addCellDep
      a.scripts.sudt.dep).addCellDep a.scripts.cheque.dep)
  buildOutputs t d := Build.ofExcept (a.addClaimed receiver owner t d)
  buildInputs t d := do
    let d := t.cheques.foldl Draft.consume d
    return (← a.collectCapacity d [a.stream (SearchKey.plainByLock receiver)]).2
  settleChange _ d := a.settleChange d
  signingLocks _ := [receiver]

/-- Claims every cheque of a token for a receiver. -/
def claimCheques (a : Assembler σ) (receiver : Script) (owner : Hash) : Build σ Assembled :=
  (a.claimChequesFlow receiver owner).assemble

end Assembler

end CellTx
