import CellTx.Amount
import CellTx.Cell
import CellTx.Encoding

/-!
# Failures

Everything that can end the building of a transaction, by cause (specification, section 7).
`Failure.kind` sorts the causes into the kinds that a caller handles alike, `Failure.message` says a
cause in words.

* `QueryError` is what a ledger or an estimator answers instead of an answer; it is carried as it is
  (`Failure.query`).
* `EncodingError` and `AmountError` are carried likewise.
* A `Defect` is no failure of the building but a request outside the domain of an operation, which a
  program would end on; it has no words. That no call comes to one is `Node.calls_never_trap` in
  `CellTx.Proofs.Defects`.

What a failure says of a shortage is `Construction.shortage_truthful_iff`.

Out of scope: causes of causes beyond the first, and logging (specification, section 10).
-/

namespace CellTx

/-- The questions that a ledger answers. -/
inductive QueryName where
  | tip
  | header
  | transaction
  | cells
  | furtherCells
  | maximumWithdraw
deriving DecidableEq

/-- A question as a failing answer names it. -/
def QueryName.text : QueryName → String
  | tip => "tip"
  | header => "header"
  | transaction => "transaction"
  | cells => "cells"
  | furtherCells => "cells_next"
  | maximumWithdraw => "max"

/-- Why a ledger or a fee estimator gives no answer. -/
inductive QueryError where
  /-- Nobody answers. -/
  | refused
  /-- One kind of question is not answered. -/
  | refusedQuery (name : QueryName)
  /-- No fee can be told. -/
  | noEstimate
  /-- There is no such deposit. -/
  | unknownDeposit (outPoint : OutPoint)
  /-- There is no such block. -/
  | unknownBlock (hash : Hash)
  /-- The withdrawing block does not come after the deposit's. -/
  | withdrawingBeforeDeposit
  /-- A worth is beyond 64 bits, or less than nothing. -/
  | capacityOverflow
  /-- The deposit's block has no accumulate rate, so that its worth is undefined. -/
  | undefinedWorth
deriving DecidableEq

/-- The error in words. -/
def QueryError.message : QueryError → String
  | refused => "connection refused"
  | refusedQuery name => s!"rpc {name.text}: connection refused"
  | noEstimate => "no estimate"
  | unknownDeposit outPoint => "unknown deposit " ++ outPoint.display
  | unknownBlock hash => "unknown block " ++ hash.display
  | withdrawingBeforeDeposit => "withdrawing before deposit"
  | capacityOverflow => "capacity overflow: Overflow"
  | undefinedWorth => "the accumulate rate is zero"

/-- A request outside the domain of an operation. -/
inductive Defect where
  /-- There is no output at this index. -/
  | noOutput (index : Nat)
  /-- The epoch's number is beyond the packed form. -/
  | unpackableEpoch (number : Nat)
  /-- A ledger went on reporting cells beyond the number it promised. -/
  | endlessSearch
deriving DecidableEq

/-- Why no transaction was built. -/
inductive Failure where
  | noSenderLock
  | noReceiverLock
  /-- A cheque's sender and receiver are one lock. -/
  | chequeToSelf
  | amount (error : AmountError)
  /-- A requested output is below what it occupies. -/
  | outputTooSmall (index : Nat) (capacity occupied : Capacity)
  /-- A requested deposit is below what it occupies. -/
  | depositTooSmall (capacity occupied : Capacity)
  | zeroCheque
  /-- The tokens collected are beyond 128 bits. -/
  | collectedTokensTooLarge
  /-- The tokens claimed are beyond 128 bits. -/
  | claimedTokensTooLarge
  /-- The cells ran out before the inputs covered outputs and fee. -/
  | insufficientCapacity (required collected : Nat)
  /-- The cells ran out before the tokens were collected. -/
  | insufficientTokens (required collected : TokenAmount)
  /-- The fee is more than what it has to be paid from. -/
  | insufficientForFee (fee available : Capacity)
  | notDeposit (outPoint : OutPoint)
  | notWithdrawing (outPoint : OutPoint)
  /-- No cheque for the receiver's lock is live. -/
  | noChequeFor (receiver : Hash)
  /-- No cheque between two locks holds exactly the amount. -/
  | noChequeHolding (sender receiver : Hash) (amount : TokenAmount)
  /-- No cell satisfies a request of other kind. -/
  | noMatchingCell (request : String)
  /-- The creator of a cheque cannot be told. -/
  | unknownSender (outPoint : OutPoint)
  | noTransaction (hash : Hash)
  /-- The transaction is in no block yet. -/
  | uncommitted (hash : Hash)
  | noHeader (hash : Hash)
  | noCell (outPoint : OutPoint)
  /-- The deposit behind a withdrawing cell cannot be told. -/
  | noDepositOf (outPoint : OutPoint)
  | query (error : QueryError)
  | encoding (error : EncodingError)
  | capacityOverflow
  | defect (cause : Defect)
deriving DecidableEq

namespace Failure

/-- The kinds of failure that a caller handles alike. -/
inductive Kind where
  | invalidAddressOrScript
  | invalidAmount
  | insufficientCapacity
  | insufficientToken
  | insufficientForFee
  | noMatchingCell
  | senderLockNotFound
  | notFound
  | remoteQueryFailure
  | encodingFailure
  | capacityOverflow
  | defect
deriving DecidableEq

/-- The kind of a failure. A worth that is undefined is a defect of the request. -/
def kind : Failure → Kind
  | noSenderLock | noReceiverLock | chequeToSelf => .invalidAddressOrScript
  | amount _ | outputTooSmall _ _ _ | depositTooSmall _ _ | zeroCheque
  | collectedTokensTooLarge | claimedTokensTooLarge => .invalidAmount
  | insufficientCapacity _ _ => .insufficientCapacity
  | insufficientTokens _ _ => .insufficientToken
  | insufficientForFee _ _ => .insufficientForFee
  | notDeposit _ | notWithdrawing _ | noChequeFor _ | noChequeHolding _ _ _
  | noMatchingCell _ => .noMatchingCell
  | unknownSender _ => .senderLockNotFound
  | noTransaction _ | uncommitted _ | noHeader _ | noCell _ | noDepositOf _ => .notFound
  | query .undefinedWorth => .defect
  | query _ => .remoteQueryFailure
  | encoding _ => .encodingFailure
  | capacityOverflow => .capacityOverflow
  | defect _ => .defect

/-- What a failure of each kind begins with. -/
def Kind.heading : Kind → String
  | invalidAddressOrScript => "invalid address or script: "
  | invalidAmount => "invalid amount: "
  | noMatchingCell => "no matching cell: "
  | remoteQueryFailure => "remote query failure: "
  | encodingFailure => "encoding failure: "
  | insufficientCapacity | insufficientToken | insufficientForFee | senderLockNotFound
  | notFound | capacityOverflow | defect => ""

/-- The cause in words. -/
def detail : Failure → String
  | noSenderLock => "no sender lock given"
  | noReceiverLock => "no receiver lock given"
  | chequeToSelf => "cheque sender and receiver are the same lock"
  | amount error => error.message
  | outputTooSmall index capacity occupied =>
    s!"output {index} holds {capacity} shannons, below its occupied {occupied}"
  | depositTooSmall capacity occupied =>
    s!"deposit of {capacity} shannons is below the {occupied} a DAO cell occupies"
  | zeroCheque => "cheque amount is zero"
  | collectedTokensTooLarge => "token amount overflows u128"
  | claimedTokensTooLarge => "claimed amount overflows u128"
  | insufficientCapacity required collected =>
    s!"insufficient capacity: {required} shannons required, {collected} collected"
  | insufficientTokens required collected =>
    s!"insufficient token: {required.toNat} required, {collected.toNat} collected"
  | insufficientForFee fee available => s!"fee {fee} exceeds withdrawable amount {available}"
  | notDeposit outPoint => outPoint.display ++ " is not a DAO deposit"
  | notWithdrawing outPoint => outPoint.display ++ " is not a withdrawing DAO cell"
  | noChequeFor receiver => "no cheque for receiver " ++ receiver.display
  | noChequeHolding sender receiver tokens =>
    "no cheque from " ++ sender.display ++ " to " ++ receiver.display ++
      s!" holding {tokens.toNat}"
  | noMatchingCell request => request
  | unknownSender outPoint => "sender lock of cheque cell " ++ outPoint.display ++ " not found"
  | noTransaction hash => "transaction " ++ hash.display ++ " not found"
  | uncommitted hash => "block committing " ++ hash.display ++ " not found"
  | noHeader hash => "header " ++ hash.display ++ " not found"
  | noCell outPoint => "cell " ++ outPoint.display ++ " not found"
  | noDepositOf outPoint => "deposit of " ++ outPoint.display ++ " not found"
  | query error => error.message
  | encoding error => error.message
  | capacityOverflow => "capacity overflow"
  | defect _ => "the request is outside the domain of the operation"

/-- The failure in words. -/
def message (f : Failure) : String := f.kind.heading ++ f.detail

end Failure

end CellTx
