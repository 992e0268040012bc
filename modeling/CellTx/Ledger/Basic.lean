import CellTx.Failure
import CellTx.Header
import CellTx.Search
import CellTx.Transaction

/-!
# Ledgers

What building a transaction asks of the world (specification, section 6). A `Ledger σ` answers
questions about a chain; an answer may fail, and may change a state `σ` of whoever answers. A
`FeeEstimator σ` prices a transaction. `Query` is the type of such answers, `Build` the type of
everything that is built from them.

* `Build.ask` makes an error of the world one of the building, as it is.
* `Build.decoded` does so with the error of bytes that cannot be read.
* `Build.demand` fails where there is nothing.

`Ledger.span` is not a question but a promise: no search reports more cells than that. A search that
goes on nevertheless ends as a defect (`CellTx.Ledger.Stream`).

Out of scope: submitting a transaction, searching for transactions, time-outs and retries.
-/

namespace CellTx

/-- An answer of the world: it may fail, and may change the world's state. -/
abbrev Query (σ α : Type) := ExceptT QueryError (StateM σ) α

/-- Something built from answers of the world. -/
abbrev Build (σ α : Type) := ExceptT Failure (StateM σ) α

namespace Build

variable {σ α : Type}

/-- An answer, whose error ends the building. -/
def ask (q : Query σ α) : Build σ α := ExceptT.adapt Failure.query q

/-- A result that needs no answer. -/
def ofExcept : Except Failure α → Build σ α
  | .ok a => pure a
  | .error f => throw f

/-- A value that is read from bytes. -/
def decoded (r : Except EncodingError α) : Build σ α := ofExcept (r.mapError Failure.encoding)

/-- A value that has to be there. -/
def demand (f : Failure) : Option α → Build σ α
  | some a => pure a
  | none => throw f

end Build

/-- A transaction and the block that committed it, if one did. -/
structure CommittedTransaction where
  transaction : Transaction
  block : Option Hash
deriving DecidableEq

/-- Some of the cells of a search, and where the next ones begin. An empty page ends the search. -/
structure Page where
  cells : List LiveCell
  cursor : Nat
deriving DecidableEq

/-- Read access to a chain. -/
structure Ledger (σ : Type) where
  /-- The header of the last block. -/
  tip : Query σ Header
  /-- A header by hash. -/
  header : Hash → Query σ (Option Header)
  /-- A transaction by hash. -/
  transaction : Hash → Query σ (Option CommittedTransaction)
  /-- At most `limit` cells of a search after a cursor. -/
  cells : (key : SearchKey) → Order → (limit : Nat) → (after : Option Nat) → Query σ Page
  /-- What a deposit is worth when it is withdrawn in a block. -/
  maximumWithdraw : OutPoint → (block : Hash) → Query σ Capacity
  /-- No search reports more cells than this. -/
  span : Nat

/-- The least fee of a transaction at a rate in shannons per thousand bytes. -/
abbrev FeeEstimator (σ : Type) := Transaction → (rate : UInt64) → Query σ Capacity

end CellTx
