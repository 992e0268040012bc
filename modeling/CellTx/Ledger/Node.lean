import CellTx.Ledger.Chain

/-!
# A node that may fail

A chain behind a node (specification, section 13). The node can be told to refuse some questions, to
hide what the chain answers, or to know the worth of every deposit by itself (`Faults`). Refusals
come first. What is left reaches the chain, and fails while the chain is offline; hiding comes last,
so that it does not help then, but a worth that the node knows does not need the chain.

Results about all chains are mostly stated of all nodes, which include the chain itself
(`Node.ledger_chain`); where questions have to be answered, `Node.Answers` says so.

Out of scope: answers that are wrong. What a node answers is what its chain answers, or less.
-/

namespace CellTx

/-- What a node does wrong. -/
structure Faults where
  /-- The questions that it refuses; further cells are those after a cursor. -/
  refused : List QueryName := []
  /-- The transactions and headers that it refuses to look up. -/
  refusedTransactions : List Hash := []
  refusedHeaders : List Hash := []
  /-- The transactions and headers that it does not find. -/
  hiddenTransactions : List Hash := []
  hiddenHeaders : List Hash := []
  /-- The transactions that it takes for uncommitted. -/
  pendingTransactions : List Hash := []
  /-- Whether searches forget their filter. -/
  ignoresFilter : Bool := false
  /-- What it answers for the worth of every deposit. -/
  maximumWithdraw : Option Capacity := none
deriving DecidableEq

/-- A chain behind a node. -/
structure Node where
  chain : Chain
  faults : Faults := {}
  /-- Whether the chain cannot be reached. -/
  offline : Bool := false
deriving DecidableEq

namespace Node

variable {α : Type}

/-- Lets a question pass that is not refused. -/
def pass (n : Node) (name : QueryName) (refused : Bool) : Query Nat Unit := do
  if n.faults.refused.contains name || refused then throw (.refusedQuery name)

/-- Lets a question reach the chain, unless that is offline. -/
def reach (n : Node) : Query Nat Unit := do
  if n.offline then throw .refused

/-- The node as a ledger. Its state is the number of pages that the chain has handed out. -/
def ledger (n : Node) : Ledger Nat where
  tip := do
    n.pass .tip false
    n.reach
    n.chain.ledger.tip
  header hash := do
    n.pass .header (n.faults.refusedHeaders.contains hash)
    n.reach
    if n.faults.hiddenHeaders.contains hash then return none
    n.chain.ledger.header hash
  transaction hash := do
    n.pass .transaction (n.faults.refusedTransactions.contains hash)
    n.reach
    if n.faults.hiddenTransactions.contains hash then return none
    let found ← n.chain.ledger.transaction hash
    if n.faults.pendingTransactions.contains hash then
      return found.map fun t => { t with block := none }
    return found
  cells key order limit after := do
    n.pass .cells false
    if after.isSome then n.pass .furtherCells false
    n.reach
    n.chain.ledger.cells (if n.faults.ignoresFilter then { key with filter := none } else key)
      order limit after
  maximumWithdraw deposit block := do
    n.pass .maximumWithdraw false
    match n.faults.maximumWithdraw with
    | some worth => return worth
    | none => do
      n.reach
      n.chain.ledger.maximumWithdraw deposit block
  span := n.chain.ledger.span

end Node

end CellTx
