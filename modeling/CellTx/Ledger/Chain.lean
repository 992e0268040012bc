import CellTx.Ledger.Basic

/-!
# A chain in memory

The ledger that the constructions are run on (specification, section 13): headers, transactions and
the live cells in the order in which they were made. Committing a transaction takes the cells it
spends out of the live list and appends the cells it makes. `Chain.ledger` answers a ledger's
questions from it and counts the pages it hands out.

* `Chain.page` is a page of a search: the accepted cells after a cursor, which is the position of
  the last one. That the pages together are the search is in `CellTx.Proofs.Paging`.
* `Chain.maximumWithdraw` is what a deposit is worth in a block: what it does not occupy grows by
  the accumulate rate.
* `Chain.fund` makes cells out of nothing.

Out of scope: verification. A transaction is committed as it is, in any block; `fund` makes its
cells in the first one. Forks and reorganisations have no place here.
-/

namespace CellTx

/-- A chain in memory. Of two entries under one hash the first counts. -/
structure Chain where
  headers : List (Hash × Header)
  transactions : List (Hash × CommittedTransaction)
  /-- The unspent cells, oldest first. -/
  live : List LiveCell
  tip : Header
  /-- How often cells were made out of nothing. -/
  fundings : Nat
deriving DecidableEq

namespace Chain

/-- The accumulate rate of the first block. -/
def genesisRate : UInt64 := 10000000000000000

/-- The first block: the start of epoch 0, which has 1800 blocks. -/
def genesis : Header := Header.withRate 0 (EpochFraction.pack 0 0 1800) genesisRate

/-- The chain of nothing but the first block. -/
def new : Chain where
  headers := [(genesis.hash, genesis)]
  transactions := []
  live := []
  tip := genesis
  fundings := 0

/-- A header by hash. -/
def header? (c : Chain) (hash : Hash) : Option Header := c.headers.lookup hash

/-- A transaction by hash. -/
def transaction? (c : Chain) (hash : Hash) : Option CommittedTransaction :=
  c.transactions.lookup hash

/-- An output of a known transaction. -/
def output? (c : Chain) (p : OutPoint) : Option Cell := do
  let t ← c.transaction? p.txHash
  t.transaction.outputs[p.index.toNat]?

/-- Adds a block, which becomes the tip when its number is above the tip's. -/
def insertHeader (c : Chain) (h : Header) : Chain :=
  { c with
    headers := (h.hash, h) :: c.headers
    tip := if c.tip.number < h.number then h else c.tip }

/-- The cells that a transaction makes in a block. -/
def made (t : Transaction) (h : Header) : List LiveCell :=
  let hash := t.hash
  t.outputs.zipIdx.map fun (cell, i) => ⟨⟨hash, UInt32.ofNat i⟩, cell, h.number, 1⟩

/-- Commits a transaction in a block. -/
def commit (c : Chain) (t : Transaction) (h : Header) : Chain :=
  let c := c.insertHeader h
  let spent := t.spent
  { c with
    live := c.live.filter (fun cell => !spent.contains cell.outPoint) ++ made t h
    transactions := (t.hash, ⟨t, some h.hash⟩) :: c.transactions }

/-- The block after the tip, of the same epoch and rate; the last number of 64 bits has none. -/
def nextHeader? (c : Chain) : Option Header :=
  if c.tip.number.toNat + 1 < UInt64.size then
    some (Header.withRate (c.tip.number + 1) c.tip.epoch c.tip.rate)
  else none

/-- The transaction that makes cells out of nothing for the `n`-th time: its only input spends an
out point whose hash is the number `n`. -/
def funding (n : Nat) (cells : List Cell) : Transaction where
  inputs := [⟨⟨⟨leBytes 8 n ++ zeros 24, by simp⟩, 0⟩, Since.zero⟩]
  outputs := cells

/-- Makes cells out of nothing in the first block. -/
def fund (c : Chain) (cells : List Cell) : Transaction × Chain :=
  let t := funding (c.fundings + 1) cells
  (t, { c with fundings := c.fundings + 1 }.commit t genesis)

/-- What the cells that a transaction spends hold, when all of them are known. -/
def spentCapacity? (c : Chain) (t : Transaction) : Option Capacity := do
  let cells ← t.spent.mapM c.output?
  Capacity.sum? (cells.map Cell.capacity)

/-- The live cells with their positions, in the order of a search. -/
def inOrder (c : Chain) : Order → List (LiveCell × Nat)
  | .oldestFirst => c.live.zipIdx
  | .newestFirst => c.live.zipIdx.reverse

/-- Whether a position comes after a cursor in the order of a search. -/
def isAfter (order : Order) (after : Option Nat) (position : Nat) : Bool :=
  match order, after with
  | _, none => true
  | .oldestFirst, some p => p < position
  | .newestFirst, some p => position < p

/-- A page of a search. The cursor is the position of the page's last cell. -/
def page (c : Chain) (key : SearchKey) (order : Order) (limit : Nat) (after : Option Nat) : Page :=
  let found := ((c.inOrder order).filter fun (cell, i) =>
    isAfter order after i && key.accepts cell).take limit
  { cells := found.map fun (cell, _) => key.report cell
    cursor := (found.getLast?.map Prod.snd).getD 0 }

/-- What a deposit is worth in a block: its free capacity, grown by the accumulate rate and cut to
64 bits, and the capacity it occupies. -/
def maximumWithdraw (c : Chain) (deposit : OutPoint) (block : Hash) :
    Except QueryError Capacity := do
  let (cell, made) ← orElse (.unknownDeposit deposit) do
    let t ← c.transaction? deposit.txHash
    let cell ← t.transaction.outputs[deposit.index.toNat]?
    let made ← c.header? (← t.block)
    return (cell, made)
  let spent ← orElse (.unknownBlock block) (c.header? block)
  if spent.number ≤ made.number then throw .withdrawingBeforeDeposit
  let occupied ← orElse .capacityOverflow cell.occupied?
  let free ← orElse .capacityOverflow (Capacity.sub? cell.capacity occupied)
  if made.rate = 0 then throw .undefinedWorth
  let grown := UInt64.ofNat (free.toNat * spent.rate.toNat / made.rate.toNat)
  orElse .capacityOverflow (Capacity.add? grown occupied)
where
  /-- A value that has to be there. -/
  orElse {α : Type} (e : QueryError) : Option α → Except QueryError α
    | some a => .ok a
    | none => .error e

/-- The chain as a ledger. Its state is the number of pages it has handed out. -/
def ledger (c : Chain) : Ledger Nat where
  tip := pure c.tip
  header hash := pure (c.header? hash)
  transaction hash := pure (c.transaction? hash)
  cells key order limit after := do
    modify (· + 1)
    return c.page key order limit after
  maximumWithdraw deposit block := ExceptT.mk (pure (c.maximumWithdraw deposit block))
  span := c.live.length

end Chain

end CellTx
