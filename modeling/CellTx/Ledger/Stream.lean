import CellTx.Ledger.Basic

/-!
# Walking a search

A `CellStream` walks the cells of a search one by one (specification, sections 4.2 and 5). It asks
the ledger for a page only when the one before is used up; an empty page ends it, and so does an
error, which it reports once (`CellStream.next`). Several streams are walked one after the other
(`pull`).

A walk that looks for something may skip many cells, and one that wants all of them may go on for
long. `Ledger.span` bounds both (`find`, `drain`): where the ledger keeps that promise the bound is
never met, and where it does not the walk ends in `Defect.endlessSearch`.

What a walk delivers, in which order and for how many questions, is
`CellStream.calls_enumerate_search` in `CellTx.Proofs.Paging`.

Out of scope: going back, and asking for pages ahead.
-/

namespace CellTx

/-- A walk over the cells of a search. -/
structure CellStream where
  key : SearchKey
  order : Order := .oldestFirst
  /-- How many cells a page holds at most. -/
  limit : Nat
  cursor : Option Nat := none
  /-- The cells of the current page that are still to come. -/
  buffer : List LiveCell := []
  finished : Bool := false
deriving DecidableEq

namespace CellStream

variable {σ : Type}

/-- Asks for the next page. -/
def fetch (ledger : Ledger σ) (s : CellStream) : Query σ CellStream := do
  let page ← ledger.cells s.key s.order s.limit s.cursor
  if page.cells.isEmpty then return { s with finished := true }
  else return { s with cursor := some page.cursor, buffer := page.cells }

/-- The next cell, or the error that ended the walk, or nothing once the walk has ended. -/
def next (ledger : Ledger σ) (s : CellStream) :
    StateM σ (Option (Except QueryError LiveCell) × CellStream) :=
  match s.buffer with
  | c :: rest => pure (some (.ok c), { s with buffer := rest })
  | [] =>
    if s.finished then pure (none, s)
    else do
      match ← (s.fetch ledger).run with
      | .error e => pure (some (.error e), { s with finished := true })
      | .ok s =>
        match s.buffer with
        | c :: rest => pure (some (.ok c), { s with buffer := rest })
        | [] => pure (none, s)

/-- What `next` reports when it is called up to `n` times, ending with its first nothing. -/
def walk (ledger : Ledger σ) :
    Nat → CellStream → StateM σ (List (Option (Except QueryError LiveCell)))
  | 0, _ => pure []
  | n + 1, s => do
    match ← s.next ledger with
    | (none, _) => pure [none]
    | (some item, s) => return some item :: (← walk ledger n s)

/-- The next cell of several streams, each walked to its end before the one after it. -/
def pull (ledger : Ledger σ) : List CellStream → Query σ (Option LiveCell × List CellStream)
  | [] => pure (none, [])
  | s :: rest => do
    match ← s.next ledger with
    | (some (.ok c), s) => pure (some c, s :: rest)
    | (some (.error e), _) => throw e
    | (none, _) => pull ledger rest

/-- More calls of `pull` than the streams can answer with cells. -/
def bound (ledger : Ledger σ) (streams : List CellStream) : Nat :=
  streams.length * ledger.span + 1

/-- The next cell that is accepted, after at most `fuel` calls of `pull`. -/
def find (ledger : Ledger σ) (accept : LiveCell → Bool) :
    Nat → List CellStream → Build σ (Option LiveCell × List CellStream)
  | 0, _ => throw (.defect .endlessSearch)
  | fuel + 1, streams => do
    match ← Build.ask (pull ledger streams) with
    | (none, streams) => pure (none, streams)
    | (some c, streams) =>
      if accept c then pure (some c, streams) else find ledger accept fuel streams

/-- All cells of the streams, in at most `fuel` calls of `pull`. -/
def drain (ledger : Ledger σ) : Nat → List CellStream → Build σ (List LiveCell)
  | 0, _ => throw (.defect .endlessSearch)
  | fuel + 1, streams => do
    match ← Build.ask (pull ledger streams) with
    | (none, _) => pure []
    | (some c, streams) => return c :: (← drain ledger fuel streams)

end CellStream

end CellTx
