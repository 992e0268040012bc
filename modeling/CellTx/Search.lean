import CellTx.Cell

/-!
# Searching live cells

A search key describes a set of live cells (specification, section 6): by one of a cell's scripts,
and optionally by its other script and by ranges of sizes, capacity and block number.
`SearchKey.accepts` decides membership, and `SearchKey.report` is the cell as the answer shows it.

The searches that are made are `byLock`, `plainByLock` and `byLockAndType`. They compare by
`startsWith`, so that a search for a lock also accepts cells under locks whose args go on; what
follows for the cells that are spent is `Construction.spendsOwn_iff`.

Out of scope: how a service finds the cells. Paging is in `CellTx.Ledger.Chain`, walking in
`CellTx.Ledger.Stream`.
-/

namespace CellTx

/-- Which of a cell's scripts a search looks at. -/
inductive ScriptRole where
  | lock
  | type
deriving DecidableEq

/-- How a search compares that script. -/
inductive SearchMode where
  /-- The same program, with args that begin with the key's. -/
  | startsWith
  /-- The whole script. -/
  | exact
deriving DecidableEq

/-- In which order a search reports cells. -/
inductive Order where
  | oldestFirst
  | newestFirst
deriving DecidableEq

/-- The numbers from `lo` up to but not including `hi`. -/
structure HalfOpen where
  lo : Nat
  hi : Nat
deriving DecidableEq

/-- Whether a number is in the range. -/
def HalfOpen.contains (r : HalfOpen) (n : Nat) : Bool := r.lo ≤ n && n < r.hi

/-- Conditions on a cell beside the script that the search looks at. An absent condition holds. -/
structure SearchFilter where
  /-- What the other script starts with; it must be there. -/
  script : Option Script := none
  /-- The bytes that the other script occupies, zero when it is absent. -/
  scriptLength : Option HalfOpen := none
  dataLength : Option HalfOpen := none
  capacity : Option HalfOpen := none
  block : Option HalfOpen := none
deriving DecidableEq

/-- A set of live cells. -/
structure SearchKey where
  script : Script
  role : ScriptRole := .lock
  mode : SearchMode := .startsWith
  filter : Option SearchFilter := none
  withData : Bool := true
deriving DecidableEq

/-- Whether a cell, whose other script is given, meets the conditions. -/
def SearchFilter.accepts (f : SearchFilter) (other : Option Script) (c : LiveCell) : Bool :=
  f.script.all (fun p => other.any (·.startsWith p)) &&
  f.scriptLength.all (·.contains ((other.map Script.occupiedBytes).getD 0)) &&
  f.dataLength.all (·.contains c.cell.data.length) &&
  f.capacity.all (·.contains c.cell.capacity.toNat) &&
  f.block.all (·.contains c.blockNumber.toNat)

namespace SearchKey

/-- Cells under a lock. -/
def byLock (lock : Script) : SearchKey := { script := lock }

/-- Cells under a lock that have neither type nor data. -/
def plainByLock (lock : Script) : SearchKey :=
  { script := lock, filter := some { scriptLength := some ⟨0, 1⟩, dataLength := some ⟨0, 1⟩ } }

/-- Cells under a lock whose type starts with `type`. -/
def byLockAndType (lock type : Script) : SearchKey :=
  { script := lock, filter := some { script := some type } }

/-- Whether the key's script matches, in the key's mode. -/
def matchesScript (k : SearchKey) (s : Script) : Bool :=
  match k.mode with
  | .exact => s = k.script
  | .startsWith => s.startsWith k.script

/-- The script that the key looks at and the other one. -/
def scriptsOf (k : SearchKey) (c : Cell) : Option Script × Option Script :=
  match k.role with
  | .lock => (some c.lock, c.type)
  | .type => (c.type, some c.lock)

/-- Whether a live cell is in the set. -/
def accepts (k : SearchKey) (c : LiveCell) : Bool :=
  (k.scriptsOf c.cell).1.any k.matchesScript &&
  k.filter.all (·.accepts (k.scriptsOf c.cell).2 c)

/-- A cell as the search reports it: without its data when the key does not ask for it. -/
def report (k : SearchKey) (c : LiveCell) : LiveCell :=
  if k.withData then c else { c with cell := { c.cell with data := [] } }

end SearchKey

end CellTx
