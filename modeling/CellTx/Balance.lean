import CellTx.Assembler
import CellTx.Token

/-!
# Balance

Inputs must cover outputs and fee (specification, sections 4.2 and 4.3). The outputs are fixed
first; then live cells are spent one by one until the draft is covered, the fee told anew after each
because every input makes the transaction larger.

* `measure` says where a draft stands: what it has collected, what is required without the change,
  and what the change would occupy.
* `Balance.isSufficient` is when to stop. With a change output nothing may be left over, or what
  funds the change; without one something has to be. `Balance.isExact` is what else will do once the
  cells have run out.
* `collectCapacity` and `collectTokens` spend plain cells and cells of a token, in the order of the
  searches. A cell that is spent already, or is of another kind, is passed over; its lock is not
  looked at again.
* `settleTokenChange` and `settleChange` give what is left over to a change output, or remove it
  when that is too little.

Results about these are in `CellTx.Proofs.Balance` (what a pass spends), `CellTx.Proofs.Enough` and
`CellTx.Proofs.TokenPass` (it is the least that suffices), `CellTx.Proofs.Settling` (the change is
exact) and `CellTx.Proofs.Shortages` (when a shortage that is told is one).

Out of scope: choosing cells so that fees are low or cells few, and logging.
-/

namespace CellTx

/-- Where a draft stands: what its inputs are worth, what they have to cover, and what its change
output would occupy. -/
structure Balance where
  collected : Nat
  required : Nat
  changeOccupied : Option Nat
deriving DecidableEq

namespace Balance

/-- What the inputs leave over, when they cover what is required. -/
def leftover? (b : Balance) : Option Nat :=
  if b.required ≤ b.collected then some (b.collected - b.required) else none

/-- Whether nothing more has to be spent: what is left over is nothing or funds the change output,
or, without a change output, is something. -/
def isSufficient (b : Balance) : Bool :=
  match b.leftover?, b.changeOccupied with
  | none, _ => false
  | some left, some occupied => left = 0 || occupied ≤ left
  | some left, none => 0 < left

/-- Whether nothing is owed and nothing is left over, in a draft without change output. -/
def isExact (b : Balance) : Bool := b.changeOccupied.isNone && b.leftover? = some 0

/-- The failure to cover what is required. -/
def shortfall (b : Balance) : Failure := .insufficientCapacity b.required b.collected

end Balance

/-- The cells that a pass over some searches spent. -/
structure Collected where
  capacity : Capacity := 0
  cells : List LiveCell := []
deriving DecidableEq

/-- Adds a cell. -/
def Collected.add (got : Collected) (c : LiveCell) : Except Failure Collected :=
  match Capacity.add? got.capacity c.cell.capacity with
  | some capacity => .ok { capacity := capacity, cells := got.cells ++ [c] }
  | none => .error .capacityOverflow

namespace Assembler

variable {σ : Type}

/-- Where a draft stands in its current shape. -/
def measure (a : Assembler σ) (d : Draft) : Build σ Balance := do
  let fee ← a.estimate d
  let committed ← Build.ofExcept d.committedCapacity
  let changeOccupied ← match d.changeOutput? with
    | none => pure none
    | some c => do
      let occupied ← Build.demand .capacityOverflow c.occupied?
      pure (some occupied.toNat)
  let collected ← Build.ofExcept d.inputsCapacity
  return ⟨collected.toNat, committed.toNat + fee.toNat, changeOccupied⟩

/-- Spends plain cells of the streams until the draft is covered, in at most `fuel` rounds. -/
def collectCapacityWithin (a : Assembler σ) (bound : Nat) :
    Nat → Collected → Draft → List CellStream → Build σ (Collected × Draft)
  | 0, _, _, _ => throw (.defect .endlessSearch)
  | fuel + 1, got, d, streams => do
    let b ← a.measure d
    if b.isSufficient then return (got, d)
    let accept := fun c : LiveCell => !d.spends c.outPoint && c.cell.isPlain
    match ← CellStream.find a.ledger accept bound streams with
    | (some c, streams) => do
      let got ← Build.ofExcept (got.add c)
      collectCapacityWithin a bound fuel got (d.consume c) streams
    | (none, _) => if b.isExact then return (got, d) else throw b.shortfall

/-- Spends plain cells of the streams, in order, until the draft is covered. -/
def collectCapacity (a : Assembler σ) (d : Draft) (streams : List CellStream) :
    Build σ (Collected × Draft) :=
  let bound := CellStream.bound a.ledger streams
  a.collectCapacityWithin bound bound {} d streams

/-- Spends cells of a token until they hold the required amount, in at most `fuel` rounds. -/
def collectTokensWithin (a : Assembler σ) (bound : Nat) (type : Script) (required : TokenAmount) :
    Nat → Collected × TokenAmount → Draft → List CellStream →
      Build σ ((Collected × TokenAmount) × Draft)
  | 0, _, _, _ => throw (.defect .endlessSearch)
  | fuel + 1, (got, amount), d, streams => do
    if required ≤ amount then return ((got, amount), d)
    let accept := fun c : LiveCell => !d.spends c.outPoint && c.cell.hasType type
    match ← CellStream.find a.ledger accept bound streams with
    | (some c, streams) => do
      let held ← Build.decoded (TokenAmount.ofData c.cell.data)
      let amount ← Build.demand .collectedTokensTooLarge (TokenAmount.add? amount held)
      let got ← Build.ofExcept (got.add c)
      collectTokensWithin a bound type required fuel (got, amount) (d.consume c) streams
    | (none, _) => throw (.insufficientTokens required amount)

/-- Spends cells of a token, in order, until they hold the required amount; what they hold. -/
def collectTokens (a : Assembler σ) (d : Draft) (type : Script) (required : TokenAmount)
    (streams : List CellStream) : Build σ ((Collected × TokenAmount) × Draft) :=
  let bound := CellStream.bound a.ledger streams
  a.collectTokensWithin bound type required bound ({}, 0) d streams

/-- Gives the change output what the inputs leave over, or removes it when that is too little. -/
def settleChange (a : Assembler σ) (d : Draft) : Build σ Draft :=
  match d.change with
  | none => pure d
  | some i => do
    let b ← a.measure d
    let left ← Build.demand b.shortfall b.leftover?
    let change ← Build.demand .capacityOverflow (Capacity.ofNat? left)
    let occupied ← Build.ofExcept (d.occupied i)
    if occupied ≤ change then Build.ofExcept (d.setCapacity i change)
    else Build.ofExcept (d.removeOutput i)

end Assembler

/-- Writes the tokens left over into an output, or removes it when there are none. -/
def Draft.settleTokenChange (d : Draft) (i : Nat) (collected required : TokenAmount) :
    Except Failure Draft :=
  if collected < required then .error (.insufficientTokens required collected)
  else if collected = required then d.removeOutput i
  else d.setData i (TokenAmount.data (collected - required))

end CellTx
