import CellTx.Draft
import CellTx.Ledger.Basic
import CellTx.Signing

/-!
# Flows

A transaction is built in seven phases of one order (specification, section 4.1): look things up,
set the version, name header deps and cell deps, add the outputs, add the inputs that cover them,
settle the change. A `Flow` says what each phase does; `Flow.assemble` runs them, stops at the first
that fails with nothing but its failure, and then groups the inputs by the locks that sign them.

The flows are `transferFlow`, `depositFlow`, `withdrawFlow`, `claimFlow`, `issueFlow`,
`claimChequesFlow` and `withdrawChequeFlow`. What all of them have in common is said once, of the
type `Construction` in `CellTx.Proofs.Construction`.

Out of scope: signing and submitting what was built.
-/

namespace CellTx

/-- What the phases of a construction do. `Plan` is what the first phase finds out. -/
structure Flow (σ Plan : Type) where
  init : Build σ Plan
  setVersion : Plan → Draft → Build σ Draft := fun _ d => pure (d.setVersion 0)
  setHeaderDeps : Plan → Draft → Build σ Draft := fun _ d => pure d
  setCellDeps : Plan → Draft → Build σ Draft
  /-- Adds the outputs that are promised, and the change outputs. -/
  buildOutputs : Plan → Draft → Build σ Draft
  /-- Adds inputs until the outputs are covered. -/
  buildInputs : Plan → Draft → Build σ Draft
  settleChange : Plan → Draft → Build σ Draft
  /-- The locks that will sign, known before any input is chosen. -/
  signingLocks : Plan → List Script

/-- An unsigned transaction. -/
structure Assembled where
  transaction : Transaction
  groups : List SigningGroup
  fee : Capacity
deriving DecidableEq

namespace Flow

variable {σ Plan : Type}

/-- The finished draft of a flow. -/
def draft (flow : Flow σ Plan) : Build σ (Plan × Draft) := do
  let plan ← flow.init
  let d ← flow.setVersion plan Draft.empty
  let d ← flow.setHeaderDeps plan d
  let d ← flow.setCellDeps plan d
  let d ← flow.buildOutputs plan d
  let d ← flow.buildInputs plan d
  let d ← flow.settleChange plan d
  return (plan, d)

/-- The transaction of a flow, with the groups that sign it and the fee it pays. -/
def assemble (flow : Flow σ Plan) : Build σ Assembled := do
  let (plan, d) ← flow.draft
  let fee ← Build.ofExcept d.fee
  return {
    transaction := d.transaction
    groups := groupInputs (flow.signingLocks plan) (d.inputs.map (·.cell.lock))
    fee := fee }

end Flow

end CellTx
