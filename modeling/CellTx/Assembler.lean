import CellTx.Config.Basic
import CellTx.Draft
import CellTx.Fee
import CellTx.Ledger.Stream

/-!
# The assembler

Everything that building a transaction needs: a ledger to ask, an estimator of fees, and the
settings of a valid configuration (specification, sections 6 and 12). An assembler keeps nothing
between two transactions. Its calls stand in the modules of their flows: `transfer`, `deposit`,
`withdraw`, `claim`, `issueCheque`, `claimCheques` and `withdrawCheque` build, and `depositInfo`,
`depositInfoOfWithdrawing` and `depositInfoAtTip` tell what a deposit is worth.

`ofConfig` refuses a configuration that is not valid. The structure itself does not: where a result
needs a valid configuration, it says so.

Out of scope: two calls that race for one cell (specification, section 5).
-/

namespace CellTx

/-- What building a transaction needs. -/
structure Assembler (σ : Type) where
  ledger : Ledger σ
  estimator : FeeEstimator σ := Fee.bySize
  /-- Shannons per thousand bytes. -/
  feeRate : UInt64
  pageSize : UInt32
  scripts : SystemScripts
  cheque : ChequeConfig

namespace Assembler

variable {σ : Type}

/-- The settings of a configuration, with the given system scripts. -/
def withScripts (config : Config) (scripts : SystemScripts) (ledger : Ledger σ) : Assembler σ where
  ledger := ledger
  feeRate := config.feeRate
  pageSize := config.searchPageSize
  scripts := scripts
  cheque := config.cheque

/-- The assembler of a valid configuration. -/
def ofConfig (config : Config) (ledger : Ledger σ) : Except ConfigError (Assembler σ) := do
  config.validate
  return withScripts config (← config.effectiveScripts) ledger

/-- The least fee of a draft in its current shape. -/
def estimate (a : Assembler σ) (d : Draft) : Build σ Capacity :=
  Build.ask (a.estimator d.transaction a.feeRate)

/-- A walk over the cells of a search, oldest first. -/
def stream (a : Assembler σ) (key : SearchKey) : CellStream :=
  { key := key, limit := a.pageSize.toNat }

end Assembler

end CellTx
