/-!
# What a binary form refuses

The causes for which bytes are not a value, or a value has no bytes, with the lengths and numbers
that their words name (specification, section 7). The decoders that give these errors stand with the
values: `TokenAmount.ofData`, `accumulateRate`, `Epoch.ofNats`, `Epoch.resolve` and
`ChequeArgs.ofBytes`; a deposit of rate zero is refused by `Dao.compensation`.

Out of scope: the binary forms that are only written, which refuse nothing (`CellTx.Molecule`).
-/

namespace CellTx

/-- Why bytes cannot be read, or a value cannot be written. -/
inductive EncodingError where
  /-- A token cell's data is too short for an amount. -/
  | tokenData (length : Nat)
  /-- A header's DAO field has not 32 bytes. -/
  | daoField (length : Nat)
  /-- The accumulate rate of a deposit is zero. -/
  | zeroRate
  /-- An epoch number needs more than 24 bits. -/
  | epochNumber (number : Nat)
  /-- An index within an epoch needs more than 16 bits. -/
  | epochIndex (index : Nat)
  /-- The length of an epoch needs more than 16 bits. -/
  | epochLength (length : Nat)
  /-- A packed epoch has not 8 bytes. -/
  | packedEpoch (length : Nat)
  /-- The args of a cheque lock have not 40 bytes. -/
  | chequeArgs (length : Nat)
deriving DecidableEq

namespace EncodingError

/-- The error in words. -/
def message : EncodingError → String
  | tokenData length => s!"sUDT data should hold at least 16 bytes, got {length}"
  | daoField length => s!"dao field must be 32 bytes, got {length}"
  | zeroRate => "deposit accumulate rate is zero"
  | epochNumber number => s!"epoch number {number} exceeds 16777215"
  | epochIndex index => s!"epoch index {index} exceeds u16"
  | epochLength length => s!"epoch length {length} exceeds u16"
  | packedEpoch length => s!"packed epoch must be 8 bytes, got {length}"
  | chequeArgs length => s!"cheque args must be 40 bytes, got {length}"

end EncodingError

end CellTx
