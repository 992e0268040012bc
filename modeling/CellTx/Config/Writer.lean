import CellTx.Config.Basic

/-!
# Writing a configuration

A configuration as a TOML text: every setting, on a line of its own, plain settings before the
groups. System scripts that are not given are not written. Integers are written as they are, also
those from 2⁶³ on, which TOML does not have and a reader refuses (`Config.readsBack_iff`).

Out of scope: other texts of the same configuration.
-/

namespace CellTx.Config

/-- A setting. -/
def setting (name value : String) : String := name ++ " = " ++ value

/-- A value in quotes; the values that are written need no escapes. -/
def inQuotes (value : String) : String := "\"" ++ value ++ "\""

/-- A group of settings, after an empty line. -/
def group (name : String) (settings : List String) : List String :=
  ["", "[" ++ name ++ "]"] ++ settings

/-- Where a program is deployed. -/
def deploymentLines (name : String) (d : Deployment) : List String :=
  group ("scripts." ++ name) [
    setting "code_hash" (inQuotes (Hex.show0x d.codeHash.bytes)),
    setting "hash_type" (inQuotes d.hashType.name),
    setting "tx_hash" (inQuotes (Hex.show0x d.txHash.bytes)),
    setting "index" (toString d.index.toNat),
    setting "dep_type" (inQuotes d.depType.name)]

/-- Where the system scripts are deployed. -/
def scriptsLines (s : SystemScripts) : List String :=
  deploymentLines "secp256k1_blake160" s.secp256k1Blake160 ++ deploymentLines "dao" s.dao ++
    deploymentLines "sudt" s.sudt ++ deploymentLines "cheque" s.cheque

/-- The lines of the text. -/
def lines (c : Config) : List String :=
  [setting "network" (inQuotes c.network.name),
    setting "fee_rate" (toString c.feeRate.toNat),
    setting "search_page_size" (toString c.searchPageSize.toNat)] ++
  group "cheque" [
    setting "cell_capacity" (toString c.cheque.cellCapacity.toNat),
    setting "udt_cell_capacity" (toString c.cheque.tokenCellCapacity.toNat)] ++
  (c.scripts.map scriptsLines).getD []

/-- The text. -/
def toText (c : Config) : String := String.join (c.lines.map (· ++ "\n"))

end CellTx.Config
