import CellTx.SystemScripts

/-!
# Configuration

What an assembler has to be told (specification, section 12): the network, a fee rate, the page size
of searches, the capacities of the cells that cheques need, and where the system scripts are
deployed. A configuration may hold anything; `Config.validate` says whether it can be worked with,
and `ConfigError.message` why not.

Results:
* `Config.validate_eq_ok_iff`: what a valid configuration comes to. The fee rate is not among what
  is checked.

Out of scope: whether the system scripts that are given are those of the network.
-/

namespace CellTx

/-- The chain that transactions are built for. -/
inductive Network where
  | mainnet
  | testnet
  /-- A local chain, whose system scripts have to be given. -/
  | dev
deriving DecidableEq

namespace Network

/-- The name of a network. -/
def name : Network → String
  | mainnet => "mainnet"
  | testnet => "testnet"
  | dev => "dev"

/-- The networks by name. -/
def names : List (String × Network) :=
  [("mainnet", mainnet), ("testnet", testnet), ("dev", dev)]

/-- The known deployment of the system scripts. -/
def scripts? : Network → Option SystemScripts
  | mainnet => some SystemScripts.mainnet
  | testnet => some SystemScripts.testnet
  | dev => none

end Network

/-- Why a configuration cannot be used. -/
inductive ConfigError where
  /-- There is nothing to read. -/
  | unreadable
  /-- The text is not that of a configuration. -/
  | malformed
  | zeroPageSize
  /-- Issued cheque cells would be below what they occupy. -/
  | chequeCellTooSmall
  /-- Token cells would be below what they occupy. -/
  | tokenCellTooSmall
  /-- A local chain's system scripts are not given. -/
  | scriptsMissing
  /-- No deployment of the system scripts is known. -/
  | scriptsUnknown (network : Network)
deriving DecidableEq

/-- The capacities of cells that cheques need, in shannons. -/
structure ChequeConfig where
  /-- The capacity of an issued cheque cell. -/
  cellCapacity : UInt64 := 16200000000
  /-- The capacity of a token cell. -/
  tokenCellCapacity : UInt64 := 14200000000
deriving DecidableEq

/-- What an assembler has to be told. -/
structure Config where
  network : Network := .mainnet
  /-- Shannons per thousand bytes. -/
  feeRate : UInt64 := 1000
  /-- How many cells one page of a search asks for. -/
  searchPageSize : UInt32 := 100
  cheque : ChequeConfig := {}
  /-- The system scripts, where they are not the network's. -/
  scripts : Option SystemScripts := none
deriving DecidableEq

namespace Config

/-- What a cheque cell occupies: 40 bytes of lock args, a token type and sixteen bytes of data. -/
def minChequeCell : Nat := 162 * 100000000

/-- What a token cell under a lock with twenty bytes of args occupies. -/
def minTokenCell : Nat := 142 * 100000000

/-- Whether the configuration can be worked with. -/
def validate (c : Config) : Except ConfigError Unit :=
  if c.searchPageSize = 0 then .error .zeroPageSize
  else if c.cheque.cellCapacity.toNat < minChequeCell then .error .chequeCellTooSmall
  else if c.cheque.tokenCellCapacity.toNat < minTokenCell then .error .tokenCellTooSmall
  else if c.scripts.isNone && c.network = .dev then .error .scriptsMissing
  else .ok ()

/-- What a valid configuration comes to. -/
theorem validate_eq_ok_iff {c : Config} :
    c.validate = .ok () ↔
      c.searchPageSize ≠ 0 ∧ minChequeCell ≤ c.cheque.cellCapacity.toNat ∧
        minTokenCell ≤ c.cheque.tokenCellCapacity.toNat ∧
          (c.scripts = none → c.network ≠ .dev) := by
  unfold validate
  split
  · exact iff_of_false (fun h => by cases h) fun h => h.1 ‹_›
  split
  · exact iff_of_false (fun h => by cases h) fun h => Nat.not_le_of_lt ‹_› h.2.1
  split
  · exact iff_of_false (fun h => by cases h) fun h => Nat.not_le_of_lt ‹_› h.2.2.1
  rename_i hpage hcheque htoken
  split
  · rename_i hscripts
    rw [Bool.and_eq_true, Option.isNone_iff_eq_none, decide_eq_true_eq] at hscripts
    exact iff_of_false (fun h => by cases h) fun h => h.2.2.2 hscripts.1 hscripts.2
  · rename_i hscripts
    rw [Bool.and_eq_true, Option.isNone_iff_eq_none, decide_eq_true_eq, not_and] at hscripts
    exact iff_of_true rfl
      ⟨hpage, Nat.le_of_not_lt hcheque, Nat.le_of_not_lt htoken, hscripts⟩

/-- The system scripts in effect: those given, else those known for the network. -/
def effectiveScripts (c : Config) : Except ConfigError SystemScripts :=
  match c.scripts, c.network.scripts? with
  | some s, _ => .ok s
  | none, some s => .ok s
  | none, none => .error (.scriptsUnknown c.network)

end Config

namespace ConfigError

/-- The error in words. -/
def message : ConfigError → String
  | unreadable => "failed to read config file"
  | malformed => "failed to parse config"
  | zeroPageSize => "invalid config: search_page_size should be greater than 0"
  | chequeCellTooSmall =>
    s!"invalid config: cheque.cell_capacity should be at least {Config.minChequeCell}"
  | tokenCellTooSmall =>
    s!"invalid config: cheque.udt_cell_capacity should be at least {Config.minTokenCell}"
  | scriptsMissing => "invalid config: scripts must be configured for the dev network"
  | scriptsUnknown network => s!"invalid config: no system scripts known for {network.name}"

end ConfigError

end CellTx
