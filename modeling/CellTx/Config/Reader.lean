import CellTx.Config.Basic
import CellTx.Toml.Document

/-!
# Reading a configuration

A configuration is a TOML text with the settings as keys (specification, section 12). A setting that
is missing has its default, an unknown or repeated one is refused. A group of settings may also be
an array, the settings in their order; a named value may also be a table in braces whose only key is
the name and holds an empty table in braces.

`load` reads bytes and validates what it read, `loadFile` does so with bytes that may be missing.
Which configurations come back from the text that is written of them is `Config.readsBack_iff` in
`CellTx.Proofs.ReadBack`.

Out of scope: where and why a text is malformed, and the file system.
-/

namespace CellTx.Config

open Toml

/-- The settings of a group by name, when each is known and none is repeated. -/
def settings? (names : List String) : Value → Option Entries
  | .table _ entries =>
    if entries.all (fun e => names.contains e.1) && (entries.map Prod.fst).Nodup then some entries
    else none
  | .array items => if items.length ≤ names.length then some (names.zip items) else none
  | _ => none

/-- A number below a bound. -/
def nat? (bound : Nat) : Value → Option Nat
  | .integer n => if 0 ≤ n && n < bound then some n.toNat else none
  | _ => none

/-- A named value. -/
def named? {α : Type} (names : List (String × α)) : Value → Option α
  | .string s => names.lookup s
  | .table .inline [(s, .table .inline [])] => names.lookup s
  | _ => none

/-- A hash: `0x` and 64 hexadecimal digits. -/
def hash? : Value → Option Hash
  | .string s =>
    match s.toList with
    | '0' :: 'x' :: digits => (Hex.read? digits).bind Hash.ofBytes?
    | _ => none
  | _ => none

/-- A setting that must be there. -/
def required {α : Type} (read : Value → Option α) (name : String) (entries : Entries) : Option α :=
  (entries.lookup name).bind read

/-- A setting that has a default. -/
def optional {α : Type} (read : Value → Option α) (default : α) (name : String)
    (entries : Entries) : Option α :=
  match entries.lookup name with
  | some v => read v
  | none => some default

/-- Where a program is deployed. -/
def deployment? (v : Value) : Option Deployment := do
  let entries ← settings? ["code_hash", "hash_type", "tx_hash", "index", "dep_type"] v
  return {
    codeHash := ← required hash? "code_hash" entries
    hashType := ← required (named? HashType.names) "hash_type" entries
    txHash := ← required hash? "tx_hash" entries
    index := UInt32.ofNat (← required (nat? UInt32.size) "index" entries)
    depType := ← required (named? DepType.names) "dep_type" entries }

/-- Where the system scripts are deployed. -/
def scripts? (v : Value) : Option SystemScripts := do
  let entries ← settings? ["secp256k1_blake160", "dao", "sudt", "cheque"] v
  return {
    secp256k1Blake160 := ← required deployment? "secp256k1_blake160" entries
    dao := ← required deployment? "dao" entries
    sudt := ← required deployment? "sudt" entries
    cheque := ← required deployment? "cheque" entries }

/-- A 64-bit number. -/
def word? (v : Value) : Option UInt64 := (nat? UInt64.size v).map UInt64.ofNat

/-- The capacities that cheques need. -/
def chequeConfig? (v : Value) : Option ChequeConfig := do
  let entries ← settings? ["cell_capacity", "udt_cell_capacity"] v
  let default : ChequeConfig := {}
  return {
    cellCapacity := ← optional word? default.cellCapacity "cell_capacity" entries
    tokenCellCapacity := ← optional word? default.tokenCellCapacity "udt_cell_capacity" entries }

/-- All settings. -/
def ofEntries? (entries : Entries) : Option Config := do
  let entries ← settings? ["network", "fee_rate", "search_page_size", "cheque", "scripts"]
    (.table .section entries)
  let default : Config := {}
  return {
    network := ← optional (named? Network.names) default.network "network" entries
    feeRate := ← optional word? default.feeRate "fee_rate" entries
    searchPageSize :=
      ← optional (fun v => (nat? UInt32.size v).map UInt32.ofNat) default.searchPageSize
        "search_page_size" entries
    cheque := ← optional chequeConfig? default.cheque "cheque" entries
    scripts := ← optional (fun v => (scripts? v).map some) none "scripts" entries }

/-- The settings of a text that is one header and nothing else: the network, when the header begins
with that key and ends with the network's name. -/
def ofLoneHeader? : List Section → Option Config
  | [root, s] =>
    if root.entries.isEmpty && s.entries.isEmpty && s.path.head? = some "network" then do
      let network ← Network.names.lookup (s.path.getLastD "")
      return { network := network }
    else none
  | _ => none

/-- The settings of a text. -/
def parse? (text : String) : Option Config := do
  let sections ← Toml.read? text
  match ofLoneHeader? sections with
  | some c => return c
  | none => ofEntries? (← Toml.root? sections)

/-- The text that some bytes are. -/
def text? (bytes : Bytes) : Option String := String.fromUTF8? ⟨bytes.toArray⟩

/-- Reads a configuration that can be worked with. -/
def load (bytes : Bytes) : Except ConfigError Config :=
  match (text? bytes).bind parse? with
  | none => .error .malformed
  | some c => do
    c.validate
    return c

/-- Reads a configuration that may be missing. -/
def loadFile : Option Bytes → Except ConfigError Config
  | none => .error .unreadable
  | some bytes => load bytes

end CellTx.Config
