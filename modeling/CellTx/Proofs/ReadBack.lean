import CellTx.Config.Reader
import CellTx.Proofs.WrittenToml

/-!
# Configurations that are read back

The text of a configuration is settings and groups of them, so that it is read as the sections that
these make, whose entries are those of the configuration again (specification, sections 12 and 13).
One thing stands between: an amount has 64 bits, and an integer of a text has 63 and a sign.

Results:
* `Config.toText_eq`: the text as settings and blocks.
* `Config.read?_toText`, `Config.parse?_toText`: what it is read as.
* `Config.ofEntries?_allEntries`: the entries are those of the configuration, one lemma for each
  reader.
* `Config.readsBack_iff`: a configuration that can be worked with is read back exactly when its
  amounts are `Narrow`.
* `Config.not_readsBack_wideRate`: a valid one that is not.

Out of scope: texts that no configuration was written to.
-/

namespace CellTx

open Toml

/-! ## Hexadecimal text -/

namespace Hex

theorem value?_digit {n : Nat} (h : n < 16) : value? (digit n) = some n := by
  have hall : ∀ m < 16, value? (digit m) = some m := by decide
  exact hall n h

theorem read?_write (l : Bytes) : read? (write l) = some l := by
  induction l with
  | nil => rfl
  | cons b l ih =>
    have hb := b.toNat_lt
    have hvalue : UInt8.ofNat (16 * (b.toNat / 16) + b.toNat % 16) = b := by
      rw [Nat.div_add_mod, UInt8.ofNat_toNat]
    rw [write, List.flatMap_cons]
    change read? (digit (b.toNat / 16) :: digit (b.toNat % 16) :: write l) = _
    rw [read?, value?_digit (by omega), value?_digit (by omega), ih]
    simp only [Option.bind_eq_bind, Option.bind_some, hvalue]
    rfl

theorem isPlain_digit {n : Nat} (h : n < 16) : isPlain (digit n) = true := by
  have hall : ∀ m < 16, isPlain (digit m) = true := by decide
  exact hall n h

theorem isPlain_write (l : Bytes) : ∀ c ∈ write l, isPlain c = true := by
  intro c hc
  obtain ⟨b, -, hc⟩ := List.mem_flatMap.mp hc
  have hb := b.toNat_lt
  rcases List.mem_cons.mp hc with rfl | hc
  · exact isPlain_digit (by omega)
  · obtain rfl := List.mem_singleton.mp hc
    exact isPlain_digit (by omega)

theorem toList_show0x (l : Bytes) : (show0x l).toList = '0' :: 'x' :: write l := by
  simp only [show0x, String.toList_append, String.toList_ofList]
  rfl

end Hex

/-! ## The text of a configuration -/

/-- The name of a network as a text. -/
def Network.plain (n : Network) : Plain :=
  ⟨n.name, by cases n <;> decide, by cases n <;> decide⟩

/-- The name of a hash type as a text. -/
def HashType.plain (t : HashType) : Plain :=
  ⟨t.name, by cases t <;> decide, by cases t <;> decide⟩

/-- The name of a dep type as a text. -/
def DepType.plain (t : DepType) : Plain :=
  ⟨t.name, by cases t <;> decide, by cases t <;> decide⟩

/-- The digits of a hash as a text. -/
def Hash.plain (h : Hash) : Plain where
  text := Hex.show0x h.bytes
  ne_nil := by
    rw [Hex.toList_show0x]
    exact List.cons_ne_nil _ _
  all_plain := by
    rw [Hex.toList_show0x, List.all_eq_true]
    exact List.forall_mem_cons.mpr ⟨by decide, List.forall_mem_cons.mpr
      ⟨by decide, Hex.isPlain_write h.bytes⟩⟩

namespace Config

/-- The settings before the first group. -/
def settings (c : Config) : List Setting := [
  ⟨{ name := "network" }, .text c.network.plain⟩,
  ⟨{ name := "fee_rate" }, .number c.feeRate.toNat⟩,
  ⟨{ name := "search_page_size" }, .number c.searchPageSize.toNat⟩]

/-- The group of the capacities that cheques need. -/
def chequeBlock (c : ChequeConfig) : Block where
  path := [{ name := "cheque" }]
  settings := [
    ⟨{ name := "cell_capacity" }, .number c.cellCapacity.toNat⟩,
    ⟨{ name := "udt_cell_capacity" }, .number c.tokenCellCapacity.toNat⟩]

/-- The group of a program's deployment. -/
def deploymentBlock (key : Key) (d : Deployment) : Block where
  path := [{ name := "scripts" }, key]
  settings := [
    ⟨{ name := "code_hash" }, .text d.codeHash.plain⟩,
    ⟨{ name := "hash_type" }, .text d.hashType.plain⟩,
    ⟨{ name := "tx_hash" }, .text d.txHash.plain⟩,
    ⟨{ name := "index" }, .number d.index.toNat⟩,
    ⟨{ name := "dep_type" }, .text d.depType.plain⟩]

/-- The groups of the system scripts. -/
def scriptsBlocks (s : SystemScripts) : List Block := [
  deploymentBlock { name := "secp256k1_blake160" } s.secp256k1Blake160,
  deploymentBlock { name := "dao" } s.dao,
  deploymentBlock { name := "sudt" } s.sudt,
  deploymentBlock { name := "cheque" } s.cheque]

/-- All groups. -/
def blocks (c : Config) : List Block :=
  chequeBlock c.cheque :: (c.scripts.map scriptsBlocks).getD []

/-- The text is those settings and groups. -/
theorem toText_eq (c : Config) :
    c.toText = joined (c.settings.map Setting.line ++ c.blocks.flatMap Block.lines) := by
  obtain ⟨network, feeRate, searchPageSize, cheque, scripts⟩ := c
  cases scripts with
  | none => rfl
  | some s => rfl

/-! ## Entries -/

/-- The entries of the settings before the first group. -/
def entries (c : Config) : Entries := [
  ("network", .string c.network.name), ("fee_rate", .integer c.feeRate.toNat),
  ("search_page_size", .integer c.searchPageSize.toNat)]

/-- The entries of the capacities that cheques need. -/
def chequeEntries (c : ChequeConfig) : Entries := [
  ("cell_capacity", .integer c.cellCapacity.toNat),
  ("udt_cell_capacity", .integer c.tokenCellCapacity.toNat)]

/-- The entries of a program's deployment. -/
def deploymentEntries (d : Deployment) : Entries := [
  ("code_hash", .string (Hex.show0x d.codeHash.bytes)), ("hash_type", .string d.hashType.name),
  ("tx_hash", .string (Hex.show0x d.txHash.bytes)), ("index", .integer d.index.toNat),
  ("dep_type", .string d.depType.name)]

/-- The entries of the system scripts. -/
def scriptsEntries (s : SystemScripts) : Entries := [
  ("secp256k1_blake160", .table .section (deploymentEntries s.secp256k1Blake160)),
  ("dao", .table .section (deploymentEntries s.dao)),
  ("sudt", .table .section (deploymentEntries s.sudt)),
  ("cheque", .table .section (deploymentEntries s.cheque))]

section Read

theorem hash?_show0x (h : Hash) : hash? (.string (Hex.show0x h.bytes)) = some h := by
  rw [hash?]
  simp only [Hex.toList_show0x, Hex.read?_write, Option.bind_some, Hash.ofBytes?, h.length_bytes,
    dif_pos]

theorem named?_network (n : Network) : named? Network.names (.string n.name) = some n := by
  cases n <;> rfl

theorem named?_hashType (t : HashType) : named? HashType.names (.string t.name) = some t := by
  cases t <;> rfl

theorem named?_depType (t : DepType) : named? DepType.names (.string t.name) = some t := by
  cases t <;> rfl

theorem nat?_integer {bound n : Nat} (h : n < bound) : nat? bound (.integer n) = some n := by
  rw [nat?, Int.toNat_natCast]
  exact if_pos (Bool.and_eq_true_iff.mpr
    ⟨decide_eq_true (Int.natCast_nonneg n), decide_eq_true (Int.ofNat_lt.mpr h)⟩)

theorem word?_integer (n : UInt64) : word? (.integer n.toNat) = some n := by
  rw [word?, nat?_integer n.toNat_lt_size, Option.map_some, UInt64.ofNat_toNat]

variable {α : Type} {read : Value → Option α} {name : String} {entries : Entries} {v : Value}
  {x : α}

theorem required_of_lookup (h : entries.lookup name = some v) (hv : read v = some x) :
    required read name entries = some x := by
  rw [required, h, Option.bind_some, hv]

theorem optional_of_lookup (h : entries.lookup name = some v) (hv : read v = some x)
    (default : α) : optional read default name entries = some x := by
  rw [optional, h]
  exact hv

end Read

theorem deployment?_entries (d : Deployment) :
    deployment? (.table .section (deploymentEntries d)) = some d := by
  have hsettings : settings? ["code_hash", "hash_type", "tx_hash", "index", "dep_type"]
      (.table .section (deploymentEntries d)) = some (deploymentEntries d) := rfl
  have hindex : required (nat? UInt32.size) "index" (deploymentEntries d) = some d.index.toNat :=
    required_of_lookup rfl (nat?_integer d.index.toNat_lt_size)
  have hcode : required hash? "code_hash" (deploymentEntries d) = some d.codeHash :=
    required_of_lookup rfl (hash?_show0x d.codeHash)
  have htype : required (named? HashType.names) "hash_type" (deploymentEntries d) =
      some d.hashType := required_of_lookup rfl (named?_hashType d.hashType)
  have htx : required hash? "tx_hash" (deploymentEntries d) = some d.txHash :=
    required_of_lookup rfl (hash?_show0x d.txHash)
  have hdep : required (named? DepType.names) "dep_type" (deploymentEntries d) =
      some d.depType := required_of_lookup rfl (named?_depType d.depType)
  rw [deployment?, hsettings]
  simp only [Option.bind_eq_bind, Option.bind_some, hcode, htype, htx, hindex, hdep,
    UInt32.ofNat_toNat]
  rfl

theorem scripts?_entries (s : SystemScripts) :
    scripts? (.table .section (scriptsEntries s)) = some s := by
  have hsettings : settings? ["secp256k1_blake160", "dao", "sudt", "cheque"]
      (.table .section (scriptsEntries s)) = some (scriptsEntries s) := rfl
  have hsecp : required deployment? "secp256k1_blake160" (scriptsEntries s) =
      some s.secp256k1Blake160 := required_of_lookup rfl (deployment?_entries s.secp256k1Blake160)
  have hdao : required deployment? "dao" (scriptsEntries s) = some s.dao :=
    required_of_lookup rfl (deployment?_entries s.dao)
  have hsudt : required deployment? "sudt" (scriptsEntries s) = some s.sudt :=
    required_of_lookup rfl (deployment?_entries s.sudt)
  have hcheque : required deployment? "cheque" (scriptsEntries s) = some s.cheque :=
    required_of_lookup rfl (deployment?_entries s.cheque)
  rw [scripts?, hsettings]
  simp only [Option.bind_eq_bind, Option.bind_some, hsecp, hdao, hsudt, hcheque]
  rfl

theorem chequeConfig?_entries (c : ChequeConfig) :
    chequeConfig? (.table .section (chequeEntries c)) = some c := by
  have hsettings : settings? ["cell_capacity", "udt_cell_capacity"]
      (.table .section (chequeEntries c)) = some (chequeEntries c) := rfl
  have hcell : ∀ default, optional word? default "cell_capacity" (chequeEntries c) =
      some c.cellCapacity := optional_of_lookup rfl (word?_integer c.cellCapacity)
  have htoken : ∀ default, optional word? default "udt_cell_capacity" (chequeEntries c) =
      some c.tokenCellCapacity := optional_of_lookup rfl (word?_integer c.tokenCellCapacity)
  rw [chequeConfig?, hsettings, Option.bind_eq_bind, Option.bind_some]
  -- the defaults stay as they are: no setting is missing
  extract_lets default
  rw [hcell, htoken]
  rfl

/-- All entries. -/
def allEntries (c : Config) : Entries :=
  c.entries ++ ("cheque", Value.table .section (chequeEntries c.cheque)) ::
    (c.scripts.map fun s => ("scripts", Value.table .section (scriptsEntries s))).toList

/-- A configuration is what its entries say. -/
theorem ofEntries?_allEntries (c : Config) : ofEntries? c.allEntries = some c := by
  have hsettings : settings? ["network", "fee_rate", "search_page_size", "cheque", "scripts"]
      (.table .section c.allEntries) = some c.allEntries := by
    rw [allEntries]
    cases c.scripts with
    | none => rfl
    | some s => rfl
  have hnetwork : ∀ default, optional (named? Network.names) default "network" c.allEntries =
      some c.network := optional_of_lookup rfl (named?_network c.network)
  have hrate : ∀ default, optional word? default "fee_rate" c.allEntries = some c.feeRate :=
    optional_of_lookup rfl (word?_integer c.feeRate)
  have hpage : ∀ default, optional (fun v => (nat? UInt32.size v).map UInt32.ofNat) default
      "search_page_size" c.allEntries = some c.searchPageSize := by
    refine optional_of_lookup rfl ?_
    rw [nat?_integer c.searchPageSize.toNat_lt_size, Option.map_some, UInt32.ofNat_toNat]
  have hcheque : ∀ default, optional chequeConfig? default "cheque" c.allEntries =
      some c.cheque := optional_of_lookup rfl (chequeConfig?_entries c.cheque)
  have hscripts : optional (fun v => (scripts? v).map some) none "scripts" c.allEntries =
      some c.scripts := by
    rw [allEntries]
    cases c.scripts with
    | none => rfl
    | some s =>
      refine optional_of_lookup rfl ?_ none
      rw [scripts?_entries, Option.map_some]
  rw [ofEntries?, hsettings]
  simp only [Option.bind_eq_bind, Option.bind_some, hnetwork, hrate, hpage, hcheque, hscripts]
  rfl

/-! ## Sections -/

/-- The sections of the text. -/
def sections (c : Config) : List Section :=
  ⟨[], false, c.entries⟩ :: ⟨["cheque"], false, chequeEntries c.cheque⟩ ::
    (c.scripts.map fun s => [
      ⟨["scripts", "secp256k1_blake160"], false, deploymentEntries s.secp256k1Blake160⟩,
      ⟨["scripts", "dao"], false, deploymentEntries s.dao⟩,
      ⟨["scripts", "sudt"], false, deploymentEntries s.sudt⟩,
      ⟨["scripts", "cheque"], false, deploymentEntries s.cheque⟩]).getD []

/-- The sections make the table of all entries. -/
theorem root?_sections (c : Config) : root? c.sections = some c.allEntries := by
  rw [sections, allEntries]
  cases c.scripts with
  | none => rfl
  | some s => rfl

/-- No amount in a configuration has more than 63 bits. -/
structure Narrow (c : Config) : Prop where
  feeRate : c.feeRate.toNat < 2 ^ 63
  cellCapacity : c.cheque.cellCapacity.toNat < 2 ^ 63
  tokenCellCapacity : c.cheque.tokenCellCapacity.toNat < 2 ^ 63

theorem narrow_iff {c : Config} :
    c.Narrow ↔ c.feeRate.toNat < 2 ^ 63 ∧ c.cheque.cellCapacity.toNat < 2 ^ 63 ∧
      c.cheque.tokenCellCapacity.toNat < 2 ^ 63 :=
  ⟨fun h => ⟨h.feeRate, h.cellCapacity, h.tokenCellCapacity⟩, fun h => ⟨h.1, h.2.1, h.2.2⟩⟩

instance (c : Config) : Decidable c.Narrow := decidable_of_iff _ narrow_iff.symm

theorem deploymentBlock_section? (key : Key) (d : Deployment) :
    (deploymentBlock key d).section? =
      some ⟨["scripts", key.name], false, deploymentEntries d⟩ := by
  have hindex : d.index.toNat < 2 ^ 63 := Nat.lt_trans d.index.toNat_lt (by decide)
  simp only [Block.section?, deploymentBlock, List.mapM_cons, List.mapM_nil, Setting.entry?,
    Scalar.value?, if_pos hindex]
  rfl

theorem chequeBlock_section? (c : ChequeConfig) :
    (chequeBlock c).section? =
      if c.cellCapacity.toNat < 2 ^ 63 ∧ c.tokenCellCapacity.toNat < 2 ^ 63 then
        some ⟨["cheque"], false, chequeEntries c⟩ else none := by
  simp only [Block.section?, chequeBlock, List.mapM_cons, List.mapM_nil, Setting.entry?,
    Scalar.value?]
  by_cases hcell : c.cellCapacity.toNat < 2 ^ 63
  · by_cases htoken : c.tokenCellCapacity.toNat < 2 ^ 63
    · rw [if_pos hcell, if_pos htoken, if_pos ⟨hcell, htoken⟩]
      rfl
    · rw [if_pos hcell, if_neg htoken, if_neg fun h => htoken h.2]
      rfl
  · have hboth : ¬ (c.cellCapacity.toNat < 2 ^ 63 ∧ c.tokenCellCapacity.toNat < 2 ^ 63) :=
      fun h => hcell h.1
    rw [if_neg hcell, if_neg hboth]
    rfl

theorem mapM_settings (c : Config) :
    c.settings.mapM Setting.entry? =
      if c.feeRate.toNat < 2 ^ 63 then some c.entries else none := by
  have hpage : c.searchPageSize.toNat < 2 ^ 63 := Nat.lt_trans c.searchPageSize.toNat_lt (by decide)
  simp only [settings, List.mapM_cons, List.mapM_nil, Setting.entry?, Scalar.value?, if_pos hpage]
  split
  · rfl
  · rfl

theorem mapM_blocks (c : Config) :
    c.blocks.mapM Block.section? =
      if c.cheque.cellCapacity.toNat < 2 ^ 63 ∧ c.cheque.tokenCellCapacity.toNat < 2 ^ 63 then
        some c.sections.tail else none := by
  have hscripts : ((c.scripts.map scriptsBlocks).getD []).mapM Block.section? =
      some c.sections.tail.tail := by
    rw [sections]
    cases c.scripts with
    | none => rfl
    | some s =>
      simp only [Option.map_some, Option.getD_some, scriptsBlocks, List.mapM_cons, List.mapM_nil,
        deploymentBlock_section?]
      rfl
  rw [blocks, List.mapM_cons, chequeBlock_section?, hscripts]
  split
  · rfl
  · rfl

/-- The text is read as its sections, unless an amount in it is too large for an integer. -/
theorem read?_toText (c : Config) :
    Toml.read? c.toText = if c.Narrow then some c.sections else none := by
  rw [toText_eq, read?_joined, mapM_settings, mapM_blocks]
  by_cases hrate : c.feeRate.toNat < 2 ^ 63
  · rw [if_pos hrate, Option.bind_some]
    split
    · rename_i hcheque
      rw [if_pos (narrow_iff.mpr ⟨hrate, hcheque⟩)]
      rfl
    · rename_i hcheque
      rw [if_neg fun h => hcheque (narrow_iff.mp h).2]
      rfl
  · rw [if_neg hrate, if_neg fun h => hrate (narrow_iff.mp h).1]
    rfl

theorem parse?_toText (c : Config) :
    parse? c.toText = if c.Narrow then some c else none := by
  have hlone : ofLoneHeader? c.sections = none := by
    rw [sections]
    cases c.scripts with
    | none => rfl
    | some s => rfl
  rw [parse?, read?_toText]
  split
  · simp only [Option.bind_eq_bind, Option.bind_some, hlone, root?_sections, ofEntries?_allEntries]
  · rfl

/-! ## Bytes -/

/-- The bytes of the text. -/
def written (c : Config) : Bytes := c.toText.toUTF8.data.toList

theorem text?_written (c : Config) : text? c.written = some c.toText := by
  rw [text?, written, Array.toArray_toList, String.fromUTF8?]
  exact dif_pos c.toText.isValidUTF8

/-- What loading the text of a configuration comes to. -/
theorem load_written (c : Config) :
    load c.written = if c.Narrow then c.validate.map fun _ => c else .error .malformed := by
  rw [load, text?_written, Option.bind_some, parse?_toText]
  by_cases h : c.Narrow
  · rw [if_pos h, if_pos h]
    dsimp only
    cases c.validate with
    | ok u => rfl
    | error e => rfl
  · rw [if_neg h, if_neg h]

/-- The text of a configuration is read as the same configuration, with the same system scripts in
effect. -/
def ReadsBack (c : Config) : Prop :=
  ∃ c', load c.written = .ok c' ∧ c' = c ∧ c'.effectiveScripts = c.effectiveScripts

/-- A configuration that can be worked with is read back from its text exactly when no amount
in it has more than 63 bits; otherwise the text is refused. -/
theorem readsBack_iff {c : Config} (hvalid : c.validate = .ok ()) :
    (c.ReadsBack ↔ c.Narrow) ∧ (¬ c.Narrow → load c.written = .error .malformed) := by
  have hload := load_written c
  rw [hvalid] at hload
  have hrefused : ¬ c.Narrow → load c.written = .error .malformed := fun h => by
    rw [hload, if_neg h]
  refine ⟨⟨fun ⟨c', hc', _⟩ => ?_, fun h => ⟨c, ?_, rfl, rfl⟩⟩, hrefused⟩
  · refine Decidable.not_not.mp fun h => ?_
    exact nomatch hc'.symm.trans (hrefused h)
  · rw [hload, if_pos h]
    rfl

/-- A local chain with the scripts of the main network, at the highest fee rate of 63 bits. -/
def localChain : Config where
  network := .dev
  feeRate := 9223372036854775807
  scripts := some .mainnet

theorem readsBack_iff_localChain :
    localChain.validate = .ok () ∧ localChain.Narrow ∧ localChain.ReadsBack := by
  have hvalid : localChain.validate = .ok () := by decide
  have hnarrow : localChain.Narrow := by decide
  exact ⟨hvalid, hnarrow, (readsBack_iff hvalid).1.mpr hnarrow⟩

/-- At a fee rate of 64 bits, a configuration that can be worked with writes a text that cannot be
read. -/
theorem not_readsBack_wideRate :
    ∃ c : Config, c.feeRate = 9223372036854775808 ∧ c.validate = .ok () ∧
      load c.written = .error .malformed ∧ ¬ c.ReadsBack := by
  have hload := load_written { feeRate := 9223372036854775808 }
  rw [if_neg (by decide)] at hload
  refine ⟨_, rfl, by decide, hload, fun ⟨c', hc', _⟩ => ?_⟩
  exact nomatch hc'.symm.trans hload

end Config

end CellTx
