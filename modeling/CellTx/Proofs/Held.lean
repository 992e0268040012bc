import CellTx.Assembler
import CellTx.Dao.Committed
import CellTx.Ledger.Node
import CellTx.Proofs.Walk

/-!
# What a node's answers say about its chain

A node may refuse and hide, but it makes nothing up. `Chain.Has` says that a chain has a cell at an
out point, live or as an output that it stores; a chain is `Stored` when its live cells all are
outputs that it stores.

Results:
* `Node.live_of_reports`: a cell that a node reports is live on its chain.
* `Node.of_load`, `Node.output?_of_load`: a cell that is loaded is an output that the chain stores,
  of a transaction that the chain has committed in a known block.
* `Chain.Has.output?`: on a stored chain a cell is determined by its out point.

Out of scope: what a node leaves out of its answers.
-/

namespace CellTx

/-! ## Chains -/

namespace Chain

/-- A chain has a cell at an out point: it is live there, or a stored transaction made it. -/
def Has (c : Chain) (p : OutPoint) (cell : Cell) : Prop :=
  (∃ x ∈ c.live, x.outPoint = p ∧ x.cell = cell) ∨ c.output? p = some cell

/-- Every live cell is an output of a stored transaction. -/
def Stored (c : Chain) : Prop := ∀ x ∈ c.live, c.output? x.outPoint = some x.cell

theorem Has.output? {c : Chain} {p : OutPoint} {cell : Cell} (h : c.Has p cell) (hs : c.Stored) :
    c.output? p = some cell := by
  rcases h with ⟨x, hx, rfl, rfl⟩ | h
  · exact hs x hx
  · exact h

/-- What a page reports is live and matches the script of the search. -/
theorem mem_page {c : Chain} {key : SearchKey} {order : Order} {limit : Nat} {after : Option Nat}
    {x : LiveCell} (h : x ∈ (c.page key order limit after).cells) :
    ∃ y ∈ c.live, key.accepts y = true ∧ x = key.report y := by
  obtain ⟨⟨y, i⟩, hy, rfl⟩ := List.mem_map.mp h
  obtain ⟨hmem, hcond⟩ := List.mem_filter.mp (List.mem_of_mem_take hy)
  rw [Bool.and_eq_true] at hcond
  refine ⟨y, ?_, hcond.2, rfl⟩
  cases order with
  | oldestFirst => exact List.fst_mem_of_mem_zipIdx hmem
  | newestFirst => exact List.fst_mem_of_mem_zipIdx (List.mem_reverse.mp hmem)

/-- The chain with one cell. -/
def oneCell (cell : Cell) : Chain := (Chain.new.fund [cell]).2

theorem live_oneCell (cell : Cell) : ∃ x : LiveCell, (oneCell cell).live = [x] ∧ x.cell = cell :=
  ⟨_, rfl, rfl⟩

theorem stored_oneCell (cell : Cell) : (oneCell cell).Stored := by
  intro x hx
  have hlive : (oneCell cell).live =
      [⟨⟨(funding 1 [cell]).hash, 0⟩, cell, genesis.number, 1⟩] := rfl
  have htx : (oneCell cell).transaction? (funding 1 [cell]).hash =
      some ⟨funding 1 [cell], some genesis.hash⟩ := List.lookup_cons_self
  rw [hlive] at hx
  obtain rfl := List.mem_singleton.mp hx
  rw [output?, htx]
  rfl

end Chain

/-- A lock of the main network, whose args are 20 times the same byte. -/
def Script.ofByte (b : UInt8) : Script :=
  SystemScripts.mainnet.secp256k1Blake160.script (List.replicate 20 b)

/-- The assembler of the default configuration that asks a chain. -/
def Assembler.onChain (c : Chain) : Assembler Nat :=
  withScripts {} SystemScripts.mainnet c.ledger

/-! ## Nodes -/

namespace Node

variable {n : Node}

/-- A node without faults is its chain. -/
theorem ledger_chain (c : Chain) : ({ chain := c } : Node).ledger = c.ledger := by
  have hcells : ({ chain := c } : Node).ledger.cells = c.ledger.cells := by
    funext key order limit after
    cases after <;> rfl
  have hrest : ({ chain := c } : Node).ledger =
      { c.ledger with cells := ({ chain := c } : Node).ledger.cells } := rfl
  rw [hrest, hcells]

/-- The search that a node makes of a search: it may forget the filter. -/
def searched (n : Node) (key : SearchKey) : SearchKey :=
  if n.faults.ignoresFilter then { key with filter := none } else key

theorem page_of_cells {key : SearchKey} {order : Order} {limit : Nat} {after : Option Nat}
    {page : Page} (h : Yields (n.ledger.cells key order limit after) page) :
    page = n.chain.page (n.searched key) order limit after := by
  obtain ⟨_, -, h⟩ := h.bind
  -- further cells are asked for by a question of their own
  cases after with
  | none =>
    obtain ⟨_, -, h⟩ := h.bind
    obtain ⟨_, -, h⟩ := h.bind
    exact h.of_pure
  | some p =>
    obtain ⟨_, -, h⟩ := h.bind
    obtain ⟨_, -, h⟩ := h.bind
    obtain ⟨_, -, h⟩ := h.bind
    exact h.of_pure

theorem live_of_reports {key : SearchKey} {x : LiveCell} (hlock : key.role = .lock)
    (hdata : key.withData = true) (h : n.ledger.Reports key x) :
    x ∈ n.chain.live ∧ key.matchesScript x.cell.lock = true := by
  obtain ⟨order, limit, after, page, hp, hx⟩ := h
  rw [page_of_cells hp] at hx
  obtain ⟨y, hy, hacc, rfl⟩ := Chain.mem_page hx
  rw [SearchKey.accepts, Bool.and_eq_true] at hacc
  have hscript := hacc.1
  unfold searched at hscript ⊢
  split
  · rename_i hf
    rw [if_pos hf] at hscript
    simp only [SearchKey.scriptsOf, SearchKey.report, hlock, hdata, if_true, Option.any_some]
      at hscript ⊢
    exact ⟨hy, hscript⟩
  · rename_i hf
    rw [if_neg hf] at hscript
    simp only [SearchKey.scriptsOf, SearchKey.report, hlock, hdata, if_true, Option.any_some]
      at hscript ⊢
    exact ⟨hy, hscript⟩

theorem transaction?_of_transaction {hash : Hash} {t : CommittedTransaction}
    (h : Yields (n.ledger.transaction hash) (some t)) :
    ∃ t', n.chain.transaction? hash = some t' ∧ t'.transaction = t.transaction ∧
      ∀ block, t.block = some block → t'.block = some block := by
  obtain ⟨_, -, h⟩ := h.bind
  obtain ⟨_, -, h⟩ := h.bind
  split at h
  · exact nomatch h.of_pure
  obtain ⟨found, hfound, h⟩ := h.bind
  rw [hfound.of_pure] at h
  split at h
  · obtain ⟨t', ht, rfl⟩ := Option.map_eq_some_iff.mp h.of_pure.symm
    exact ⟨t', ht, rfl, fun block hb => nomatch hb⟩
  · exact ⟨t, h.of_pure.symm, rfl, fun block hb => hb⟩

theorem header?_of_header {hash : Hash} {header : Header}
    (h : Yields (n.ledger.header hash) (some header)) : n.chain.header? hash = some header := by
  obtain ⟨_, -, h⟩ := h.bind
  obtain ⟨_, -, h⟩ := h.bind
  split at h
  · exact nomatch h.of_pure
  · exact h.of_pure.symm

/-- What is known of a loaded cell. -/
theorem of_load {p : OutPoint} {c : Dao.CommittedCell}
    (h : Yields (Dao.CommittedCell.load n.ledger p) c) :
    c.outPoint = p ∧ ∃ t block, n.chain.transaction? p.txHash = some t ∧ t.block = some block ∧
      t.transaction = c.transaction ∧ n.chain.header? block = some c.header ∧
      c.transaction.outputs[p.index.toNat]? = some c.cell := by
  obtain ⟨found, hfound, h⟩ := h.bind
  obtain ⟨t, ht, h⟩ := h.bind
  obtain ⟨block, hblock, h⟩ := h.bind
  obtain ⟨header?, hheader, h⟩ := h.bind
  obtain ⟨header, hdemand, h⟩ := h.bind
  obtain ⟨cell, hcell, h⟩ := h.bind
  obtain rfl := h.of_pure
  rw [ht.of_demand] at hfound
  rw [hdemand.of_demand] at hheader
  obtain ⟨t', ht', htx, hb⟩ := transaction?_of_transaction (yields_ask.mp hfound)
  exact ⟨rfl, t', block, ht', hb block hblock.of_demand, htx,
    header?_of_header (yields_ask.mp hheader), hcell.of_demand⟩

theorem output?_of_load {p : OutPoint} {c : Dao.CommittedCell}
    (h : Yields (Dao.CommittedCell.load n.ledger p) c) :
    c.outPoint = p ∧ n.chain.output? p = some c.cell := by
  obtain ⟨hp, t, block, ht, -, htx, -, hcell⟩ := of_load h
  refine ⟨hp, ?_⟩
  rw [← htx] at hcell
  rw [Chain.output?, ht]
  exact hcell

end Node

end CellTx
