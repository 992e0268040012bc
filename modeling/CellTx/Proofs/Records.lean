import CellTx.Proofs.Histories

/-!
# What a chain has recorded

A chain names its headers by their hashes as long as it is only changed by its operations
(`Chain.Built`). It has recorded a transaction in a block once it has committed it
(`Chain.Commits`).

Results:
* `Chain.Built.namesHeaders`, `Chain.Built.exists_header?`: headers are found under their hashes,
  and the block that committed a transaction is known.
* `Chain.commits_commit`, `Chain.Commits.commit`: a transaction is recorded, and stays so while no
  other transaction and no other block with these hashes comes along.
* `Chain.Rated.insertHeader`: a chain whose blocks all have accumulate rates keeps them.
* `Chain.steady_load`, `Chain.Commits.ends_load`: looking up a cell on a chain does not depend on
  what was asked before, and finds what is recorded.

Out of scope: chains that are not built by their operations, on which a header may stand under any
hash.
-/

namespace CellTx

namespace Chain

/-- A chain that its operations make, beginning with the first block. -/
inductive Built : Chain → Prop
  | new : Built new
  | insertHeader {c : Chain} (h : Header) (earlier : Built c) : Built (c.insertHeader h)
  | commit {c : Chain} (t : Transaction) (h : Header) (earlier : Built c) : Built (c.commit t h)
  | fund {c : Chain} (cells : List Cell) (earlier : Built c) : Built (c.fund cells).2

/-- Headers are stored under their own hashes. -/
def NamesHeaders (c : Chain) : Prop := ∀ hash h, c.header? hash = some h → h.hash = hash

/-- Every block that is known has an accumulate rate. -/
def Rated (c : Chain) : Prop := ∀ hash h, c.header? hash = some h → h.rate ≠ 0

/-- A transaction is recorded in a block that is known. -/
structure Commits (c : Chain) (t : Transaction) (h : Header) : Prop where
  transaction : c.transaction? t.hash = some ⟨t, some h.hash⟩
  header : c.header? h.hash = some h

/-! ## Headers -/

theorem of_header?_new {hash : Hash} {h : Header} (hh : new.header? hash = some h) :
    hash = genesis.hash ∧ h = genesis := by
  obtain ⟨before, after, hsplit, -⟩ := List.lookup_eq_some_iff.mp hh
  have hmem : (hash, h) ∈ new.headers := hsplit ▸ by simp
  exact Prod.mk.inj (List.mem_singleton.mp hmem)

theorem header?_insertHeader (c : Chain) (h : Header) (hash : Hash) :
    (c.insertHeader h).header? hash = if hash = h.hash then some h else c.header? hash := by
  unfold header? insertHeader
  rw [List.lookup_cons]
  by_cases heq : hash = h.hash
  · rw [if_pos heq, beq_iff_eq.mpr heq]
  · rw [if_neg heq, beq_false_of_ne heq]

theorem NamesHeaders.insertHeader {c : Chain} (hc : c.NamesHeaders) (g : Header) :
    (c.insertHeader g).NamesHeaders := by
  intro hash h hh
  rw [header?_insertHeader] at hh
  split at hh
  · rename_i heq
    rw [heq, Option.some.inj hh]
  · exact hc hash h hh

theorem Rated.insertHeader {c : Chain} (hc : c.Rated) {g : Header} (hg : g.rate ≠ 0) :
    (c.insertHeader g).Rated := by
  intro hash h hh
  rw [header?_insertHeader] at hh
  split at hh
  · exact Option.some.inj hh ▸ hg
  · exact hc hash h hh

theorem rate_genesis : genesis.rate = genesisRate := Header.rate_withRate _ _ _

theorem rated_new : new.Rated := by
  intro hash h hh
  obtain ⟨-, rfl⟩ := of_header?_new hh
  rw [rate_genesis]
  decide

/-- Committing and funding change the headers by the block that they insert only. -/
theorem Built.namesHeaders {c : Chain} (hc : c.Built) : c.NamesHeaders := by
  induction hc with
  | new =>
    intro hash h hh
    obtain ⟨rfl, rfl⟩ := of_header?_new hh
    rfl
  | insertHeader g _ ih => exact ih.insertHeader g
  | commit t g _ ih => exact ih.insertHeader g
  | fund cells _ ih => exact ih.insertHeader genesis

theorem exists_header?_insertHeader {c : Chain} {hash : Hash} (h : ∃ g, c.header? hash = some g)
    (g : Header) : ∃ g', (c.insertHeader g).header? hash = some g' := by
  rw [header?_insertHeader]
  split
  · exact ⟨g, rfl⟩
  · exact h

/-! ## Transactions -/

theorem exists_header?_commit {c : Chain} {u : Transaction} {g : Header} {hash block : Hash}
    {t : CommittedTransaction}
    (h : c.transaction? hash = some t → ∃ h, c.header? block = some h)
    (ht : (c.commit u g).transaction? hash = some t) (hb : t.block = some block) :
    ∃ h, (c.commit u g).header? block = some h := by
  change ∃ h, (c.insertHeader g).header? block = some h
  rw [transaction?_commit] at ht
  split at ht
  · obtain rfl := Option.some.inj ht
    obtain rfl := Option.some.inj hb
    exact ⟨g, by rw [header?_insertHeader, if_pos rfl]⟩
  · exact exists_header?_insertHeader (h ht) g

/-- The block that committed a transaction is known. -/
theorem Built.exists_header? {c : Chain} (hc : c.Built) {hash block : Hash}
    {t : CommittedTransaction} (ht : c.transaction? hash = some t) (hb : t.block = some block) :
    ∃ h, c.header? block = some h := by
  induction hc with
  | new => exact nomatch ht
  | insertHeader g _ ih => exact exists_header?_insertHeader (ih ht) g
  | commit u g _ ih => exact exists_header?_commit ih ht hb
  | fund cells _ ih => exact exists_header?_commit ih ht hb

theorem commits_commit (c : Chain) (t : Transaction) (h : Header) : (c.commit t h).Commits t h :=
  ⟨List.lookup_cons_self, List.lookup_cons_self⟩

/-- A record stays while its hashes name nothing else. -/
theorem Commits.commit {c : Chain} {t u : Transaction} {h g : Header} (hc : c.Commits t h)
    (hu : u.hash ≠ t.hash) (hg : g.hash = h.hash → g = h) : (c.commit u g).Commits t h := by
  constructor
  · change ((u.hash, CommittedTransaction.mk u (some g.hash)) :: c.transactions).lookup t.hash = _
    rw [List.lookup_cons, beq_false_of_ne hu.symm]
    exact hc.transaction
  · change (c.insertHeader g).header? h.hash = some h
    rw [header?_insertHeader]
    split
    · rename_i heq
      rw [hg heq.symm]
    · exact hc.header

/-! ## Cells -/

theorem steady_load (c : Chain) (p : OutPoint) : Steady (Dao.CommittedCell.load c.ledger p) := by
  have htransaction : Steady (c.ledger.transaction p.txHash) := ⟨_, Ends.pure _⟩
  have hheader : ∀ hash, Steady (c.ledger.header hash) := fun _ => ⟨_, Ends.pure _⟩
  refine htransaction.ask.bind fun _ => ?_
  refine (steady_demand _ _).bind fun _ => ?_
  refine (steady_demand _ _).bind fun _ => ?_
  refine (hheader _).ask.bind fun _ => ?_
  refine (steady_demand _ _).bind fun _ => ?_
  exact (steady_demand _ _).bind fun _ => ⟨_, Ends.pure _⟩

theorem of_load {c : Chain} {p : OutPoint} {x : Dao.CommittedCell}
    (h : Yields (Dao.CommittedCell.load c.ledger p) x) :
    x.outPoint = p ∧ ∃ t block, c.transaction? p.txHash = some t ∧ t.block = some block ∧
      t.transaction = x.transaction ∧ c.header? block = some x.header ∧
      x.transaction.outputs[p.index.toNat]? = some x.cell := by
  rw [← Node.ledger_chain] at h
  exact Node.of_load h

theorem eq_of_load {c : Chain} {p : OutPoint} {x y : Dao.CommittedCell}
    (hx : Yields (Dao.CommittedCell.load c.ledger p) x)
    (hy : Yields (Dao.CommittedCell.load c.ledger p) y) : x = y :=
  ((c.steady_load p).ends hx).eq hy

/-- The block of a cell that is found is known by its hash. -/
theorem Built.header?_of_load {c : Chain} (hc : c.Built) {p : OutPoint} {x : Dao.CommittedCell}
    (h : Yields (Dao.CommittedCell.load c.ledger p) x) :
    c.header? x.header.hash = some x.header := by
  obtain ⟨-, _, block, -, -, -, hblock, -⟩ := of_load h
  rw [hc.namesHeaders block _ hblock]
  exact hblock

/-- An output of a recorded transaction is found. -/
theorem Commits.ends_load {c : Chain} {t : Transaction} {h : Header} (hc : c.Commits t h)
    {i : UInt32} {cell : Cell} (hcell : t.outputs[i.toNat]? = some cell) :
    Ends (Dao.CommittedCell.load c.ledger ⟨t.hash, i⟩) (.ok ⟨⟨t.hash, i⟩, cell, t, h⟩) := by
  have htransaction : Ends (c.ledger.transaction t.hash) (.ok (some ⟨t, some h.hash⟩)) := by
    rw [← hc.transaction]
    exact Ends.pure _
  have hheader : Ends (c.ledger.header h.hash) (.ok (some h)) := by
    rw [← hc.header]
    exact Ends.pure _
  refine htransaction.ask.bind ((ends_demand_some _ _).bind ((ends_demand_some _ h.hash).bind ?_))
  refine hheader.ask.bind ((ends_demand_some _ h).bind ?_)
  change Ends (Build.demand _ t.outputs[i.toNat]? >>= _) _
  rw [hcell]
  exact (ends_demand_some _ cell).bind (Ends.pure _)

end Chain

end CellTx
