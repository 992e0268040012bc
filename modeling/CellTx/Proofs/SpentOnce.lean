import CellTx.Proofs.Delivery
import CellTx.Proofs.Fees
import CellTx.Proofs.Spent
import Mathlib.Data.List.Nodup

/-!
# Every cell is spent once

A node delivers to a walk some of the cells that its chain has for the walk's searches, each of them
once. So the cheques of a claim have out points of their own, and a pass checks that of every other
cell: no construction spends an out point twice. Five of the seven constructions spend live cells
only. Along a run of those, each followed by committing its transaction (`Chain.Runs`), what was
spent is not live any more and does not come back as long as one hash stands for one transaction.

Results:
* `Node.drain_sublist`, `Pass.nodup`: what is listed is listed once, and what is collected was not
  spent before.
* `Construction.spent_ne_nil`: every transaction that is built spends something, so that none stands
  twice in a run.
* `Runs.not_mem_spent`: an out point that is not live, and that no later transaction makes, is not
  spent by one.
* `Construction.spends_once`: no out point is spent twice by a transaction, nor by two of a run.

Out of scope: the two phases that spend a cell they look up, live or not, along a run.
-/

namespace CellTx

/-! ## What a node delivers -/

namespace Node

variable {n : Node}

/-- What a stream still has to deliver when the node answers all questions. -/
def rest (n : Node) (s : CellStream) : List LiveCell :=
  { s with key := n.searched s.key }.rest n.chain

/-- What several streams still have to deliver, one after the other. -/
def rests (n : Node) (streams : List CellStream) : List LiveCell := streams.flatMap n.rest

/-- A page is taken from the rest. -/
theorem fetch_sublist {s t : CellStream} (hb : s.buffer = []) (hf : s.finished = false)
    (h : Yields (s.fetch n.ledger) t) : (n.rest t).Sublist (n.rest s) := by
  obtain ⟨page, hpage, h⟩ := h.bind
  have hpage := page_of_cells hpage
  split at h
  · obtain rfl := h.of_pure
    simp [rest, CellStream.rest, hb]
  · rename_i hne
    obtain rfl := h.of_pure
    let found := (n.chain.remaining (n.searched s.key) s.order s.cursor).take s.limit
    have hcells : page.cells = found.map fun e => (n.searched s.key).report e.1 := by
      rw [hpage]
      rfl
    cases hlast : found.getLast? with
    | none =>
      have hnil : found = [] := List.getLast?_eq_none_iff.mp hlast
      rw [hcells, hnil] at hne
      exact absurd rfl hne
    | some e =>
      obtain ⟨x, i⟩ := e
      have hcursor : page.cursor = i := by
        rw [hpage]
        change (found.getLast?.map Prod.snd).getD 0 = i
        rw [hlast]
        rfl
      simp only [rest, CellStream.rest, hb, hf, hcells, hcursor, Bool.false_eq_true, if_false,
        List.nil_append]
      rw [Chain.remaining_page hlast, ← List.map_append, List.take_append_drop]

/-- The next cell comes first in the rest. -/
theorem next_sublist {s t : CellStream} {o : Option (Except QueryError LiveCell)}
    (h : Reaches (s.next n.ledger) (o, t)) :
    (n.rest t).Sublist (n.rest s) ∧ ∀ c, o = some (.ok c) → (c :: n.rest t).Sublist (n.rest s) := by
  have htake : ∀ {u : CellStream} {c : LiveCell} {buffer : List LiveCell},
      u.buffer = c :: buffer → c :: n.rest { u with buffer := buffer } = n.rest u := by
    intro u c buffer hu
    rw [rest, rest, CellStream.rest, CellStream.rest, hu]
    rfl
  unfold CellStream.next at h
  split at h
  · rename_i c buffer hb
    obtain ⟨rfl, rfl⟩ := Prod.mk.inj h.of_pure
    refine ⟨?_, fun c' hc' => by cases hc'; rw [htake hb]⟩
    rw [← htake hb]
    exact List.sublist_cons_self _ _
  rename_i hb
  split at h
  · obtain ⟨rfl, rfl⟩ := Prod.mk.inj h.of_pure
    exact ⟨List.Sublist.refl _, fun c hc => by cases hc⟩
  rename_i hf
  obtain ⟨r, hr, h⟩ := h.bind
  cases r with
  | error e =>
    obtain ⟨rfl, rfl⟩ := Prod.mk.inj h.of_pure
    refine ⟨?_, fun c hc => by cases hc⟩
    simp [rest, CellStream.rest, hb]
  | ok u =>
    have hu := fetch_sublist hb (Bool.eq_false_iff.mpr hf) hr
    simp only at h
    split at h
    · rename_i c buffer hbuffer
      obtain ⟨rfl, rfl⟩ := Prod.mk.inj h.of_pure
      rw [← htake hbuffer] at hu
      exact ⟨(List.sublist_cons_self _ _).trans hu, fun c' hc' => by cases hc'; exact hu⟩
    · obtain ⟨rfl, rfl⟩ := Prod.mk.inj h.of_pure
      exact ⟨hu, fun c hc => by cases hc⟩

/-- The next cell of several streams comes first in their rests. -/
theorem pull_sublist {streams streams' : List CellStream} {o : Option LiveCell}
    (h : Yields (CellStream.pull n.ledger streams) (o, streams')) :
    (o.toList ++ n.rests streams').Sublist (n.rests streams) := by
  induction streams with
  | nil =>
    obtain ⟨rfl, rfl⟩ := Prod.mk.inj h.of_pure
    exact List.Sublist.refl _
  | cons s streams ih =>
    rw [CellStream.pull] at h
    obtain ⟨⟨r, t⟩, hr, h⟩ := h.bind
    obtain ⟨-, hcell⟩ := next_sublist hr.of_lift
    split at h
    · rename_i c u heq
      obtain ⟨rfl, rfl⟩ := Prod.mk.inj heq
      obtain ⟨rfl, rfl⟩ := Prod.mk.inj h.of_pure
      exact (hcell c rfl).append (List.Sublist.refl (n.rests streams))
    · exact absurd h not_yields_throw
    · exact (ih h).trans (List.sublist_append_right _ _)

/-- The drained cells are among the rests, in their order and once each. -/
theorem drain_sublist {fuel : Nat} {streams : List CellStream} {cells : List LiveCell}
    (h : Yields (CellStream.drain n.ledger fuel streams) cells) :
    cells.Sublist (n.rests streams) := by
  induction fuel generalizing streams cells with
  | zero => exact absurd h not_yields_throw
  | succ fuel ih =>
    rw [CellStream.drain] at h
    obtain ⟨⟨o, streams'⟩, hp, h⟩ := h.bind
    have hpull := pull_sublist (yields_ask.mp hp)
    cases o with
    | none =>
      rw [h.of_pure]
      exact List.nil_sublist _
    | some c =>
      obtain ⟨tail, ht, h⟩ := h.bind
      rw [h.of_pure]
      exact ((ih ht).cons_cons c).trans hpull

/-- A search that asks for the data has live cells to deliver. -/
theorem rests_sublist_live (a : Assembler Nat) {key : SearchKey} (h : key.withData = true) :
    (n.rests [a.stream key]).Sublist n.chain.live := by
  have hsearched : (n.searched key).withData = true := by
    unfold searched
    split <;> exact h
  have hrests : n.rests [a.stream key] =
      CellStream.rests n.chain ([n.searched key].map a.stream) := rfl
  rw [hrests, Assembler.rests_single a hsearched]
  exact List.filter_sublist

end Node

/-! ## What is spent once -/

section Distinct

variable {σ : Type}

/-- A pass spends cells that are not spent before. -/
theorem Pass.nodup {l : Ledger σ} {keys : List SearchKey} {accept : Cell → Bool} {d d' : Draft}
    {cells : List LiveCell} (h : Pass l keys accept d cells d')
    (hd : (d.inputs.map DraftInput.outPoint).Nodup) :
    (d'.inputs.map DraftInput.outPoint).Nodup := by
  induction h with
  | done => exact hd
  | @spend d _ c _ _ _ fresh _ ih =>
    refine ih ?_
    rw [Draft.consume, Draft.addInput, Draft.inputs_addInputWorth, List.map_append]
    refine List.nodup_append.mpr ⟨hd, List.nodup_singleton _, fun p hp q hq => ?_⟩
    obtain ⟨i, hi, rfl⟩ := List.mem_map.mp hp
    obtain rfl := List.mem_singleton.mp hq
    -- the draft does not spend the out point of the new cell
    rw [Draft.spends, List.any_eq_false] at fresh
    exact fun heq => fresh i hi (decide_eq_true heq)

theorem Draft.Spends.outPoints {d : Draft} {cells : List Spending} (h : d.Spends cells) :
    d.inputs.map DraftInput.outPoint = cells.map Spending.outPoint := by
  rw [← h.1, List.map_map]
  rfl

/-- A construction that starts from cells with out points of their own spends no out point twice. -/
theorem Completes.nodup {a : Assembler σ} {o : Opening} {r : Assembled} (h : Completes a o r)
    (ho : (o.spent.map Spending.outPoint).Nodup) : r.transaction.spent.Nodup := by
  obtain ⟨d₀, d₁, d, got, left, hspends, hcollect, hi, ht, -, -, -⟩ := h.drafts
  obtain ⟨cells, pass, -⟩ := Assembler.collectCapacity_spec hcollect
  rw [ht, Draft.spent_transaction, hi]
  exact pass.nodup (hspends.outPoints ▸ ho)

/-- Every transaction that is built spends something: its outputs hold no more than its inputs. -/
theorem Construction.spent_ne_nil {a : Assembler σ} {k : Construction} {r : Assembled}
    (h : Yields (k.run a) r) : r.transaction.spent ≠ [] := by
  rcases anatomy h with ⟨o, hopens, hcompletes⟩ | ⟨p, rfl, hclaims⟩
  · obtain ⟨d, cells, left, ht, hfee, hspends, -, houtputs, -⟩ := hcompletes.result
    rw [ht, Draft.spent_transaction]
    intro hnil
    have hinputs : d.inputs = [] := List.map_eq_nil_iff.mp hnil
    have htotal := Draft.fee_eq_ok hfee
    rw [hinputs, houtputs, List.map_append, Capacity.total_append, List.map_nil,
      Capacity.total_nil] at htotal
    rcases hopens.spent_or_promised with hspent | hpromised
    · have hcells := hspends.1
      rw [hinputs] at hcells
      exact hspent (List.append_eq_nil_iff.mp hcells.symm).1
    · omega
  · obtain ⟨w, d, -, ht, -, hspends, -, -⟩ := hclaims.result
    rw [ht, Draft.spent_transaction]
    intro hnil
    rw [List.map_eq_nil_iff.mp hnil] at hspends
    exact nomatch hspends

end Distinct

section Node

variable {n : Node} {a : Assembler Nat}

/-- The cheques of a claim are live cells, in the order of the chain and once each. -/
theorem Assembler.cheques_sublist {receiver : Script} {owner : Hash} {t : ClaimTally}
    (ha : a.ledger = n.ledger) (h : Yields (a.findCheques receiver owner) t) :
    t.cheques.Sublist n.chain.live := by
  obtain ⟨cells, counted, hdrain, htallies, -⟩ := findCheques_spec h
  rw [ha] at hdrain
  rw [htallies.cheques_eq, htallies.counted_eq]
  exact List.filter_sublist.trans
    ((Node.drain_sublist hdrain).trans (Node.rests_sublist_live a rfl))

/-- What a construction starts from has out points of its own. -/
theorem Opens.nodup {k : Construction} {o : Opening} (ha : a.ledger = n.ledger)
    (hn : (n.chain.live.map LiveCell.outPoint).Nodup) (h : Opens a k o) :
    (o.spent.map Spending.outPoint).Nodup := by
  cases h with
  | transfer => exact List.nodup_nil
  | deposit => exact List.nodup_nil
  | withdraw => exact List.nodup_singleton _
  | issueCheque _ _ fresh tokens =>
    obtain ⟨cells, held, pass, -⟩ := Assembler.collectTokens_fresh fresh tokens
    rw [List.map_map]
    refine pass.nodup ?_
    rw [fresh]
    exact List.nodup_nil
  | claimCheques found =>
    rw [List.map_map]
    exact hn.sublist ((Assembler.cheques_sublist ha found).map _)
  | withdrawCheque => exact List.nodup_singleton _

namespace Construction

variable {k : Construction} {r : Assembled}

/-- No out point is spent twice in one transaction. -/
theorem nodup_spent_of_run (ha : a.ledger = n.ledger)
    (hn : (n.chain.live.map LiveCell.outPoint).Nodup) (h : Yields (k.run a) r) :
    r.transaction.spent.Nodup := by
  rcases anatomy h with ⟨o, hopens, hcompletes⟩ | ⟨p, rfl, hclaims⟩
  · exact hcompletes.nodup (hopens.nodup ha hn)
  · obtain ⟨w, d, -, ht, -, hspends, -, -⟩ := hclaims.result
    have houtPoints : d.inputs.map DraftInput.outPoint =
        (d.inputs.map DraftInput.spending).map Spending.outPoint := by
      rw [List.map_map]
      rfl
    rw [ht, Draft.spent_transaction, houtPoints, hspends]
    exact List.nodup_singleton _

/-- Whatever is spent is live. -/
theorem live_of_spent (ha : a.ledger = n.ledger) (hk : k.OnlyLive) (h : Yields (k.run a) r) :
    ∀ p ∈ r.transaction.spent, ∃ x ∈ n.chain.live, x.outPoint = p := by
  rcases anatomy h with ⟨o, hopens, hcompletes⟩ | ⟨p, rfl, -⟩
  · obtain ⟨d, cells, left, ht, -, hspends, hpaid, -, -⟩ := hcompletes.result
    rw [ht, Draft.spent_transaction, hspends.outPoints]
    intro p hp
    obtain ⟨s, hs, rfl⟩ := List.mem_map.mp hp
    rcases List.mem_append.mp hs with hs | hs
    · obtain ⟨x, hx, hpoint, -⟩ := hopens.live ha hk s hs
      exact ⟨x, hx, hpoint⟩
    · obtain ⟨c, hc, rfl⟩ := List.mem_map.mp hs
      have hc := hpaid c hc
      rw [ha] at hc
      exact ⟨c, hc.live.1, rfl⟩
  · exact hk.elim

end Construction

end Node

/-! ## Runs -/

/-- Constructions that spend live cells only, one after the other: each asks a node over the chain
that the one before left, and its transaction is committed in some block. Other blocks may come in
between. -/
inductive Chain.Runs : Chain → List Transaction → Chain → Prop
  | done (c : Chain) : Runs c [] c
  | block {c c' : Chain} {ts : List Transaction} (h : Header)
      (rest : Runs (c.insertHeader h) ts c') : Runs c ts c'
  | call {n : Node} {c : Chain} {a : Assembler Nat} {k : Construction} {r : Assembled}
      {ts : List Transaction} (block : Header) (ledger : a.ledger = n.ledger)
      (live : k.OnlyLive) (built : Yields (k.run a) r)
      (rest : Runs (n.chain.commit r.transaction block) ts c) :
      Runs n.chain (r.transaction :: ts) c

namespace Chain

/-- What is live after a commit was live before and is not spent, or is made by the transaction. -/
theorem mem_live_commit {c : Chain} {t : Transaction} {h : Header} {x : LiveCell}
    (hx : x ∈ (c.commit t h).live) :
    (x ∈ c.live ∧ x.outPoint ∉ t.spent) ∨ x.outPoint.txHash = t.hash := by
  rcases List.mem_append.mp hx with hx | hx
  · obtain ⟨hlive, hspent⟩ := List.mem_filter.mp hx
    refine Or.inl ⟨hlive, fun hmem => ?_⟩
    rw [List.contains_iff_mem.mpr hmem] at hspent
    exact Bool.false_ne_true hspent
  · obtain ⟨e, -, rfl⟩ := List.mem_map.mp hx
    exact Or.inr rfl

/-- An out point that is not live, and that no transaction of a run makes, is not spent in it. -/
theorem Runs.not_mem_spent {c c' : Chain} {ts : List Transaction} (h : c.Runs ts c')
    {p : OutPoint} (hlive : ∀ x ∈ c.live, x.outPoint ≠ p) (hmade : ∀ t ∈ ts, t.hash ≠ p.txHash) :
    ∀ t ∈ ts, p ∉ t.spent := by
  induction h with
  | done => exact fun t ht => absurd ht List.not_mem_nil
  | block _ _ ih => exact ih hlive hmade
  | @call n c a k r ts block ledger live built _ ih =>
    obtain ⟨hhash, hmade⟩ := List.forall_mem_cons.mp hmade
    refine List.forall_mem_cons.mpr ⟨fun hp => ?_, ih (fun x hx => ?_) hmade⟩
    · obtain ⟨x, hx, hpoint⟩ := Construction.live_of_spent ledger live built p hp
      exact hlive x hx hpoint
    · rcases mem_live_commit hx with ⟨hx, -⟩ | hx
      · exact hlive x hx
      · exact fun heq => hhash (hx.symm.trans (congrArg OutPoint.txHash heq))

/-- No out point is spent by two transactions of a run whose hashes do not collide. No transaction
stands twice in it, since there would be something that both spend. -/
theorem Runs.pairwise_disjoint {c c' : Chain} {ts : List Transaction} (h : c.Runs ts c')
    (hlive : ∀ t ∈ ts, ∀ x ∈ c.live, x.outPoint.txHash ≠ t.hash)
    (hhashes : ∀ t ∈ ts, ∀ u ∈ ts, t.hash = u.hash → t = u) :
    ts.Pairwise fun t u => t.spent.Disjoint u.spent := by
  induction h with
  | done => exact List.Pairwise.nil
  | block _ _ ih => exact ih hlive hhashes
  | @call n c a k r ts block ledger live built rest ih =>
    obtain ⟨-, hlater⟩ := List.forall_mem_cons.mp hlive
    -- what the first transaction spends was made by none of the later ones
    have hfirst : ∀ u ∈ ts, r.transaction.spent.Disjoint u.spent := by
      intro u hu p hp hpu
      obtain ⟨y, hy, rfl⟩ := Construction.live_of_spent ledger live built p hp
      refine rest.not_mem_spent (fun x hx => ?_) (fun t ht => (hlater t ht y hy).symm) u hu hpu
      rcases mem_live_commit hx with ⟨-, hx⟩ | hx
      · exact fun heq => hx (heq ▸ hp)
      · intro heq
        rw [heq] at hx
        exact (hlive _ List.mem_cons_self y hy) hx
    -- so it is none of the later ones itself
    have hne : ∀ t ∈ ts, t.hash ≠ r.transaction.hash := by
      intro t ht heq
      obtain rfl := hhashes t (List.mem_cons_of_mem _ ht) _ List.mem_cons_self heq
      obtain ⟨p, hp⟩ := List.exists_mem_of_ne_nil _ (Construction.spent_ne_nil built)
      exact hfirst _ ht hp hp
    refine List.pairwise_cons.mpr ⟨hfirst, ih (fun t ht x hx => ?_) fun t ht u hu =>
      hhashes t (List.mem_cons_of_mem _ ht) u (List.mem_cons_of_mem _ hu)⟩
    rcases mem_live_commit hx with ⟨hx, -⟩ | hx
    · exact hlater t ht x hx
    · exact fun heq => hne t ht (heq.symm.trans hx)

end Chain

/-- On a node whose live cells have out points of their own, no result spends an out point twice,
and five of the constructions spend live cells only. Along a run of those, in which one hash stands
for one transaction, no out point is spent by two transactions. -/
theorem Construction.spends_once :
    (∀ (n : Node) (a : Assembler Nat) (k : Construction) (r : Assembled), a.ledger = n.ledger →
      (n.chain.live.map LiveCell.outPoint).Nodup → Yields (k.run a) r →
        r.transaction.spent.Nodup ∧
        (k.OnlyLive → ∀ p ∈ r.transaction.spent, ∃ x ∈ n.chain.live, x.outPoint = p)) ∧
    ∀ (c c' : Chain) (ts : List Transaction), c.Runs ts c' →
      (∀ t ∈ ts, ∀ x ∈ c.live, x.outPoint.txHash ≠ t.hash) →
      (∀ t ∈ ts, ∀ u ∈ ts, t.hash = u.hash → t = u) →
        ts.Pairwise fun t u => t.spent.Disjoint u.spent :=
  ⟨fun _ _ _ _ ha hn h => ⟨nodup_spent_of_run ha hn h, fun hk => live_of_spent ha hk h⟩,
    fun _ _ _ h hlive hhashes => h.pairwise_disjoint hlive hhashes⟩

/-- Two transfers, one after the other. The first names its sender twice and spends two cells. -/
theorem Construction.spends_once_twoTransfers :
    ∃ (r₁ r₂ : Assembled) (c : Chain),
      (Chain.new.fund (List.replicate 2 (.plain (.ofByte 1) 20000000000))).2.Runs
        [r₁.transaction, r₂.transaction] c ∧
      r₁.transaction.spent.length = 2 ∧ r₁.transaction.spent.Nodup ∧
      r₁.transaction.spent.Disjoint r₂.transaction.spent := by
  let c₀ := (Chain.new.fund (List.replicate 2 (.plain (.ofByte 1) 20000000000))).2
  let k₁ := Construction.transfer
    ⟨[.ofByte 1, .ofByte 1], [(.ofByte 2, 30000000000)], some (.ofByte 1)⟩
  let k₂ := Construction.transfer ⟨[.ofByte 2], [(.ofByte 1, 10000000000)], some (.ofByte 2)⟩
  obtain ⟨r₁, h₁, h⟩ := exists_yields (m := k₁.run (.onChain c₀)) (s := 0) (fun r₁ =>
    r₁.transaction.spent.length = 2 &&
      ((k₂.run (.onChain (c₀.commit r₁.transaction Chain.genesis))).run.run 0).1.toOption.any
        fun r₂ : Assembled => decide (∀ t ∈ [r₁.transaction, r₂.transaction], ∀ x ∈ c₀.live,
          x.outPoint.txHash ≠ t.hash) &&
            decide (∀ t ∈ [r₁.transaction, r₂.transaction], ∀ u ∈ [r₁.transaction, r₂.transaction],
              t.hash = u.hash → t = u))
    (by decide +kernel)
  rw [Bool.and_eq_true, decide_eq_true_eq] at h
  obtain ⟨hlength, h⟩ := h
  obtain ⟨r₂, h₂, h⟩ := exists_yields _ h
  rw [Bool.and_eq_true, decide_eq_true_eq, decide_eq_true_eq] at h
  obtain ⟨hlive, hhashes⟩ := h
  obtain ⟨honce, hruns⟩ := spends_once
  have hrun : c₀.Runs [r₁.transaction, r₂.transaction] _ :=
    .call (k := k₁) (n := { chain := c₀ }) Chain.genesis (Node.ledger_chain _).symm trivial h₁
      (.call (k := k₂) (n := { chain := c₀.commit r₁.transaction Chain.genesis }) Chain.genesis
        (Node.ledger_chain _).symm trivial h₂ (.done _))
  have hdisjoint := hruns c₀ _ _ hrun hlive hhashes
  refine ⟨r₁, r₂, _, hrun, hlength, ?_, ?_⟩
  · exact (honce { chain := c₀ } _ k₁ r₁ (Node.ledger_chain _).symm (by decide +kernel) h₁).1
  · exact (List.pairwise_cons.mp hdisjoint).1 _ (List.mem_singleton_self _)

end CellTx
