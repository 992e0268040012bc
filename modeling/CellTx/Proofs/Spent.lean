import CellTx.Proofs.Construction
import CellTx.Proofs.Held
import CellTx.Proofs.Tally

/-!
# What a construction spends

The inputs of a result are the cells that the construction starts from, followed by plain cells of
its payers (`PaidBy`); its outputs are those that stay, followed by at most the change (`Remains`).

Results:
* `Completes.result`, `Completes.first`, `Claims.result`: the inputs and outputs of a result, for
  the two shapes of a construction.
* `Opens.spent_or_promised`: a construction starts from a cell, or makes outputs that hold
  something.
* `Opens.live`, `Opens.has_all`: the cells are live, or at least on the chain for the two
  constructions that look up a cell by its out point (`Construction.OnlyLive`).

Out of scope: whose cells they are (`CellTx.Proofs.Signers`), and that none is spent twice
(`CellTx.Proofs.SpentOnce`).
-/

namespace CellTx

variable {σ : Type}

/-- A plain cell of one of the payers, as the ledger reports it. -/
def PaidBy (l : Ledger σ) (payers : List Script) (c : LiveCell) : Prop :=
  c.cell.isPlain = true ∧ ∃ lock ∈ payers, l.Reports (SearchKey.plainByLock lock) c

/-- The outputs that are left of the change. -/
inductive Remains (change : Option Script) : List Cell → Prop
  | gone : Remains change []
  | kept {lock : Script} (h : change = some lock) (capacity : Capacity) :
      Remains change [Cell.plain lock capacity]

theorem Remains.isPlain {change : Option Script} {cells : List Cell} (h : Remains change cells) :
    ∀ c ∈ cells, c.isPlain = true := by
  cases h with
  | gone => exact fun c hc => absurd hc List.not_mem_nil
  | kept => exact fun c hc => by rw [List.mem_singleton.mp hc]; rfl

/-- The drafts of a construction: what it starts from, what is collected, and what is settled. -/
theorem Completes.drafts {a : Assembler σ} {o : Opening} {r : Assembled} (h : Completes a o r) :
    ∃ (d₀ d₁ d : Draft) (got : Collected) (left : List Cell), d₀.Spends o.spent ∧
      Yields (a.collectCapacity d₀ ((o.payers.map SearchKey.plainByLock).map a.stream))
        (got, d₁) ∧
      d.inputs = d₁.inputs ∧ r.transaction = d.transaction ∧ d.fee = .ok r.fee ∧
      d.outputs = o.promised ++ left ∧ Remains o.change left := by
  obtain ⟨spends, offers, collected, settled, ht, hfee, -⟩ := h
  rename_i d₀ d₁ d got
  obtain ⟨cells, pass, -⟩ := Assembler.collectCapacity_spec collected
  have ho := pass.offers offers
  cases hchange : o.change with
  | none =>
    rw [hchange] at ho
    obtain rfl := Assembler.settleChange_none ho settled
    exact ⟨d₀, d, d, got, [], spends, collected, rfl, ht, hfee, ho.outputs, .gone⟩
  | some lock =>
    rw [hchange] at ho
    obtain ⟨hi, b, left, -, -, hcase⟩ := Assembler.settleChange_spec ho settled
    rcases hcase with ⟨-, capacity, -, htx⟩ | ⟨-, htx⟩
    · exact ⟨d₀, d₁, d, got, [Cell.plain lock capacity], spends, collected, hi, ht, hfee,
        congrArg Transaction.outputs htx, .kept rfl capacity⟩
    · have houtputs : d.outputs = o.promised := congrArg Transaction.outputs htx
      exact ⟨d₀, d₁, d, got, [], spends, collected, hi, ht, hfee,
        houtputs.trans (List.append_nil _).symm, .gone⟩

/-- The settled draft of a construction: what it spends, and what it makes. -/
theorem Completes.result {a : Assembler σ} {o : Opening} {r : Assembled} (h : Completes a o r) :
    ∃ (d : Draft) (cells : List LiveCell) (left : List Cell),
      r.transaction = d.transaction ∧ d.fee = .ok r.fee ∧
      d.Spends (o.spent ++ cells.map LiveCell.spending) ∧
      (∀ c ∈ cells, PaidBy a.ledger o.payers c) ∧
      d.outputs = o.promised ++ left ∧ Remains o.change left := by
  obtain ⟨d₀, d₁, d, got, left, hspends, hcollect, hi, ht, hfee, houtputs, hleft⟩ := h.drafts
  obtain ⟨cells, pass, -⟩ := Assembler.collectCapacity_spec hcollect
  refine ⟨d, cells, left, ht, hfee, ?_, fun c hc => ?_, houtputs, hleft⟩
  · rw [Draft.Spends, hi]
    exact pass.spends hspends
  · obtain ⟨key, hkey, hrep⟩ := pass.reported c hc
    obtain ⟨lock, hlock, rfl⟩ := List.mem_map.mp hkey
    exact ⟨pass.accepted c hc, lock, hlock, hrep⟩

/-- The inputs of the transaction of a draft. -/
theorem Draft.inputs_transaction (d : Draft) :
    d.transaction.inputs = (d.inputs.map DraftInput.spending).map Spending.input := by
  rw [List.map_map]
  rfl

/-- The cells that a construction spends in any case come first, as do the outputs that stay. -/
theorem Completes.first {a : Assembler σ} {o : Opening} {r : Assembled} (h : Completes a o r) :
    ∃ spent left, r.transaction.inputs = o.spent.map Spending.input ++ spent ∧
      r.transaction.outputs = o.promised ++ left := by
  obtain ⟨d, cells, left, ht, -, hspends, -, houtputs, -⟩ := h.result
  refine ⟨(cells.map LiveCell.spending).map Spending.input, left, ?_, ?_⟩
  · rw [ht, Draft.inputs_transaction, hspends.1, List.map_append]
  · rw [ht]
    exact houtputs

/-- A construction starts from a cell that it spends, or makes outputs that hold something. -/
theorem Opens.spent_or_promised {a : Assembler σ} {k : Construction} {o : Opening}
    (h : Opens a k o) : o.spent ≠ [] ∨ 0 < Capacity.total (o.promised.map Cell.capacity) := by
  cases h with
  | @transfer r _ receivers funded =>
    obtain ⟨e, others, hreceivers⟩ := List.exists_cons_of_ne_nil receivers
    have hpos := (funded e (hreceivers ▸ List.mem_cons_self)).pos
    rw [hreceivers, List.map_cons, List.map_cons, Capacity.total_cons]
    exact Or.inr (Nat.add_pos_left hpos _)
  | deposit funded => exact Or.inr (Nat.add_pos_left funded.pos _)
  | withdraw => exact Or.inl (List.cons_ne_nil _ _)
  | @issueCheque r d d' got collected amount _ fresh tokens =>
    obtain ⟨cells, held, -, hspends, henough, hread, hsum⟩ :=
      Assembler.collectTokens_fresh fresh tokens
    refine Or.inl fun hnil => amount ?_
    -- no cells hold no tokens
    rw [hspends.1] at hnil
    obtain rfl := List.map_eq_nil_iff.mp hnil
    obtain rfl := List.map_eq_nil_iff.mp hread.symm
    exact BitVec.eq_of_toNat_eq (Nat.le_zero.mp (Nat.le_trans henough (Nat.le_of_eq hsum)))
  | claimCheques found =>
    obtain ⟨-, -, -, -, hcheques⟩ := Assembler.findCheques_spec found
    exact Or.inl fun hnil => hcheques (List.map_eq_nil_iff.mp hnil)
  | withdrawCheque => exact Or.inl (List.cons_ne_nil _ _)

/-- Settling a claim gives its output what the cell is worth but the estimate. -/
theorem Assembler.settleClaim_spec {a : Assembler σ} {w : Assembler.WithdrawingCell} {d d' : Draft}
    {lock : Script} (ho : d.outputs = [Cell.plain lock 0]) (h : Yields (a.settleClaim w d) d') :
    ∃ fee capacity, Yields (a.estimate d) fee ∧ capacity.toNat + fee.toNat = w.worth.toNat ∧
      d'.inputs = d.inputs ∧
      d'.transaction = { d.transaction with outputs := [Cell.plain lock capacity] } := by
  obtain ⟨fee, capacity, c, hest, hsub, hc, -, rfl⟩ := Assembler.of_settleClaim h
  rw [ho] at hc
  obtain rfl := Option.some.inj hc
  refine ⟨fee, capacity, hest, Capacity.sub?_eq_some_iff.mp hsub, rfl, ?_⟩
  rw [Draft.transaction_setOutput, ho, List.set_cons_zero]
  rfl

/-- The settled draft of a claim of a withdrawing cell. -/
theorem Claims.result {a : Assembler σ} {p : OutPoint} {r : Assembled} (h : Claims a p r) :
    ∃ (w : Assembler.WithdrawingCell) (d : Draft), Yields (a.loadWithdrawing p) w ∧
      r.transaction = d.transaction ∧ d.fee = .ok r.fee ∧
      d.inputs.map DraftInput.spending =
        [⟨w.cell.outPoint, w.cell.cell, Since.absoluteEpoch w.unlock⟩] ∧
      d.inputs.map DraftInput.worth = [w.worth] ∧
      ∃ capacity, d.outputs = [Cell.plain w.cell.cell.lock capacity] := by
  obtain ⟨loaded, spends, worths, outputs, settled, ht, hfee, -⟩ := h
  obtain ⟨-, capacity, -, -, hi, htx⟩ := Assembler.settleClaim_spec outputs settled
  refine ⟨_, _, loaded, ht, hfee, ?_, ?_, capacity, congrArg Transaction.outputs htx⟩
  · rw [hi, spends]
  · rw [hi, worths]

/-! ## Where the cells are -/

section Node

variable {n : Node} {a : Assembler Nat}

theorem Chain.Has.of_live {c : Chain} {x : LiveCell} (h : x ∈ c.live) :
    c.Has x.outPoint x.cell := Or.inl ⟨x, h, rfl, rfl⟩

theorem PaidBy.live {payers : List Script} {c : LiveCell} (h : PaidBy n.ledger payers c) :
    c ∈ n.chain.live ∧ ∃ lock ∈ payers, c.cell.lock.startsWith lock = true := by
  obtain ⟨-, lock, hlock, hrep⟩ := h
  obtain ⟨hlive, hmatch⟩ := Node.live_of_reports rfl rfl hrep
  exact ⟨hlive, lock, hlock, hmatch⟩

/-- The constructions that spend live cells only. The other two spend a cell that they look up by
its out point, live or not. -/
def Construction.OnlyLive : Construction → Prop
  | withdraw _ | claim _ => False
  | _ => True

/-- Such a construction starts from live cells. -/
theorem Opens.live {k : Construction} {o : Opening} (ha : a.ledger = n.ledger) (hk : k.OnlyLive)
    (h : Opens a k o) :
    ∀ s ∈ o.spent, ∃ x ∈ n.chain.live, x.outPoint = s.outPoint ∧ x.cell = s.cell := by
  cases h with
  | transfer => exact fun s hs => absurd hs List.not_mem_nil
  | deposit => exact fun s hs => absurd hs List.not_mem_nil
  | withdraw => exact hk.elim
  | issueCheque _ _ fresh tokens =>
    obtain ⟨cells, held, tokens, hspends, -⟩ := Assembler.collectTokens_fresh fresh tokens
    rw [hspends.1]
    intro s hs
    obtain ⟨c, hc, rfl⟩ := List.mem_map.mp hs
    obtain ⟨key, hkey, hrep⟩ := tokens.reported c hc
    rw [List.mem_singleton.mp hkey, ha] at hrep
    exact ⟨c, (Node.live_of_reports rfl rfl hrep).1, rfl, rfl⟩
  | claimCheques found =>
    intro s hs
    obtain ⟨c, hc, rfl⟩ := List.mem_map.mp hs
    have hrep := Assembler.reported_of_findCheques found c hc
    rw [ha] at hrep
    exact ⟨c, (Node.live_of_reports rfl rfl hrep).1, rfl, rfl⟩
  | withdrawCheque found =>
    intro s hs
    have hrep := (Assembler.findCheque_spec found).2
    rw [ha] at hrep
    rw [List.mem_singleton.mp hs]
    exact ⟨_, (Node.live_of_reports rfl rfl hrep).1, rfl, rfl⟩

/-- The chain has every cell that a construction starts from. -/
theorem Opens.has {k : Construction} {o : Opening} (ha : a.ledger = n.ledger) (h : Opens a k o) :
    ∀ s ∈ o.spent, n.chain.Has s.outPoint s.cell := by
  intro s hs
  by_cases hk : k.OnlyLive
  · exact Or.inl (h.live ha hk s hs)
  · cases h with
    | withdraw hloaded =>
      rw [ha] at hloaded
      rw [List.mem_singleton.mp hs]
      obtain ⟨hp, ho⟩ := Node.output?_of_load hloaded
      exact Or.inr (hp ▸ ho)
    | _ => exact absurd trivial hk

/-- The chain has every cell that a construction spends. -/
theorem Opens.has_all {k : Construction} {o : Opening} {cells : List LiveCell}
    (ha : a.ledger = n.ledger) (h : Opens a k o)
    (hpaid : ∀ c ∈ cells, PaidBy a.ledger o.payers c) :
    ∀ s ∈ o.spent ++ cells.map LiveCell.spending, n.chain.Has s.outPoint s.cell := by
  intro s hs
  rcases List.mem_append.mp hs with hs | hs
  · exact h.has ha s hs
  · obtain ⟨c, hc, rfl⟩ := List.mem_map.mp hs
    have := hpaid c hc
    rw [ha] at this
    exact .of_live this.live.1

end Node

end CellTx
