import CellTx.Proofs.Tokens

/-!
# What outputs hold

No construction but the claim of cheques makes a cell below the capacity that it occupies. The
outputs that stay are `Funded` before anything is spent: a receiver or a deposit would be refused
otherwise, token cells are lifted, and a withdrawing cell keeps the capacity of its deposit and the
length of its data.

Results:
* `Opens.promised_funded`: the outputs that stay hold what they occupy.
* `Completes.funded`, `Completes.account`: settling then funds the change or removes it.
* `Claims.funded`: a withdrawing cell is claimed only when the one output is funded.
* `Construction.outputs_funded`: all of it, on a chain whose own outputs are funded.

Out of scope: the refunds of claimed cheques, which nobody lifts (`CellTx.Proofs.SpendableRefunds`).
-/

namespace CellTx

variable {σ : Type}

/-- Every output that a chain stores holds what it occupies. -/
def Chain.FundsOutputs (c : Chain) : Prop := ∀ p cell, c.output? p = some cell → cell.Funded

/-- It is enough to look through the transactions. -/
theorem Chain.fundsOutputs_of_forall {c : Chain}
    (h : ∀ e ∈ c.transactions, ∀ cell ∈ e.2.transaction.outputs, cell.Funded) :
    c.FundsOutputs := by
  intro p cell hcell
  obtain ⟨t, ht, houtput⟩ := Option.bind_eq_some_iff.mp hcell
  obtain ⟨before, after, hsplit, -⟩ := List.lookup_eq_some_iff.mp ht
  refine h (p.txHash, t) ?_ cell (List.mem_of_getElem? houtput)
  rw [hsplit]
  exact List.mem_append_right before List.mem_cons_self

/-! ## Cells -/

instance (c : Cell) : Decidable c.Funded := inferInstanceAs (Decidable (_ ≤ _))

theorem Cell.funded_iff {c : Cell} {o : Capacity} (ho : c.occupied? = some o) :
    c.Funded ↔ o ≤ c.capacity := by
  rw [Cell.Funded, ← Cell.occupied?_eq_some_iff.mp ho, UInt64.le_iff_toNat_le]

/-- A cell is lifted to what it occupies, when that fits 64 bits. -/
theorem Cell.funded_raised {c : Cell} {o : Capacity} (ho : c.occupied? = some o) :
    c.raised.Funded := by
  have ho' : c.raised.occupied? = some o := by
    simp only [occupied?, occupiedBytes, lock_raised, type_raised, data_raised] at ho ⊢
    exact ho
  rw [Cell.funded_iff ho']
  simp only [raised, ho, Option.map_some, Option.getD_some]
  split
  · assumption
  · exact UInt64.le_refl o

/-- Data of the same length occupy the same, whatever the capacity. -/
theorem Cell.occupied?_congr {c c' : Cell} (hlock : c.lock = c'.lock) (htype : c.type = c'.type)
    (hlength : c.data.length = c'.data.length) : c.occupied? = c'.occupied? := by
  simp only [occupied?, occupiedBytes, hlock, htype, hlength]

/-- A withdrawing cell holds what its deposit holds, and has data of the same length. -/
theorem Dao.CommittedCell.funded_withdrawing {c : Dao.CommittedCell} {scripts : SystemScripts}
    (hdeposit : c.isDeposit scripts = true) (h : c.cell.Funded) : c.withdrawing.Funded := by
  rw [isDeposit, isDaoCell, Bool.and_eq_true, Bool.and_eq_true, decide_eq_true_eq] at hdeposit
  have hlength : c.withdrawing.data.length = c.cell.data.length := by
    rw [withdrawing, length_leBytes, hdeposit.1.1]
  unfold Cell.Funded Cell.occupiedBytes at h ⊢
  rw [hlength]
  exact h

/-! ## Outputs that stay -/

namespace Assembler

variable {a : Assembler σ} {res : Assembled}

/-- A token cell occupies the same for every amount. -/
theorem occupied?_tokenCell (a : Assembler σ) (lock : Script) (owner : Hash)
    (amount amount' : TokenAmount) :
    (a.tokenCell lock owner amount).occupied? = (a.tokenCell lock owner amount').occupied? := by
  refine Cell.occupied?_congr rfl rfl ?_
  rw [tokenCell, tokenCell, TokenAmount.length_data, TokenAmount.length_data]

/-- What a cell that is lifted occupies fits 64 bits. -/
theorem exists_occupied_of_addRaised {cell : Cell} {d d' : Draft}
    (h : addRaised cell d = .ok d') : ∃ o, cell.occupied? = some o := by
  obtain ⟨_, hraise, -⟩ := except_bind_eq_ok.mp h
  obtain ⟨_, -, hraise⟩ := except_bind_eq_ok.mp hraise
  obtain ⟨o, ho, -⟩ := except_bind_eq_ok.mp hraise
  exact ⟨o, Draft.occupied_addOutput ho⟩

theorem exists_occupied_of_issueCheque {r : ChequeRequest} (h : Yields (a.issueCheque r) res) :
    (∃ o, (a.chequeCell r).occupied? = some o) ∧
      ∃ o, (a.tokenCell r.sender r.owner 0).occupied? = some o := by
  obtain ⟨_, _, _, d₃, d₄, _, _, -, -, -, -, houtputs, -⟩ := Flow.of_assemble h
  obtain ⟨_, hcheque, hadd⟩ := except_bind_eq_ok.mp (Yields.of_ofExcept houtputs)
  obtain ⟨_, htoken, -⟩ := except_bind_eq_ok.mp hadd
  exact ⟨exists_occupied_of_addRaised hcheque, exists_occupied_of_addRaised htoken⟩

theorem exists_occupied_of_withdrawCheque {r : ChequeRequest}
    (h : Yields (a.withdrawCheque r) res) :
    ∃ c, Yields (a.findCheque r) c ∧ ∃ o, (r.returned c.cell).occupied? = some o := by
  obtain ⟨c, _, _, d₃, d₄, _, _, hfound, -, -, -, houtputs, -⟩ := Flow.of_assemble h
  obtain ⟨_, hreturned, -⟩ := except_bind_eq_ok.mp (Yields.of_ofExcept houtputs)
  exact ⟨c, hfound, exists_occupied_of_addRaised hreturned⟩

theorem exists_occupied_of_claimCheques {receiver : Script} {owner : Hash}
    (h : Yields (a.claimCheques receiver owner) res) :
    ∃ o, (a.tokenCell receiver owner 0).occupied? = some o := by
  obtain ⟨t, _, _, d₃, d₄, _, _, -, -, -, -, houtputs, -⟩ := Flow.of_assemble h
  obtain ⟨_, hclaimed, -⟩ := except_bind_eq_ok.mp (Yields.of_ofExcept houtputs)
  rw [a.occupied?_tokenCell receiver owner 0 t.amount]
  exact exists_occupied_of_addRaised hclaimed

/-- The cheque that is found has the token that is asked for. -/
theorem type_of_findCheque {r : ChequeRequest} {c : LiveCell} (h : Yields (a.findCheque r) c) :
    c.cell.type = some (a.scripts.sudtType r.owner) := by
  have hasked := (findCheque_spec h).1
  rw [ChequeRequest.isAsked, Bool.and_eq_true, Bool.and_eq_true] at hasked
  exact Cell.hasType_iff.mp hasked.1.2

/-- The cheque and the token change of an issued cheque. -/
theorem funded_of_issueCheque {r : ChequeRequest} (h : Yields (a.issueCheque r) res)
    (collected : TokenAmount) :
    ∀ c ∈ (a.chequeCell r).raised :: a.tokenChangeOf r collected, c.Funded := by
  obtain ⟨⟨_, hcheque⟩, o, htoken⟩ := exists_occupied_of_issueCheque h
  refine List.forall_mem_cons.mpr ⟨Cell.funded_raised hcheque, fun c hc => ?_⟩
  unfold tokenChangeOf at hc
  split at hc
  · exact absurd hc List.not_mem_nil
  · rw [List.mem_singleton.mp hc]
    refine Cell.funded_raised (o := o) ?_
    rw [← htoken]
    exact a.occupied?_tokenCell _ _ _ _

/-- The cell that takes back a cheque. -/
theorem funded_of_withdrawCheque {r : ChequeRequest} (h : Yields (a.withdrawCheque r) res)
    {c : LiveCell} (hc : Yields (a.findCheque r) c) : (r.returned c.cell).raised.Funded := by
  obtain ⟨c', hc', o, ho⟩ := exists_occupied_of_withdrawCheque h
  refine Cell.funded_raised (o := o) ?_
  rw [← ho]
  exact Cell.occupied?_congr rfl ((type_of_findCheque hc).trans (type_of_findCheque hc').symm) rfl

end Assembler

/-- The outputs that stay hold what they occupy, the refunds of claimed cheques apart. -/
theorem Opens.promised_funded {n : Node} {a : Assembler Nat} {k : Construction} {o : Opening}
    {r : Assembled} (ha : a.ledger = n.ledger) (hstored : n.chain.FundsOutputs)
    (hk : ∀ receiver owner, k ≠ .claimCheques receiver owner) (hrun : Yields (k.run a) r)
    (h : Opens a k o) : ∀ c ∈ o.promised, c.Funded := by
  cases h with
  | transfer _ _ funded =>
    intro c hc
    obtain ⟨e, he, rfl⟩ := List.mem_map.mp hc
    exact funded e he
  | deposit funded =>
    intro c hc
    rw [List.mem_singleton.mp hc]
    exact funded
  | withdraw loaded isDeposit =>
    intro c hc
    rw [ha] at loaded
    rw [List.mem_singleton.mp hc]
    exact Dao.CommittedCell.funded_withdrawing isDeposit
      (hstored _ _ (Node.output?_of_load loaded).2)
  | issueCheque => exact Assembler.funded_of_issueCheque hrun _
  | claimCheques => exact absurd rfl (hk _ _)
  | withdrawCheque found =>
    intro c hc
    rw [List.mem_singleton.mp hc]
    exact Assembler.funded_of_withdrawCheque hrun found

/-! ## Settling -/

/-- The change is the only output that is added to what stays, and it is there only when it holds
what it occupies. -/
theorem Completes.left_funded {a : Assembler σ} {o : Opening} {r : Assembled}
    (h : Completes a o r) :
    ∃ left, r.transaction.outputs = o.promised ++ left ∧ ∀ c ∈ left, c.Funded := by
  obtain ⟨-, offers, collected, settled, ht, -, -⟩ := h
  obtain ⟨cells, pass, -⟩ := Assembler.collectCapacity_spec collected
  have ho := pass.offers offers
  rw [ht]
  cases hchange : o.change with
  | none =>
    rw [hchange] at ho
    obtain rfl := Assembler.settleChange_none ho settled
    exact ⟨[], ho.outputs, List.forall_mem_nil _⟩
  | some lock =>
    rw [hchange] at ho
    obtain ⟨-, b, left, -, -, hsettled⟩ := Assembler.settleChange_spec ho settled
    rcases hsettled with ⟨hfloor, capacity, hcapacity, htx⟩ | ⟨-, htx⟩
    · rw [htx]
      refine ⟨_, rfl, List.forall_mem_singleton.mpr ?_⟩
      change changeFloor lock ≤ capacity.toNat
      rw [hcapacity]
      exact hfloor
    · rw [htx]
      exact ⟨[], (List.append_nil _).symm, List.forall_mem_nil _⟩

theorem Remains.cases_of_funded {change : Option Script} {left : List Cell}
    (h : Remains change left) (hfunded : ∀ c ∈ left, c.Funded) :
    left = [] ∨ ∃ lock capacity, change = some lock ∧ left = [Cell.plain lock capacity] ∧
      (Cell.plain lock capacity).Funded := by
  cases h with
  | gone => exact Or.inl rfl
  | @kept lock hlock capacity =>
    exact Or.inr ⟨lock, capacity, hlock, rfl, hfunded _ (List.mem_singleton_self _)⟩

/-- A construction that a lock pays for and gets the change of: the inputs after those it starts
from are plain cells, and the outputs after those that stay are at most a change that holds what
it occupies. -/
theorem Completes.account {n : Node} {a : Assembler Nat} {spent : List Spending}
    {promised : List Cell} {lock : Script} {r : Assembled} (ha : a.ledger = n.ledger)
    (h : Completes a ⟨spent, promised, some lock, [lock]⟩ r) :
    ∃ (pulled : List LiveCell) (change : List Cell),
      r.transaction.inputs =
        spent.map Spending.input ++ pulled.map (fun x => ⟨x.outPoint, Since.zero⟩) ∧
      (∀ x ∈ pulled, x ∈ n.chain.live ∧ x.cell.type = none ∧ x.cell.data = [] ∧
        x.cell.lock.startsWith lock = true) ∧
      r.transaction.outputs = promised ++ change ∧
      (change = [] ∨ ∃ capacity, change = [Cell.plain lock capacity] ∧
        (Cell.plain lock capacity).Funded) := by
  obtain ⟨d, pulled, left, ht, -, hspends, hpaid, houtputs, hleft⟩ := h.result
  obtain ⟨left', houtputs', hfunded⟩ := h.left_funded
  have hout : r.transaction.outputs = promised ++ left := ht ▸ houtputs
  obtain rfl : left = left' := List.append_cancel_left (hout.symm.trans houtputs')
  refine ⟨pulled, left, ?_, fun x hx => ?_, hout, ?_⟩
  · rw [ht, Draft.inputs_transaction, hspends.1, List.map_append, List.map_map]
    rfl
  · have hpaid := hpaid x hx
    rw [ha] at hpaid
    obtain ⟨hlive, payer, hpayer, hstarts⟩ := hpaid.live
    obtain ⟨htype, hdata⟩ := Cell.isPlain_iff.mp hpaid.1
    exact ⟨hlive, htype, hdata, List.mem_singleton.mp hpayer ▸ hstarts⟩
  · refine (hleft.cases_of_funded hfunded).imp_right ?_
    rintro ⟨payer, capacity, hpayer, hchange⟩
    obtain rfl := Option.some.inj hpayer
    exact ⟨capacity, hchange⟩

theorem Completes.funded {a : Assembler σ} {o : Opening} {r : Assembled}
    (h : Completes a o r) (hpromised : ∀ c ∈ o.promised, c.Funded) :
    ∀ c ∈ r.transaction.outputs, c.Funded := by
  obtain ⟨left, houtputs, hleft⟩ := h.left_funded
  rw [houtputs]
  exact List.forall_mem_append.mpr ⟨hpromised, hleft⟩

/-- Settling a claim refuses an output below what it occupies. -/
theorem Assembler.funded_of_settleClaim {a : Assembler σ} {w : Assembler.WithdrawingCell}
    {d d' : Draft} {lock : Script} (ho : d.outputs = [Cell.plain lock 0])
    (h : Yields (a.settleClaim w d) d') : ∀ c ∈ d'.outputs, c.Funded := by
  obtain ⟨_, _, c, -, -, -, hfunded, rfl⟩ := Assembler.of_settleClaim h
  intro x hx
  rw [Draft.outputs_setOutput, ho, List.set_cons_zero] at hx
  rw [List.mem_singleton.mp hx]
  exact hfunded

theorem Claims.funded {a : Assembler σ} {p : OutPoint} {r : Assembled}
    (h : Claims a p r) : ∀ c ∈ r.transaction.outputs, c.Funded := by
  obtain ⟨-, -, -, outputs, settled, ht, -, -⟩ := h
  rw [ht]
  exact Assembler.funded_of_settleClaim outputs settled

/-! ## Every output -/

/-- Where every stored output holds what it occupies, every output of a result does, the refunds of
claimed cheques apart. -/
theorem Construction.outputs_funded {n : Node} {a : Assembler Nat} {k : Construction}
    {r : Assembled} (ha : a.ledger = n.ledger) (hstored : n.chain.FundsOutputs)
    (hk : ∀ receiver owner, k ≠ .claimCheques receiver owner) (h : Yields (k.run a) r) :
    ∀ c ∈ r.transaction.outputs, c.Funded := by
  rcases anatomy h with ⟨o, hopens, hcompletes⟩ | ⟨p, rfl, hclaims⟩
  · exact hcompletes.funded (hopens.promised_funded ha hstored hk h)
  · exact hclaims.funded

/-- A cheque of a sender whose lock has a byte more of args than the configured capacities allow
for: its token change is lifted. -/
theorem Construction.outputs_funded_longSender :
    ∃ r, Yields ((Construction.issueCheque
        ⟨(Script.ofByte 1).extend [0xff], .ofByte 2, Hash.zero, 5⟩).run
        (.onChain (.withTokens ((Script.ofByte 1).extend [0xff])))) r ∧
      (Chain.withTokens ((Script.ofByte 1).extend [0xff])).FundsOutputs ∧
      (r.transaction.outputs.map Cell.capacity)[1]? = some 14300000000 ∧
      ∀ c ∈ r.transaction.outputs, c.Funded := by
  obtain ⟨r, h, hlifted⟩ := exists_yields
    (m := (Construction.issueCheque ⟨(Script.ofByte 1).extend [0xff], .ofByte 2, Hash.zero, 5⟩).run
      (.onChain (.withTokens ((Script.ofByte 1).extend [0xff]))))
    (s := 0) (fun r => (r.transaction.outputs.map Cell.capacity)[1]? = some 14300000000)
    (by decide +kernel)
  have hstored : (Chain.withTokens ((Script.ofByte 1).extend [0xff])).FundsOutputs :=
    Chain.fundsOutputs_of_forall (by decide +kernel)
  refine ⟨r, h, hstored, of_decide_eq_true hlifted, ?_⟩
  exact outputs_funded (n := { chain := .withTokens ((Script.ofByte 1).extend [0xff]) })
    (Node.ledger_chain _).symm hstored (by simp) h

end CellTx
