import CellTx.Cheque.Claim
import CellTx.Cheque.Withdraw
import CellTx.Dao.Deposit
import CellTx.Dao.Withdraw
import CellTx.Transfer
import CellTx.Proofs.Draft

/-!
# What a construction promises

The outputs that each construction adds to a `Blank` draft before it spends anything. Outputs that a
caller sizes are refused unless they are `Funded`; token cells are `raised` to what they occupy.

Results:
* `TransferRequest.addReceivers_eq_ok`, `Assembler.addDeposit_eq_ok`, `Assembler.addCheque_eq_ok`,
  `Assembler.addClaimed_eq_ok`, `Assembler.addReturned_eq_ok`: what was added, one lemma for each
  construction.
* `Assembler.settleTokenChange_eq_ok`: the tokens left over are in one output, or there is none.
* `Cell.Funded.pos`: a cell that holds what it occupies holds something.

Out of scope: the outputs of the second phase of a withdrawal, which has one
(`CellTx.Proofs.Spent`).
-/

namespace CellTx

variable {σ : Type}

/-! ## Blank drafts -/

/-- A draft that spends and offers nothing yet. -/
structure Draft.Blank (d : Draft) : Prop where
  inputs : d.inputs = []
  outputs : d.outputs = []
  change : d.change = none

namespace Draft.Blank

variable {d : Draft}

theorem empty : Draft.empty.Blank := ⟨rfl, rfl, rfl⟩

theorem setVersion (h : d.Blank) (v : UInt32) : (d.setVersion v).Blank :=
  ⟨h.inputs, h.outputs, h.change⟩

theorem addHeaderDep (h : d.Blank) (hash : Hash) : (d.addHeaderDep hash).2.Blank :=
  ⟨by rw [inputs_addHeaderDep, h.inputs], by rw [outputs_addHeaderDep, h.outputs],
    by rw [change_addHeaderDep, h.change]⟩

theorem addCellDep (h : d.Blank) (dep : CellDep) : (d.addCellDep dep).Blank :=
  ⟨by rw [inputs_addCellDep, h.inputs], by rw [outputs_addCellDep, h.outputs],
    by rw [change_addCellDep, h.change]⟩

end Draft.Blank

/-! ## Outputs -/

/-- A cell that holds what it occupies. -/
def Cell.Funded (c : Cell) : Prop := c.occupiedBytes * Capacity.perCkb ≤ c.capacity.toNat

theorem Cell.Funded.pos {c : Cell} (h : c.Funded) : 0 < c.capacity.toNat := by
  have hbytes : 0 < c.occupiedBytes := by
    unfold Cell.occupiedBytes
    omega
  exact Nat.lt_of_lt_of_le (Nat.mul_pos hbytes (by decide)) h

/-- The cell, lifted to the capacity it occupies. -/
@[irreducible] def Cell.raised (c : Cell) : Cell :=
  { c with
    capacity := (c.occupied?.map fun o => if o ≤ c.capacity then c.capacity else o).getD
      c.capacity }

@[simp] theorem Cell.lock_raised (c : Cell) : c.raised.lock = c.lock := by simp only [raised]
@[simp] theorem Cell.type_raised (c : Cell) : c.raised.type = c.type := by simp only [raised]
@[simp] theorem Cell.data_raised (c : Cell) : c.raised.data = c.data := by simp only [raised]

/-- Data of the same length are written before or after lifting. -/
theorem Cell.raised_withData {c : Cell} {data : Bytes} (h : data.length = c.data.length) :
    { c.raised with data := data } = Cell.raised { c with data := data } := by
  have ho : Cell.occupied? { c with data := data } = c.occupied? := by
    simp only [occupied?, occupiedBytes, h]
  simp only [raised, ho]

theorem Draft.occupied_addOutput {d : Draft} {c : Cell} {o : Capacity}
    (h : (d.addOutput c).occupied d.outputs.length = .ok o) : c.occupied? = some o := by
  obtain ⟨c', hc, ho⟩ := Draft.occupied_eq_ok.mp h
  rw [Draft.outputs_addOutput, List.getElem?_concat_length] at hc
  rwa [Option.some.inj hc]

theorem Cell.funded_of_le {c : Cell} {o : Capacity} (ho : c.occupied? = some o)
    (h : ¬ c.capacity < o) : c.Funded := by
  rw [Cell.Funded, ← Cell.occupied?_eq_some_iff.mp ho]
  exact UInt64.le_iff_toNat_le.mp (UInt64.not_lt.mp h)

theorem Assembler.addRaised_eq_ok {cell : Cell} {d d' : Draft} (h : addRaised cell d = .ok d') :
    d'.inputs = d.inputs ∧ d'.outputs = d.outputs ++ [cell.raised] ∧ d'.change = d.change := by
  obtain ⟨⟨o, d₁⟩, hr, h⟩ := except_bind_eq_ok.mp h
  obtain rfl := Except.ok.inj h
  obtain ⟨c, hc, hr⟩ := except_bind_eq_ok.mp hr
  obtain ⟨occupied, ho, hr⟩ := except_bind_eq_ok.mp hr
  have hocc := Draft.occupied_addOutput ho
  obtain rfl : cell = c := by
    rw [Draft.output_eq_ok, Draft.outputs_addOutput, List.getElem?_concat_length] at hc
    exact Option.some.inj hc
  have hraised : cell.raised = { cell with
      capacity := if occupied ≤ cell.capacity then cell.capacity else occupied } := by
    simp only [Cell.raised, hocc, Option.map_some, Option.getD_some]
  rw [hraised]
  split at hr
  · rename_i hle
    obtain ⟨-, rfl⟩ := Prod.mk.inj (Except.ok.inj hr)
    rw [if_pos hle]
    exact ⟨rfl, rfl, rfl⟩
  · rename_i hlt
    obtain ⟨-, rfl⟩ := Prod.mk.inj (Except.ok.inj hr)
    rw [if_neg hlt]
    refine ⟨rfl, ?_, rfl⟩
    simp

theorem TransferRequest.addReceivers_eq_ok {receivers : List (Script × Capacity)} {d d' : Draft}
    (h : addReceivers receivers d = .ok d') :
    d'.inputs = d.inputs ∧
      d'.outputs = d.outputs ++ receivers.map (fun e => Cell.plain e.1 e.2) ∧
      d'.change = d.change ∧ ∀ e ∈ receivers, (Cell.plain e.1 e.2).Funded := by
  induction receivers generalizing d with
  | nil =>
    obtain rfl := Except.ok.inj h
    exact ⟨rfl, (List.append_nil _).symm, rfl, fun e he => absurd he List.not_mem_nil⟩
  | cons e receivers ih =>
    obtain ⟨lock, capacity⟩ := e
    obtain ⟨occupied, ho, h⟩ := except_bind_eq_ok.mp h
    split at h
    · exact nomatch h
    · rename_i hlt
      obtain ⟨hi, houtputs, hchange, hfunded⟩ := ih h
      refine ⟨hi, ?_, hchange, List.forall_mem_cons.mpr ⟨?_, hfunded⟩⟩
      · rw [houtputs, Draft.outputs_addOutput, List.append_assoc]
        rfl
      · exact Cell.funded_of_le (Draft.occupied_addOutput ho) hlt

/-- The cell of a new deposit. -/
def Assembler.depositCell (a : Assembler σ) (owner : Script) (capacity : Capacity) : Cell :=
  ⟨capacity, owner, some a.scripts.daoType, zeros Dao.dataLength⟩

theorem Assembler.addDeposit_eq_ok {a : Assembler σ} {owner : Script} {capacity : Capacity}
    {d d' : Draft} (hd : d.Blank) (h : a.addDeposit owner capacity d = .ok d') :
    d'.inputs = [] ∧ d'.Offers [a.depositCell owner capacity] (some owner) ∧
      (a.depositCell owner capacity).Funded := by
  obtain ⟨occupied, ho, h⟩ := except_bind_eq_ok.mp h
  split at h
  · exact nomatch h
  · rename_i hlt
    obtain rfl := Except.ok.inj h
    refine ⟨hd.inputs, ⟨?_, ?_⟩, Cell.funded_of_le (Draft.occupied_addOutput ho) hlt⟩
    · rw [Draft.outputs_addChange, Draft.outputs_addOutput, hd.outputs]
      rfl
    · rw [Draft.change_addChange, Draft.outputs_addOutput, hd.outputs]
      rfl

/-- The cell of an issued cheque. -/
def Assembler.chequeCell (a : Assembler σ) (r : ChequeRequest) : Cell :=
  ⟨a.cheque.cellCapacity, a.scripts.chequeLock r.args.bytes, some (a.scripts.sudtType r.owner),
    TokenAmount.data r.amount⟩

/-- A cell that holds tokens under a lock. -/
def Assembler.tokenCell (a : Assembler σ) (lock : Script) (owner : Hash) (amount : TokenAmount) :
    Cell :=
  ⟨a.cheque.tokenCellCapacity, lock, some (a.scripts.sudtType owner), TokenAmount.data amount⟩

/-- The token change of an issued cheque, which is there unless the tokens are used up. -/
def Assembler.tokenChangeOf (a : Assembler σ) (r : ChequeRequest) (collected : TokenAmount) :
    List Cell :=
  if collected = r.amount then []
  else [(a.tokenCell r.sender r.owner (collected - r.amount)).raised]

theorem Assembler.addCheque_eq_ok {a : Assembler σ} {r : ChequeRequest} {d d' : Draft}
    (hd : d.Blank) (h : a.addCheque r d = .ok d') :
    d'.inputs = [] ∧
      d'.Offers [(a.chequeCell r).raised, (a.tokenCell r.sender r.owner 0).raised]
        (some r.sender) := by
  obtain ⟨d₁, h₁, h⟩ := except_bind_eq_ok.mp h
  obtain ⟨d₂, h₂, h⟩ := except_bind_eq_ok.mp h
  obtain rfl := Except.ok.inj h
  obtain ⟨hi₁, ho₁, -⟩ := Assembler.addRaised_eq_ok h₁
  obtain ⟨hi₂, ho₂, -⟩ := Assembler.addRaised_eq_ok h₂
  refine ⟨by rw [Draft.inputs_addChange, hi₂, hi₁, hd.inputs], ⟨?_, ?_⟩⟩
  · rw [Draft.outputs_addChange, ho₂, ho₁, hd.outputs]
    rfl
  · rw [Draft.change_addChange, ho₂, ho₁, hd.outputs]
    rfl

/-- Settling the token change of an issued cheque. -/
theorem Assembler.settleTokenChange_eq_ok {a : Assembler σ} {r : ChequeRequest} {d d' : Draft}
    {collected : TokenAmount}
    (hd : d.Offers [(a.chequeCell r).raised, (a.tokenCell r.sender r.owner 0).raised]
      (some r.sender))
    (h : d.settleTokenChange tokenChange collected r.amount = .ok d') :
    d'.inputs = d.inputs ∧
      d'.Offers ((a.chequeCell r).raised :: a.tokenChangeOf r collected) (some r.sender) := by
  obtain ⟨houtputs, hchange⟩ := hd
  unfold Draft.settleTokenChange at h
  split at h
  · exact nomatch h
  split at h
  · rename_i heq
    obtain ⟨hi, ho, hc⟩ := Draft.removeOutput_eq_ok h
    rw [tokenChangeOf, if_pos heq]
    refine ⟨hi, ⟨?_, ?_⟩⟩
    · rw [ho, houtputs]
      rfl
    · rw [hc, hchange]
      rfl
  · rename_i hne
    obtain ⟨c, hc, h⟩ := except_bind_eq_ok.mp h
    obtain rfl := Except.ok.inj h
    obtain rfl : (a.tokenCell r.sender r.owner 0).raised = c := by
      rw [Draft.output_eq_ok, houtputs] at hc
      exact Option.some.inj hc
    have hlength : (TokenAmount.data (collected - r.amount)).length =
        (a.tokenCell r.sender r.owner 0).data.length := by
      rw [tokenCell, TokenAmount.length_data, TokenAmount.length_data]
    have hdata := Cell.raised_withData hlength
    refine ⟨rfl, ⟨?_, ?_⟩⟩
    · rw [Draft.outputs_setOutput, houtputs, Assembler.tokenChangeOf, if_neg hne, hdata]
      rfl
    · rw [Draft.change_setOutput, hchange, Assembler.tokenChangeOf, if_neg hne]
      rfl

/-- The withdrawing cell that a deposit turns into. -/
def Dao.CommittedCell.withdrawing (c : Dao.CommittedCell) : Cell :=
  { c.cell with data := leBytes Dao.dataLength c.header.number.toNat }

theorem Draft.foldl_addOutput (refunds : Refunds) (d : Draft) :
    let d' := refunds.foldl (fun d e => d.addOutput (Cell.plain e.1 e.2)) d
    d'.inputs = d.inputs ∧ d'.outputs = d.outputs ++ refunds.map fun e => Cell.plain e.1 e.2 := by
  induction refunds generalizing d with
  | nil => exact ⟨rfl, (List.append_nil _).symm⟩
  | cons e refunds ih =>
    obtain ⟨hi, ho⟩ := ih (d.addOutput (Cell.plain e.1 e.2))
    refine ⟨hi, ?_⟩
    rw [List.foldl_cons, ho, Draft.outputs_addOutput, List.append_assoc]
    rfl

theorem Assembler.addClaimed_eq_ok {a : Assembler σ} {receiver : Script} {owner : Hash}
    {t : ClaimTally} {d d' : Draft} (hd : d.Blank) (h : a.addClaimed receiver owner t d = .ok d') :
    d'.inputs = [] ∧
      d'.Offers ((a.tokenCell receiver owner t.amount).raised ::
        t.refunds.map fun e => Cell.plain e.1 e.2) (some receiver) := by
  obtain ⟨d₁, h₁, h⟩ := except_bind_eq_ok.mp h
  obtain rfl := Except.ok.inj h
  obtain ⟨hi₁, ho₁, -⟩ := Assembler.addRaised_eq_ok h₁
  obtain ⟨hi, ho⟩ := Draft.foldl_addOutput t.refunds d₁
  have houtputs := ho.trans (by rw [ho₁, hd.outputs])
  refine ⟨hi.trans (hi₁.trans hd.inputs), ⟨?_, ?_⟩⟩
  · rw [Draft.outputs_addChange]
    exact congrArg (· ++ [Cell.plain receiver 0]) houtputs
  · rw [Draft.change_addChange]
    exact congrArg (fun outputs => some (List.length outputs)) houtputs

/-- The cell that takes back a cheque. -/
def ChequeRequest.returned (r : ChequeRequest) (cheque : Cell) : Cell :=
  ⟨cheque.capacity, r.sender, cheque.type, TokenAmount.data r.amount⟩

theorem Assembler.addReturned_eq_ok {r : ChequeRequest} {c : LiveCell} {d d' : Draft}
    (hd : d.Blank) (h : addReturned r c d = .ok d') :
    d'.inputs = [] ∧ d'.Offers [(r.returned c.cell).raised] (some r.sender) := by
  obtain ⟨d₁, h₁, h⟩ := except_bind_eq_ok.mp h
  obtain rfl := Except.ok.inj h
  obtain ⟨hi₁, ho₁, -⟩ := Assembler.addRaised_eq_ok h₁
  refine ⟨hi₁.trans hd.inputs, ⟨?_, ?_⟩⟩
  · rw [Draft.outputs_addChange, ho₁, hd.outputs]
    rfl
  · rw [Draft.change_addChange, ho₁, hd.outputs]
    rfl

/-- Spending cells one after the other. -/
theorem Draft.Spends.foldl_consume {d : Draft} {spent : List Spending} (h : d.Spends spent)
    (cells : List LiveCell) :
    (cells.foldl Draft.consume d).Spends (spent ++ cells.map LiveCell.spending) := by
  induction cells generalizing d spent with
  | nil => simpa using h
  | cons c cells ih =>
    have := ih (h.consume c)
    rwa [List.append_assoc] at this

theorem Draft.Offers.foldl_consume {d : Draft} {promised : List Cell} {change : Option Script}
    (h : d.Offers promised change) (cells : List LiveCell) :
    (cells.foldl Draft.consume d).Offers promised change := by
  induction cells generalizing d with
  | nil => exact h
  | cons c cells ih => exact ih (h.consume c)

end CellTx
