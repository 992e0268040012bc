import CellTx.Proofs.Additions
import CellTx.Proofs.Claiming
import CellTx.Proofs.Payout

/-!
# The life of a deposit

A deposit is made by one transaction, turned into a withdrawing cell by a second and claimed by a
third (specification, section 4.5). What each leaves on the chain is what the next looks for. Change
and the cells that pay come after these places.

Results:
* `Assembler.of_deposit`: the deposit is the first output of the first transaction.
* `Assembler.of_withdraw`: the second spends it with its first input and puts the withdrawing cell
  at the same place, with the number of the deposit's block as data.
* `Assembler.deposit_claimed`: from there the third finds both, and comes to one of the four
  outcomes of a claim (`CellTx.Proofs.Claiming`).

Out of scope: deposits of block zero (`CellTx.Proofs.WithdrawnState`), and deposits that stand at
another place of their transaction.
-/

namespace CellTx

variable {σ : Type}

/-! ## The data of a withdrawing cell -/

theorem leNat_eq_zero {l : Bytes} (h : l.all (· = 0) = true) : leNat l = 0 := by
  induction l with
  | nil => rfl
  | cons b l ih =>
    rw [List.all_cons, Bool.and_eq_true, decide_eq_true_eq] at h
    rw [leNat, h.1, ih h.2]
    rfl

/-- The number of a block is written with a byte that is not zero, unless it is zero. -/
theorem any_ne_zero_leBytes {number : UInt64} (h : 1 ≤ number) :
    (leBytes 8 number.toNat).any (· ≠ 0) = true := by
  by_contra hany
  have hall : (leBytes 8 number.toNat).all (· = 0) = true := by
    simpa using hany
  have hzero := leNat_eq_zero hall
  rw [leNat_leBytes (by simpa [byteBound] using number.toNat_lt)] at hzero
  rw [UInt64.le_iff_toNat_le, hzero] at h
  exact absurd h (by decide)

/-! ## The first two transactions -/

namespace Draft

theorem headerDeps_of_pass {l : Ledger σ} {keys : List SearchKey} {accept : Cell → Bool}
    {d d' : Draft} {cells : List LiveCell} (h : Pass l keys accept d cells d') :
    d'.headerDeps = d.headerDeps := by
  induction h with
  | done => rfl
  | spend _ _ _ _ ih => exact ih

end Draft

namespace Assembler

variable {a : Assembler σ} {r : Assembled}

/-- A deposit is the first output of its transaction. -/
theorem of_deposit {owner : Script} {capacity : Capacity}
    (h : Yields (a.deposit owner capacity) r) :
    r.transaction.outputs[0]? = some (a.depositCell owner capacity) ∧
      (a.depositCell owner capacity).Funded := by
  obtain ⟨o, hopens, hcompletes⟩ := Construction.anatomy_deposit h
  obtain ⟨_, left, -, houtputs⟩ := hcompletes.first
  cases hopens with
  | deposit funded =>
    rw [houtputs]
    exact ⟨rfl, funded⟩

/-- A withdrawing cell is the first output of its transaction, whose first input spends the
deposit. -/
theorem of_withdraw {p : OutPoint} (h : Yields (a.withdraw p) r) :
    ∃ c, Yields (Dao.CommittedCell.load a.ledger p) c ∧
      r.transaction.inputs[0]? = some ⟨c.outPoint, Since.zero⟩ ∧
      r.transaction.outputs[0]? = some c.withdrawing := by
  obtain ⟨o, hopens, hcompletes⟩ := Construction.anatomy_withdraw h
  obtain ⟨_, left, hinputs, houtputs⟩ := hcompletes.first
  cases hopens with
  | withdraw loaded =>
    rw [hinputs, houtputs]
    exact ⟨_, loaded, rfl, rfl⟩

/-- A withdrawal names the block of the deposit, and no other. -/
theorem headerDeps_withdraw {p : OutPoint} (h : Yields (a.withdraw p) r) :
    ∃ c, Yields (Dao.CommittedCell.load a.ledger p) c ∧
      r.transaction.headerDeps = [c.header.hash] := by
  obtain ⟨c, d₁, d₂, d₃, d₄, d₅, d, hinit, h₁, h₂, h₃, h₄, h₅, h₆, ht, -, -⟩ :=
    Flow.of_assemble h
  obtain ⟨c', hload, hinit⟩ := hinit.bind
  obtain ⟨_, -, hinit⟩ := hinit.bind
  obtain rfl := hinit.of_pure
  refine ⟨c, hload, ?_⟩
  have hnamed : d₂.headerDeps = [c.header.hash] := by
    rw [h₂.of_pure, Draft.headerDeps_addHeaderDep, h₁.of_pure]
    rfl
  have hbuilt : d₄.headerDeps = d₂.headerDeps := by
    rw [h₄.of_pure, h₃.of_pure]
    simp
  have hspent : d₅.headerDeps = d₄.headerDeps := by
    obtain ⟨⟨_, d'⟩, hcollect, h₅⟩ := h₅.bind
    have hcollect : Yields (a.collectCapacity (d₄.addInput c.outPoint c.cell Since.zero none)
      ([SearchKey.plainByLock c.cell.lock].map a.stream)) _ := hcollect
    obtain ⟨cells, pass, -⟩ := collectCapacity_spec hcollect
    rw [h₅.of_pure, Draft.headerDeps_of_pass pass]
    rfl
  rw [ht]
  exact (frame_settleChange h₆).2.trans (hspent.trans (hbuilt.trans hnamed))

end Assembler

/-! ## The third transaction -/

/-- A deposit is a DAO cell whose data are all zero. -/
theorem isDeposit_depositCell {a : Assembler σ} {scripts : SystemScripts} {owner : Script}
    {capacity : Capacity} (hscripts : scripts = a.scripts) (p : OutPoint) (t : Transaction)
    (block : Header) :
    Dao.CommittedCell.isDeposit ⟨p, a.depositCell owner capacity, t, block⟩ scripts = true := by
  subst hscripts
  simp [Dao.CommittedCell.isDeposit, Dao.CommittedCell.isDaoCell, Assembler.depositCell,
    Cell.hasType, Dao.dataLength, zeros]

/-- What a deposit turns into is a withdrawing cell, unless it was made in the first block. -/
theorem isWithdrawing_withdrawing {d : Dao.CommittedCell} {scripts : SystemScripts}
    (hdeposit : d.isDeposit scripts = true) (hnumber : 1 ≤ d.header.number) (p : OutPoint)
    (t : Transaction) (block : Header) :
    Dao.CommittedCell.isWithdrawing ⟨p, d.withdrawing, t, block⟩ scripts = true := by
  rw [Dao.CommittedCell.isDeposit, Dao.CommittedCell.isDaoCell, Bool.and_eq_true,
    Bool.and_eq_true] at hdeposit
  rw [Dao.CommittedCell.isWithdrawing, Dao.CommittedCell.isDaoCell, Bool.and_eq_true,
    Bool.and_eq_true]
  exact ⟨⟨by simp [Dao.CommittedCell.withdrawing], hdeposit.1.2⟩, any_ne_zero_leBytes hnumber⟩

/-- What a deposit occupies, a plain cell of its owner can occupy. -/
theorem changeFloor_lt_of_deposit {a : Assembler σ} {owner : Script} {capacity : Capacity}
    (h : (a.depositCell owner capacity).Funded) : changeFloor owner < UInt64.size := by
  have hle : (Cell.plain owner 0).occupiedBytes ≤ (a.depositCell owner capacity).occupiedBytes := by
    simp only [Cell.occupiedBytes, Cell.plain, Assembler.depositCell, List.length_nil,
      Option.map_none, Option.getD_none]
    omega
  exact Nat.lt_of_le_of_lt (Nat.le_trans (Nat.mul_le_mul_right _ hle) h) (Capacity.toNat_lt _)

/-- The deposit behind a first output is what the first input spends. -/
theorem depositOutPoint_of_first {hash : Hash} {cell : Cell} {t : Transaction} {block : Header}
    {q : OutPoint} {since : Since} (h : t.inputs[0]? = some ⟨q, since⟩) :
    Dao.CommittedCell.depositOutPoint ⟨⟨hash, 0⟩, cell, t, block⟩ = .ok q := by
  have hinput : t.inputs[(0 : UInt32).toNat]? = some ⟨q, since⟩ := h
  simp only [Dao.CommittedCell.depositOutPoint, hinput]

/-- A deposit that a chain has committed is withdrawn into a cell that keeps its capacity, lock and
type. Once a chain has committed that too, the claim ends in one of four ways: it pays the owner
what the deposit is worth in the block of the withdrawal, less the fee. -/
theorem Assembler.deposit_claimed {a₀ : Assembler σ} {a₁ a₂ : Assembler Nat} {c₁ c₂ : Chain}
    {owner : Script} {capacity : Capacity} {r₁ r₂ : Assembled} {block₁ block₂ : Header}
    (ha₁ : a₁.ledger = c₁.ledger) (ha₂ : a₂.ledger = c₂.ledger)
    (hscripts : a₂.scripts = a₀.scripts) (hf : a₂.estimator = Fee.bySize)
    (hdeposit : Yields (a₀.deposit owner capacity) r₁)
    (hcommits₁ : c₁.Commits r₁.transaction block₁) (hnumber : 1 ≤ block₁.number)
    (hwithdraw : Yields (a₁.withdraw ⟨r₁.transaction.hash, 0⟩) r₂)
    (hcommits : c₂.Commits r₁.transaction block₁) (hcommits₂ : c₂.Commits r₂.transaction block₂)
    (hlater : block₁.number < block₂.number) :
    (r₂.transaction.inputs[0]? = some ⟨⟨r₁.transaction.hash, 0⟩, Since.zero⟩ ∧
      r₂.transaction.headerDeps = [block₁.hash] ∧
      r₂.transaction.outputs[0]? =
        some ⟨capacity, owner, some a₀.scripts.daoType, leBytes 8 block₁.number.toNat⟩) ∧
    ∃ res, Ends (a₂.claim ⟨r₂.transaction.hash, 0⟩) res ∧
      ClaimOutcome block₁ block₂ ⟨r₂.transaction.hash, 0⟩ owner
        (c₂.maximumWithdraw ⟨r₁.transaction.hash, 0⟩ block₂.hash) res := by
  obtain ⟨hfirst, hfunded⟩ := of_deposit hdeposit
  -- the withdrawal found the deposit in its block
  have hfound := hcommits₁.ends_load (i := 0) hfirst
  obtain ⟨d, hload, hinput, houtput⟩ := of_withdraw hwithdraw
  obtain ⟨d', hload', hdeps⟩ := headerDeps_withdraw hwithdraw
  rw [ha₁] at hload hload'
  obtain rfl := hfound.eq hload
  obtain rfl := hfound.eq hload'
  refine ⟨⟨hinput, hdeps, houtput⟩, ?_⟩
  -- the claim finds both
  have hisDeposit : Dao.CommittedCell.isDeposit ⟨⟨r₁.transaction.hash, 0⟩,
      a₀.depositCell owner capacity, r₁.transaction, block₁⟩ a₂.scripts = true :=
    isDeposit_depositCell hscripts _ _ _
  have hheaders : block₂.hash ≠ block₁.hash := by
    intro heq
    have hsame : some block₁ = some block₂ := by
      rw [← hcommits.header, ← hcommits₂.header, heq]
    rw [Option.some.inj hsame] at hlater
    exact UInt64.lt_irrefl _ hlater
  exact ends_claim ha₂ hf (hcommits₂.ends_load (i := 0) houtput)
    (isWithdrawing_withdrawing hisDeposit hnumber _ _ _) (depositOutPoint_of_first hinput)
    (hcommits.ends_load (i := 0) hfirst) hisDeposit hheaders (changeFloor_lt_of_deposit hfunded)

/-- A deposit of 300 CKB out of 1000, made in block 1, withdrawn in block 2 and claimed. -/
theorem Assembler.deposit_claimed_fromOneCell :
    ∃ r₁ r₂ r₃, let c₀ := Chain.oneCell (.plain (.ofByte 1) 100000000000)
      let c₁ := c₀.commit r₁.transaction depositBlock
      let c₂ := c₁.commit r₂.transaction withdrawBlock
      Yields ((onChain c₀).deposit (.ofByte 1) 30000000000) r₁ ∧
      Yields ((onChain c₁).withdraw ⟨r₁.transaction.hash, 0⟩) r₂ ∧
      Yields ((onChain c₂).claim ⟨r₂.transaction.hash, 0⟩) r₃ ∧
      ClaimOutcome depositBlock withdrawBlock ⟨r₂.transaction.hash, 0⟩ (.ofByte 1)
        (c₂.maximumWithdraw ⟨r₁.transaction.hash, 0⟩ withdrawBlock.hash) (.ok r₃) := by
  let c₀ := Chain.oneCell (.plain (.ofByte 1) 100000000000)
  obtain ⟨r₁, hdeposit, h⟩ := exists_yields (m := (onChain c₀).deposit (.ofByte 1) 30000000000)
    (s := 0) (fun r₁ =>
      let c₁ := c₀.commit r₁.transaction depositBlock
      (((onChain c₁).withdraw ⟨r₁.transaction.hash, 0⟩).run.run 0).1.toOption.any fun r₂ =>
        let c₂ := c₁.commit r₂.transaction withdrawBlock
        (r₂.transaction.hash ≠ r₁.transaction.hash : Bool) &&
          (((onChain c₂).claim ⟨r₂.transaction.hash, 0⟩).run.run 0).1.toOption.any fun _ => true)
    (by decide +kernel)
  obtain ⟨r₂, hwithdraw, h⟩ := exists_yields _ h
  rw [Bool.and_eq_true, decide_eq_true_eq] at h
  obtain ⟨hhash, h⟩ := h
  obtain ⟨r₃, hclaim, -⟩ := exists_yields _ h
  have hblock : withdrawBlock.hash ≠ depositBlock.hash := by decide +kernel
  have hcommits := Chain.commits_commit c₀ r₁.transaction depositBlock
  -- the three assemblers differ in their ledgers only
  have hledger : ∀ c : Chain, (onChain c).ledger = c.ledger := fun _ => rfl
  have hscripts : ∀ c : Chain, (onChain c).scripts = (onChain c₀).scripts := fun _ => rfl
  have hf : ∀ c : Chain, (onChain c).estimator = Fee.bySize := fun _ => rfl
  obtain ⟨-, res, hends, houtcome⟩ := deposit_claimed (hledger _) (hledger _) (hscripts _) (hf _)
    hdeposit hcommits (by decide +kernel) hwithdraw
    (hcommits.commit hhash fun h => absurd h hblock)
    (Chain.commits_commit _ r₂.transaction withdrawBlock) (by decide +kernel)
  obtain rfl : res = .ok r₃ := Always.eq hends hclaim
  exact ⟨r₁, r₂, r₃, hdeposit, hwithdraw, hclaim, houtcome⟩

end CellTx
