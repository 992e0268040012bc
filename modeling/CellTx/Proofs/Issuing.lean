import CellTx.Proofs.Collection
import CellTx.Proofs.Funded

/-!
# The account of an issued cheque

What a successful issue of a cheque comes to (specification, section 4.6). The cheque cell occupies
162 bytes whoever its parties are, which a valid configuration allows for, so it is never lifted;
the token change may be, since the sender's lock can be of any length.

Results:
* `Assembler.raised_chequeCell`: the cheque has the configured capacity.
* `Assembler.of_tokenChangeOf`: the token change holds exactly what is left over, in a cell as large
  as it has to be.
* `Assembler.shortestCover_of_collectTokens`: the tokens come from the fewest of the first token
  cells that the search for the sender's lock finds (`ShortestCover`).
* `Assembler.issue_accounts`: the account (`IssueAccount`), with the cheque's args as the first
  twenty bytes of the two lock hashes.

Out of scope: issues that fail.
-/

namespace CellTx

variable {σ : Type}

/-! ## Lifted cells -/

namespace Cell

/-- A cell that holds what it occupies is not lifted. -/
theorem raised_of_funded {c : Cell} (h : c.Funded) : c.raised = c := by
  cases ho : c.occupied? with
  | none => simp only [raised, ho, Option.map_none, Option.getD_none]
  | some o =>
    have hle : o ≤ c.capacity := (funded_iff ho).mp h
    simp only [raised, ho, Option.map_some, Option.getD_some, if_pos hle]

/-- A lifted cell holds the larger of what it is given and what it occupies. -/
theorem toNat_capacity_raised {c : Cell} {o : Capacity} (ho : c.occupied? = some o) :
    c.raised.capacity.toNat =
      max c.capacity.toNat (c.raised.occupiedBytes * Capacity.perCkb) := by
  have hbytes : c.raised.occupiedBytes = c.occupiedBytes := by
    simp only [occupiedBytes, lock_raised, type_raised, data_raised]
  rw [hbytes, ← occupied?_eq_some_iff.mp ho]
  simp only [raised, ho, Option.map_some, Option.getD_some]
  split
  · rename_i hle
    rw [UInt64.le_iff_toNat_le] at hle
    exact (Nat.max_eq_left hle).symm
  · rename_i hlt
    rw [UInt64.le_iff_toNat_le] at hlt
    exact (Nat.max_eq_right (Nat.le_of_not_le hlt)).symm

end Cell

/-- What a cheque cell occupies: eight bytes for its capacity, the amount, the cheque lock with
forty bytes of args and the type of a token. -/
theorem Assembler.occupiedBytes_chequeCell (a : Assembler σ) (r : ChequeRequest) :
    (a.chequeCell r).occupiedBytes = 162 := by
  have hargs : (a.scripts.chequeLock r.args.bytes).args.length = 40 := r.args.length_bytes
  have howner : (a.scripts.sudtType r.owner).args.length = 32 := r.owner.length_bytes
  rw [Cell.occupiedBytes, chequeCell, TokenAmount.length_data, Option.map_some, Option.getD_some,
    Script.occupiedBytes, Script.occupiedBytes, hargs, howner]
  rfl

/-- With the capacities of a valid configuration no cheque cell is lifted. -/
theorem Assembler.raised_chequeCell {a : Assembler σ} {config : Config}
    (hvalid : config.validate = .ok ()) (hcheque : a.cheque = config.cheque) (r : ChequeRequest) :
    (a.chequeCell r).raised = a.chequeCell r := by
  refine Cell.raised_of_funded ?_
  rw [Cell.Funded, a.occupiedBytes_chequeCell r, chequeCell, hcheque]
  exact (Config.validate_eq_ok_iff.mp hvalid).2.1

/-! ## Token cells -/

/-- The cells of a token whose locks start with a lock. -/
def Chain.tokensUnder (c : Chain) (lock type : Script) : List LiveCell :=
  c.live.filter fun x => x.cell.hasType type && x.cell.lock.startsWith lock

theorem ShortestCover.mono {required : TokenAmount} {found found' cells : List LiveCell}
    {held : List TokenAmount} (h : ShortestCover required found cells held)
    (hfound : found <+: found') : ShortestCover required found' cells held :=
  { h with first := h.first.trans hfound }

/-- The filter of the search for a token lets its cells through. -/
theorem filter_byLockAndType {lock type : Script} {x : LiveCell}
    (hx : x.cell.hasType type = true) :
    (SearchKey.byLockAndType lock type).filter.all
      (·.accepts ((SearchKey.byLockAndType lock type).scriptsOf x.cell).2 x) = true := by
  simp [SearchKey.byLockAndType, SearchKey.scriptsOf, SearchFilter.accepts,
    Cell.hasType_iff.mp hx]

/-- What the search for a lock's cells of a token offers a draft without inputs, through a node. -/
theorem Node.pick_byLockAndType {n : Node} {d : Draft} (hi : d.inputs = []) (lock type : Script) :
    d.pick (Cell.hasType type)
        (n.chain.live.filter (n.searched (SearchKey.byLockAndType lock type)).accepts) =
      Draft.empty.pick (Cell.hasType type) (n.chain.tokensUnder lock type) := by
  rw [Draft.pick_of_inputs_nil hi, ← Draft.pick_filter, List.filter_filter]
  refine congrArg _ (List.filter_congr fun x _ => ?_)
  by_cases hx : x.cell.hasType type = true
  · rw [accepts_searched (filter_byLockAndType hx)]
    rfl
  · rw [Bool.not_eq_true] at hx
    rw [hx, Bool.false_and, Bool.false_and]

/-- Token cells with out points of their own are all picked. -/
theorem Chain.pick_tokensUnder (c : Chain) (hn : (c.live.map LiveCell.outPoint).Nodup)
    (lock type : Script) :
    Draft.empty.pick (Cell.hasType type) (c.tokensUnder lock type) = c.tokensUnder lock type := by
  have hsub : (c.tokensUnder lock type).Sublist c.live := List.filter_sublist
  rw [Draft.pick_eq_filter (hn.sublist (hsub.map _)) fun _ _ _ => rfl]
  exact List.filter_eq_self.mpr fun x hx =>
    (Bool.and_eq_true_iff.mp (List.mem_filter.mp hx).2).1

/-! ## The account -/

/-- What an issue of a cheque spends and makes. -/
structure IssueAccount where
  /-- The token cells that are spent. -/
  tokens : List LiveCell
  /-- What each of them holds. -/
  held : List TokenAmount
  /-- The cells that pay. -/
  pulled : List LiveCell
  cheque : Cell
  tokenChange : List Cell
  change : List Cell

/-- The tokens that are spent. -/
def IssueAccount.spent (acc : IssueAccount) : Nat := (acc.held.map BitVec.toNat).sum

/-- The account of an issue of a cheque that came to a transaction, with the configured capacities
of cells. -/
structure IssueAccount.Holds (acc : IssueAccount) (c : Chain) (scripts : SystemScripts)
    (sizes : ChequeConfig) (r : ChequeRequest) (t : Transaction) : Prop where
  outputs : t.outputs = acc.cheque :: (acc.tokenChange ++ acc.change)
  /-- The cheque names the receiver and the sender, and holds what is asked for. -/
  cheque : acc.cheque = {
    capacity := sizes.cellCapacity
    lock := scripts.chequeLock (r.receiver.hash.bytes.take 20 ++ r.sender.hash.bytes.take 20)
    type := some (scripts.sudtType r.owner)
    data := TokenAmount.data r.amount }
  inputs : t.inputs = (acc.tokens ++ acc.pulled).map fun x => ⟨x.outPoint, Since.zero⟩
  /-- As few as suffice of the first token cells under the sender's lock, each out point once. -/
  tokens : ShortestCover r.amount
    (Draft.empty.pick (Cell.hasType (scripts.sudtType r.owner))
      (c.tokensUnder r.sender (scripts.sudtType r.owner))) acc.tokens acc.held
  tokens_of_nodup : (c.live.map LiveCell.outPoint).Nodup →
    acc.tokens <+: c.tokensUnder r.sender (scripts.sudtType r.owner)
  /-- Without tokens left over there is no token change. -/
  tokenChange_eq_nil : acc.spent ≤ r.amount.toNat → acc.tokenChange = []
  /-- The token change holds the tokens left over, in a cell that is as large as it has to be. -/
  tokenChange : r.amount.toNat < acc.spent → ∃ (x : Cell) (left : TokenAmount),
    acc.tokenChange = [x] ∧ x.lock = r.sender ∧ x.type = some (scripts.sudtType r.owner) ∧
      x.data = TokenAmount.data left ∧ left.toNat = acc.spent - r.amount.toNat ∧
      x.capacity.toNat =
        max sizes.tokenCellCapacity.toNat (x.occupiedBytes * Capacity.perCkb)
  change : acc.change = [] ∨ ∃ capacity, acc.change = [Cell.plain r.sender capacity] ∧
    (Cell.plain r.sender capacity).Funded
  /-- Plain cells pay. -/
  pulled : ∀ x ∈ acc.pulled, x ∈ c.live ∧ x.cell.type = none ∧ x.cell.data = [] ∧
    x.cell.lock.startsWith r.sender = true

section Issue

variable {n : Node} {a : Assembler Nat} {config : Config} {r : ChequeRequest} {res : Assembled}

/-- Tokens that cover an amount leave over exactly what is more. -/
theorem Assembler.of_tokenChangeOf {a : Assembler Nat} {collected : TokenAmount}
    (hle : r.amount.toNat ≤ collected.toNat) {o : Capacity}
    (ho : (a.tokenCell r.sender r.owner 0).occupied? = some o) :
    (collected.toNat ≤ r.amount.toNat → a.tokenChangeOf r collected = []) ∧
      (r.amount.toNat < collected.toNat → ∃ (x : Cell) (left : TokenAmount),
        a.tokenChangeOf r collected = [x] ∧ x.lock = r.sender ∧
          x.type = some (a.scripts.sudtType r.owner) ∧ x.data = TokenAmount.data left ∧
          left.toNat = collected.toNat - r.amount.toNat ∧
          x.capacity.toNat =
            max a.cheque.tokenCellCapacity.toNat (x.occupiedBytes * Capacity.perCkb)) := by
  constructor
  · intro hge
    rw [tokenChangeOf, if_pos (BitVec.eq_of_toNat_eq (Nat.le_antisymm hge hle))]
  · intro hlt
    have hne : collected ≠ r.amount := fun heq => Nat.ne_of_gt hlt (congrArg BitVec.toNat heq)
    rw [tokenChangeOf, if_neg hne]
    refine ⟨_, collected - r.amount, rfl, Cell.lock_raised _, Cell.type_raised _,
      Cell.data_raised _, BitVec.toNat_sub_of_le hle, ?_⟩
    rw [a.occupied?_tokenCell _ _ _ (collected - r.amount)] at ho
    exact Cell.toNat_capacity_raised ho

/-- What is collected for a cheque: the fewest of the first token cells under the sender's lock. -/
theorem Assembler.shortestCover_of_collectTokens (ha : a.ledger = n.ledger) {lock type : Script}
    {required collected : TokenAmount} {got : Collected} {d d' : Draft} (fresh : d.inputs = [])
    (h : Yields (a.collectTokens d type required ([SearchKey.byLockAndType lock type].map a.stream))
      ((got, collected), d')) :
    ∃ (cells : List LiveCell) (held : List TokenAmount),
      ShortestCover required (Draft.empty.pick (Cell.hasType type) (n.chain.tokensUnder lock type))
        cells held ∧
      d' = cells.foldl Draft.consume d ∧ collected.toNat = (held.map BitVec.toNat).sum := by
  have hdata : ∀ key ∈ [SearchKey.byLockAndType lock type], key.withData = true :=
    List.forall_mem_singleton.mpr rfl
  obtain ⟨found, hfound, hdelivers⟩ := exists_delivers ha hdata
  obtain ⟨cells, held, hcover, rfl, hsum⟩ := collectTokens_prefix hdelivers h
  have hcover := hcover.mono (Draft.pick_mono hfound)
  rw [List.flatMap_singleton, Node.pick_byLockAndType fresh] at hcover
  exact ⟨cells, held, hcover, rfl, hsum⟩

/-- A cheque that is issued under a valid configuration, with its account. -/
theorem Assembler.issue_accounts (hvalid : config.validate = .ok ()) (ha : a.ledger = n.ledger)
    (hcheque : a.cheque = config.cheque) (h : Yields (a.issueCheque r) res) :
    ∃ acc : IssueAccount, acc.Holds n.chain a.scripts config.cheque r res.transaction := by
  obtain ⟨o, hopens, hcompletes⟩ := Construction.anatomy_issueCheque h
  obtain ⟨-, occupied, hoccupied⟩ := exists_occupied_of_issueCheque h
  cases hopens with
  | @issueCheque _ d₀ d₁ got collected amount others fresh tokens =>
  obtain ⟨cells, held, hcover, rfl, hsum⟩ := shortestCover_of_collectTokens ha fresh tokens
  obtain ⟨pulled, change, hinputs, hpulled, houtputs, hchange⟩ := hcompletes.account ha
  have hcells : (cells.foldl Draft.consume d₀).inputs.map DraftInput.spending =
      cells.map LiveCell.spending := ((Draft.spends_nil fresh).foldl_consume cells).1
  have hchequeCell : (a.chequeCell r).raised = {
      capacity := config.cheque.cellCapacity
      lock := a.scripts.chequeLock (r.receiver.hash.bytes.take 20 ++ r.sender.hash.bytes.take 20)
      type := some (a.scripts.sudtType r.owner)
      data := TokenAmount.data r.amount } := by
    rw [raised_chequeCell hvalid hcheque, chequeCell, hcheque]
    rfl
  obtain ⟨hnone, hover⟩ := of_tokenChangeOf (hsum ▸ hcover.enough) hoccupied
  rw [hsum, hcheque] at hover
  rw [hsum] at hnone
  refine ⟨⟨cells, held, pulled, (a.chequeCell r).raised, a.tokenChangeOf r collected, change⟩, {
    outputs := houtputs
    cheque := hchequeCell
    inputs := ?_
    tokens := hcover
    tokens_of_nodup := fun hn => n.chain.pick_tokensUnder hn _ _ ▸ hcover.first
    tokenChange_eq_nil := hnone
    tokenChange := hover
    change := hchange
    pulled := hpulled }⟩
  rw [hinputs, hcells, List.map_map, List.map_append]
  rfl

end Issue

/-- A cheque of 5 out of 9 tokens. The sender's lock has a byte more of args than the configured
capacity of a token cell allows for, so the token change is lifted, and the cheque is not. -/
theorem Assembler.issue_accounts_longSender :
    let c := Chain.withTokens ((Script.ofByte 1).extend [0xff])
    let r : ChequeRequest := ⟨(Script.ofByte 1).extend [0xff], .ofByte 2, Hash.zero, 5⟩
    ({} : Config).validate = .ok () ∧ ∃ res, Yields ((onChain c).issueCheque r) res ∧
      (res.transaction.outputs.map Cell.capacity).take 2 = [16200000000, 14300000000] ∧
      ∃ acc : IssueAccount, acc.Holds c SystemScripts.mainnet {} r res.transaction := by
  intro c r
  have hvalid : ({} : Config).validate = .ok () := rfl
  obtain ⟨res, h, hcapacities⟩ := exists_yields (m := (onChain c).issueCheque r) (s := 0)
    (fun res => (res.transaction.outputs.map Cell.capacity).take 2 = [16200000000, 14300000000])
    (by decide +kernel)
  exact ⟨hvalid, res, h, of_decide_eq_true hcapacities,
    issue_accounts (n := { chain := c }) hvalid (Node.ledger_chain c).symm rfl h⟩

end CellTx
