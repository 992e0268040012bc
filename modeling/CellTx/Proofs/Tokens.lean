import CellTx.Proofs.Spent
import Mathlib.Data.List.Forall2

/-!
# Tokens are conserved

Whatever a construction does, the cells that it spends and the cells that it makes hold the same
amount of every token, as numbers and not modulo the width of an amount. What is spent to pay and
what comes back as change is plain, so it suffices to look at what a construction starts from.

Results:
* `Conserves.append`, `Conserves.of_amounts`, `Conserves.of_typed`: conservation goes along with
  lists of cells, and holds of cells whose amounts have one sum.
* `conserves_issueCheque`, `conserves_claimCheques`, `conserves_withdrawCheque`: the three
  constructions that move tokens conserve them; `Opens.conserves` is the case of all.
* `Construction.tokens_conserved`: no result mints or burns a token, and every cell of a token that
  is spent or made holds an amount.

Out of scope: what the type script of a token demands, and tokens that keep their amounts elsewhere.
-/

namespace CellTx

variable {σ : Type}

/-- The tokens of a type in a cell. -/
def Cell.tokens (type : Script) (c : Cell) : Nat :=
  if c.hasType type then ((TokenAmount.ofData? c.data).map BitVec.toNat).getD 0 else 0

/-- The tokens of a type in some cells. -/
def tokensIn (type : Script) (cells : List Cell) : Nat := (cells.map (Cell.tokens type)).sum

/-- A cell of the type holds an amount that can be read. -/
def Cell.Readable (type : Script) (c : Cell) : Prop :=
  c.hasType type = true → (TokenAmount.ofData? c.data).isSome = true

/-- The spent cells hold the tokens of the cells made, and every amount can be read. -/
structure Conserves (type : Script) (spent made : List Cell) : Prop where
  readable : ∀ c ∈ spent ++ made, c.Readable type
  balanced : tokensIn type spent = tokensIn type made

/-! ## Tokens of single cells -/

theorem Cell.tokens_of_not_hasType {type : Script} {c : Cell} (h : c.hasType type = false) :
    c.tokens type = 0 := by
  rw [tokens, h]
  rfl

theorem Cell.tokens_of_ofData {type : Script} {c : Cell} {x : TokenAmount}
    (htype : c.hasType type = true) (hdata : TokenAmount.ofData? c.data = some x) :
    c.tokens type = x.toNat := by
  rw [tokens, htype, hdata]
  rfl

theorem Cell.not_hasType_of_isPlain {type : Script} {c : Cell} (h : c.isPlain = true) :
    c.hasType type = false := by
  rw [hasType, (Cell.isPlain_iff.mp h).1]
  rfl

/-- A cell has no second type. -/
theorem Cell.not_hasType_of_ne {type other : Script} {c : Cell} (h : c.hasType other = true)
    (hne : other ≠ type) : c.hasType type = false := by
  rw [hasType, hasType_iff.mp h, decide_eq_false_iff_not]
  exact fun heq => hne (Option.some.inj heq)

/-- DAO cells hold no tokens: the type of a token has args. -/
theorem SystemScripts.daoType_ne_sudtType (s : SystemScripts) (owner : Hash) :
    s.daoType ≠ s.sudtType owner := by
  intro h
  have hlength : ([] : Bytes).length = owner.bytes.length :=
    congrArg (fun t : Script => t.args.length) h
  rw [owner.length_bytes] at hlength
  exact absurd hlength (by decide)

/-! ## Tokens of many cells -/

theorem tokensIn_append (type : Script) (s t : List Cell) :
    tokensIn type (s ++ t) = tokensIn type s + tokensIn type t := by
  rw [tokensIn, List.map_append, List.sum_append]
  rfl

theorem tokensIn_cons (type : Script) (c : Cell) (s : List Cell) :
    tokensIn type (c :: s) = c.tokens type + tokensIn type s := by
  rw [tokensIn, List.map_cons, List.sum_cons]
  rfl

theorem tokensIn_eq_zero {type : Script} {cells : List Cell}
    (h : ∀ c ∈ cells, c.hasType type = false) : tokensIn type cells = 0 := by
  induction cells with
  | nil => rfl
  | cons c cells ih =>
    obtain ⟨hc, hcells⟩ := List.forall_mem_cons.mp h
    rw [tokensIn_cons, Cell.tokens_of_not_hasType hc, ih hcells]

/-- Cells of the type whose amounts are known. -/
theorem tokensIn_of_amounts {α : Type} {type : Script} {cell : α → Cell} {l : List α}
    {amounts : List TokenAmount} (htype : ∀ x ∈ l, (cell x).hasType type = true)
    (hdata : l.map (fun x => TokenAmount.ofData? (cell x).data) = amounts.map some) :
    tokensIn type (l.map cell) = (amounts.map BitVec.toNat).sum ∧
      ∀ c ∈ l.map cell, c.Readable type := by
  induction l generalizing amounts with
  | nil =>
    obtain rfl : amounts = [] := List.map_eq_nil_iff.mp hdata.symm
    exact ⟨rfl, fun c hc => absurd hc List.not_mem_nil⟩
  | cons x l ih =>
    obtain ⟨hx, hl⟩ := List.forall_mem_cons.mp htype
    cases amounts with
    | nil => exact nomatch hdata
    | cons y amounts =>
      rw [List.map_cons, List.map_cons] at hdata
      obtain ⟨hy, hrest⟩ := List.cons.inj hdata
      obtain ⟨hsum, hreadable⟩ := ih hl hrest
      constructor
      · rw [List.map_cons, tokensIn_cons, Cell.tokens_of_ofData hx hy, hsum, List.map_cons,
          List.sum_cons]
      · refine List.forall_mem_cons.mpr ⟨fun _ => ?_, hreadable⟩
        rw [hy]
        rfl

namespace Conserves

variable {type : Script} {spent made : List Cell}

/-- Without cells of the type there is nothing to conserve. -/
theorem of_not_hasType (h : ∀ c ∈ spent ++ made, c.hasType type = false) :
    Conserves type spent made := by
  refine ⟨fun c hc ht => absurd ((h c hc).symm.trans ht) Bool.false_ne_true, ?_⟩
  rw [tokensIn_eq_zero fun c hc => h c (List.mem_append_left made hc),
    tokensIn_eq_zero fun c hc => h c (List.mem_append_right spent hc)]

theorem append {spent' made' : List Cell} (h : Conserves type spent made)
    (h' : Conserves type spent' made') : Conserves type (spent ++ spent') (made ++ made') := by
  refine ⟨fun c hc => ?_, by rw [tokensIn_append, tokensIn_append, h.balanced, h'.balanced]⟩
  simp only [List.mem_append] at hc
  rcases hc with (hc | hc) | (hc | hc)
  · exact h.readable c (List.mem_append_left made hc)
  · exact h'.readable c (List.mem_append_left made' hc)
  · exact h.readable c (List.mem_append_right spent hc)
  · exact h'.readable c (List.mem_append_right spent' hc)

end Conserves

/-! ## Token cells -/

/-- A cell that was written with an amount. -/
theorem Cell.tokens_of_data {type : Script} {c : Cell} {x : TokenAmount}
    (htype : c.type = some type) (hdata : c.data = TokenAmount.data x) :
    c.tokens type = x.toNat ∧ c.Readable type := by
  have hread : TokenAmount.ofData? c.data = some x := by rw [hdata, TokenAmount.ofData?_data]
  exact ⟨tokens_of_ofData (hasType_iff.mpr htype) hread, fun _ => by rw [hread]; rfl⟩

/-- Cells of another type hold none of the tokens. -/
theorem Conserves.of_type_ne {type other : Script} {spent made : List Cell} (hne : other ≠ type)
    (h : ∀ c ∈ spent ++ made, c.type = none ∨ c.type = some other) :
    Conserves type spent made := by
  refine .of_not_hasType fun c hc => ?_
  rcases h c hc with htype | htype
  · rw [Cell.hasType, htype]
    rfl
  · exact Cell.not_hasType_of_ne (Cell.hasType_iff.mpr htype) hne

theorem Conserves.of_amounts {type : Script} {spent made : List Cell}
    (hspent : ∀ c ∈ spent, c.Readable type) (hmade : ∀ c ∈ made, c.Readable type)
    (h : tokensIn type spent = tokensIn type made) : Conserves type spent made := by
  refine ⟨fun c hc => ?_, h⟩
  rcases List.mem_append.mp hc with hc | hc
  · exact hspent c hc
  · exact hmade c hc

/-- Plain cells that are lists of owed capacities hold no tokens. -/
theorem tokensIn_plain (type : Script) (l : List (Script × Capacity)) :
    tokensIn type (l.map fun e => Cell.plain e.1 e.2) = 0 := by
  refine tokensIn_eq_zero fun c hc => ?_
  obtain ⟨e, -, rfl⟩ := List.mem_map.mp hc
  rfl

/-- The token change of an issued cheque holds what was collected beyond the cheque. -/
theorem Assembler.tokens_tokenChangeOf (a : Assembler σ) (r : ChequeRequest)
    {collected : TokenAmount} (h : r.amount ≤ collected) :
    tokensIn (a.scripts.sudtType r.owner) (a.tokenChangeOf r collected) + r.amount.toNat =
        collected.toNat ∧
      ∀ c ∈ a.tokenChangeOf r collected, c.Readable (a.scripts.sudtType r.owner) := by
  unfold tokenChangeOf
  split
  · rename_i heq
    exact ⟨by rw [heq]; exact Nat.zero_add _, fun c hc => absurd hc List.not_mem_nil⟩
  · obtain ⟨htokens, hreadable⟩ :=
      Cell.tokens_of_data (c := (a.tokenCell r.sender r.owner (collected - r.amount)).raised)
        (Cell.type_raised _) (Cell.data_raised _)
    refine ⟨?_, fun c hc => List.mem_singleton.mp hc ▸ hreadable⟩
    rw [tokensIn_cons, htokens, BitVec.toNat_sub_of_le h]
    have : r.amount.toNat ≤ collected.toNat := h
    have hnil : tokensIn (a.scripts.sudtType r.owner) [] = 0 := rfl
    omega

/-- Cells of one type, and cells without type, conserve every token if they conserve that one. -/
theorem Conserves.of_typed {type : Script} (other : Script) {spent made : List Cell}
    (htype : ∀ c ∈ spent ++ made, c.type = none ∨ c.type = some other)
    (h : Conserves other spent made) : Conserves type spent made := by
  by_cases heq : other = type
  · exact heq ▸ h
  · exact .of_type_ne heq htype

/-! ## Constructions -/

section Constructions

variable {a : Assembler σ}

/-- An issued cheque and its token change hold what was collected for them. -/
theorem conserves_issueCheque {r : ChequeRequest} {cells : List LiveCell}
    {held : List TokenAmount} {collected : TokenAmount}
    (accepted : ∀ x ∈ cells, x.cell.hasType (a.scripts.sudtType r.owner) = true)
    (decoded : cells.map (fun x => TokenAmount.ofData? x.cell.data) = held.map some)
    (sum : collected.toNat = (held.map BitVec.toNat).sum) (enough : r.amount ≤ collected)
    (type : Script) :
    Conserves type (cells.map LiveCell.cell)
      ((a.chequeCell r).raised :: a.tokenChangeOf r collected) := by
  refine .of_typed (a.scripts.sudtType r.owner) (fun c hc => Or.inr ?_) ?_
  · rcases List.mem_append.mp hc with hc | hc
    · obtain ⟨x, hx, rfl⟩ := List.mem_map.mp hc
      exact Cell.hasType_iff.mp (accepted x hx)
    · rcases List.mem_cons.mp hc with rfl | hc
      · exact Cell.type_raised _
      · unfold Assembler.tokenChangeOf at hc
        split at hc
        · exact absurd hc List.not_mem_nil
        · rw [List.mem_singleton.mp hc]
          exact Cell.type_raised _
  · obtain ⟨hspent, hreadable⟩ := tokensIn_of_amounts accepted decoded
    obtain ⟨hchange, hreadable'⟩ := a.tokens_tokenChangeOf r enough
    obtain ⟨hcheque, hreadable''⟩ := Cell.tokens_of_data (c := (a.chequeCell r).raised)
      (Cell.type_raised _) (Cell.data_raised _)
    refine .of_amounts hreadable (List.forall_mem_cons.mpr ⟨hreadable'', hreadable'⟩) ?_
    rw [hspent, tokensIn_cons, hcheque]
    omega

/-- The claimed cell holds what the counted cheques hold, and refunds hold nothing. -/
theorem conserves_claimCheques {receiver : Script} {owner : Hash} {t : ClaimTally}
    {cells : List LiveCell} {counted : List CountedCheque}
    (h : Tallies a (a.scripts.sudtType owner) receiver.hashHead {} cells counted t)
    (type : Script) :
    Conserves type (counted.map fun e => e.cheque.cell)
      ((a.tokenCell receiver owner t.amount).raised ::
        t.refunds.map fun e => Cell.plain e.1 e.2) := by
  have htype : ∀ e ∈ counted, e.cheque.cell.hasType (a.scripts.sudtType owner) = true :=
    fun e he => (hasType_of_chequeArgsFor (h.counted_spec e he).1).1
  refine .of_typed (a.scripts.sudtType owner) (fun c hc => ?_) ?_
  · rcases List.mem_append.mp hc with hc | hc
    · obtain ⟨e, he, rfl⟩ := List.mem_map.mp hc
      exact Or.inr (Cell.hasType_iff.mp (htype e he))
    · rcases List.mem_cons.mp hc with rfl | hc
      · exact Or.inr (Cell.type_raised _)
      · obtain ⟨e, -, rfl⟩ := List.mem_map.mp hc
        exact Or.inl rfl
  · obtain ⟨hspent, hreadable⟩ := tokensIn_of_amounts htype h.amounts_eq
    obtain ⟨hclaimed, hreadable'⟩ := Cell.tokens_of_data
      (c := (a.tokenCell receiver owner t.amount).raised) (Cell.type_raised _)
      (Cell.data_raised _)
    refine .of_amounts hreadable (List.forall_mem_cons.mpr ⟨hreadable', fun c hc => ?_⟩) ?_
    · obtain ⟨e, -, rfl⟩ := List.mem_map.mp hc
      exact fun htype => nomatch htype
    · rw [hspent, tokensIn_cons, hclaimed, tokensIn_plain, h.amount_eq, List.map_map]
      exact (Nat.zero_add _).symm

/-- A cheque that is taken back holds what it held. -/
theorem conserves_withdrawCheque {r : ChequeRequest} {cell : Cell} {owner : Hash}
    (htype : cell.type = some (a.scripts.sudtType owner))
    (hdata : TokenAmount.ofData? cell.data = some r.amount) (type : Script) :
    Conserves type [cell] [(r.returned cell).raised] := by
  have htype' := (Cell.type_raised (r.returned cell)).trans htype
  refine .of_typed (a.scripts.sudtType owner) (fun x hx => Or.inr ?_) ?_
  · rcases List.mem_cons.mp hx with rfl | hx
    · exact htype
    · rw [List.mem_singleton.mp hx]
      exact htype'
  · obtain ⟨hreturned, hreadable⟩ := Cell.tokens_of_data htype' (Cell.data_raised _)
    refine .of_amounts (List.forall_mem_singleton.mpr fun _ => by rw [hdata]; rfl)
      (List.forall_mem_singleton.mpr hreadable) ?_
    rw [tokensIn_cons, tokensIn_cons, hreturned,
      Cell.tokens_of_ofData (Cell.hasType_iff.mpr htype) hdata]

/-- What a construction starts from holds as many tokens as the outputs that stay. -/
theorem Opens.conserves {k : Construction} {o : Opening} (h : Opens a k o) (owner : Hash) :
    Conserves (a.scripts.sudtType owner) (o.spent.map Spending.cell) o.promised := by
  have hdao := a.scripts.daoType_ne_sudtType owner
  cases h with
  | transfer =>
    refine .of_type_ne hdao fun c hc => Or.inl ?_
    obtain ⟨e, -, rfl⟩ := List.mem_map.mp hc
    rfl
  | deposit =>
    refine .of_type_ne hdao fun c hc => Or.inr ?_
    rw [List.mem_singleton.mp hc]
    rfl
  | @withdraw p c _ hdeposit =>
    rw [Dao.CommittedCell.isDeposit, Bool.and_eq_true, Dao.CommittedCell.isDaoCell,
      Bool.and_eq_true] at hdeposit
    have htype := Cell.hasType_iff.mp hdeposit.1.2
    refine .of_type_ne hdao fun x hx => Or.inr ?_
    rcases List.mem_cons.mp hx with rfl | hx
    · exact htype
    · rw [List.mem_singleton.mp hx]
      exact htype
  | issueCheque _ _ fresh tokens =>
    obtain ⟨cells, held, tokens, hspends, enough, decoded, sum⟩ :=
      Assembler.collectTokens_fresh fresh tokens
    rw [hspends.1, List.map_map]
    exact conserves_issueCheque tokens.accepted decoded sum enough _
  | claimCheques found =>
    obtain ⟨cells, counted, -, htallies, -⟩ := Assembler.findCheques_spec found
    rw [List.map_map, htallies.cheques_eq]
    change Conserves _ (([] ++ counted.map CountedCheque.cheque).map _) _
    rw [List.nil_append, List.map_map]
    exact conserves_claimCheques htallies _
  | withdrawCheque found =>
    obtain ⟨hasked, -⟩ := Assembler.findCheque_spec found
    rw [ChequeRequest.isAsked, Bool.and_eq_true, Bool.and_eq_true, decide_eq_true_eq] at hasked
    exact conserves_withdrawCheque (Cell.hasType_iff.mp hasked.1.2) hasked.1.1 _

/-- What is collected to pay and what is left of the change hold no tokens. -/
theorem Completes.conserves {k : Construction} {o : Opening} {r : Assembled} (hopens : Opens a k o)
    (h : Completes a o r) :
    ∃ cells : List LiveCell, (∀ c ∈ cells, PaidBy a.ledger o.payers c) ∧
      r.transaction.inputs = (o.spent ++ cells.map LiveCell.spending).map Spending.input ∧
      ∀ owner, Conserves (a.scripts.sudtType owner)
        ((o.spent ++ cells.map LiveCell.spending).map Spending.cell) r.transaction.outputs := by
  obtain ⟨d, cells, left, ht, -, hspends, hpaid, houtputs, hleft⟩ := h.result
  refine ⟨cells, hpaid, by rw [ht, Draft.inputs_transaction, hspends.1], fun owner => ?_⟩
  rw [ht, List.map_append]
  change Conserves _ _ d.outputs
  rw [houtputs]
  refine (hopens.conserves owner).append (.of_not_hasType fun c hc => ?_)
  rcases List.mem_append.mp hc with hc | hc
  · obtain ⟨s, hs, rfl⟩ := List.mem_map.mp hc
    obtain ⟨x, hx, rfl⟩ := List.mem_map.mp hs
    exact Cell.not_hasType_of_isPlain (hpaid x hx).1
  · exact Cell.not_hasType_of_isPlain (hleft.isPlain c hc)

/-- A claimed withdrawing cell and what it is paid out to hold no tokens. -/
theorem Claims.conserves {p : OutPoint} {r : Assembled} (h : Claims a p r) :
    ∃ w : Assembler.WithdrawingCell, Yields (a.loadWithdrawing p) w ∧
      r.transaction.inputs = [⟨w.cell.outPoint, Since.absoluteEpoch w.unlock⟩] ∧
      ∀ owner, Conserves (a.scripts.sudtType owner) [w.cell.cell] r.transaction.outputs := by
  obtain ⟨w, d, hloaded, ht, -, hspends, -, capacity, houtputs⟩ := h.result
  obtain ⟨-, hdao, -⟩ := Assembler.of_loadWithdrawing hloaded
  rw [Dao.CommittedCell.isWithdrawing, Bool.and_eq_true, Dao.CommittedCell.isDaoCell,
    Bool.and_eq_true] at hdao
  refine ⟨w, hloaded, by rw [ht, Draft.inputs_transaction, hspends]; rfl, fun owner => ?_⟩
  rw [ht]
  change Conserves _ _ d.outputs
  rw [houtputs]
  refine .of_type_ne (a.scripts.daoType_ne_sudtType owner) fun c hc => ?_
  rcases List.mem_cons.mp hc with rfl | hc
  · exact Or.inr (Cell.hasType_iff.mp hdao.1.2)
  · rw [List.mem_singleton.mp hc]
    exact Or.inl rfl

end Constructions

/-- Cells that a chain has at the out points of some inputs. -/
theorem forall₂_has {c : Chain} {spent : List Spending}
    (h : ∀ s ∈ spent, c.Has s.outPoint s.cell) :
    List.Forall₂ (fun (i : Input) cell => c.Has i.previous cell) (spent.map Spending.input)
      (spent.map Spending.cell) := by
  induction spent with
  | nil => exact .nil
  | cons s spent ih =>
    obtain ⟨hs, hspent⟩ := List.forall_mem_cons.mp h
    exact .cons hs (ih hspent)

/-- On a chain that stores its live cells these are the outputs that it stores. -/
theorem mapM_output?_of_has {c : Chain} {inputs : List Input} {cells : List Cell}
    (h : List.Forall₂ (fun (i : Input) cell => c.Has i.previous cell) inputs cells)
    (hs : c.Stored) : (inputs.map Input.previous).mapM c.output? = some cells := by
  induction h with
  | nil => rfl
  | cons hi _ ih =>
    rw [List.map_cons, List.mapM_cons, hi.output? hs, ih]
    rfl

/-- Every construction conserves every token: the cells at the out points that it spends hold what
its outputs hold. -/
theorem Construction.tokens_conserved {n : Node} {a : Assembler Nat} {k : Construction}
    {r : Assembled} (ha : a.ledger = n.ledger) (h : Yields (k.run a) r) :
    ∃ cells : List Cell,
      List.Forall₂ (fun (i : Input) cell => n.chain.Has i.previous cell) r.transaction.inputs
        cells ∧
      (n.chain.Stored → r.transaction.spent.mapM n.chain.output? = some cells) ∧
      ∀ owner, Conserves (a.scripts.sudtType owner) cells r.transaction.outputs := by
  obtain ⟨spent, hhas, hinputs, hconserves⟩ : ∃ spent : List Spending,
      (∀ s ∈ spent, n.chain.Has s.outPoint s.cell) ∧
      r.transaction.inputs = spent.map Spending.input ∧
      ∀ owner, Conserves (a.scripts.sudtType owner) (spent.map Spending.cell)
        r.transaction.outputs := by
    rcases anatomy h with ⟨o, hopens, hcompletes⟩ | ⟨p, rfl, hclaims⟩
    · obtain ⟨cells, hpaid, hinputs, hconserves⟩ := hcompletes.conserves hopens
      exact ⟨_, hopens.has_all ha hpaid, hinputs, hconserves⟩
    · obtain ⟨w, hloaded, hinputs, hconserves⟩ := hclaims.conserves
      have hcell := (Assembler.of_loadWithdrawing hloaded).1
      rw [ha] at hcell
      obtain ⟨hp, ho⟩ := Node.output?_of_load hcell
      exact ⟨[⟨w.cell.outPoint, w.cell.cell, Since.absoluteEpoch w.unlock⟩],
        List.forall_mem_singleton.mpr (Or.inr (hp ▸ ho)), hinputs, hconserves⟩
  have hcells := forall₂_has hhas
  rw [← hinputs] at hcells
  exact ⟨_, hcells, mapM_output?_of_has hcells, hconserves⟩

/-- A chain where a lock has 9 tokens of the zero owner and a plain cell. -/
def Chain.withTokens (lock : Script) : Chain :=
  (Chain.new.fund
    [⟨20000000000, lock, some (SystemScripts.mainnet.sudtType Hash.zero), TokenAmount.data 9⟩,
      Cell.plain lock 100000000000]).2

/-- An issued cheque leaves tokens over, and conserves them. -/
theorem Construction.tokens_conserved_issueCheque :
    ∃ r, Yields ((Construction.issueCheque ⟨.ofByte 1, .ofByte 2, Hash.zero, 5⟩).run
        (.onChain (.withTokens (.ofByte 1)))) r ∧
      ∃ cells : List Cell,
        List.Forall₂ (fun (i : Input) cell => (Chain.withTokens (.ofByte 1)).Has i.previous cell)
          r.transaction.inputs cells ∧
        ∀ owner, Conserves (SystemScripts.mainnet.sudtType owner) cells r.transaction.outputs := by
  obtain ⟨r, h, -⟩ := exists_yields
    (m := (Construction.issueCheque ⟨.ofByte 1, .ofByte 2, Hash.zero, 5⟩).run
      (.onChain (.withTokens (.ofByte 1))))
    (s := 0) (fun _ => true) (by decide +kernel)
  obtain ⟨cells, hcells, -, hconserves⟩ :=
    tokens_conserved (n := { chain := .withTokens (.ofByte 1) }) (Node.ledger_chain _).symm h
  exact ⟨r, h, cells, hcells, hconserves⟩

end CellTx
