import CellTx.Proofs.ClaimedCheques
import CellTx.Proofs.Failing
import CellTx.Proofs.Histories
import CellTx.Proofs.Tokens

/-!
# The way of an issued cheque

A cheque is the first output of the transaction that issues it, whose first input spends a token
cell of the sender. So on every chain that goes on from there the sender is recovered from it; and
as long as the cheque is live, the sender finds a cheque to take back and the receiver's claims
spend it (specification, section 4.6).

Results:
* `Assembler.of_issueCheque`: what an issue puts first.
* `Assembler.senderOf?_issueCheque`: the sender is recovered, once the transaction is committed.
* `Assembler.ends_findCheque`, `Assembler.of_withdrawCheque`: there is a cheque to take back, and
  what is taken back is one with these args and this amount.
* `Assembler.mem_spent_of_claimCheques`: every claim of the receiver spends it.
* `Assembler.issued_cheque_recoverable`: all of it, along any history.

Out of scope: chains where the sender's program has locks with args of other lengths. A search for
the sender's cells may find those too (`CellTx.Proofs.Signers`), and then pay with them.
-/

namespace CellTx

/-! ## The cheque -/

/-- A lock that starts with another one and has args of the same length is that lock. -/
theorem Script.eq_of_startsWith_of_length {s p : Script} (h : s.startsWith p = true)
    (hlength : s.args.length = p.args.length) : s = p := by
  obtain ⟨-, -, rest, hrest⟩ := Script.startsWith_iff.mp h
  rw [hrest, List.length_append] at hlength
  have hnil : rest = [] := List.length_eq_zero_iff.mp (by omega)
  refine Script.eq_of_startsWith h ?_
  rw [hrest, hnil, List.append_nil]

theorem ChequeRequest.isSender_args (r : ChequeRequest) : r.args.isSender r.sender = true :=
  decide_eq_true rfl

section Cheque

variable {σ : Type} (a : Assembler σ) (r : ChequeRequest)

theorem Assembler.isCheque_chequeCell :
    (a.chequeCell r).raised.IsCheque a.scripts r.owner r.args :=
  ⟨Cell.lock_raised _, Cell.type_raised _⟩

theorem Assembler.ofData_chequeCell :
    TokenAmount.ofData? (a.chequeCell r).raised.data = some r.amount := by
  rw [Cell.data_raised]
  exact TokenAmount.ofData?_data r.amount

end Cheque

namespace Cell.IsCheque

variable {scripts : SystemScripts} {owner : Hash} {args : ChequeArgs} {x : LiveCell}

theorem lock_args (h : x.cell.IsCheque scripts owner args) : x.cell.lock.args = args.bytes := by
  rw [h.lock]
  rfl

/-- The search with all of its args finds a cheque. -/
theorem accepts (h : x.cell.IsCheque scripts owner args) :
    (scripts.chequeSearch args.bytes owner).accepts x = true := by
  refine accepts_chequeSearch_iff.mpr ⟨?_, _, h.type, ?_⟩
  · rw [h.lock]
    exact Script.startsWith_self _
  · exact Script.startsWith_self _

/-- A cheque is one for the receiver that its args name. -/
theorem isChequeFor {receiver : Script} (h : x.cell.IsCheque scripts owner args)
    (hr : args.receiver = receiver.hashHead) :
    x.cell.isChequeFor scripts receiver owner = true := by
  rw [isChequeFor_iff, isSome_chequeArgsFor_iff, accepts_chequeSearch_iff, h.lock_args]
  have htake : args.bytes.take 20 = args.receiver := by
    rw [ChequeArgs.bytes, List.take_append_of_le_length (Nat.le_of_eq args.length_receiver.symm),
      List.take_of_length_le (Nat.le_of_eq args.length_receiver)]
  refine ⟨⟨args.length_bytes, Cell.hasType_iff.mpr h.type, htake.trans hr⟩, ?_, _, h.type, ?_⟩
  · rw [h.lock, ← hr]
    exact Script.startsWith_iff.mpr ⟨rfl, rfl, args.sender, rfl⟩
  · exact Script.startsWith_self _

end Cell.IsCheque

/-! ## Issuing it -/

theorem Remains.length_le {change : Option Script} {cells : List Cell}
    (h : Remains change cells) : cells.length ≤ 1 := by
  cases h with
  | gone => exact Nat.zero_le _
  | kept => exact Nat.le_refl _

namespace Assembler

variable {c : Chain} {a : Assembler Nat} {r : ChequeRequest} {res : Assembled}

/-- An issued cheque is the first of at most three outputs. The first input spends a live cell whose
lock starts with the sender's. -/
theorem of_issueCheque (ha : a.ledger = c.ledger) (h : Yields (a.issueCheque r) res) :
    res.transaction.outputs[0]? = some (a.chequeCell r).raised ∧
      res.transaction.outputs.length ≤ 3 ∧
      ∃ x ∈ c.live, x.cell.lock.startsWith r.sender = true ∧
        ∃ rest, res.transaction.spent = x.outPoint :: rest := by
  obtain ⟨o, hopens, hcompletes⟩ := Construction.anatomy_issueCheque h
  obtain ⟨d, cells, left, ht, -, hspends, -, houtputs, hleft⟩ := hcompletes.result
  have houtputs : res.transaction.outputs = o.promised ++ left := ht ▸ houtputs
  have hinputs : res.transaction.spent =
      (o.spent ++ cells.map LiveCell.spending).map Spending.outPoint := by
    rw [ht, Draft.spent_transaction, ← hspends.1, List.map_map]
    rfl
  cases hopens with
  | @issueCheque _ d d' got collected amount others fresh tokens =>
  refine ⟨by rw [houtputs]; rfl, ?_, ?_⟩
  · have hchange : (a.tokenChangeOf r collected).length ≤ 1 := by
      unfold tokenChangeOf
      split
      · exact Nat.zero_le _
      · exact Nat.le_refl _
    have := hleft.length_le
    simp only [houtputs, List.length_append, List.length_cons]
    omega
  · obtain ⟨taken, held, pass, htaken, hle, hdecoded, hsum⟩ := collectTokens_fresh fresh tokens
    cases taken with
    | nil =>
      -- without a token cell nothing would be collected
      obtain rfl := List.map_eq_nil_iff.mp (hdecoded.symm.trans List.map_nil)
      have hzero : r.amount.toNat = 0 := Nat.le_zero.mp (Nat.le_trans hle (Nat.le_of_eq hsum))
      exact absurd (BitVec.eq_of_toNat_eq hzero) amount
    | cons x taken =>
      obtain ⟨key, hkey, hrep⟩ := pass.reported x List.mem_cons_self
      rw [List.mem_singleton.mp hkey, ha, ← Node.ledger_chain] at hrep
      obtain ⟨hlive, hmatch⟩ := Node.live_of_reports rfl rfl hrep
      refine ⟨x, hlive, hmatch,
        (taken.map LiveCell.spending ++ cells.map LiveCell.spending).map Spending.outPoint, ?_⟩
      rw [hinputs, htaken.1]
      rfl

/-! ## Finding it again -/

/-- A cheque that is asked for and live can be found. -/
theorem ends_findCheque (ha : a.ledger = c.ledger) (hp : a.pageSize ≠ 0) {x : LiveCell}
    (hx : x ∈ c.live) (hcheque : x.cell.IsCheque a.scripts r.owner r.args)
    (hdata : TokenAmount.ofData? x.cell.data = some r.amount) :
    ∃ y, Ends (a.findCheque r) (.ok y) := by
  let key := a.scripts.chequeSearch r.args.bytes r.owner
  obtain ⟨streams, hfind, -, -⟩ := CellStream.ends_find (r.isAsked a.scripts)
    (paged_stream hp [key]) (length_rests_lt_bound ha [key])
  have hmem : x ∈ CellStream.rests c ([key].map a.stream) := by
    rw [rests_single a rfl]
    exact List.mem_filter.mpr ⟨hx, hcheque.accepts⟩
  have hasked : r.isAsked a.scripts x = true := by
    rw [ChequeRequest.isAsked, hdata, hcheque.lock_args, Cell.hasType_iff.mpr hcheque.type]
    simp
  cases hy : (CellStream.rests c ([key].map a.stream)).find? (r.isAsked a.scripts) with
  | none => exact absurd hasked (List.find?_eq_none.mp hy x hmem)
  | some y =>
    rw [hy, ← ha] at hfind
    exact ⟨y, hfind.bind (Ends.pure y)⟩

/-- What is taken back is a live cheque of the request, spent by the first input. -/
theorem of_withdrawCheque (ha : a.ledger = c.ledger) (h : Yields (a.withdrawCheque r) res) :
    ∃ x ∈ c.live, res.transaction.inputs[0]? = some ⟨x.outPoint, withdrawSince⟩ ∧
      x.cell.IsCheque a.scripts r.owner r.args ∧
      TokenAmount.ofData? x.cell.data = some r.amount := by
  obtain ⟨o, hopens, hcompletes⟩ := Construction.anatomy_withdrawCheque h
  obtain ⟨_, _, hinputs, -⟩ := hcompletes.first
  have ha' : a.ledger = Node.ledger { chain := c } := ha.trans (Node.ledger_chain c).symm
  cases hopens with
  | @withdrawCheque _ x found =>
  have hrep := (findCheque_spec found).2
  rw [ha'] at hrep
  refine ⟨x, (Node.live_of_reports rfl rfl hrep).1, by rw [hinputs]; rfl, ?_⟩
  rcases (Opens.withdrawCheque found).names ha' _ (List.mem_singleton_self _) with
    hnamed | ⟨y, -, hy, -⟩
  · exact hnamed
  · exact nomatch congrArg Spending.since hy

/-- A claim spends every live cheque for the receiver. -/
theorem mem_spent_of_claimCheques (ha : a.ledger = c.ledger) (hp : a.pageSize ≠ 0)
    {receiver : Script} {owner : Hash} (h : Yields (a.claimCheques receiver owner) res)
    {x : LiveCell} (hx : x ∈ c.live)
    (hcheque : x.cell.isChequeFor a.scripts receiver owner = true) :
    x.outPoint ∈ res.transaction.spent := by
  obtain ⟨o, hopens, hcompletes⟩ := Construction.anatomy_claimCheques h
  obtain ⟨_, _, hinputs, -⟩ := hcompletes.first
  cases hopens with
  | @claimCheques _ _ t found =>
  obtain ⟨cells, counted, htallies, hcheques⟩ := counted_of_findCheques ha hp found
  have ht : t.cheques = c.chequesFor a.scripts receiver owner :=
    htallies.cheques_eq.trans hcheques
  have hmem : x ∈ t.cheques := ht ▸ List.mem_filter.mpr ⟨hx, hcheque⟩
  refine List.mem_map.mpr ⟨⟨x.outPoint, Since.zero⟩, ?_, rfl⟩
  rw [hinputs]
  exact List.mem_append_left _ (List.mem_map_of_mem (f := Spending.input)
    (List.mem_map_of_mem (f := LiveCell.spending) hmem))

end Assembler

/-! ## On later chains -/

section Later

variable {c c₂ : Chain} {a : Assembler Nat} {r : ChequeRequest} {res : Assembled}
  {block : Header}

/-- The transaction that issues a cheque comes along where its hash is new. -/
theorem Assembler.admits_issueCheque (ha : a.ledger = c.ledger)
    (h : Yields (a.issueCheque r) res) (hnew : c.transaction? res.transaction.hash = none) :
    c.Admits res.transaction := by
  obtain ⟨-, hlength, -⟩ := of_issueCheque ha h
  exact Chain.admits_of_new hnew (Nat.le_trans hlength (by decide))

/-- Where the sender's live cells are told from others by the length of their args, the sender of an
issued cheque is recovered from it on every later chain. -/
theorem Assembler.senderOf?_issueCheque (hstored : c.Stored) (ha : a.ledger = c.ledger)
    (hlocks : ∀ x ∈ c.live, x.cell.lock.codeHash = r.sender.codeHash →
      x.cell.lock.hashType = r.sender.hashType →
        x.cell.lock.args.length = r.sender.args.length)
    (h : Yields (a.issueCheque r) res) (hnew : c.transaction? res.transaction.hash = none)
    (hlater : (c.commit res.transaction block).Leads c₂) :
    c₂.senderOf? ⟨res.transaction.hash, 0⟩ r.args = some r.sender := by
  obtain ⟨-, -, x, hx, hstarts, rest, hspent⟩ := of_issueCheque ha h
  obtain ⟨hcode, htype, -⟩ := Script.startsWith_iff.mp hstarts
  have hsender : x.cell.lock = r.sender :=
    Script.eq_of_startsWith_of_length hstarts (hlocks x hx hcode htype)
  have hself : (c.commit res.transaction block).spentBy? res.transaction.hash =
      some (x.outPoint :: rest) := by
    rw [Chain.spentBy?, Chain.transaction?_commit, if_pos rfl, ← hspent]
    rfl
  have hcell := hlater.output? ((admits_issueCheque ha h hnew).output? (hstored x hx))
  rw [← hsender]
  refine Chain.senderOf?_of_first (hlater.spentBy? hself) hcell ?_
  rw [hsender]
  exact r.isSender_args

end Later

/-- A cheque that is issued on a chain with a history, and committed under a new hash. On every later
chain its sender is recovered from it. While it is live, the sender finds a cheque to take back, which
is spent first if that succeeds, and every claim of the receiver that succeeds spends the cheque. -/
theorem Assembler.issued_cheque_recoverable {c c₂ : Chain} {a a₂ : Assembler Nat}
    {r : ChequeRequest} {res : Assembled} {block : Header} (hhistory : Chain.new.Leads c)
    (hlocks : ∀ x ∈ c.live, x.cell.lock.codeHash = r.sender.codeHash →
      x.cell.lock.hashType = r.sender.hashType →
        x.cell.lock.args.length = r.sender.args.length)
    (ha : a.ledger = c.ledger) (h : Yields (a.issueCheque r) res)
    (hnew : c.transaction? res.transaction.hash = none)
    (hlater : (c.commit res.transaction block).Leads c₂) (ha₂ : a₂.ledger = c₂.ledger)
    (hscripts : a₂.scripts = a.scripts) (hp : a₂.pageSize ≠ 0) :
    (∃ cheque, c₂.output? ⟨res.transaction.hash, 0⟩ = some cheque ∧
      ChequeArgs.ofBytes cheque.lock.args = .ok r.args ∧
      Ends (recoverSender c₂.ledger ⟨res.transaction.hash, 0⟩ r.args) (.ok r.sender)) ∧
    ((∃ x ∈ c₂.live, x.outPoint = ⟨res.transaction.hash, 0⟩) →
      FailsOnly (fun f => f.kind ≠ .noMatchingCell) (a₂.withdrawCheque r) ∧
      (∀ back, Yields (a₂.withdrawCheque r) back → ∃ x ∈ c₂.live,
        back.transaction.inputs[0]? = some ⟨x.outPoint, withdrawSince⟩ ∧
        x.cell.IsCheque a.scripts r.owner r.args ∧
        TokenAmount.ofData? x.cell.data = some r.amount) ∧
      ∀ claimed, Yields (a₂.claimCheques r.receiver r.owner) claimed →
        ⟨res.transaction.hash, 0⟩ ∈ claimed.transaction.spent) := by
  have hstored := hhistory.stored Chain.stored_new
  have hadmits := admits_issueCheque ha h hnew
  -- the cheque is stored under its out point from the commit on
  have hcheque : c₂.output? ⟨res.transaction.hash, 0⟩ = some (a.chequeCell r).raised := by
    refine hlater.output? ?_
    rw [Chain.output?_commit_self]
    exact (of_issueCheque ha h).1
  constructor
  · have hsender := senderOf?_issueCheque hstored ha hlocks h hnew hlater
    have hrecover := ends_recoverSender c₂ ⟨res.transaction.hash, 0⟩ r.args
    rw [hsender] at hrecover
    refine ⟨_, hcheque, ?_, hrecover⟩
    rw [Cell.lock_raised]
    exact ChequeArgs.ofBytes_bytes r.args
  · rintro ⟨x, hx, hpoint⟩
    have hcell : x.cell = (a.chequeCell r).raised := by
      have hlive := hlater.stored (hadmits.stored hstored) x hx
      rw [hpoint, hcheque] at hlive
      exact (Option.some.inj hlive).symm
    have his : x.cell.IsCheque a₂.scripts r.owner r.args := by
      rw [hcell, hscripts]
      exact isCheque_chequeCell a r
    have hdata : TokenAmount.ofData? x.cell.data = some r.amount := by
      rw [hcell]
      exact ofData_chequeCell a r
    refine ⟨?_, fun back hback => ?_, fun claimed hclaimed => ?_⟩
    · obtain ⟨y, hfind⟩ := ends_findCheque ha₂ hp hx his hdata
      refine failsOnly_withdrawCheque (fun f hf hkind => ?_) hfind.failsOnly
      rw [Failure.OfBalancing, hkind] at hf
      exact absurd hf (by decide)
    · rw [← hscripts]
      exact of_withdrawCheque ha₂ hback
    · rw [← hpoint]
      exact mem_spent_of_claimCheques ha₂ hp hclaimed hx (his.isChequeFor rfl)

/-- A chain where a sender has 9 tokens of the zero owner, and sender and receiver have a plain
cell. -/
def Chain.withParties (sender receiver : Script) : Chain :=
  ((Chain.withTokens sender).fund [Cell.plain receiver 100000000000]).2

theorem Chain.leads_withParties (sender receiver : Script)
    (h : (withTokens sender).transaction?
      (funding 2 [Cell.plain receiver 100000000000]).hash = none) :
    Chain.new.Leads (withParties sender receiver) :=
  .fund _ (admits_of_new h (by decide : 1 ≤ 4294967296))
    (.fund _ (admits_of_new rfl (by decide : 2 ≤ 4294967296)) .refl)

/-- A cheque of 5 tokens that is issued is traced, can be taken back, and can be claimed. -/
theorem Assembler.issued_cheque_recoverable_withParties :
    ∃ res back claimed, let c := Chain.withParties (.ofByte 1) (.ofByte 2)
      let c₂ := c.commit res.transaction Chain.genesis
      let r : ChequeRequest := ⟨.ofByte 1, .ofByte 2, Hash.zero, 5⟩
      Yields ((onChain c).issueCheque r) res ∧
      Ends (recoverSender c₂.ledger ⟨res.transaction.hash, 0⟩ r.args) (.ok (.ofByte 1)) ∧
      Yields ((onChain c₂).withdrawCheque r) back ∧
      (∃ x ∈ c₂.live, back.transaction.inputs[0]? = some ⟨x.outPoint, withdrawSince⟩ ∧
        x.cell.IsCheque SystemScripts.mainnet Hash.zero r.args) ∧
      Yields ((onChain c₂).claimCheques (.ofByte 2) Hash.zero) claimed ∧
      ⟨res.transaction.hash, 0⟩ ∈ claimed.transaction.spent := by
  let c := Chain.withParties (.ofByte 1) (.ofByte 2)
  let r : ChequeRequest := ⟨.ofByte 1, .ofByte 2, Hash.zero, 5⟩
  obtain ⟨res, hissue, h⟩ := exists_yields (m := (onChain c).issueCheque r) (s := 0) (fun res =>
    let c₂ := c.commit res.transaction Chain.genesis
    (c.transaction? res.transaction.hash).isNone &&
      decide (∃ x ∈ c₂.live, x.outPoint = ⟨res.transaction.hash, 0⟩) &&
      (((onChain c₂).withdrawCheque r).run.run 0).1.toOption.any (fun _ => true) &&
      (((onChain c₂).claimCheques (.ofByte 2) Hash.zero).run.run 0).1.toOption.any fun _ => true)
    (by decide +kernel)
  simp only [Bool.and_eq_true, decide_eq_true_eq, Option.isNone_iff_eq_none] at h
  obtain ⟨⟨⟨hnew, hlive⟩, hwithdraw⟩, hclaim⟩ := h
  obtain ⟨back, hback, -⟩ := exists_yields _ hwithdraw
  obtain ⟨claimed, hclaimed, -⟩ := exists_yields _ hclaim
  have hhistory := Chain.leads_withParties (.ofByte 1) (.ofByte 2) (by decide +kernel)
  obtain ⟨⟨_, -, -, hrecover⟩, hreturns⟩ := issued_cheque_recoverable hhistory (by decide +kernel)
    rfl hissue hnew .refl (rfl : (onChain (c.commit res.transaction Chain.genesis)).ledger = _) rfl
    (by decide : (100 : UInt32) ≠ 0)
  obtain ⟨-, htaken, hclaims⟩ := hreturns hlive
  obtain ⟨x, hx, hinput, hcheque, -⟩ := htaken back hback
  exact ⟨res, back, claimed, hissue, hrecover, hback, ⟨x, hx, hinput, hcheque⟩, hclaimed,
    hclaims claimed hclaimed⟩

end CellTx
