import CellTx.Proofs.Failing
import CellTx.Proofs.Issuing
import Mathlib.Data.List.Find

/-!
# The account of a cheque that is taken back

What taking back a cheque comes to (specification, section 4.6). The search for it lists cells that
are not the cheque that is asked for (`ChequeRequest.isExactly`): those with longer args, with data
that is no amount, or with another amount. They are passed over.

Results:
* `Node.find?_isAsked`: the search and its own test together decide what is exactly the cheque.
* `Assembler.find?_of_findCheque`: what is taken is the first live cell that is exactly the cheque.
* `Assembler.failsOnly_findCheque`, `Assembler.ends_withdrawCheque_of_none`: the call misses it only
  when no live cell is, and then does.
* `Assembler.withdrawCheque_accounts`: both, with the account of a success (`ReturnAccount`).

Out of scope: nodes that refuse searches, which may miss a cheque for that reason (`Node.Answers`
excludes them).
-/

namespace CellTx

/-! ## The cheque that is asked for -/

/-- Whether a cell is exactly the cheque of a request: under the cheque lock with the receiver and
the sender as args, of the token, and with the amount. -/
def ChequeRequest.isExactly (r : ChequeRequest) (scripts : SystemScripts) (c : Cell) : Bool :=
  c.lock = scripts.chequeLock (r.receiver.hash.bytes.take 20 ++ r.sender.hash.bytes.take 20) &&
    c.hasType (scripts.sudtType r.owner) && TokenAmount.ofData? c.data = some r.amount

section Search

variable {n : Node} {r : ChequeRequest} {scripts : SystemScripts}

/-- The search for a cheque and its own test together decide what is exactly the cheque. -/
theorem Node.isExactly_iff {x : LiveCell} :
    r.isExactly scripts x.cell = true ↔
      (n.searched (scripts.chequeSearch r.args.bytes r.owner)).accepts x = true ∧
        r.isAsked scripts x = true := by
  by_cases htype : x.cell.hasType (scripts.sudtType r.owner) = true
  · -- with the token as its type, the cell is listed by its lock alone
    have hkey : scripts.chequeSearch r.args.bytes r.owner = SearchKey.byLockAndType
        (scripts.chequeLock r.args.bytes) (scripts.sudtType r.owner) := rfl
    have haccepts : (n.searched (scripts.chequeSearch r.args.bytes r.owner)).accepts x =
        x.cell.lock.startsWith (scripts.chequeLock r.args.bytes) := by
      rw [hkey, accepts_searched (filter_byLockAndType htype)]
      rfl
    rw [haccepts, ChequeRequest.isExactly, ChequeRequest.isAsked, htype, Bool.and_true,
      Bool.and_true, Bool.and_eq_true, Bool.and_eq_true, decide_eq_true_eq, decide_eq_true_eq,
      decide_eq_true_eq]
    constructor
    · rintro ⟨hlock, hamount⟩
      rw [hlock]
      exact ⟨Script.startsWith_self _, hamount, rfl⟩
    · rintro ⟨hstarts, hamount, hargs⟩
      exact ⟨Script.eq_of_startsWith hstarts hargs, hamount⟩
  · rw [Bool.not_eq_true] at htype
    rw [ChequeRequest.isExactly, ChequeRequest.isAsked, htype, Bool.and_false, Bool.and_false,
      Bool.false_and, Bool.false_and]
    exact iff_of_false Bool.false_ne_true fun h => Bool.false_ne_true h.2

/-- The first listed cell that is asked for is the first live cell that is exactly the cheque. -/
theorem Node.find?_isAsked (n : Node) (r : ChequeRequest) (scripts : SystemScripts) :
    (n.chain.live.filter (n.searched (scripts.chequeSearch r.args.bytes r.owner)).accepts).find?
        (r.isAsked scripts) =
      n.chain.live.find? fun x => r.isExactly scripts x.cell := by
  rw [List.find?_filter]
  refine List.find?_congr fun x _ => ?_
  rw [Bool.eq_iff_iff, isExactly_iff (n := n), decide_eq_true_eq]

end Search

/-! ## Finding it -/

/-- A node whose chain can be reached, and that refuses no search. -/
structure Node.Answers (n : Node) : Prop where
  online : n.offline = false
  cells : QueryName.cells ∉ n.faults.refused
  furtherCells : QueryName.furtherCells ∉ n.faults.refused

theorem Node.failsOnly_pass {n : Node} {p : QueryError → Prop} {name : QueryName}
    (h : name ∉ n.faults.refused) : FailsOnly p (n.pass name false) := by
  rw [pass, if_neg (by rw [Bool.or_false, List.contains_iff_mem]; exact h)]
  exact FailsOnly.pure ()

/-- A node that answers never fails to hand out a page. -/
theorem Node.Answers.failsOnly_cells {n : Node} (hn : n.Answers) {p : QueryError → Prop}
    (key : SearchKey) (order : Order) (limit : Nat) (after : Option Nat) :
    FailsOnly p (n.ledger.cells key order limit after) := by
  have hreach : FailsOnly p n.reach := by
    rw [reach, hn.online]
    exact FailsOnly.pure ()
  have hpage : FailsOnly p (n.chain.ledger.cells (n.searched key) order limit after) :=
    fun _ h => nomatch h
  refine (failsOnly_pass hn.cells).bind fun _ _ => ?_
  cases after with
  | none => exact hreach.bind fun _ _ => hpage
  | some cursor =>
    exact (failsOnly_pass hn.furtherCells).bind fun _ _ => hreach.bind fun _ _ => hpage

namespace Assembler

variable {n : Node} {a : Assembler Nat} {r : ChequeRequest}

/-- What is found is the first live cell that is exactly the cheque. -/
theorem find?_of_findCheque (ha : a.ledger = n.ledger) {x : LiveCell}
    (h : Yields (a.findCheque r) x) :
    n.chain.live.find? (fun x => r.isExactly a.scripts x.cell) = some x := by
  obtain ⟨cells, hcells, hdelivers⟩ := exists_delivers ha
    (List.forall_mem_singleton.mpr rfl :
      ∀ key ∈ [a.scripts.chequeSearch r.args.bytes r.owner], key.withData = true)
  obtain ⟨⟨o, rest⟩, hfind, h⟩ := h.bind
  obtain ⟨hfirst, -⟩ := hdelivers.find hfind
  cases o with
  | none => exact absurd h not_yields_throw
  | some y =>
    obtain rfl := h.of_pure
    rw [List.flatMap_singleton] at hcells
    rw [← n.find?_isAsked]
    exact hcells.find?_eq_some hfirst.symm

/-- On a node that answers, the cheque is missed only when no live cell is exactly the cheque. -/
theorem failsOnly_findCheque (ha : a.ledger = n.ledger) (hp : a.pageSize ≠ 0)
    (hn : n.Answers) :
    FailsOnly (fun f => f = .noChequeHolding r.sender.hash r.receiver.hash r.amount ∧
      ∀ x ∈ n.chain.live, r.isExactly a.scripts x.cell = false) (a.findCheque r) := by
  have hpull : ∀ streams, FailsOnly (fun _ => False) (CellStream.pull a.ledger streams) := by
    rw [ha]
    exact CellStream.failsOnly_pull fun _ _ _ _ => hn.failsOnly_cells _ _ _ _
  refine (CellStream.failsOnly_find (fun streams => (hpull streams).ask fun _ => False.elim)
    (Or.inr (Node.atMost_start ha [a.scripts.chequeSearch r.args.bytes r.owner]))).bind
      fun e he => ?_
  have hdelivers := delivers_stream ha hp (List.forall_mem_singleton.mpr rfl :
    ∀ key ∈ [a.scripts.chequeSearch r.args.bytes r.owner], key.withData = true)
  obtain ⟨o, rest⟩ := e
  obtain ⟨hfirst, -⟩ := hdelivers.find he
  cases o with
  | some x => exact FailsOnly.pure x
  | none =>
    rw [List.flatMap_singleton, n.find?_isAsked] at hfirst
    refine FailsOnly.throw ⟨rfl, fun x hx => ?_⟩
    rw [← Bool.not_eq_true]
    exact List.find?_eq_none.mp hfirst.symm x hx

/-- Without the cheque, taking it back fails. -/
theorem ends_withdrawCheque_of_none (ha : a.ledger = n.ledger) (hp : a.pageSize ≠ 0)
    (hn : n.Answers) (hnone : ∀ x ∈ n.chain.live, r.isExactly a.scripts x.cell = false) :
    Ends (a.withdrawCheque r)
      (.error (.noChequeHolding r.sender.hash r.receiver.hash r.amount)) := by
  have hmissed : Ends (a.findCheque r)
      (.error (.noChequeHolding r.sender.hash r.receiver.hash r.amount)) := by
    refine ((failsOnly_findCheque ha hp hn).mono fun _ => And.left).ends fun x hx => ?_
    have hfound := find?_of_findCheque ha hx
    rw [List.find?_eq_none.mpr fun y hy => by rw [hnone y hy]; exact Bool.false_ne_true] at hfound
    exact nomatch hfound
  exact Flow.ends_assemble_of_init hmissed

/-- A cheque that is not there is the only cell that taking it back misses. -/
theorem failsOnly_withdrawCheque_of_none (ha : a.ledger = n.ledger) (hp : a.pageSize ≠ 0)
    (hn : n.Answers) :
    FailsOnly (fun f => f.kind = .noMatchingCell →
      ∀ x ∈ n.chain.live, r.isExactly a.scripts x.cell = false) (a.withdrawCheque r) := by
  refine failsOnly_withdrawCheque (fun f hf hkind => ?_)
    ((failsOnly_findCheque ha hp hn).mono fun _ h _ => h.2)
  rw [Failure.OfBalancing, hkind] at hf
  exact absurd hf (by decide)

end Assembler

/-! ## The account -/

/-- What taking back a cheque spends and makes. -/
structure ReturnAccount where
  cheque : LiveCell
  /-- The cells that pay. -/
  pulled : List LiveCell
  returned : Cell
  change : List Cell

/-- The account of a cheque that was taken back by a transaction. -/
structure ReturnAccount.Holds (acc : ReturnAccount) (c : Chain) (scripts : SystemScripts)
    (r : ChequeRequest) (t : Transaction) : Prop where
  cheque : c.live.find? (fun x => r.isExactly scripts x.cell) = some acc.cheque
  /-- Only the cheque has a time lock, of six epochs after its commit. -/
  inputs : t.inputs = ⟨acc.cheque.outPoint, ⟨0xA000000000000006⟩⟩ ::
    acc.pulled.map fun x => ⟨x.outPoint, Since.zero⟩
  /-- Plain cells pay. -/
  pulled : ∀ x ∈ acc.pulled, x ∈ c.live ∧ x.cell.type = none ∧ x.cell.data = [] ∧
    x.cell.lock.startsWith r.sender = true
  outputs : t.outputs = acc.returned :: acc.change
  /-- The tokens go back to the sender. -/
  tokens : acc.returned.lock = r.sender ∧ acc.returned.type = acc.cheque.cell.type ∧
    acc.returned.data = TokenAmount.data r.amount
  /-- So does the capacity, in a cell that is lifted when the sender's lock is too long for it. -/
  capacity : acc.returned.capacity.toNat =
    max acc.cheque.cell.capacity.toNat (acc.returned.occupiedBytes * Capacity.perCkb)
  change : acc.change = [] ∨ ∃ capacity, acc.change = [Cell.plain r.sender capacity] ∧
    (Cell.plain r.sender capacity).Funded

/-- The time lock of a cheque that is taken back counts six epochs from its commit. -/
theorem withdrawSince_eq : withdrawSince = ⟨0xA000000000000006⟩ := by decide

section Withdraw

variable {n : Node} {a : Assembler Nat} {config : Config} {r : ChequeRequest} {res : Assembled}

/-- A cheque that was taken back, with its account. -/
theorem Assembler.holds_returnAccount (ha : a.ledger = n.ledger)
    (h : Yields (a.withdrawCheque r) res) :
    ∃ acc : ReturnAccount, acc.Holds n.chain a.scripts r res.transaction := by
  obtain ⟨o, hopens, hcompletes⟩ := Construction.anatomy_withdrawCheque h
  obtain ⟨x', hfound', occupied, hoccupied⟩ := exists_occupied_of_withdrawCheque h
  cases hopens with
  | @withdrawCheque _ x found =>
  have hfirst := find?_of_findCheque ha found
  obtain rfl : x = x' := Option.some.inj (hfirst.symm.trans (find?_of_findCheque ha hfound'))
  obtain ⟨pulled, change, hinputs, hpulled, houtputs, hchange⟩ := hcompletes.account ha
  rw [List.map_singleton, withdrawSince_eq] at hinputs
  exact ⟨⟨x, pulled, (r.returned x.cell).raised, change⟩, {
    cheque := hfirst
    inputs := hinputs
    pulled := hpulled
    outputs := houtputs
    tokens := ⟨Cell.lock_raised _, Cell.type_raised _, Cell.data_raised _⟩
    capacity := Cell.toNat_capacity_raised hoccupied
    change := hchange }⟩

/-- Under a valid configuration and on a node that answers, taking back a cheque misses it if and
only if no live cell is exactly the cheque. A cheque that is taken back is the first such cell, and
all of it returns. -/
theorem Assembler.withdrawCheque_accounts (hvalid : config.validate = .ok ())
    (hpage : a.pageSize = config.searchPageSize) (ha : a.ledger = n.ledger) (hn : n.Answers) :
    (∀ s, (∃ f, ((a.withdrawCheque r).run.run s).1 = .error f ∧ f.kind = .noMatchingCell) ↔
      ∀ x ∈ n.chain.live, r.isExactly a.scripts x.cell = false) ∧
    ∀ res, Yields (a.withdrawCheque r) res →
      ∃ acc : ReturnAccount, acc.Holds n.chain a.scripts r res.transaction := by
  have hp : a.pageSize ≠ 0 := hpage ▸ (Config.validate_eq_ok_iff.mp hvalid).1
  refine ⟨fun s => ⟨?_, fun hnone => ?_⟩, fun res h => holds_returnAccount ha h⟩
  · rintro ⟨f, hf, hkind⟩
    exact failsOnly_withdrawCheque_of_none ha hp hn f ⟨s, _, Prod.ext hf rfl⟩ hkind
  · obtain ⟨s', hs⟩ := ends_withdrawCheque_of_none ha hp hn hnone s
    exact ⟨_, congrArg Prod.fst hs, rfl⟩

end Withdraw

/-- A chain that lists, before the cheque of 9 tokens between two locks, one without an amount, one
whose args go on, and one of another amount. The sender has a plain cell. -/
def Chain.withLookalikes (sender receiver : Script) : Chain :=
  let args := receiver.hash.bytes.take 20 ++ sender.hash.bytes.take 20
  let cheque (args data : Bytes) : Cell :=
    { capacity := 16300000000
      lock := SystemScripts.mainnet.chequeLock args
      type := some (SystemScripts.mainnet.sudtType Hash.zero)
      data := data }
  (Chain.new.fund [cheque args [9], cheque (args ++ [0xff]) (TokenAmount.data 9),
    cheque args (TokenAmount.data 8), cheque args (TokenAmount.data 9),
    Cell.plain sender 100000000000]).2

/-- The fourth of four cheques is taken back, to a sender with a lock so long that what returns is
lifted. A cheque of 7 tokens is not there. -/
theorem Assembler.withdrawCheque_accounts_withLookalikes :
    let sender := (Script.ofByte 1).extend (List.replicate 40 0xff)
    let c := Chain.withLookalikes sender (.ofByte 2)
    let r : ChequeRequest := ⟨sender, .ofByte 2, Hash.zero, 9⟩
    ({} : Config).validate = .ok () ∧ ({ chain := c } : Node).Answers ∧
    (∃ res, Yields ((onChain c).withdrawCheque r) res ∧
      (res.transaction.inputs.map fun i => (i.previous.index, i.since.raw)) =
        [(3, 0xA000000000000006), (4, 0)] ∧
      (res.transaction.outputs.map Cell.capacity)[0]? = some 18200000000 ∧
      ∃ acc : ReturnAccount, acc.Holds c SystemScripts.mainnet r res.transaction) ∧
    ∀ s, ∃ f, (((onChain c).withdrawCheque { r with amount := 7 }).run.run s).1 = .error f ∧
      f.kind = .noMatchingCell := by
  intro sender c r
  have hvalid : ({} : Config).validate = .ok () := rfl
  have hn : ({ chain := c } : Node).Answers := ⟨rfl, List.not_mem_nil, List.not_mem_nil⟩
  have ha : (onChain c).ledger = ({ chain := c } : Node).ledger := (Node.ledger_chain c).symm
  obtain ⟨res, h, hres⟩ := exists_yields (m := (onChain c).withdrawCheque r) (s := 0)
    (fun res => (res.transaction.inputs.map fun i => (i.previous.index, i.since.raw)) =
        [(3, 0xA000000000000006), (4, 0)] ∧
      (res.transaction.outputs.map Cell.capacity)[0]? = some 18200000000)
    (by decide +kernel)
  obtain ⟨hinputs, hcapacity⟩ := of_decide_eq_true hres
  obtain ⟨-, hreturns⟩ := withdrawCheque_accounts (r := r) hvalid rfl ha hn
  obtain ⟨hmisses, -⟩ := withdrawCheque_accounts (r := { r with amount := 7 }) hvalid rfl ha hn
  exact ⟨hvalid, hn, ⟨res, h, hinputs, hcapacity, hreturns res h⟩,
    fun s => (hmisses s).mpr (by decide +kernel)⟩

end CellTx
