import CellTx.Proofs.Collection
import CellTx.Proofs.Recovery
import CellTx.Proofs.Signers
import Mathlib.Data.List.Find
import Mathlib.Data.List.Nodup
import Mathlib.Data.List.TakeWhile

/-!
# The account of a claim of cheques

What a claim of cheques does on a chain, cheque by cheque (specification, section 4.6): it spends
all cheques of the token for the receiver, puts their tokens into one cell and gives their capacity
back to their senders. The claimed cell, the change and the fee are paid for by the first plain
cells, in the order of the chain, whose locks start with the receiver's.

Results:
* `isChequeFor_iff`, `Chain.chequesFor_eq_filter`: the search of a claim and its own test decide
  what a cheque for the receiver is.
* `Assembler.counted_of_findCheques`, `Assembler.ends_claimCheques_of_none`: a claim counts all of
  them, and fails where there is none.
* `Assembler.claim_accounts`: the account of a claim (`ClaimAccount`).
* `Assembler.claim_paid_by_longer`: the plain cells that pay need not be the receiver's own.

Out of scope: claims on nodes that refuse questions, and when a claim fails
(`CellTx.Proofs.RememberedSenders`).
-/

namespace CellTx

/-! ## The cheques -/

/-- Whether a cell is a cheque of a token for a receiver: under the cheque lock with forty bytes of
args that begin with those of the receiver, and of the token's type. -/
def Cell.isChequeFor (scripts : SystemScripts) (receiver : Script) (owner : Hash) (c : Cell) :
    Bool :=
  c.lock = scripts.chequeLock c.lock.args && c.lock.args.length = ChequeArgs.width &&
    (receiver.hash.bytes.take 20).isPrefixOf c.lock.args && c.hasType (scripts.sudtType owner)

namespace Chain

/-- The live cheques of a token for a receiver. -/
def chequesFor (c : Chain) (scripts : SystemScripts) (receiver : Script) (owner : Hash) :
    List LiveCell :=
  c.live.filter (·.cell.isChequeFor scripts receiver owner)

/-- The sender of a cheque among some cheques: that of the first one with the same args. -/
def attributed? (c : Chain) (cheques : List LiveCell) (x : LiveCell) : Option Script := do
  let first ← cheques.find? (·.cell.lock.args = x.cell.lock.args)
  let args ← (ChequeArgs.ofBytes first.cell.lock.args).toOption
  c.senderOf? first.outPoint args

/-- The plain cells whose locks start with a lock. -/
def plainUnder (c : Chain) (lock : Script) : List LiveCell :=
  c.live.filter fun x => x.cell.isPlain && x.cell.lock.startsWith lock

end Chain

theorem isSome_chequeArgsFor_iff {sudt : Script} {receiver : Bytes} {x : LiveCell} :
    (chequeArgsFor sudt receiver x).isSome = true ↔
      x.cell.lock.args.length = ChequeArgs.width ∧ x.cell.hasType sudt = true ∧
        x.cell.lock.args.take 20 = receiver := by
  unfold chequeArgsFor ChequeArgs.ofBytes
  by_cases hlength : x.cell.lock.args.length = ChequeArgs.width
  · simp only [hlength, dif_pos]
    by_cases hcond : x.cell.hasType sudt = true ∧ x.cell.lock.args.take 20 = receiver
    · rw [if_pos (by rw [Bool.and_eq_true, decide_eq_true_eq]; exact hcond)]
      exact iff_of_true rfl ⟨trivial, hcond⟩
    · rw [if_neg (by rw [Bool.and_eq_true, decide_eq_true_eq]; exact hcond)]
      exact iff_of_false Bool.false_ne_true (fun h => hcond h.2)
  · simp only [dif_neg hlength]
    exact iff_of_false Bool.false_ne_true (fun h => hlength h.1)

theorem accepts_chequeSearch_iff {scripts : SystemScripts} {args : Bytes} {owner : Hash}
    {x : LiveCell} :
    (scripts.chequeSearch args owner).accepts x = true ↔
      x.cell.lock.startsWith (scripts.chequeLock args) = true ∧
        ∃ t, x.cell.type = some t ∧ t.startsWith (scripts.sudtType owner) = true := by
  simp [SearchKey.accepts, SystemScripts.chequeSearch, SearchKey.scriptsOf,
    SearchKey.matchesScript, SearchFilter.accepts, Option.any_eq_true]

/-- The search of a claim and its own test together decide what a cheque for the receiver is. -/
theorem isChequeFor_iff {scripts : SystemScripts} {receiver : Script} {owner : Hash}
    {x : LiveCell} :
    x.cell.isChequeFor scripts receiver owner = true ↔
      (chequeArgsFor (scripts.sudtType owner) receiver.hashHead x).isSome = true ∧
        (scripts.chequeSearch receiver.hashHead owner).accepts x = true := by
  rw [isSome_chequeArgsFor_iff, accepts_chequeSearch_iff, Script.startsWith_iff,
    Cell.isChequeFor, Bool.and_eq_true, Bool.and_eq_true, Bool.and_eq_true, decide_eq_true_eq,
    decide_eq_true_eq, List.isPrefixOf_iff_prefix]
  constructor
  · rintro ⟨⟨⟨hlock, hlength⟩, rest, hrest⟩, htype⟩
    have hargs : receiver.hashHead ++ rest = x.cell.lock.args := hrest
    have htake : x.cell.lock.args.take 20 = receiver.hashHead := by
      rw [← hargs, List.take_append_of_le_length (Nat.le_of_eq receiver.length_hashHead.symm),
        List.take_of_length_le (Nat.le_of_eq receiver.length_hashHead)]
    have hcode : x.cell.lock.codeHash = scripts.cheque.codeHash := congrArg Script.codeHash hlock
    have hhash : x.cell.lock.hashType = scripts.cheque.hashType := congrArg Script.hashType hlock
    exact ⟨⟨hlength, htype, htake⟩, ⟨hcode, hhash, rest, hrest.symm⟩, _,
      Cell.hasType_iff.mp htype, Script.startsWith_self _⟩
  · rintro ⟨⟨hlength, htype, -⟩, ⟨hcode, hhash, rest, hrest⟩, -⟩
    refine ⟨⟨⟨?_, hlength⟩, rest, hrest.symm⟩, htype⟩
    have hstarts : x.cell.lock.startsWith (scripts.chequeLock x.cell.lock.args) = true :=
      Script.startsWith_iff.mpr ⟨hcode, hhash, [], (List.append_nil _).symm⟩
    exact Script.eq_of_startsWith hstarts rfl

/-- The cheques among the cells that the search of a claim accepts. -/
theorem Chain.chequesFor_eq_filter (c : Chain) (scripts : SystemScripts) (receiver : Script)
    (owner : Hash) :
    c.chequesFor scripts receiver owner =
      (c.live.filter (scripts.chequeSearch receiver.hashHead owner).accepts).filter
        fun x => (chequeArgsFor (scripts.sudtType owner) receiver.hashHead x).isSome := by
  rw [List.filter_filter]
  refine List.filter_congr fun x _ => ?_
  rw [Bool.eq_iff_iff, Bool.and_eq_true]
  exact isChequeFor_iff

/-! ## Finding them -/

namespace Assembler

variable {c : Chain} {a : Assembler Nat} {receiver : Script} {owner : Hash}

/-- The search of a claim delivers the live cells that it accepts. -/
theorem ends_drain_cheques (ha : a.ledger = c.ledger) (hp : a.pageSize ≠ 0) (key : SearchKey)
    (hdata : key.withData = true) :
    Ends (CellStream.drain a.ledger (CellStream.bound a.ledger [a.stream key]) [a.stream key])
      (.ok (c.live.filter key.accepts)) := by
  have hdrain := CellStream.ends_drain (paged_stream hp [key]) (length_rests_lt_bound ha [key])
  rw [rests_single a hdata] at hdrain
  rw [ha] at hdrain ⊢
  exact hdrain

/-- A claim counts the cheques for the receiver. -/
theorem counted_of_findCheques (ha : a.ledger = c.ledger) (hp : a.pageSize ≠ 0) {t : ClaimTally}
    (h : Yields (a.findCheques receiver owner) t) :
    ∃ cells counted, Tallies a (a.scripts.sudtType owner) receiver.hashHead {} cells counted t ∧
      counted.map CountedCheque.cheque = c.chequesFor a.scripts receiver owner := by
  obtain ⟨cells, counted, hdrain, htallies, -⟩ := findCheques_spec h
  refine ⟨cells, counted, htallies, ?_⟩
  rw [htallies.counted_eq, ← (ends_drain_cheques ha hp _ rfl).eq hdrain]
  exact (c.chequesFor_eq_filter a.scripts receiver owner).symm

/-- Cells that are no cheques for the receiver leave a tally as it is. -/
theorem ends_tally_of_none {sudt : Script} {head : Bytes} {cells : List LiveCell}
    (h : ∀ x ∈ cells, chequeArgsFor sudt head x = none) (t : ClaimTally) :
    Ends (a.tally sudt head t cells) (.ok t) := by
  induction cells with
  | nil => exact Ends.pure t
  | cons x cells ih =>
    obtain ⟨hx, hcells⟩ := List.forall_mem_cons.mp h
    rw [tally, hx]
    exact ih hcells

/-- A claim that finds no cheques fails. -/
theorem ends_claimCheques_of_drain {cells : List LiveCell}
    (hdrain : Ends (CellStream.drain a.ledger
      (CellStream.bound a.ledger [a.stream (a.scripts.chequeSearch receiver.hashHead owner)])
      [a.stream (a.scripts.chequeSearch receiver.hashHead owner)]) (.ok cells))
    (hnone : ∀ x ∈ cells, chequeArgsFor (a.scripts.sudtType owner) receiver.hashHead x = none) :
    Ends (a.claimCheques receiver owner) (.error (.noChequeFor receiver.hash)) := by
  have hfind : Ends (a.findCheques receiver owner) (.error (.noChequeFor receiver.hash)) :=
    hdrain.bind ((ends_tally_of_none hnone {}).bind (Ends.throw _))
  exact Flow.ends_assemble_of_init hfind

/-- Pages without room hold no cheques. -/
theorem ends_claimCheques_of_unpaged (ha : a.ledger = c.ledger) (hp : a.pageSize = 0) :
    Ends (a.claimCheques receiver owner) (.error (.noChequeFor receiver.hash)) := by
  have hpull := CellStream.ends_pull_of_limit_zero (c := c)
    (List.forall_mem_singleton.mpr ⟨congrArg UInt32.toNat hp, rfl⟩ :
      ∀ s ∈ [a.stream (a.scripts.chequeSearch receiver.hashHead owner)], _)
  refine ends_claimCheques_of_drain ?_ (List.forall_mem_nil _)
  rw [ha, CellStream.bound, CellStream.drain]
  exact hpull.ask.bind (Ends.pure _)

/-- A claim without cheques fails. -/
theorem ends_claimCheques_of_none (ha : a.ledger = c.ledger)
    (h : c.chequesFor a.scripts receiver owner = []) :
    Ends (a.claimCheques receiver owner) (.error (.noChequeFor receiver.hash)) := by
  by_cases hp : a.pageSize = 0
  · exact ends_claimCheques_of_unpaged ha hp
  refine ends_claimCheques_of_drain (ends_drain_cheques ha hp _ rfl) fun x hx => ?_
  obtain ⟨hlive, haccepts⟩ := List.mem_filter.mp hx
  rw [← Option.not_isSome_iff_eq_none]
  intro hsome
  have hmem : x ∈ c.chequesFor a.scripts receiver owner :=
    List.mem_filter.mpr ⟨hlive, isChequeFor_iff.mpr ⟨hsome, haccepts⟩⟩
  rw [h] at hmem
  exact List.not_mem_nil hmem

end Assembler

/-! ## The account -/

/-- What a claim spends and makes. -/
structure ClaimAccount where
  /-- The cheques with the senders that they are attributed to. -/
  sent : List (LiveCell × Script)
  /-- What the cheques hold. -/
  amounts : List TokenAmount
  /-- The cell of the claimed tokens. -/
  claimed : Cell
  refunds : List Cell
  change : List Cell
  /-- The cells that pay. -/
  pulled : List LiveCell

/-- The account of a claim that came to `r`. -/
structure ClaimAccount.Holds (acc : ClaimAccount) (c : Chain) (scripts : SystemScripts)
    (receiver : Script) (owner : Hash) (r : Assembled) : Prop where
  /-- All cheques for the receiver are spent, in the order of the chain. -/
  cheques : acc.sent.map Prod.fst = c.chequesFor scripts receiver owner
  senders : ∀ e ∈ acc.sent, c.attributed? (acc.sent.map Prod.fst) e.1 = some e.2
  amounts : acc.sent.map (fun e => TokenAmount.ofData? e.1.cell.data) = acc.amounts.map some
  inputs : r.transaction.inputs =
    (acc.sent.map Prod.fst ++ acc.pulled).map fun x => ⟨x.outPoint, Since.zero⟩
  distinct : r.transaction.spent.Nodup
  outputs : r.transaction.outputs = acc.claimed :: acc.refunds ++ acc.change
  /-- The claimed cell is the receiver's and holds the tokens of the cheques. -/
  claimed : acc.claimed.lock = receiver ∧ acc.claimed.type = some (scripts.sudtType owner) ∧
    ∃ total, acc.claimed.data = TokenAmount.data total ∧
      total.toNat = (acc.amounts.map BitVec.toNat).sum
  /-- Each sender has one refund, in the order of first appearance. -/
  refunded : acc.refunds.map Cell.lock = (acc.sent.map Prod.snd).eraseDups
  /-- A refund is plain and holds what the sender's cheques held. -/
  refunds : ∀ x ∈ acc.refunds, x.isPlain = true ∧ x.capacity.toNat =
    Capacity.total ((acc.sent.filter (·.2 = x.lock)).map fun e => e.1.cell.capacity)
  refunds_total : Capacity.total (acc.refunds.map Cell.capacity) =
    Capacity.total (acc.sent.map fun e => e.1.cell.capacity)
  change : acc.change = [] ∨ ∃ capacity, acc.change = [Cell.plain receiver capacity]
  /-- What is pulled pays for the claimed cell, the change and the fee. -/
  paid : Capacity.total (acc.pulled.map fun x => x.cell.capacity) =
    acc.claimed.capacity.toNat + Capacity.total (acc.change.map Cell.capacity) + r.fee.toNat
  /-- The first plain cells that the search for the receiver's lock finds are pulled. -/
  pulled : acc.pulled <+: c.plainUnder receiver

section Account

variable {c : Chain} {a : Assembler Nat} {receiver : Script} {owner : Hash}

/-- Two live cells with one out point are one. -/
theorem eq_of_outPoint_eq (hn : (c.live.map LiveCell.outPoint).Nodup) {x y : LiveCell}
    (hx : x ∈ c.live) (hy : y ∈ c.live) (h : x.outPoint = y.outPoint) : x = y :=
  List.inj_on_of_nodup_map hn hx hy h

/-- No cheque is plain. -/
theorem not_isPlain_of_isChequeFor {scripts : SystemScripts} {x : Cell}
    (h : x.isChequeFor scripts receiver owner = true) : x.isPlain = false := by
  rw [Cell.isChequeFor, Bool.and_eq_true] at h
  rw [Cell.isPlain, Cell.hasType_iff.mp h.2]
  rfl

/-- What a draft that spends the cheques can still pick is plain. -/
theorem pick_plainUnder (hn : (c.live.map LiveCell.outPoint).Nodup) {scripts : SystemScripts}
    {d : Draft}
    (hd : d.Spends ((c.chequesFor scripts receiver owner).map LiveCell.spending)) :
    d.pick Cell.isPlain (c.live.filter (SearchKey.plainByLock receiver).accepts) =
      c.plainUnder receiver := by
  have hsub : (c.live.filter (SearchKey.plainByLock receiver).accepts).Sublist c.live :=
    List.filter_sublist
  rw [Draft.pick_eq_filter (hn.sublist (hsub.map _)) fun x hx hplain => ?_]
  · rw [List.filter_filter]
    refine List.filter_congr fun x _ => ?_
    by_cases hplain : x.cell.isPlain = true
    · rw [hplain, Bool.true_and, Bool.true_and, Bool.eq_iff_iff]
      exact accepts_plainByLock_iff hplain
    · rw [Bool.not_eq_true] at hplain
      rw [hplain, Bool.false_and, Bool.false_and]
  · rw [Bool.eq_false_iff]
    intro hspent
    obtain ⟨s, hs, hp⟩ := hd.spends_iff.mp hspent
    obtain ⟨y, hy, rfl⟩ := List.mem_map.mp hs
    obtain ⟨hlive, hcheque⟩ := List.mem_filter.mp hy
    obtain rfl := eq_of_outPoint_eq hn hlive (hsub.subset hx) hp
    rw [not_isPlain_of_isChequeFor hcheque] at hplain
    exact Bool.false_ne_true hplain

/-- Counted cheques are attributed to their senders. -/
theorem attributed?_of_counted {t : ClaimTally} {cells : List LiveCell}
    {counted : List CountedCheque} (ha : a.ledger = c.ledger)
    (h : Tallies a (a.scripts.sudtType owner) receiver.hashHead {} cells counted t) :
    ∀ e ∈ counted,
      c.attributed? (counted.map CountedCheque.cheque) e.cheque = some e.sender := by
  intro e he
  have hargs : ∀ f ∈ counted, ChequeArgs.ofBytes f.cheque.cell.lock.args = .ok f.args :=
    fun f hf => (hasType_of_chequeArgsFor (h.counted_spec f hf).1).2.2
  rcases h.attributes.first e he with hknown | ⟨-, f, hfind, hsender, hrecovered⟩
  · exact nomatch hknown
  have hmem := List.mem_of_find?_eq_some hfind
  rw [ha] at hrecovered
  -- the same args as bytes are the same args
  have hsame : (counted.map CountedCheque.cheque).find?
      (·.cell.lock.args = e.cheque.cell.lock.args) = some f.cheque := by
    rw [List.find?_map, ← Option.map_some (f := CountedCheque.cheque), ← hfind]
    refine congrArg (Option.map CountedCheque.cheque) (List.find?_congr fun g hg => ?_)
    rw [Function.comp_apply, decide_eq_decide]
    constructor
    · intro heq
      have hg := hargs g hg
      rw [heq, hargs e he] at hg
      exact (Except.ok.inj hg).symm
    · intro heq
      rw [← ChequeArgs.bytes_of_ofBytes (hargs g hg), heq,
        ChequeArgs.bytes_of_ofBytes (hargs e he)]
  rw [Chain.attributed?, hsame, ← hsender]
  simp only [Option.bind_eq_bind, Option.bind_some, hargs f hmem, Except.toOption]
  exact senderOf?_of_recoverSender hrecovered

/-- Cheques and plain cells of a chain have out points of their own. -/
theorem nodup_spent (hn : (c.live.map LiveCell.outPoint).Nodup) {scripts : SystemScripts}
    {pulled : List LiveCell} (hp : pulled <+: c.plainUnder receiver) :
    ((c.chequesFor scripts receiver owner ++ pulled).map LiveCell.outPoint).Nodup := by
  have hcheques : (c.chequesFor scripts receiver owner).Sublist c.live := List.filter_sublist
  have hplain : pulled.Sublist c.live := hp.sublist.trans List.filter_sublist
  rw [List.map_append]
  refine List.nodup_append.mpr
    ⟨hn.sublist (hcheques.map _), hn.sublist (hplain.map _), fun p hx q hy => ?_⟩
  obtain ⟨x, hcheque, rfl⟩ := List.mem_map.mp hx
  obtain ⟨y, hmem, rfl⟩ := List.mem_map.mp hy
  intro heq
  obtain rfl := eq_of_outPoint_eq hn (hcheques.subset hcheque) (hplain.subset hmem) heq
  have hnot := not_isPlain_of_isChequeFor (List.mem_filter.mp hcheque).2
  have hcond := (List.mem_filter.mp (hp.subset hmem)).2
  rw [hnot, Bool.false_and] at hcond
  exact Bool.false_ne_true hcond

/-- What is refunded, from the credits of the counted cheques. -/
theorem refunds_of_counted {t : ClaimTally} {cells : List LiveCell}
    {counted : List CountedCheque}
    (h : Tallies a (a.scripts.sudtType owner) receiver.hashHead {} cells counted t) :
    Refunds.keys t.refunds = (counted.map CountedCheque.sender).eraseDups ∧
      (∀ e ∈ t.refunds, e.2.toNat = Capacity.total
        ((counted.filter (·.sender = e.1)).map fun f => f.cheque.cell.capacity)) ∧
      Capacity.total (t.refunds.map Prod.snd) =
        Capacity.total (counted.map fun f => f.cheque.cell.capacity) := by
  have hcredits : Refunds.credits [] (counted.map CountedCheque.credit) = .ok t.refunds :=
    h.refunds_eq
  have hsenders : (counted.map CountedCheque.credit).map Prod.fst =
      counted.map CountedCheque.sender := by
    rw [List.map_map]
    rfl
  refine ⟨?_, fun e he => ?_, ?_⟩
  · rw [Refunds.keys_credits hcredits, hsenders]
    refine congrArg List.eraseDups (List.filter_eq_self.mpr fun x _ => ?_)
    exact decide_eq_true List.not_mem_nil
  · have hnodup := Refunds.nodup_credits (r := []) List.nodup_nil hcredits
    rw [← Refunds.owed_of_mem hnodup he, Refunds.owed_credits hcredits, List.filter_map,
      List.map_map]
    exact Nat.zero_add _
  · rw [Refunds.total_credits hcredits, List.map_map]
    exact Nat.zero_add _

/-- The first cells are a lock's own if and only if they come before the first that are not. -/
theorem forall_lock_eq_iff {pulled cells : List LiveCell} {lock : Script} (h : pulled <+: cells) :
    (∀ x ∈ pulled, x.cell.lock = lock) ↔ pulled <+: cells.takeWhile (·.cell.lock = lock) := by
  obtain ⟨rest, rfl⟩ := h
  constructor
  · intro hown
    rw [List.takeWhile_append_of_pos fun x hx => decide_eq_true (hown x hx)]
    exact List.prefix_append _ _
  · intro htake x hx
    have hlock := List.mem_takeWhile_imp (htake.subset hx)
    exact of_decide_eq_true hlock

/-- The account of some counted cheques, what is owed for them, and what pays. -/
def Assembler.account (a : Assembler Nat) (receiver : Script) (owner : Hash) (t : ClaimTally)
    (counted : List CountedCheque) (pulled : List LiveCell) (left : List Cell) : ClaimAccount where
  sent := counted.map fun e => (e.cheque, e.sender)
  amounts := counted.map CountedCheque.amount
  claimed := (a.tokenCell receiver owner t.amount).raised
  refunds := t.refunds.map fun e => Cell.plain e.1 e.2
  change := left
  pulled := pulled

/-- A claim, taken apart: it spends the cheques for the receiver and the first plain cells that it
finds. -/
theorem Assembler.claimCheques_result (ha : a.ledger = c.ledger) (hp : a.pageSize ≠ 0)
    (hn : (c.live.map LiveCell.outPoint).Nodup) {r : Assembled}
    (h : Yields (a.claimCheques receiver owner) r) :
    ∃ (t : ClaimTally) (cells : List LiveCell) (counted : List CountedCheque)
      (pulled : List LiveCell) (left : List Cell) (d : Draft),
      Tallies a (a.scripts.sudtType owner) receiver.hashHead {} cells counted t ∧
      counted.map CountedCheque.cheque = c.chequesFor a.scripts receiver owner ∧
      pulled <+: c.plainUnder receiver ∧
      d.Spends ((counted.map CountedCheque.cheque ++ pulled).map LiveCell.spending) ∧
      r.transaction = d.transaction ∧ d.fee = .ok r.fee ∧
      d.outputs = (a.tokenCell receiver owner t.amount).raised ::
        t.refunds.map (fun e => Cell.plain e.1 e.2) ++ left ∧
      Remains (some receiver) left := by
  obtain ⟨o, hopens, hcompletes⟩ := Construction.anatomy_claimCheques h
  obtain ⟨d₀, d₁, d, got, left, hspends, hcollect, hi, ht, hfee, houtputs, hleft⟩ :=
    hcompletes.drafts
  cases hopens with
  | @claimCheques _ _ t found =>
  obtain ⟨cells, counted, htallies, hcheques⟩ := counted_of_findCheques ha hp found
  have hdelivers : CellStream.Delivers a.ledger _
      ([SearchKey.plainByLock receiver].map a.stream) :=
    delivers_stream (n := { chain := c }) (ha.trans (Node.ledger_chain c).symm) hp
      (List.forall_mem_singleton.mpr rfl)
  obtain ⟨pulled, hpulled, rfl⟩ := collectCapacity_prefix hdelivers hcollect
  have htcheques : t.cheques = counted.map CountedCheque.cheque := htallies.cheques_eq
  rw [htcheques] at hspends
  have hspent := hspends.foldl_consume pulled
  rw [← List.map_append] at hspent
  refine ⟨t, cells, counted, pulled, left, d, htallies, hcheques, ?_,
    ⟨hi ▸ hspent.1, hi ▸ hspent.2⟩, ht, hfee, houtputs, hleft⟩
  rw [hcheques] at hspends
  rw [List.flatMap_singleton] at hpulled
  rw [← pick_plainUnder hn hspends]
  exact hpulled

/-- What is pulled pays for all but the refunds: these are paid for by the cheques. -/
theorem paid_of_fee {t : ClaimTally} {cells : List LiveCell} {counted : List CountedCheque}
    {pulled : List LiveCell} {left : List Cell} {claimed : Cell} {d : Draft} {fee : Capacity}
    (htallies : Tallies a (a.scripts.sudtType owner) receiver.hashHead {} cells counted t)
    (hspends : d.Spends ((counted.map CountedCheque.cheque ++ pulled).map LiveCell.spending))
    (hfee : d.fee = .ok fee)
    (houtputs : d.outputs = claimed :: t.refunds.map (fun e => Cell.plain e.1 e.2) ++ left) :
    Capacity.total (pulled.map fun x => x.cell.capacity) =
      claimed.capacity.toNat + Capacity.total (left.map Cell.capacity) + fee.toNat := by
  obtain ⟨-, -, htotal⟩ := refunds_of_counted htallies
  have hbalance : Capacity.total (counted.map fun f => f.cheque.cell.capacity) +
      Capacity.total (pulled.map fun x => x.cell.capacity) =
      claimed.capacity.toNat +
        (Capacity.total (t.refunds.map Prod.snd) + Capacity.total (left.map Cell.capacity)) +
        fee.toNat := by
    have htransfer := Draft.fee_eq_ok hfee
    rw [hspends.worths_eq, houtputs] at htransfer
    simpa [Function.comp_def, LiveCell.spending, Cell.plain] using htransfer
  rw [htotal] at hbalance
  omega

/-- The account of a claim, from its parts. -/
theorem Assembler.holds_account (ha : a.ledger = c.ledger)
    (hn : (c.live.map LiveCell.outPoint).Nodup) {r : Assembled} {t : ClaimTally}
    {cells : List LiveCell} {counted : List CountedCheque} {pulled : List LiveCell}
    {left : List Cell} {d : Draft}
    (htallies : Tallies a (a.scripts.sudtType owner) receiver.hashHead {} cells counted t)
    (hcheques : counted.map CountedCheque.cheque = c.chequesFor a.scripts receiver owner)
    (hpulled : pulled <+: c.plainUnder receiver)
    (hspends : d.Spends ((counted.map CountedCheque.cheque ++ pulled).map LiveCell.spending))
    (ht : r.transaction = d.transaction) (hfee : d.fee = .ok r.fee)
    (houtputs : d.outputs = (a.tokenCell receiver owner t.amount).raised ::
      t.refunds.map (fun e => Cell.plain e.1 e.2) ++ left)
    (hleft : Remains (some receiver) left) :
    (a.account receiver owner t counted pulled left).Holds c a.scripts receiver owner r := by
  obtain ⟨hkeys, hrefunds, htotal⟩ := refunds_of_counted htallies
  have hfst : (counted.map fun e => (e.cheque, e.sender)).map Prod.fst =
      counted.map CountedCheque.cheque := by
    rw [List.map_map]
    rfl
  have hinputs : r.transaction.inputs = (counted.map CountedCheque.cheque ++ pulled).map
      fun x => ⟨x.outPoint, Since.zero⟩ := by
    rw [ht, Draft.inputs_transaction, hspends.1, List.map_map]
    rfl
  constructor
  case cheques => exact hfst.trans hcheques
  case senders =>
    intro e he
    obtain ⟨f, hf, rfl⟩ := List.mem_map.mp he
    change c.attributed? ((counted.map fun e => (e.cheque, e.sender)).map Prod.fst) _ = _
    rw [hfst]
    exact attributed?_of_counted ha htallies f hf
  case amounts =>
    change (counted.map _).map _ = _
    rw [List.map_map]
    exact htallies.amounts_eq
  case inputs => exact hfst ▸ hinputs
  case distinct =>
    rw [Transaction.spent, hinputs, List.map_map, hcheques]
    exact nodup_spent hn hpulled
  case outputs => exact ht ▸ houtputs
  case claimed =>
    refine ⟨Cell.lock_raised _, Cell.type_raised _, t.amount, Cell.data_raised _, ?_⟩
    change _ = ((counted.map _).map _).sum
    rw [htallies.amount_eq, List.map_map]
    exact Nat.zero_add _
  case refunded =>
    change (t.refunds.map _).map _ = ((counted.map _).map _).eraseDups
    rw [List.map_map, List.map_map]
    exact hkeys
  case refunds =>
    intro x hx
    obtain ⟨e, he, rfl⟩ := List.mem_map.mp hx
    refine ⟨rfl, (hrefunds e he).trans ?_⟩
    change _ = Capacity.total (((counted.map _).filter _).map _)
    rw [List.filter_map, List.map_map]
    rfl
  case refunds_total =>
    change Capacity.total ((t.refunds.map _).map _) = Capacity.total ((counted.map _).map _)
    rw [List.map_map, List.map_map]
    exact htotal
  case change =>
    cases hleft with
    | gone => exact Or.inl rfl
    | kept hlock capacity =>
      exact Or.inr ⟨capacity, by rw [Assembler.account, Option.some.inj hlock]⟩
  case paid => exact paid_of_fee htallies hspends hfee houtputs
  case pulled => exact hpulled

end Account

/-- A claim of cheques, with its account. The cells that pay are the receiver's own if and only if
they come before the first plain cell of a longer lock, so always when no live lock is longer than
the receiver's and starts with it. Without cheques a claim fails. -/
theorem Assembler.claim_accounts {c : Chain} {a : Assembler Nat} {receiver : Script}
    {owner : Hash} (ha : a.ledger = c.ledger) (hn : (c.live.map LiveCell.outPoint).Nodup) :
    (∀ r, Yields (a.claimCheques receiver owner) r → ∃ acc : ClaimAccount,
      acc.Holds c a.scripts receiver owner r ∧
      ((∀ x ∈ acc.pulled, x.cell.lock = receiver) ↔
        acc.pulled <+: (c.plainUnder receiver).takeWhile (·.cell.lock = receiver)) ∧
      ((∀ x ∈ c.live, x.cell.lock.startsWith receiver = true → x.cell.lock = receiver) →
        ∀ x ∈ acc.pulled, x.cell.lock = receiver)) ∧
    (c.chequesFor a.scripts receiver owner = [] →
      Ends (a.claimCheques receiver owner) (.error (.noChequeFor receiver.hash))) := by
  refine ⟨fun r h => ?_, ends_claimCheques_of_none ha⟩
  have hp : a.pageSize ≠ 0 := fun hp =>
    nomatch Always.eq (ends_claimCheques_of_unpaged ha hp) h
  obtain ⟨t, cells, counted, pulled, left, d, htallies, hcheques, hpulled, hspends, ht, hfee,
    houtputs, hleft⟩ := claimCheques_result ha hp hn h
  refine ⟨a.account receiver owner t counted pulled left,
    holds_account ha hn htallies hcheques hpulled hspends ht hfee houtputs hleft,
    forall_lock_eq_iff hpulled, fun hexact x hx => ?_⟩
  obtain ⟨hlive, hcond⟩ := List.mem_filter.mp (hpulled.subset hx)
  rw [Bool.and_eq_true] at hcond
  exact hexact x hlive hcond.2

/-- A chain where a sender that it knows has left a cheque of 9 tokens of the zero owner to a
receiver, and where a lock has a plain cell. -/
def Chain.withCheque (sender receiver lock : Script) : Chain :=
  let (funding, c) := Chain.new.fund [Cell.plain sender 100000000000]
  let args := ChequeArgs.ofLocks receiver sender
  c.commit
    { inputs := [⟨⟨funding.hash, 0⟩, Since.zero⟩]
      outputs :=
        [⟨30000000000, SystemScripts.mainnet.chequeLock args.bytes,
            some (SystemScripts.mainnet.sudtType Hash.zero), TokenAmount.data 9⟩,
          Cell.plain lock 40000000000] }
    genesis

/-- A claim of one cheque, with its account; the receiver pays. -/
theorem Assembler.claim_accounts_withCheque :
    ∃ r, Yields ((onChain (.withCheque (.ofByte 1) (.ofByte 2) (.ofByte 2))).claimCheques
        (.ofByte 2) Hash.zero) r ∧
      ∃ acc : ClaimAccount,
        acc.Holds (.withCheque (.ofByte 1) (.ofByte 2) (.ofByte 2)) SystemScripts.mainnet
          (.ofByte 2) Hash.zero r ∧
        ∀ x ∈ acc.pulled, x.cell.lock = .ofByte 2 := by
  obtain ⟨r, h, -⟩ := exists_yields
    (m := (onChain (.withCheque (.ofByte 1) (.ofByte 2) (.ofByte 2))).claimCheques (.ofByte 2)
      Hash.zero)
    (s := 0) (fun _ => true) (by decide +kernel)
  obtain ⟨hclaim, -⟩ := @claim_accounts (.withCheque (.ofByte 1) (.ofByte 2) (.ofByte 2))
    (onChain (.withCheque (.ofByte 1) (.ofByte 2) (.ofByte 2))) (.ofByte 2) Hash.zero rfl
    (by decide +kernel)
  obtain ⟨acc, hacc, -, hown⟩ := hclaim r h
  exact ⟨r, h, acc, hacc, hown (by decide +kernel)⟩

/-- A claim of one cheque is paid for by a plain cell of a lock that is longer than the
receiver's. -/
theorem Assembler.claim_paid_by_longer :
    ∃ r, Yields ((onChain (.withCheque (.ofByte 1) (.ofByte 2)
        ((Script.ofByte 2).extend [0xff]))).claimCheques (.ofByte 2) Hash.zero) r ∧
      ∃ x ∈ (Chain.withCheque (.ofByte 1) (.ofByte 2) ((Script.ofByte 2).extend [0xff])).live,
        ⟨x.outPoint, Since.zero⟩ ∈ r.transaction.inputs ∧ x.cell.isPlain = true ∧
          x.cell.lock ≠ .ofByte 2 := by
  obtain ⟨r, h, hpaid⟩ := exists_yields
    (m := (onChain (.withCheque (.ofByte 1) (.ofByte 2)
      ((Script.ofByte 2).extend [0xff]))).claimCheques (.ofByte 2) Hash.zero)
    (s := 0) (fun r => ∃ x ∈ (Chain.withCheque (.ofByte 1) (.ofByte 2)
        ((Script.ofByte 2).extend [0xff])).live,
      ⟨x.outPoint, Since.zero⟩ ∈ r.transaction.inputs ∧ x.cell.isPlain = true ∧
        x.cell.lock ≠ .ofByte 2) (by decide +kernel)
  exact ⟨r, h, of_decide_eq_true hpaid⟩

end CellTx
