import CellTx.Proofs.ClaimedCheques
import CellTx.Proofs.Funded

/-!
# The account of a transfer

What a successful transfer comes to: the receivers' outputs in the order of the request, then at
most the change, and inputs that drain the senders one after the other. The cells are shared out by
the searches that find them (`TransferAccount.shares`): a cell that several searches find is drawn
by the first of them, since it is spent when the later ones come to it.

Results:
* `Draft.exists_shares`, `Chain.exists_shares`: the shares, and that each but the last is all that
  its sender could pay with.
* `Assembler.ends_transfer_of_no_sender`, `Assembler.ends_transfer_of_no_receiver`,
  `Assembler.ends_transfer_of_unfunded`: a request that asks for nothing or for too little always
  fails.
* `Assembler.transfer_delivers`: both, for any number of senders and receivers.

Out of scope: transfers that fail for want of capacity (`CellTx.Proofs.Shortages`).
-/

namespace CellTx

/-! ## Shares -/

namespace Draft

variable {accept : Cell → Bool} {d : Draft} {cells : List LiveCell} {x : LiveCell}

theorem spends_foldl_consume (d : Draft) (cells : List LiveCell) (p : OutPoint) :
    (cells.foldl consume d).spends p = (d.spends p || cells.any (·.outPoint = p)) := by
  induction cells generalizing d with
  | nil => exact (Bool.or_false _).symm
  | cons x cells ih => rw [List.foldl_cons, ih, spends_consume, List.any_cons, Bool.or_assoc]

theorem of_mem_pick (h : x ∈ d.pick accept cells) :
    accept x.cell = true ∧ d.spends x.outPoint = false := by
  induction cells generalizing d with
  | nil => exact absurd h List.not_mem_nil
  | cons y cells ih =>
    rw [pick] at h
    split at h
    · rename_i hy
      rw [Bool.and_eq_true, Bool.not_eq_true'] at hy
      rcases List.mem_cons.mp h with rfl | h
      · exact ⟨hy.2, hy.1⟩
      · obtain ⟨haccept, hfresh⟩ := ih h
        rw [spends_consume, Bool.or_eq_false_iff] at hfresh
        exact ⟨haccept, hfresh.1⟩
    · exact ih h

/-- After picking, every accepted cell is spent. -/
theorem spends_after_pick (hx : x ∈ cells) (haccept : accept x.cell = true) :
    ((d.pick accept cells).foldl consume d).spends x.outPoint = true := by
  induction cells generalizing d with
  | nil => exact absurd hx List.not_mem_nil
  | cons y cells ih =>
    rw [pick]
    split
    · rcases List.mem_cons.mp hx with rfl | hx
      · rw [spends_foldl_consume, List.any_cons, decide_eq_true rfl, Bool.true_or, Bool.or_true]
      · exact ih hx
    · rename_i hy
      rcases List.mem_cons.mp hx with rfl | hx
      · rw [haccept, Bool.and_true, Bool.not_eq_true', Bool.not_eq_false] at hy
        rw [spends_foldl_consume, hy, Bool.true_or]
      · exact ih hx

/-- The first cells that are picked from several lists come in shares, one from each list in its
order. A share has no cell that an earlier list has. -/
theorem exists_shares {lists : List (List LiveCell)} {spent : List LiveCell}
    (h : spent <+: d.pick accept lists.flatten) :
    ∃ shares : List (List LiveCell), shares.flatten = spent ∧ shares.length = lists.length ∧
      ∀ i share cells, shares[i]? = some share → lists[i]? = some cells →
        share.Sublist cells ∧ ∀ x ∈ share, accept x.cell = true ∧
          d.spends x.outPoint = false ∧ ∀ earlier ∈ lists.take i, x ∉ earlier := by
  induction lists generalizing d spent with
  | nil =>
    obtain rfl := List.prefix_nil.mp h
    exact ⟨[], rfl, rfl, nofun⟩
  | cons cells lists ih =>
    rw [List.flatten_cons, pick_append] at h
    -- what comes from the first list, and what comes from the others
    have hsplit := List.prefix_iff_eq_take.mp h
    rw [List.take_append] at hsplit
    obtain ⟨shares, hflatten, hlength, hshares⟩ := ih
      (List.take_prefix (spent.length - (d.pick accept cells).length)
        (((d.pick accept cells).foldl consume d).pick accept lists.flatten))
    refine ⟨(d.pick accept cells).take spent.length :: shares, ?_, ?_,
      fun i share found hi hf => ?_⟩
    · rw [List.flatten_cons, hflatten, ← hsplit]
    · rw [List.length_cons, List.length_cons, hlength]
    · cases i with
      | zero =>
        obtain rfl := Option.some.inj hi
        obtain rfl := Option.some.inj hf
        refine ⟨(List.take_sublist _ _).trans (pick_sublist d cells), fun x hx => ?_⟩
        obtain ⟨haccept, hfresh⟩ := of_mem_pick (List.mem_of_mem_take hx)
        exact ⟨haccept, hfresh, fun earlier he => absurd he List.not_mem_nil⟩
      | succ i =>
        obtain ⟨hsub, hmem⟩ := hshares i share found hi hf
        refine ⟨hsub, fun x hx => ?_⟩
        obtain ⟨haccept, hfresh, hearlier⟩ := hmem x hx
        have hunspent := hfresh
        rw [spends_foldl_consume, Bool.or_eq_false_iff] at hunspent
        refine ⟨haccept, hunspent.1, List.forall_mem_cons.mpr ⟨fun hx => ?_, hearlier⟩⟩
        rw [spends_after_pick hx haccept] at hfresh
        exact Bool.noConfusion hfresh

end Draft

/-- The filter of the search for plain cells lets them through. -/
theorem filter_plainByLock {lock : Script} {x : LiveCell} (hx : x.cell.isPlain = true) :
    (SearchKey.plainByLock lock).filter.all
      (·.accepts ((SearchKey.plainByLock lock).scriptsOf x.cell).2 x) = true := by
  obtain ⟨htype, hdata⟩ := Cell.isPlain_iff.mp hx
  simp [SearchKey.plainByLock, SearchKey.scriptsOf, SearchFilter.accepts, htype, hdata,
    HalfOpen.contains]

/-- What the searches for the plain cells of some locks offer a draft without inputs, through a
node. -/
theorem Node.pick_plainByLock {n : Node} {d : Draft} (hi : d.inputs = []) (locks : List Script) :
    d.pick Cell.isPlain ((locks.map SearchKey.plainByLock).flatMap fun key =>
        n.chain.live.filter (n.searched key).accepts) =
      Draft.empty.pick Cell.isPlain (locks.flatMap n.chain.plainUnder) := by
  have hplain : ∀ lock, (n.chain.live.filter
      (n.searched (SearchKey.plainByLock lock)).accepts).filter (·.cell.isPlain) =
        n.chain.plainUnder lock := by
    intro lock
    rw [List.filter_filter]
    refine List.filter_congr fun x _ => ?_
    by_cases hx : x.cell.isPlain = true
    · rw [accepts_searched (filter_plainByLock hx)]
      rfl
    · rw [Bool.not_eq_true] at hx
      rw [hx, Bool.false_and, Bool.false_and]
  rw [Draft.pick_of_inputs_nil hi, ← Draft.pick_filter, List.flatMap_map, List.filter_flatMap]
  simp only [hplain]

/-- A draft without inputs collects the first plain cells of the locks, each out point once. -/
theorem Assembler.prefix_of_collectCapacity {n : Node} {a : Assembler Nat}
    (ha : a.ledger = n.ledger) {locks : List Script} {got : Collected} {d d' : Draft}
    (hi : d.inputs = [])
    (h : Yields (a.collectCapacity d ((locks.map SearchKey.plainByLock).map a.stream))
      (got, d')) :
    ∃ spent, spent <+: Draft.empty.pick Cell.isPlain (locks.flatMap n.chain.plainUnder) ∧
      d' = spent.foldl Draft.consume d := by
  obtain ⟨found, hfound, hdelivers⟩ := exists_delivers ha
    (List.forall_mem_map.mpr fun _ _ => rfl : ∀ key ∈ locks.map SearchKey.plainByLock, _)
  obtain ⟨spent, hspent, rfl⟩ := collectCapacity_prefix hdelivers h
  have hpick := hspent.trans (Draft.pick_mono hfound)
  rw [Node.pick_plainByLock hi] at hpick
  exact ⟨spent, hpick, rfl⟩

/-- The first plain cells of some locks come in shares, one for each lock. No cell of a share is
one that an earlier lock's search finds. -/
theorem Chain.exists_shares (c : Chain) {locks : List Script} {spent : List LiveCell}
    (h : spent <+: Draft.empty.pick Cell.isPlain (locks.flatMap c.plainUnder)) :
    ∃ shares : List (List LiveCell), shares.flatten = spent ∧ shares.length = locks.length ∧
      ∀ i share lock, shares[i]? = some share → locks[i]? = some lock →
        share.Sublist (c.plainUnder lock) ∧
          ∀ x ∈ share, ∀ earlier ∈ locks.take i, x.cell.lock.startsWith earlier = false := by
  obtain ⟨shares, hflatten, hlength, hshares⟩ := Draft.exists_shares (List.flatMap_def ▸ h)
  refine ⟨shares, hflatten, hlength.trans (List.length_map _), fun i share lock hi hl => ?_⟩
  obtain ⟨hsub, hmem⟩ := hshares i share (c.plainUnder lock) hi
    (by rw [List.getElem?_map, hl]; rfl)
  refine ⟨hsub, fun x hx earlier he => ?_⟩
  obtain ⟨hlive, hcond⟩ := List.mem_filter.mp (hsub.subset hx)
  rw [Bool.and_eq_true] at hcond
  -- otherwise the search for the earlier lock would have found the cell
  rw [Bool.eq_false_iff]
  intro hstarts
  refine (hmem x hx).2.2 (c.plainUnder earlier) ?_ ?_
  · rw [← List.map_take]
    exact List.mem_map_of_mem he
  · exact List.mem_filter.mpr ⟨hlive, by rw [hcond.1, hstarts]; rfl⟩

/-! ## The account -/

/-- What a transfer spends and makes. -/
structure TransferAccount where
  /-- The cells that the search of each sender pays with. -/
  shares : List (List LiveCell)
  change : List Cell

/-- The account of a transfer that came to a transaction. -/
structure TransferAccount.Holds (acc : TransferAccount) (c : Chain) (r : TransferRequest)
    (t : Transaction) : Prop where
  /-- Each receiver gets what is asked for, in the order of the request. -/
  outputs : t.outputs = r.receivers.map (fun e => Cell.plain e.1 e.2) ++ acc.change
  /-- At most one more output is there, for the change lock, and it holds what it occupies. -/
  change : acc.change = [] ∨ ∃ lock capacity, r.change = some lock ∧
    acc.change = [Cell.plain lock capacity] ∧ (Cell.plain lock capacity).Funded
  /-- The shares are spent one after the other, without time lock. -/
  inputs : t.inputs = acc.shares.flatten.map fun x => ⟨x.outPoint, Since.zero⟩
  plain : ∀ x ∈ acc.shares.flatten, x ∈ c.live ∧ x.cell.type = none ∧ x.cell.data = []
  senders : acc.shares.length = r.senders.length
  /-- The share of a sender is drawn in the order of the chain from the plain cells whose locks
  start with the sender's, and not with that of a sender before. -/
  shares : ∀ i share sender, acc.shares[i]? = some share → r.senders[i]? = some sender →
    share.Sublist (c.plainUnder sender) ∧
      ∀ x ∈ share, ∀ earlier ∈ r.senders.take i, x.cell.lock.startsWith earlier = false
  /-- The first plain cells of the senders pay, sender by sender and each out point once. -/
  first : acc.shares.flatten <+: Draft.empty.pick Cell.isPlain (r.senders.flatMap c.plainUnder)

section Transfer

variable {n : Node} {a : Assembler Nat} {r : TransferRequest} {res : Assembled}

/-- A successful transfer, with its account. -/
theorem Assembler.holds_transferAccount (ha : a.ledger = n.ledger)
    (h : Yields (a.transfer r) res) :
    ∃ acc : TransferAccount, acc.Holds n.chain r res.transaction := by
  obtain ⟨o, hopens, hcompletes⟩ := Construction.anatomy_transfer h
  obtain ⟨d₀, d₁, d, got, left, hspends, hcollect, hi, ht, -, houtputs, hleft⟩ :=
    hcompletes.drafts
  obtain ⟨left', houtputs', hfunded⟩ := hcompletes.left_funded
  cases hopens with
  | transfer senders receivers funded =>
  obtain ⟨spent, hpick, rfl⟩ :=
    prefix_of_collectCapacity ha (List.map_eq_nil_iff.mp hspends.1) hcollect
  have hinputs : res.transaction.inputs = spent.map fun x => ⟨x.outPoint, Since.zero⟩ := by
    rw [ht, Draft.inputs_transaction, hi, (hspends.foldl_consume spent).1, List.nil_append,
      List.map_map]
    rfl
  have hout : res.transaction.outputs = r.receivers.map (fun e => Cell.plain e.1 e.2) ++ left :=
    ht ▸ houtputs
  obtain rfl : left = left' := List.append_cancel_left (hout.symm.trans houtputs')
  obtain ⟨shares, rfl, hlength, hshares⟩ := n.chain.exists_shares hpick
  refine ⟨⟨shares, left⟩, {
    outputs := hout
    change := hleft.cases_of_funded hfunded
    inputs := hinputs
    plain := fun x hx => ?_
    senders := hlength
    shares := hshares
    first := hpick }⟩
  obtain ⟨sender, -, hmem⟩ := List.mem_flatMap.mp
    ((Draft.pick_sublist _ _).subset (hpick.subset hx))
  obtain ⟨hlive, hcond⟩ := List.mem_filter.mp hmem
  rw [Bool.and_eq_true] at hcond
  exact ⟨hlive, Cell.isPlain_iff.mp hcond.1⟩

/-! ## Requests that fail -/

/-- A receiver's output that does not hold what it occupies is refused. -/
theorem TransferRequest.exists_addReceivers_eq_error {receivers : List (Script × Capacity)}
    {e : Script × Capacity} (he : e ∈ receivers) (h : ¬ (Cell.plain e.1 e.2).Funded) (d : Draft) :
    ∃ f, addReceivers receivers d = .error f := by
  cases hadd : addReceivers receivers d with
  | error f => exact ⟨f, rfl⟩
  | ok d' => exact absurd ((addReceivers_eq_ok hadd).2.2.2 e he) h

theorem Assembler.ends_transfer_of_no_sender (a : Assembler Nat) (h : r.senders = []) :
    Ends (a.transfer r) (.error .noSenderLock) := by
  refine Flow.ends_assemble_of_init ?_
  rw [transferFlow, h]
  exact Ends.throw _

theorem Assembler.ends_transfer_of_no_receiver (a : Assembler Nat) (hs : r.senders ≠ [])
    (h : r.receivers = []) : Ends (a.transfer r) (.error .noReceiverLock) := by
  refine Flow.ends_assemble_of_init ?_
  rw [transferFlow, if_neg (by rw [List.isEmpty_iff]; exact hs), h]
  exact Ends.throw _

/-- A transfer that asks for an output below what it occupies fails before anything is spent. -/
theorem Assembler.ends_transfer_of_unfunded (a : Assembler Nat) {e : Script × Capacity}
    (he : e ∈ r.receivers) (h : ¬ (Cell.plain e.1 e.2).Funded) :
    ∃ f, Ends (a.transfer r) (.error f) := by
  by_cases hs : r.senders = []
  · exact ⟨_, a.ends_transfer_of_no_sender hs⟩
  obtain ⟨f, hf⟩ := TransferRequest.exists_addReceivers_eq_error he h
    ((Draft.empty.setVersion 0).addCellDep a.scripts.secp256k1Blake160.dep)
  have hinit : Ends (a.transferFlow r).init (.ok ()) := by
    rw [transferFlow, if_neg (by rw [List.isEmpty_iff]; exact hs),
      if_neg (by rw [List.isEmpty_iff]; exact List.ne_nil_of_mem he)]
    exact Ends.pure ()
  have houtputs : Ends ((a.transferFlow r).buildOutputs ()
      ((Draft.empty.setVersion 0).addCellDep a.scripts.secp256k1Blake160.dep)) (.error f) :=
    Ends.bind_error _ (hf ▸ ends_ofExcept _)
  have hdraft : Ends (a.transferFlow r).draft (.error f) :=
    hinit.bind ((Ends.pure _).bind ((Ends.pure _).bind ((Ends.pure _).bind
      (houtputs.bind_error _))))
  exact ⟨f, hdraft.bind_error _⟩

/-- A transfer that succeeds delivers what is asked for and drains its senders in order. One that
has no sender, no receiver or an output below what it occupies never succeeds. -/
theorem Assembler.transfer_delivers (ha : a.ledger = n.ledger) :
    (∀ res, Yields (a.transfer r) res →
      ∃ acc : TransferAccount, acc.Holds n.chain r res.transaction) ∧
    (r.senders = [] → Ends (a.transfer r) (.error .noSenderLock)) ∧
    (r.senders ≠ [] → r.receivers = [] → Ends (a.transfer r) (.error .noReceiverLock)) ∧
    ∀ e ∈ r.receivers, ¬ (Cell.plain e.1 e.2).Funded → ∃ f, Ends (a.transfer r) (.error f) :=
  ⟨fun _ h => holds_transferAccount ha h, a.ends_transfer_of_no_sender,
    a.ends_transfer_of_no_receiver, fun _ he h => a.ends_transfer_of_unfunded he h⟩

end Transfer

/-- A chain where two locks, the second longer than the first, have 200 CKB each. -/
def Chain.withTwoSenders : Chain :=
  (Chain.new.fund [Cell.plain (.ofByte 1) 20000000000,
    Cell.plain ((Script.ofByte 1).extend [0xff]) 20000000000]).2

/-- The sender of the longer lock is named first, so the later cell is spent first. -/
theorem Assembler.transfer_delivers_twoSenders :
    let r : TransferRequest := ⟨[(Script.ofByte 1).extend [0xff], .ofByte 1],
      [(.ofByte 3, 25000000000)], some (.ofByte 2)⟩
    ∃ res, Yields ((onChain .withTwoSenders).transfer r) res ∧
      (res.transaction.inputs.map fun i => i.previous.index) = [1, 0] ∧
      ∃ acc : TransferAccount, acc.Holds .withTwoSenders r res.transaction := by
  intro r
  obtain ⟨res, h, hinputs⟩ := exists_yields (m := (onChain .withTwoSenders).transfer r) (s := 0)
    (fun res => (res.transaction.inputs.map fun i => i.previous.index) = [1, 0])
    (by decide +kernel)
  obtain ⟨hdelivers, -⟩ := transfer_delivers (n := { chain := .withTwoSenders })
    (a := onChain .withTwoSenders) (r := r) (Node.ledger_chain _).symm
  exact ⟨res, h, of_decide_eq_true hinputs, hdelivers res h⟩

end CellTx
