import CellTx.Proofs.Delivery
import CellTx.Proofs.Fees

/-!
# Whose cells a construction spends

Beside the cells that a construction names (`Construction.Names`), it spends live cells whose locks
start with a lock that signs. A longer lock is another lock, though, and its cells are spent like
the signer's: the search compares by prefix, and what it finds is not looked at again
(specification, section 4.2).

Results:
* `Construction.spends_named_or_live`: what is spent, for every construction on every node.
* `Assembler.ends_transfer_toEmpty`: a transfer that pays with a cell under any longer lock.
* `spendsOwn_iff`: the cells are the signers' own exactly where no live lock starts with a signing
  lock without being one.
* `Construction.not_spendsOwn_longer`: a lock with one byte more.

Out of scope: whether a transaction with such an input could be signed.
-/

namespace CellTx

/-- A cheque of a token under the cheque lock with the given args. -/
structure Cell.IsCheque (scripts : SystemScripts) (owner : Hash) (args : ChequeArgs) (c : Cell) :
    Prop where
  lock : c.lock = scripts.chequeLock args.bytes
  type : c.type = some (scripts.sudtType owner)

/-- A cell that the search for cheques finds, and that counts as a cheque with some args. -/
theorem Cell.isCheque_of_chequeArgsFor {scripts : SystemScripts} {owner : Hash} {head : Bytes}
    {x : LiveCell} {args : ChequeArgs}
    (h : chequeArgsFor (scripts.sudtType owner) head x = some args)
    (hmatch : x.cell.lock.startsWith (scripts.chequeLock head) = true) :
    x.cell.IsCheque scripts owner args := by
  obtain ⟨htype, -, hargs⟩ := hasType_of_chequeArgsFor h
  obtain ⟨hcode, hhash, -⟩ := Script.startsWith_iff.mp hmatch
  have hbytes : x.cell.lock.args = args.bytes := (ChequeArgs.bytes_of_ofBytes hargs).symm
  refine ⟨Script.eq_of_startsWith (Script.startsWith_iff.mpr ⟨hcode, hhash, [], ?_⟩) hbytes,
    Cell.hasType_iff.mp htype⟩
  rw [List.append_nil]
  exact hbytes

namespace Construction

/-- The locks that sign a construction. -/
def signers (c : Chain) : Construction → List Script
  | transfer r => r.senders
  | deposit owner _ => [owner]
  | withdraw p => ((c.output? p).map Cell.lock).toList
  | claim p => ((c.output? p).map Cell.lock).toList
  | issueCheque r => [r.sender]
  | claimCheques receiver _ => [receiver]
  | withdrawCheque r => [r.sender]

/-- The cells that a construction names: the deposit, the withdrawing cell, the cheques for the
receiver, and the cheque that is taken back. -/
def Names (scripts : SystemScripts) : Construction → Spending → Prop
  | withdraw p, s => s.outPoint = p
  | claim p, s => s.outPoint = p
  | claimCheques receiver owner, s =>
    ∃ args : ChequeArgs, args.receiver = receiver.hash.bytes.take 20 ∧
      s.cell.IsCheque scripts owner args
  | withdrawCheque r, s =>
    s.cell.IsCheque scripts r.owner r.args ∧ TokenAmount.ofData? s.cell.data = some r.amount
  | _, _ => False

end Construction

/-- A live cell, spent without time lock, whose lock starts with one of some locks. -/
def Chain.SpendsLive (c : Chain) (locks : List Script) (s : Spending) : Prop :=
  ∃ x ∈ c.live, x.spending = s ∧ ∃ lock ∈ locks, x.cell.lock.startsWith lock = true

section Node

variable {n : Node} {a : Assembler Nat}

/-- The locks that pay are the locks that sign. -/
theorem Opens.payers_eq {k : Construction} {o : Opening} (ha : a.ledger = n.ledger)
    (h : Opens a k o) : o.payers = k.signers n.chain := by
  cases h with
  | withdraw hloaded =>
    rw [ha] at hloaded
    rw [Construction.signers, (Node.output?_of_load hloaded).2]
    rfl
  | _ => rfl

/-- What a construction starts from is named, or live under a lock of a signer. -/
theorem Opens.names {k : Construction} {o : Opening} (ha : a.ledger = n.ledger)
    (h : Opens a k o) :
    ∀ s ∈ o.spent, k.Names a.scripts s ∨ n.chain.SpendsLive (k.signers n.chain) s := by
  cases h with
  | transfer => exact fun s hs => absurd hs List.not_mem_nil
  | deposit => exact fun s hs => absurd hs List.not_mem_nil
  | withdraw hloaded =>
    intro s hs
    rw [ha] at hloaded
    rw [List.mem_singleton.mp hs]
    exact Or.inl (Node.output?_of_load hloaded).1
  | issueCheque _ _ fresh tokens =>
    obtain ⟨cells, held, tokens, hspends, -⟩ := Assembler.collectTokens_fresh fresh tokens
    rw [hspends.1]
    intro s hs
    obtain ⟨c, hc, rfl⟩ := List.mem_map.mp hs
    obtain ⟨key, hkey, hrep⟩ := tokens.reported c hc
    rw [List.mem_singleton.mp hkey, ha] at hrep
    obtain ⟨hlive, hmatch⟩ := Node.live_of_reports rfl rfl hrep
    exact Or.inr ⟨c, hlive, rfl, _, List.mem_singleton_self _, hmatch⟩
  | @claimCheques receiver owner t found =>
    intro s hs
    obtain ⟨c, hc, rfl⟩ := List.mem_map.mp hs
    have hrep := Assembler.reported_of_findCheques found c hc
    rw [ha] at hrep
    obtain ⟨-, hmatch⟩ := Node.live_of_reports rfl rfl hrep
    obtain ⟨cells, counted, -, htallies, -⟩ := Assembler.findCheques_spec found
    rw [htallies.cheques_eq] at hc
    obtain ⟨e, he, rfl⟩ := List.mem_map.mp hc
    have hcounted := (htallies.counted_spec e he).1
    exact Or.inl ⟨e.args, (hasType_of_chequeArgsFor hcounted).2.1,
      Cell.isCheque_of_chequeArgsFor hcounted hmatch⟩
  | @withdrawCheque r c found =>
    intro s hs
    obtain ⟨hasked, hrep⟩ := Assembler.findCheque_spec found
    rw [ha] at hrep
    obtain ⟨-, hmatch⟩ := Node.live_of_reports rfl rfl hrep
    rw [ChequeRequest.isAsked, Bool.and_eq_true, Bool.and_eq_true, decide_eq_true_eq,
      decide_eq_true_eq] at hasked
    rw [List.mem_singleton.mp hs]
    exact Or.inl ⟨⟨Script.eq_of_startsWith hmatch hasked.2, Cell.hasType_iff.mp hasked.1.2⟩,
      hasked.1.1⟩

/-- Every input spends a cell that is named, or live under a lock of a signer. -/
theorem Construction.spends_named_or_live {k : Construction} {r : Assembled}
    (ha : a.ledger = n.ledger) (h : Yields (k.run a) r) :
    ∃ spent : List Spending, r.transaction.inputs = spent.map Spending.input ∧
      ∀ s ∈ spent, n.chain.Has s.outPoint s.cell ∧
        (k.Names a.scripts s ∨ n.chain.SpendsLive (k.signers n.chain) s) := by
  rcases anatomy h with ⟨o, hopens, hcompletes⟩ | ⟨p, rfl, hclaims⟩
  · obtain ⟨d, cells, left, ht, -, hspends, hpaid, -, -⟩ := hcompletes.result
    refine ⟨_, by rw [ht, Draft.inputs_transaction, hspends.1], fun s hs => ?_⟩
    refine ⟨hopens.has_all ha hpaid s hs, ?_⟩
    rcases List.mem_append.mp hs with hs | hs
    · exact hopens.names ha s hs
    · obtain ⟨c, hc, rfl⟩ := List.mem_map.mp hs
      have hc := hpaid c hc
      rw [ha, hopens.payers_eq ha] at hc
      obtain ⟨hlive, hmatch⟩ := hc.live
      exact Or.inr ⟨c, hlive, rfl, hmatch⟩
  · obtain ⟨w, d, hloaded, ht, -, hspends, -, -⟩ := hclaims.result
    obtain ⟨hcell, -⟩ := Assembler.of_loadWithdrawing hloaded
    rw [ha] at hcell
    obtain ⟨hp, ho⟩ := Node.output?_of_load hcell
    refine ⟨_, by rw [ht, Draft.inputs_transaction, hspends], fun s hs => ?_⟩
    rw [List.mem_singleton.mp hs]
    exact ⟨Or.inr (hp ▸ ho), Or.inl hp⟩

end Node

/-! ## Longer locks -/

/-- A plain cell that covers any fee. -/
def Cell.ample (lock : Script) : Cell := .plain lock 0x8000000000000000

/-- A transfer that some locks pay for, to a lock without args. -/
def TransferRequest.toEmpty (senders : List Script) : TransferRequest :=
  ⟨senders, [(Script.empty, 4100000000)], none⟩

section Longer

variable {c : Chain} {a : Assembler Nat} {senders : List Script} {x : LiveCell}

theorem accepts_plainByLock_iff {lock : Script} (hx : x.cell.isPlain = true) :
    (SearchKey.plainByLock lock).accepts x = true ↔ x.cell.lock.startsWith lock = true := by
  obtain ⟨htype, hdata⟩ := Cell.isPlain_iff.mp hx
  simp [SearchKey.accepts, SearchKey.plainByLock, SearchKey.scriptsOf, SearchKey.matchesScript,
    SearchFilter.accepts, htype, hdata, HalfOpen.contains]

theorem Draft.worths_consume {d : Draft} (hi : d.inputs = []) (x : LiveCell) :
    (d.consume x).inputs.map DraftInput.worth = [x.cell.capacity] := by
  rw [Draft.consume, Draft.addInput, Draft.inputs_addInputWorth, hi]
  rfl

/-- The only live cell is found by the searches of locks that its lock starts with. -/
theorem find?_rests_oneCell {accept : LiveCell → Bool} (hlive : c.live = [x])
    (hplain : x.cell.isPlain = true)
    (h : ∃ lock ∈ senders, x.cell.lock.startsWith lock = true) (hx : accept x = true) :
    (CellStream.rests c ((senders.map SearchKey.plainByLock).map a.stream)).find? accept =
      some x := by
  obtain ⟨lock, hlock, hstarts⟩ := h
  have hdata : ∀ key ∈ senders.map SearchKey.plainByLock, key.withData = true := by
    intro key hkey
    obtain ⟨s, -, rfl⟩ := List.mem_map.mp hkey
    rfl
  rw [Assembler.rests_streams a hdata, hlive]
  have hmem : x ∈ (senders.map SearchKey.plainByLock).flatMap fun key =>
      [x].filter key.accepts := by
    refine List.mem_flatMap.mpr ⟨_, List.mem_map_of_mem hlock, List.mem_filter.mpr ?_⟩
    exact ⟨List.mem_singleton_self x, (accepts_plainByLock_iff hplain).mpr hstarts⟩
  -- nothing else is there to be found before it
  cases hfind : ((senders.map SearchKey.plainByLock).flatMap fun key =>
      [x].filter key.accepts).find? accept with
  | none => exact absurd hx (List.find?_eq_none.mp hfind x hmem)
  | some y =>
    obtain ⟨key, -, hy⟩ := List.mem_flatMap.mp (List.mem_of_find?_eq_some hfind)
    rw [List.mem_singleton.mp (List.mem_filter.mp hy).1]

/-- A walk over one live cell has two rounds at least. -/
theorem bound_oneCell (hlive : c.live = [x]) (ha : a.ledger = c.ledger) (h : senders ≠ []) :
    ∃ rounds, CellStream.bound a.ledger ((senders.map SearchKey.plainByLock).map a.stream) =
      rounds + 2 := by
  obtain ⟨rounds, hrounds⟩ :=
    Nat.exists_eq_succ_of_ne_zero (Nat.ne_of_gt (List.length_pos_of_ne_nil h))
  refine ⟨rounds, ?_⟩
  rw [CellStream.bound, ha, List.length_map, List.length_map, hrounds]
  change (rounds + 1) * c.live.length + 1 = rounds + 2
  rw [hlive, List.length_singleton, Nat.mul_one]

/-- The only live cell is collected for the locks that its lock starts with. -/
theorem Assembler.ends_collectCapacity_oneCell {d : Draft} {promised : List Cell} {longer : Script}
    (hlive : c.live = [x]) (hcell : x.cell = .ample longer)
    (h : ∃ lock ∈ senders, longer.startsWith lock = true) (ha : a.ledger = c.ledger)
    (hf : a.estimator = Fee.bySize) (hp : a.pageSize ≠ 0) (ho : d.Offers promised none)
    (hi : d.inputs = [])
    (hamount : Capacity.total (promised.map Cell.capacity) < 4611686018427387904) :
    ∃ got, Ends (a.collectCapacity d ((senders.map SearchKey.plainByLock).map a.stream))
      (.ok (got, d.consume x)) := by
  have hplain : x.cell.isPlain = true := by rw [hcell]; rfl
  have hcapacity : x.cell.capacity = 0x8000000000000000 := by rw [hcell]; rfl
  have hample : (0x8000000000000000 : Capacity).toNat = 9223372036854775808 := rfl
  have hsize : UInt64.size = 18446744073709551616 := rfl
  have hworth := Draft.worths_consume hi x
  rw [hcapacity] at hworth
  have hfirst := ends_measure hf ho (by rw [hi]; decide) (by omega)
  have hsecond := ends_measure hf (ho.consume x) (by rw [hworth]; decide) (by omega)
  rw [hi] at hfirst
  rw [hworth] at hsecond
  obtain ⟨lock, hlock, -⟩ := id h
  obtain ⟨rounds, hbound⟩ := bound_oneCell hlive ha (List.ne_nil_of_mem hlock)
  have hlt := length_rests_lt_bound ha (senders.map SearchKey.plainByLock)
  rw [hbound] at hlt
  obtain ⟨streams, hfind, -, -⟩ := CellStream.ends_find (c := c)
    (fun y => !d.spends y.outPoint && y.cell.isPlain) (paged_stream hp _) hlt
  have hfresh : d.spends x.outPoint = false := by rw [Draft.spends, hi]; rfl
  rw [find?_rests_oneCell hlive hplain (by rwa [hcell]) (by rw [hfresh, hplain]; rfl), ← ha]
    at hfind
  have hadd : Collected.add {} x = .ok ⟨0x8000000000000000, [x]⟩ := by
    rw [Collected.add, hcapacity]
    rfl
  refine ⟨⟨0x8000000000000000, [x]⟩, ?_⟩
  change Ends (a.collectCapacityWithin _ (CellStream.bound a.ledger _) {} d _) _
  rw [hbound]
  refine ends_collectCapacityWithin_next hfirst
    (mt (Balance.isSufficient_iff_of_none rfl).mp (Nat.not_lt_zero _)) hfind hadd
    (ends_collectCapacityWithin_covered hsecond ?_)
  refine (Balance.isSufficient_iff_of_none rfl).mpr ?_
  have hfee : _ ≤ 18446744073709552 := Fee.ofSize_le (d.consume x).transaction.size a.feeRate
  change _ + _ < (0x8000000000000000 : Capacity).toNat + 0
  omega

/-- The receiver of such a transfer is added to a blank draft. -/
theorem Draft.Blank.addReceivers_toEmpty {d : Draft} (h : d.Blank) :
    TransferRequest.addReceivers [(Script.empty, 4100000000)] d =
        .ok (d.addOutput (.plain Script.empty 4100000000)) ∧
      (d.addOutput (.plain Script.empty 4100000000)).Offers [.plain Script.empty 4100000000]
        none := by
  refine ⟨except_bind_eq_ok.mpr ⟨4100000000, Draft.occupied_eq_ok.mpr
    ⟨.plain Script.empty 4100000000, ?_, ?_⟩, rfl⟩, ?_, ?_⟩
  · rw [Draft.outputs_addOutput, List.getElem?_concat_length]
  · decide
  · rw [Draft.outputs_addOutput, h.outputs]
    rfl
  · exact h.change

/-- A transfer spends the only live cell for the locks that its lock starts with. -/
theorem Assembler.ends_transfer_toEmpty {longer : Script} (hlive : c.live = [x])
    (hcell : x.cell = .ample longer) (h : ∃ lock ∈ senders, longer.startsWith lock = true)
    (ha : a.ledger = c.ledger) (hf : a.estimator = Fee.bySize) (hp : a.pageSize ≠ 0) :
    ∃ r, Ends (a.transfer (.toEmpty senders)) (.ok r) ∧
      r.transaction.inputs = [⟨x.outPoint, Since.zero⟩] := by
  let d := (Draft.empty.setVersion 0).addCellDep a.scripts.secp256k1Blake160.dep
  let d' := d.addOutput (.plain Script.empty 4100000000)
  have hblank : d.Blank :=
    (Draft.Blank.empty.setVersion 0).addCellDep a.scripts.secp256k1Blake160.dep
  obtain ⟨hreceivers, hoffers⟩ := hblank.addReceivers_toEmpty
  obtain ⟨got, hcollect⟩ := ends_collectCapacity_oneCell hlive hcell h ha hf hp hoffers
    hblank.inputs (by decide)
  have hinit : Ends (a.transferFlow (.toEmpty senders)).init (.ok ()) := by
    obtain ⟨lock, hlock, -⟩ := h
    change Ends (if senders.isEmpty then _ else _) _
    rw [if_neg (mt List.isEmpty_iff.mp (List.ne_nil_of_mem hlock))]
    exact Ends.pure ()
  have houtputs : Ends ((a.transferFlow (.toEmpty senders)).buildOutputs () d) (.ok d') := by
    have hadded : Ends (Build.ofExcept (σ := Nat)
        (TransferRequest.addReceivers [(Script.empty, 4100000000)] d)) (.ok d') := by
      rw [← hreceivers]
      exact ends_ofExcept _
    exact hadded.bind (Ends.pure _)
  have hinputs : Ends ((a.transferFlow (.toEmpty senders)).buildInputs () d')
      (.ok (d'.consume x)) := by
    rw [List.map_map] at hcollect
    exact hcollect.bind (Ends.pure _)
  have hsettle : Ends (a.settleChange (d'.consume x)) (.ok (d'.consume x)) := by
    rw [settleChange, Draft.change_consume, hoffers.change]
    exact Ends.pure _
  have hfee : (d'.consume x).fee = .ok (0x8000000000000000 - 4100000000) := by
    refine except_bind_eq_ok.mpr ⟨0x8000000000000000, Draft.inputsCapacity_eq_ok.mpr ?_,
      except_bind_eq_ok.mpr ⟨4100000000, Draft.outputsCapacity_eq_ok.mpr ?_, rfl⟩⟩
    · have hworth := Draft.worths_consume (d := d') hblank.inputs x
      rw [hworth, hcell]
      rfl
    · rw [Draft.outputs_consume, Draft.outputs_addOutput, hblank.outputs]
      rfl
  refine ⟨_, Flow.ends_assemble hinit (Ends.pure _) (Ends.pure _) (Ends.pure d) houtputs hinputs
    hsettle hfee, ?_⟩
  change (d'.consume x).transaction.inputs = _
  rw [Draft.inputs_transaction, Draft.consume, Draft.addInput, Draft.inputs_addInputWorth,
    Draft.inputs_addOutput, hblank.inputs]
  rfl

end Longer

/-! ## Whose cells are spent -/

namespace Construction

/-- Every input of a result spends a cell that the construction names, or a cell of a signer. -/
def SpendsOwn (c : Chain) (scripts : SystemScripts) (k : Construction) (r : Assembled) : Prop :=
  ∃ spent : List Spending, r.transaction.inputs = spent.map Spending.input ∧
    ∀ s ∈ spent, c.Has s.outPoint s.cell ∧ (k.Names scripts s ∨ s.cell.lock ∈ k.signers c)

/-- A transfer does not spend its own when its only input spends the cell of another lock. -/
theorem not_spendsOwn_transfer {cell : Cell} {x : LiveCell} {t : TransferRequest} {r : Assembled}
    {scripts : SystemScripts} (hlive : (Chain.oneCell cell).live = [x])
    (hcell : x.cell = cell) (hinputs : r.transaction.inputs = [⟨x.outPoint, Since.zero⟩])
    (h : cell.lock ∉ t.senders) :
    ¬ (transfer t).SpendsOwn (.oneCell cell) scripts r := by
  rintro ⟨spent, hspent, hown⟩
  rw [hinputs] at hspent
  obtain ⟨s, rfl, hinput⟩ := List.map_eq_singleton_iff.mp hspent.symm
  have hpoint : s.outPoint = x.outPoint := congrArg Input.previous hinput
  obtain ⟨hhas, hnamed | hlock⟩ := hown s (List.mem_singleton_self s)
  · exact hnamed
  have houtput := hhas.output? (Chain.stored_oneCell cell)
  rw [hpoint, Chain.stored_oneCell cell x (hlive ▸ List.mem_singleton_self x), hcell] at houtput
  rw [← Option.some.inj houtput] at hlock
  exact h hlock

/-- Results spend only the signers' own cells, on all nodes whose live cells are under some locks,
if and only if none of these locks starts with the lock of a signer without being a signer's. -/
theorem spendsOwn_iff (signers : List Script) (locks : Script → Prop) :
    (∀ (n : Node) (a : Assembler Nat) (k : Construction) (r : Assembled), a.ledger = n.ledger →
      (∀ x ∈ n.chain.live, locks x.cell.lock) → k.signers n.chain = signers →
      Yields (k.run a) r → k.SpendsOwn n.chain a.scripts r) ↔
    ∀ longer, locks longer → ∀ lock ∈ signers, longer.startsWith lock = true →
      longer ∈ signers := by
  constructor
  · intro hall longer hlonger lock hlock hstarts
    by_contra hforeign
    obtain ⟨x, hlive, hcell⟩ := Chain.live_oneCell (.ample longer)
    obtain ⟨r, hr, hinputs⟩ := Assembler.ends_transfer_toEmpty
      (a := .onChain (.oneCell (.ample longer))) hlive hcell ⟨lock, hlock, hstarts⟩ rfl rfl
      (by decide : (100 : UInt32) ≠ 0)
    refine not_spendsOwn_transfer hlive hcell hinputs hforeign
      (hall { chain := .oneCell (.ample longer) } (.onChain (.oneCell (.ample longer)))
        (.transfer (.toEmpty signers)) r (Node.ledger_chain _).symm ?_ rfl hr.yields)
    intro y hy
    rw [hlive] at hy
    rw [List.mem_singleton.mp hy, hcell]
    exact hlonger
  · intro hexact n a k r ha hlocks hsigners h
    obtain ⟨spent, hinputs, hspent⟩ := spends_named_or_live ha h
    refine ⟨spent, hinputs, fun s hs => ⟨(hspent s hs).1, ?_⟩⟩
    rcases (hspent s hs).2 with hnamed | ⟨x, hx, rfl, lock, hlock, hstarts⟩
    · exact Or.inl hnamed
    · rw [hsigners] at hlock ⊢
      exact Or.inr (hexact _ (hlocks x hx) lock hlock hstarts)

/-- A transfer that a lock signs spends the cell of a lock with one more byte of args. -/
theorem not_spendsOwn_longer :
    ∃ r, Yields ((transfer ⟨[.ofByte 1], [(.ofByte 2, 10000000000)], some (.ofByte 1)⟩).run
        (.onChain (.oneCell (.plain ((Script.ofByte 1).extend [0xff]) 50000000000)))) r ∧
      ¬ (transfer ⟨[.ofByte 1], [(.ofByte 2, 10000000000)], some (.ofByte 1)⟩).SpendsOwn
        (.oneCell (.plain ((Script.ofByte 1).extend [0xff]) 50000000000))
        SystemScripts.mainnet r := by
  obtain ⟨x, hlive, hcell⟩ :=
    Chain.live_oneCell (.plain ((Script.ofByte 1).extend [0xff]) 50000000000)
  obtain ⟨r, h, hinputs⟩ := exists_yields
    (m := (transfer ⟨[.ofByte 1], [(.ofByte 2, 10000000000)], some (.ofByte 1)⟩).run
      (.onChain (.oneCell (.plain ((Script.ofByte 1).extend [0xff]) 50000000000))))
    (s := 0) (fun r => r.transaction.inputs =
      (Chain.oneCell (.plain ((Script.ofByte 1).extend [0xff]) 50000000000)).live.map
        fun x => ⟨x.outPoint, Since.zero⟩) (by decide +kernel)
  rw [decide_eq_true_eq, hlive] at hinputs
  exact ⟨r, h, not_spendsOwn_transfer hlive hcell hinputs (by decide)⟩

end Construction

end CellTx
