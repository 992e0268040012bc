import CellTx.Proofs.Abreast

/-!
# Foreign cells and page sizes

What a construction comes to depends neither on live cells that match no search it asks for nor on
the size of the pages it asks for, since every run follows the one on record. There is one lemma for
each function that asks. What is passed on from answer to answer is that the run never looks up a
hash that only the other ledger knows: a cell that a walk delivers, the transaction of a loaded cell
and the cells that it spends all have known hashes.

Results:
* `Ledger.MirroredBy.find`, `Ledger.MirroredBy.drain`: walks over two such ledgers deliver the same.
* `Flow.MirroredBy.assemble`: a flow comes to the same when its phases do.
* `Construction.mirrors_run`: so do the seven constructions.
* `Construction.undisturbed`: the same transaction, groups and fee, or the same failure, for chains
  that differ in foreign cells and for any two page sizes but zero.

Out of scope: foreign cells that match a search, and the number of pages that are asked for.
-/

namespace CellTx

variable {σ : Type} {quiet : SearchKey → Prop} {made : Hash → Prop} {pre : Prop}
  {abreast : Nat → List CellStream → List CellStream → Prop} {p q : UInt32} {l l' : Ledger σ}

/-! ## Walks -/

/-- A sequence that goes on from a step of two walks. -/
theorem Mirrors.bind_stepped {ε α : Type} {R : α → α → Prop} {n : Nat}
    {m : ExceptT ε (StateM (Recorded σ)) (Option LiveCell × List CellStream)}
    {m' : ExceptT ε (StateM σ) (Option LiveCell × List CellStream)}
    {f : Option LiveCell × List CellStream → ExceptT ε (StateM (Recorded σ)) α}
    {f' : Option LiveCell × List CellStream → ExceptT ε (StateM σ) α}
    (hm : Mirrors quiet pre (Stepped made abreast n) m m')
    (hnone : ∀ ss ts, Mirrors quiet pre R (f (none, ss)) (f' (none, ts)))
    (hsome : ∀ k c ss ts, Mirrors quiet (pre ∧ k < n ∧ ¬ made c.outPoint.txHash ∧ abreast k ss ts) R
      (f (some c, ss)) (f' (some c, ts))) :
    Mirrors quiet pre R (m >>= f) (m' >>= f') := by
  refine hm.bind (fun x => ?_) fun x y hpre hxy => ?_
  · obtain ⟨_ | c, ss⟩ := x
    · exact (hnone ss ss).grows
    · exact (hsome 0 c ss ss).grows
  · cases hxy with
    | ended ss ts => exact (hnone ss ts).follows hpre
    | @cell k c ss ts hfewer hknown hstill =>
      exact (hsome k c ss ts).follows ⟨hpre, hfewer, hknown, hstill⟩

theorem Stepped.of_fewer {k n : Nat} {x y : Option LiveCell × List CellStream}
    (h : Stepped made abreast k x y) (hk : k < n) : Stepped made abreast n x y := by
  cases h with
  | ended ss ts => exact .ended ss ts
  | cell fewer known still => exact .cell (Nat.lt_trans fewer hk) known still

namespace Ledger.MirroredBy

variable (h : l.MirroredBy quiet made abreast p q l')

include h

theorem find (accept : LiveCell → Bool) (extra : Nat) {n fuel : Nat} {ss ts : List CellStream} :
    Mirrors quiet (abreast n ss ts ∧ n < fuel) (Stepped made abreast n)
      (CellStream.find l.recorded accept fuel ss)
      (CellStream.find l' accept (fuel + extra) ts) := by
  induction fuel generalizing n ss ts with
  | zero => exact .never _ fun hpre => absurd hpre.2 (Nat.not_lt_zero n)
  | succ fuel ih =>
    rw [Nat.succ_add]
    refine ((h.pull n ss ts).mono And.left).ask.bind_stepped
      (fun ss ts => .pure fun _ => .ended ss ts) fun k c ss ts => ?_
    refine .ite (.pure fun ⟨_, hk, hknown, hstill⟩ => .cell hk hknown hstill) ?_
    exact (ih.mono fun ⟨⟨_, hn⟩, hk, _, hstill⟩ => ⟨hstill, by omega⟩).imp
      fun ⟨_, hk, _⟩ _ _ hxy => hxy.of_fewer hk

theorem drain (extra : Nat) {n fuel : Nat} {ss ts : List CellStream} :
    Mirrors quiet (abreast n ss ts ∧ n < fuel)
      (Same fun cells => ∀ c ∈ cells, ¬ made c.outPoint.txHash)
      (CellStream.drain l.recorded fuel ss) (CellStream.drain l' (fuel + extra) ts) := by
  induction fuel generalizing n ss ts with
  | zero => exact .never _ fun hpre => absurd hpre.2 (Nat.not_lt_zero n)
  | succ fuel ih =>
    rw [Nat.succ_add]
    refine ((h.pull n ss ts).mono And.left).ask.bind_stepped
      (fun ss ts => .pure fun _ => ⟨rfl, fun c hc => absurd hc List.not_mem_nil⟩)
      fun k c ss ts => ?_
    refine (ih.mono fun ⟨⟨_, hn⟩, hk, _, hstill⟩ => ⟨hstill, by omega⟩).bind_same fun tail => ?_
    exact .pure fun ⟨⟨_, _, hknown, _⟩, htail⟩ => ⟨rfl, List.forall_mem_cons.mpr ⟨hknown, htail⟩⟩

/-- Streams that have not started are abreast, and the bounds of both walks suffice. -/
theorem exists_start (a : Assembler σ) (keys : List SearchKey) :
    ∃ n extra, abreast n (keys.map (a.over l p).stream) (keys.map (a.over l' q).stream) ∧
      n < CellStream.bound l (keys.map (a.over l p).stream) ∧
      CellStream.bound l' (keys.map (a.over l' q).stream) =
        CellStream.bound l (keys.map (a.over l p).stream) + extra := by
  obtain ⟨n, hn, hstart⟩ := h.start a keys
  have hle : keys.length * l.span ≤ keys.length * l'.span := Nat.mul_le_mul_left _ h.span
  refine ⟨n, keys.length * l'.span - keys.length * l.span, hstart, hn, ?_⟩
  rw [CellStream.bound, CellStream.bound, List.length_map, List.length_map]
  omega

theorem drainAll (a : Assembler σ) (keys : List SearchKey) :
    Mirrors quiet pre (Same fun cells => ∀ c ∈ cells, ¬ made c.outPoint.txHash)
      (CellStream.drain l.recorded
        (CellStream.bound l.recorded (keys.map (a.over l p).recorded.stream))
        (keys.map (a.over l p).recorded.stream))
      (CellStream.drain l' (CellStream.bound l' (keys.map (a.over l' q).stream))
        (keys.map (a.over l' q).stream)) := by
  obtain ⟨n, extra, hstart, hn, hextra⟩ := h.exists_start a keys
  rw [hextra]
  exact (h.drain extra).mono fun _ => ⟨hstart, hn⟩

theorem findFirst (pre : Prop) (a : Assembler σ) (keys : List SearchKey)
    (accept : LiveCell → Bool) :
    ∃ n, Mirrors quiet pre (Stepped made abreast n)
      (CellStream.find l.recorded accept
        (CellStream.bound l.recorded (keys.map (a.over l p).recorded.stream))
        (keys.map (a.over l p).recorded.stream))
      (CellStream.find l' accept (CellStream.bound l' (keys.map (a.over l' q).stream))
        (keys.map (a.over l' q).stream)) := by
  obtain ⟨n, extra, hstart, hn, hextra⟩ := h.exists_start a keys
  rw [hextra]
  exact ⟨n, (h.find accept extra).mono fun _ => ⟨hstart, hn⟩⟩

end Ledger.MirroredBy

/-! ## Balancing -/

/-- The estimates do not depend on the state of the world. -/
def Assembler.PricesSteadily (a : Assembler σ) : Prop := ∀ t rate, Steady (a.estimator t rate)

variable {a : Assembler σ}

theorem Mirrors.estimate (hsteady : a.PricesSteadily) (d : Draft) :
    Mirrors quiet pre Eq ((a.over l p).recorded.estimate d) ((a.over l' q).estimate d) := by
  obtain ⟨r, hr⟩ := hsteady d.transaction a.feeRate
  exact (Mirrors.question_eq [] fun _ => ⟨r, hr, hr⟩).ask

theorem Mirrors.measure (hsteady : a.PricesSteadily) (d : Draft) :
    Mirrors quiet pre Eq ((a.over l p).recorded.measure d) ((a.over l' q).measure d) := by
  refine (Mirrors.estimate hsteady d).bind_eq fun fee => ?_
  refine (Mirrors.ofExcept _).bind_eq fun committed => ?_
  cases d.changeOutput? with
  | none =>
    refine (Mirrors.pure_eq _).bind_eq fun _ => ?_
    exact (Mirrors.ofExcept _).bind_eq fun _ => .pure_eq _
  | some c =>
    refine (Mirrors.demand _ _).bind_eq fun occupied => ?_
    refine (Mirrors.pure_eq _).bind_eq fun _ => ?_
    exact (Mirrors.ofExcept _).bind_eq fun _ => .pure_eq _

theorem Mirrors.settleChange (hsteady : a.PricesSteadily) (d : Draft) :
    Mirrors quiet pre Eq ((a.over l p).recorded.settleChange d)
      ((a.over l' q).settleChange d) := by
  simp only [Assembler.settleChange]
  cases d.change with
  | none => exact .pure_eq _
  | some i =>
    refine (Mirrors.measure hsteady d).bind_eq fun b => (Mirrors.demand _ _).bind_eq fun left => ?_
    refine (Mirrors.demand _ _).bind_eq fun change => ?_
    refine (Mirrors.ofExcept _).bind_eq fun occupied => ?_
    exact .ite (.ofExcept _) (.ofExcept _)

theorem Mirrors.settleClaim (hsteady : a.PricesSteadily) (w : Assembler.WithdrawingCell)
    (d : Draft) :
    Mirrors quiet pre Eq ((a.over l p).recorded.settleClaim w d)
      ((a.over l' q).settleClaim w d) := by
  refine (Mirrors.estimate hsteady d).bind_eq fun fee => ?_
  refine (Mirrors.ofExcept _).bind_eq fun occupied => ?_
  cases Capacity.sub? w.worth fee with
  | some capacity => exact .ite (.ofExcept _) (.throw _)
  | none => exact .throw _

namespace Ledger.MirroredBy

variable (h : l.MirroredBy quiet made abreast p q l')

include h

theorem collectCapacityWithin (hsteady : a.PricesSteadily) (extra : Nat) {n bound fuel : Nat}
    {got : Collected} {d : Draft} {ss ts : List CellStream} :
    Mirrors quiet (abreast n ss ts ∧ n < fuel ∧ n < bound) Eq
      ((a.over l p).recorded.collectCapacityWithin bound fuel got d ss)
      ((a.over l' q).collectCapacityWithin (bound + extra) (fuel + extra) got d ts) := by
  induction fuel generalizing n got d ss ts with
  | zero => exact .never _ fun hpre => absurd hpre.2.1 (Nat.not_lt_zero n)
  | succ fuel ih =>
    rw [Nat.succ_add]
    refine (Mirrors.measure hsteady d).bind_eq fun b => .ite (.pure_eq _) ?_
    refine ((h.find _ extra).mono fun hpre => ⟨hpre.1, hpre.2.2⟩).bind_stepped
      (fun ss ts => .ite (.pure_eq _) (.throw _)) fun k c ss ts => ?_
    refine (Mirrors.ofExcept _).bind_eq fun got => (ih (n := k)).mono ?_
    rintro ⟨⟨_, hn, hbound⟩, hk, _, hstill⟩
    exact ⟨hstill, by omega, by omega⟩

theorem collectCapacity (hsteady : a.PricesSteadily) (d : Draft) (keys : List SearchKey) :
    Mirrors quiet pre Eq
      ((a.over l p).recorded.collectCapacity d (keys.map (a.over l p).recorded.stream))
      ((a.over l' q).collectCapacity d (keys.map (a.over l' q).stream)) := by
  obtain ⟨n, extra, hstart, hn, hextra⟩ := h.exists_start a keys
  have hbound : (a.over l' q).collectCapacity d (keys.map (a.over l' q).stream) =
      (a.over l' q).collectCapacityWithin
        (CellStream.bound l (keys.map (a.over l p).stream) + extra)
        (CellStream.bound l (keys.map (a.over l p).stream) + extra) {} d
        (keys.map (a.over l' q).stream) := by
    rw [← hextra]
    rfl
  rw [hbound]
  exact (h.collectCapacityWithin hsteady extra).mono fun _ => ⟨hstart, hn, hn⟩

theorem collectTokensWithin (extra : Nat) (type : Script) (required : TokenAmount)
    {n bound fuel : Nat} {got : Collected × TokenAmount} {d : Draft} {ss ts : List CellStream} :
    Mirrors quiet (abreast n ss ts ∧ n < fuel ∧ n < bound) Eq
      ((a.over l p).recorded.collectTokensWithin bound type required fuel got d ss)
      ((a.over l' q).collectTokensWithin (bound + extra) type required (fuel + extra) got d
        ts) := by
  induction fuel generalizing n got d ss ts with
  | zero => exact .never _ fun hpre => absurd hpre.2.1 (Nat.not_lt_zero n)
  | succ fuel ih =>
    rw [Nat.succ_add]
    refine .ite (.pure_eq _) ?_
    refine ((h.find _ extra).mono fun hpre => ⟨hpre.1, hpre.2.2⟩).bind_stepped
      (fun ss ts => .throw _) fun k c ss ts => ?_
    refine (Mirrors.decoded _).bind_eq fun held => (Mirrors.demand _ _).bind_eq fun amount => ?_
    refine (Mirrors.ofExcept _).bind_eq fun got => (ih (n := k)).mono ?_
    rintro ⟨⟨_, hn, hbound⟩, hk, _, hstill⟩
    exact ⟨hstill, by omega, by omega⟩

theorem collectTokens (d : Draft) (type : Script) (required : TokenAmount)
    (keys : List SearchKey) :
    Mirrors quiet pre Eq
      ((a.over l p).recorded.collectTokens d type required (keys.map (a.over l p).recorded.stream))
      ((a.over l' q).collectTokens d type required (keys.map (a.over l' q).stream)) := by
  obtain ⟨n, extra, hstart, hn, hextra⟩ := h.exists_start a keys
  have hbound : (a.over l' q).collectTokens d type required (keys.map (a.over l' q).stream) =
      (a.over l' q).collectTokensWithin
        (CellStream.bound l (keys.map (a.over l p).stream) + extra) type required
        (CellStream.bound l (keys.map (a.over l p).stream) + extra) ({}, 0) d
        (keys.map (a.over l' q).stream) := by
    rw [← hextra]
    rfl
  rw [hbound]
  exact (h.collectTokensWithin extra type required).mono fun _ => ⟨hstart, hn, hn⟩

end Ledger.MirroredBy

/-! ## Looking things up -/

/-- The deposit behind a withdrawing cell is spent by that cell's transaction. -/
theorem Dao.CommittedCell.mem_spent {w : Dao.CommittedCell} {x : OutPoint}
    (h : w.depositOutPoint = .ok x) : x ∈ w.transaction.spent := by
  unfold depositOutPoint at h
  split at h
  · rename_i i hi
    rw [← Except.ok.inj h]
    exact List.mem_map_of_mem (List.mem_of_getElem? hi)
  · exact nomatch h

namespace Ledger.MirroredBy

variable (h : l.MirroredBy quiet made abreast p q l')

include h

/-- What a transaction that is looked up spends is known as well. -/
theorem lookup (hash : Hash) :
    Mirrors quiet (¬ made hash)
      (Same fun found => ∀ t, found = some t → ∀ x ∈ t.transaction.spent, ¬ made x.txHash)
      (l.recorded.transaction hash) (l'.transaction hash) := by
  refine .question [] fun hhash => ?_
  obtain ⟨r, hr, hr', hspent⟩ := h.transaction hash hhash
  exact ⟨r, hr, hr', fun found hfound t ht => hspent t (hfound.trans (congrArg _ ht))⟩

/-- A loaded cell is the one that was asked for, and what its transaction spends is known. -/
theorem load (x : OutPoint) :
    Mirrors quiet (¬ made x.txHash)
      (Same fun c => c.outPoint = x ∧ ∀ y ∈ c.transaction.spent, ¬ made y.txHash)
      (Dao.CommittedCell.load l.recorded x) (Dao.CommittedCell.load l' x) := by
  refine (h.lookup x.txHash).ask.bind_same fun found => ?_
  refine (Mirrors.demand_same _ _).bind_same fun t => ?_
  refine (Mirrors.demand _ _).bind_eq fun block => ?_
  refine (Mirrors.question_eq [] fun _ => h.header block).ask.bind_eq fun header => ?_
  refine (Mirrors.demand _ _).bind_eq fun _ => (Mirrors.demand _ _).bind_eq fun _ => ?_
  exact .pure fun ⟨⟨_, hspent⟩, ht⟩ => ⟨rfl, rfl, hspent t ht⟩

theorem findSender (args : ChequeArgs) (spent : List OutPoint) :
    Mirrors quiet (∀ x ∈ spent, ¬ made x.txHash) Eq (findSender l.recorded args spent)
      (findSender l' args spent) := by
  induction spent with
  | nil => exact .pure_eq _
  | cons x rest ih =>
    have hrest : (∀ y ∈ x :: rest, ¬ made y.txHash) → ∀ y ∈ rest, ¬ made y.txHash :=
      fun hknown => (List.forall_mem_cons.mp hknown).2
    have hx : (∀ y ∈ x :: rest, ¬ made y.txHash) → ¬ made x.txHash :=
      fun hknown => hknown x List.mem_cons_self
    refine ((h.lookup x.txHash).mono hx).eq.bind_eq fun found => ?_
    cases found.bind fun t => t.transaction.outputs[x.index.toNat]? with
    | none => exact ih.mono hrest
    | some cell => exact .ite (.pure_eq _) (ih.mono hrest)

theorem recoverSender (cheque : OutPoint) (args : ChequeArgs) :
    Mirrors quiet (¬ made cheque.txHash) Eq (recoverSender l.recorded cheque args)
      (recoverSender l' cheque args) := by
  refine (h.lookup cheque.txHash).ask.bind_same fun found => ?_
  refine (Mirrors.demand_same _ _).bind_same fun t => ?_
  refine ((h.findSender args t.transaction.spent).mono ?_).ask.bind_eq fun _ => .demand _ _
  exact fun ⟨⟨_, hspent⟩, ht⟩ => hspent t ht

theorem senderOf (t : ClaimTally) (c : LiveCell) (args : ChequeArgs) :
    Mirrors quiet (¬ made c.outPoint.txHash) Eq ((a.over l p).recorded.senderOf t c args)
      ((a.over l' q).senderOf t c args) := by
  simp only [Assembler.senderOf]
  cases t.senders.lookup args with
  | some lock => exact .pure_eq _
  | none => exact (h.recoverSender c.outPoint args).bind_eq fun _ => .pure_eq _

theorem tally (sudt : Script) (receiver : Bytes) (t : ClaimTally) (cells : List LiveCell) :
    Mirrors quiet (∀ c ∈ cells, ¬ made c.outPoint.txHash) Eq
      ((a.over l p).recorded.tally sudt receiver t cells)
      ((a.over l' q).tally sudt receiver t cells) := by
  induction cells generalizing t with
  | nil => exact .pure_eq _
  | cons c rest ih =>
    have hrest : (∀ y ∈ c :: rest, ¬ made y.outPoint.txHash) →
        ∀ y ∈ rest, ¬ made y.outPoint.txHash :=
      fun hknown => (List.forall_mem_cons.mp hknown).2
    simp only [Assembler.tally]
    cases chequeArgsFor sudt receiver c with
    | none => exact (ih t).mono hrest
    | some args =>
      have hc : (∀ y ∈ c :: rest, ¬ made y.outPoint.txHash) → ¬ made c.outPoint.txHash :=
        fun hknown => hknown c List.mem_cons_self
      refine (Mirrors.decoded _).bind_eq fun amount => ?_
      refine ((h.senderOf t c args).mono hc).bind_eq fun known => ?_
      exact (Mirrors.ofExcept _).bind_eq fun t => (ih t).mono hrest

theorem findCheques (receiver : Script) (owner : Hash) :
    Mirrors quiet pre Eq ((a.over l p).recorded.findCheques receiver owner)
      ((a.over l' q).findCheques receiver owner) := by
  refine (h.drainAll a [a.scripts.chequeSearch receiver.hashHead owner]).bind_same fun cells => ?_
  refine ((h.tally _ _ _ cells).mono And.right).bind_eq fun t => ?_
  exact .ite (.throw _) (.pure_eq _)

theorem findCheque (r : ChequeRequest) :
    Mirrors quiet pre Eq ((a.over l p).recorded.findCheque r) ((a.over l' q).findCheque r) := by
  obtain ⟨n, hfind⟩ :=
    h.findFirst pre a [a.scripts.chequeSearch r.args.bytes r.owner] (r.isAsked a.scripts)
  exact hfind.bind_stepped (fun ss ts => .throw _) fun k c ss ts => .pure_eq _

theorem loadWithdrawing (x : OutPoint) :
    Mirrors quiet (¬ made x.txHash) Eq ((a.over l p).recorded.loadWithdrawing x)
      ((a.over l' q).loadWithdrawing x) := by
  refine (h.load x).bind_same fun w => (Mirrors.ofExcept _).bind_eq fun _ => ?_
  refine (Mirrors.ofExcept_same _).bind_same fun deposit => ?_
  refine ((h.load deposit).mono ?_).bind_same fun d => ?_
  · rintro ⟨⟨_, _, hspent⟩, hdeposit⟩
    exact hspent deposit (Dao.CommittedCell.mem_spent hdeposit)
  refine (Mirrors.ofExcept _).bind_eq fun _ => (Mirrors.ofExcept _).bind_eq fun unlock => ?_
  refine (Mirrors.question_eq [] ?_).ask.bind_eq fun _ => .pure_eq _
  rintro ⟨⟨⟨_, _, hspent⟩, hdeposit⟩, hd, _⟩
  have hknown : ¬ made d.outPoint.txHash := by
    rw [hd]
    exact hspent deposit (Dao.CommittedCell.mem_spent hdeposit)
  exact h.maximumWithdraw d.outPoint w.header.hash hknown

end Ledger.MirroredBy

/-! ## Flows -/

/-- Two flows whose phases mirror each other, and that name the same signers. -/
structure Flow.MirroredBy {Plan : Type} (quiet : SearchKey → Prop) (pre : Prop)
    (flow : Flow (Recorded σ) Plan) (flow' : Flow σ Plan) : Prop where
  init : Mirrors quiet pre Eq flow.init flow'.init
  setVersion plan d : Mirrors quiet pre Eq (flow.setVersion plan d) (flow'.setVersion plan d)
  setHeaderDeps plan d : Mirrors quiet pre Eq (flow.setHeaderDeps plan d)
    (flow'.setHeaderDeps plan d)
  setCellDeps plan d : Mirrors quiet pre Eq (flow.setCellDeps plan d) (flow'.setCellDeps plan d)
  buildOutputs plan d : Mirrors quiet pre Eq (flow.buildOutputs plan d) (flow'.buildOutputs plan d)
  buildInputs plan d : Mirrors quiet pre Eq (flow.buildInputs plan d) (flow'.buildInputs plan d)
  settleChange plan d : Mirrors quiet pre Eq (flow.settleChange plan d) (flow'.settleChange plan d)
  signers : flow.signingLocks = flow'.signingLocks

theorem Flow.MirroredBy.assemble {Plan : Type} {flow : Flow (Recorded σ) Plan}
    {flow' : Flow σ Plan} (h : flow.MirroredBy quiet pre flow') :
    Mirrors quiet pre Eq flow.assemble flow'.assemble := by
  have hdraft : Mirrors quiet pre Eq flow.draft flow'.draft := by
    refine h.init.bind_eq fun plan => (h.setVersion plan _).bind_eq fun d₁ => ?_
    refine (h.setHeaderDeps plan d₁).bind_eq fun d₂ => (h.setCellDeps plan d₂).bind_eq fun d₃ => ?_
    refine (h.buildOutputs plan d₃).bind_eq fun d₄ => (h.buildInputs plan d₄).bind_eq fun d₅ => ?_
    exact (h.settleChange plan d₅).bind_eq fun _ => .pure_eq _
  simp only [Flow.assemble, h.signers]
  exact hdraft.bind_eq fun _ => (Mirrors.ofExcept _).bind_eq fun _ => .pure_eq _

namespace Ledger.MirroredBy

variable (h : l.MirroredBy quiet made abreast p q l') (hsteady : a.PricesSteadily)

include h hsteady

theorem transferFlow (r : TransferRequest) :
    ((a.over l p).recorded.transferFlow r).MirroredBy quiet pre ((a.over l' q).transferFlow r) where
  init := .ite (.throw _) (.ite (.throw _) (.pure_eq _))
  setVersion _ _ := .pure_eq _
  setHeaderDeps _ _ := .pure_eq _
  setCellDeps _ _ := .pure_eq _
  buildOutputs _ _ := (Mirrors.ofExcept _).bind_eq fun _ => .pure_eq _
  buildInputs _ d := by
    have hcollect : Mirrors quiet pre Eq _ _ :=
      h.collectCapacity hsteady d (r.senders.map SearchKey.plainByLock)
    rw [List.map_map, List.map_map] at hcollect
    exact hcollect.bind_eq fun _ => .pure_eq _
  settleChange _ d := .settleChange hsteady d
  signers := rfl

theorem depositFlow (owner : Script) (capacity : Capacity) :
    ((a.over l p).recorded.depositFlow owner capacity).MirroredBy quiet pre
      ((a.over l' q).depositFlow owner capacity) where
  init := .pure_eq _
  setVersion _ _ := .pure_eq _
  setHeaderDeps _ _ := .pure_eq _
  setCellDeps _ _ := .pure_eq _
  buildOutputs _ _ := .ofExcept _
  buildInputs _ d := (h.collectCapacity hsteady d [SearchKey.plainByLock owner]).bind_eq
    fun _ => .pure_eq _
  settleChange _ d := .settleChange hsteady d
  signers := rfl

theorem withdrawFlow (x : OutPoint) :
    ((a.over l p).recorded.withdrawFlow x).MirroredBy quiet (¬ made x.txHash)
      ((a.over l' q).withdrawFlow x) where
  init := (h.load x).eq.bind_eq fun _ => (Mirrors.ofExcept _).bind_eq fun _ => .pure_eq _
  setVersion _ _ := .pure_eq _
  setHeaderDeps _ _ := .pure_eq _
  setCellDeps _ _ := .pure_eq _
  buildOutputs _ _ := .pure_eq _
  buildInputs c _ := (h.collectCapacity hsteady _ [SearchKey.plainByLock c.cell.lock]).bind_eq
    fun _ => .pure_eq _
  settleChange _ d := .settleChange hsteady d
  signers := rfl

theorem claimFlow (x : OutPoint) :
    ((a.over l p).recorded.claimFlow x).MirroredBy quiet (¬ made x.txHash)
      ((a.over l' q).claimFlow x) where
  init := h.loadWithdrawing x
  setVersion _ _ := .pure_eq _
  setHeaderDeps _ _ := .pure_eq _
  setCellDeps _ _ := .pure_eq _
  buildOutputs _ _ := .pure_eq _
  buildInputs _ _ := .pure_eq _
  settleChange w d := .settleClaim hsteady w d
  signers := rfl

theorem issueFlow (r : ChequeRequest) :
    ((a.over l p).recorded.issueFlow r).MirroredBy quiet pre ((a.over l' q).issueFlow r) where
  init := .ite (.throw _) (.ite (.throw _) (.pure_eq _))
  setVersion _ _ := .pure_eq _
  setHeaderDeps _ _ := .pure_eq _
  setCellDeps _ _ := .pure_eq _
  buildOutputs _ _ := .ofExcept _
  buildInputs _ d := by
    refine (h.collectTokens d _ _ [SearchKey.byLockAndType r.sender
      (a.scripts.sudtType r.owner)]).bind_eq fun _ => (Mirrors.ofExcept _).bind_eq fun d => ?_
    exact (h.collectCapacity hsteady d [SearchKey.plainByLock r.sender]).bind_eq
      fun _ => .pure_eq _
  settleChange _ d := .settleChange hsteady d
  signers := rfl

theorem claimChequesFlow (receiver : Script) (owner : Hash) :
    ((a.over l p).recorded.claimChequesFlow receiver owner).MirroredBy quiet pre
      ((a.over l' q).claimChequesFlow receiver owner) where
  init := h.findCheques receiver owner
  setVersion _ _ := .pure_eq _
  setHeaderDeps _ _ := .pure_eq _
  setCellDeps _ _ := .pure_eq _
  buildOutputs _ _ := .ofExcept _
  buildInputs _ _ := (h.collectCapacity hsteady _ [SearchKey.plainByLock receiver]).bind_eq
    fun _ => .pure_eq _
  settleChange _ d := .settleChange hsteady d
  signers := rfl

theorem withdrawChequeFlow (r : ChequeRequest) :
    ((a.over l p).recorded.withdrawChequeFlow r).MirroredBy quiet pre
      ((a.over l' q).withdrawChequeFlow r) where
  init := h.findCheque r
  setVersion _ _ := .pure_eq _
  setHeaderDeps _ _ := .pure_eq _
  setCellDeps _ _ := .pure_eq _
  buildOutputs _ _ := .ofExcept _
  buildInputs _ _ := (h.collectCapacity hsteady _ [SearchKey.plainByLock r.sender]).bind_eq
    fun _ => .pure_eq _
  settleChange _ d := .settleChange hsteady d
  signers := rfl

end Ledger.MirroredBy

/-! ## Any construction -/

/-- Nodes, reachable or not, whose chains differ in foreign cells only. -/
theorem Node.exists_mirrored {foreign : LiveCell → Prop} {A B : Chain} (hA : A.Built)
    (h : A.Harbours made foreign B)
    (hquiet : ∀ key, quiet key → ∀ x, foreign x → key.accepts x = false)
    (hp : p ≠ 0) (hq : q ≠ 0) (offline : Bool) :
    ∃ abreast, ({ chain := A, offline := offline } : Node).ledger.MirroredBy quiet made abreast p q
      ({ chain := B, offline := offline } : Node).ledger := by
  cases offline with
  | false =>
    rw [Node.ledger_chain, Node.ledger_chain]
    exact ⟨_, Chain.mirrors_ledger hA h hquiet hp hq⟩
  | true => exact ⟨_, Node.mirrors_unreachable quiet made p q h.live.length_le⟩

namespace Construction

/-- The out points that a construction is called with. -/
def named : Construction → List OutPoint
  | withdraw x | claim x => [x]
  | _ => []

theorem mirrors_run (h : l.MirroredBy quiet made abreast p q l') (hsteady : a.PricesSteadily)
    (k : Construction) :
    Mirrors quiet (∀ x ∈ k.named, ¬ made x.txHash) Eq (k.run (a.over l p).recorded)
      (k.run (a.over l' q)) := by
  cases k with
  | transfer r => exact (h.transferFlow hsteady r).assemble
  | deposit owner capacity => exact (h.depositFlow hsteady owner capacity).assemble
  | withdraw x =>
    exact (h.withdrawFlow hsteady x).assemble.mono fun hx => hx x (List.mem_singleton_self x)
  | claim x =>
    exact (h.claimFlow hsteady x).assemble.mono fun hx => hx x (List.mem_singleton_self x)
  | issueCheque r => exact (h.issueFlow hsteady r).assemble
  | claimCheques receiver owner => exact (h.claimChequesFlow hsteady receiver owner).assemble
  | withdrawCheque r => exact (h.withdrawChequeFlow hsteady r).assemble

/-- A construction on a chain that harbours foreign cells comes to what the run on record came to
on the other chain, when no search on record matches a foreign cell. -/
theorem ends_recorded {A B : Chain} {foreign : LiveCell → Prop} {a : Assembler Nat}
    {k : Construction} (offline : Bool) (s : Nat) (hA : A.Built) (hp : p ≠ 0) (hq : q ≠ 0)
    (hsteady : a.PricesSteadily) (hB : A.Harbours made foreign B)
    (hforeign : ∀ key ∈ k.searches (a.over ({ chain := A, offline := offline } : Node).ledger p) s,
      ∀ x, foreign x → key.accepts x = false) (hnamed : ∀ x ∈ k.named, ¬ made x.txHash) :
    Ends (k.run (a.over ({ chain := B, offline := offline } : Node).ledger q))
      ((k.run (a.over ({ chain := A, offline := offline } : Node).ledger p).recorded).run.run
        { world := s }).1 := by
  obtain ⟨_, h⟩ := Node.exists_mirrored hA hB hforeign hp hq offline
  obtain ⟨r, hr, halike⟩ :=
    (mirrors_run h hsteady k).follows hnamed { world := s } fun _ hkey => hkey
  rw [alike_eq.mp halike]
  exact hr

/-- Foreign cells and the page size have no influence. Let the chain `B` differ from `A` in live
cells that match no search the construction asks `A` for, wherever they are inserted, and in the
transactions with hashes that are `made`, which `A` neither knows nor spends from and which the
construction is not called with. Then with any two page sizes but zero, the construction comes to
the same on both: the same transaction, groups and fee, or the same failure. -/
theorem undisturbed {A B : Chain} {a : Assembler Nat} {k : Construction} {s : Nat} {offline : Bool}
    (hA : A.Built) (hp : p ≠ 0) (hq : q ≠ 0) (hsteady : a.PricesSteadily)
    (hB : A.Harbours made
      (fun x => ∀ key ∈ k.searches (a.over ({ chain := A, offline := offline } : Node).ledger p) s,
        key.accepts x = false) B)
    (hnamed : ∀ x ∈ k.named, ¬ made x.txHash) :
    ∃ res, Ends (k.run (a.over ({ chain := A, offline := offline } : Node).ledger p)) res ∧
      Ends (k.run (a.over ({ chain := B, offline := offline } : Node).ledger q)) res := by
  -- both runs come to what the one on `A` that keeps a record came to
  have hself := ends_recorded (k := k) offline s hA hp hp hsteady (.refl A)
    (fun _ _ _ => False.elim) fun _ _ => id
  have hother := ends_recorded offline s hA hp hq hsteady hB (fun key hkey x hx => hx key hkey)
    hnamed
  exact ⟨_, hself, hother⟩

/-- A transfer that spends two cells of its sender. On one chain these are the only cells, and each
comes on a page of its own; on the other a foreign cell lies between them, and both come on one
page. -/
theorem undisturbed_twoCells :
    ∃ (A B : Chain) (a : Assembler Nat) (k : Construction), A.live.length = 2 ∧ B.live.length = 3 ∧
      ((k.run (a.over ({ chain := A } : Node).ledger 1)).run.run 0).2 = 2 ∧
      ((k.run (a.over ({ chain := B } : Node).ledger 50)).run.run 0).2 = 1 ∧
      ((k.run (a.over ({ chain := B } : Node).ledger 50)).run.run 0).1.isOk = true ∧
      ∃ res, Ends (k.run (a.over ({ chain := A } : Node).ledger 1)) res ∧
        Ends (k.run (a.over ({ chain := B } : Node).ledger 50)) res := by
  let t₁ := Chain.funding 1 [.plain (.ofByte 1) 20000000000]
  let t₂ := Chain.funding 2 [.plain (.ofByte 1) 20000000000]
  let t₃ := Chain.funding 3 [.plain (.ofByte 3) 20000000000]
  let A := (Chain.new.commit t₁ Chain.genesis).commit t₂ Chain.genesis
  let B := ((Chain.new.commit t₁ Chain.genesis).commit t₃ Chain.genesis).commit t₂ Chain.genesis
  let a := Assembler.onChain A
  let k := Construction.transfer ⟨[.ofByte 1], [(.ofByte 2, 30000000000)], some (.ofByte 1)⟩
  let foreign (x : LiveCell) : Prop :=
    ∀ key ∈ k.searches (a.over ({ chain := A } : Node).ledger 1) 0, key.accepts x = false
  have hforeign : ∀ x ∈ Chain.made t₃ Chain.genesis, foreign x := by decide +kernel
  have hnew : Chain.new.Harbours (· = t₃.hash) foreign Chain.new :=
    .self (fun _ _ => rfl) fun _ _ h => nomatch h
  have h₁ := hnew.commit (t := t₁) (by decide +kernel) (by decide +kernel) Chain.genesis
  have h₃ := h₁.commit_foreign rfl (by decide +kernel) hforeign (by decide +kernel)
  have hB : A.Harbours (· = t₃.hash) foreign B :=
    h₃.commit (by decide +kernel) (by decide +kernel) Chain.genesis
  refine ⟨A, B, a, k, by decide +kernel, by decide +kernel, by decide +kernel, by decide +kernel,
    by decide +kernel, ?_⟩
  exact undisturbed ((Chain.Built.new.commit t₁ Chain.genesis).commit t₂ Chain.genesis)
    (by decide) (by decide) (fun t rate => ⟨_, Ends.pure _⟩) hB
    fun x hx => absurd hx List.not_mem_nil

end Construction

end CellTx
