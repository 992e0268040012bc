import CellTx.Proofs.Answering
import CellTx.Proofs.Payout

/-!
# Calls without defects

A `Defect` is a request outside the domain of an operation: an output that is not there, an epoch
that is too large to be packed, a search that goes on beyond its promise; an undefined worth counts
as one. No call of the library comes to a defect when it asks a world that answers as it promises
(`Assembler.Reliable`): the outputs that a phase works on were added by the phases before it, the
change stays with its output, and an epoch is packed only when it fits.

Results:
* `Call.failsOnly_ordinary`: in such a world no call comes to a defect.
* `Node.reliable`: a node is such a world when every block of its chain has an accumulate rate.
* `Chain.Built.spares`: on its chain no operation of a call traps either (`CellTx.Proofs.Trapping`).
* `Node.calls_never_trap`: both, for every node whose chain was built by its operations.

Out of scope: memory and time, and blocks without an accumulate rate.
-/

namespace CellTx

open CellStream (AtMost)

variable {σ α : Type}

/-- A failure that is no defect. -/
def Failure.Ordinary (f : Failure) : Prop := f.kind ≠ .defect

theorem Failure.Plain.ordinary {f : Failure} (h : f.Plain) : f.Ordinary := by
  intro hdefect
  rw [Plain, hdefect] at h
  exact Bool.false_ne_true h

theorem Failure.ordinary_query {e : QueryError} (h : e ≠ .undefinedWorth) :
    (query e).Ordinary := by
  cases e <;> simp_all [Ordinary, kind]

/-- A question whose answer is never an undefined worth. -/
def Query.Defined (q : Query σ α) : Prop := FailsOnly (· ≠ .undefinedWorth) q

theorem Query.Defined.ordinary {q : Query σ α} (h : q.Defined) :
    FailsOnly (fun e => (Failure.query e).Ordinary) q :=
  h.mono fun _ => Failure.ordinary_query

/-- A world that answers as it promises: what a deposit is worth is defined, and no search delivers
more cells than its span allows. -/
structure Assembler.Reliable (a : Assembler σ) : Prop where
  tip : a.ledger.tip.Defined
  header hash : (a.ledger.header hash).Defined
  transaction hash : (a.ledger.transaction hash).Defined
  cells key order limit after : (a.ledger.cells key order limit after).Defined
  maximumWithdraw p block : (a.ledger.maximumWithdraw p block).Defined
  estimator t rate : (a.estimator t rate).Defined
  ends (keys : List SearchKey) : ∃ n, n < CellStream.bound a.ledger (keys.map a.stream) ∧
    AtMost a.ledger n (keys.map a.stream)

/-- Such a world fails only in ways that are no defects. -/
theorem Assembler.Reliable.answers {a : Assembler σ} (ha : a.Reliable) :
    a.Answers Failure.Ordinary where
  tip := ha.tip.ordinary
  header hash := (ha.header hash).ordinary
  transaction hash := (ha.transaction hash).ordinary
  cells key order limit after := (ha.cells key order limit after).ordinary
  maximumWithdraw p block := (ha.maximumWithdraw p block).ordinary
  estimator t rate := (ha.estimator t rate).ordinary
  search keys := Or.inr (ha.ends keys)
  plain _ h := h.ordinary

/-- No call comes to a defect when it asks a world that answers as it promises. -/
theorem Call.failsOnly_ordinary {a : Assembler σ} (ha : a.Reliable) (call : Call α) :
    FailsOnly Failure.Ordinary (call.run a) := by
  cases call with
  | construct k =>
    exact Construction.failsOnly_run ha.answers (fun _ _ _ _ _ _ _ _ => nofun)
      (fun _ _ _ => nofun) fun _ _ _ _ _ _ _ _ => nofun
  | depositInfo deposit block => exact ha.answers.depositInfo deposit block
  | depositInfoOfWithdrawing p => exact ha.answers.depositInfoOfWithdrawing p
  | depositInfoAtTip deposit => exact ha.answers.depositInfoAtTip deposit

/-! ## Nodes -/

theorem Chain.eq_of_orElse_eq_error {e f : QueryError} {o : Option α}
    (h : maximumWithdraw.orElse e o = .error f) : f = e := by
  cases o with
  | some x => exact nomatch h
  | none => exact (Except.error.inj h).symm

/-- A worth is undefined only when the deposit's block has no accumulate rate. -/
theorem Chain.Rated.maximumWithdraw {c : Chain} (hc : c.Rated) {p : OutPoint} {block : Hash}
    {e : QueryError} (h : c.maximumWithdraw p block = .error e) : e ≠ .undefinedWorth := by
  rcases except_bind_eq_error h with h | ⟨⟨cell, made⟩, hfound, h⟩
  · exact eq_of_orElse_eq_error h ▸ nofun
  rcases except_bind_eq_error h with h | ⟨spent, -, h⟩
  · exact eq_of_orElse_eq_error h ▸ nofun
  dsimp only at h
  split at h
  · exact Except.error.inj h ▸ nofun
  rcases except_bind_eq_error h with h | ⟨occupied, -, h⟩
  · exact eq_of_orElse_eq_error h ▸ nofun
  rcases except_bind_eq_error h with h | ⟨free, -, h⟩
  · exact eq_of_orElse_eq_error h ▸ nofun
  split at h
  · rename_i hzero
    obtain ⟨t, -, hfound⟩ := Option.bind_eq_some_iff.mp (orElse_eq_ok.mp hfound)
    obtain ⟨cell', -, hfound⟩ := Option.bind_eq_some_iff.mp hfound
    obtain ⟨home, -, hfound⟩ := Option.bind_eq_some_iff.mp hfound
    obtain ⟨made', hmade, hfound⟩ := Option.bind_eq_some_iff.mp hfound
    obtain ⟨-, rfl⟩ := Prod.mk.inj (Option.some.inj hfound)
    exact absurd hzero (hc home made' hmade)
  · exact eq_of_orElse_eq_error h ▸ nofun

namespace Node

variable {n : Node}

theorem defined_pass (name : QueryName) (refused : Bool) : (n.pass name refused).Defined := by
  unfold pass
  split
  · exact FailsOnly.throw nofun
  · exact FailsOnly.pure _

theorem defined_reach : n.reach.Defined := by
  unfold reach
  split
  · exact FailsOnly.throw nofun
  · exact FailsOnly.pure _

theorem reliable {a : Assembler Nat} (hrated : n.chain.Rated) (hledger : a.ledger = n.ledger)
    (hestimator : a.estimator = Fee.bySize) : a.Reliable where
  tip := by
    rw [hledger]
    exact (defined_pass _ _).bind fun _ _ => defined_reach.bind fun _ _ => FailsOnly.pure _
  header hash := by
    rw [hledger]
    refine (defined_pass _ _).bind fun _ _ => defined_reach.bind fun _ _ => ?_
    split
    · exact FailsOnly.pure _
    · exact FailsOnly.pure _
  transaction hash := by
    rw [hledger]
    refine (defined_pass _ _).bind fun _ _ => defined_reach.bind fun _ _ => ?_
    split
    · exact FailsOnly.pure _
    · refine FailsOnly.bind (FailsOnly.pure _) fun found _ => ?_
      split
      · exact FailsOnly.pure _
      · exact FailsOnly.pure _
  cells key order limit after := by
    rw [hledger]
    refine (defined_pass _ _).bind fun _ _ => ?_
    have hcells : (do
        n.reach
        n.chain.ledger.cells (n.searched key) order limit after).Defined :=
      defined_reach.bind fun _ _ => Ends.failsOnly fun w => ⟨w + 1, rfl⟩
    -- further cells are asked for by a question of their own
    cases after with
    | none => exact hcells
    | some p => exact (defined_pass _ _).bind fun _ _ => hcells
  maximumWithdraw p block := by
    rw [hledger]
    refine (defined_pass _ _).bind fun _ _ => ?_
    split
    · exact FailsOnly.pure _
    · refine defined_reach.bind fun _ _ e he => ?_
      exact hrated.maximumWithdraw (Reaches.of_pure he).symm
  estimator t rate := by
    rw [hestimator]
    exact FailsOnly.pure _
  ends := atMost_start hledger

end Node

/-! ## All that a call computes -/

/-- No operation that a call does on a chain traps: each comes to what is defined. -/
structure Trapping.Spares (c : Chain) : Prop where
  /-- A draft is measured once its fee is estimated. -/
  measure {σ : Type} (a : Assembler σ) (d : Draft) :
    a.measure d = a.estimate d >>= fun fee => Build.ofExcept (d.measured fee)
  /-- The slot of the change names an output, and what is required fits a double word. -/
  measured (d : Draft) (fee : Capacity) : (Trapping.measured d fee).run = some (d.measured fee)
  shiftChange (change : Option Nat) (i : Nat) :
    Trapping.shiftChange change i = some (Draft.shiftChange change i)
  addHeaderDep (d : Draft) (hash : Hash) :
    Trapping.addHeaderDep d hash = some (d.addHeaderDep hash)
  addOutput (d : Draft) (cell : Cell) :
    lastPlace (d.addOutput cell).outputs = some d.outputs.length
  /-- A transaction has fewer bytes than a word can count. -/
  fee (t : Transaction) (rate : UInt64) : t.serialize.length < 2 ^ 63 →
    Trapping.fee t rate = some (Fee.ofSize t.size rate)
  minimalUnlock (deposit withdraw : EpochFraction) :
    (Trapping.minimalUnlock deposit withdraw).run = some (Dao.minimalUnlock deposit withdraw)
  /-- An epoch that is packed has a number of at most 24 bits. -/
  packed (number index length : Nat) (e : Epoch) :
    Epoch.ofNats number index length = .ok e → e.number.toNat < Epoch.numberBound
  compensation (total occupied : Capacity) (depositRate withdrawRate : UInt64) :
    (Trapping.compensation total occupied depositRate withdrawRate).run =
      some (Dao.compensation total occupied depositRate withdrawRate)
  maximumWithdraw (deposit : OutPoint) (block : Hash) :
    (Trapping.maximumWithdraw c deposit block).run = some (c.maximumWithdraw deposit block)
  cursor (key : SearchKey) (order : Order) (limit : Nat) (after : Option Nat) :
    (c.page key order limit after).cells ≠ [] →
      Trapping.cursor c key order limit after = some (c.page key order limit after).cursor
  groupInputs (supplied locks : List Script) :
    Trapping.groupInputs supplied locks = some (CellTx.groupInputs supplied locks)

/-- Nothing traps on a chain that its operations made and whose blocks have accumulate rates. -/
theorem Chain.Built.spares {c : Chain} (hc : c.Built) (hrated : c.Rated) : Trapping.Spares c where
  measure a d := a.measure_eq_bind d
  measured := Trapping.measured_eq
  shiftChange := Trapping.shiftChange_eq
  addHeaderDep := Trapping.addHeaderDep_eq
  addOutput d cell := Trapping.lastPlace_concat d.outputs cell
  fee _ rate h := Trapping.fee_eq h rate
  minimalUnlock := Trapping.minimalUnlock_eq
  packed _ _ _ _ := Epoch.number_lt_of_ofNats
  compensation := Trapping.compensation_eq
  maximumWithdraw := Trapping.maximumWithdraw_eq hc hrated
  cursor _ _ _ _ := Trapping.cursor_eq
  groupInputs := Trapping.groupInputs_eq

/-- No call traps. A node over a chain that its operations made and whose blocks all have
accumulate rates, whatever their numbers and epochs and whatever the node refuses or hides, is
asked by an assembler of any settings that prices transactions by their size. Then no construction
and no question about a deposit comes to a defect, from any state of the node, and no operation
that they do traps. -/
theorem Node.calls_never_trap {n : Node} {a : Assembler Nat} (hbuilt : n.chain.Built)
    (hrated : n.chain.Rated) (hledger : a.ledger = n.ledger)
    (hestimator : a.estimator = Fee.bySize) :
    (∀ (α : Type) (call : Call α), FailsOnly Failure.Ordinary (call.run a)) ∧
      Trapping.Spares n.chain :=
  ⟨fun _ call => call.failsOnly_ordinary (n.reliable hrated hledger hestimator),
    hbuilt.spares hrated⟩

/-- The header of a block whose epoch has the last number, an index and no blocks, and whose
reserved bits are set. -/
def Header.odd : Header := withRate 1 ⟨0xff0000ffffffffff⟩ 1

/-- The transaction that makes a deposit out of nothing. -/
def Chain.oddDeposit : Transaction :=
  funding 1 [⟨20000000000, .ofByte 1, some SystemScripts.mainnet.daoType, zeros Dao.dataLength⟩]

/-- A deposit in an odd block, behind a node that forgets filters: information about it is told, and
its epoch is unlocked without a trap. -/
theorem Node.calls_never_trap_odd :
    ∃ (n : Node) (a : Assembler Nat) (call : Call Dao.DepositInfo), n.chain.Built ∧
      n.chain.Rated ∧ a.ledger = n.ledger ∧ a.estimator = Fee.bySize ∧
      FailsOnly Failure.Ordinary (call.run a) ∧
      ((call.run a).run.run 0).1.toOption.map (·.unlock) = some (EpochFraction.pack 0xffffff 0 1) ∧
      (Trapping.minimalUnlock Header.odd.epoch Header.odd.epoch).run =
        some (.ok (EpochFraction.pack 0xffffff 0 1)) := by
  let n : Node :=
    { chain := Chain.new.commit Chain.oddDeposit Header.odd, faults := { ignoresFilter := true } }
  let a : Assembler Nat := { Assembler.onChain n.chain with ledger := n.ledger }
  let call := Call.depositInfo ⟨Chain.oddDeposit.hash, 0⟩ Header.odd.hash
  have hbuilt : n.chain.Built := .commit _ _ .new
  have hrate : Header.odd.rate ≠ 0 := by
    rw [Header.odd, Header.rate_withRate]
    decide
  have hrated : n.chain.Rated := Chain.rated_new.insertHeader hrate
  obtain ⟨hcalls, hspares⟩ := calls_never_trap hbuilt hrated (a := a) rfl rfl
  refine ⟨n, a, call, hbuilt, hrated, rfl, rfl, hcalls _ call, by decide +kernel, ?_⟩
  rw [hspares.minimalUnlock]
  decide +kernel

end CellTx
