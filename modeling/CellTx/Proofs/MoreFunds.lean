import CellTx.Proofs.Abreast
import CellTx.Proofs.Settling
import CellTx.Proofs.Sufficing
import CellTx.Proofs.Transfers

/-!
# Transfers with more funds

A sender who has further plain cells is not always better off. As long as a transfer stopped at a
covered draft, cells behind those that it spent are left alone and the transaction is the same. But
one without change lock may have stopped only because the cells ran out when exactly the fee was
left over (specification, section 4.2). Then it goes on with the further cells, each of which makes
the transaction larger and dearer, and succeeds only if some of them are worth more than they cost,
or all of them exactly as much (`Draft.CanGoOn`).

Results:
* `Draft.Exact.exists_collects_iff`: whether a collection that stopped with nothing left over can go
  on.
* `Transfers.append`, `Transfers.exists_append_iff`: a transfer before more cells.
* `Assembler.transfer_with_more`: the same result, but for that one case.
* `Assembler.transfer_broken_by_more`: a transfer that succeeds, and fails once the sender has one
  more cell.

Out of scope: several senders, and further cells that come before those that were there.
-/

namespace CellTx

variable {σ : Type}

open CellStream

/-! ## What a lock can pay with -/

namespace Chain

variable (c : Chain) (lock : Script)

/-- The cells that a lock can pay with: the plain cells under it, each out point once. -/
def payable : List LiveCell := Draft.empty.pick Cell.isPlain (c.plainUnder lock)

/-- The cells that the lock can pay with after those, among some that come later. -/
def alsoPayable (later : List LiveCell) : List LiveCell :=
  ((c.payable lock).foldl Draft.consume Draft.empty).pick Cell.isPlain later

variable {c lock} {c' : Chain} {later : List LiveCell}

theorem payable_of_live (hlive : c'.live = c.live ++ later)
    (hlater : ∀ x ∈ later, x.cell.isPlain = true ∧ x.cell.lock = lock) :
    c'.payable lock = c.payable lock ++ c.alsoPayable lock later := by
  have hunder : c'.plainUnder lock = c.plainUnder lock ++ later := by
    rw [plainUnder, plainUnder, hlive, List.filter_append]
    refine congrArg (_ ++ ·) (List.filter_eq_self.mpr fun x hx => ?_)
    obtain ⟨hplain, hlock⟩ := hlater x hx
    rw [hplain, hlock, Script.startsWith_self]
    rfl
  rw [payable, hunder, Draft.pick_append]
  rfl

/-- The lock can pay with all of its plain cells that come later under new out points. -/
theorem alsoPayable_eq (hn : (later.map LiveCell.outPoint).Nodup)
    (hnew : ∀ x ∈ later, ∀ y ∈ c.live, y.outPoint ≠ x.outPoint)
    (hplain : ∀ x ∈ later, x.cell.isPlain = true) : c.alsoPayable lock later = later := by
  rw [alsoPayable, Draft.pick_eq_filter hn fun x hx _ => ?_]
  · exact List.filter_eq_self.mpr hplain
  · rw [Draft.spends_foldl_consume, Bool.or_eq_false_iff, List.any_eq_false]
    refine ⟨rfl, fun y hy => ?_⟩
    rw [decide_eq_true_eq]
    exact hnew x hx y (List.mem_filter.mp ((Draft.pick_sublist _ _).subset hy)).1

end Chain

/-! ## From a draft that is exactly balanced -/

namespace Draft

variable {price : Transaction → Capacity} {d : Draft} {cells : List LiveCell}

theorem worth_spending (d : Draft) (cells : List LiveCell) (k : Nat) :
    (d.spending cells k).worth =
      d.worth + Capacity.total ((cells.take k).map fun x => x.cell.capacity) := by
  rw [spending]
  induction cells.take k generalizing d with
  | nil => rfl
  | cons x cells ih =>
    rw [List.foldl_cons, ih, worth_consume, List.map_cons, Capacity.total_cons, Nat.add_assoc]

/-- From a draft whose fee is paid exactly, a collection can go on with further cells: the first ones
are worth more than they raise the fee by, or all of them exactly as much. -/
def CanGoOn (price : Transaction → Capacity) (d : Draft) (cells : List LiveCell) : Prop :=
  ∃ k ≤ cells.length,
    let gain := Capacity.total ((cells.take k).map fun x => x.cell.capacity)
    let before := (price d.transaction).toNat
    let after := (price (d.spending cells k).transaction).toNat
    d.worth + gain < UInt64.size ∧
      (after < before + gain ∨ k = cells.length ∧ after = before + gain)

instance (d : Draft) : Decidable (d.CanGoOn price cells) := Nat.decidableExistsLE cells.length

theorem Exact.exists_collects_iff (hd : d.Exact price) (hfit : d.SumsFit) :
    (∃ d', Collects price d cells d') ↔ d.CanGoOn price cells := by
  obtain ⟨hchange, hleft⟩ := hd
  rw [Draft.exists_collects_iff, CanGoOn]
  refine exists_congr fun k => and_congr_right fun _ => ?_
  obtain ⟨-, -, -, houtputs, hchange', -⟩ := SpendsOn.kept ⟨cells.take k, rfl⟩
  change (d.spending cells k).outputs = d.outputs at houtputs
  change (d.spending cells k).change = d.change at hchange'
  have hnone := hchange'.trans hchange
  have hcommitted : (d.spending cells k).committed = d.committed := by
    rw [committed, committed, hchange', houtputs]
  have hheld : (d.spending cells k).held = d.held := by rw [held, held, houtputs]
  have hfits : (d.spending cells k).SumsFit ↔
      d.worth + Capacity.total ((cells.take k).map fun x => x.cell.capacity) < UInt64.size := by
    rw [← worth_spending]
    refine ⟨SumsFit.inputs, fun h => ⟨h, hheld ▸ hfit.outputs, ?_⟩⟩
    rw [changeFloor?_of_none hnone]
    decide
  rw [hfits, covered_iff_of_none hnone, Exact]
  refine and_congr_right fun _ => ?_
  rw [leftover] at hleft ⊢
  rw [worth_spending, hcommitted]
  constructor
  · rintro (hmore | ⟨hk, -, hexact⟩)
    · exact Or.inl (by omega)
    · exact Or.inr ⟨hk, by omega⟩
  · rintro (hmore | ⟨hk, hexact⟩)
    · exact Or.inl (by omega)
    · exact Or.inr ⟨hk, hnone, by omega⟩

/-- Without change output, what is left over is paid on top of the price. -/
theorem exists_fee_of_changeless {p : Capacity} (hfit : d.SumsFit) (hchange : d.change = none)
    (h : 0 ≤ d.leftover p.toNat) :
    ∃ fee : Capacity, d.fee = .ok fee ∧ (fee.toNat : Int) = p.toNat + d.leftover p.toNat := by
  have hheld : d.held = d.committed := by
    rw [held_eq, changeOutput?_of_none hchange]
    rfl
  have hinputs := hfit.inputs
  rw [leftover] at h ⊢
  obtain ⟨fee, hfee⟩ := Capacity.exists_of_lt (m := d.worth - d.committed) (by omega)
  exact ⟨fee, fee_of_worth_eq hinputs (by omega), by omega⟩

/-- Without change output, the fee is the price when the draft is exactly balanced, and more when it
is covered. -/
theorem Collects.fee_eq_iff {start : Draft} (h : Collects price start cells d)
    (hchange : d.change = none) :
    ∃ fee, d.fee = .ok fee ∧ (fee = price d.transaction ↔ d.Exact price) := by
  obtain ⟨hfit, hstop⟩ := h.stops
  rw [covered_iff_of_none hchange, Exact] at hstop
  obtain ⟨fee, hfee, hsum⟩ := exists_fee_of_changeless (p := price d.transaction) hfit hchange
    (by omega)
  refine ⟨fee, hfee, ?_⟩
  rw [← UInt64.toNat_inj, Exact, and_iff_right hchange]
  omega

end Draft

/-- What an edit returns is the draft that it leaves in place. -/
theorem Edit.run_returned_iff {α : Type} {e : Edit σ α} {d d' : Draft} {s : σ} :
    (∃ s', (do return (← e.returned d).2 : Build σ Draft).run.run s = (.ok d', s')) ↔
      ∃ x s', e.on d s = (.ok x, d', s') := by
  rcases hon : e.on d s with ⟨r, d'', s''⟩
  have hrun : (e.returned d).run.run s = (r.map fun x => (x, d''), s'') := by
    change ((e.on d s).1.map fun x => (x, (e.on d s).2.1), (e.on d s).2.2) = _
    rw [hon]
  cases r with
  | error f =>
    rw [run_bind_error hrun]
    exact iff_of_false nofun nofun
  | ok x =>
    rw [run_bind_ok hrun]
    constructor
    · rintro ⟨_, heq⟩
      obtain rfl := Except.ok.inj (congrArg Prod.fst heq)
      exact ⟨x, s'', rfl⟩
    · rintro ⟨_, _, heq⟩
      obtain rfl := congrArg (fun y => y.2.1) heq
      exact ⟨s'', rfl⟩

/-! ## The phases of a transfer -/

namespace TransferRequest

theorem eq_of_addReceivers {receivers : List (Script × Capacity)} {d d' : Draft}
    (h : addReceivers receivers d = .ok d') :
    d' = receivers.foldl (fun d e => d.addOutput (Cell.plain e.1 e.2)) d := by
  induction receivers generalizing d with
  | nil => exact (Except.ok.inj h).symm
  | cons e receivers ih =>
    obtain ⟨lock, capacity⟩ := e
    obtain ⟨occupied, -, h⟩ := except_bind_eq_ok.mp h
    split at h
    · exact nomatch h
    · exact ih h

/-- Adding the receivers' outputs leaves the rest alone. -/
theorem kept_foldl (receivers : List (Script × Capacity)) (d : Draft) :
    let d' := receivers.foldl (fun d e => d.addOutput (Cell.plain e.1 e.2)) d
    d'.inputs = d.inputs ∧ d'.change = d.change := by
  induction receivers generalizing d with
  | nil => exact ⟨rfl, rfl⟩
  | cons e receivers ih => exact ih _

end TransferRequest

namespace Assembler

/-- The draft of a transfer before anything is asked for. -/
def transferDraft (a : Assembler σ) : Draft :=
  (Draft.empty.setVersion 0).addCellDep a.scripts.secp256k1Blake160.dep

/-- The draft of a transfer before anything is spent. -/
def opening (a : Assembler σ) (r : TransferRequest) : Draft :=
  r.addChange (r.receivers.foldl (fun d e => d.addOutput (Cell.plain e.1 e.2)) a.transferDraft)

/-- A transfer gets as far as its opening. The ledger plays no part in that. -/
structure Opened (a : Assembler σ) (r : TransferRequest) : Prop where
  init : Ends (a.transferFlow r).init (.ok ())
  outputs : Ends ((a.transferFlow r).buildOutputs () a.transferDraft) (.ok (a.opening r))

theorem Opened.over {a : Assembler σ} {r : TransferRequest} (h : Opened a r) (l : Ledger σ) :
    Opened { a with ledger := l } r := ⟨h.init, h.outputs⟩

theorem inputs_opening (a : Assembler σ) (r : TransferRequest) : (a.opening r).inputs = [] := by
  have hdraft : a.transferDraft.inputs = [] :=
    ((Draft.Blank.empty.setVersion 0).addCellDep _).inputs
  have hinputs := (TransferRequest.kept_foldl r.receivers a.transferDraft).1.trans hdraft
  rw [opening, TransferRequest.addChange]
  split <;> exact hinputs

theorem change_opening (a : Assembler σ) {r : TransferRequest} :
    (a.opening r).change = none ↔ r.change = none := by
  have hdraft : a.transferDraft.change = none :=
    ((Draft.Blank.empty.setVersion 0).addCellDep _).change
  have hchange := (TransferRequest.kept_foldl r.receivers a.transferDraft).2.trans hdraft
  rw [opening, TransferRequest.addChange]
  cases r.change with
  | none => exact iff_of_true hchange rfl
  | some lock => exact iff_of_false nofun nofun

/-- What opens a transfer asks nobody. -/
theorem Opened.of_phases {a : Assembler σ} {r : TransferRequest} {plan : Unit} {d : Draft}
    (hinit : Yields (a.transferFlow r).init plan)
    (houtputs : Yields ((a.transferFlow r).buildOutputs plan a.transferDraft) d) :
    Opened a r ∧ d = a.opening r := by
  obtain ⟨hsenders, hinit⟩ := Yields.of_throw_if hinit
  obtain ⟨hreceivers, -⟩ := hinit.of_throw_if
  obtain ⟨d', hadd, houtputs⟩ := houtputs.bind
  have hadded := hadd.of_ofExcept
  obtain rfl := TransferRequest.eq_of_addReceivers hadded
  refine ⟨⟨?_, ?_⟩, houtputs.of_pure⟩
  · rw [transferFlow, if_neg hsenders, if_neg hreceivers]
    exact Ends.pure ()
  · refine Ends.bind ?_ (Ends.pure _)
    rw [hadded]
    exact Ends.pure _

theorem steady_settleChange {a : Assembler σ} {price : Transaction → Capacity} (ha : a.Prices price)
    (d : Draft) : Steady (a.settleChange d) := by
  have hmeasure : Steady (a.measure d) := by
    by_cases hfit : d.SumsFit
    · exact ⟨_, fun s => ⟨s, run_measure ha hfit s⟩⟩
    · exact ⟨_, fun s => ⟨s, run_measure_error ha hfit s⟩⟩
  unfold settleChange
  split
  · exact ⟨_, Ends.pure d⟩
  · refine hmeasure.bind fun b => ?_
    refine (steady_demand _ _).bind fun left => ?_
    refine (steady_demand _ _).bind fun change => ?_
    refine Steady.bind ⟨_, ends_ofExcept _⟩ fun occupied => ?_
    split <;> exact ⟨_, ends_ofExcept _⟩

/-- The phases of a transfer that spends some cells, up to its result. -/
structure Transfers (a : Assembler σ) (price : Transaction → Capacity) (r : TransferRequest)
    (cells : List LiveCell) (d : Draft) (res : Assembled) : Prop where
  opened : Opened a r
  collects : (a.opening r).Collects price cells d
  settles : ∃ d', Ends (a.settleChange d) (.ok d') ∧ d'.fee = .ok res.fee ∧
    res.transaction = d'.transaction ∧
    res.groups = groupInputs r.senders (d'.inputs.map (·.cell.lock))

theorem Transfers.over {a : Assembler σ} {price : Transaction → Capacity} {r : TransferRequest}
    {cells : List LiveCell} {d : Draft} {res : Assembled} (h : Transfers a price r cells d res)
    (l : Ledger σ) : Transfers { a with ledger := l } price r cells d res :=
  ⟨h.opened.over l, h.collects, h.settles⟩

section Chain

variable {c : Chain} {a : Assembler Nat} {price : Transaction → Capacity} {r : TransferRequest}
  {lock : Script} {res : Assembled} {d d' : Draft}

/-- On a chain, the plain cells of a lock are collected into the drafts of `Draft.Collects`. -/
theorem run_collect_iff (ha : a.ledger = c.ledger) (hprices : a.Prices price)
    (hp : a.pageSize ≠ 0) (hi : d.inputs = []) (s : Nat) :
    (∃ s', (do
      return (← a.collectCapacity d [a.stream (SearchKey.plainByLock lock)]).2
        : Build Nat Draft).run.run s = (.ok d', s')) ↔
      d.Collects price (c.payable lock) d' := by
  have hsupply := supplies_rests (c := c) (paged_stream hp [SearchKey.plainByLock lock]) s
  have hlt := length_rests_lt_bound ha [SearchKey.plainByLock lock]
  have hpick : d.pick Cell.isPlain
      (rests c ([SearchKey.plainByLock lock].map a.stream)) = c.payable lock := by
    have hpicked := Node.pick_plainByLock (n := { chain := c }) hi [lock]
    rw [List.flatMap_singleton] at hpicked
    rw [rests_single a rfl]
    exact (congrArg _ (List.flatMap_singleton _ _).symm).trans hpicked
  have hgot : ({} : Collected).capacity.toNat ≤ d.worth := Nat.zero_le _
  rw [← hpick, ← InPlace.returned_collectCapacity a d [a.stream (SearchKey.plainByLock lock)]]
  exact Edit.run_returned_iff.trans
    (Supplies.on_collects_iff hprices (ha ▸ hsupply) hlt hlt hgot)

theorem of_transfer (ha : a.ledger = c.ledger) (hprices : a.Prices price) (hp : a.pageSize ≠ 0)
    (hsender : r.senders = [lock]) (h : Yields (a.transfer r) res) :
    ∃ d, Transfers a price r (c.payable lock) d res := by
  obtain ⟨_, d₁, d₂, d₃, d₄, d₅, d, hinit, h₁, h₂, h₃, h₄, h₅, h₆, ht, hfee, hg⟩ :=
    Flow.of_assemble h
  obtain rfl := h₁.of_pure
  obtain rfl := h₂.of_pure
  obtain rfl := h₃.of_pure
  obtain ⟨hopened, rfl⟩ := Opened.of_phases hinit h₄
  have hbuild : (a.transferFlow r).buildInputs () (a.opening r) = (do
      return (← a.collectCapacity (a.opening r) [a.stream (SearchKey.plainByLock lock)]).2) := by
    rw [transferFlow, hsender]
    rfl
  obtain ⟨s, s', hrun⟩ := h₅
  have hcollects := (run_collect_iff ha hprices hp (inputs_opening a r) s).mp ⟨s', hbuild ▸ hrun⟩
  exact ⟨d₅, hopened, hcollects, d, (steady_settleChange hprices d₅).ends h₆, hfee, ht, hg⟩

theorem Transfers.ends (ha : a.ledger = c.ledger) (hprices : a.Prices price)
    (hp : a.pageSize ≠ 0) (hsender : r.senders = [lock])
    (h : Transfers a price r (c.payable lock) d res) : Ends (a.transfer r) (.ok res) := by
  obtain ⟨d', hsettle, hfee, ht, hg⟩ := h.settles
  have hbuild : Ends ((a.transferFlow r).buildInputs () (a.opening r)) (.ok d) := by
    rw [transferFlow, hsender]
    exact fun s => (run_collect_iff ha hprices hp (inputs_opening a r) s).mpr h.collects
  have hends := Flow.ends_assemble h.opened.init (Ends.pure _) (Ends.pure _) (Ends.pure _)
    h.opened.outputs hbuild hsettle hfee
  obtain ⟨t, groups, fee⟩ := res
  obtain rfl : t = _ := ht
  obtain rfl : groups = _ := hg
  exact hends

end Chain

end Assembler

/-! ## Nothing comes of nothing -/

theorem CellStream.exists_pulled_of_find {l : Ledger σ} {accept : LiveCell → Bool} {fuel : Nat}
    {streams rest : List CellStream} {x : LiveCell}
    (h : Yields (find l accept fuel streams) (some x, rest)) :
    ∃ y rest', Yields (pull l streams) (some y, rest') := by
  cases fuel with
  | zero => exact absurd h not_yields_throw
  | succ fuel =>
    obtain ⟨⟨o, rest'⟩, hpull, h⟩ := h.bind
    cases o with
    | none => exact nomatch (Prod.mk.inj h.of_pure).1
    | some y => exact ⟨y, rest', yields_ask.mp hpull⟩

namespace Assembler

/-- A transfer that succeeds was given a cell. -/
theorem exists_pulled_of_transfer {a : Assembler σ} {r : TransferRequest} {res : Assembled}
    (h : Yields (a.transfer r) res) : ∃ x rest, Yields (pull a.ledger
      ((r.senders.map SearchKey.plainByLock).map a.stream)) (some x, rest) := by
  obtain ⟨o, hopens, hcompletes⟩ := Construction.anatomy_transfer h
  have hworth := hopens.spent_or_promised
  cases hopens with
  | transfer senders receivers funded =>
  have hpos := hworth.resolve_left fun hspent => hspent rfl
  obtain ⟨hspends, hoffers, hcollect⟩ := hcompletes
  obtain ⟨b, hb, hcollect⟩ := hcollect.bind
  obtain ⟨fee, -, hcollected, hrequired, -⟩ := measure_spec hoffers hb
  -- nothing is spent yet, and the receivers get something
  have hshort : b.leftover? = none := by
    rw [List.map_eq_nil_iff.mp hspends.1] at hcollected
    change b.collected = 0 at hcollected
    rw [Balance.leftover?, if_neg]
    omega
  rw [if_neg (by rw [Balance.isSufficient, hshort]; exact Bool.false_ne_true)] at hcollect
  obtain ⟨⟨o, rest⟩, hfind, hcollect⟩ := hcollect.bind
  cases o with
  | none =>
    rw [Balance.isExact, hshort] at hcollect
    simp only [reduceCtorEq, decide_false, Bool.and_false, Bool.false_eq_true, if_false] at hcollect
    exact absurd hcollect not_yields_throw
  | some x => exact exists_pulled_of_find hfind

/-- A transfer that succeeds on a chain or while it is offline finds it online, and asks for pages
that have room. -/
theorem paged_of_transfer {c : Chain} {offline : Bool} {a : Assembler Nat} {r : TransferRequest}
    {res : Assembled} (ha : a.ledger = ({ chain := c, offline := offline } : Node).ledger)
    (h : Yields (a.transfer r) res) : offline = false ∧ a.pageSize ≠ 0 := by
  obtain ⟨x, rest, hpull⟩ := exists_pulled_of_transfer h
  have honline : offline = false := by
    rw [Bool.eq_false_iff]
    rintro rfl
    obtain ⟨key, -, order, limit, after, page, hpage, -⟩ :=
      ((walks_stream a.ledger a _).pull hpull).2 x rfl
    rw [ha] at hpage
    exact nomatch Always.eq (Node.ends_cells_unreachable c key order limit after) hpage
  subst honline
  refine ⟨rfl, fun hp => ?_⟩
  rw [ha, Node.ledger_chain] at hpull
  have hempty : ∀ s ∈ (r.senders.map SearchKey.plainByLock).map a.stream,
      s.limit = 0 ∧ s.buffer = [] := by
    refine List.forall_mem_map.mpr fun key _ => ?_
    exact ⟨congrArg UInt32.toNat hp, rfl⟩
  exact nomatch (Prod.mk.inj ((ends_pull_of_limit_zero hempty).eq hpull)).1

/-! ## More funds -/

section Chain

variable {c c' : Chain} {a : Assembler Nat} {price : Transaction → Capacity}
  {r : TransferRequest} {lock : Script} {cells later : List LiveCell} {d : Draft} {res : Assembled}

theorem ends_settleChange_of_none (h : d.change = none) : Ends (a.settleChange d) (.ok d) := by
  rw [settleChange, h]
  exact Ends.pure d

theorem Transfers.change (h : Transfers a price r cells d res) :
    d.change = none ↔ r.change = none := by
  obtain ⟨-, -, -, -, hchange, -⟩ := h.collects.spendsOn.kept
  rw [hchange, change_opening]

/-- Without change lock the collected draft is not settled any further. It is exactly balanced when
the fee is the price. -/
theorem Transfers.of_changeless (h : Transfers a price r cells d res) (hchange : r.change = none) :
    res.transaction = d.transaction ∧ (res.fee = price res.transaction ↔ d.Exact price) := by
  have hnone := h.change.mpr hchange
  obtain ⟨d', hsettle, hfee, ht, -⟩ := h.settles
  obtain rfl := (ends_settleChange_of_none hnone).eq hsettle.yields
  obtain ⟨fee, hfee', hexact⟩ := h.collects.fee_eq_iff hnone
  obtain rfl := Except.ok.inj (hfee.symm.trans hfee')
  exact ⟨ht, ht ▸ hexact⟩

/-- A transfer without change lock succeeds with any draft that is collected. -/
theorem Opened.exists_transfers (hopened : Opened a r) (hchange : r.change = none)
    (h : (a.opening r).Collects price cells d) : ∃ res, Transfers a price r cells d res := by
  obtain ⟨-, -, -, -, hkept, -⟩ := h.spendsOn.kept
  have hnone : d.change = none := hkept.trans ((change_opening a).mpr hchange)
  obtain ⟨fee, hfee, -⟩ := h.fee_eq_iff hnone
  exact ⟨⟨d.transaction, _, fee⟩, hopened, h, d, ends_settleChange_of_none hnone, hfee, rfl, rfl⟩

/-- A transfer that stopped at a covered draft leaves further cells alone. -/
theorem Transfers.append (h : Transfers a price r cells d res)
    (hcase : r.change ≠ none ∨ res.fee ≠ price res.transaction) (more : List LiveCell) :
    Transfers a price r (cells ++ more) d res := by
  rcases h.collects.append more with ⟨-, hcollects⟩ | ⟨-, hexact, -⟩
  · exact ⟨h.opened, hcollects, h.settles⟩
  · have hchange := h.change.mp hexact.1
    exact absurd ((h.of_changeless hchange).2.mpr hexact)
      (hcase.resolve_left (not_not_intro hchange))

/-- A transfer that stopped at an exactly balanced draft has spent all cells and goes on with further
ones. -/
theorem Transfers.exists_append_iff (h : Transfers a price r cells d res)
    (hchange : r.change = none) (hprice : res.fee = price res.transaction)
    (more : List LiveCell) :
    d = cells.foldl Draft.consume (a.opening r) ∧
      ((∃ d' res', Transfers a price r (cells ++ more) d' res') ↔ d.CanGoOn price more) := by
  have hd := (h.of_changeless hchange).2.mp hprice
  obtain ⟨hcovered, -⟩ | ⟨hlast, -, hfit, hcollects⟩ := h.collects.append more
  · exact absurd hcovered hd.not_covered
  refine ⟨hlast, ?_⟩
  rw [← hd.exists_collects_iff hfit]
  constructor
  · rintro ⟨d', res', h'⟩
    exact ⟨d', (hcollects d').mp h'.collects⟩
  · rintro ⟨d', hd'⟩
    exact ⟨d', h.opened.exists_transfers hchange ((hcollects d').mpr hd')⟩

/-- More funds break a transfer from one sender in one case only. When plain cells of the sender
come behind the live cells of a chain where it succeeded, it comes to the same result, unless it has
no change lock and its fee is exactly the price of its transaction. Then it had spent all that the
sender could pay with, and goes on from there: it succeeds when what is added is worth what it costs
(`Draft.CanGoOn`), and fails otherwise. What is added are all the cells that come behind, when their
out points are new. -/
theorem transfer_with_more {offline : Bool}
    (ha : a.ledger = ({ chain := c, offline := offline } : Node).ledger) (hprices : a.Prices price)
    (hsender : r.senders = [lock]) (hlive : c'.live = c.live ++ later)
    (hlater : ∀ x ∈ later, x.cell.isPlain = true ∧ x.cell.lock = lock)
    (h : Yields (a.transfer r) res) :
    let a' := { a with ledger := ({ chain := c', offline := offline } : Node).ledger }
    let last := (c.payable lock).foldl Draft.consume (a.opening r)
    (r.change ≠ none ∨ res.fee ≠ price res.transaction → Ends (a'.transfer r) (.ok res)) ∧
    (r.change = none → res.fee = price res.transaction → res.transaction = last.transaction ∧
      (last.CanGoOn price (c.alsoPayable lock later) → ∃ res', Ends (a'.transfer r) (.ok res')) ∧
      (¬ last.CanGoOn price (c.alsoPayable lock later) →
        ∀ res', ¬ Yields (a'.transfer r) res')) ∧
    ((later.map LiveCell.outPoint).Nodup → (∀ x ∈ later, ∀ y ∈ c.live, y.outPoint ≠ x.outPoint) →
      c.alsoPayable lock later = later) := by
  intro a' last
  obtain ⟨rfl, hp⟩ := paged_of_transfer ha h
  rw [Node.ledger_chain] at ha
  have ha' : a'.ledger = c'.ledger := Node.ledger_chain c'
  obtain ⟨d, htransfers⟩ := of_transfer ha hprices hp hsender h
  have hpayable := Chain.payable_of_live hlive hlater
  refine ⟨fun hcase => ?_, fun hchange hprice => ?_, fun hn hnew =>
    Chain.alsoPayable_eq hn hnew fun x hx => (hlater x hx).1⟩
  · have hmore := (htransfers.append hcase (c.alsoPayable lock later)).over a'.ledger
    rw [← hpayable] at hmore
    exact hmore.ends ha' hprices hp hsender
  · obtain ⟨rfl, hiff⟩ :=
      htransfers.exists_append_iff hchange hprice (c.alsoPayable lock later)
    rw [← hpayable] at hiff
    refine ⟨(htransfers.of_changeless hchange).1, fun hgoes => ?_, fun hgoes res' h' => ?_⟩
    · obtain ⟨d', res', hmore⟩ := hiff.mpr hgoes
      exact ⟨res', (hmore.over a'.ledger).ends ha' hprices hp hsender⟩
    · obtain ⟨d', hmore⟩ := of_transfer ha' hprices hp hsender h'
      exact hgoes (hiff.mp ⟨d', res', hmore.over a.ledger⟩)

end Chain

/-- A cell that holds exactly what the receiver and the fee get stops being enough next to one that
is worth a shannon less than it costs. Next to one that is worth what it costs, it is enough. -/
theorem transfer_with_more_oneCell :
    let c := Chain.oneCell (.plain (.ofByte 1) 10000000355)
    let richer (capacity : Capacity) := (c.fund [Cell.plain (.ofByte 1) capacity]).2
    let r : TransferRequest := ⟨[.ofByte 1], [(.ofByte 2, 10000000000)], none⟩
    ∃ res, Yields ((onChain c).transfer r) res ∧
      (∀ res', ¬ Yields ((onChain (richer 51)).transfer r) res') ∧
      ∃ res', Ends ((onChain (richer 52)).transfer r) (.ok res') := by
  intro c richer r
  obtain ⟨res, h, hfee⟩ := exists_yields (m := (onChain c).transfer r) (s := 0)
    (fun res => res.fee = Fee.ofSize res.transaction.size (onChain c).feeRate) (by decide +kernel)
  have hmore (capacity : Capacity)
      (hlive : (richer capacity).live = c.live ++ (richer capacity).live.drop 1)
      (hlater : ∀ x ∈ (richer capacity).live.drop 1, x.cell.isPlain = true ∧
        x.cell.lock = .ofByte 1) :=
    (transfer_with_more (Node.ledger_chain c).symm (prices_bySize rfl) rfl hlive hlater h).2.1 rfl
      (of_decide_eq_true hfee)
  obtain ⟨-, -, hfails⟩ := hmore 51 (by decide +kernel) (by decide +kernel)
  obtain ⟨-, hends, -⟩ := hmore 52 (by decide +kernel) (by decide +kernel)
  rw [Node.ledger_chain] at hfails hends
  exact ⟨res, h, hfails (by decide +kernel), hends (by decide +kernel)⟩

/-- A transfer of what the only cell holds but the fee fails when the sender gets ten shannons. -/
theorem transfer_broken_by_more :
    let c := Chain.oneCell (.plain (.ofByte 1) 10000000355)
    let r : TransferRequest := ⟨[.ofByte 1], [(.ofByte 2, 10000000000)], none⟩
    (∃ res, Yields ((onChain c).transfer r) res) ∧
      Reaches ((onChain (c.fund [Cell.plain (.ofByte 1) 10]).2).transfer r).run
        (.error (.insufficientCapacity 10000000407 10000000365)) := by
  intro c r
  obtain ⟨res, h, -⟩ := exists_yields (m := (onChain c).transfer r) (s := 0) (fun _ => true)
    (by decide +kernel)
  exact ⟨⟨res, h⟩, reaches_of_run (s := 0) (by decide +kernel)⟩

end Assembler

end CellTx
