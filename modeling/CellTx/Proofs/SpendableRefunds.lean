import CellTx.Proofs.Funded
import CellTx.Proofs.RememberedSenders

/-!
# Whether refunds can be spent

The refunds of claimed cheques are the only outputs of any construction that nobody lifts or checks.
What a sender gets back is what its cheques held, under a lock that has nothing to do with the
cheques' own (specification, section 4.6).

Results:
* `Chain.refundTo_map_fst`, `Chain.le_refundTo`: what goes back to a sender, from the chain alone.
* `Assembler.claimed_outputs_funded_iff`: all outputs of a claim hold what they occupy exactly if
  the cheques of each sender hold together what a plain cell under the sender's lock occupies.
* `Chain.refundsSuffice_of_short`: a cheque occupies 162 bytes at least, and so this is the case for
  senders whose locks have at most 121 bytes of args.
* `Assembler.refund_unfunded_longSender`: a claim with a refund that no chain accepts.

Out of scope: lifting a refund. Who would pay for that is not said anywhere.
-/

namespace CellTx

/-- Nothing in a list is more than all of it. -/
theorem Capacity.le_total {l : List Capacity} {a : Capacity} (h : a ∈ l) : a.toNat ≤ total l := by
  induction l with
  | nil => exact absurd h List.not_mem_nil
  | cons b l ih =>
    rw [total_cons]
    rcases List.mem_cons.mp h with rfl | hl
    · exact Nat.le_add_right _ _
    · exact Nat.le_add_left_of_le (ih hl)

/-! ## What a sender gets back -/

namespace Chain

/-- What those of some cheques hold that are attributed to a lock. -/
def refundTo (c : Chain) (cheques : List LiveCell) (lock : Script) : Nat :=
  Capacity.total ((cheques.filter (c.attributed? cheques · = some lock)).map (·.cell.capacity))

/-- The cheques of each sender hold enough for a plain cell under its lock. -/
def RefundsSuffice (c : Chain) (cheques : List LiveCell) : Prop :=
  ∀ x ∈ cheques, ∀ lock, c.attributed? cheques x = some lock →
    changeFloor lock ≤ c.refundTo cheques lock

instance (c : Chain) : Decidable c.Stored :=
  inferInstanceAs (Decidable (∀ x ∈ c.live, c.output? x.outPoint = some x.cell))

/-- Cheques with their senders: what a lock gets back is what the cheques of that sender hold. -/
theorem refundTo_map_fst {c : Chain} {sent : List (LiveCell × Script)}
    (h : ∀ e ∈ sent, c.attributed? (sent.map Prod.fst) e.1 = some e.2) (lock : Script) :
    c.refundTo (sent.map Prod.fst) lock =
      Capacity.total ((sent.filter (·.2 = lock)).map fun e => e.1.cell.capacity) := by
  rw [refundTo, List.filter_map, List.map_map]
  have hfilter : sent.filter ((c.attributed? (sent.map Prod.fst) · = some lock) ∘ Prod.fst) =
      sent.filter (·.2 = lock) :=
    List.filter_congr fun e he => by simp [h e he]
  rw [hfilter]
  rfl

/-- A sender gets back what any one of its cheques held. -/
theorem le_refundTo {c : Chain} {cheques : List LiveCell} {x : LiveCell} {lock : Script}
    (hx : x ∈ cheques) (hlock : c.attributed? cheques x = some lock) :
    x.cell.capacity.toNat ≤ c.refundTo cheques lock :=
  Capacity.le_total
    (List.mem_map.mpr ⟨x, List.mem_filter.mpr ⟨hx, decide_eq_true hlock⟩, rfl⟩)

end Chain

/-- What a cheque with an amount occupies: eight bytes for its capacity, the amount, a lock with
forty bytes of args and the type of a token. -/
theorem Cell.occupiedBytes_of_isChequeFor {scripts : SystemScripts} {receiver : Script}
    {owner : Hash} {c : Cell} {amount : TokenAmount}
    (h : c.isChequeFor scripts receiver owner = true)
    (hamount : TokenAmount.ofData? c.data = some amount) : 162 ≤ c.occupiedBytes := by
  rw [isChequeFor, Bool.and_eq_true, Bool.and_eq_true, Bool.and_eq_true, decide_eq_true_eq,
    decide_eq_true_eq] at h
  obtain ⟨⟨⟨-, hlength⟩, -⟩, htype⟩ := h
  have hdata : TokenAmount.width ≤ c.data.length := by
    by_contra hshort
    rw [TokenAmount.ofData?_eq_none_iff.mpr (Nat.lt_of_not_le hshort)] at hamount
    exact absurd hamount.symm (Option.some_ne_none amount)
  have howner : (scripts.sudtType owner).args.length = 32 := owner.length_bytes
  rw [occupiedBytes, Cell.hasType_iff.mp htype, Option.map_some, Option.getD_some,
    Script.occupiedBytes, Script.occupiedBytes, hlength, howner]
  rw [TokenAmount.width] at hdata
  rw [ChequeArgs.width]
  omega

/-- A plain cell under a lock with at most 121 bytes of args occupies no more than a cheque. -/
theorem changeFloor_le {lock : Script} (h : lock.args.length ≤ 121) :
    changeFloor lock ≤ 162 * Capacity.perCkb := by
  refine Nat.mul_le_mul_right _ ?_
  simp only [Cell.occupiedBytes, Cell.plain, Script.occupiedBytes, List.length_nil,
    Option.map_none, Option.getD_none]
  omega

/-- Cheques that hold what they occupy are enough for senders whose locks are short. -/
theorem Chain.refundsSuffice_of_short {c : Chain} {cheques : List LiveCell}
    (hoccupied : ∀ x ∈ cheques, 162 ≤ x.cell.occupiedBytes) (hfunded : ∀ x ∈ cheques, x.cell.Funded)
    (hshort : ∀ x ∈ cheques, ∀ lock, c.attributed? cheques x = some lock → lock.args.length ≤ 121) :
    c.RefundsSuffice cheques := by
  intro x hx lock hlock
  calc changeFloor lock ≤ 162 * Capacity.perCkb := changeFloor_le (hshort x hx lock hlock)
    _ ≤ x.cell.occupiedBytes * Capacity.perCkb := Nat.mul_le_mul_right _ (hoccupied x hx)
    _ ≤ x.cell.capacity.toNat := hfunded x hx
    _ ≤ c.refundTo cheques lock := le_refundTo hx hlock

/-! ## The outputs of a claim -/

section Claim

variable {c : Chain} {a : Assembler Nat} {receiver : Script} {owner : Hash} {r : Assembled}

/-- The outputs of a claim: the refunds, and cells that hold what they occupy. -/
theorem Assembler.outputs_of_claimCheques (ha : a.ledger = c.ledger)
    (h : Yields (a.claimCheques receiver owner) r) :
    ∃ (claimed : Cell) (refunds : Refunds) (left : List Cell),
      r.transaction.outputs = claimed :: refunds.map (fun e => Cell.plain e.1 e.2) ++ left ∧
      claimed.Funded ∧ (∀ x ∈ left, x.Funded) ∧
      (∀ x ∈ c.chequesFor a.scripts receiver owner, 162 ≤ x.cell.occupiedBytes) ∧
      (∀ lock, lock ∈ refunds.keys ↔ ∃ x ∈ c.chequesFor a.scripts receiver owner,
        c.attributed? (c.chequesFor a.scripts receiver owner) x = some lock) ∧
      ∀ e ∈ refunds, e.2.toNat = c.refundTo (c.chequesFor a.scripts receiver owner) e.1 := by
  have hp : a.pageSize ≠ 0 := fun hp =>
    nomatch Always.eq (ends_claimCheques_of_unpaged ha hp) h
  obtain ⟨o, hopens, hcompletes⟩ := Construction.anatomy_claimCheques h
  obtain ⟨left, houtputs, hleft⟩ := hcompletes.left_funded
  obtain ⟨floor, hfloor⟩ := exists_occupied_of_claimCheques h
  cases hopens with
  | @claimCheques _ _ t found =>
  obtain ⟨sent, hcheques, hsent, hamounts, hkeys, howed⟩ := sent_of_findCheques ha hp found
  rw [← hcheques]
  refine ⟨_, t.refunds, left, houtputs, ?_, hleft, fun x hx => ?_, fun lock => ?_, fun e he => ?_⟩
  · exact Cell.funded_raised ((a.occupied?_tokenCell _ _ _ _).trans hfloor)
  · obtain ⟨e, he, rfl⟩ := List.mem_map.mp hx
    obtain ⟨amount, hamount⟩ := hamounts e he
    rw [hcheques] at hx
    exact Cell.occupiedBytes_of_isChequeFor (List.mem_filter.mp hx).2 hamount
  · rw [hkeys, List.mem_eraseDups, List.mem_map]
    constructor
    · rintro ⟨e, he, rfl⟩
      exact ⟨e.1, List.mem_map.mpr ⟨e, he, rfl⟩, hsent e he⟩
    · rintro ⟨x, hx, hlock⟩
      obtain ⟨e, he, rfl⟩ := List.mem_map.mp hx
      exact ⟨e, he, Option.some.inj ((hsent e he).symm.trans hlock)⟩
  · rw [Chain.refundTo_map_fst hsent]
    exact howed e he

/-- What a claim makes holds what it occupies, the refunds apart. A refund does so exactly if the
cheques of its sender held enough, and always when what is stored does so and the senders' locks
have no more than 121 bytes of args. -/
theorem Assembler.claimed_outputs_funded_iff (ha : a.ledger = c.ledger)
    (h : Yields (a.claimCheques receiver owner) r) :
    (∀ x ∈ r.transaction.outputs, x.Funded ∨ ∃ lock capacity, x = Cell.plain lock capacity ∧
      (∃ y ∈ c.chequesFor a.scripts receiver owner,
        c.attributed? (c.chequesFor a.scripts receiver owner) y = some lock) ∧
      capacity.toNat = c.refundTo (c.chequesFor a.scripts receiver owner) lock) ∧
    ((∀ x ∈ r.transaction.outputs, x.Funded) ↔
      c.RefundsSuffice (c.chequesFor a.scripts receiver owner)) ∧
    (c.Stored → c.FundsOutputs →
      (∀ y ∈ c.chequesFor a.scripts receiver owner, ∀ lock,
        c.attributed? (c.chequesFor a.scripts receiver owner) y = some lock →
          lock.args.length ≤ 121) →
      ∀ x ∈ r.transaction.outputs, x.Funded) := by
  obtain ⟨claimed, refunds, left, houtputs, hclaimed, hleft, hoccupied, hkeys, howed⟩ :=
    outputs_of_claimCheques ha h
  have hkey : ∀ e ∈ refunds, e.1 ∈ refunds.keys := fun e he => List.mem_map.mpr ⟨e, he, rfl⟩
  have hiff : (∀ x ∈ r.transaction.outputs, x.Funded) ↔
      c.RefundsSuffice (c.chequesFor a.scripts receiver owner) := by
    rw [houtputs]
    constructor
    · intro hfunded y hy lock hlock
      obtain ⟨e, he, rfl⟩ := List.mem_map.mp ((hkeys lock).mpr ⟨y, hy, hlock⟩)
      have hrefund : (Cell.plain e.1 e.2).Funded :=
        hfunded _ (List.mem_append_left _ (List.mem_cons_of_mem _ (List.mem_map.mpr ⟨e, he, rfl⟩)))
      rw [← howed e he]
      exact hrefund
    · intro hsuffice
      refine List.forall_mem_append.mpr ⟨List.forall_mem_cons.mpr ⟨hclaimed, fun x hx => ?_⟩, hleft⟩
      obtain ⟨e, he, rfl⟩ := List.mem_map.mp hx
      obtain ⟨y, hy, hlock⟩ := (hkeys e.1).mp (hkey e he)
      have hfloor := hsuffice y hy e.1 hlock
      rw [← howed e he] at hfloor
      exact hfloor
  refine ⟨?_, hiff, fun hstored hfunds hshort => hiff.mpr ?_⟩
  · rw [houtputs]
    refine List.forall_mem_append.mpr ⟨List.forall_mem_cons.mpr ⟨.inl hclaimed, fun x hx => ?_⟩,
      fun x hx => .inl (hleft x hx)⟩
    obtain ⟨e, he, rfl⟩ := List.mem_map.mp hx
    exact .inr ⟨e.1, e.2, rfl, (hkeys e.1).mp (hkey e he), howed e he⟩
  · exact Chain.refundsSuffice_of_short hoccupied
      (fun y hy => hfunds _ _ (hstored y (List.mem_filter.mp hy).1)) hshort

end Claim

/-- The refund of one cheque of a sender with a usual lock. -/
theorem Assembler.claimed_outputs_funded_withCheque :
    ∃ r, let c := Chain.withCheque (.ofByte 1) (.ofByte 2) (.ofByte 2)
      Yields ((onChain c).claimCheques (.ofByte 2) Hash.zero) r ∧
      c.RefundsSuffice (c.chequesFor SystemScripts.mainnet (.ofByte 2) Hash.zero) ∧
      ∀ x ∈ r.transaction.outputs, x.Funded := by
  let c := Chain.withCheque (.ofByte 1) (.ofByte 2) (.ofByte 2)
  obtain ⟨r, h, -⟩ := exists_yields (m := (onChain c).claimCheques (.ofByte 2) Hash.zero) (s := 0)
    (fun _ => true) (by decide +kernel)
  obtain ⟨-, hiff, hfunded⟩ :=
    @claimed_outputs_funded_iff c (onChain c) (.ofByte 2) Hash.zero r rfl h
  have hall := hfunded (by decide +kernel) (Chain.fundsOutputs_of_forall (by decide +kernel))
    (by decide +kernel)
  exact ⟨r, h, hiff.mp hall, hall⟩

/-- The refund of a cheque of 300 CKB to a sender whose lock has 260 bytes of args: a plain cell
under it occupies 301 CKB. -/
theorem Assembler.refund_unfunded_longSender :
    ∃ r, let c := Chain.withCheque ((Script.ofByte 1).extend (zeros 240)) (.ofByte 2) (.ofByte 2)
      Yields ((onChain c).claimCheques (.ofByte 2) Hash.zero) r ∧ c.Stored ∧ c.FundsOutputs ∧
      ∃ x ∈ r.transaction.outputs,
        x = Cell.plain ((Script.ofByte 1).extend (zeros 240)) 30000000000 ∧ ¬ x.Funded := by
  let c := Chain.withCheque ((Script.ofByte 1).extend (zeros 240)) (.ofByte 2) (.ofByte 2)
  obtain ⟨r, h, hr⟩ := exists_yields (m := (onChain c).claimCheques (.ofByte 2) Hash.zero) (s := 0)
    (fun r => ∃ x ∈ r.transaction.outputs,
      x = Cell.plain ((Script.ofByte 1).extend (zeros 240)) 30000000000 ∧ ¬ x.Funded)
    (by decide +kernel)
  exact ⟨r, h, by decide +kernel, Chain.fundsOutputs_of_forall (by decide +kernel),
    of_decide_eq_true hr⟩

end CellTx
