import CellTx.Balance
import CellTx.Proofs.Draft
import CellTx.Proofs.Walk
import Mathlib.Algebra.GroupWithZero.Nat

/-!
# What balancing does to a draft

A pass over some searches spends cells one after the other (`Pass`): each was reported to one of the
searches, was accepted, and was not spent before.

Results:
* `collectCapacity_spec`, `collectTokens_spec`: a collection that succeeds is a pass, which stopped
  at a covered draft, or where the cells hold the tokens that are required.
* `measure_spec`: a draft in which nothing is settled yet is measured by what it promises.
* `of_settleChange`, `settleChange_spec`: the change is settled by what the measure leaves over,
  which it gets when that is as much as it occupies.
* `ends_collectCapacityWithin_covered`, `ends_collectCapacityWithin_next`: the rounds of a
  collection whose steps are known.

Out of scope: which cells are taken of those that could be (`CellTx.Proofs.Collection`,
`CellTx.Proofs.Enough`), and collections that fail (`CellTx.Proofs.Failing`).
-/

namespace CellTx

variable {σ : Type}

/-! ## Passes -/

/-- One pass over some searches, from a draft to a draft. -/
inductive Pass (l : Ledger σ) (keys : List SearchKey) (accept : Cell → Bool) :
    Draft → List LiveCell → Draft → Prop
  | done (d : Draft) : Pass l keys accept d [] d
  | spend {d d' : Draft} {c : LiveCell} {cells : List LiveCell}
      (reported : ∃ key ∈ keys, l.Reports key c) (accepted : accept c.cell = true)
      (fresh : d.spends c.outPoint = false) (rest : Pass l keys accept (d.consume c) cells d') :
      Pass l keys accept d (c :: cells) d'

namespace Pass

variable {l : Ledger σ} {keys : List SearchKey} {accept : Cell → Bool} {d d' : Draft}
  {cells : List LiveCell}

theorem reported (h : Pass l keys accept d cells d') :
    ∀ c ∈ cells, ∃ key ∈ keys, l.Reports key c := by
  induction h with
  | done => exact fun c hc => absurd hc List.not_mem_nil
  | spend hr _ _ _ ih => exact List.forall_mem_cons.mpr ⟨hr, ih⟩

theorem accepted (h : Pass l keys accept d cells d') : ∀ c ∈ cells, accept c.cell = true := by
  induction h with
  | done => exact fun c hc => absurd hc List.not_mem_nil
  | spend _ ha _ _ ih => exact List.forall_mem_cons.mpr ⟨ha, ih⟩

theorem spends {spent : List Spending} (h : Pass l keys accept d cells d')
    (hs : d.Spends spent) : d'.Spends (spent ++ cells.map LiveCell.spending) := by
  induction h generalizing spent with
  | done => simpa using hs
  | @spend _ _ c cells _ _ _ _ ih =>
    have := ih (hs.consume c)
    rwa [List.append_assoc] at this

theorem outputs (h : Pass l keys accept d cells d') : d'.outputs = d.outputs := by
  induction h with
  | done => rfl
  | spend _ _ _ _ ih => exact ih

theorem offers {promised : List Cell} {change : Option Script}
    (h : Pass l keys accept d cells d') (ho : d.Offers promised change) :
    d'.Offers promised change := by
  induction h with
  | done => exact ho
  | @spend _ _ c _ _ _ _ _ ih => exact ih (ho.consume c)

end Pass

/-- The capacity that the change output of a lock has to hold. -/
def changeFloor (lock : Script) : Nat := (Cell.plain lock 0).occupiedBytes * Capacity.perCkb

namespace Assembler

variable {a : Assembler σ}

/-! ## Measuring -/

/-- A draft in which nothing is settled needs what it promises and the fee of its shape. -/
theorem measure_spec {d : Draft} {promised : List Cell} {change : Option Script} {b : Balance}
    (ho : d.Offers promised change) (h : Yields (a.measure d) b) :
    ∃ fee, Yields (a.estimate d) fee ∧
      b.collected = Capacity.total (d.inputs.map DraftInput.worth) ∧
      b.required = Capacity.total (promised.map Cell.capacity) + fee.toNat ∧
      b.changeOccupied = change.map changeFloor := by
  obtain ⟨fee, hfee, h⟩ := h.bind
  obtain ⟨committed, hcommitted, h⟩ := h.bind
  have hrequired := ho.committedCapacity hcommitted.of_ofExcept
  rw [ho.changeOutput?] at h
  -- the two shapes of the change end in the same last step
  cases change with
  | none =>
    obtain ⟨occupied, hoccupied, h⟩ := h.bind
    obtain ⟨collected, hcollected, h⟩ := h.bind
    obtain rfl := h.of_pure
    exact ⟨fee, hfee, Draft.inputsCapacity_eq_ok.mp hcollected.of_ofExcept,
      congrArg (· + fee.toNat) hrequired, hoccupied.of_pure⟩
  | some lock =>
    obtain ⟨o, ho, h⟩ := h.bind
    obtain ⟨occupied, hoccupied, h⟩ := h.bind
    obtain ⟨collected, hcollected, h⟩ := h.bind
    obtain rfl := h.of_pure
    have hfloor : o.toNat = changeFloor lock := Cell.occupied?_eq_some_iff.mp ho.of_demand
    exact ⟨fee, hfee, Draft.inputsCapacity_eq_ok.mp hcollected.of_ofExcept,
      congrArg (· + fee.toNat) hrequired, by rw [hoccupied.of_pure, hfloor]; rfl⟩

/-! ## Collecting -/

/-- Where a collection of capacity stops: covered, or exactly balanced without change output. -/
def Covers (a : Assembler σ) (d : Draft) : Prop :=
  ∃ b, Yields (a.measure d) b ∧ (b.isSufficient = true ∨ b.isExact = true)

theorem collectCapacityWithin_spec {bound fuel : Nat} {got got' : Collected} {d d' : Draft}
    {keys : List SearchKey} {streams : List CellStream}
    (hw : CellStream.Walks a.ledger keys streams)
    (h : Yields (a.collectCapacityWithin bound fuel got d streams) (got', d')) :
    ∃ cells, Pass a.ledger keys Cell.isPlain d cells d' ∧ a.Covers d' := by
  induction fuel generalizing got d streams with
  | zero => exact absurd h not_yields_throw
  | succ fuel ih =>
    rw [collectCapacityWithin] at h
    obtain ⟨b, hb, h⟩ := h.bind
    split at h
    · rename_i hs
      obtain ⟨-, rfl⟩ := Prod.mk.inj h.of_pure
      exact ⟨[], Pass.done d', b, hb, Or.inl hs⟩
    obtain ⟨⟨o, rest⟩, hf, h⟩ := h.bind
    obtain ⟨hw', hc⟩ := hw.find hf
    cases o with
    | some c =>
      obtain ⟨got₁, -, h⟩ := h.bind
      obtain ⟨cells, hp, hcov⟩ := ih hw' h
      obtain ⟨hacc, hrep⟩ := hc c rfl
      rw [Bool.and_eq_true, Bool.not_eq_true'] at hacc
      exact ⟨c :: cells, Pass.spend hrep hacc.2 hacc.1 hp, hcov⟩
    | none =>
      simp only at h
      split at h
      · rename_i he
        obtain ⟨-, rfl⟩ := Prod.mk.inj h.of_pure
        exact ⟨[], Pass.done d', b, hb, Or.inr he⟩
      · exact absurd h not_yields_throw

/-- A collection of capacity is a pass over plain cells that ends covered. -/
theorem collectCapacity_spec {keys : List SearchKey} {got : Collected} {d d' : Draft}
    (h : Yields (a.collectCapacity d (keys.map a.stream)) (got, d')) :
    ∃ cells, Pass a.ledger keys Cell.isPlain d cells d' ∧ a.Covers d' :=
  collectCapacityWithin_spec (walks_stream a.ledger a keys) h

/-- A covered draft takes no more cells. -/
theorem ends_collectCapacityWithin_covered {bound fuel : Nat} {got : Collected} {d : Draft}
    {streams : List CellStream} {b : Balance} (hb : Ends (a.measure d) (.ok b))
    (h : b.isSufficient = true) :
    Ends (a.collectCapacityWithin bound (fuel + 1) got d streams) (.ok (got, d)) := by
  rw [collectCapacityWithin]
  refine hb.bind ?_
  rw [if_pos h]
  exact Ends.pure _

/-- A draft that is not covered takes the next cell that is found. -/
theorem ends_collectCapacityWithin_next {bound fuel : Nat} {got got' : Collected} {d : Draft}
    {streams streams' : List CellStream} {b : Balance} {x : LiveCell}
    {res : Except Failure (Collected × Draft)} (hb : Ends (a.measure d) (.ok b))
    (h : ¬ b.isSufficient = true)
    (hfind : Ends (CellStream.find a.ledger (fun y => !d.spends y.outPoint && y.cell.isPlain) bound
      streams) (.ok (some x, streams')))
    (hadd : got.add x = .ok got')
    (hrest : Ends (a.collectCapacityWithin bound fuel got' (d.consume x) streams') res) :
    Ends (a.collectCapacityWithin bound (fuel + 1) got d streams) res := by
  rw [collectCapacityWithin]
  refine hb.bind ?_
  rw [if_neg h]
  refine hfind.bind ?_
  simp only [hadd]
  exact (Ends.pure _).bind hrest

theorem collectTokensWithin_spec {bound fuel : Nat} {type : Script} {required : TokenAmount}
    {got got' : Collected} {amount amount' : TokenAmount} {d d' : Draft} {keys : List SearchKey}
    {streams : List CellStream} (hw : CellStream.Walks a.ledger keys streams)
    (h : Yields (a.collectTokensWithin bound type required fuel (got, amount) d streams)
      ((got', amount'), d')) :
    ∃ cells, Pass a.ledger keys (Cell.hasType type) d cells d' ∧ required ≤ amount' ∧
      ∃ held : List TokenAmount,
        cells.map (fun c => TokenAmount.ofData? c.cell.data) = held.map some ∧
        amount'.toNat = amount.toNat + (held.map BitVec.toNat).sum := by
  induction fuel generalizing got amount d streams with
  | zero => exact absurd h not_yields_throw
  | succ fuel ih =>
    rw [collectTokensWithin] at h
    split at h
    · rename_i hle
      obtain ⟨hg, rfl⟩ := Prod.mk.inj h.of_pure
      obtain ⟨-, rfl⟩ := Prod.mk.inj hg
      exact ⟨[], Pass.done d', hle, [], rfl, rfl⟩
    obtain ⟨⟨o, rest⟩, hf, h⟩ := h.bind
    obtain ⟨hw', hc⟩ := hw.find hf
    cases o with
    | none => exact absurd h not_yields_throw
    | some c =>
      obtain ⟨x, hx, h⟩ := h.bind
      obtain ⟨sum, hsum, h⟩ := h.bind
      obtain ⟨got₁, -, h⟩ := h.bind
      obtain ⟨cells, hp, hle, held, hheld, htotal⟩ := ih hw' h
      obtain ⟨hacc, hrep⟩ := hc c rfl
      rw [Bool.and_eq_true, Bool.not_eq_true'] at hacc
      refine ⟨c :: cells, Pass.spend hrep hacc.2 hacc.1 hp, hle, x :: held, ?_, ?_⟩
      · rw [List.map_cons, List.map_cons, TokenAmount.ofData?_eq_some_iff.mpr hx.of_decoded, hheld]
      · rw [htotal, TokenAmount.add?_eq_some_iff.mp hsum.of_demand, List.map_cons, List.sum_cons,
          Nat.add_assoc]

/-- A collection of tokens is a pass over cells of the token that hold enough. -/
theorem collectTokens_spec {type : Script} {required amount : TokenAmount} {keys : List SearchKey}
    {got : Collected} {d d' : Draft}
    (h : Yields (a.collectTokens d type required (keys.map a.stream)) ((got, amount), d')) :
    ∃ cells, Pass a.ledger keys (Cell.hasType type) d cells d' ∧ required ≤ amount ∧
      ∃ held : List TokenAmount,
        cells.map (fun c => TokenAmount.ofData? c.cell.data) = held.map some ∧
        amount.toNat = (held.map BitVec.toNat).sum := by
  have := collectTokensWithin_spec (walks_stream a.ledger a keys) h
  simpa using this

/-- What a collection of tokens for a draft without inputs spends. -/
theorem collectTokens_fresh {type : Script} {required amount : TokenAmount} {keys : List SearchKey}
    {got : Collected} {d d' : Draft} (hi : d.inputs = [])
    (h : Yields (a.collectTokens d type required (keys.map a.stream)) ((got, amount), d')) :
    ∃ (cells : List LiveCell) (held : List TokenAmount),
      Pass a.ledger keys (Cell.hasType type) d cells d' ∧
      d'.Spends (cells.map LiveCell.spending) ∧ required ≤ amount ∧
      cells.map (fun c => TokenAmount.ofData? c.cell.data) = held.map some ∧
      amount.toNat = (held.map BitVec.toNat).sum := by
  obtain ⟨cells, hpass, hle, held, hdecoded, hsum⟩ := collectTokens_spec h
  have hspends := hpass.spends (Draft.spends_nil hi)
  rw [List.nil_append] at hspends
  exact ⟨cells, held, hpass, hspends, hle, hdecoded, hsum⟩

/-! ## Settling -/

/-- All that settling the change can do: nothing without a change output, which otherwise gets what
is left over when that is as much as it occupies, and goes when it is less. -/
theorem of_settleChange {d d' : Draft} (h : Yields (a.settleChange d) d') :
    (d.change = none ∧ d' = d) ∨ ∃ (i : Nat) (b : Balance) (left : Nat) (capacity o : Capacity),
      d.change = some i ∧ Yields (a.measure d) b ∧ b.leftover? = some left ∧
        capacity.toNat = left ∧ d.occupied i = .ok o ∧
          (o ≤ capacity ∧ d.setCapacity i capacity = .ok d' ∨
            ¬ o ≤ capacity ∧ d.removeOutput i = .ok d') := by
  unfold settleChange at h
  split at h
  · exact Or.inl ⟨‹_›, h.of_pure⟩
  · rename_i i hchange
    obtain ⟨b, hb, h⟩ := h.bind
    obtain ⟨left, hleft, h⟩ := h.bind
    obtain ⟨capacity, hcapacity, h⟩ := h.bind
    obtain ⟨o, hoccupied, h⟩ := h.bind
    refine Or.inr ⟨i, b, left, capacity, o, hchange, hb, hleft.of_demand,
      Capacity.ofNat?_eq_some_iff.mp hcapacity.of_demand, hoccupied.of_ofExcept, ?_⟩
    split at h
    · exact Or.inl ⟨‹_›, h.of_ofExcept⟩
    · exact Or.inr ⟨‹_›, h.of_ofExcept⟩

theorem settleChange_none {d d' : Draft} {promised : List Cell} (ho : d.Offers promised none)
    (h : Yields (a.settleChange d) d') : d' = d := by
  rcases of_settleChange h with ⟨-, hd⟩ | ⟨i, _, _, _, _, hchange, -⟩
  · exact hd
  · rw [ho.change] at hchange
    exact nomatch hchange

/-- The change output gets what is left over when that reaches its floor, and goes otherwise. -/
theorem settleChange_spec {d d' : Draft} {promised : List Cell} {lock : Script}
    (ho : d.Offers promised (some lock)) (h : Yields (a.settleChange d) d') :
    d'.inputs = d.inputs ∧
      ∃ b left, Yields (a.measure d) b ∧ b.leftover? = some left ∧
        ((changeFloor lock ≤ left ∧ ∃ capacity : Capacity, capacity.toNat = left ∧
            d'.transaction =
              { d.transaction with outputs := promised ++ [Cell.plain lock capacity] }) ∨
          left < changeFloor lock ∧
            d'.transaction = { d.transaction with outputs := promised }) := by
  rcases of_settleChange h with
    ⟨hchange, -⟩ | ⟨i, b, left, capacity, occupied, hchange, hb, hleft, hcap, hoccupied, h⟩
  · rw [ho.change] at hchange
    exact nomatch hchange
  rw [ho.change] at hchange
  obtain rfl := Option.some.inj hchange
  obtain ⟨c, hc, hocc⟩ := Draft.occupied_eq_ok.mp hoccupied
  obtain rfl := Option.some.inj (ho.getElem?_change.symm.trans hc)
  have hfloor : occupied.toNat = changeFloor lock := Cell.occupied?_eq_some_iff.mp hocc
  have hle : occupied ≤ capacity ↔ changeFloor lock ≤ left := by
    rw [UInt64.le_iff_toNat_le, hfloor, hcap]
  rcases h with ⟨hge, hset⟩ | ⟨hlt, hremove⟩
  · obtain ⟨hi, ht⟩ := ho.setCapacity hset
    exact ⟨hi, b, left, hb, hleft, Or.inl ⟨hle.mp hge, capacity, hcap, ht⟩⟩
  · obtain ⟨hi, ht⟩ := ho.removeOutput hremove
    exact ⟨hi, b, left, hb, hleft, Or.inr ⟨Nat.lt_of_not_le (mt hle.mpr hlt), ht⟩⟩

end Assembler

end CellTx
