import CellTx.Proofs.Asking
import CellTx.Proofs.Fees

/-!
# Where a draft stands

What the measure of a draft says as arithmetic on integers, for drafts of any shape. The inputs are
worth something, the outputs beside the change are committed to, and `Draft.leftover` is what is
left of the worth after these and the fee, less than nothing when they are not covered.

Results:
* `Draft.held_eq`, `Draft.change_cases`: what outputs hold, with the change told apart.
* `Draft.leftover?_balance`, `Draft.isSufficient_balance`, `Draft.isExact_balance`: the tests on a
  balance as inequalities.
* `Assembler.run_measure`: as long as the sums of a draft fit 64 bits (`Draft.SumsFit`), a draft is
  measured as what it is; nothing else can fail when the fee estimator has a price for every
  transaction (`Assembler.Prices`).
* `Assembler.run_measure_error`: where a sum does not fit, that is the failure.

Out of scope: estimators that may fail.
-/

namespace CellTx

variable {σ : Type}

theorem Capacity.total_eraseIdx {l : List Cell} {i : Nat} {c : Cell} (h : l[i]? = some c) :
    total (l.map Cell.capacity) =
      total ((l.eraseIdx i).map Cell.capacity) + c.capacity.toNat := by
  induction l generalizing i with
  | nil => exact nomatch h
  | cons x l ih =>
    cases i with
    | zero =>
      obtain rfl := Option.some.inj h
      exact Nat.add_comm _ _
    | succ i =>
      rw [List.eraseIdx_cons_succ, List.map_cons, List.map_cons, total_cons, total_cons, ih h,
        Nat.add_assoc]

namespace Draft

variable {d : Draft} {fee : Nat}

/-! ## Sums as numbers -/

/-- What the inputs are worth. -/
def worth (d : Draft) : Nat := Capacity.total (d.inputs.map DraftInput.worth)

/-- What the outputs hold. -/
def held (d : Draft) : Nat := Capacity.total (d.outputs.map Cell.capacity)

/-- What the outputs hold, the one that receives the change apart. -/
def committed (d : Draft) : Nat :=
  Capacity.total ((d.change.elim d.outputs d.outputs.eraseIdx).map Cell.capacity)

/-- What the change output must hold at least. -/
def changeFloor? (d : Draft) : Option Nat :=
  d.changeOutput?.map fun c => c.occupiedBytes * Capacity.perCkb

/-- What is left of the worth of the inputs after the committed outputs and a fee. -/
def leftover (d : Draft) (fee : Nat) : Int := d.worth - d.committed - fee

/-- Whether a draft that pays a fee needs no more inputs: what is left over is nothing or funds the
change output, or, without one, is something. -/
def Sufficient (d : Draft) (fee : Nat) : Prop :=
  match d.changeFloor? with
  | some floor => d.leftover fee = 0 ∨ floor ≤ d.leftover fee
  | none => 0 < d.leftover fee

/-- Every sum of a draft fits 64 bits. -/
structure SumsFit (d : Draft) : Prop where
  inputs : d.worth < UInt64.size
  outputs : d.held < UInt64.size
  floor : d.changeFloor?.getD 0 < UInt64.size

instance (d : Draft) : Decidable d.SumsFit :=
  decidable_of_iff (d.worth < UInt64.size ∧ d.held < UInt64.size ∧
      d.changeFloor?.getD 0 < UInt64.size)
    ⟨fun ⟨hinputs, houtputs, hfloor⟩ => ⟨hinputs, houtputs, hfloor⟩,
      fun ⟨hinputs, houtputs, hfloor⟩ => ⟨hinputs, houtputs, hfloor⟩⟩

/-- Where a draft that pays a fee stands. -/
def balance (d : Draft) (fee : Nat) : Balance := ⟨d.worth, d.committed + fee, d.changeFloor?⟩

/-! ## The change output -/

/-- The slot of the change is empty, or names an output. -/
theorem change_cases (d : Draft) :
    d.change = none ∨ ∃ i c, d.change = some i ∧ d.outputs[i]? = some c := by
  cases h : d.change with
  | none => exact Or.inl rfl
  | some i => exact Or.inr ⟨i, _, rfl, List.getElem?_eq_getElem (d.change_lt i h)⟩

theorem changeOutput?_of_none (h : d.change = none) : d.changeOutput? = none := by
  rw [changeOutput?, h]
  rfl

theorem changeOutput?_of_some {i : Nat} {c : Cell} (h : d.change = some i)
    (hc : d.outputs[i]? = some c) : d.changeOutput? = some c := by
  rw [changeOutput?, h]
  exact hc

theorem changeFloor?_of_none (h : d.change = none) : d.changeFloor? = none := by
  rw [changeFloor?, changeOutput?_of_none h]
  rfl

theorem changeFloor?_of_some {i : Nat} {c : Cell} (h : d.change = some i)
    (hc : d.outputs[i]? = some c) : d.changeFloor? = some (c.occupiedBytes * Capacity.perCkb) := by
  rw [changeFloor?, changeOutput?_of_some h hc]
  rfl

theorem changeFloor?_eq_none_iff : d.changeFloor? = none ↔ d.change = none := by
  constructor
  · intro h
    rcases d.change_cases with hnone | ⟨i, c, hi, hc⟩
    · exact hnone
    · exact nomatch (changeFloor?_of_some hi hc).symm.trans h
  · exact changeFloor?_of_none

/-- The outputs hold what is committed and what the change holds. -/
theorem held_eq (d : Draft) :
    d.held = d.committed + ((d.changeOutput?.map Cell.capacity).getD 0).toNat := by
  rcases d.change_cases with hnone | ⟨i, c, hi, hc⟩
  · rw [changeOutput?_of_none hnone, committed, hnone]
    rfl
  · rw [changeOutput?_of_some hi hc, committed, hi]
    exact Capacity.total_eraseIdx hc

/-! ## The sums as they are computed -/

theorem committedCapacity_of_lt (h : d.held < UInt64.size) :
    ∃ p : Capacity, d.committedCapacity = .ok p ∧ p.toNat = d.committed := by
  obtain ⟨o, ho⟩ := Capacity.exists_of_lt h
  have hheld := d.held_eq
  obtain ⟨p, hp⟩ := Capacity.exists_of_lt (m := d.committed) (by omega)
  refine ⟨p, except_bind_eq_ok.mpr ⟨o, outputsCapacity_eq_ok.mpr ho, ?_⟩, hp⟩
  exact exactly_eq_ok.mpr (Capacity.sub?_eq_some_iff.mpr (by omega))

theorem exactly_sum?_error {l : List Capacity} (h : ¬ Capacity.total l < UInt64.size) :
    exactly (Capacity.sum? l) = .error .capacityOverflow := by
  rw [Capacity.sum?, Capacity.ofNat?_eq_none_iff.mpr (Nat.le_of_not_lt h)]
  rfl

theorem committedCapacity_error (h : ¬ d.held < UInt64.size) :
    d.committedCapacity = .error .capacityOverflow := by
  rw [committedCapacity, outputsCapacity, exactly_sum?_error h]
  rfl

/-! ## Sufficiency -/

theorem leftover?_balance (d : Draft) (fee : Nat) :
    (0 ≤ d.leftover fee ∧ (d.balance fee).leftover? = some (d.leftover fee).toNat) ∨
      (d.leftover fee < 0 ∧ (d.balance fee).leftover? = none) := by
  unfold Balance.leftover? balance leftover
  dsimp only
  split
  · exact Or.inl ⟨by omega, congrArg some (by omega)⟩
  · exact Or.inr ⟨by omega, rfl⟩

theorem isSufficient_balance (d : Draft) (fee : Nat) :
    (d.balance fee).isSufficient = true ↔ d.Sufficient fee := by
  unfold Balance.isSufficient Sufficient
  rcases d.leftover?_balance fee with ⟨hle, h⟩ | ⟨hlt, h⟩
  · rw [h]
    dsimp only [balance]
    cases d.changeFloor? with
    | none =>
      simp only [decide_eq_true_eq]
      omega
    | some floor =>
      simp only [Bool.or_eq_true, decide_eq_true_eq]
      omega
  · rw [h]
    refine iff_of_false Bool.false_ne_true ?_
    cases d.changeFloor? with
    | none =>
      simp only
      omega
    | some floor =>
      simp only
      omega

instance (d : Draft) (fee : Nat) : Decidable (d.Sufficient fee) :=
  decidable_of_iff _ (d.isSufficient_balance fee)

theorem isExact_balance (d : Draft) (fee : Nat) :
    (d.balance fee).isExact = true ↔ d.change = none ∧ d.leftover fee = 0 := by
  rw [Balance.isExact, Bool.and_eq_true, Option.isNone_iff_eq_none, decide_eq_true_eq]
  refine and_congr changeFloor?_eq_none_iff ?_
  rcases d.leftover?_balance fee with ⟨hle, h⟩ | ⟨hlt, h⟩
  · rw [h, Option.some.injEq]
    omega
  · rw [h]
    exact iff_of_false (Option.some_ne_none 0).symm (by omega)

end Draft

/-! ## Measuring -/

namespace Assembler

variable {a : Assembler σ} {price : Transaction → Capacity} {d : Draft}

/-- The estimator answers with the price of a transaction, and that is all it does. -/
def Prices (a : Assembler σ) (price : Transaction → Capacity) : Prop :=
  ∀ t s, (a.estimator t a.feeRate).run.run s = (.ok (price t), s)

/-- The estimator by size has a price for every transaction. -/
theorem prices_bySize (h : a.estimator = Fee.bySize) :
    a.Prices fun t => Fee.ofSize t.size a.feeRate := by
  intro t s
  rw [h]
  rfl

theorem Prices.run_estimate (ha : a.Prices price) (d : Draft) (s : σ) :
    (a.estimate d).run.run s = (.ok (price d.transaction), s) := by
  rw [estimate, run_ask, ha]
  rfl

/-- A draft is measured as what it is, when its sums fit. -/
theorem run_measure (ha : a.Prices price) (hfit : d.SumsFit) (s : σ) :
    (a.measure d).run.run s = (.ok (d.balance (price d.transaction).toNat), s) := by
  obtain ⟨p, hcommitted, hp⟩ := Draft.committedCapacity_of_lt hfit.outputs
  obtain ⟨w, hw⟩ := Capacity.exists_of_lt hfit.inputs
  have hinputs : d.inputsCapacity = .ok w := Draft.inputsCapacity_eq_ok.mpr hw
  rw [measure, run_bind_ok (ha.run_estimate d s), hcommitted, Draft.balance, ← hp, ← hw,
    Draft.changeFloor?, hinputs]
  cases hc : d.changeOutput? with
  | none => rfl
  | some c =>
    have hfloor := hfit.floor
    rw [Draft.changeFloor?, hc] at hfloor
    obtain ⟨o, ho⟩ := Capacity.exists_of_lt hfloor
    have hoccupied : c.occupied? = some o := Cell.occupied?_eq_some_iff.mpr ho
    simp only [hoccupied, Option.map_some, ← Cell.occupied?_eq_some_iff.mp hoccupied]
    rfl

/-- A draft whose sums do not fit cannot be measured. -/
theorem run_measure_error (ha : a.Prices price) (hfit : ¬ d.SumsFit) (s : σ) :
    (a.measure d).run.run s = (.error .capacityOverflow, s) := by
  rw [measure, run_bind_ok (ha.run_estimate d s)]
  by_cases houtputs : d.held < UInt64.size
  · obtain ⟨p, hcommitted, -⟩ := Draft.committedCapacity_of_lt houtputs
    have hinputs : ¬ d.changeFloor?.getD 0 < UInt64.size ∨
        d.inputsCapacity = .error .capacityOverflow := by
      by_cases hfloor : d.changeFloor?.getD 0 < UInt64.size
      · exact Or.inr (Draft.exactly_sum?_error fun hinputs => hfit ⟨hinputs, houtputs, hfloor⟩)
      · exact Or.inl hfloor
    rw [hcommitted]
    cases hc : d.changeOutput? with
    | none =>
      rw [Draft.changeFloor?, hc] at hinputs
      rw [hinputs.resolve_left fun h => h (by decide)]
      rfl
    | some c =>
      rw [Draft.changeFloor?, hc] at hinputs
      cases ho : c.occupied? with
      | none => simp only [ho]; rfl
      | some o =>
        rw [Option.map_some, Option.getD_some, ← Cell.occupied?_eq_some_iff.mp ho] at hinputs
        rw [hinputs.resolve_left fun h => h (Capacity.toNat_lt o)]
        simp only [ho]
        rfl
  · rw [Draft.committedCapacity_error houtputs]
    rfl

end Assembler

end CellTx
