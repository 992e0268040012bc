import CellTx.Proofs.InPlace
import CellTx.Proofs.Standing

/-!
# What settling the change does

Settling measures a draft and then writes once, so that all it can come to is said by one case
analysis (`Settled`): the change output gets what is left over, or goes when that cannot fund it, or
nothing happens (specification, section 4.3).

Results:
* `InPlace.settled`: settling comes to one of these, or fails and leaves the draft as it was.
* `Settled.fee_funded`, `Settled.fee_dropped`: the size of a transaction does not depend on
  capacities, so the estimate of a draft whose change was funded is what it was.
* `Settled.again`: what is left over does not depend on what the change output holds, so settling a
  second time writes the same capacity again.
* `Assembler.settleChange_exact`: all of it in integers, for drafts of any shape with an estimator
  that has a price for every transaction.

Out of scope: what is burnt along a whole construction (`CellTx.Proofs.Fees`).
-/

namespace CellTx

variable {σ : Type}

namespace Draft

variable {d d' : Draft} {i : Nat} {c : Cell}

/-! ## A change output that is written -/

theorem changeOutput?_setOutput (hi : d.change = some i) (c : Cell) :
    (d.setOutput i c).changeOutput? = some c := by
  refine changeOutput?_of_some (i := i) hi ?_
  exact List.getElem?_set_self (d.change_lt i hi)

theorem committed_setOutput (hi : d.change = some i) (c : Cell) :
    (d.setOutput i c).committed = d.committed := by
  rw [committed, committed, change_setOutput, hi]
  exact congrArg (fun l => Capacity.total (l.map Cell.capacity)) List.eraseIdx_set_eq

/-- What is left over does not depend on what the change output holds. -/
theorem leftover_setOutput (hi : d.change = some i) (c : Cell) (fee : Nat) :
    (d.setOutput i c).leftover fee = d.leftover fee := by
  rw [leftover, leftover, committed_setOutput hi]
  rfl

theorem setOutput_setOutput (d : Draft) (i : Nat) (c c' : Cell) :
    (d.setOutput i c).setOutput i c' = d.setOutput i c' := by
  have houtputs : (d.outputs.set i c).set i c' = d.outputs.set i c' := List.set_set ..
  simp only [setOutput, houtputs]

/-- An output that is written with one of the same weight leaves the size alone. -/
theorem size_setOutput (hc : d.outputs[i]? = some c) {c' : Cell} (h : c'.weight = c.weight) :
    (d.setOutput i c').transaction.size = d.transaction.size := by
  rw [transaction_setOutput]
  refine Transaction.size_withOutputs d.transaction ?_
  obtain ⟨hlt, rfl⟩ := List.getElem?_eq_some_iff.mp hc
  have hlt' : i < (d.outputs.map Cell.weight).length := by rwa [List.length_map]
  have hget : (d.outputs.map Cell.weight)[i] = d.outputs[i].weight := List.getElem_map _
  rw [List.map_set, h, ← hget, List.set_getElem_self]
  rfl

/-- The size does not depend on the capacity of an output. -/
theorem size_setCapacity (hc : d.outputs[i]? = some c) (capacity : Capacity) :
    (d.setOutput i { c with capacity := capacity }).transaction.size = d.transaction.size := by
  refine size_setOutput hc ?_
  rw [Cell.weight, Cell.weight, Cell.length_serialize, Cell.length_serialize]

/-- The fee is what the inputs are worth beyond what the outputs hold. -/
theorem fee_of_worth_eq {f : Capacity} (hfit : d.worth < UInt64.size)
    (h : d.worth = d.held + f.toNat) : d.fee = .ok f := by
  obtain ⟨w, hw⟩ := Capacity.exists_of_lt hfit
  obtain ⟨o, ho⟩ := Capacity.exists_of_lt (m := d.held) (by omega)
  refine except_bind_eq_ok.mpr ⟨w, inputsCapacity_eq_ok.mpr hw, except_bind_eq_ok.mpr
    ⟨o, outputsCapacity_eq_ok.mpr ho, exactly_eq_ok.mpr (Capacity.sub?_eq_some_iff.mpr ?_)⟩⟩
  omega

end Draft

/-! ## All that settling comes to -/

/-- What settling the change of a draft comes to when the fee of its shape is `est`: a result, and
the draft afterwards. -/
inductive Settled (est : Capacity) (d : Draft) : Except Failure Unit → Draft → Prop
  | changeless (change : d.change = none) : Settled est d (.ok ()) d
  | funded {i : Nat} {c : Cell} {capacity : Capacity} (change : d.change = some i)
      (output : d.outputs[i]? = some c) (fit : d.SumsFit)
      (left : (capacity.toNat : Int) = d.leftover est.toNat)
      (reached : c.occupiedBytes * Capacity.perCkb ≤ capacity.toNat) :
      Settled est d (.ok ()) (d.setOutput i { c with capacity := capacity })
  | dropped {i left : Nat} {c : Cell} {d' : Draft} (change : d.change = some i)
      (output : d.outputs[i]? = some c) (fit : d.SumsFit)
      (left_eq : (left : Int) = d.leftover est.toNat)
      (missed : left < c.occupiedBytes * Capacity.perCkb) (removed : d.removeOutput i = .ok d') :
      Settled est d (.ok ()) d'
  | short {f : Failure} {i : Nat} (change : d.change = some i)
      (uncovered : ¬ (d.SumsFit ∧ 0 ≤ d.leftover est.toNat)) : Settled est d (.error f) d

namespace Settled

variable {est : Capacity} {d d' : Draft} {i : Nat} {c : Cell} {capacity : Capacity}

/-- What the outputs hold when the change got what was left over. -/
theorem held_funded (change : d.change = some i) (c : Cell) :
    (d.setOutput i c).held = d.committed + c.capacity.toNat := by
  rw [Draft.held_eq, Draft.committed_setOutput change, Draft.changeOutput?_setOutput change]
  rfl

/-- A draft whose change was funded can be measured again. -/
theorem fit_funded (change : d.change = some i) (output : d.outputs[i]? = some c)
    (fit : d.SumsFit) (left : (capacity.toNat : Int) = d.leftover est.toNat) :
    (d.setOutput i { c with capacity := capacity }).SumsFit where
  inputs := fit.inputs
  outputs := by
    have hinputs := fit.inputs
    have hheld := held_funded change { c with capacity := capacity }
    rw [Draft.leftover] at left
    dsimp only at hheld
    omega
  floor := by
    have hfloor := fit.floor
    rw [Draft.changeFloor?_of_some change output] at hfloor
    rwa [Draft.changeFloor?, Draft.changeOutput?_setOutput change]

/-- A funded change leaves exactly the estimate as the fee. -/
theorem fee_funded (change : d.change = some i) (fit : d.SumsFit)
    (left : (capacity.toNat : Int) = d.leftover est.toNat) :
    (d.setOutput i { c with capacity := capacity }).fee = .ok est := by
  refine Draft.fee_of_worth_eq fit.inputs ?_
  rw [held_funded change]
  rw [Draft.leftover] at left
  change d.worth = d.committed + capacity.toNat + est.toNat
  omega

/-- What a dropped change leaves is paid on top of the estimate. -/
theorem fee_dropped {left : Nat} (change : d.change = some i) (fit : d.SumsFit)
    (left_eq : (left : Int) = d.leftover est.toNat) (removed : d.removeOutput i = .ok d') :
    ∃ fee : Capacity, d'.fee = .ok fee ∧ fee.toNat = est.toNat + left := by
  obtain ⟨hinputs, houtputs, -⟩ := Draft.removeOutput_eq_ok removed
  have hworth : d'.worth = d.worth := by rw [Draft.worth, hinputs, Draft.worth]
  have hheld : d'.held = d.committed := by
    rw [Draft.held, houtputs, Draft.committed, change]
    rfl
  have hfit := fit.inputs
  rw [Draft.leftover] at left_eq
  obtain ⟨fee, hfee⟩ := Capacity.exists_of_lt (m := est.toNat + left) (by omega)
  exact ⟨fee, Draft.fee_of_worth_eq (hworth ▸ hfit) (by omega), hfee⟩

/-- A draft that was settled is settled: doing it again, with the fee of its shape then, changes
nothing. -/
theorem again {price : Transaction → Capacity} {r : Except Failure Unit} {d'' : Draft}
    (hprice : ∀ t u, t.size = u.size → price t = price u)
    (h : Settled (price d.transaction) d (.ok ()) d')
    (h' : Settled (price d'.transaction) d' r d'') : r = .ok () ∧ d'' = d' := by
  cases h with
  | changeless change =>
    cases h' with
    | changeless => exact ⟨rfl, rfl⟩
    | funded change' | dropped change' | short change' => cases change.symm.trans change'
  | dropped change _ _ _ _ removed =>
    have hchange : d'.change = none := by
      rw [(Draft.removeOutput_eq_ok removed).2.2, change, Draft.shiftChange, if_pos rfl]
    cases h' with
    | changeless => exact ⟨rfl, rfl⟩
    | funded change' | dropped change' | short change' => cases hchange.symm.trans change'
  | @funded i c capacity change output fit left reached =>
    have hest : price (d.setOutput i { c with capacity := capacity }).transaction =
        price d.transaction := hprice _ _ (Draft.size_setCapacity output capacity)
    have houtput : (d.setOutput i { c with capacity := capacity }).outputs[i]? =
        some { c with capacity := capacity } := List.getElem?_set_self (d.change_lt i change)
    have hleft : (capacity.toNat : Int) =
        (d.setOutput i { c with capacity := capacity }).leftover (price d.transaction).toNat := by
      rw [Draft.leftover_setOutput change, left]
    rw [hest] at h'
    cases h' with
    | changeless change' => cases change.symm.trans change'
    | short _ uncovered =>
      exact absurd ⟨fit_funded change output fit left, hleft ▸ Int.natCast_nonneg _⟩ uncovered
    | funded change' output' _ left' =>
      obtain rfl := Option.some.inj (change.symm.trans change')
      obtain rfl := Option.some.inj (houtput.symm.trans output')
      have hcapacity := Int.ofNat.inj (left'.trans hleft.symm)
      rw [UInt64.toNat_inj.mp hcapacity, Draft.setOutput_setOutput]
      exact ⟨rfl, rfl⟩
    | dropped change' output' _ left_eq missed =>
      obtain rfl := Option.some.inj (change.symm.trans change')
      obtain rfl := Option.some.inj (houtput.symm.trans output')
      have hcapacity := Int.ofNat.inj (left_eq.trans hleft.symm)
      exact absurd (hcapacity ▸ reached) (Nat.not_le_of_lt missed)

end Settled

namespace InPlace

open Edit Assembler

variable {a : Assembler σ} {price : Transaction → Capacity}

theorem settled (ha : a.Prices price) (d : Draft) (s : σ) :
    ∃ r d', (settleChange a).on d s = (r, d', s) ∧ Settled (price d.transaction) d r d' := by
  rw [settleChange, on_bind_ok _ (on_draft d s)]
  rcases d.change_cases with hnone | ⟨i, c, hi, hc⟩
  · rw [hnone]
    exact ⟨.ok (), d, rfl, .changeless hnone⟩
  rw [hi]
  dsimp only
  by_cases hfit : d.SumsFit
  case neg =>
    have hmeasure : (look (a.measure d)).on d s = (.error .capacityOverflow, d, s) := by
      rw [on_look, run_measure_error ha hfit]
    exact ⟨_, d, on_bind_error _ hmeasure, .short hi fun h => hfit h.1⟩
  have hmeasure : (look (a.measure d)).on d s =
      (.ok (d.balance (price d.transaction).toNat), d, s) := by
    rw [on_look, run_measure ha hfit]
  rw [on_bind_ok _ hmeasure]
  rcases d.leftover?_balance (price d.transaction).toNat with ⟨hle, hleft⟩ | ⟨hlt, hleft⟩
  case inr =>
    rw [hleft, on_bind_error _ (on_look_demand_none _ d s)]
    exact ⟨_, d, rfl, .short hi fun h => absurd h.2 (by omega)⟩
  -- what is left over is part of what the inputs are worth
  obtain ⟨capacity, hcapacity⟩ :=
    Capacity.exists_of_lt (m := (d.leftover (price d.transaction).toNat).toNat) (by
      have := hfit.inputs
      rw [Draft.leftover]
      omega)
  have hexact : (capacity.toNat : Int) = d.leftover (price d.transaction).toNat := by omega
  obtain ⟨o, ho⟩ := Capacity.exists_of_lt (m := c.occupiedBytes * Capacity.perCkb) (by
    have := hfit.floor
    rwa [Draft.changeFloor?_of_some hi hc] at this)
  have hoccupied : d.occupied i = .ok o :=
    Draft.occupied_eq_ok.mpr ⟨c, hc, Cell.occupied?_eq_some_iff.mpr ho⟩
  rw [hleft, on_bind_ok _ (on_look_demand _ _ d s), Capacity.ofNat?_eq_some_iff.mpr hcapacity,
    on_bind_ok _ (on_look_demand _ _ d s), hoccupied, on_bind_ok _ (on_look_ofExcept _ d s)]
  have hfloor : o ≤ capacity ↔ c.occupiedBytes * Capacity.perCkb ≤ capacity.toNat := by
    rw [UInt64.le_iff_toNat_le, ho]
  split
  · rename_i hreached
    have hset : d.setCapacity i capacity = .ok (d.setOutput i { c with capacity := capacity }) :=
      Draft.setCapacity_eq_ok.mpr ⟨c, hc, rfl⟩
    exact ⟨_, _, on_apply_ok s hset, .funded hi hc hfit hexact (hfloor.mp hreached)⟩
  · rename_i hmissed
    obtain ⟨d', hremoved, -⟩ := Draft.removeOutput_of_lt (d.change_lt i hi)
    refine ⟨_, _, on_apply_ok s hremoved, .dropped hi hc hfit hexact
      (Nat.lt_of_not_le (mt hfloor.mpr hmissed)) hremoved⟩

end InPlace

/-! ## Under the fee by size -/

/-- The fee by size of a draft in its current shape. -/
def Draft.sizeFee (d : Draft) (rate : UInt64) : Capacity := Fee.ofSize d.transaction.size rate

/-- What a draft becomes when its change, the output `c` at `i`, is settled. -/
structure SettledExactly (rate : UInt64) (i : Nat) (c : Cell) (d d' : Draft) : Prop where
  covered : 0 ≤ d.leftover (d.sizeFee rate).toNat
  /-- What is left over funds the change output, which gets all of it. -/
  funded : (c.occupiedBytes * Capacity.perCkb : Nat) ≤ d.leftover (d.sizeFee rate).toNat →
    ∃ capacity : Capacity, (capacity.toNat : Int) = d.leftover (d.sizeFee rate).toNat ∧
      d' = d.setOutput i { c with capacity := capacity } ∧
      d'.fee = .ok (d.sizeFee rate) ∧ d'.sizeFee rate = d.sizeFee rate
  /-- What is left over cannot fund the change output, which goes; it is paid with the fee. -/
  dropped : d.leftover (d.sizeFee rate).toNat < (c.occupiedBytes * Capacity.perCkb : Nat) →
    d.DiffersInOutputs d' ∧ d'.outputs = d.outputs.eraseIdx i ∧ d'.change = none ∧
      ∃ fee : Capacity, d'.fee = .ok fee ∧
        (fee.toNat : Int) = (d.sizeFee rate).toNat + d.leftover (d.sizeFee rate).toNat

theorem Settled.exactly {rate : UInt64} {d d' : Draft} {i : Nat} {c : Cell}
    (change : d.change = some i) (output : d.outputs[i]? = some c)
    (h : Settled (d.sizeFee rate) d (.ok ()) d') : SettledExactly rate i c d d' := by
  cases h with
  | changeless change' => exact nomatch change.symm.trans change'
  | @funded i' c' capacity change' output' fit left reached =>
    obtain rfl := Option.some.inj (change.symm.trans change')
    obtain rfl := Option.some.inj (output.symm.trans output')
    refine ⟨by omega, fun _ => ⟨capacity, left, rfl, fee_funded change fit left, ?_⟩,
      fun hlt => absurd hlt (by omega)⟩
    exact congrArg (Fee.ofSize · rate) (Draft.size_setCapacity output capacity)
  | @dropped i' left c' d' change' output' fit left_eq missed removed =>
    obtain rfl := Option.some.inj (change.symm.trans change')
    obtain rfl := Option.some.inj (output.symm.trans output')
    obtain ⟨fee, hfee, hsum⟩ := fee_dropped change fit left_eq removed
    obtain ⟨removed', h, hdiffers, houtputs, hchange⟩ :=
      Draft.removeOutput_of_lt (d.change_lt i change)
    obtain rfl := Except.ok.inj (removed.symm.trans h)
    refine ⟨by omega, fun hle => absurd hle (by omega), fun _ => ⟨hdiffers, houtputs, ?_, fee,
      hfee, by omega⟩⟩
    rw [hchange, change, Draft.shiftChange, if_pos rfl]

/-- Settling the change settles exactly, once, and touches nothing else. A draft without change
output stays as it is. One with a change output is settled when its sums fit and its inputs cover
what is committed and the fee (`SettledExactly`). What fails leaves the draft alone, and a second
time changes nothing. -/
theorem Assembler.settleChange_exact {a : Assembler σ} (hf : a.estimator = Fee.bySize) (d : Draft)
    (s : σ) :
    Prod.snd <$> (InPlace.settleChange a).returned d = a.settleChange d ∧
    ∃ r d', (InPlace.settleChange a).on d s = (r, d', s) ∧
      (d.change = none → r = .ok () ∧ d' = d) ∧
      (∀ i c, d.change = some i → d.outputs[i]? = some c →
        (r = .ok () ↔ d.SumsFit ∧ 0 ≤ d.leftover (d.sizeFee a.feeRate).toNat) ∧
        (r = .ok () → SettledExactly a.feeRate i c d d')) ∧
      (∀ f, r = .error f → d' = d) ∧
      (InPlace.settleChange a).on d' s = (r, d', s) := by
  refine ⟨InPlace.returned_settleChange a d, ?_⟩
  obtain ⟨r, d', hon, h⟩ := InPlace.settled (prices_bySize hf) d s
  refine ⟨r, d', hon, fun hnone => ?_, fun i c hi hc => ⟨?_, ?_⟩, ?_, ?_⟩
  · cases h with
    | changeless => exact ⟨rfl, rfl⟩
    | funded change | dropped change | short change => exact nomatch hnone.symm.trans change
  · cases h with
    | changeless change => exact nomatch change.symm.trans hi
    | funded _ _ fit left => exact iff_of_true rfl ⟨fit, left ▸ Int.natCast_nonneg _⟩
    | dropped _ _ fit left_eq => exact iff_of_true rfl ⟨fit, left_eq ▸ Int.natCast_nonneg _⟩
    | short _ uncovered => exact iff_of_false nofun uncovered
  · rintro rfl
    exact h.exactly hi hc
  · rintro f rfl
    cases h
    rfl
  · cases r with
    | error f =>
      cases h
      exact hon
    | ok u =>
      obtain ⟨r', d'', hagain, h'⟩ := InPlace.settled (prices_bySize hf) d' s
      have hprice : ∀ t u : Transaction, t.size = u.size →
          Fee.ofSize t.size a.feeRate = Fee.ofSize u.size a.feeRate :=
        fun t u h => congrArg (Fee.ofSize · a.feeRate) h
      obtain ⟨rfl, rfl⟩ := h.again hprice h'
      exact hagain

/-- A draft that spends one plain cell, all for its change. -/
def Draft.changing (capacity : Capacity) : Draft :=
  (Draft.empty.addChange (Cell.plain (.ofByte 1) 0)).consume
    ⟨⟨Hash.zero, 0⟩, Cell.plain (.ofByte 1) capacity, 0, 0⟩

/-- A hundred CKB fund the change, fifty are paid as the fee. -/
theorem Assembler.settleChange_exact_changing :
    ∃ a : Assembler Nat, a.estimator = Fee.bySize ∧
      (∃ d', (InPlace.settleChange a).on (.changing 10000000000) 0 = (.ok (), d', 0) ∧
        SettledExactly a.feeRate 0 (.plain (.ofByte 1) 0) (.changing 10000000000) d' ∧
        d'.change = some 0) ∧
      ∃ d', (InPlace.settleChange a).on (.changing 5000000000) 0 = (.ok (), d', 0) ∧
        SettledExactly a.feeRate 0 (.plain (.ofByte 1) 0) (.changing 5000000000) d' ∧
        d'.outputs = [] := by
  refine ⟨.onChain .new, rfl, ?_, ?_⟩
  · obtain ⟨-, r, d', hon, -, hchange, -⟩ :=
      settleChange_exact (a := .onChain .new) rfl (.changing 10000000000) 0
    obtain ⟨hok, hexactly⟩ := hchange 0 _ rfl rfl
    obtain rfl := hok.mpr (by decide +kernel)
    obtain ⟨_, -, hd', -⟩ := (hexactly rfl).funded (by decide +kernel)
    exact ⟨d', hon, hexactly rfl, by rw [hd']; rfl⟩
  · obtain ⟨-, r, d', hon, -, hchange, -⟩ :=
      settleChange_exact (a := .onChain .new) rfl (.changing 5000000000) 0
    obtain ⟨hok, hexactly⟩ := hchange 0 _ rfl rfl
    obtain rfl := hok.mpr (by decide +kernel)
    obtain ⟨-, houtputs, -⟩ := (hexactly rfl).dropped (by decide +kernel)
    exact ⟨d', hon, hexactly rfl, by rw [houtputs]; rfl⟩

end CellTx
