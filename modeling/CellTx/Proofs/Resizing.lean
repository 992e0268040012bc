import CellTx.Proofs.Operations
import CellTx.Proofs.Settling

/-!
# What operations do to the size

The size of a draft is the sum of what its parts weigh, so each operation moves it in a direction of
its own: what is added makes the transaction larger, an output less makes it smaller, and capacities
have no part in it. The fee by size follows.

Results:
* `Draft.size_eq`: the size as a sum of weights.
* `Draft.Operation.resizes`: the direction of each operation, as one table
  (`Draft.Operation.Resizes`).
* `Draft.fee_removeOutput`: a draft that pays enough still does when its change output is dropped.
* `Draft.size_follows_shape`: all of it, and that the fee stays when the change is written.

Out of scope: how far an operation moves the size, beyond the weights.
-/

namespace CellTx

variable {σ : Type}

/-- The bytes that an input adds to a transaction: its binary form, its witness, and the length and
the offset of the witness. -/
def DraftInput.weight (i : DraftInput) : Nat := 52 + i.witnessBytes.length

theorem Cell.weight_pos (c : Cell) : 0 < c.weight := by
  rw [weight, Nat.add_assoc]
  exact Nat.add_pos_left (by decide) _

namespace Draft

/-- The size is linear in the parts of a draft. -/
theorem size_eq (d : Draft) :
    d.transaction.size = 72 + 37 * d.cellDeps.length + 32 * d.headerDeps.length +
      (d.inputs.map DraftInput.weight).sum + (d.outputs.map Cell.weight).sum := by
  have hinputs : ∀ inputs : List DraftInput,
      44 * inputs.length + (inputs.map fun i => 8 + i.witnessBytes.length).sum =
        (inputs.map DraftInput.weight).sum := by
    intro inputs
    induction inputs with
    | nil => rfl
    | cons i inputs ih =>
      simp only [List.length_cons, List.map_cons, List.sum_cons, DraftInput.weight] at ih ⊢
      omega
  have := hinputs d.inputs
  rw [Transaction.size_eq]
  simp only [transaction, List.length_map, List.map_map, Function.comp_def]
  omega

/-! ## One operation -/

/-- How an operation moves the size of a draft from `m` to `n`. -/
def Operation.Resizes (d : Draft) (m n : Nat) : Operation → Prop
  | addInput _ _ _ _ | addInputWorth _ _ _ _ _ | addOutput _ | addChange _ => m < n
  | removeOutput _ => n < m
  | addHeaderDep _ | addCellDep _ => m ≤ n
  | setVersion _ | setCapacity _ _ | raiseToOccupied _ => n = m
  | setData i data => ∀ c, d.outputs[i]? = some c → c.data.length = data.length → n = m

theorem size_le_addHeaderDep (d : Draft) (hash : Hash) :
    d.transaction.size ≤ (d.addHeaderDep hash).2.transaction.size := by
  unfold addHeaderDep
  split
  · exact Nat.le_refl _
  · rw [size_eq, size_eq]
    simp only [List.length_append]
    omega

theorem size_le_addCellDep (d : Draft) (dep : CellDep) :
    d.transaction.size ≤ (d.addCellDep dep).transaction.size := by
  unfold addCellDep
  split
  · exact Nat.le_refl _
  · rw [size_eq, size_eq]
    simp only [List.length_append]
    omega

/-- An input more is larger. -/
theorem size_lt_addInputWorth (d : Draft) (outPoint : OutPoint) (cell : Cell) (since : Since)
    (inputType : Option Bytes) (worth : Capacity) :
    d.transaction.size <
      (d.addInputWorth outPoint cell since inputType worth).transaction.size := by
  rw [size_eq, size_eq]
  simp only [addInputWorth, List.map_append, List.map_cons, List.map_nil, List.sum_append,
    List.sum_singleton, DraftInput.weight]
  omega

/-- What goes with an output is its weight. -/
theorem size_removeOutput {d d' : Draft} {i : Nat} (h : d.removeOutput i = .ok d') :
    ∃ c, d.outputs[i]? = some c ∧ d.transaction.size = c.weight + d'.transaction.size := by
  have hlt : i < d.outputs.length := by
    refine Nat.lt_of_not_le fun hge => ?_
    unfold removeOutput at h
    rw [dif_neg (Nat.not_lt_of_le hge)] at h
    exact nomatch h
  obtain ⟨removed, hremoved, hdiffers, houtputs, -⟩ := removeOutput_of_lt hlt
  obtain rfl := Except.ok.inj (h.symm.trans hremoved)
  refine ⟨d.outputs[i], List.getElem?_eq_getElem hlt, ?_⟩
  have hlt' : i < (d.outputs.map Cell.weight).length := by rwa [List.length_map]
  have hsum := List.add_sum_eraseIdx hlt' fun _ _ => AddCommute.all _ _
  rw [List.getElem_map, List.eraseIdx_map] at hsum
  rw [size_eq, size_eq, hdiffers.cellDeps, hdiffers.headerDeps, hdiffers.inputs, houtputs]
  omega

theorem Operation.resizes {d d' : Draft} {o : Operation} (h : o.after d = some d') :
    o.Resizes d d.transaction.size d'.transaction.size := by
  cases o with
  | setVersion version =>
    obtain rfl := Option.some.inj h
    rw [Resizes, size_eq, size_eq]
    rfl
  | addHeaderDep hash =>
    obtain rfl := Option.some.inj h
    exact d.size_le_addHeaderDep hash
  | addCellDep dep =>
    obtain rfl := Option.some.inj h
    exact d.size_le_addCellDep dep
  | addInput p cell since inputType =>
    obtain rfl := Option.some.inj h
    exact d.size_lt_addInputWorth p cell since inputType cell.capacity
  | addInputWorth p cell since inputType worth =>
    obtain rfl := Option.some.inj h
    exact d.size_lt_addInputWorth p cell since inputType worth
  | addOutput cell | addChange cell =>
    obtain rfl := Option.some.inj h
    exact d.transaction.size_lt_append cell
  | removeOutput i =>
    obtain ⟨c, -, hsize⟩ := size_removeOutput (after_removeOutput_eq_some_iff.mp h)
    rw [Resizes, hsize]
    exact Nat.lt_add_of_pos_left c.weight_pos
  | setCapacity i capacity =>
    rw [after_setCapacity] at h
    obtain ⟨c, hc, rfl⟩ := Option.map_eq_some_iff.mp h
    exact size_setCapacity hc capacity
  | raiseToOccupied i =>
    rw [after_raiseToOccupied] at h
    obtain ⟨c, hc, rfl⟩ := Option.map_eq_some_iff.mp h
    rw [Cell.raised]
    exact size_setCapacity hc _
  | setData i data =>
    rw [after_setData] at h
    obtain ⟨c, hc, rfl⟩ := Option.map_eq_some_iff.mp h
    intro c' hc' hlength
    obtain rfl := Option.some.inj (hc.symm.trans hc')
    refine size_setOutput hc ?_
    rw [Cell.weight, Cell.weight, Cell.length_serialize, Cell.length_serialize, hlength]

/-! ## What a draft pays -/

/-- What an output held is paid as fee when it is gone. -/
theorem fee_removeOutput {d d' : Draft} {i : Nat} {paid : Capacity}
    (h : d.removeOutput i = .ok d') (hpaid : d.fee = .ok paid) :
    ∃ c paid', d.outputs[i]? = some c ∧ d'.fee = .ok paid' ∧
      paid'.toNat = paid.toNat + c.capacity.toNat := by
  obtain ⟨c, hc, -⟩ := size_removeOutput h
  obtain ⟨hinputs, houtputs, -⟩ := removeOutput_eq_ok h
  have hworth : d'.worth = d.worth := by rw [worth, worth, hinputs]
  have hheld : d.held = d'.held + c.capacity.toNat := by
    rw [held, held, houtputs]
    exact Capacity.total_eraseIdx hc
  have hfit : d.worth < UInt64.size := by
    obtain ⟨inputs, hi, -⟩ := except_bind_eq_ok.mp hpaid
    rw [worth, ← inputsCapacity_eq_ok.mp hi]
    exact inputs.toNat_lt
  have hbalance : d.worth = d.held + paid.toNat := fee_eq_ok hpaid
  obtain ⟨paid', hpaid'⟩ := Capacity.exists_of_lt (m := paid.toNat + c.capacity.toNat) (by omega)
  exact ⟨c, paid', hc, fee_of_worth_eq (hworth ▸ hfit) (by omega), hpaid'⟩

end Draft

/-- The fee by size follows the shape of a draft. Every operation that is not about a missing output
moves the size in the direction it should. The fee does not fall when the size or the rate grows. A
draft that pays what it must still does when its change output is dropped, and must pay the same
when a capacity is written there. -/
theorem Draft.size_follows_shape (d : Draft) :
    (∀ o : Operation, (∀ i, o.place? = some i → i < d.outputs.length) →
      ∃ d', o.after d = some d' ∧ o.Resizes d d.transaction.size d'.transaction.size) ∧
    (∀ (t t' : Transaction) (rate rate' : UInt64), t.size ≤ t'.size → rate ≤ rate' →
      ∃ fee fee', (Fee.bySize t rate : Query σ Capacity) = pure fee ∧
        (Fee.bySize t' rate' : Query σ Capacity) = pure fee' ∧ fee ≤ fee') ∧
    ∀ (a : Assembler σ) (i : Nat), a.estimator = Fee.bySize → d.change = some i →
      (∃ d', d.removeOutput i = .ok d' ∧ d'.change = none ∧
        ∀ least paid, Yields (a.estimate d) least → d.fee = .ok paid → least ≤ paid →
          ∃ least' paid', Ends (a.estimate d') (.ok least') ∧ d'.fee = .ok paid' ∧
            least' ≤ paid ∧ paid ≤ paid') ∧
      ∀ capacity, ∃ d', d.setCapacity i capacity = .ok d' ∧ a.estimate d' = a.estimate d := by
  refine ⟨fun o hplace => ?_, fun t t' rate rate' hsize hrate =>
    ⟨_, _, rfl, rfl, Fee.ofSize_mono hsize hrate⟩, fun a i hf hi => ⟨?_, fun capacity => ?_⟩⟩
  · have hsome : o.after d ≠ none := fun hnone => by
      obtain ⟨i, hi, hge⟩ := (Operation.after_eq_none_iff d o).mp hnone
      exact absurd (hplace i hi) (Nat.not_lt_of_le hge)
    obtain ⟨d', hd'⟩ := Option.ne_none_iff_exists'.mp hsome
    exact ⟨d', hd', Operation.resizes hd'⟩
  · obtain ⟨d', hremoved, -, -, hchange⟩ := removeOutput_of_lt (d.change_lt i hi)
    refine ⟨d', hremoved, ?_, fun least paid hleast hpaid hle => ?_⟩
    · rw [hchange, hi, shiftChange, if_pos rfl]
    obtain ⟨c, paid', -, hpaid', hsum⟩ := fee_removeOutput hremoved hpaid
    obtain ⟨_, -, hsize⟩ := size_removeOutput hremoved
    have hsmaller : d'.transaction.size ≤ d.transaction.size := by omega
    have hmore : paid ≤ paid' := UInt64.le_iff_toNat_le.mpr (by omega)
    refine ⟨_, paid', Assembler.ends_estimate hf d', hpaid', ?_, hmore⟩
    calc Fee.ofSize d'.transaction.size a.feeRate
        ≤ Fee.ofSize d.transaction.size a.feeRate := Fee.ofSize_mono hsmaller UInt64.le_rfl
      _ = least := (Assembler.estimate_eq hf hleast).symm
      _ ≤ paid := hle
  · obtain ⟨c, hc⟩ : ∃ c, d.outputs[i]? = some c :=
      ⟨_, List.getElem?_eq_getElem (d.change_lt i hi)⟩
    refine ⟨_, setCapacity_eq_ok.mpr ⟨c, hc, rfl⟩, ?_⟩
    rw [Assembler.estimate, Assembler.estimate, hf]
    simp only [Fee.bySize, size_setCapacity hc]

/-- A hundred CKB whose change is dropped pay for the smaller transaction; an output more is
larger, an output that is lifted is not. -/
theorem Draft.size_follows_shape_changing :
    (∃ d' least' paid', (changing 10000000000).removeOutput 0 = .ok d' ∧
      Ends ((Assembler.onChain .new).estimate d') (.ok least') ∧ d'.fee = .ok paid' ∧
      least' ≤ 10000000000 ∧ 10000000000 ≤ paid') ∧
    (∃ d', (Operation.addOutput (.plain (.ofByte 2) 0)).after (changing 0) = some d' ∧
      (changing 0).transaction.size < d'.transaction.size) ∧
    ∃ d', (Operation.raiseToOccupied 0).after (changing 0) = some d' ∧
      d'.transaction.size = (changing 0).transaction.size := by
  obtain ⟨-, -, hchange⟩ := size_follows_shape (σ := Nat) (changing 10000000000)
  obtain ⟨hoperation, -⟩ := size_follows_shape (σ := Nat) (changing 0)
  obtain ⟨⟨d', hremoved, -, hfee⟩, -⟩ := hchange (.onChain .new) 0 rfl rfl
  obtain ⟨least', paid', hleast, hpaid, hle, hge⟩ := hfee _ 10000000000
    (Assembler.ends_estimate rfl _).yields (by decide +kernel) (by decide +kernel)
  exact ⟨⟨d', least', paid', hremoved, hleast, hpaid, hle, hge⟩,
    hoperation (.addOutput (.plain (.ofByte 2) 0)) nofun,
    hoperation (.raiseToOccupied 0) fun i hi => Option.some.inj hi ▸ by decide⟩

end CellTx
