import CellTx.Draft
import CellTx.Proofs.Outcome

/-!
# Drafts, part by part

What each operation does to the inputs, the outputs and the change of a draft, and what the sums of
a draft are as numbers. `Draft.Spends` says which cells a draft spends at what they hold. A draft
`Offers` outputs that stay and, last, the empty change output of a lock.

Results:
* The simp lemmas `inputs_addOutput` and their like: an operation on one part leaves the others.
* `removeOutput_eq_ok`, `setCapacity_eq_ok`, `occupied_eq_ok`: what an operation on an output that
  succeeded has done.
* `inputsCapacity_eq_ok`, `outputsCapacity_eq_ok`, `fee_eq_ok`: a sum that is there is the sum of
  the numbers.
* `Offers.setCapacity`, `Offers.removeOutput`: settling the change of such a draft.

Out of scope: sequences of operations, which are in `CellTx.Proofs.Operations`.
-/

namespace CellTx

/-- A spent cell with its place and time lock. -/
structure Spending where
  outPoint : OutPoint
  cell : Cell
  since : Since := Since.zero

/-- What an input of a draft spends. -/
def DraftInput.spending (i : DraftInput) : Spending := ⟨i.outPoint, i.cell, i.since⟩

/-- A live cell as it is spent without time lock. -/
def LiveCell.spending (c : LiveCell) : Spending := ⟨c.outPoint, c.cell, Since.zero⟩

/-- The input of a transaction that spends a cell. -/
def Spending.input (s : Spending) : Input := ⟨s.outPoint, s.since⟩

/-- Occupied capacity that fits is exact. -/
theorem Cell.occupied?_eq_some_iff {c : Cell} {o : Capacity} :
    c.occupied? = some o ↔ o.toNat = c.occupiedBytes * Capacity.perCkb :=
  Capacity.ofNat?_eq_some_iff

theorem Cell.hasType_iff {type : Script} {c : Cell} :
    c.hasType type = true ↔ c.type = some type := by
  rw [hasType, decide_eq_true_eq]

namespace Draft

/-! ## What the operations leave alone -/

section Frames

variable (d : Draft)

@[simp] theorem inputs_addHeaderDep (h : Hash) : (d.addHeaderDep h).2.inputs = d.inputs := by
  unfold addHeaderDep
  split <;> rfl

@[simp] theorem outputs_addHeaderDep (h : Hash) : (d.addHeaderDep h).2.outputs = d.outputs := by
  unfold addHeaderDep
  split <;> rfl

@[simp] theorem change_addHeaderDep (h : Hash) : (d.addHeaderDep h).2.change = d.change := by
  unfold addHeaderDep
  split <;> rfl

@[simp] theorem inputs_addCellDep (dep : CellDep) : (d.addCellDep dep).inputs = d.inputs := by
  unfold addCellDep
  split <;> rfl

@[simp] theorem outputs_addCellDep (dep : CellDep) : (d.addCellDep dep).outputs = d.outputs := by
  unfold addCellDep
  split <;> rfl

@[simp] theorem change_addCellDep (dep : CellDep) : (d.addCellDep dep).change = d.change := by
  unfold addCellDep
  split <;> rfl

@[simp] theorem inputs_addOutput (c : Cell) : (d.addOutput c).inputs = d.inputs := rfl
@[simp] theorem outputs_addOutput (c : Cell) : (d.addOutput c).outputs = d.outputs ++ [c] := rfl
@[simp] theorem change_addOutput (c : Cell) : (d.addOutput c).change = d.change := rfl

/-- An output is found at the place where it was added. -/
theorem length_lt_addOutput (c : Cell) : d.outputs.length < (d.addOutput c).outputs.length := by
  rw [outputs_addOutput, List.length_append]
  exact Nat.lt_succ_self _

@[simp] theorem inputs_addChange (c : Cell) : (d.addChange c).inputs = d.inputs := rfl
@[simp] theorem outputs_addChange (c : Cell) : (d.addChange c).outputs = d.outputs ++ [c] := rfl
@[simp] theorem change_addChange (c : Cell) : (d.addChange c).change = some d.outputs.length := rfl

@[simp] theorem inputs_setOutput (i : Nat) (c : Cell) : (d.setOutput i c).inputs = d.inputs := rfl
@[simp] theorem outputs_setOutput (i : Nat) (c : Cell) :
    (d.setOutput i c).outputs = d.outputs.set i c := rfl
@[simp] theorem change_setOutput (i : Nat) (c : Cell) : (d.setOutput i c).change = d.change := rfl

theorem transaction_setOutput (i : Nat) (c : Cell) :
    (d.setOutput i c).transaction = { d.transaction with outputs := d.outputs.set i c } := rfl

@[simp] theorem inputs_addInputWorth (p : OutPoint) (c : Cell) (since : Since)
    (inputType : Option Bytes) (worth : Capacity) :
    (d.addInputWorth p c since inputType worth).inputs =
      d.inputs ++ [{
        outPoint := p, since := since, cell := c, worth := worth
        witness := d.witnessFor c.lock.hash inputType, lockHash := c.lock.hash }] := rfl

@[simp] theorem outputs_consume (c : LiveCell) : (d.consume c).outputs = d.outputs := rfl
@[simp] theorem change_consume (c : LiveCell) : (d.consume c).change = d.change := rfl

/-! Header deps are only added. -/

@[simp] theorem headerDeps_addCellDep (dep : CellDep) :
    (d.addCellDep dep).headerDeps = d.headerDeps := by
  unfold addCellDep
  split <;> rfl

@[simp] theorem headerDeps_addOutput (c : Cell) : (d.addOutput c).headerDeps = d.headerDeps := rfl

@[simp] theorem headerDeps_addChange (c : Cell) : (d.addChange c).headerDeps = d.headerDeps := rfl

@[simp] theorem headerDeps_setOutput (i : Nat) (c : Cell) :
    (d.setOutput i c).headerDeps = d.headerDeps := rfl

@[simp] theorem headerDeps_addInputWorth (p : OutPoint) (c : Cell) (since : Since)
    (inputType : Option Bytes) (worth : Capacity) :
    (d.addInputWorth p c since inputType worth).headerDeps = d.headerDeps := rfl

theorem headerDeps_addHeaderDep (h : Hash) :
    (d.addHeaderDep h).2.headerDeps =
      if h ∈ d.headerDeps then d.headerDeps else d.headerDeps ++ [h] := by
  unfold addHeaderDep
  split
  · rename_i i hi
    obtain ⟨hlt, heq, -⟩ := List.idxOf?_eq_some_iff.mp hi
    rw [if_pos (heq ▸ List.getElem_mem hlt)]
  · rename_i hi
    rw [if_neg (List.idxOf?_eq_none_iff.mp hi)]

/-- The place of a header dep is told when it is added. -/
theorem getElem?_addHeaderDep (h : Hash) :
    (d.addHeaderDep h).2.headerDeps[(d.addHeaderDep h).1]? = some h := by
  unfold addHeaderDep
  split
  · rename_i i hi
    obtain ⟨hlt, heq, -⟩ := List.idxOf?_eq_some_iff.mp hi
    exact List.getElem?_eq_some_iff.mpr ⟨hlt, heq⟩
  · exact List.getElem?_concat_length

end Frames

theorem headerDeps_removeOutput {d d' : Draft} {i : Nat} (h : d.removeOutput i = .ok d') :
    d'.headerDeps = d.headerDeps := by
  unfold removeOutput at h
  split at h
  · exact Except.ok.inj h ▸ rfl
  · exact nomatch h

theorem removeOutput_eq_ok {d d' : Draft} {i : Nat} (h : d.removeOutput i = .ok d') :
    d'.inputs = d.inputs ∧ d'.outputs = d.outputs.eraseIdx i ∧
      d'.change = shiftChange d.change i := by
  unfold removeOutput at h
  split at h
  · obtain rfl := Except.ok.inj h
    exact ⟨rfl, rfl, rfl⟩
  · exact nomatch h

/-- The drafts differ in nothing but their outputs and in which of these receives the change. -/
structure DiffersInOutputs (d d' : Draft) : Prop where
  version : d'.version = d.version
  headerDeps : d'.headerDeps = d.headerDeps
  cellDeps : d'.cellDeps = d.cellDeps
  inputs : d'.inputs = d.inputs

/-- An output that is there can be removed. -/
theorem removeOutput_of_lt {d : Draft} {i : Nat} (h : i < d.outputs.length) :
    ∃ d', d.removeOutput i = .ok d' ∧ d.DiffersInOutputs d' ∧
      d'.outputs = d.outputs.eraseIdx i ∧ d'.change = shiftChange d.change i := by
  unfold removeOutput
  rw [dif_pos h]
  exact ⟨_, rfl, ⟨rfl, rfl, rfl, rfl⟩, rfl, rfl⟩

/-- The inputs spend some cells, each at the capacity it holds. -/
def Spends (d : Draft) (cells : List Spending) : Prop :=
  d.inputs.map DraftInput.spending = cells ∧ ∀ i ∈ d.inputs, i.worth = i.cell.capacity

/-- A draft without inputs spends nothing. -/
theorem spends_nil {d : Draft} (h : d.inputs = []) : d.Spends [] := by
  rw [Spends, h]
  exact ⟨rfl, fun i hi => absurd hi List.not_mem_nil⟩

theorem Spends.addInput {d : Draft} {cells : List Spending} (h : d.Spends cells) (p : OutPoint)
    (c : Cell) (since : Since) (inputType : Option Bytes) :
    (d.addInput p c since inputType).Spends (cells ++ [⟨p, c, since⟩]) := by
  obtain ⟨hcells, hworth⟩ := h
  constructor
  · rw [← hcells]
    exact List.map_append
  · intro i hi
    rcases List.mem_append.mp hi with hi | hi
    · exact hworth i hi
    · rw [List.mem_singleton.mp hi]

theorem Spends.consume {d : Draft} {cells : List Spending} (h : d.Spends cells) (c : LiveCell) :
    (d.consume c).Spends (cells ++ [c.spending]) := h.addInput c.outPoint c.cell Since.zero none

/-- A draft spends the out points of the cells that it spends. -/
theorem Spends.spends_iff {d : Draft} {cells : List Spending} (h : d.Spends cells)
    {p : OutPoint} : d.spends p = true ↔ ∃ s ∈ cells, s.outPoint = p := by
  rw [Draft.spends, List.any_eq_true, ← h.1]
  constructor
  · rintro ⟨i, hi, hp⟩
    exact ⟨i.spending, List.mem_map_of_mem hi, of_decide_eq_true hp⟩
  · rintro ⟨s, hs, hp⟩
    obtain ⟨i, hi, rfl⟩ := List.mem_map.mp hs
    exact ⟨i, hi, decide_eq_true hp⟩

/-- Inputs at the capacity that they hold. -/
theorem Spends.worths_eq {d : Draft} {cells : List Spending} (h : d.Spends cells) :
    d.inputs.map DraftInput.worth = cells.map fun s => s.cell.capacity := by
  rw [← h.1, List.map_map]
  exact List.map_congr_left h.2

/-! ## Sums -/

theorem exactly_eq_ok {o : Option Capacity} {c : Capacity} : exactly o = .ok c ↔ o = some c := by
  cases o with
  | none => exact ⟨nofun, nofun⟩
  | some x => exact ⟨fun h => congrArg some (Except.ok.inj h), fun h => by cases h; rfl⟩

theorem inputsCapacity_eq_ok {d : Draft} {c : Capacity} :
    d.inputsCapacity = .ok c ↔ c.toNat = Capacity.total (d.inputs.map DraftInput.worth) :=
  exactly_eq_ok.trans Capacity.sum?_eq_some_iff

theorem outputsCapacity_eq_ok {d : Draft} {c : Capacity} :
    d.outputsCapacity = .ok c ↔ c.toNat = Capacity.total (d.outputs.map Cell.capacity) :=
  exactly_eq_ok.trans Capacity.sum?_eq_some_iff

/-- Inputs are worth what outputs hold and the fee. -/
theorem fee_eq_ok {d : Draft} {f : Capacity} (h : d.fee = .ok f) :
    Capacity.total (d.inputs.map DraftInput.worth) =
      Capacity.total (d.outputs.map Cell.capacity) + f.toNat := by
  obtain ⟨inputs, hi, h⟩ := except_bind_eq_ok.mp h
  obtain ⟨outputs, ho, h⟩ := except_bind_eq_ok.mp h
  have hf := Capacity.sub?_eq_some_iff.mp (exactly_eq_ok.mp h)
  rw [← inputsCapacity_eq_ok.mp hi, ← outputsCapacity_eq_ok.mp ho]
  omega

theorem output_eq_ok {d : Draft} {i : Nat} {c : Cell} :
    d.output i = .ok c ↔ d.outputs[i]? = some c := by
  unfold output
  cases d.outputs[i]? with
  | none => exact ⟨nofun, nofun⟩
  | some x => exact ⟨fun h => congrArg some (Except.ok.inj h), fun h => by cases h; rfl⟩

theorem occupied_eq_ok {d : Draft} {i : Nat} {o : Capacity} :
    d.occupied i = .ok o ↔ ∃ c, d.outputs[i]? = some c ∧ c.occupied? = some o := by
  unfold occupied
  rw [except_bind_eq_ok]
  constructor
  · rintro ⟨c, hc, h⟩
    refine ⟨c, output_eq_ok.mp hc, ?_⟩
    split at h
    · rename_i heq
      rw [heq, Except.ok.inj h]
    · exact nomatch h
  · rintro ⟨c, hc, h⟩
    exact ⟨c, output_eq_ok.mpr hc, by rw [h]; rfl⟩

theorem setCapacity_eq_ok {d d' : Draft} {i : Nat} {capacity : Capacity} :
    d.setCapacity i capacity = .ok d' ↔
      ∃ c, d.outputs[i]? = some c ∧ d' = d.setOutput i { c with capacity := capacity } := by
  unfold setCapacity
  rw [except_bind_eq_ok]
  constructor
  · rintro ⟨c, hc, h⟩
    exact ⟨c, output_eq_ok.mp hc, (Except.ok.inj h).symm⟩
  · rintro ⟨c, hc, rfl⟩
    exact ⟨c, output_eq_ok.mpr hc, rfl⟩

/-! ## Offers -/

/-- The outputs are those promised and, last, the empty change output of a lock, if there is one. -/
structure Offers (d : Draft) (promised : List Cell) (change : Option Script) : Prop where
  outputs : d.outputs = promised ++ (change.map fun lock => Cell.plain lock 0).toList
  change : d.change = change.map fun _ => promised.length

namespace Offers

variable {d : Draft} {promised : List Cell} {lock : Script}

theorem consume {change : Option Script} (h : d.Offers promised change) (c : LiveCell) :
    (d.consume c).Offers promised change := ⟨h.outputs, h.change⟩

theorem addInput {change : Option Script} (h : d.Offers promised change) (p : OutPoint) (c : Cell)
    (since : Since) (inputType : Option Bytes) :
    (d.addInput p c since inputType).Offers promised change := ⟨h.outputs, h.change⟩

/-- The change output of a draft that has one. -/
theorem getElem?_change (h : d.Offers promised (some lock)) :
    d.outputs[promised.length]? = some (Cell.plain lock 0) := by
  rw [h.outputs]
  simp

theorem changeOutput? {change : Option Script} (h : d.Offers promised change) :
    d.changeOutput? = change.map fun lock => Cell.plain lock 0 := by
  unfold Draft.changeOutput?
  cases change with
  | none => rw [h.change]; rfl
  | some lock => rw [h.change]; exact h.getElem?_change

/-- The change output holds nothing yet, so it has no part in what is committed. -/
theorem committedCapacity {change : Option Script} (h : d.Offers promised change) {c : Capacity}
    (hc : d.committedCapacity = .ok c) : c.toNat = Capacity.total (promised.map Cell.capacity) := by
  obtain ⟨outputs, ho, hc⟩ := except_bind_eq_ok.mp hc
  have hsub := Capacity.sub?_eq_some_iff.mp (exactly_eq_ok.mp hc)
  have htotal := outputsCapacity_eq_ok.mp ho
  rw [h.outputs, List.map_append, Capacity.total_append] at htotal
  rw [h.changeOutput?] at hsub
  cases change with
  | none => simp_all
  | some lock => simp_all [Cell.plain]

theorem setCapacity (h : d.Offers promised (some lock)) {capacity : Capacity} {d' : Draft}
    (h' : d.setCapacity promised.length capacity = .ok d') :
    d'.inputs = d.inputs ∧
      d'.transaction =
        { d.transaction with outputs := promised ++ [Cell.plain lock capacity] } := by
  obtain ⟨c, hc, rfl⟩ := setCapacity_eq_ok.mp h'
  obtain rfl := Option.some.inj (h.getElem?_change.symm.trans hc)
  refine ⟨rfl, ?_⟩
  have ho : d.outputs.set promised.length (Cell.plain lock capacity) =
      promised ++ [Cell.plain lock capacity] := by
    rw [h.outputs]
    simp
  exact congrArg (fun outputs => { d.transaction with outputs := outputs }) ho

theorem removeOutput (h : d.Offers promised (some lock)) {d' : Draft}
    (h' : d.removeOutput promised.length = .ok d') :
    d'.inputs = d.inputs ∧ d'.transaction = { d.transaction with outputs := promised } := by
  unfold Draft.removeOutput at h'
  split at h'
  · obtain rfl := Except.ok.inj h'
    refine ⟨rfl, ?_⟩
    have ho : d.outputs.eraseIdx promised.length = promised := by
      rw [h.outputs, List.eraseIdx_append_of_length_le (Nat.le_refl _)]
      simp
    exact congrArg (fun outputs => { d.transaction with outputs := outputs }) ho
  · exact nomatch h'

end Offers

end Draft

end CellTx
