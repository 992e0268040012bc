import CellTx.Proofs.Operations
import Mathlib.Data.Finset.Lattice.Lemmas
import Mathlib.Data.List.InsertIdx

/-!
# Drafts in columns

A draft can be kept in columns, one list for each thing that is known of an input or an output
(`Columns`; specification, section 3). There every operation adds to, removes from or writes to each
column on its own, and traps where one is too short.

Results:
* `Columns.run_eq`: the columns of a draft go along with it, and trap together with it.
* `Draft.aligned_columns`: so columns that belong together are always as long as each other.

Out of scope: columns that no list of operations made.
-/

namespace CellTx

/-- A cell without its data. -/
structure Output where
  capacity : Capacity
  lock : Script
  type : Option Script
deriving DecidableEq

/-- The part of a cell that is not data. -/
def Cell.output (c : Cell) : Output := ⟨c.capacity, c.lock, c.type⟩

/-- An output with its data. -/
def Output.cell (o : Output) (data : Bytes) : Cell := ⟨o.capacity, o.lock, o.type, data⟩

theorem Cell.cell_output (c : Cell) : c.output.cell c.data = c := rfl

/-- What is known of a draft, in a list for each thing that is known. -/
structure Columns where
  version : UInt32 := 0
  headerDeps : List Hash := []
  cellDeps : List CellDep := []
  inputs : List Input := []
  inputCells : List Output := []
  inputWorths : List Capacity := []
  witnesses : List Bytes := []
  outputs : List Output := []
  outputsData : List Bytes := []
  change : Option Nat := none
  /-- The hashes of the locks that have a witness with room for a signature. -/
  signedLocks : Finset Hash := ∅

namespace Columns

/-- The list without the element at a place, which must be there. -/
def remove? {α : Type} (l : List α) (i : Nat) : Option (List α) :=
  if i < l.length then some (l.eraseIdx i) else none

/-- The list with another element at a place, which must be there. -/
def write? {α : Type} (l : List α) (i : Nat) (x : α) : Option (List α) :=
  if i < l.length then some (l.set i x) else none

/-- The witness of an input that is the first under its lock, or that is not. -/
def witness (isFirst : Bool) (inputType : Option Bytes) : Bytes :=
  if isFirst || inputType.isSome then
    WitnessArgs.serialize
      { lock := if isFirst then some Draft.placeholder else none, inputType := inputType }
  else []

/-- Adds an input to every column of inputs. -/
def addInput (s : Columns) (outPoint : OutPoint) (cell : Cell) (since : Since)
    (inputType : Option Bytes) (worth : Capacity) : Columns :=
  { s with
    inputs := s.inputs ++ [⟨outPoint, since⟩]
    inputCells := s.inputCells ++ [cell.output]
    inputWorths := s.inputWorths ++ [worth]
    witnesses := s.witnesses ++ [witness (cell.lock.hash ∉ s.signedLocks) inputType]
    signedLocks := insert cell.lock.hash s.signedLocks }

/-- Adds an output to both columns of outputs. -/
def addOutput (s : Columns) (cell : Cell) : Columns :=
  { s with
    outputs := s.outputs ++ [cell.output]
    outputsData := s.outputsData ++ [cell.data] }

/-- Writes the capacity of an output. -/
def setCapacity (s : Columns) (i : Nat) (capacity : Capacity) : Option Columns := do
  let output ← s.outputs[i]?
  return { s with outputs := ← write? s.outputs i { output with capacity := capacity } }

/-- Lifts an output that holds some capacity to what it must hold, if that fits. -/
def raise (s : Columns) (i : Nat) (capacity : Capacity) (occupied : Option Capacity) :
    Option Columns :=
  match occupied with
  | some o => if o ≤ capacity then some s else s.setCapacity i o
  | none => some s

/-- The columns after an operation. -/
def after : Draft.Operation → Columns → Option Columns
  | .setVersion version, s => some { s with version := version }
  | .addHeaderDep hash, s =>
    some (if hash ∈ s.headerDeps then s else { s with headerDeps := s.headerDeps ++ [hash] })
  | .addCellDep dep, s =>
    some (if dep ∈ s.cellDeps then s else { s with cellDeps := s.cellDeps ++ [dep] })
  | .addInput p cell since inputType, s => some (s.addInput p cell since inputType cell.capacity)
  | .addInputWorth p cell since inputType worth, s =>
    some (s.addInput p cell since inputType worth)
  | .addOutput cell, s => some (s.addOutput cell)
  | .addChange cell, s =>
    some { s.addOutput cell with change := some ((s.addOutput cell).outputs.length - 1) }
  | .removeOutput i, s => do
    let outputs ← remove? s.outputs i
    let outputsData ← remove? s.outputsData i
    return { s with
      outputs := outputs, outputsData := outputsData, change := Draft.shiftChange s.change i }
  | .setCapacity i capacity, s => s.setCapacity i capacity
  | .raiseToOccupied i, s => do
    let data ← s.outputsData[i]?
    let output ← s.outputs[i]?
    s.raise i output.capacity (output.cell data).occupied?
  | .setData i data, s => do
    return { s with outputsData := ← write? s.outputsData i data }

/-- What operations make of empty columns. -/
def run (ops : List Draft.Operation) : Option Columns := ops.foldlM (fun s o => after o s) {}

/-- Columns of the inputs are as long as each other, and so are columns of the outputs. -/
structure Aligned (s : Columns) : Prop where
  inputCells : s.inputCells.length = s.inputs.length
  inputWorths : s.inputWorths.length = s.inputs.length
  witnesses : s.witnesses.length = s.inputs.length
  outputsData : s.outputsData.length = s.outputs.length

end Columns

namespace Draft

/-- What a draft knows, in columns. -/
def columns (d : Draft) : Columns where
  version := d.version
  headerDeps := d.headerDeps
  cellDeps := d.cellDeps
  inputs := d.inputs.map DraftInput.input
  inputCells := d.inputs.map (·.cell.output)
  inputWorths := d.inputs.map DraftInput.worth
  witnesses := d.inputs.map DraftInput.witnessBytes
  outputs := d.outputs.map Cell.output
  outputsData := d.outputs.map Cell.data
  change := d.change
  signedLocks := (d.inputs.map DraftInput.lockHash).toFinset

theorem aligned_columns (d : Draft) : d.columns.Aligned := by
  constructor <;> exact (List.length_map _).trans (List.length_map _).symm

variable (d : Draft)

theorem columns_addHeaderDep (hash : Hash) :
    (d.addHeaderDep hash).2.columns =
      if hash ∈ d.headerDeps then d.columns
      else { d.columns with headerDeps := d.headerDeps ++ [hash] } := by
  unfold addHeaderDep
  split
  · rename_i i hi
    obtain ⟨hlt, rfl, -⟩ := List.idxOf?_eq_some_iff.mp hi
    rw [if_pos (List.getElem_mem hlt)]
  · rename_i hi
    rw [if_neg (List.idxOf?_eq_none_iff.mp hi)]
    rfl

theorem columns_addCellDep (dep : CellDep) :
    (d.addCellDep dep).columns =
      if dep ∈ d.cellDeps then d.columns
      else { d.columns with cellDeps := d.cellDeps ++ [dep] } := by
  unfold addCellDep
  split <;> rfl

/-- The first input under a lock is the one whose lock is not signed yet. -/
theorem not_mem_signedLocks (lockHash : Hash) :
    decide (lockHash ∉ d.columns.signedLocks) = !d.inputs.any (·.lockHash = lockHash) := by
  rw [decide_not, Bool.not_inj_iff, Bool.eq_iff_iff, decide_eq_true_eq, columns, List.mem_toFinset,
    List.mem_map, List.any_eq_true]
  simp only [decide_eq_true_eq]

theorem serialize_witnessFor (lockHash : Hash) (inputType : Option Bytes) :
    ((d.witnessFor lockHash inputType).map WitnessArgs.serialize).getD [] =
      Columns.witness (!d.inputs.any (·.lockHash = lockHash)) inputType := by
  unfold witnessFor Columns.witness
  dsimp only
  split <;> rfl

theorem columns_addInputWorth (p : OutPoint) (cell : Cell) (since : Since)
    (inputType : Option Bytes) (worth : Capacity) :
    (d.addInputWorth p cell since inputType worth).columns =
      d.columns.addInput p cell since inputType worth := by
  have hsigned : ((d.addInputWorth p cell since inputType worth).inputs.map
      DraftInput.lockHash).toFinset = insert cell.lock.hash d.columns.signedLocks := by
    rw [inputs_addInputWorth, List.map_append, List.toFinset_append, Finset.union_comm]
    rfl
  rw [Columns.addInput, ← hsigned, not_mem_signedLocks, ← serialize_witnessFor]
  simp only [columns, inputs_addInputWorth, List.map_append]
  rfl

theorem columns_addOutput (cell : Cell) :
    (d.addOutput cell).columns = d.columns.addOutput cell := by
  simp only [columns, Columns.addOutput, outputs_addOutput, List.map_append, List.map_cons,
    List.map_nil]
  rfl

theorem columns_addChange (cell : Cell) :
    (d.addChange cell).columns =
      { d.columns.addOutput cell with
        change := some ((d.columns.addOutput cell).outputs.length - 1) } := by
  have hslot : (d.columns.addOutput cell).outputs.length - 1 = d.outputs.length := by
    rw [Columns.addOutput, List.length_append, List.length_singleton, Nat.add_sub_cancel]
    exact List.length_map _
  rw [hslot, ← columns_addOutput]
  rfl

theorem columns_setOutput (i : Nat) (c : Cell) :
    (d.setOutput i c).columns =
      { d.columns with
        outputs := d.columns.outputs.set i c.output
        outputsData := d.columns.outputsData.set i c.data } := by
  simp only [columns, setOutput, List.map_set]

end Draft

namespace Columns

section Lists

variable {α : Type} {l : List α} {i : Nat}

theorem remove?_of_lt (h : i < l.length) : remove? l i = some (l.eraseIdx i) := if_pos h

theorem write?_of_lt (h : i < l.length) (x : α) : write? l i x = some (l.set i x) := if_pos h

/-- Writing an element that is there already changes nothing. -/
theorem set_of_getElem? {x : α} (h : l[i]? = some x) : l.set i x = l := by
  obtain ⟨hlt, rfl⟩ := List.getElem?_eq_some_iff.mp h
  exact List.set_getElem_self hlt

end Lists

section Outputs

variable (d : Draft) (i : Nat)

theorem getElem?_outputs_columns : d.columns.outputs[i]? = (d.outputs[i]?).map Cell.output :=
  List.getElem?_map

theorem getElem?_outputsData_columns : d.columns.outputsData[i]? = (d.outputs[i]?).map Cell.data :=
  List.getElem?_map

variable {d i}

/-- The columns of a draft end where its outputs end. -/
theorem length_columns_of_lt (h : i < d.outputs.length) :
    i < d.columns.outputs.length ∧ i < d.columns.outputsData.length := by
  rw [Draft.columns, List.length_map, List.length_map]
  exact ⟨h, h⟩

variable {c : Cell} (h : d.outputs[i]? = some c)

include h

/-- A capacity is written to one column. -/
theorem setCapacity_columns (capacity : Capacity) :
    d.columns.setCapacity i capacity =
      some (d.setOutput i { c with capacity := capacity }).columns := by
  have hdata : d.columns.outputsData.set i c.data = d.columns.outputsData :=
    set_of_getElem? ((getElem?_outputsData_columns d i).trans (congrArg _ h))
  rw [Draft.columns_setOutput, hdata, setCapacity, getElem?_outputs_columns, h]
  change (do
    let outputs ← write? d.columns.outputs i (Cell.output { c with capacity := capacity })
    return { d.columns with outputs := outputs }) = _
  rw [write?_of_lt (length_columns_of_lt (List.getElem?_eq_some_iff.mp h).1).1]
  rfl

theorem raise_columns :
    d.columns.raise i c.capacity c.occupied? =
      some (d.setOutput i c.raised).columns := by
  have hself : d.setOutput i { c with capacity := c.capacity } = d := Draft.setOutput_self h
  rw [Cell.raised]
  generalize c.occupied? = o
  cases o with
  | none => rw [Option.map_none, Option.getD_none, hself, raise]
  | some o =>
    rw [Option.map_some, Option.getD_some, raise]
    split
    · rw [hself]
    · exact setCapacity_columns h o

/-- Data are written to the other column. -/
theorem write?_columns (data : Bytes) :
    (do return { d.columns with outputsData := ← write? d.columns.outputsData i data }) =
      some (d.setOutput i { c with data := data }).columns := by
  have houtput : d.columns.outputs.set i c.output = d.columns.outputs :=
    set_of_getElem? ((getElem?_outputs_columns d i).trans (congrArg _ h))
  rw [write?_of_lt (length_columns_of_lt (List.getElem?_eq_some_iff.mp h).1).2,
    Draft.columns_setOutput]
  exact congrArg some (congrArg (fun outputs => { d.columns with
    outputs := outputs, outputsData := d.columns.outputsData.set i data }) houtput.symm)

end Outputs

/-- An operation on the columns of a draft comes to the columns of what it makes of the draft. -/
theorem after_columns (o : Draft.Operation) (d : Draft) :
    after o d.columns = (o.after d).map Draft.columns := by
  cases o with
  | setVersion version => rfl
  | addHeaderDep hash => exact congrArg some (d.columns_addHeaderDep hash).symm
  | addCellDep dep => exact congrArg some (d.columns_addCellDep dep).symm
  | addInput p cell since inputType =>
    exact congrArg some (d.columns_addInputWorth p cell since inputType cell.capacity).symm
  | addInputWorth p cell since inputType worth =>
    exact congrArg some (d.columns_addInputWorth p cell since inputType worth).symm
  | addOutput cell => exact congrArg some (d.columns_addOutput cell).symm
  | addChange cell => exact congrArg some (d.columns_addChange cell).symm
  | removeOutput i =>
    rw [Draft.Operation.after_removeOutput, after]
    by_cases hlt : i < d.outputs.length
    · obtain ⟨houtputs, hdata⟩ := length_columns_of_lt hlt
      rw [remove?_of_lt houtputs, remove?_of_lt hdata, Draft.removeOutput, dif_pos hlt,
        Draft.columns, List.eraseIdx_map, List.eraseIdx_map]
      rfl
    · have hnone : remove? d.columns.outputs i = none :=
        if_neg (by rw [Draft.columns, List.length_map]; exact hlt)
      rw [hnone, Draft.removeOutput, dif_neg hlt]
      rfl
  | setCapacity i capacity =>
    rw [Draft.Operation.after_setCapacity, after]
    cases h : d.outputs[i]? with
    | none =>
      rw [setCapacity, getElem?_outputs_columns, h]
      rfl
    | some c => exact setCapacity_columns h capacity
  | raiseToOccupied i =>
    rw [Draft.Operation.after_raiseToOccupied, after, getElem?_outputsData_columns,
      getElem?_outputs_columns]
    cases h : d.outputs[i]? with
    | none => rfl
    | some c =>
      -- rewritten, not unfolded: what a cell occupies is a product that must stay closed
      rw [Option.map_some, Option.map_some, Option.map_some, Option.map_some, ← raise_columns h,
        Option.bind_eq_bind, Option.bind_some, Option.bind_eq_bind, Option.bind_some,
        Cell.cell_output, Cell.output]
  | setData i data =>
    rw [Draft.Operation.after_setData, after]
    cases h : d.outputs[i]? with
    | none =>
      have hnone : write? d.columns.outputsData i data = none :=
        if_neg (by
          rw [Draft.columns, List.length_map]
          exact Nat.not_lt_of_le (List.getElem?_eq_none_iff.mp h))
      rw [hnone]
      rfl
    | some c => exact write?_columns h data

theorem foldlM_columns (ops : List Draft.Operation) (d : Draft) :
    ops.foldlM (fun s o => after o s) d.columns =
      (ops.foldlM (fun d (o : Draft.Operation) => o.after d) d).map Draft.columns := by
  induction ops generalizing d with
  | nil => rfl
  | cons o ops ih =>
    rw [List.foldlM_cons, List.foldlM_cons, after_columns]
    cases o.after d with
    | none => rfl
    | some d' => exact ih d'

/-- The columns and the draft go along together, and trap together. -/
theorem run_eq (ops : List Draft.Operation) : run ops = (Draft.run ops).map Draft.columns :=
  foldlM_columns ops .empty

end Columns

end CellTx
