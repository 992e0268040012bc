import CellTx.Proofs.Outputs
import Mathlib.Data.List.Induction

/-!
# Operations on a draft

The operations that build a draft as data (`Draft.Operation`), and the draft that a list of them
makes of nothing (`Draft.run`). When a capacity overflows, the draft stays as it is.

Results:
* `Draft.Operation.after_eq_none_iff`: an operation leaves no draft exactly when it is about an
  output that is not there.
* `Draft.exists_run_iff`: so operations make a draft exactly when they are `InRange`, which is told
  by counting outputs.
* `Draft.Operation.after_eq_setOutput`: an operation on an output that does not remove it writes to
  it and leaves its scripts alone.

Out of scope: the ways in which the flows use the operations.
-/

namespace CellTx

namespace Draft

/-! ## Operations -/

/-- An operation on a draft. -/
inductive Operation where
  | setVersion (version : UInt32)
  | addHeaderDep (hash : Hash)
  | addCellDep (dep : CellDep)
  | addInput (outPoint : OutPoint) (cell : Cell) (since : Since) (inputType : Option Bytes)
  | addInputWorth (outPoint : OutPoint) (cell : Cell) (since : Since) (inputType : Option Bytes)
      (worth : Capacity)
  | addOutput (cell : Cell)
  | addChange (cell : Cell)
  | removeOutput (i : Nat)
  | setCapacity (i : Nat) (capacity : Capacity)
  | raiseToOccupied (i : Nat)
  | setData (i : Nat) (data : Bytes)

/-- The draft that is left by an operation that can fail: none by a defect, and the draft itself by
any other failure. -/
def leftBy (d : Draft) : Except Failure Draft → Option Draft
  | .ok d' => some d'
  | .error (.defect _) => none
  | .error _ => some d

namespace Operation

/-- The draft after an operation. -/
def after : Operation → Draft → Option Draft
  | setVersion version, d => some (d.setVersion version)
  | addHeaderDep hash, d => some (d.addHeaderDep hash).2
  | addCellDep dep, d => some (d.addCellDep dep)
  | addInput p cell since inputType, d => some (d.addInput p cell since inputType)
  | addInputWorth p cell since inputType worth, d =>
    some (d.addInputWorth p cell since inputType worth)
  | addOutput cell, d => some (d.addOutput cell)
  | addChange cell, d => some (d.addChange cell)
  | removeOutput i, d => d.leftBy (d.removeOutput i)
  | setCapacity i capacity, d => d.leftBy (d.setCapacity i capacity)
  | raiseToOccupied i, d => d.leftBy ((d.raiseToOccupied i).map Prod.snd)
  | setData i data, d => d.leftBy (d.setData i data)

/-- The output that an operation is about. -/
def place? : Operation → Option Nat
  | removeOutput i | setCapacity i _ | raiseToOccupied i | setData i _ => some i
  | _ => none

end Operation

/-- What operations make of nothing. -/
def run (ops : List Operation) : Option Draft := ops.foldlM (fun d o => o.after d) empty

theorem run_append (before after : List Operation) :
    run (before ++ after) = (run before).bind fun d => after.foldlM (fun d o => o.after d) d :=
  List.foldlM_append

theorem run_concat (ops : List Operation) (o : Operation) :
    run (ops ++ [o]) = (run ops).bind o.after := by
  rw [run_append]
  refine congrArg (run ops).bind (funext fun d => ?_)
  rw [List.foldlM_cons]
  cases o.after d <;> rfl

/-! ## What an operation leaves of an output -/

theorem output_of_getElem? {d : Draft} {i : Nat} {c : Cell} (h : d.outputs[i]? = some c) :
    d.output i = .ok c := output_eq_ok.mpr h

theorem output_of_none {d : Draft} {i : Nat} (h : d.outputs[i]? = none) :
    d.output i = .error (.defect (.noOutput i)) := by
  rw [output, h]

theorem occupied_of_getElem? {d : Draft} {i : Nat} {c : Cell} (h : d.outputs[i]? = some c) :
    d.occupied i = exactly c.occupied? := by
  rw [occupied, output_of_getElem? h]
  change (pure c >>= _) = _
  rw [pure_bind]
  split
  · rename_i ho
    rw [ho]
    rfl
  · rename_i ho
    rw [ho]
    rfl

theorem raiseToOccupied_of_getElem? {d : Draft} {i : Nat} {c : Cell}
    (h : d.outputs[i]? = some c) :
    d.raiseToOccupied i = (exactly c.occupied?).map fun o =>
      if o ≤ c.capacity then (c.capacity, d) else (o, d.setOutput i { c with capacity := o }) := by
  rw [raiseToOccupied, output_of_getElem? h, occupied_of_getElem? h]
  generalize c.occupied? = o
  cases o with
  | none => rfl
  | some o => exact (apply_ite Except.ok _ _ _).symm

/-- Writing an output that is there already changes nothing. -/
theorem setOutput_self {d : Draft} {i : Nat} {c : Cell} (h : d.outputs[i]? = some c) :
    d.setOutput i c = d := by
  obtain ⟨hlt, rfl⟩ := List.getElem?_eq_some_iff.mp h
  cases d
  simp only [setOutput, List.set_getElem_self]

end Draft

namespace Draft.Operation

variable (d : Draft) (i : Nat)

theorem after_removeOutput :
    (removeOutput i).after d = (d.removeOutput i).toOption := by
  change d.leftBy (d.removeOutput i) = _
  unfold Draft.removeOutput
  split <;> rfl

variable {d i} in
theorem after_removeOutput_eq_some_iff {d' : Draft} :
    (removeOutput i).after d = some d' ↔ d.removeOutput i = .ok d' := by
  rw [after_removeOutput]
  cases d.removeOutput i with
  | error e => exact ⟨nofun, nofun⟩
  | ok d₁ => exact ⟨fun h => congrArg _ (Option.some.inj h), fun h => congrArg _ (Except.ok.inj h)⟩

theorem after_setCapacity (capacity : Capacity) :
    (setCapacity i capacity).after d =
      (d.outputs[i]?).map fun c => d.setOutput i { c with capacity := capacity } := by
  change d.leftBy (d.setCapacity i capacity) = _
  rw [Draft.setCapacity]
  cases h : d.outputs[i]? with
  | none => rw [output_of_none h]; rfl
  | some c => rw [output_of_getElem? h]; rfl

theorem after_setData (data : Bytes) :
    (setData i data).after d =
      (d.outputs[i]?).map fun c => d.setOutput i { c with data := data } := by
  change d.leftBy (d.setData i data) = _
  rw [Draft.setData]
  cases h : d.outputs[i]? with
  | none => rw [output_of_none h]; rfl
  | some c => rw [output_of_getElem? h]; rfl

theorem after_raiseToOccupied :
    (raiseToOccupied i).after d = (d.outputs[i]?).map fun c => d.setOutput i c.raised := by
  change d.leftBy ((d.raiseToOccupied i).map Prod.snd) = _
  cases h : d.outputs[i]? with
  | none =>
    rw [Draft.raiseToOccupied, output_of_none h]
    rfl
  | some c =>
    have hself : d.setOutput i { c with capacity := c.capacity } = d := setOutput_self h
    rw [raiseToOccupied_of_getElem? h, Option.map_some, Cell.raised]
    generalize c.occupied? = o
    cases o with
    | none =>
      rw [Option.map_none, Option.getD_none, hself]
      rfl
    | some o =>
      rw [Option.map_some, Option.getD_some, exactly, Except.map, Except.map]
      by_cases hle : o ≤ c.capacity
      · rw [if_pos hle, if_pos hle, hself]
        rfl
      · rw [if_neg hle, if_neg hle]
        rfl

variable {d i} in
/-- An operation on an output that does not remove it writes there, under the same scripts. -/
theorem after_eq_setOutput {o : Operation} {d' : Draft} (h : o.after d = some d')
    (hplace : o.place? = some i) (hremove : o ≠ removeOutput i) :
    ∃ c c', d.outputs[i]? = some c ∧ c'.lock = c.lock ∧ c'.type = c.type ∧
      d' = d.setOutput i c' := by
  cases o with
  | setVersion | addHeaderDep | addCellDep | addInput | addInputWorth | addOutput | addChange =>
    exact nomatch hplace
  | removeOutput j =>
    obtain rfl := Option.some.inj hplace
    exact absurd rfl hremove
  | setCapacity j capacity =>
    obtain rfl := Option.some.inj hplace
    rw [after_setCapacity] at h
    obtain ⟨c, hc, rfl⟩ := Option.map_eq_some_iff.mp h
    exact ⟨c, { c with capacity := capacity }, hc, rfl, rfl, rfl⟩
  | setData j data =>
    obtain rfl := Option.some.inj hplace
    rw [after_setData] at h
    obtain ⟨c, hc, rfl⟩ := Option.map_eq_some_iff.mp h
    exact ⟨c, { c with data := data }, hc, rfl, rfl, rfl⟩
  | raiseToOccupied j =>
    obtain rfl := Option.some.inj hplace
    rw [after_raiseToOccupied] at h
    obtain ⟨c, hc, rfl⟩ := Option.map_eq_some_iff.mp h
    exact ⟨c, c.raised, hc, c.lock_raised, c.type_raised, rfl⟩

/-- No draft is left when an operation is about an output that is not there, and only then. -/
theorem after_eq_none_iff (o : Operation) :
    o.after d = none ↔ ∃ i, o.place? = some i ∧ d.outputs.length ≤ i := by
  have hplace : ∀ i, d.outputs.length ≤ i ↔ ∃ j, some i = some j ∧ d.outputs.length ≤ j := fun i =>
    ⟨fun h => ⟨i, rfl, h⟩, fun ⟨j, hj, h⟩ => Option.some.inj hj ▸ h⟩
  have hmap : ∀ (f : Cell → Draft) i, (d.outputs[i]?).map f = none ↔
      ∃ j, some i = some j ∧ d.outputs.length ≤ j := fun f i => by
    rw [Option.map_eq_none_iff, List.getElem?_eq_none_iff]
    exact hplace i
  cases o with
  | setVersion | addHeaderDep | addCellDep | addInput | addInputWorth | addOutput | addChange =>
    exact iff_of_false nofun fun ⟨i, hi, _⟩ => nomatch hi
  | setCapacity i capacity => rw [after_setCapacity]; exact hmap _ i
  | raiseToOccupied i => rw [after_raiseToOccupied]; exact hmap _ i
  | setData i data => rw [after_setData]; exact hmap _ i
  | removeOutput i =>
    rw [after_removeOutput, Draft.removeOutput]
    refine Iff.trans ?_ (hplace i)
    split
    · rename_i hlt
      exact iff_of_false (Option.some_ne_none _) (Nat.not_le_of_lt hlt)
    · rename_i hge
      exact iff_of_true rfl (Nat.le_of_not_lt hge)

end Draft.Operation

namespace Draft

/-! ## Runs -/

/-- None of the operations is about an output that is not there when its turn comes. -/
def InRange (ops : List Operation) : Prop :=
  ∀ before o later d i, ops = before ++ o :: later → run before = some d → o.place? = some i →
    i < d.outputs.length

/-- The steps of operations that make a draft. -/
theorem exists_of_run {before later : List Operation} {o : Operation} {d : Draft}
    (h : run (before ++ o :: later) = some d) :
    ∃ d₀ d₁, run before = some d₀ ∧ o.after d₀ = some d₁ ∧
      later.foldlM (fun d o => o.after d) d₁ = some d := by
  rw [run_append] at h
  obtain ⟨d₀, hbefore, hrest⟩ := Option.bind_eq_some_iff.mp h
  rw [List.foldlM_cons] at hrest
  obtain ⟨d₁, hafter, hlater⟩ := Option.bind_eq_some_iff.mp hrest
  exact ⟨d₀, d₁, hbefore, hafter, hlater⟩

/-- Operations make a draft exactly when none of them is about an output that is not there. -/
theorem exists_run_iff {ops : List Operation} : (∃ d, run ops = some d) ↔ InRange ops := by
  constructor
  · rintro ⟨d, hrun⟩ before o later d' i rfl hbefore hplace
    obtain ⟨d₀, d₁, hbefore', hafter, -⟩ := exists_of_run hrun
    obtain rfl := Option.some.inj (hbefore.symm.trans hbefore')
    refine Nat.lt_of_not_le fun hge => ?_
    have hnone := (Operation.after_eq_none_iff d' o).mpr ⟨i, hplace, hge⟩
    exact nomatch hafter.symm.trans hnone
  · induction ops using List.reverseRecOn with
    | nil => exact fun _ => ⟨empty, rfl⟩
    | append_singleton ops o ih =>
      intro h
      obtain ⟨d, hrun⟩ := ih fun before o' later d i hops =>
        h before o' (later ++ [o]) d i (by rw [hops, List.append_assoc]; rfl)
      rw [run_concat, hrun, Option.bind_some]
      refine Option.ne_none_iff_exists'.mp fun hnone => ?_
      obtain ⟨i, hplace, hge⟩ := (Operation.after_eq_none_iff d o).mp hnone
      exact absurd (h ops o [] d i rfl hrun hplace) (Nat.not_lt_of_le hge)

end Draft

/-- Removing an output leaves everything but the outputs and the slot of the change. -/
theorem Draft.differsInOutputs_of_removeOutput {d d' : Draft} {i : Nat}
    (h : d.removeOutput i = .ok d') : d.DiffersInOutputs d' := by
  unfold Draft.removeOutput at h
  split at h
  · cases h
    exact ⟨rfl, rfl, rfl, rfl⟩
  · cases h

end CellTx
