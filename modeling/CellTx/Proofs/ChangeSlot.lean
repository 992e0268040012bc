import CellTx.Proofs.Columns
import CellTx.Proofs.Standing

/-!
# Which output receives the change

Outputs move as others are removed, so an output is told apart by the step that appended it. The
steps whose outputs are still there, each at the place of its output, are the `Draft.births` of a
list of operations. They are followed through appends and removals alone, without the slot of the
change.

Results:
* `Draft.Operation.after_cases`: what an operation can do to outputs, told once.
* `Draft.Tracked.after`, `Draft.tracked_of_run`: what one operation keeps of the births, and what a
  list of operations keeps. In particular the slot is where the latest change output is, as long as
  that is there (`Draft.Tracked.slot`).
* `Draft.parts_of_inRange`: what operations that are in range make, with deps, columns and sums.

Out of scope: what the operations write, beyond that they leave the scripts of an output alone.
-/

namespace CellTx

namespace Draft

/-! ## Births -/

/-- The scripts of the output that an operation appends. -/
def Operation.scripts? : Operation → Option (Script × Option Script)
  | addOutput cell | addChange cell => some (cell.lock, cell.type)
  | _ => none

/-- The births after an operation that is done at a step. -/
def Operation.track (o : Operation) (step : Nat) (births : List Nat) : List Nat :=
  match o with
  | addOutput _ | addChange _ => births ++ [step]
  | removeOutput i => births.eraseIdx i
  | _ => births

/-- The steps that appended the outputs that are there, in the order of these outputs. -/
def births (ops : List Operation) : List Nat :=
  ops.zipIdx.foldl (fun births e => e.1.track e.2 births) []

/-- A step appended the latest change output. -/
def LatestChange (ops : List Operation) (t : Nat) : Prop :=
  (∃ cell, ops[t]? = some (.addChange cell)) ∧
    ∀ u cell, ops[u]? = some (.addChange cell) → u ≤ t

/-- The operation leaves every output at its place. -/
def Operation.Amends : Operation → Prop
  | addOutput _ | addChange _ | removeOutput _ => False
  | _ => True

/-- The scripts of the outputs. -/
def scripts (d : Draft) : List (Script × Option Script) := d.outputs.map fun c => (c.lock, c.type)

variable {ops : List Operation} {o : Operation} {t : Nat} {d d' : Draft}

theorem births_concat (ops : List Operation) (o : Operation) :
    births (ops ++ [o]) = o.track ops.length (births ops) := by
  simp [births, List.zipIdx_append]

theorem getElem?_concat_eq_some_iff {α : Type} {l : List α} {x y : α} :
    (l ++ [x])[t]? = some y ↔ l[t]? = some y ∨ t = l.length ∧ x = y := by
  grind

theorem LatestChange.lt (h : LatestChange ops t) : t < ops.length := by
  obtain ⟨⟨cell, hcell⟩, -⟩ := h
  exact (List.getElem?_eq_some_iff.mp hcell).1

theorem latestChange_concat_addChange (cell : Cell) :
    LatestChange (ops ++ [.addChange cell]) t ↔ t = ops.length := by
  unfold LatestChange
  simp only [getElem?_concat_eq_some_iff]
  constructor
  · rintro ⟨⟨c, h⟩, hlast⟩
    have hle := hlast ops.length cell (Or.inr ⟨rfl, rfl⟩)
    rcases h with h | ⟨h, -⟩
    · have hlt := (List.getElem?_eq_some_iff.mp h).1
      omega
    · exact h
  · rintro rfl
    refine ⟨⟨cell, Or.inr ⟨rfl, rfl⟩⟩, fun u c h => ?_⟩
    rcases h with h | ⟨h, -⟩
    · exact Nat.le_of_lt (List.getElem?_eq_some_iff.mp h).1
    · exact Nat.le_of_eq h

theorem latestChange_concat (h : ∀ cell, o ≠ .addChange cell) :
    LatestChange (ops ++ [o]) t ↔ LatestChange ops t := by
  unfold LatestChange
  simp [getElem?_concat_eq_some_iff, h]

/-! ## What an operation does -/

theorem scripts_setOutput {i : Nat} {c c' : Cell} (h : d.outputs[i]? = some c)
    (hlock : c'.lock = c.lock) (htype : c'.type = c.type) :
    (d.setOutput i c').scripts = d.scripts := by
  calc (d.setOutput i c').scripts
    _ = d.scripts.set i (c'.lock, c'.type) := List.map_set
    _ = d.scripts.set i (c.lock, c.type) := by rw [hlock, htype]
    _ = (d.setOutput i c).scripts := List.map_set.symm
    _ = d.scripts := by rw [setOutput_self h]

/-- All that an operation can do to the outputs and to the slot of the change: append an output,
with or without the change, remove one, or leave each at its place under its scripts. -/
theorem Operation.after_cases (h : o.after d = some d') :
    (∃ c, o = .addOutput c ∧ d'.scripts = d.scripts ++ [(c.lock, c.type)] ∧ d'.change = d.change) ∨
    (∃ c, o = .addChange c ∧ d'.scripts = d.scripts ++ [(c.lock, c.type)] ∧
      d'.change = some d.scripts.length) ∨
    (∃ i, o = .removeOutput i ∧ d'.scripts = d.scripts.eraseIdx i ∧
      d'.change = shiftChange d.change i) ∨
    (o.Amends ∧ d'.scripts = d.scripts ∧ d'.change = d.change) := by
  have hwrite : ∀ i, o.place? = some i → o ≠ .removeOutput i →
      d'.scripts = d.scripts ∧ d'.change = d.change := by
    intro i hplace hremove
    obtain ⟨c, c', hc, hlock, htype, rfl⟩ := after_eq_setOutput h hplace hremove
    exact ⟨scripts_setOutput hc hlock htype, rfl⟩
  cases o with
  | addOutput c =>
    obtain rfl := Option.some.inj h
    exact Or.inl ⟨c, rfl, by simp [scripts], rfl⟩
  | addChange c =>
    obtain rfl := Option.some.inj h
    exact Or.inr (Or.inl ⟨c, rfl, by simp [scripts], by simp [scripts]⟩)
  | removeOutput i =>
    obtain ⟨-, houtputs, hchange⟩ := removeOutput_eq_ok (after_removeOutput_eq_some_iff.mp h)
    refine Or.inr (Or.inr (Or.inl ⟨i, rfl, ?_, hchange⟩))
    rw [scripts, houtputs, ← List.eraseIdx_map]
    rfl
  | setCapacity | setData | raiseToOccupied =>
    exact Or.inr (Or.inr (Or.inr ⟨trivial, hwrite _ rfl nofun⟩))
  | setVersion | addInput | addInputWorth =>
    obtain rfl := Option.some.inj h
    exact Or.inr (Or.inr (Or.inr ⟨trivial, rfl, rfl⟩))
  | addHeaderDep | addCellDep =>
    obtain rfl := Option.some.inj h
    exact Or.inr (Or.inr (Or.inr ⟨trivial, by simp [scripts], by simp⟩))

/-! ## Deps -/

/-- What is added to a list unless it is there leaves it without repeats. -/
theorem nodup_addNew {α : Type} [DecidableEq α] {l : List α} (h : l.Nodup) (x : α) :
    (if x ∈ l then l else l ++ [x]).Nodup := by
  by_cases hx : x ∈ l
  · rwa [if_pos hx]
  · rw [if_neg hx]
    exact List.nodup_append.mpr ⟨h, List.nodup_singleton x, by simpa using fun a ha => ha.ne_of_notMem hx⟩

/-- The lists of deps after an operation. -/
theorem Operation.deps_of_after (h : o.after d = some d') :
    (d'.headerDeps = d.headerDeps ∨
      ∃ x, d'.headerDeps = if x ∈ d.headerDeps then d.headerDeps else d.headerDeps ++ [x]) ∧
    (d'.cellDeps = d.cellDeps ∨
      ∃ x, d'.cellDeps = if x ∈ d.cellDeps then d.cellDeps else d.cellDeps ++ [x]) := by
  have hwrite : ∀ i, o.place? = some i → o ≠ .removeOutput i →
      d'.headerDeps = d.headerDeps ∧ d'.cellDeps = d.cellDeps := by
    intro i hplace hremove
    obtain ⟨c, c', -, -, -, rfl⟩ := after_eq_setOutput h hplace hremove
    exact ⟨rfl, rfl⟩
  cases o with
  | addHeaderDep hash =>
    obtain rfl := Option.some.inj h
    refine ⟨Or.inr ⟨hash, d.headerDeps_addHeaderDep hash⟩, Or.inl ?_⟩
    unfold Draft.addHeaderDep
    split <;> rfl
  | addCellDep dep =>
    obtain rfl := Option.some.inj h
    refine ⟨Or.inl (d.headerDeps_addCellDep dep), Or.inr ⟨dep, ?_⟩⟩
    unfold Draft.addCellDep
    split <;> rfl
  | removeOutput i =>
    have hdiffers := differsInOutputs_of_removeOutput (after_removeOutput_eq_some_iff.mp h)
    exact ⟨Or.inl hdiffers.headerDeps, Or.inl hdiffers.cellDeps⟩
  | setCapacity | setData | raiseToOccupied =>
    obtain ⟨hheaders, hcells⟩ := hwrite _ rfl nofun
    exact ⟨Or.inl hheaders, Or.inl hcells⟩
  | setVersion | addInput | addInputWorth | addOutput | addChange =>
    obtain rfl := Option.some.inj h
    exact ⟨Or.inl rfl, Or.inl rfl⟩

theorem Operation.nodup_deps (h : o.after d = some d') (hheaders : d.headerDeps.Nodup)
    (hcells : d.cellDeps.Nodup) : d'.headerDeps.Nodup ∧ d'.cellDeps.Nodup := by
  obtain ⟨hheaders', hcells'⟩ := deps_of_after h
  constructor
  · rcases hheaders' with hkept | ⟨x, hadded⟩
    · rwa [hkept]
    · rw [hadded]
      exact nodup_addNew hheaders x
  · rcases hcells' with hkept | ⟨x, hadded⟩
    · rwa [hkept]
    · rw [hadded]
      exact nodup_addNew hcells x

/-- Header deps stay where they are. -/
theorem Operation.headerDeps_prefix (h : o.after d = some d') :
    d.headerDeps <+: d'.headerDeps := by
  rcases (deps_of_after h).1 with hkept | ⟨x, hadded⟩
  · rw [hkept]
  · rw [hadded]
    split
    · exact List.prefix_refl _
    · exact List.prefix_append _ _

theorem headerDeps_prefix_foldlM (h : ops.foldlM (fun d o => o.after d) d = some d') :
    d.headerDeps <+: d'.headerDeps := by
  induction ops generalizing d with
  | nil =>
    obtain rfl := Option.some.inj h
    exact List.prefix_refl _
  | cons o ops ih =>
    rw [List.foldlM_cons] at h
    obtain ⟨d₁, hafter, hrest⟩ := Option.bind_eq_some_iff.mp h
    exact (Operation.headerDeps_prefix hafter).trans (ih hrest)

/-! ## What every step keeps -/

theorem shiftChange_eq_some_iff {change : Option Nat} {i j : Nat} :
    shiftChange change j = some i ↔ if i < j then change = some i else change = some (i + 1) := by
  unfold shiftChange
  cases change with
  | none => simp
  | some slot => grind

/-- What holds of the draft that operations make: its deps are without repeats, its outputs are
those of the births, each under its scripts, and the change is where the latest change output is. -/
structure Tracked (ops : List Operation) (d : Draft) : Prop where
  headerDeps : d.headerDeps.Nodup
  cellDeps : d.cellDeps.Nodup
  ordered : (births ops).Sublist (List.range ops.length)
  appended : (births ops).map (fun t => ops[t]?.bind Operation.scripts?) = d.scripts.map some
  slot : ∀ i, d.change = some i ↔ ∃ t, LatestChange ops t ∧ (births ops)[i]? = some t

namespace Tracked

theorem length_births (h : Tracked ops d) : (births ops).length = d.scripts.length := by
  simpa using congrArg List.length h.appended

theorem lt_of_birth (h : Tracked ops d) (ht : t ∈ births ops) : t < ops.length :=
  List.mem_range.mp (h.ordered.subset ht)

/-- A later operation leaves the scripts of earlier births alone. -/
theorem scripts_concat (h : Tracked ops d) (o : Operation) :
    (births ops).map (fun t => (ops ++ [o])[t]?.bind Operation.scripts?) =
      d.scripts.map some := by
  rw [← h.appended]
  refine List.map_congr_left fun t ht => ?_
  rw [List.getElem?_append_left (h.lt_of_birth ht)]

/-- The birth of an appended output is the last one. -/
theorem append (h : Tracked ops d) {scripts : Script × Option Script}
    (ho : o.scripts? = some scripts) :
    (births ops ++ [ops.length]).Sublist (List.range (ops ++ [o]).length) ∧
      (births ops ++ [ops.length]).map (fun t => (ops ++ [o])[t]?.bind Operation.scripts?) =
        (d.scripts ++ [scripts]).map some := by
  constructor
  · rw [List.length_append, List.length_singleton, List.range_succ]
    exact h.ordered.append (List.Sublist.refl _)
  · rw [List.map_append, List.map_append, h.scripts_concat]
    simp [ho]

/-- Births that are left after a step are still in order. -/
theorem sublist_concat (h : Tracked ops d) (o : Operation) {births' : List Nat}
    (hb : births'.Sublist (births ops)) : births'.Sublist (List.range (ops ++ [o]).length) := by
  rw [List.length_append, List.length_singleton]
  exact hb.trans (h.ordered.trans (List.range_sublist.mpr (Nat.le_succ _)))

section Steps

variable (h : Tracked ops d) (hheaders : d'.headerDeps.Nodup) (hcells : d'.cellDeps.Nodup)

include h hheaders hcells

theorem addOutput {c : Cell} (hscripts : d'.scripts = d.scripts ++ [(c.lock, c.type)])
    (hchange : d'.change = d.change) : Tracked (ops ++ [.addOutput c]) d' := by
  have hbirths : births (ops ++ [.addOutput c]) = births ops ++ [ops.length] := births_concat ops _
  have hother : ∀ c', Operation.addOutput c ≠ .addChange c' := nofun
  obtain ⟨hsublist, hmap⟩ := h.append (o := .addOutput c) rfl
  refine ⟨hheaders, hcells, hbirths ▸ hsublist, by rw [hbirths, hscripts, hmap], fun i => ?_⟩
  rw [hchange, h.slot, hbirths]
  simp only [latestChange_concat hother, getElem?_concat_eq_some_iff]
  refine exists_congr fun t => and_congr_right fun ht => ?_
  exact (or_iff_left fun hnew => absurd hnew.2 (Nat.ne_of_gt ht.lt)).symm

theorem addChange {c : Cell} (hscripts : d'.scripts = d.scripts ++ [(c.lock, c.type)])
    (hchange : d'.change = some d.scripts.length) : Tracked (ops ++ [.addChange c]) d' := by
  have hbirths : births (ops ++ [.addChange c]) = births ops ++ [ops.length] := births_concat ops _
  obtain ⟨hsublist, hmap⟩ := h.append (o := .addChange c) rfl
  refine ⟨hheaders, hcells, hbirths ▸ hsublist, by rw [hbirths, hscripts, hmap], fun i => ?_⟩
  have hfresh : (births ops)[i]? ≠ some ops.length := fun hi =>
    Nat.lt_irrefl _ (h.lt_of_birth (List.mem_of_getElem? hi))
  rw [hchange, hbirths, ← h.length_births]
  simp only [latestChange_concat_addChange, getElem?_concat_eq_some_iff]
  constructor
  · intro hi
    exact ⟨ops.length, rfl, Or.inr ⟨(Option.some.inj hi).symm, rfl⟩⟩
  · rintro ⟨t, rfl, hi | ⟨rfl, -⟩⟩
    · exact absurd hi hfresh
    · rfl

theorem removeOutput {i : Nat} (hscripts : d'.scripts = d.scripts.eraseIdx i)
    (hchange : d'.change = shiftChange d.change i) : Tracked (ops ++ [.removeOutput i]) d' := by
  have hbirths : births (ops ++ [.removeOutput i]) = (births ops).eraseIdx i := births_concat ops _
  have hother : ∀ c, Operation.removeOutput i ≠ .addChange c := nofun
  refine ⟨hheaders, hcells, hbirths ▸ h.sublist_concat _ (List.eraseIdx_sublist _ _), ?_,
    fun j => ?_⟩
  · rw [hbirths, hscripts, ← List.eraseIdx_map, ← List.eraseIdx_map, h.scripts_concat]
  · rw [hchange, shiftChange_eq_some_iff, hbirths]
    simp only [latestChange_concat hother, List.getElem?_eraseIdx]
    split
    · exact h.slot j
    · exact h.slot (j + 1)

theorem amend (hamends : o.Amends) (hscripts : d'.scripts = d.scripts)
    (hchange : d'.change = d.change) : Tracked (ops ++ [o]) d' := by
  have hbirths : births (ops ++ [o]) = births ops := by
    rw [births_concat]
    cases o <;> first | rfl | exact hamends.elim
  have hother : ∀ c, o ≠ .addChange c := by
    rintro c rfl
    exact hamends
  refine ⟨hheaders, hcells, hbirths ▸ h.sublist_concat _ (List.Sublist.refl _), ?_, fun i => ?_⟩
  · rw [hbirths, hscripts, h.scripts_concat]
  · rw [hchange, hbirths, h.slot]
    simp only [latestChange_concat hother]

end Steps

/-- What one step keeps. -/
theorem after (h : Tracked ops d) (ho : o.after d = some d') : Tracked (ops ++ [o]) d' := by
  obtain ⟨hheaders, hcells⟩ := Operation.nodup_deps ho h.headerDeps h.cellDeps
  rcases Operation.after_cases ho with
    ⟨c, rfl, hscripts, hchange⟩ | ⟨c, rfl, hscripts, hchange⟩ | ⟨i, rfl, hscripts, hchange⟩ |
      ⟨hamends, hscripts, hchange⟩
  · exact h.addOutput hheaders hcells hscripts hchange
  · exact h.addChange hheaders hcells hscripts hchange
  · exact h.removeOutput hheaders hcells hscripts hchange
  · exact h.amend hheaders hcells hamends hscripts hchange

end Tracked

theorem tracked_empty : Tracked [] empty where
  headerDeps := List.nodup_nil
  cellDeps := List.nodup_nil
  ordered := List.Sublist.refl _
  appended := rfl
  slot i := by simp [LatestChange, empty]

theorem tracked_of_run (h : run ops = some d) : Tracked ops d := by
  induction ops using List.reverseRecOn generalizing d with
  | nil =>
    obtain rfl := Option.some.inj h
    exact tracked_empty
  | append_singleton ops o ih =>
    rw [run_concat] at h
    obtain ⟨d₀, hrun, hafter⟩ := Option.bind_eq_some_iff.mp h
    exact (ih hrun).after hafter

/-- When the sum of the outputs fits, so does what is committed, which is that sum without what the
change holds. -/
theorem committedCapacity_of_outputsCapacity {s : Capacity} (h : d.outputsCapacity = .ok s) :
    ∃ c, d.committedCapacity = .ok c ∧
      s.toNat = c.toNat + ((d.changeOutput?.map Cell.capacity).getD 0).toNat := by
  have hheld : s.toNat = d.held := outputsCapacity_eq_ok.mp h
  obtain ⟨c, hc, hcommitted⟩ := committedCapacity_of_lt (hheld ▸ s.toNat_lt)
  exact ⟨c, hc, by rw [hheld, hcommitted, held_eq]⟩

/-- Operations that are in range make a draft. Its columns are as long as each other, though each
was built on its own. Its deps are without repeats, and a header dep stays at the place that was
told when it was added. Its outputs are those that are left of the appended ones, in their order;
its change is at the place of the latest change output while that is left, and nowhere when it is
not. The committed capacity is that of the outputs without the change. -/
theorem parts_of_inRange (ops : List Operation) (h : InRange ops) :
    ∃ d, run ops = some d ∧ (Columns.run ops = some d.columns ∧ d.columns.Aligned) ∧
      (d.headerDeps.Nodup ∧ d.cellDeps.Nodup ∧
        ∀ before hash later, ops = before ++ .addHeaderDep hash :: later →
          ∃ d₀, run before = some d₀ ∧ d.headerDeps[(d₀.addHeaderDep hash).1]? = some hash) ∧
      ((births ops).Sublist (List.range ops.length) ∧
        (births ops).map (fun t => ops[t]?.bind Operation.scripts?) = d.scripts.map some ∧
        ∀ i, d.change = some i ↔ ∃ t, LatestChange ops t ∧ (births ops)[i]? = some t) ∧
      ∀ s, d.outputsCapacity = .ok s → ∃ c, d.committedCapacity = .ok c ∧
        s.toNat = c.toNat + ((d.changeOutput?.map Cell.capacity).getD 0).toNat := by
  obtain ⟨d, hrun⟩ := exists_run_iff.mpr h
  have htracked := tracked_of_run hrun
  refine ⟨d, hrun, ⟨by rw [Columns.run_eq, hrun, Option.map_some], d.aligned_columns⟩,
    ⟨htracked.headerDeps, htracked.cellDeps, ?_⟩,
    ⟨htracked.ordered, htracked.appended, htracked.slot⟩,
    fun s hs => committedCapacity_of_outputsCapacity hs⟩
  rintro before hash later rfl
  obtain ⟨d₀, d₁, hbefore, hafter, hlater⟩ := exists_of_run hrun
  obtain rfl := Option.some.inj hafter
  have hprefix := headerDeps_prefix_foldlM hlater
  obtain ⟨hlt, htold⟩ := List.getElem?_eq_some_iff.mp (d₀.getElem?_addHeaderDep hash)
  exact ⟨d₀, hbefore,
    (List.prefix_iff_getElem?.mp hprefix _ hlt).trans (congrArg some htold)⟩

/-- The output before the change is removed, and the one after it stays: the change is first. -/
theorem parts_of_inRange_changeMoved :
    ∃ (ops : List Operation) (d : Draft), InRange ops ∧ run ops = some d ∧ births ops = [3, 4] ∧
      d.change = some 0 ∧ d.columns.outputsData.length = 2 ∧ d.headerDeps[0]? = some .zero := by
  let ops : List Operation := [.addHeaderDep .zero,
    .addInput ⟨.zero, 0⟩ (Cell.plain (.ofByte 1) 9) .zero none,
    .addOutput (Cell.plain (.ofByte 1) 5), .addChange (Cell.plain (.ofByte 2) 0),
    .addOutput (Cell.plain (.ofByte 3) 7), .removeOutput 0, .setCapacity 0 2]
  have hrange : InRange ops := exists_run_iff.mp (Option.isSome_iff_exists.mp (by decide +kernel))
  have hlatest : LatestChange ops 3 := by
    refine ⟨⟨_, rfl⟩, fun u cell h => ?_⟩
    match u, h with
    | 0, _ | 1, _ | 2, _ | 3, _ => omega
    | 4, h | 5, h | 6, h => exact nomatch h
    | u + 7, h => exact nomatch h
  obtain ⟨d, hrun, ⟨-, haligned⟩, ⟨-, -, htold⟩, ⟨-, happended, hslot⟩, -⟩ :=
    parts_of_inRange ops hrange
  obtain ⟨d₀, hbefore, hplace⟩ := htold [] .zero _ rfl
  obtain rfl := Option.some.inj hbefore
  have hbirths : births ops = [3, 4] := rfl
  refine ⟨ops, d, hrange, hrun, hbirths, (hslot 0).mpr ⟨3, hlatest, rfl⟩, ?_, hplace⟩
  rw [hbirths] at happended
  rw [haligned.outputsData]
  simpa [columns, scripts, eq_comm] using congrArg List.length happended

end Draft

end CellTx
