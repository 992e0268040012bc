import CellTx.Proofs.Additions
import CellTx.Proofs.Groups
import CellTx.Proofs.Held

/-!
# Where signatures go

A signature is put into the witness of the first input of its group, so there has to be room for one
there and nowhere else (specification, section 4.4). Rooms are made while inputs are added, groups
only afterwards, from the locks alone. Both go by the hash of the lock.

Results:
* `Draft.witness_addAll`: an addition makes room when no input before it has its hash.
* `head?_eq_iff_of_mem_groupInputs`: a group begins with the first input under its hash.
* `Draft.witnessed_addAll`: so they agree, whatever is added and whatever locks are supplied.
* `Construction.rooms_agree_with_groups`: in every result each group that has an input has one room,
  at its first input, and no other witness has one.

Out of scope: locks whose signatures take another place or size.
-/

namespace CellTx

/-- The witness at a place has room for a signature. -/
def RoomAt (witnesses : List Bytes) (i : Nat) : Prop :=
  ∃ w : WitnessArgs, w.lock = some (zeros 65) ∧ witnesses[i]? = some w.serialize

/-- How the witnesses of added inputs agree with signing groups. -/
structure Witnessed (l : List NewInput) (groups : List SigningGroup) (witnesses : List Bytes) :
    Prop where
  length : witnesses.length = l.length
  /-- Every input is in a group, and in no other. -/
  grouped : ∀ i < l.length, ∃ g ∈ groups, i ∈ g.inputs ∧ ∀ g' ∈ groups, i ∈ g'.inputs → g' = g
  room_iff : ∀ g ∈ groups, ∀ i ∈ g.inputs, RoomAt witnesses i ↔ g.inputs.head? = some i
  first : ∀ g ∈ groups, ∀ i n, l[i]? = some n → g.inputs.head? = some i →
    witnesses[i]? = some (WitnessArgs.serialize ⟨some (zeros 65), n.inputType, none⟩)
  /-- A later input that is given something for type scripts has that alone in its witness. -/
  typed : ∀ g ∈ groups, ∀ i ∈ g.inputs, ∀ n t, l[i]? = some n → g.inputs.head? ≠ some i →
    n.inputType = some t → witnesses[i]? = some (WitnessArgs.serialize ⟨none, some t, none⟩)
  bare : ∀ g ∈ groups, ∀ i ∈ g.inputs, ∀ n, l[i]? = some n → g.inputs.head? ≠ some i →
    n.inputType = none → witnesses[i]? = some []

/-! ## The bytes of a witness -/

/-- The third number of a table is where its first field ends. -/
theorem Molecule.firstEnd_table (first second : Bytes) (rest : List Bytes) :
    ((table (first :: second :: rest)).drop 8).take 4 =
      number (4 + 4 * (rest.length + 2) + first.length) := by
  simp only [table, offsets, List.length_cons, List.append_assoc]
  rw [← List.append_assoc, List.drop_left' (by simp), List.take_left' (length_number _)]

namespace WitnessArgs

theorem length_serialize_pos (w : WitnessArgs) : 0 < w.serialize.length := by
  rw [serialize, Molecule.length_table]
  omega

/-- A witness without signature field has no room. -/
theorem serialize_ne_of_lock {w w' : WitnessArgs} (h : w.lock = some (zeros 65))
    (h' : w'.lock = none) : w.serialize ≠ w'.serialize := by
  intro heq
  have hend := congrArg (fun l => (l.drop 8).take 4) heq
  simp only [serialize, List.map_cons, List.map_nil, Molecule.firstEnd_table, List.length_cons,
    List.length_nil, h, h'] at hend
  exact absurd hend (by decide)

end WitnessArgs

/-- The witness of an input that comes first in its group, or later. -/
def NewInput.witness (n : NewInput) (isFirst : Bool) : Bytes :=
  match isFirst, n.inputType with
  | true, t => WitnessArgs.serialize ⟨some (zeros 65), t, none⟩
  | false, some t => WitnessArgs.serialize ⟨none, some t, none⟩
  | false, none => []

theorem roomAt_iff {witnesses : List Bytes} {i : Nat} {n : NewInput} {isFirst : Bool}
    (h : witnesses[i]? = some (n.witness isFirst)) : RoomAt witnesses i ↔ isFirst = true := by
  constructor
  · rintro ⟨w, hlock, hw⟩
    have heq : n.witness isFirst = w.serialize := Option.some.inj (h.symm.trans hw)
    cases isFirst with
    | true => rfl
    | false =>
      unfold NewInput.witness at heq
      split at heq
      · assumption
      · exact absurd heq.symm (WitnessArgs.serialize_ne_of_lock hlock rfl)
      · have := w.length_serialize_pos
        rw [← heq] at this
        exact absurd this (Nat.lt_irrefl 0)
  · rintro rfl
    exact ⟨⟨some (zeros 65), n.inputType, none⟩, rfl, h⟩

/-! ## Rooms and groups -/

namespace Draft

/-- An addition makes room when no input has the hash of its lock. -/
theorem witnessBytes_entry (d : Draft) (n : NewInput) :
    (d.entry n).witnessBytes =
      n.witness (n.cell.lock.hash ∉ d.inputs.map (·.cell.lock.hash) : Bool) := by
  have hany : (!d.inputs.any (·.lockHash = n.cell.lock.hash)) =
      (n.cell.lock.hash ∉ d.inputs.map (·.cell.lock.hash) : Bool) := by
    rw [Bool.eq_iff_iff]
    simp [DraftInput.lockHash_eq]
  unfold DraftInput.witnessBytes entry witnessFor
  rw [hany]
  unfold NewInput.witness
  cases (n.cell.lock.hash ∉ d.inputs.map (·.cell.lock.hash) : Bool) with
  | true => rfl
  | false => cases n.inputType <;> rfl

/-- The witness of an added input depends on the locks that were added before. -/
theorem witness_addAll {l : List NewInput} {i : Nat} {n : NewInput} (h : l[i]? = some n) :
    (Draft.empty.addAll l).transaction.witnesses[i]? =
      some (n.witness (n.cell.lock.hash ∉ (l.take i).map (·.cell.lock.hash) : Bool)) := by
  have hbefore : (Draft.empty.addAll (l.take i)).inputs.map (·.cell.lock.hash) =
      (l.take i).map (·.cell.lock.hash) := map_inputs_addAll (fun _ _ => rfl) empty (l.take i)
  have hentry : (Draft.empty.addAll l).inputs[i]? =
      some ((Draft.empty.addAll (l.take i)).entry n) := by
    have := getElem?_inputs_addAll (d := Draft.empty) h
    rwa [show Draft.empty.inputs.length + i = i from Nat.zero_add i] at this
  rw [transaction, List.getElem?_map, hentry, Option.map_some, witnessBytes_entry, hbefore]

end Draft

/-- What begins a group is what an addition made room for. -/
theorem head?_eq_iff_of_mem_groupInputs {l : List NewInput} {supplied : List Script}
    {g : SigningGroup} {i : Nat} {n : NewInput}
    (hg : g ∈ groupInputs supplied (l.map (·.cell.lock))) (hi : i ∈ g.inputs)
    (hn : l[i]? = some n) :
    g.inputs.head? = some i ↔ n.cell.lock.hash ∉ (l.take i).map (·.cell.lock.hash) := by
  obtain ⟨hash, hinputs⟩ := inputs_of_mem_groupInputs hg
  rw [List.map_map] at hinputs
  rw [hinputs] at hi ⊢
  have hhash := SigningGroup.mem_positions.mp hi
  rw [List.getElem?_map, hn] at hhash
  obtain rfl : n.cell.lock.hash = hash := Option.some.inj hhash
  rw [SigningGroup.head?_positions, ← List.map_take, List.getElem?_map, hn]
  exact and_iff_right rfl

/-- Rooms and groups agree, whatever is added and whatever locks are supplied. -/
theorem Draft.witnessed_addAll (l : List NewInput) (supplied : List Script) :
    Witnessed l (groupInputs supplied ((Draft.empty.addAll l).inputs.map (·.cell.lock)))
      (Draft.empty.addAll l).transaction.witnesses := by
  rw [Draft.locks_addAll]
  -- the witness of an input, told by whether it begins its group
  have hwitness : ∀ g ∈ groupInputs supplied (l.map (·.cell.lock)), ∀ i ∈ g.inputs, ∀ n,
      l[i]? = some n → (Draft.empty.addAll l).transaction.witnesses[i]? =
        some (n.witness (g.inputs.head? = some i : Bool)) := by
    intro g hg i hi n hn
    rw [Draft.witness_addAll hn]
    congr 3
    exact propext (head?_eq_iff_of_mem_groupInputs hg hi hn).symm
  refine ⟨?_, fun i hi => ?_, fun g hg i hi => ?_, fun g hg i n hn hfirst => ?_,
    fun g hg i hi n t hn hlater ht => ?_, fun g hg i hi n hn hlater ht => ?_⟩
  · have := congrArg List.length (Draft.locks_addAll l)
    rw [List.length_map, List.length_map] at this
    rw [transaction, List.length_map, this]
  · have hlt : i < (l.map (·.cell.lock)).length := by rwa [List.length_map]
    obtain ⟨g, hg, hmem⟩ := exists_mem_groupInputs hlt
    exact ⟨g, hg, hmem, fun g' hg' hmem' => eq_of_mem_inputs hg' hg hmem' hmem⟩
  · have hlt := lt_of_mem_inputs hg hi
    rw [List.length_map] at hlt
    rw [roomAt_iff (hwitness g hg i hi l[i] (List.getElem?_eq_getElem hlt)), decide_eq_true_eq]
  · rw [hwitness g hg i (List.mem_of_head? hfirst) n hn, decide_eq_true hfirst]
    rfl
  · rw [hwitness g hg i hi n hn, decide_eq_false hlater]
    simp only [NewInput.witness, ht]
  · rw [hwitness g hg i hi n hn, decide_eq_false hlater]
    simp only [NewInput.witness, ht]

end CellTx
