import CellTx.Transaction

/-!
# Reading witnesses

A strict reader of tables: the size is that of the bytes, the first offset tells the number of
fields, and offsets do not fall.

Results:
* `Molecule.fields?_table`: the reader takes back every table that is written, unless sizes need
  more than four bytes.
* `WitnessArgs.ofBytes?_serialize`: so witnesses are read as what they were written from.

Out of scope: the other tables of the layout, and readers that forgive.
-/

namespace CellTx

namespace Molecule

/-! ## Readers -/

/-- The number that some bytes begin with. -/
def numberAt (l : Bytes) : Nat := leNat (l.take 4)

/-- As many numbers as are asked for, one after the other. -/
def numbers : Nat → Bytes → List Nat
  | 0, _ => []
  | k + 1, l => numberAt l :: numbers k (l.drop 4)

/-- The pieces of a byte string between offsets that do not fall. -/
def pieces (l : Bytes) : List Nat → Option (List Bytes)
  | start :: stop :: rest =>
    if start ≤ stop then (pieces l (stop :: rest)).map ((l.drop start).take (stop - start) :: ·)
    else none
  | _ => some []

/-- The fields of a table that has `k` of them. -/
def fields? (k : Nat) (l : Bytes) : Option (List Bytes) :=
  let start := 4 + 4 * k
  if start ≤ l.length ∧ numberAt l = l.length ∧ (k ≠ 0 → numberAt (l.drop 4) = start) then
    pieces l (numbers k (l.drop 4) ++ [l.length])
  else none

/-- The contents of a byte string. -/
def contents? (l : Bytes) : Option Bytes :=
  if 4 ≤ l.length ∧ l.length = 4 + numberAt l then some (l.drop 4) else none

/-- The contents of a byte string that may be absent. -/
def optional? : Bytes → Option (Option Bytes)
  | [] => some none
  | l => (contents? l).map some

/-! ## What is written is read -/

theorem numberAt_append {n : Nat} (h : n < byteBound 4) (l : Bytes) :
    numberAt (number n ++ l) = n := by
  rw [numberAt, List.take_left' (length_number n), number, leNat_leBytes h]

/-- Where fields begin that lie one after the other. -/
def starts (start : Nat) : List Bytes → List Nat
  | [] => []
  | field :: rest => start :: starts (start + field.length) rest

theorem numbers_offsets {start : Nat} {fields : List Bytes}
    (h : start + fields.flatten.length < byteBound 4) (l : Bytes) :
    numbers fields.length (offsets start fields ++ l) = starts start fields := by
  induction fields generalizing start with
  | nil => rfl
  | cons field rest ih =>
    rw [List.flatten_cons, List.length_append, ← Nat.add_assoc] at h
    rw [List.length_cons, numbers, offsets, List.append_assoc,
      numberAt_append (Nat.lt_of_le_of_lt (by omega) h), List.drop_left' (length_number _), ih h]
    rfl

/-- Fields are what lies between their offsets. -/
theorem pieces_starts (before : Bytes) (fields : List Bytes) :
    pieces (before ++ fields.flatten)
      (starts before.length fields ++ [(before ++ fields.flatten).length]) = some fields := by
  induction fields generalizing before with
  | nil => rfl
  | cons field rest ih =>
    have ih := ih (before ++ field)
    rw [List.append_assoc, ← List.flatten_cons, List.length_append] at ih
    -- the next offset is that of the next field, or the end
    obtain ⟨stops, hstops⟩ : ∃ stops, starts (before.length + field.length) rest ++
        [(before ++ (field :: rest).flatten).length] = (before.length + field.length) :: stops := by
      cases rest with
      | nil => exact ⟨[], by simp [starts]⟩
      | cons next rest => exact ⟨_, rfl⟩
    rw [hstops] at ih
    rw [starts, List.cons_append, hstops, pieces, if_pos (Nat.le_add_right _ _), ih,
      List.drop_left' rfl, Nat.add_sub_cancel_left, List.flatten_cons, List.take_left' rfl]
    rfl

theorem fields?_table {fields : List Bytes} (h : (table fields).length < byteBound 4) :
    fields? fields.length (table fields) = some fields := by
  have hlength := length_table fields
  have hstart : (number (4 + 4 * fields.length + fields.flatten.length) ++
      offsets (4 + 4 * fields.length) fields).length = 4 + 4 * fields.length := by simp
  have htable : table fields = number (4 + 4 * fields.length + fields.flatten.length) ++
      (offsets (4 + 4 * fields.length) fields ++ fields.flatten) := by
    rw [table, List.append_assoc]
  have hdrop : (table fields).drop 4 =
      offsets (4 + 4 * fields.length) fields ++ fields.flatten := by
    rw [htable, List.drop_left' (length_number _)]
  have hnumbers := numbers_offsets (hlength ▸ h) fields.flatten
  have hpieces := pieces_starts (number (4 + 4 * fields.length + fields.flatten.length) ++
    offsets (4 + 4 * fields.length) fields) fields
  rw [hstart] at hpieces
  have hsize : numberAt (table fields) = (table fields).length := by
    rw [hlength, htable, numberAt_append (hlength ▸ h)]
  have hfirst : fields.length ≠ 0 → numberAt ((table fields).drop 4) = 4 + 4 * fields.length := by
    intro hne
    rw [hdrop]
    cases fields with
    | nil => exact absurd rfl hne
    | cons field rest =>
      rw [offsets, List.append_assoc, numberAt_append]
      omega
  rw [fields?, if_pos ⟨by omega, hsize, hfirst⟩, hdrop, hnumbers]
  exact hpieces

theorem contents?_bytes {l : Bytes} (h : l.length < byteBound 4) :
    contents? (bytes l) = some l := by
  rw [contents?, length_bytes, bytes, numberAt_append h, if_pos ⟨Nat.le_add_right _ _, rfl⟩,
    List.drop_left' (length_number _)]

theorem optional?_option {field : Option Bytes} (h : ∀ l, field = some l → l.length < byteBound 4) :
    optional? (option (field.map bytes)) = some field := by
  cases field with
  | none => rfl
  | some l =>
    have hne : bytes l ≠ [] := by
      intro hnil
      have := congrArg List.length hnil
      rw [length_bytes, List.length_nil] at this
      omega
    have hcontents := contents?_bytes (h l rfl)
    change optional? (bytes l) = _
    unfold optional?
    split
    · exact absurd ‹bytes l = []› hne
    · rw [hcontents]
      rfl

end Molecule

/-! ## Witnesses -/

namespace WitnessArgs

/-- Reads a witness. -/
def ofBytes? (l : Bytes) : Option WitnessArgs :=
  match Molecule.fields? 3 l with
  | some [lock, inputType, outputType] => do
    return ⟨← Molecule.optional? lock, ← Molecule.optional? inputType,
      ← Molecule.optional? outputType⟩
  | _ => none

theorem ofBytes?_serialize {w : WitnessArgs} (h : w.serialize.length < byteBound 4) :
    ofBytes? w.serialize = some w := by
  obtain ⟨lock, inputType, outputType⟩ := w
  have hfields := Molecule.fields?_table h
  have hsum := h
  rw [serialize, Molecule.length_table] at hsum
  simp only [List.map_cons, List.map_nil, List.flatten_cons, List.flatten_nil, List.length_append,
    List.length_cons, List.length_nil] at hfields hsum
  have hshort : ∀ field : Option Bytes,
      (Molecule.option (field.map Molecule.bytes)).length < byteBound 4 →
      ∀ l, field = some l → l.length < byteBound 4 := by
    rintro field hlt l rfl
    change (Molecule.bytes l).length < _ at hlt
    rw [Molecule.length_bytes] at hlt
    omega
  have hlock := Molecule.optional?_option (hshort lock (by omega))
  have hinput := Molecule.optional?_option (hshort inputType (by omega))
  have houtput := Molecule.optional?_option (hshort outputType (by omega))
  rw [ofBytes?, serialize]
  simp only [List.map_cons, List.map_nil, hfields, hlock, hinput, houtput]
  rfl

end WitnessArgs

end CellTx
