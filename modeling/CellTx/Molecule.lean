import CellTx.Bytes

/-!
# Molecule

The chain's binary layout, as far as hashes and sizes need it. A fixed vector is the count of its
items and then the items; a table, and a vector of items of varying length, is its full size, the
offset of each field and then the fields. Counts, sizes and offsets take four bytes, least
significant first.

Results:
* `length_table`, `length_fixed`, `length_bytes`: the lengths are exact, so that a size follows from
  the shapes of the parts (`CellTx.Proofs.Size`).

Out of scope: reading. The one table that is read back is that of a witness, in
`CellTx.Proofs.Reading`.
-/

namespace CellTx.Molecule

/-- A count, size or offset. -/
def number (n : Nat) : Bytes := leBytes 4 n

/-- A byte string: its length, then the bytes. -/
def bytes (l : Bytes) : Bytes := number l.length ++ l

/-- A vector of items of one length. -/
def fixed (items : List Bytes) : Bytes := number items.length ++ items.flatten

/-- An optional item: nothing at all when it is absent. -/
def option (item : Option Bytes) : Bytes := item.getD []

/-- The offsets of fields that lie one after the other from `start` on. -/
def offsets (start : Nat) : List Bytes → Bytes
  | [] => []
  | field :: rest => number start ++ offsets (start + field.length) rest

/-- A table, or a vector of items of varying length. -/
def table (fields : List Bytes) : Bytes :=
  let start := 4 + 4 * fields.length
  number (start + fields.flatten.length) ++ offsets start fields ++ fields.flatten

/-! ## Lemmas -/

@[simp] theorem length_number (n : Nat) : (number n).length = 4 := length_leBytes 4 n

@[simp] theorem length_bytes (l : Bytes) : (bytes l).length = 4 + l.length := by
  rw [bytes, List.length_append, length_number]

@[simp] theorem length_fixed (items : List Bytes) :
    (fixed items).length = 4 + items.flatten.length := by
  rw [fixed, List.length_append, length_number]

@[simp] theorem length_offsets (start : Nat) (fields : List Bytes) :
    (offsets start fields).length = 4 * fields.length := by
  induction fields generalizing start with
  | nil => rfl
  | cons field rest ih =>
    rw [offsets, List.length_append, length_number, ih, List.length_cons]
    omega

@[simp] theorem length_table (fields : List Bytes) :
    (table fields).length = 4 + 4 * fields.length + fields.flatten.length := by
  rw [table, List.length_append, List.length_append, length_number, length_offsets]

end CellTx.Molecule
