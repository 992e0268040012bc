import CellTx.Capacity
import CellTx.Hash
import CellTx.Molecule

/-!
# Scripts

A script names a program by hash and passes it args (specification, section 3). As a cell's lock it
decides who may spend the cell; as its type it decides how the cell may change. Two scripts are told
apart by their hash where the chain does so (`Script.hash`), and by their parts elsewhere.

`startsWith` is the comparison of searches: the same program, with args that begin with those of the
key. `extend` appends to the args, which makes a lock that starts with another one.

Results:
* `length_serialize`: the binary form has 53 bytes and the args.
* `startsWith_iff`, `eq_of_startsWith`: a script that starts with another one has its program and
  more args, and is the same when their args are.

Out of scope: running a script. Nothing here decides whether a signature unlocks a cell.
-/

namespace CellTx

/-- What the code hash of a script is the hash of, and the machine version that runs it. -/
inductive HashType where
  | data
  | type
  | data1
  | data2
deriving DecidableEq

namespace HashType

/-- The byte that stands for a hash type. -/
def code : HashType → UInt8
  | data => 0
  | type => 1
  | data1 => 2
  | data2 => 4

/-- The hash types by name. -/
def names : List (String × HashType) :=
  [("data", data), ("type", type), ("data1", data1), ("data2", data2)]

/-- The name of a hash type. -/
def name : HashType → String
  | data => "data"
  | type => "type"
  | data1 => "data1"
  | data2 => "data2"

end HashType

/-- A program with its args. -/
structure Script where
  codeHash : Hash
  hashType : HashType
  args : Bytes
deriving DecidableEq

namespace Script

/-- The script of zeros without args. -/
def empty : Script := ⟨Hash.zero, .data, []⟩

instance : Inhabited Script := ⟨empty⟩

/-- The binary form. -/
def serialize (s : Script) : Bytes :=
  Molecule.table [s.codeHash.bytes, [s.hashType.code], Molecule.bytes s.args]

/-- The hash that identifies a script. -/
def hash (s : Script) : Hash := Hash.of s.serialize

/-- The bytes a script occupies in a cell. -/
def occupiedBytes (s : Script) : Nat := 33 + s.args.length

/-- The same program, with args that begin with those of `p`. -/
def startsWith (s p : Script) : Bool :=
  s.codeHash = p.codeHash && s.hashType = p.hashType && p.args.isPrefixOf s.args

/-- The same program and args, and more args after them. -/
def extend (s : Script) (suffix : Bytes) : Script := { s with args := s.args ++ suffix }

@[simp] theorem length_serialize (s : Script) : s.serialize.length = 53 + s.args.length := by
  simp only [serialize, Molecule.length_table, List.flatten_cons, List.flatten_nil,
    List.length_append, List.length_cons, List.length_nil, Molecule.length_bytes,
    s.codeHash.length_bytes]
  omega

theorem startsWith_iff {s p : Script} :
    s.startsWith p = true ↔
      s.codeHash = p.codeHash ∧ s.hashType = p.hashType ∧ ∃ rest, s.args = p.args ++ rest := by
  simp only [startsWith, Bool.and_eq_true, decide_eq_true_eq, List.isPrefixOf_iff_prefix,
    and_assoc]
  constructor
  · rintro ⟨h₁, h₂, rest, h₃⟩
    exact ⟨h₁, h₂, rest, h₃.symm⟩
  · rintro ⟨h₁, h₂, rest, h₃⟩
    exact ⟨h₁, h₂, rest, h₃.symm⟩

@[simp] theorem startsWith_self (s : Script) : s.startsWith s = true :=
  startsWith_iff.mpr ⟨rfl, rfl, [], (List.append_nil _).symm⟩

theorem eq_of_startsWith {s p : Script} (h : s.startsWith p = true)
    (hargs : s.args = p.args) : s = p := by
  obtain ⟨hcode, htype, -⟩ := startsWith_iff.mp h
  cases s
  cases p
  simp only at hcode htype hargs
  rw [hcode, htype, hargs]

end Script

end CellTx
