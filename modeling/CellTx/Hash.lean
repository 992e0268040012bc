import CellTx.Hash.Blake2b

/-!
# Hashes

A `Hash` is a string of 32 bytes, the length kept in the type. `Hash.of` is the chain's hash of a
byte string: BLAKE2b under the chain's own personalization. `Hash.display` is the form in which
messages show a hash.

Nothing is assumed of `Hash.of`. Where a result needs that hashes do not collide, it says so of the
hashes it is about.

Out of scope: hashing a text piece by piece, and keyed hashes.
-/

namespace CellTx

/-- A string of 32 bytes. -/
structure Hash where
  bytes : Bytes
  length_bytes : bytes.length = 32
deriving DecidableEq

namespace Hash

/-- The bytes as a hash when there are 32 of them. -/
def ofBytes? (l : Bytes) : Option Hash :=
  if h : l.length = 32 then some ⟨l, h⟩ else none

/-- The hash whose bytes, most significant first, denote `n`. -/
def ofNat (n : Nat) : Hash := ⟨beBytes 32 n, length_beBytes 32 n⟩

/-- The hash of 32 zero bytes. -/
def zero : Hash := ⟨zeros 32, length_zeros 32⟩

instance : Inhabited Hash := ⟨zero⟩

/-- The personalization of the chain's hash. -/
def personalization : Bytes := "ckb-default-hash".toList.map fun c => UInt8.ofNat c.toNat

/-- The chain's hash of a byte string. -/
def of (message : Bytes) : Hash :=
  ⟨Blake2b.digest personalization message, Blake2b.length_digest _ _⟩

/-- A hash as messages show it. -/
def display (h : Hash) : String := "Byte32(" ++ Hex.show0x h.bytes ++ ")"

@[ext] theorem ext {a b : Hash} (h : a.bytes = b.bytes) : a = b := by
  cases a; cases b; simp_all

end Hash

end CellTx
