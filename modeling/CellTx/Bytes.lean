/-!
# Byte strings

Numbers as bytes, and bytes as hexadecimal text.

* `leBytes k n` keeps the low `k` bytes of `n`, least significant first, and `leNat` reads such
  bytes back. `beBytes` and `beNat` have the most significant byte first.
* `Hex.write` and `Hex.show0x` are the lower-case digits of a byte string, two a byte; `Hex.read?`
  reads digits of either case.

Results:
* `leNat_leBytes_mod`: what is read is the number, cut to the bytes there were. So `leNat_leBytes`
  and `beNat_beBytes` give back a number that fits.
* `leBytes_leNat`: every byte string is the little-endian form of the number that it denotes.

Out of scope: the hexadecimal forms of anything but bytes, and signed numbers.
-/

namespace CellTx

/-- A byte string. -/
abbrev Bytes := List UInt8

/-- The low `k` bytes of `n`, least significant first. -/
def leBytes : Nat → Nat → Bytes
  | 0, _ => []
  | k + 1, n => UInt8.ofNat n :: leBytes k (n / 256)

/-- The number with the given bytes, least significant first. -/
def leNat : Bytes → Nat
  | [] => 0
  | b :: l => b.toNat + 256 * leNat l

/-- The low `k` bytes of `n`, most significant first. -/
def beBytes (k n : Nat) : Bytes := (leBytes k n).reverse

/-- The number with the given bytes, most significant first. -/
def beNat (l : Bytes) : Nat := leNat l.reverse

/-- How many numbers `k` bytes can hold. -/
def byteBound : Nat → Nat
  | 0 => 1
  | k + 1 => 256 * byteBound k

/-- `k` zero bytes. -/
def zeros (k : Nat) : Bytes := List.replicate k 0

/-! ## Lemmas -/

@[simp] theorem length_leBytes (k n : Nat) : (leBytes k n).length = k := by
  induction k generalizing n with
  | zero => rfl
  | succ k ih => simp only [leBytes, List.length_cons, ih]

@[simp] theorem length_beBytes (k n : Nat) : (beBytes k n).length = k := by
  simp only [beBytes, List.length_reverse, length_leBytes]

@[simp] theorem length_zeros (k : Nat) : (zeros k).length = k := List.length_replicate

/-- Reading keeps what fits into the written bytes. -/
theorem leNat_leBytes_mod (k n : Nat) : leNat (leBytes k n) = n % byteBound k := by
  induction k generalizing n with
  | zero => simp [leBytes, leNat, byteBound, Nat.mod_one]
  | succ k ih =>
    have hb : (UInt8.ofNat n).toNat = n % 256 := UInt8.toNat_ofNat'
    rw [leBytes, leNat, ih, hb, byteBound]
    exact Nat.mod_mul.symm

theorem leNat_leBytes {k n : Nat} (h : n < byteBound k) : leNat (leBytes k n) = n := by
  rw [leNat_leBytes_mod, Nat.mod_eq_of_lt h]

theorem leNat_lt (l : Bytes) : leNat l < byteBound l.length := by
  induction l with
  | nil => simp [leNat, byteBound]
  | cons b l ih =>
    have hb := b.toNat_lt
    simp only [leNat, List.length_cons, byteBound]
    omega

theorem leBytes_leNat (l : Bytes) : leBytes l.length (leNat l) = l := by
  induction l with
  | nil => rfl
  | cons b l ih =>
    have hb := b.toNat_lt
    have hdiv : (b.toNat + 256 * leNat l) / 256 = leNat l := by omega
    have hmod : UInt8.ofNat (b.toNat + 256 * leNat l) = b := by
      apply UInt8.toNat_inj.mp
      rw [UInt8.toNat_ofNat']
      omega
    simp only [List.length_cons, leNat, leBytes, hdiv, hmod, ih]

theorem beNat_beBytes {k n : Nat} (h : n < byteBound k) : beNat (beBytes k n) = n := by
  rw [beNat, beBytes, List.reverse_reverse, leNat_leBytes h]

/-! ## Hexadecimal text -/

namespace Hex

/-- The lower-case digit of a number below sixteen. -/
def digit (n : Nat) : Char := "0123456789abcdef".toList.getD n '0'

/-- The value of a digit of either case. -/
def value? (c : Char) : Option Nat :=
  if '0' ≤ c ∧ c ≤ '9' then some (c.toNat - 48)
  else if 'a' ≤ c ∧ c ≤ 'f' then some (c.toNat - 87)
  else if 'A' ≤ c ∧ c ≤ 'F' then some (c.toNat - 55)
  else none

/-- Two digits a byte, the high one first. -/
def write (l : Bytes) : List Char :=
  l.flatMap fun b => [digit (b.toNat / 16), digit (b.toNat % 16)]

/-- The bytes written as pairs of digits; `none` for an odd count or another character. -/
def read? : List Char → Option Bytes
  | [] => some []
  | [_] => none
  | hi :: lo :: rest => do
    let h ← value? hi
    let l ← value? lo
    let bytes ← read? rest
    return UInt8.ofNat (16 * h + l) :: bytes

/-- Bytes as `0x` and their digits. -/
def show0x (l : Bytes) : String := "0x" ++ String.ofList (write l)

end Hex

end CellTx
