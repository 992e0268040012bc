import CellTx.Bytes
import CellTx.Encoding

/-!
# Epochs

A point of chain time is a position within a numbered epoch (specification, sections 3 and 4.5).

* A block header keeps it in one word (`EpochFraction`): 24 bits of number, 16 bits of index, 16
  bits of length, 8 reserved bits. Headers are read as they are; `EpochFraction.ofFull` reads the
  word of a time lock, in which an epoch without blocks becomes the start of one with a block.
* The packed form (`Epoch`) has the same fields in eight bytes, most significant first, the reserved
  byte zero. `ofNats` checks the three numbers, `compose?` writes the bytes, `resolve` reads them.

Results:
* `ofNats_eq_ok_iff`: three numbers make an epoch exactly when each fits its bits.
* `resolve_compose`: reading a packed epoch undoes packing it. Which bytes come back from reading,
  and how the two forms agree, is `Epoch.forms_agree` in `CellTx.Proofs.EpochForms`.

Out of scope: the order of points as fractions (`CellTx.Proofs.LockCycles` has it), and stepping
from one block to the next.
-/

namespace CellTx

/-- A point of chain time as one word, whatever its reserved bits. -/
structure EpochFraction where
  full : UInt64
deriving DecidableEq

namespace EpochFraction

/-- The number of the epoch. -/
def number (e : EpochFraction) : Nat := e.full.toNat % 0x1000000

/-- The position within the epoch. -/
def index (e : EpochFraction) : Nat := e.full.toNat / 0x1000000 % 0x10000

/-- The blocks of the epoch. -/
def length (e : EpochFraction) : Nat := e.full.toNat / 0x10000000000 % 0x10000

/-- The word with the given fields. -/
def pack (number index length : Nat) : EpochFraction :=
  ⟨UInt64.ofNat (length * 0x10000000000 + index * 0x1000000 + number)⟩

/-- Reads a word as a point of chain time: an epoch without blocks becomes the start of an epoch
of one block. -/
def ofFull (full : UInt64) : EpochFraction :=
  let e : EpochFraction := ⟨full⟩
  if e.length = 0 then pack e.number 0 1 else e

theorem number_lt (e : EpochFraction) : e.number < 0x1000000 := Nat.mod_lt _ (by decide)

theorem index_lt (e : EpochFraction) : e.index < 0x10000 := Nat.mod_lt _ (by decide)

theorem length_lt (e : EpochFraction) : e.length < 0x10000 := Nat.mod_lt _ (by decide)

end EpochFraction

/-- A point of chain time by its fields. The packed form holds 24 bits of the number. -/
structure Epoch where
  length : UInt16
  index : UInt16
  number : UInt32
deriving DecidableEq

namespace Epoch

/-- The first epoch number beyond the packed form. -/
def numberBound : Nat := 0x1000000

/-- The point with the given fields, when each fits the packed form. -/
def ofNats (number index length : Nat) : Except EncodingError Epoch :=
  if numberBound ≤ number then .error (.epochNumber number)
  else if UInt16.size ≤ index then .error (.epochIndex index)
  else if UInt16.size ≤ length then .error (.epochLength length)
  else .ok ⟨UInt16.ofNat length, UInt16.ofNat index, UInt32.ofNat number⟩

/-- The packed form, for a number of at most 24 bits. -/
def compose? (e : Epoch) : Option Bytes :=
  if e.number.toNat < numberBound then
    some (0 :: (beBytes 2 e.length.toNat ++ beBytes 2 e.index.toNat ++ beBytes 3 e.number.toNat))
  else none

/-- Reads the packed form; the reserved byte is dropped. -/
def resolve (data : Bytes) : Except EncodingError Epoch :=
  if data.length = 8 then
    .ok ⟨UInt16.ofNat (beNat ((data.drop 1).take 2)), UInt16.ofNat (beNat ((data.drop 3).take 2)),
      UInt32.ofNat (beNat (data.drop 5))⟩
  else .error (.packedEpoch data.length)

/-- The packed form as a word. -/
def full? (e : Epoch) : Option UInt64 := e.compose?.map fun l => UInt64.ofNat (beNat l)

/-- The fields of a point of chain time. -/
def ofFraction (e : EpochFraction) : Epoch :=
  ⟨UInt16.ofNat e.length, UInt16.ofNat e.index, UInt32.ofNat e.number⟩

/-- The point of chain time with these fields, read from the packed form. -/
def fraction? (e : Epoch) : Option EpochFraction := e.full?.map EpochFraction.ofFull

/-! ## Lemmas -/

theorem ofNats_eq_ok_iff {number index length : Nat} {e : Epoch} :
    ofNats number index length = .ok e ↔
      number < numberBound ∧ index < UInt16.size ∧ length < UInt16.size ∧
        e = ⟨UInt16.ofNat length, UInt16.ofNat index, UInt32.ofNat number⟩ := by
  unfold ofNats
  split
  · simp only [reduceCtorEq, false_iff]
    omega
  split
  · simp only [reduceCtorEq, false_iff]
    omega
  split
  · simp only [reduceCtorEq, false_iff]
    omega
  · rw [Except.ok.injEq, eq_comm]
    constructor
    · intro h
      exact ⟨by omega, by omega, by omega, h⟩
    · rintro ⟨_, _, _, h⟩
      exact h

/-- Reading a packed epoch gives back the epoch. -/
theorem resolve_compose {e : Epoch} {l : Bytes} (h : e.compose? = some l) :
    resolve l = .ok e := by
  unfold compose? at h
  split at h
  · rename_i hn
    rw [Option.some.injEq] at h
    subst h
    have h₁ := e.length.toNat_lt
    have h₂ := e.index.toNat_lt
    have hlen : (0 :: (beBytes 2 e.length.toNat ++ beBytes 2 e.index.toNat ++
        beBytes 3 e.number.toNat) : Bytes).length = 8 := by
      simp only [List.length_cons, List.length_append, length_beBytes]
    have hl : ((0 :: (beBytes 2 e.length.toNat ++ beBytes 2 e.index.toNat ++
        beBytes 3 e.number.toNat) : Bytes).drop 1).take 2 = beBytes 2 e.length.toNat := by
      rw [List.drop_succ_cons, List.drop_zero, List.append_assoc,
        List.take_append_of_le_length (by simp), List.take_of_length_le (by simp)]
    have hi : ((0 :: (beBytes 2 e.length.toNat ++ beBytes 2 e.index.toNat ++
        beBytes 3 e.number.toNat) : Bytes).drop 3).take 2 = beBytes 2 e.index.toNat := by
      rw [List.drop_succ_cons, List.append_assoc, List.drop_append_of_le_length (by simp),
        List.drop_eq_nil_of_le (by simp), List.nil_append,
        List.take_append_of_le_length (by simp), List.take_of_length_le (by simp)]
    have hm : (0 :: (beBytes 2 e.length.toNat ++ beBytes 2 e.index.toNat ++
        beBytes 3 e.number.toNat) : Bytes).drop 5 = beBytes 3 e.number.toNat := by
      rw [List.drop_succ_cons, List.drop_append_of_le_length (by simp),
        List.drop_eq_nil_of_le (by simp), List.nil_append]
    rw [resolve, if_pos hlen, hl, hi, hm, beNat_beBytes (by simpa [byteBound] using h₁),
      beNat_beBytes (by simpa [byteBound] using h₂),
      beNat_beBytes (by simpa [byteBound, numberBound] using hn),
      UInt16.ofNat_toNat, UInt16.ofNat_toNat, UInt32.ofNat_toNat]
  · exact absurd h (Option.some_ne_none l).symm

end Epoch

end CellTx
