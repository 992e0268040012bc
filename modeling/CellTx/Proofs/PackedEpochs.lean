import CellTx.Proofs.Unlock

/-!
# Packed epochs

A point of chain time as one number.

Results:
* `EpochFraction.toNat_pack`, `EpochFraction.number_pack`, `EpochFraction.index_pack`,
  `EpochFraction.length_pack`: the fields can be read off the word that they are packed into.
* `Epoch.full?_eq_pack`: the eight bytes of the packed form are that word, most significant byte
  first.
* `Epoch.fraction?_eq_pack`: so packing fields and reading them back as a point gives the point with
  these fields, unless the epoch is empty.

Out of scope: fields that are too large for their bits.
-/

namespace CellTx

/-! ## Bytes of a number -/

theorem leNat_append (l m : Bytes) :
    leNat (l ++ m) = leNat l + byteBound l.length * leNat m := by
  induction l with
  | nil => rw [List.nil_append, leNat, List.length_nil, byteBound, Nat.zero_add, Nat.one_mul]
  | cons b l ih =>
    rw [List.cons_append, leNat, leNat, ih, List.length_cons, byteBound, Nat.mul_add,
      Nat.mul_assoc, Nat.add_assoc]

theorem beNat_append (l m : Bytes) :
    beNat (l ++ m) = beNat l * byteBound m.length + beNat m := by
  rw [beNat, List.reverse_append, leNat_append, List.length_reverse, Nat.add_comm, Nat.mul_comm]
  rfl

/-! ## Fields of a word -/

namespace EpochFraction

variable {number index length : Nat}

theorem toNat_pack (hnumber : number < 0x1000000) (hindex : index < 0x10000)
    (hlength : length < 0x10000) :
    (pack number index length).full.toNat =
      length * 0x10000000000 + index * 0x1000000 + number := by
  refine UInt64.toNat_ofNat_of_lt' ?_
  simp only [UInt64.size]
  omega

theorem number_pack (hnumber : number < 0x1000000) (hindex : index < 0x10000)
    (hlength : length < 0x10000) : (pack number index length).number = number := by
  rw [EpochFraction.number, toNat_pack hnumber hindex hlength]
  omega

theorem index_pack (hnumber : number < 0x1000000) (hindex : index < 0x10000)
    (hlength : length < 0x10000) : (pack number index length).index = index := by
  rw [EpochFraction.index, toNat_pack hnumber hindex hlength]
  omega

theorem length_pack (hnumber : number < 0x1000000) (hindex : index < 0x10000)
    (hlength : length < 0x10000) : (pack number index length).length = length := by
  rw [EpochFraction.length, toNat_pack hnumber hindex hlength]
  omega

end EpochFraction

/-! ## The packed form -/

namespace Epoch

/-- The bytes of the packed form are those of the word with the same fields. -/
theorem full?_eq_pack {e : Epoch} (h : e.number.toNat < numberBound) :
    e.full? = some (EpochFraction.pack e.number.toNat e.index.toNat e.length.toNat).full := by
  have hlength : e.length.toNat < byteBound 2 := e.length.toNat_lt
  have hindex : e.index.toNat < byteBound 2 := e.index.toNat_lt
  have hnumber : e.number.toNat < byteBound 3 := h
  have hzero : beNat [0] = 0 := rfl
  have hword : beNat (0 :: (beBytes 2 e.length.toNat ++ beBytes 2 e.index.toNat ++
      beBytes 3 e.number.toNat)) =
        e.length.toNat * 0x10000000000 + e.index.toNat * 0x1000000 + e.number.toNat := by
    rw [← List.singleton_append, beNat_append, beNat_append, beNat_append, hzero,
      beNat_beBytes hlength, beNat_beBytes hindex, beNat_beBytes hnumber, length_beBytes,
      length_beBytes]
    simp only [byteBound]
    omega
  rw [full?, compose?, if_pos h, Option.map_some, hword]
  rfl

theorem fraction?_eq_pack {number index length : Nat} {e : Epoch}
    (h : ofNats number index length = .ok e) (hlength : length ≠ 0) :
    e.fraction? = some (EpochFraction.pack number index length) := by
  obtain ⟨hn, hi, hl, rfl⟩ := ofNats_eq_ok_iff.mp h
  have hword : Epoch.full? ⟨UInt16.ofNat length, UInt16.ofNat index, UInt32.ofNat number⟩ =
      some (EpochFraction.pack number index length).full := by
    rw [full?_eq_pack (number_lt_of_ofNats h), UInt16.toNat_ofNat_of_lt' hi,
      UInt16.toNat_ofNat_of_lt' hl, UInt32.toNat_ofNat_of_lt' (Nat.lt_trans hn (by decide))]
  have hne : (EpochFraction.pack number index length).length ≠ 0 := by
    rw [EpochFraction.length_pack hn hi hl]
    exact hlength
  rw [fraction?, hword, Option.map_some, EpochFraction.ofFull_of_length_ne hne]

end Epoch

end CellTx
