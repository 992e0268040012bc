import CellTx.Proofs.PackedEpochs
import Mathlib.Algebra.GroupWithZero.Nat

/-!
# The forms of an epoch

A point of chain time has its fields (`Epoch`), eight bytes (`Epoch.compose?`) and a word
(`EpochFraction`); specification, sections 3 and 4.5. Two things are lost on a way there and back:
the reserved byte, which the fields have no room for, and an epoch without blocks, which no word
that is read can have.

Results:
* `Epoch.Obtained.number_lt`: wherever a point comes from, its number fits the packed form, so that
  it has bytes.
* `Epoch.compose_resolve`, `Epoch.ofNats_eq_error_iff`: reading bytes and checking numbers, with
  their errors.
* `Epoch.fraction?_eq`, `Epoch.ofFraction_pack`: the fields and the word.
* `Epoch.forms_agree`: the bytes, the word and the fields say the same.

Out of scope: points made of fields that were not checked, which may have no bytes.
-/

namespace CellTx

/-! ## Bytes -/

theorem beBytes_beNat (l : Bytes) : beBytes l.length (beNat l) = l := by
  have h := leBytes_leNat l.reverse
  rw [List.length_reverse] at h
  rw [beBytes, beNat, h, List.reverse_reverse]

theorem beNat_lt (l : Bytes) : beNat l < byteBound l.length := by
  have h := leNat_lt l.reverse
  rwa [List.length_reverse] at h

namespace EpochFraction

/-- A word is its fields and its reserved byte. -/
theorem toNat_full (x : EpochFraction) :
    x.full.toNat = x.full.toNat / 0x100000000000000 * 0x100000000000000 +
      (x.length * 0x10000000000 + x.index * 0x1000000 + x.number) := by
  rw [length, index, number]
  omega

/-- The reserved byte of a word is zero and its fields are its own exactly when the fields are all
of it. -/
theorem pack_eq_iff (x : EpochFraction) :
    pack x.number x.index x.length = x ↔ x.full.toNat / 0x100000000000000 = 0 := by
  have hword := toNat_pack x.number_lt x.index_lt x.length_lt
  have hfull := x.toNat_full
  constructor
  · intro h
    rw [h] at hword
    omega
  · intro h
    have heq : (pack x.number x.index x.length).full = x.full := by
      refine UInt64.toNat_inj.mp ?_
      omega
    cases x
    exact congrArg EpochFraction.mk heq

/-- An epoch without blocks is read as one of one block. -/
theorem length_ofFull_of_length_eq {x : EpochFraction} (h : x.length = 0) :
    (ofFull x.full).length = 1 := by
  have hread : ofFull x.full = pack x.number 0 1 := if_pos h
  rw [hread, length_pack x.number_lt (by decide) (by decide)]

end EpochFraction

namespace Epoch

/-! ## Where a point comes from -/

/-- The ways to come by the fields of a point. -/
inductive Obtained : Epoch → Prop
  | ofNats {number index length : Nat} {e : Epoch} (checked : ofNats number index length = .ok e) :
      Obtained e
  | resolve {data : Bytes} {e : Epoch} (read : resolve data = .ok e) : Obtained e
  | ofFraction (x : EpochFraction) : Obtained (ofFraction x)

theorem toNat_number_ofFraction (x : EpochFraction) : (ofFraction x).number.toNat = x.number :=
  UInt32.toNat_ofNat_of_lt' (Nat.lt_trans x.number_lt (by decide))

theorem toNat_index_ofFraction (x : EpochFraction) : (ofFraction x).index.toNat = x.index :=
  UInt16.toNat_ofNat_of_lt' x.index_lt

theorem toNat_length_ofFraction (x : EpochFraction) : (ofFraction x).length.toNat = x.length :=
  UInt16.toNat_ofNat_of_lt' x.length_lt

/-- Eight bytes are the reserved one and the bytes of the fields. -/
theorem of_resolve {data : Bytes} {e : Epoch} (h : resolve data = .ok e) :
    ∃ (reserved : UInt8) (length index number : Bytes),
      data = reserved :: (length ++ index ++ number) ∧ length.length = 2 ∧ index.length = 2 ∧
      number.length = 3 ∧ e.length.toNat = beNat length ∧ e.index.toNat = beNat index ∧
      e.number.toNat = beNat number := by
  unfold resolve at h
  split at h
  · rename_i hlen
    obtain rfl := Except.ok.inj h
    match data, hlen with
    | [b₀, b₁, b₂, b₃, b₄, b₅, b₆, b₇], _ =>
      refine ⟨b₀, [b₁, b₂], [b₃, b₄], [b₅, b₆, b₇], rfl, rfl, rfl, rfl, ?_, ?_, ?_⟩
      · exact UInt16.toNat_ofNat_of_lt' (beNat_lt [b₁, b₂])
      · exact UInt16.toNat_ofNat_of_lt' (beNat_lt [b₃, b₄])
      · have hlt : beNat [b₅, b₆, b₇] < byteBound 3 := beNat_lt [b₅, b₆, b₇]
        exact UInt32.toNat_ofNat_of_lt' (Nat.lt_trans hlt (by decide))
  · exact nomatch h

/-- Wherever a point comes from, its number fits the packed form. -/
theorem Obtained.number_lt {e : Epoch} (h : e.Obtained) : e.number.toNat < numberBound := by
  cases h with
  | ofNats checked => exact number_lt_of_ofNats checked
  | resolve read =>
    obtain ⟨_, _, _, number, -, -, -, hlen, -, -, hnumber⟩ := of_resolve read
    have hlt := beNat_lt number
    rw [hlen] at hlt
    rw [hnumber]
    exact hlt
  | ofFraction x =>
    rw [toNat_number_ofFraction]
    exact x.number_lt

/-! ## There and back -/

/-- Packing what was read drops the reserved byte. -/
theorem compose_resolve {data : Bytes} {e : Epoch} (h : resolve data = .ok e) :
    e.compose? = some (data.set 0 0) := by
  obtain ⟨reserved, length, index, number, rfl, hl, hi, hn, hlength, hindex, hnumber⟩ :=
    of_resolve h
  have hfields : beBytes 2 (beNat length) ++ beBytes 2 (beNat index) ++
      beBytes 3 (beNat number) = length ++ index ++ number := by
    rw [← hl, beBytes_beNat, hl, ← hi, beBytes_beNat, ← hn, beBytes_beNat]
  rw [compose?, if_pos (Obtained.resolve h).number_lt, hlength, hindex, hnumber, hfields]
  rfl

/-- Fields are refused when one of them does not fit. -/
theorem ofNats_eq_error_iff {number index length : Nat} :
    (∃ f, ofNats number index length = .error f) ↔
      numberBound ≤ number ∨ UInt16.size ≤ index ∨ UInt16.size ≤ length := by
  cases h : ofNats number index length with
  | ok e =>
    obtain ⟨hn, hi, hl, -⟩ := ofNats_eq_ok_iff.mp h
    exact iff_of_false nofun (by omega)
  | error f =>
    refine iff_of_true ⟨f, rfl⟩ (Decidable.not_not.mp fun hfits => ?_)
    rw [ofNats_eq_ok_iff.mpr ⟨by omega, by omega, by omega, rfl⟩] at h
    exact nomatch h

/-- The point that is read from the word of some fields. -/
theorem fraction?_eq {e : Epoch} (h : e.number.toNat < numberBound) :
    e.fraction? = some (EpochFraction.ofFull
      (EpochFraction.pack e.number.toNat e.index.toNat e.length.toNat).full) := by
  rw [fraction?, full?_eq_pack h]
  rfl

/-- The fields of a word are read back from it. -/
theorem ofFraction_pack {e : Epoch} (h : e.number.toNat < numberBound) :
    ofFraction (EpochFraction.pack e.number.toNat e.index.toNat e.length.toNat) = e := by
  have hi := e.index.toNat_lt
  have hl := e.length.toNat_lt
  rw [ofFraction, EpochFraction.number_pack h hi hl, EpochFraction.index_pack h hi hl,
    EpochFraction.length_pack h hi hl, UInt16.ofNat_toNat, UInt16.ofNat_toNat,
    UInt32.ofNat_toNat]

/-- Fields come back from a word unless the epoch has no blocks. -/
theorem ofFraction_ofFull_pack {e : Epoch} (h : e.number.toNat < numberBound) :
    ofFraction (EpochFraction.ofFull
      (EpochFraction.pack e.number.toNat e.index.toNat e.length.toNat).full) = e ↔
        e.length ≠ 0 := by
  have hlength := EpochFraction.length_pack h e.index.toNat_lt e.length.toNat_lt
  by_cases hzero : e.length.toNat = 0
  · refine iff_of_false (fun heq => ?_) fun hne => hne (UInt16.toNat_inj.mp hzero)
    have hone := EpochFraction.length_ofFull_of_length_eq (hlength.trans hzero)
    have hback := congrArg (fun e => e.length.toNat) heq
    rw [toNat_length_ofFraction, hone, hzero] at hback
    exact nomatch hback
  · rw [EpochFraction.ofFull_of_length_ne (by rwa [hlength])]
    exact iff_of_true (ofFraction_pack h) fun heq => hzero (congrArg UInt16.toNat heq)

/-- A word comes back from its fields unless its reserved byte is set or its epoch has no
blocks. -/
theorem ofFull_pack_eq_iff (x : EpochFraction) :
    EpochFraction.ofFull (EpochFraction.pack x.number x.index x.length).full = x ↔
      x.full.toNat / 0x100000000000000 = 0 ∧ x.length ≠ 0 := by
  have hlength := EpochFraction.length_pack x.number_lt x.index_lt x.length_lt
  by_cases hzero : x.length = 0
  · refine iff_of_false (fun heq => ?_) fun h => h.2 hzero
    have hone := EpochFraction.length_ofFull_of_length_eq (hlength.trans hzero)
    rw [heq, hzero] at hone
    exact nomatch hone
  · rw [EpochFraction.ofFull_of_length_ne (by rwa [hlength]), EpochFraction.pack_eq_iff,
      and_iff_left hzero]

/-- The three forms of a point agree. A point that was checked, read from bytes or taken from a
word has a packed form, from which it is read back, and whose word is made of its fields; it comes
back from that word as a point exactly when its epoch has blocks. Eight bytes come back with the
reserved byte zero, and other bytes are refused; fields are refused exactly when one of them does
not fit. A word comes back exactly when its reserved byte is zero and its epoch has blocks. -/
theorem forms_agree :
    (∀ e : Epoch, e.Obtained → e.number.toNat < numberBound ∧
      (∃ l, e.compose? = some l ∧ resolve l = .ok e) ∧
      (∃ word, e.full? = some word ∧
        word.toNat = e.length.toNat * 2 ^ 40 + e.index.toNat * 2 ^ 24 + e.number.toNat) ∧
      ∃ x, e.fraction? = some x ∧ (ofFraction x = e ↔ e.length ≠ 0)) ∧
    (∀ data : Bytes, data.length = 8 →
      ∃ e, resolve data = .ok e ∧ e.compose? = some (data.set 0 0)) ∧
    (∀ data : Bytes, data.length ≠ 8 → resolve data = .error (.packedEpoch data.length)) ∧
    (∀ number index length : Nat, (∃ f, ofNats number index length = .error f) ↔
      2 ^ 24 ≤ number ∨ 2 ^ 16 ≤ index ∨ 2 ^ 16 ≤ length) ∧
    ∀ x : EpochFraction, ∃ y, (ofFraction x).fraction? = some y ∧
      (y = x ↔ x.full.toNat / 2 ^ 56 = 0 ∧ x.length ≠ 0) := by
  refine ⟨fun e he => ?_, fun data hlen => ?_, fun data hlen => if_neg hlen,
    fun number index length => ofNats_eq_error_iff, fun x => ?_⟩
  · have hlt := he.number_lt
    obtain ⟨l, hl⟩ : ∃ l, e.compose? = some l := ⟨_, if_pos hlt⟩
    exact ⟨hlt, ⟨l, hl, resolve_compose hl⟩,
      ⟨_, full?_eq_pack hlt, EpochFraction.toNat_pack hlt e.index.toNat_lt e.length.toNat_lt⟩,
      _, fraction?_eq hlt, ofFraction_ofFull_pack hlt⟩
  · obtain ⟨e, he⟩ : ∃ e, resolve data = .ok e := ⟨_, if_pos hlen⟩
    exact ⟨e, he, compose_resolve he⟩
  · have hx := (Obtained.ofFraction x).number_lt
    refine ⟨_, fraction?_eq hx, ?_⟩
    rw [toNat_number_ofFraction, toNat_index_ofFraction, toNat_length_ofFraction]
    exact ofFull_pack_eq_iff x

/-- Bytes whose reserved byte is set: it is lost, and the point comes back from its word. -/
theorem forms_agree_reservedByte :
    ∃ e x, resolve [0xff, 0x07, 0x08, 0, 0x0a, 0, 0x04, 0] = .ok e ∧
      e.compose? = some [0, 0x07, 0x08, 0, 0x0a, 0, 0x04, 0] ∧ e.fraction? = some x ∧
      ofFraction x = e := by
  obtain ⟨hobtained, hbytes, -⟩ := forms_agree
  obtain ⟨e, he, hcompose⟩ := hbytes [0xff, 0x07, 0x08, 0, 0x0a, 0, 0x04, 0] rfl
  obtain ⟨-, -, -, x, hx, hback⟩ := hobtained e (.resolve he)
  refine ⟨e, x, he, hcompose, hx, hback.mpr ?_⟩
  rw [← Except.ok.inj he]
  decide

end Epoch

end CellTx
