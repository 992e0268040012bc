import CellTx.Dao.LockPeriod
import CellTx.Since

/-!
# When a deposit unlocks

A deposit that is withdrawn has a first point at which it can be claimed, unless the number of that
epoch takes more than 24 bits (specification, section 4.5).

Results:
* `Dao.minimalUnlock_eq_ok`, `Dao.minimalUnlock_cases`: the point, or the error of its number.
* `Since.epoch_make`: a point without reserved bits, in the form in which words are read, comes back
  from a time lock.
* `Dao.epoch_absoluteEpoch_minimalUnlock`: so the first point does.

Out of scope: which point it is on the line of chain time (`CellTx.Proofs.LockCycles`).
-/

namespace CellTx

/-! ## Points of chain time -/

/-- A zero byte on top of a number does not change it. -/
theorem leNat_append_zero (l : Bytes) : leNat (l ++ [0]) = leNat l := by
  induction l with
  | nil => rfl
  | cons b l ih => rw [List.cons_append, leNat, leNat, ih]

/-- The packed form leaves the eight reserved bits out. -/
theorem Epoch.full?_lt {e : Epoch} {word : UInt64} (h : e.full? = some word) :
    word.toNat < 0x100000000000000 := by
  obtain ⟨l, hl, rfl⟩ := Option.map_eq_some_iff.mp h
  unfold compose? at hl
  split at hl
  · obtain rfl := Option.some.inj hl
    have hlt := leNat_lt (beBytes 2 e.length.toNat ++ beBytes 2 e.index.toNat ++
      beBytes 3 e.number.toNat).reverse
    simp only [List.length_reverse, List.length_append, length_beBytes, byteBound] at hlt
    rw [beNat, List.reverse_cons, leNat_append_zero,
      UInt64.toNat_ofNat_of_lt' (Nat.lt_trans hlt (by decide))]
    exact hlt
  · exact absurd hl.symm (Option.some_ne_none l)

namespace EpochFraction

/-- The start of an epoch of one block. -/
theorem toNat_pack_start (number : Nat) (h : number < 0x1000000) :
    (pack number 0 1).full.toNat = 0x10000000000 + number := by
  rw [pack, UInt64.toNat_ofNat_of_lt' (by simp only [UInt64.size]; omega)]

theorem ofFull_of_length_ne {e : EpochFraction} (h : e.length ≠ 0) : ofFull e.full = e := if_neg h

/-- Reading a word that was read changes nothing. -/
theorem ofFull_full_ofFull (word : UInt64) : ofFull (ofFull word).full = ofFull word := by
  by_cases h : (EpochFraction.mk word).length = 0
  · have hread : ofFull word = pack (EpochFraction.mk word).number 0 1 := if_pos h
    rw [hread]
    refine ofFull_of_length_ne ?_
    have hnumber := (EpochFraction.mk word).number_lt
    rw [length, toNat_pack_start _ hnumber]
    omega
  · have hread : ofFull word = ⟨word⟩ := if_neg h
    rw [hread]
    exact ofFull_of_length_ne h

/-- A word without reserved bits is read as one. -/
theorem full_ofFull_lt {word : UInt64} (h : word.toNat < 0x100000000000000) :
    (ofFull word).full.toNat < 0x100000000000000 := by
  by_cases hlength : (EpochFraction.mk word).length = 0
  · have hread : ofFull word = pack (EpochFraction.mk word).number 0 1 := if_pos hlength
    have hnumber := (EpochFraction.mk word).number_lt
    rw [hread, toNat_pack_start _ hnumber]
    omega
  · have hread : ofFull word = ⟨word⟩ := if_neg hlength
    rw [hread]
    exact h

end EpochFraction

/-- A point without reserved bits, in the form in which words are read, survives a time lock that
counts epochs. -/
theorem Since.epoch_make (relative : Bool) {e : EpochFraction}
    (hlt : e.full.toNat < 0x100000000000000) (hread : EpochFraction.ofFull e.full = e) :
    (make relative .epoch e.full).epoch = some e := by
  have hvalue : (make relative .epoch e.full).value = e.full := by
    refine UInt64.toNat_inj.mp ?_
    rw [toNat_value_make, Nat.mod_eq_of_lt hlt]
  rw [epoch, if_pos (metric_make relative .epoch e.full), hvalue, hread]

/-! ## The first point -/

theorem Epoch.number_lt_of_ofNats {number index length : Nat} {e : Epoch}
    (h : ofNats number index length = .ok e) : e.number.toNat < numberBound := by
  obtain ⟨hbound, -, -, rfl⟩ := ofNats_eq_ok_iff.mp h
  rw [UInt32.toNat_ofNat_of_lt' (Nat.lt_trans hbound (by decide))]
  exact hbound

/-- An epoch whose fields were checked has a packed form. -/
theorem Epoch.exists_fraction? {number index length : Nat} {e : Epoch}
    (h : ofNats number index length = .ok e) : ∃ point, e.fraction? = some point := by
  rw [fraction?, full?, compose?, if_pos (number_lt_of_ofNats h)]
  exact ⟨_, rfl⟩

namespace Dao

theorem ofNats_eq_error {number index length : Nat} (hindex : index < UInt16.size)
    (hlength : length < UInt16.size) {e : EncodingError}
    (h : Epoch.ofNats number index length = .error e) :
    Epoch.numberBound ≤ number ∧ e = .epochNumber number := by
  unfold Epoch.ofNats at h
  split at h
  · exact ⟨‹_›, (Except.error.inj h).symm⟩
  · rw [if_neg (by omega), if_neg (by omega)] at h
    exact nomatch h

/-- A first point is read from the packed form of its fields. -/
theorem minimalUnlock_eq_ok {deposit withdraw e : EpochFraction} :
    minimalUnlock deposit withdraw = .ok e ↔
      ∃ packed, Epoch.ofNats (deposit.number + lockedEpochs deposit withdraw) deposit.index
        deposit.length = .ok packed ∧ packed.fraction? = some e := by
  unfold minimalUnlock
  dsimp only
  cases Epoch.ofNats (deposit.number + lockedEpochs deposit withdraw) deposit.index
      deposit.length with
  | error _ => exact iff_of_false nofun nofun
  | ok packed =>
    cases hpoint : packed.fraction? with
    | none =>
      refine iff_of_false (fun h => ?_) ?_
      · simp only [hpoint] at h
        exact nomatch h
      · rintro ⟨_, hpacked, h⟩
        obtain rfl := Except.ok.inj hpacked
        exact absurd (hpoint.symm.trans h) (Option.some_ne_none e).symm
    | some point =>
      constructor
      · intro h
        simp only [hpoint] at h
        exact ⟨packed, rfl, hpoint.trans (congrArg some (Except.ok.inj h))⟩
      · rintro ⟨_, hpacked, h⟩
        obtain rfl := Except.ok.inj hpacked
        simp only [hpoint, Option.some.inj (hpoint.symm.trans h)]
        rfl

/-- There is a first point, unless the number of its epoch takes more than 24 bits. -/
theorem minimalUnlock_cases (deposit withdraw : EpochFraction) :
    (∃ e, minimalUnlock deposit withdraw = .ok e) ∨
      Epoch.numberBound ≤ deposit.number + lockedEpochs deposit withdraw ∧
        minimalUnlock deposit withdraw =
          .error (.encoding (.epochNumber (deposit.number + lockedEpochs deposit withdraw))) := by
  cases hpack : Epoch.ofNats (deposit.number + lockedEpochs deposit withdraw) deposit.index
      deposit.length with
  | error e =>
    obtain ⟨hbound, rfl⟩ := ofNats_eq_error deposit.index_lt deposit.length_lt hpack
    refine Or.inr ⟨hbound, ?_⟩
    simp only [minimalUnlock, hpack]
    rfl
  | ok e =>
    obtain ⟨point, hpoint⟩ := Epoch.exists_fraction? hpack
    exact Or.inl ⟨point, minimalUnlock_eq_ok.mpr ⟨e, hpack, hpoint⟩⟩

/-- The first point survives a time lock. -/
theorem epoch_absoluteEpoch_minimalUnlock {deposit withdraw e : EpochFraction}
    (h : minimalUnlock deposit withdraw = .ok e) : (Since.absoluteEpoch e).epoch = some e := by
  obtain ⟨packed, -, hpoint⟩ := minimalUnlock_eq_ok.mp h
  obtain ⟨word, hword, rfl⟩ := Option.map_eq_some_iff.mp hpoint
  exact Since.epoch_make false (EpochFraction.full_ofFull_lt (Epoch.full?_lt hword))
    (EpochFraction.ofFull_full_ofFull word)

end Dao

end CellTx
