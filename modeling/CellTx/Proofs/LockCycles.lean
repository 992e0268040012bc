import CellTx.Proofs.PackedEpochs
import CellTx.Proofs.Trapping
import Mathlib.Data.Rat.Floor
import Mathlib.Tactic.Linarith
import Mathlib.Tactic.Positivity

/-!
# Lock cycles on the line of chain time

A point of chain time is a number of epochs, with the position within the epoch as its fraction
(`EpochFraction.point`). Epochs differ in length, so fractions are compared crosswise; on the line
this is the order of numbers (specification, section 4.5).

Results:
* `Dao.depositedEpochs_eq_ceil`: the epochs from a deposit to its withdrawal are their distance,
  rounded up.
* `Dao.isLeast_begunCycles`: the cycles that have begun are the fewest that reach the withdrawal.
* `Dao.minimalUnlock_of_lt`, `Dao.minimalUnlock_of_le`: the point is packed, or its number refused.
* `Dao.minimalUnlock_first_cycle`: a deposit unlocks at the first whole cycle at or after its
  withdrawal, when that can be packed.

Out of scope: points whose position is not within their epoch; `EpochFraction.Proper` excludes them.
-/

namespace CellTx

/-! ## Points as numbers -/

namespace EpochFraction

variable {d w : EpochFraction}

/-- A point as a number of epochs. -/
def point (e : EpochFraction) : ℚ := e.number + e.index / e.length

/-- The position is one of the epoch. -/
def Proper (e : EpochFraction) : Prop := e.index < e.length

instance (e : EpochFraction) : Decidable e.Proper := inferInstanceAs (Decidable (_ < _))

theorem Proper.length_pos (h : d.Proper) : 0 < d.length := Nat.lt_of_le_of_lt (Nat.zero_le _) h

theorem part_nonneg (e : EpochFraction) : (0 : ℚ) ≤ e.index / e.length := by positivity

theorem Proper.part_lt_one (h : d.Proper) : (d.index / d.length : ℚ) < 1 := by
  have hpos : (0 : ℚ) < d.length := Nat.cast_pos.mpr h.length_pos
  rw [div_lt_one hpos]
  exact Nat.cast_lt.mpr h

/-- Fractions of epochs are compared crosswise. -/
theorem Proper.part_lt_part_iff (hd : d.Proper) (hw : w.Proper) :
    (d.index / d.length : ℚ) < w.index / w.length ↔ d.index * w.length < w.index * d.length := by
  have hd : (0 : ℚ) < d.length := Nat.cast_pos.mpr hd.length_pos
  have hw : (0 : ℚ) < w.length := Nat.cast_pos.mpr hw.length_pos
  rw [div_lt_div_iff₀ hd hw]
  exact_mod_cast Iff.rfl

/-- A later point is in no earlier epoch. -/
theorem Proper.number_le (hw : w.Proper) (h : d.point ≤ w.point) : d.number ≤ w.number := by
  have hlt : (d.number : ℚ) < w.number + 1 := by
    have hpart := d.part_nonneg
    have hone := hw.part_lt_one
    unfold point at h
    linarith
  exact Nat.lt_succ_iff.mp (by exact_mod_cast hlt)

end EpochFraction

/-! ## Cycles -/

namespace Dao

variable {d w : EpochFraction}

/-- The epochs of a deposit are its distance to the withdrawal, rounded up. -/
theorem depositedEpochs_eq_ceil (hd : d.Proper) (hw : w.Proper) (h : d.point ≤ w.point) :
    (depositedEpochs d w : ℤ) = ⌈w.point - d.point⌉ := by
  have hwhole : ((w.number - d.number : Nat) : ℚ) = w.number - d.number :=
    Nat.cast_sub (hw.number_le h)
  have hd₀ := d.part_nonneg
  have hd₁ := hd.part_lt_one
  have hw₀ := w.part_nonneg
  have hw₁ := hw.part_lt_one
  rw [eq_comm, Int.ceil_eq_iff]
  unfold depositedEpochs EpochFraction.point
  dsimp only
  -- the fraction of the distance is above zero exactly when an epoch has begun
  split
  · rename_i hcross
    have hpart := (hd.part_lt_part_iff hw).mpr hcross
    push_cast
    rw [hwhole]
    constructor <;> linarith
  · rename_i hcross
    have hpart := not_lt.mp (mt (hd.part_lt_part_iff hw).mp hcross)
    push_cast
    rw [hwhole]
    constructor <;> linarith

/-- The cycles that have begun at a withdrawal. -/
def begunCycles (d w : EpochFraction) : Nat := (depositedEpochs d w + (cycle - 1)) / cycle

theorem lockedEpochs_eq_cycles (d w : EpochFraction) :
    lockedEpochs d w = cycle * begunCycles d w := Nat.mul_comm _ _

/-- Some cycles reach a withdrawal when they have as many epochs as lie before it. -/
theorem reaches_iff (hd : d.Proper) (hw : w.Proper) (h : d.point ≤ w.point) (k : Nat) :
    w.point ≤ d.point + (cycle * k : Nat) ↔ depositedEpochs d w ≤ cycle * k := by
  calc w.point ≤ d.point + (cycle * k : Nat)
      ↔ w.point - d.point ≤ ((cycle * k : Nat) : ℤ) := by
        rw [sub_le_iff_le_add', Int.cast_natCast]
    _ ↔ ⌈w.point - d.point⌉ ≤ ((cycle * k : Nat) : ℤ) := Int.ceil_le.symm
    _ ↔ depositedEpochs d w ≤ cycle * k := by
        rw [← depositedEpochs_eq_ceil hd hw h, Int.ofNat_le]

/-- The cycles that have begun are the fewest that reach the withdrawal. -/
theorem isLeast_begunCycles (hd : d.Proper) (hw : w.Proper) (h : d.point ≤ w.point) :
    IsLeast {k : Nat | w.point ≤ d.point + (cycle * k : Nat)} (begunCycles d w) := by
  constructor
  · refine (reaches_iff hd hw h _).mpr ?_
    rw [begunCycles, cycle]
    omega
  · intro k hk
    have hle := (reaches_iff hd hw h k).mp hk
    rw [begunCycles, cycle]
    rw [cycle] at hle
    omega

/-- A later withdrawal is not reached by fewer cycles. -/
theorem lockedEpochs_mono {w' : EpochFraction} (hd : d.Proper) (hw : w.Proper) (hw' : w'.Proper)
    (h : d.point ≤ w.point) (hle : w.point ≤ w'.point) :
    lockedEpochs d w ≤ lockedEpochs d w' := by
  have hreach := (isLeast_begunCycles hd hw' (h.trans hle)).1
  rw [lockedEpochs_eq_cycles, lockedEpochs_eq_cycles]
  exact Nat.mul_le_mul_left _ ((isLeast_begunCycles hd hw h).2 (hle.trans hreach))

/-! ## The first point -/

/-- The point some epochs after a deposit, at the same position. -/
def later (d : EpochFraction) (epochs : Nat) : EpochFraction :=
  .pack (d.number + epochs) d.index d.length

theorem minimalUnlock_of_lt (hd : d.Proper)
    (hlt : d.number + lockedEpochs d w < Epoch.numberBound) :
    minimalUnlock d w = .ok (later d (lockedEpochs d w)) := by
  have hpack := Epoch.ofNats_eq_ok_iff.mpr ⟨hlt, d.index_lt, d.length_lt, rfl⟩
  exact minimalUnlock_eq_ok.mpr
    ⟨_, hpack, Epoch.fraction?_eq_pack hpack (Nat.ne_of_gt hd.length_pos)⟩

theorem minimalUnlock_of_le (hle : Epoch.numberBound ≤ d.number + lockedEpochs d w) :
    minimalUnlock d w =
      .error (.encoding (.epochNumber (d.number + lockedEpochs d w))) := by
  rcases minimalUnlock_cases d w with ⟨e, he⟩ | ⟨-, herror⟩
  · obtain ⟨packed, hpack, -⟩ := minimalUnlock_eq_ok.mp he
    exact absurd (Epoch.ofNats_eq_ok_iff.mp hpack).1 (Nat.not_lt_of_le hle)
  · exact herror

/-- It is the deposit's point, later by so many epochs and without reserved bits. -/
structure IsLater (d : EpochFraction) (epochs : Nat) (e : EpochFraction) : Prop where
  number : e.number = d.number + epochs
  index : e.index = d.index
  length : e.length = d.length
  reserved : e.full.toNat < 2 ^ 56

theorem isLater_later {epochs : Nat} (h : d.number + epochs < Epoch.numberBound) :
    IsLater d epochs (later d epochs) where
  number := EpochFraction.number_pack h d.index_lt d.length_lt
  index := EpochFraction.index_pack h d.index_lt d.length_lt
  length := EpochFraction.length_pack h d.index_lt d.length_lt
  reserved := by
    have hindex := d.index_lt
    have hlength := d.length_lt
    rw [later, EpochFraction.toNat_pack h hindex hlength]
    rw [Epoch.numberBound] at h
    omega

theorem IsLater.point_eq {e : EpochFraction} {epochs : Nat} (h : IsLater d epochs e) :
    e.point = d.point + epochs := by
  rw [EpochFraction.point, EpochFraction.point, h.number, h.index, h.length]
  push_cast
  ring

/-- The epochs from a deposit to its withdrawal are their distance, rounded up. A deposit can be
claimed the least number of whole cycles after its own point that reaches the withdrawal, unless the
number of that epoch takes more than 24 bits, which fails; a later withdrawal is not claimed
earlier. -/
theorem minimalUnlock_first_cycle (hd : d.Proper) (hw : w.Proper) (h : d.point ≤ w.point) :
    (depositedEpochs d w : ℤ) = ⌈w.point - d.point⌉ ∧
    (∃ k : Nat, IsLeast {k : Nat | w.point ≤ d.point + (180 * k : Nat)} k ∧
      (d.number + 180 * k < 2 ^ 24 → ∃ e, minimalUnlock d w = .ok e ∧ IsLater d (180 * k) e ∧
        e.point = d.point + (180 * k : Nat)) ∧
      (2 ^ 24 ≤ d.number + 180 * k →
        minimalUnlock d w = .error (.encoding (.epochNumber (d.number + 180 * k))))) ∧
    ∀ w' : EpochFraction, w'.Proper → w.point ≤ w'.point → ∀ e', minimalUnlock d w' = .ok e' →
      ∃ e, minimalUnlock d w = .ok e ∧ e.point ≤ e'.point := by
  refine ⟨depositedEpochs_eq_ceil hd hw h, ⟨begunCycles d w, isLeast_begunCycles hd hw h, ?_⟩,
    fun w' hw' hle e' he' => ?_⟩
  · have hlocked : 180 * begunCycles d w = lockedEpochs d w := (lockedEpochs_eq_cycles d w).symm
    rw [hlocked]
    refine ⟨fun hlt => ?_, minimalUnlock_of_le⟩
    have hlater := isLater_later (d := d) hlt
    exact ⟨_, minimalUnlock_of_lt hd hlt, hlater, hlater.point_eq⟩
  · have hmono := lockedEpochs_mono hd hw hw' h hle
    rcases Nat.lt_or_ge (d.number + lockedEpochs d w') Epoch.numberBound with hlt' | hge'
    · obtain rfl := Except.ok.inj ((minimalUnlock_of_lt hd hlt').symm.trans he')
      have hlt : d.number + lockedEpochs d w < Epoch.numberBound := by omega
      refine ⟨_, minimalUnlock_of_lt hd hlt, ?_⟩
      rw [(isLater_later hlt).point_eq, (isLater_later hlt').point_eq]
      exact add_le_add_right (Nat.cast_le.mpr hmono) _
    · exact nomatch (minimalUnlock_of_le hge').symm.trans he'

/-- Made at 5 + 100/1000 and withdrawn at 185 + 101/1000, a deposit unlocks after two cycles, at
365 + 100/1000. -/
theorem minimalUnlock_first_cycle_begun :
    ∃ d w : EpochFraction, d.number = 5 ∧ w.number = 185 ∧ d.Proper ∧ w.Proper ∧
      d.point ≤ w.point ∧ ⌈w.point - d.point⌉ = 181 ∧
      ∃ e, minimalUnlock d w = .ok e ∧ IsLater d 360 e := by
  have hle : (EpochFraction.pack 5 100 1000).point ≤ (EpochFraction.pack 185 101 1000).point := by
    decide +kernel
  obtain ⟨hceil, ⟨k, hleast, hpaid, -⟩, -⟩ := minimalUnlock_first_cycle (by decide) (by decide) hle
  have hk : k = 2 := hleast.unique (isLeast_begunCycles (by decide) (by decide) hle)
  obtain ⟨e, he, hlater, -⟩ := hpaid (by rw [hk]; decide)
  rw [hk] at hlater
  exact ⟨_, _, by decide, by decide, by decide, by decide, hle, hceil.symm, e, he, hlater⟩

end Dao

end CellTx
