import CellTx.Proofs.Draft
import CellTx.Proofs.Trapping

/-!
# What interest comes to

The interest of a deposit is what its free capacity grows by between two accumulate rates, rounded
down (`Dao.growth`; specification, section 4.5). It is computed as a difference: the grown capacity
is rounded down, and the free capacity is taken from it again.

Results:
* `Dao.sub_eq_growth`: both come to the same, so what is known of a quotient is known of interest.
* `Dao.growth_pos_iff`, `Dao.growth_le_growth`: when it is positive, and that it grows with the free
  capacity and the later rate and falls with the earlier one.
* `Dao.compensation_eq_ok_iff`: what is answered, and when.
* `Dao.compensation_exact`: the answer for all inputs of 64 bits, with both errors.

Out of scope: interest over several withdrawals, and how rates change from block to block.
-/

namespace CellTx.Dao

/-! ## Growth -/

/-- What free capacity grows by between two rates, rounded down; it does not shrink. -/
def growth (free depositRate withdrawRate : Nat) : Nat :=
  if depositRate ≤ withdrawRate then free * (withdrawRate - depositRate) / depositRate else 0

variable {free free' depositRate depositRate' withdrawRate withdrawRate' : Nat}

theorem growth_eq (free depositRate withdrawRate : Nat) :
    growth free depositRate withdrawRate = free * (withdrawRate - depositRate) / depositRate := by
  unfold growth
  split
  · rfl
  · rename_i hfall
    rw [Nat.sub_eq_zero_of_le (by omega), Nat.mul_zero, Nat.zero_div]

/-- The growth is what the grown capacity has beyond the free capacity, although both are rounded
down before they are compared. -/
theorem sub_eq_growth (hpos : 0 < depositRate) (free withdrawRate : Nat) :
    free * withdrawRate / depositRate - free = growth free depositRate withdrawRate := by
  unfold growth
  split
  · rename_i hle
    have hsplit : free * withdrawRate =
        free * (withdrawRate - depositRate) + free * depositRate := by
      rw [← Nat.mul_add, Nat.sub_add_cancel hle]
    rw [hsplit, Nat.add_mul_div_right _ _ hpos, Nat.add_sub_cancel]
  · rename_i hfall
    have hle : free * withdrawRate / depositRate ≤ free := by
      calc free * withdrawRate / depositRate
          ≤ free * depositRate / depositRate :=
            Nat.div_le_div_right (Nat.mul_le_mul_left _ (by omega))
        _ = free := Nat.mul_div_cancel free hpos
    exact Nat.sub_eq_zero_of_le hle

theorem growth_pos_iff (hpos : 0 < depositRate) :
    0 < growth free depositRate withdrawRate ↔
      depositRate < withdrawRate ∧ depositRate ≤ free * (withdrawRate - depositRate) := by
  rw [growth_eq, Nat.div_pos_iff]
  constructor
  · rintro ⟨-, hle⟩
    refine ⟨Nat.lt_of_not_le fun hfall => ?_, hle⟩
    -- without a rise of the rate the product is zero
    rw [Nat.sub_eq_zero_of_le hfall, Nat.mul_zero] at hle
    omega
  · rintro ⟨-, hle⟩
    exact ⟨hpos, hle⟩

/-- More free capacity, an earlier rate that is lower and a later one that is higher do not lessen
the growth. -/
theorem growth_le_growth (hfree : free ≤ free') (hpos : 0 < depositRate')
    (hdeposit : depositRate' ≤ depositRate) (hwithdraw : withdrawRate ≤ withdrawRate') :
    growth free depositRate withdrawRate ≤ growth free' depositRate' withdrawRate' := by
  rw [growth_eq, growth_eq]
  refine Nat.div_le_div (Nat.mul_le_mul hfree ?_) hdeposit (Nat.ne_of_gt hpos)
  omega

/-! ## Interest -/

/-- The growth of what a deposit does not occupy. -/
def interest (total occupied : Capacity) (depositRate withdrawRate : UInt64) : Nat :=
  growth (total.toNat - occupied.toNat) depositRate.toNat withdrawRate.toNat

section Deposit

variable {total occupied : Capacity} {depositRate withdrawRate : UInt64}

theorem toNat_pos_of_ne_zero (h : depositRate ≠ 0) : 0 < depositRate.toNat :=
  Nat.pos_of_ne_zero fun hzero => h (UInt64.toNat_inj.mp hzero)

theorem compensation_of_zero :
    compensation total occupied 0 withdrawRate = .error (.encoding .zeroRate) := rfl

theorem compensation_of_lt (hrate : depositRate ≠ 0) (hlt : total < occupied) :
    compensation total occupied depositRate withdrawRate = .error .capacityOverflow := by
  have hsub : Capacity.sub? total occupied = none :=
    Capacity.sub?_eq_none_iff.mpr (UInt64.lt_iff_toNat_lt.mp hlt)
  unfold compensation
  rw [if_neg hrate, hsub]

theorem compensation_of_le (hrate : depositRate ≠ 0) (hle : occupied ≤ total) :
    compensation total occupied depositRate withdrawRate =
      Draft.exactly (Capacity.ofNat? (interest total occupied depositRate withdrawRate)) := by
  have hle := UInt64.le_iff_toNat_le.mp hle
  have hlt := Capacity.toNat_lt total
  obtain ⟨free, hfree⟩ : ∃ free, Capacity.sub? total occupied = some free :=
    ⟨_, (if_pos hle).trans (if_pos (by omega))⟩
  have hnumber : free.toNat = total.toNat - occupied.toNat := by
    have := Capacity.sub?_eq_some_iff.mp hfree
    omega
  unfold compensation
  simp only [if_neg hrate, hfree, sub_eq_growth (toNat_pos_of_ne_zero hrate)]
  rw [interest, ← hnumber]
  cases Capacity.ofNat? (growth free.toNat depositRate.toNat withdrawRate.toNat) with
  | none => rfl
  | some interest => rfl

/-- Interest is there exactly when the rate and the occupied capacity allow for it and it fits 64
bits. -/
theorem compensation_eq_ok_iff {r : Capacity} :
    compensation total occupied depositRate withdrawRate = .ok r ↔
      depositRate ≠ 0 ∧ occupied ≤ total ∧
        r.toNat = interest total occupied depositRate withdrawRate := by
  by_cases hrate : depositRate = 0
  · refine iff_of_false ?_ fun h => h.1 hrate
    rw [hrate, compensation_of_zero]
    exact nofun
  by_cases hle : occupied ≤ total
  · rw [compensation_of_le hrate hle, Draft.exactly_eq_ok, Capacity.ofNat?_eq_some_iff]
    exact ⟨fun h => ⟨hrate, hle, h⟩, fun h => h.2.2⟩
  · refine iff_of_false ?_ fun h => hle h.2.1
    rw [compensation_of_lt hrate (UInt64.not_le.mp hle)]
    exact nofun

end Deposit

/-- The compensation of a deposit is the interest on what it does not occupy, rounded down, when
that fits 64 bits; without an earlier rate, or when more is occupied than is there, there is none.
It is positive exactly when the rate has risen enough for one shannon. Where it is there, it grows
with the later rate and the total, and falls with the earlier rate and the occupied capacity. Its
product fits 128 bits, so computing it never traps. -/
theorem compensation_exact (total occupied : Capacity) (depositRate withdrawRate : UInt64) :
    (depositRate = 0 →
      compensation total occupied depositRate withdrawRate = .error (.encoding .zeroRate)) ∧
    (depositRate ≠ 0 → total < occupied →
      compensation total occupied depositRate withdrawRate = .error .capacityOverflow) ∧
    (depositRate ≠ 0 → occupied ≤ total →
      (interest total occupied depositRate withdrawRate < 2 ^ 64 →
        ∃ r, compensation total occupied depositRate withdrawRate = .ok r ∧
          r.toNat = interest total occupied depositRate withdrawRate) ∧
      (2 ^ 64 ≤ interest total occupied depositRate withdrawRate →
        compensation total occupied depositRate withdrawRate = .error .capacityOverflow)) ∧
    (∀ r, compensation total occupied depositRate withdrawRate = .ok r →
      (0 < r ↔ depositRate < withdrawRate ∧ depositRate.toNat ≤
        (total.toNat - occupied.toNat) * (withdrawRate.toNat - depositRate.toNat)) ∧
      ∀ total' occupied' depositRate' withdrawRate' r', total ≤ total' → occupied' ≤ occupied →
        depositRate' ≤ depositRate → withdrawRate ≤ withdrawRate' →
        compensation total' occupied' depositRate' withdrawRate' = .ok r' → r ≤ r') ∧
    (total.toNat - occupied.toNat) * withdrawRate.toNat < 2 ^ 128 ∧
    (Trapping.compensation total occupied depositRate withdrawRate).run =
      some (compensation total occupied depositRate withdrawRate) := by
  refine ⟨fun hzero => ?_, compensation_of_lt, fun hrate hle => ⟨fun hfits => ?_, fun hlarge => ?_⟩,
    fun r hr => ?_, ?_, Trapping.compensation_eq total occupied depositRate withdrawRate⟩
  · rw [hzero, compensation_of_zero]
  · have hr := UInt64.toNat_ofNat_of_lt' hfits
    exact ⟨_, compensation_eq_ok_iff.mpr ⟨hrate, hle, hr⟩, hr⟩
  · rw [compensation_of_le hrate hle, Capacity.ofNat?_eq_none_iff.mpr hlarge]
    rfl
  · obtain ⟨hrate, -, hr⟩ := compensation_eq_ok_iff.mp hr
    constructor
    · rw [UInt64.lt_iff_toNat_lt, UInt64.lt_iff_toNat_lt, hr]
      exact growth_pos_iff (toNat_pos_of_ne_zero hrate)
    · intro total' occupied' depositRate' withdrawRate' r' htotal hoccupied hdeposit hwithdraw h'
      obtain ⟨hrate', -, hr'⟩ := compensation_eq_ok_iff.mp h'
      rw [UInt64.le_iff_toNat_le] at htotal hoccupied hdeposit hwithdraw ⊢
      rw [hr, hr']
      exact growth_le_growth (by omega) (toNat_pos_of_ne_zero hrate') hdeposit hwithdraw
  · calc (total.toNat - occupied.toNat) * withdrawRate.toNat
        ≤ total.toNat * withdrawRate.toNat := Nat.mul_le_mul_right _ (Nat.sub_le _ _)
      _ < 2 ^ 64 * 2 ^ 64 := Nat.mul_lt_mul'' total.toNat_lt withdrawRate.toNat_lt
      _ = 2 ^ 128 := rfl

/-- At one percent of growth 898 free CKB earn 8.98 CKB, and no less at a later rate. -/
theorem compensation_exact_onePercent :
    ∃ r, compensation 100000000000 10200000000 10000000000000000 10100000000000000 = .ok r ∧
      r.toNat = 898000000 ∧ 0 < r ∧
      ∀ r', compensation 100000000000 10200000000 10000000000000000 10200000000000000 = .ok r' →
        r ≤ r' := by
  obtain ⟨-, -, hpaid, hgrows, -⟩ :=
    compensation_exact 100000000000 10200000000 10000000000000000 10100000000000000
  obtain ⟨r, hr, hnumber⟩ := (hpaid (by decide) (by decide)).1 (by decide)
  obtain ⟨hpositive, hmono⟩ := hgrows r hr
  exact ⟨r, hr, hnumber, hpositive.mpr (by decide), fun r' h' =>
    hmono _ _ _ _ r' (by decide) (by decide) (by decide) (by decide) h'⟩

end CellTx.Dao
