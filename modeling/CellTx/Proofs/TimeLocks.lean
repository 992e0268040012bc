import CellTx.Proofs.Unlock
import Mathlib.Data.Nat.Bitwise

/-!
# The words of time locks

The six kinds of time lock (`Since.Kind`) against the words of 64 bits that they are written as
(specification, section 14). A lock is the two marks of its kind and the low 56 bits of what it is
given, none of which overlap.

Results:
* `Since.Kind.raw_lock`: a lock as its marks and its value.
* `Since.make_eq_iff`: no two locks are written alike.
* `Since.reservedClear_iff`, `Since.metric_eq_none_iff`, `Since.make_parts`: the words that are
  locks are those whose reserved bits are zero and whose metric is not the reserved one.
* `Since.words_exact`: all of it, with the points of chain time that come back from a lock.

Out of scope: values that need more than 56 bits, which are cut.
-/

namespace CellTx

namespace Since

/-! ## Kinds -/

/-- The kinds of time lock: where one counts from, and what. -/
inductive Kind where
  | absoluteBlockNumber
  | relativeBlockNumber
  | absoluteEpoch
  | relativeEpoch
  | absoluteTimestamp
  | relativeTimestamp
deriving DecidableEq

namespace Kind

/-- Whether locks of the kind count from the block that committed the input. -/
def isRelative : Kind → Bool
  | absoluteBlockNumber | absoluteEpoch | absoluteTimestamp => false
  | relativeBlockNumber | relativeEpoch | relativeTimestamp => true

/-- What locks of the kind count. -/
def metric : Kind → Metric
  | absoluteBlockNumber | relativeBlockNumber => .blockNumber
  | absoluteEpoch | relativeEpoch => .epoch
  | absoluteTimestamp | relativeTimestamp => .timestamp

/-- The kind with a flag and a metric. -/
def of : Bool → Metric → Kind
  | false, .blockNumber => absoluteBlockNumber
  | true, .blockNumber => relativeBlockNumber
  | false, .epoch => absoluteEpoch
  | true, .epoch => relativeEpoch
  | false, .timestamp => absoluteTimestamp
  | true, .timestamp => relativeTimestamp

/-- The lock of a kind that is given a word; an epoch is given as the word of a point. -/
def lock : Kind → UInt64 → Since
  | absoluteBlockNumber, v => Since.absoluteBlockNumber v
  | relativeBlockNumber, v => Since.relativeBlockNumber v
  | absoluteEpoch, v => Since.absoluteEpoch ⟨v⟩
  | relativeEpoch, v => Since.relativeEpoch ⟨v⟩
  | absoluteTimestamp, v => Since.absoluteTimestamp v
  | relativeTimestamp, v => Since.relativeTimestamp v

/-- The marks of a kind: the flag in bit 63 and the metric in bits 62 and 61. -/
def marks : Kind → UInt64
  | absoluteBlockNumber => 0x0000000000000000
  | relativeBlockNumber => 0x8000000000000000
  | absoluteEpoch => 0x2000000000000000
  | relativeEpoch => 0xa000000000000000
  | absoluteTimestamp => 0x4000000000000000
  | relativeTimestamp => 0xc000000000000000

theorem lock_eq_make (k : Kind) (v : UInt64) : k.lock v = make k.isRelative k.metric v := by
  cases k <;> rfl

theorem of_isRelative_metric (k : Kind) : of k.isRelative k.metric = k := by
  cases k <;> rfl

@[simp] theorem isRelative_of (relative : Bool) (m : Metric) :
    (of relative m).isRelative = relative := by
  cases relative <;> cases m <;> rfl

@[simp] theorem metric_of (relative : Bool) (m : Metric) : (of relative m).metric = m := by
  cases relative <;> cases m <;> rfl

/-- The marks take bits from 61 on. -/
theorem toNat_marks (k : Kind) :
    k.marks.toNat = 2 ^ 56 * (k.isRelative.toNat * 2 ^ 7 + k.metric.code * 2 ^ 5) := by
  cases k <;> rfl

/-- A lock is the marks of its kind and the low 56 bits of what it is given. -/
theorem raw_lock (k : Kind) (v : UInt64) :
    (k.lock v).raw = k.marks ||| (v &&& 0x00ffffffffffffff) := by
  refine UInt64.toNat_inj.mp ?_
  have hmask : (0x00ffffffffffffff : UInt64).toNat = 2 ^ 56 - 1 := rfl
  have hlow : v.toNat % 2 ^ 56 < 2 ^ 56 := Nat.mod_lt _ (by decide)
  rw [lock_eq_make, toNat_make, UInt64.toNat_or, UInt64.toNat_and, hmask,
    Nat.and_two_pow_sub_one_eq_mod, toNat_marks, ← Nat.two_pow_add_eq_or_of_lt hlow]
  omega

end Kind

/-! ## Bits -/

/-- The bits that no lock uses are zero. -/
def ReservedClear (s : Since) : Prop := ∀ i, 56 ≤ i → i ≤ 60 → s.raw.toNat.testBit i = false

/-- The bits of the metric are those that stand for none. -/
def MetricReserved (s : Since) : Prop :=
  s.raw.toNat.testBit 61 = true ∧ s.raw.toNat.testBit 62 = true

instance (s : Since) : Decidable s.MetricReserved := inferInstanceAs (Decidable (_ ∧ _))

variable {s : Since} {m : Metric}

theorem reservedClear_iff : s.ReservedClear ↔ s.raw.toNat / 2 ^ 56 % 2 ^ 5 = 0 := by
  constructor
  · intro h
    refine Nat.zero_of_testBit_eq_false fun i => ?_
    rw [Nat.testBit_mod_two_pow, Nat.testBit_div_two_pow]
    by_cases hi : i < 5
    · rw [h (i + 56) (by omega) (by omega), Bool.and_false]
    · rw [decide_eq_false hi, Bool.false_and]
  · intro h i hlow hhigh
    have hbit : (s.raw.toNat / 2 ^ 56 % 2 ^ 5).testBit (i - 56) = false := by
      rw [h, Nat.zero_testBit]
    rwa [Nat.testBit_mod_two_pow, Nat.testBit_div_two_pow, decide_eq_true (by omega),
      Bool.true_and, Nat.sub_add_cancel hlow] at hbit

/-- A word has no metric exactly when the bits of the metric are the reserved ones. -/
theorem metric_eq_none_iff : s.metric = none ↔ s.MetricReserved := by
  have hbits : s.MetricReserved ↔ s.raw.toNat / 0x2000000000000000 % 4 = 3 := by
    rw [MetricReserved, Nat.testBit_eq_decide_div_mod_eq, Nat.testBit_eq_decide_div_mod_eq,
      decide_eq_true_iff, decide_eq_true_iff]
    omega
  have hlt : s.raw.toNat / 0x2000000000000000 % 4 < 4 := Nat.mod_lt _ (by decide)
  rw [hbits]
  unfold metric
  generalize s.raw.toNat / 0x2000000000000000 % 4 = code at hlt
  match code, hlt with
  | 0, _ | 1, _ | 2, _ => exact iff_of_false nofun nofun
  | 3, _ => exact iff_of_true rfl rfl

/-! ## Words and their parts -/

theorem reservedClear_make (relative : Bool) (m : Metric) (v : UInt64) :
    (make relative m v).ReservedClear := by
  rw [reservedClear_iff, toNat_make]
  omega

/-- Locks are written alike only when they have the same marks and values. -/
theorem make_eq_iff {relative relative' : Bool} {m' : Metric} {v v' : UInt64} :
    make relative m v = make relative' m' v' ↔
      relative = relative' ∧ m = m' ∧ v.toNat % 2 ^ 56 = v'.toNat % 2 ^ 56 := by
  constructor
  · intro h
    have hrelative := congrArg isRelative h
    have hmetric := congrArg metric h
    have hvalue := congrArg (fun s => s.value.toNat) h
    rw [isRelative_make, isRelative_make] at hrelative
    rw [metric_make, metric_make] at hmetric
    simp only [toNat_value_make] at hvalue
    exact ⟨hrelative, Option.some.inj hmetric, hvalue⟩
  · rintro ⟨rfl, rfl, hvalue⟩
    have hword : (make relative m v).raw = (make relative m v').raw := by
      refine UInt64.toNat_inj.mp ?_
      rw [toNat_make, toNat_make]
      omega
    exact congrArg Since.mk hword

theorem toNat_value (s : Since) : s.value.toNat = s.raw.toNat % 2 ^ 56 := by
  refine UInt64.toNat_ofNat_of_lt' ?_
  simp only [UInt64.size]
  omega

/-- A metric is read from the bits that it is written in. -/
theorem code_of_metric (h : s.metric = some m) : s.raw.toNat / 0x2000000000000000 % 4 = m.code := by
  unfold metric at h
  split at h
  · obtain rfl := Option.some.inj h
    assumption
  · obtain rfl := Option.some.inj h
    assumption
  · obtain rfl := Option.some.inj h
    assumption
  · exact nomatch h

/-- A word without reserved bits is made of its parts. -/
theorem make_parts (hclear : s.ReservedClear) (hmetric : s.metric = some m) :
    make s.isRelative m s.value = s := by
  have hcode := code_of_metric hmetric
  have hreserved := reservedClear_iff.mp hclear
  have hlt := s.raw.toNat_lt
  have hword : (make s.isRelative m s.value).raw = s.raw := by
    refine UInt64.toNat_inj.mp ?_
    rw [toNat_make, toNat_value, ← hcode, isRelative]
    by_cases htop : 0x8000000000000000 ≤ s.raw.toNat
    · rw [decide_eq_true htop, Bool.toNat_true]
      omega
    · rw [decide_eq_false htop, Bool.toNat_false]
      omega
  exact congrArg Since.mk hword

/-- The six kinds of lock and the words of 64 bits. A lock has no reserved bits, and its flag,
metric and value are those of its kind and of what it is given, cut to 56 bits; two locks are
written alike only when they are of one kind and have one value. A point of chain time without
reserved byte whose epoch has blocks comes back from a lock that counts epochs, and from no other
lock. A word without reserved bits is the lock of its kind and value when it has a metric; a word
with the reserved metric is no lock. -/
theorem words_exact :
    (∀ (k : Kind) (v : UInt64), (k.lock v).raw = k.marks ||| (v &&& 0x00ffffffffffffff) ∧
      (k.lock v).ReservedClear ∧ (k.lock v).isRelative = k.isRelative ∧
      (k.lock v).metric = some k.metric ∧ (k.lock v).value.toNat = v.toNat % 2 ^ 56) ∧
    (∀ (k k' : Kind) (v v' : UInt64), k.lock v = k'.lock v' ↔
      k = k' ∧ v.toNat % 2 ^ 56 = v'.toNat % 2 ^ 56) ∧
    (∀ e : EpochFraction, e.full.toNat / 2 ^ 56 = 0 → e.length ≠ 0 →
      (absoluteEpoch e).epoch = some e ∧ (relativeEpoch e).epoch = some e) ∧
    (∀ (k : Kind) (v : UInt64), k.metric ≠ .epoch → (k.lock v).epoch = none) ∧
    (∀ s : Since, s.ReservedClear → ¬ s.MetricReserved →
      ∃ m, s.metric = some m ∧ (Kind.of s.isRelative m).lock s.value = s) ∧
    ∀ s : Since, s.MetricReserved → ∀ (k : Kind) (v : UInt64), k.lock v ≠ s := by
  refine ⟨fun k v => ?_, fun k k' v v' => ?_, fun e hreserved hlength => ?_,
    fun k v hmetric => ?_, fun s hclear hmetric => ?_, fun s hmetric k v => ?_⟩
  · refine ⟨k.raw_lock v, ?_⟩
    rw [k.lock_eq_make, isRelative_make, metric_make, toNat_value_make]
    exact ⟨reservedClear_make _ _ _, rfl, rfl, rfl⟩
  · rw [k.lock_eq_make, k'.lock_eq_make, make_eq_iff, ← and_assoc]
    refine and_congr_left' ⟨fun h => ?_, fun h => h ▸ ⟨rfl, rfl⟩⟩
    rw [← k.of_isRelative_metric, h.1, h.2, k'.of_isRelative_metric]
  · have hread := EpochFraction.ofFull_of_length_ne hlength
    have hlt : e.full.toNat < 0x100000000000000 := by omega
    exact ⟨epoch_make false hlt hread, epoch_make true hlt hread⟩
  · unfold epoch
    rw [k.lock_eq_make, metric_make, if_neg fun h => hmetric (Option.some.inj h)]
  · obtain ⟨m, hm⟩ := Option.ne_none_iff_exists'.mp (mt metric_eq_none_iff.mp hmetric)
    refine ⟨m, hm, ?_⟩
    rw [Kind.lock_eq_make, Kind.isRelative_of, Kind.metric_of, make_parts hclear hm]
  · rintro rfl
    have hnone := metric_eq_none_iff.mpr hmetric
    rw [k.lock_eq_make, metric_make] at hnone
    exact nomatch hnone

/-- A lock until a point in epoch 1024, and the word of one that counts epochs from its input; with
both bits of the metric set the word is no lock. -/
theorem words_exact_epochs :
    (absoluteEpoch ⟨0x0007_0800_0a00_0400⟩).epoch = some ⟨0x0007_0800_0a00_0400⟩ ∧
      Kind.relativeEpoch.lock 6 = ⟨0xa000_0000_0000_0006⟩ ∧
      ∀ (k : Kind) (v : UInt64), k.lock v ≠ ⟨0xe000_0000_0000_0006⟩ := by
  obtain ⟨-, -, hepoch, -, hword, hnone⟩ := words_exact
  have hclear : ReservedClear ⟨0xa000_0000_0000_0006⟩ := reservedClear_iff.mpr (by decide)
  obtain ⟨m, hm, hlock⟩ := hword ⟨0xa000_0000_0000_0006⟩ hclear (by decide)
  obtain rfl : Metric.epoch = m := Option.some.inj hm
  exact ⟨(hepoch ⟨0x0007_0800_0a00_0400⟩ (by decide) (by decide)).1, hlock,
    hnone ⟨0xe000_0000_0000_0006⟩ (by decide)⟩

end Since

end CellTx
