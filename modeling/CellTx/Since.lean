import CellTx.Epoch

/-!
# Since

The time lock of an input, one word (specification, section 14). The top bit says whether the lock
counts from the block that committed the input, the next two bits name what it counts, five bits are
reserved, and 56 bits hold the value.

* `make` builds a word from its parts, and the six kinds of lock are `absoluteEpoch`,
  `relativeEpoch`, `absoluteBlockNumber`, `relativeBlockNumber`, `absoluteTimestamp` and
  `relativeTimestamp`.
* `isRelative`, `metric`, `value` and `epoch` read a word back, of which one metric is reserved.

Results:
* `isRelative_make`, `metric_make`, `toNat_value_make`: the parts are read back, the value cut to 56
  bits. Which words are locks, and when two are one, is `Since.words_exact` in
  `CellTx.Proofs.TimeLocks`.

Out of scope: whether a lock has expired, which the chain decides.
-/

namespace CellTx

/-- A time lock. -/
structure Since where
  raw : UInt64
deriving DecidableEq

namespace Since

/-- What a time lock counts. -/
inductive Metric where
  | blockNumber
  | epoch
  | timestamp
deriving DecidableEq

/-- The two bits of a metric. -/
def Metric.code : Metric → Nat
  | blockNumber => 0
  | epoch => 1
  | timestamp => 2

/-- No time lock. -/
def zero : Since := ⟨0⟩

/-- A lock of `value` units, cut to 56 bits. -/
def make (relative : Bool) (metric : Metric) (value : UInt64) : Since :=
  ⟨UInt64.ofNat (relative.toNat * 0x8000000000000000 + metric.code * 0x2000000000000000 +
    value.toNat % 0x100000000000000)⟩

/-- Unlocks once the chain reaches a point. -/
def absoluteEpoch (e : EpochFraction) : Since := make false .epoch e.full

/-- Unlocks a span of epochs after the input was committed. -/
def relativeEpoch (e : EpochFraction) : Since := make true .epoch e.full

/-- Unlocks from a block on. -/
def absoluteBlockNumber (number : UInt64) : Since := make false .blockNumber number

/-- Unlocks a number of blocks after the input was committed. -/
def relativeBlockNumber (count : UInt64) : Since := make true .blockNumber count

/-- Unlocks from a point in time on, in seconds. -/
def absoluteTimestamp (seconds : UInt64) : Since := make false .timestamp seconds

/-- Unlocks a number of seconds after the input was committed. -/
def relativeTimestamp (seconds : UInt64) : Since := make true .timestamp seconds

/-- Whether the lock counts from the block that committed the input. -/
def isRelative (s : Since) : Bool := 0x8000000000000000 ≤ s.raw.toNat

/-- What the lock counts; one of the four codes is reserved. -/
def metric (s : Since) : Option Metric :=
  match s.raw.toNat / 0x2000000000000000 % 4 with
  | 0 => some .blockNumber
  | 1 => some .epoch
  | 2 => some .timestamp
  | _ => none

/-- The value part. -/
def value (s : Since) : UInt64 := UInt64.ofNat (s.raw.toNat % 0x100000000000000)

/-- The value as a point of chain time, for a lock that counts epochs. -/
def epoch (s : Since) : Option EpochFraction :=
  if s.metric = some .epoch then some (EpochFraction.ofFull s.value) else none

/-! ## Lemmas -/

/-- The fourth code of two bits is reserved. -/
theorem Metric.code_le (m : Metric) : m.code ≤ 2 := by cases m <;> decide

theorem toNat_make (relative : Bool) (metric : Metric) (value : UInt64) :
    (make relative metric value).raw.toNat =
      relative.toNat * 0x8000000000000000 + metric.code * 0x2000000000000000 +
        value.toNat % 0x100000000000000 := by
  refine UInt64.toNat_ofNat_of_lt' ?_
  have hr : relative.toNat ≤ 1 := Bool.toNat_le relative
  have hm := metric.code_le
  simp only [UInt64.size]
  omega

@[simp] theorem isRelative_make (relative : Bool) (metric : Metric) (value : UInt64) :
    (make relative metric value).isRelative = relative := by
  have hm := metric.code_le
  rw [isRelative, toNat_make]
  cases relative with
  | false =>
    rw [decide_eq_false_iff_not, Bool.toNat_false]
    omega
  | true =>
    rw [decide_eq_true_iff, Bool.toNat_true]
    omega

@[simp] theorem metric_make (relative : Bool) (m : Metric) (value : UInt64) :
    (make relative m value).metric = some m := by
  have h : (make relative m value).raw.toNat / 0x2000000000000000 % 4 = m.code := by
    have hr : relative.toNat ≤ 1 := Bool.toNat_le relative
    have hm := m.code_le
    rw [toNat_make]
    omega
  rw [metric, h]
  cases m <;> rfl

@[simp] theorem toNat_value_make (relative : Bool) (metric : Metric) (value : UInt64) :
    (make relative metric value).value.toNat = value.toNat % 0x100000000000000 := by
  have h : (make relative metric value).raw.toNat % 0x100000000000000 =
      value.toNat % 0x100000000000000 := by
    rw [toNat_make]
    omega
  rw [Since.value, h]
  refine UInt64.toNat_ofNat_of_lt' ?_
  simp only [UInt64.size]
  omega

end Since

end CellTx
