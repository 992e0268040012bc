import CellTx.Bytes

/-!
# Capacity

The chain's currency in shannons, as 64-bit words. The checked arithmetic on them (specification,
section 7) is `add?`, `sub?`, `sum?` and `ofBytes?`: every operation that may leave the 64 bits
answers `none` when it would. `total` is the sum as a number, without bound.

Results:
* `ofNat?_eq_some_iff`, `add?_eq_some_iff`, `sub?_eq_some_iff`, `sum?_eq_some_iff`: a result that is
  there is exact, and one that is exact and fits is there.
* `total_cons`, `total_append`: totals go along with lists.

Out of scope: arithmetic that wraps, which nothing here uses. The one place that saturates is in
`CellTx.Fee`.
-/

namespace CellTx

/-- An amount of shannons. -/
abbrev Capacity := UInt64

namespace Capacity

/-- Shannons in one CKB, which are also the shannons that one byte of a cell occupies. -/
def perCkb : Nat := 100000000

/-- The amount `n` when it has at most 64 bits. -/
def ofNat? (n : Nat) : Option Capacity :=
  if n < UInt64.size then some (UInt64.ofNat n) else none

/-- The sum of two amounts. -/
def add? (a b : Capacity) : Option Capacity := ofNat? (a.toNat + b.toNat)

/-- The difference of two amounts. -/
def sub? (a b : Capacity) : Option Capacity :=
  if b.toNat ≤ a.toNat then ofNat? (a.toNat - b.toNat) else none

/-- The sum of a list as a number. -/
def total : List Capacity → Nat
  | [] => 0
  | a :: l => a.toNat + total l

/-- The sum of a list. -/
def sum? (l : List Capacity) : Option Capacity := ofNat? (total l)

/-- What a number of bytes occupies. -/
def ofBytes? (n : Nat) : Option Capacity := ofNat? (n * perCkb)

/-! ## Lemmas -/

theorem toNat_lt (a : Capacity) : a.toNat < UInt64.size := UInt64.toNat_lt a

theorem ofNat?_eq_some_iff {n : Nat} {a : Capacity} : ofNat? n = some a ↔ a.toNat = n := by
  unfold ofNat?
  split
  · rename_i h
    rw [Option.some.injEq]
    constructor
    · rintro rfl
      exact UInt64.toNat_ofNat_of_lt' h
    · rintro rfl
      exact UInt64.ofNat_toNat
  · rename_i h
    constructor
    · intro hn
      exact absurd hn (Option.some_ne_none a).symm
    · rintro rfl
      exact absurd (toNat_lt a) h

theorem ofNat?_eq_none_iff {n : Nat} : ofNat? n = none ↔ UInt64.size ≤ n := by
  unfold ofNat?
  split <;> simp <;> omega

@[simp] theorem ofNat?_toNat (a : Capacity) : ofNat? a.toNat = some a :=
  ofNat?_eq_some_iff.mpr rfl

theorem add?_eq_some_iff {a b c : Capacity} :
    add? a b = some c ↔ c.toNat = a.toNat + b.toNat := ofNat?_eq_some_iff

theorem sub?_eq_some_iff {a b c : Capacity} :
    sub? a b = some c ↔ c.toNat + b.toNat = a.toNat := by
  unfold sub?
  split
  · rw [ofNat?_eq_some_iff]
    omega
  · constructor
    · intro h
      exact absurd h (Option.some_ne_none c).symm
    · intro h
      omega

theorem sub?_eq_none_iff {a b : Capacity} : sub? a b = none ↔ a.toNat < b.toNat := by
  have := toNat_lt a
  unfold sub?
  split
  · rw [ofNat?_eq_none_iff]
    omega
  · simp only [true_iff]
    omega

theorem sum?_eq_some_iff {l : List Capacity} {c : Capacity} :
    sum? l = some c ↔ c.toNat = total l := ofNat?_eq_some_iff

@[simp] theorem total_nil : total [] = 0 := rfl

@[simp] theorem total_cons (a : Capacity) (l : List Capacity) :
    total (a :: l) = a.toNat + total l := rfl

@[simp] theorem total_append (l m : List Capacity) : total (l ++ m) = total l + total m := by
  induction l with
  | nil => rw [List.nil_append, total_nil, Nat.zero_add]
  | cons a l ih => rw [List.cons_append, total_cons, total_cons, ih, Nat.add_assoc]

end Capacity

end CellTx
