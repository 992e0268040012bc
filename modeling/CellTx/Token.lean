import CellTx.Bytes
import CellTx.Encoding

/-!
# Token amounts

A simple token keeps its amount in the first sixteen bytes of a cell's data, least significant byte
first; what follows them is ignored. `TokenAmount.data` writes an amount and `TokenAmount.ofData`
reads it, with the error of data that is too short; `ofData?` forgets the error. Sums beyond 128
bits are `none` (`add?`).

Results:
* `ofData_data_append`: reading gives back what was written, whatever follows.
* `ofData_eq_error_iff`: data is refused exactly when it is shorter than an amount, and then the
  error tells its length.
* `add?_eq_some_iff`: a sum is there exactly when it fits.

Out of scope: the rules of the token itself (who may mint, that a transfer conserves), which are
those of its type script. What is conserved here is `Construction.tokens_conserved`.
-/

namespace CellTx

/-- An amount of tokens, 128 bits. -/
abbrev TokenAmount := BitVec 128

namespace TokenAmount

/-- The bytes of a cell's data that hold the amount. -/
def width : Nat := 16

/-- How many amounts there are. -/
def size : Nat := 0x100000000000000000000000000000000

/-- The amount `n` when it has at most 128 bits. -/
def ofNat? (n : Nat) : Option TokenAmount :=
  if n < size then some (BitVec.ofNat 128 n) else none

/-- The sum of two amounts. -/
def add? (a b : TokenAmount) : Option TokenAmount := ofNat? (a.toNat + b.toNat)

/-- The data of a cell that holds the amount. -/
def data (a : TokenAmount) : Bytes := leBytes width a.toNat

/-- The amount in a cell's data. -/
def ofData (data : Bytes) : Except EncodingError TokenAmount :=
  if width ≤ data.length then .ok (BitVec.ofNat 128 (leNat (data.take width)))
  else .error (.tokenData data.length)

/-- The amount in a cell's data; `none` when the data is too short. -/
def ofData? (data : Bytes) : Option TokenAmount := (ofData data).toOption

/-! ## Lemmas -/

theorem toNat_lt (a : TokenAmount) : a.toNat < size := a.isLt

@[simp] theorem ofNat_toNat (a : TokenAmount) : BitVec.ofNat 128 a.toNat = a := by
  apply BitVec.eq_of_toNat_eq
  rw [BitVec.toNat_ofNat, Nat.mod_eq_of_lt a.isLt]

theorem ofNat?_eq_some_iff {n : Nat} {a : TokenAmount} : ofNat? n = some a ↔ a.toNat = n := by
  unfold ofNat?
  split
  · rename_i h
    rw [Option.some.injEq]
    constructor
    · rintro rfl
      rw [BitVec.toNat_ofNat]
      exact Nat.mod_eq_of_lt h
    · rintro rfl
      exact ofNat_toNat a
  · rename_i h
    constructor
    · intro hn
      exact absurd hn (Option.some_ne_none a).symm
    · rintro rfl
      exact absurd (toNat_lt a) h

theorem ofNat?_eq_none_iff {n : Nat} : ofNat? n = none ↔ size ≤ n := by
  unfold ofNat?
  split <;> simp <;> omega

theorem add?_eq_some_iff {a b c : TokenAmount} :
    add? a b = some c ↔ c.toNat = a.toNat + b.toNat := ofNat?_eq_some_iff

@[simp] theorem length_data (a : TokenAmount) : (data a).length = width := length_leBytes _ _

theorem ofData?_eq_some_iff {data : Bytes} {a : TokenAmount} :
    ofData? data = some a ↔ ofData data = .ok a := by
  unfold ofData?
  cases ofData data with
  | ok b => exact ⟨fun h => congrArg Except.ok (Option.some.inj h),
      fun h => congrArg some (Except.ok.inj h)⟩
  | error e => exact iff_of_false nofun nofun

/-- Data is refused when it is too short, and for its length. -/
theorem ofData_eq_error_iff {data : Bytes} {e : EncodingError} :
    ofData data = .error e ↔ data.length < width ∧ e = .tokenData data.length := by
  unfold ofData
  split
  · exact iff_of_false nofun fun h => absurd h.1 (Nat.not_lt.mpr ‹_›)
  · rw [Except.error.injEq, eq_comm]
    exact (and_iff_right (Nat.lt_of_not_le ‹_›)).symm

theorem ofData_data_append (a : TokenAmount) (rest : Bytes) :
    ofData (data a ++ rest) = .ok a := by
  have hlen : width ≤ (data a ++ rest).length := by
    rw [List.length_append, length_data]
    omega
  have htake : (data a ++ rest).take width = data a := by
    rw [List.take_append_of_le_length (Nat.le_of_eq (length_data a).symm),
      List.take_of_length_le (Nat.le_of_eq (length_data a))]
  have hnat : leNat (data a) = a.toNat := leNat_leBytes (toNat_lt a)
  rw [ofData, if_pos hlen, htake, hnat]
  exact congrArg Except.ok (ofNat_toNat a)

theorem ofData?_data (a : TokenAmount) : ofData? (data a) = some a := by
  have := ofData_data_append a []
  rw [List.append_nil] at this
  exact ofData?_eq_some_iff.mpr this

theorem ofData?_eq_none_iff {data : Bytes} : ofData? data = none ↔ data.length < width := by
  unfold ofData?
  cases h : ofData data with
  | ok a =>
    refine iff_of_false nofun fun hshort => ?_
    exact nomatch h.symm.trans (ofData_eq_error_iff.mpr ⟨hshort, rfl⟩)
  | error e => exact iff_of_true rfl (ofData_eq_error_iff.mp h).1

end TokenAmount

end CellTx
