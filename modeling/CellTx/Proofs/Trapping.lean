import CellTx.Dao.Interest
import CellTx.Balance
import CellTx.Fee
import CellTx.Proofs.Records
import CellTx.Proofs.Unlock

/-!
# Operations that trap

The definitions use numbers without bound. A machine does not: where a sum or product leaves its
word, a difference falls below zero, a divisor is zero or an index is behind the end, it traps. This
is the second form of every definition with such an operation, with `none` for a trap. The two forms
agree, so that no operation traps.

Results:
* `Trapping.minimalUnlock_eq`: epochs have fields of 24 and 16 bits.
* `Trapping.compensation_eq`, `Trapping.maximumWithdraw_eq`: a product of two words fits a double
  word, and no divisor is zero.
* `Trapping.fee_eq`: a transaction is far smaller than a word.
* `Trapping.change_eq`, `Trapping.shiftChange_eq`: a place that was written down is still there when
  it is read.

Out of scope: operations that answer with an error instead, which the definitions have, and the
exhaustion of memory.
-/

namespace CellTx

/-- What the change output must hold, when there is one. -/
def Draft.changeOccupied (d : Draft) : Except Failure (Option Nat) :=
  match d.changeOutput? with
  | none => pure none
  | some c => do return some (← exactly c.occupied?).toNat

/-- Where a draft that pays a fee stands, when its sums fit. -/
def Draft.measured (d : Draft) (fee : Capacity) : Except Failure Balance := do
  let committed ← d.committedCapacity
  let changeOccupied ← d.changeOccupied
  let collected ← d.inputsCapacity
  return ⟨collected.toNat, committed.toNat + fee.toNat, changeOccupied⟩

namespace Build

variable {σ α β : Type}

theorem ofExcept_bind (r : Except Failure α) (f : α → Except Failure β) :
    (ofExcept (r >>= f) : Build σ β) = ofExcept r >>= fun x => ofExcept (f x) := by
  cases r <;> rfl

theorem demand_capacityOverflow (o : Option Capacity) :
    (demand .capacityOverflow o : Build σ Capacity) = ofExcept (Draft.exactly o) := by
  cases o <;> rfl

end Build

/-- A draft is measured once its fee is estimated. -/
theorem Assembler.measure_eq_bind {σ : Type} (a : Assembler σ) (d : Draft) :
    a.measure d = a.estimate d >>= fun fee => Build.ofExcept (d.measured fee) := by
  unfold Assembler.measure Draft.measured Draft.changeOccupied
  simp only [Build.ofExcept_bind, Build.demand_capacityOverflow]
  refine bind_congr fun fee => bind_congr fun committed => ?_
  cases d.changeOutput? with
  | none => rfl
  | some c =>
    simp only [Build.ofExcept_bind, bind_assoc]
    rfl

/-- What a machine computes: a result, or `none` when it traps. -/
abbrev Trapping (ε α : Type) := ExceptT ε Option α

namespace Trapping

theorem lift_some_bind {ε α β : Type} (x : α) (f : α → Trapping ε β) :
    ((some x : Option α) : Trapping ε α) >>= f = f x := rfl

/-- The value there is, or an error. -/
def orElse {ε α : Type} (e : ε) : Option α → Trapping ε α
  | some x => pure x
  | none => throw e

theorem orElse_some_bind {ε α β : Type} (e : ε) (x : α) (f : α → Trapping ε β) :
    orElse e (some x) >>= f = f x := rfl

/-- A result of what cannot trap. -/
def ofExcept {ε α : Type} (r : Except ε α) : Trapping ε α := ExceptT.mk (some r)

/-- What goes on alike from a result goes on alike. -/
theorem ofExcept_bind {ε α β : Type} {r : Except ε α} {f : α → Trapping ε β} {g : α → Except ε β}
    (h : ∀ x, (f x).run = some (g x)) : (ofExcept r >>= f).run = some (r >>= g) := by
  cases r with
  | error e => rfl
  | ok x => exact h x

/-! ## Words -/

/-- A number that has to have so many bits. -/
def fit (bits n : Nat) : Option Nat := if n < 2 ^ bits then some n else none

/-- The sum of two words. -/
def add (bits a b : Nat) : Option Nat := fit bits (a + b)

/-- The product of two words. -/
def mul (bits a b : Nat) : Option Nat := fit bits (a * b)

/-- The difference of two words. -/
def sub (a b : Nat) : Option Nat := if b ≤ a then some (a - b) else none

/-- The quotient of two words. -/
def div (a b : Nat) : Option Nat := if b = 0 then none else some (a / b)

/-- The quotient of two words, rounded up. -/
def divCeil (bits a b : Nat) : Option Nat := do
  let quotient ← div a b
  if a % b = 0 then return quotient else add bits quotient 1

theorem fit_of_lt {bits n : Nat} (h : n < 2 ^ bits) : fit bits n = some n := if_pos h

theorem add_of_lt {bits a b : Nat} (h : a + b < 2 ^ bits) : add bits a b = some (a + b) :=
  fit_of_lt h

theorem mul_of_lt {bits a b : Nat} (h : a * b < 2 ^ bits) : mul bits a b = some (a * b) :=
  fit_of_lt h

theorem sub_of_le {a b : Nat} (h : b ≤ a) : sub a b = some (a - b) := if_pos h

theorem div_of_pos {a b : Nat} (h : 0 < b) : div a b = some (a / b) := if_neg (Nat.ne_of_gt h)

/-- A product of two words fits a double word. -/
theorem mul_of_words {bits a b : Nat} (ha : a < 2 ^ bits) (hb : b < 2 ^ bits) :
    mul (2 * bits) a b = some (a * b) := by
  refine mul_of_lt ?_
  rw [Nat.two_mul, Nat.pow_add]
  exact Nat.mul_lt_mul'' ha hb

/-- Rounding up does not leave the word. -/
theorem divCeil_of_lt {bits a b : Nat} (ha : a < 2 ^ bits) (hb : 0 < b) :
    divCeil bits a b = some ((a + (b - 1)) / b) := by
  have hdiv := Nat.div_add_mod a b
  have hmod := Nat.mod_lt a hb
  rw [divCeil, div_of_pos hb]
  by_cases hexact : a % b = 0
  · have hceil : (a + (b - 1)) / b = a / b :=
      Nat.div_eq_of_lt_le (by rw [Nat.mul_comm]; omega)
        (by rw [Nat.add_one_mul, Nat.mul_comm]; omega)
    simp only [Option.bind_eq_bind, Option.bind_some, if_pos hexact, hceil]
    rfl
  · have hceil : (a + (b - 1)) / b = a / b + 1 :=
      Nat.div_eq_of_lt_le (by rw [Nat.add_one_mul, Nat.mul_comm]; omega)
        (by rw [Nat.add_one_mul, Nat.add_one_mul, Nat.mul_comm]; omega)
    -- a divisor that leaves a remainder is not one
    have hne : b ≠ 1 := fun h => hexact (h ▸ Nat.mod_one a)
    have hpos : 0 < a := Nat.pos_of_ne_zero fun h => hexact (h ▸ Nat.zero_mod b)
    have hlt : a / b < a := Nat.div_lt_self hpos (by omega)
    simp only [Option.bind_eq_bind, Option.bind_some, if_neg hexact, hceil]
    exact add_of_lt (by omega)

/-! ## Places in a list -/

/-- The last place of a list. -/
def lastPlace {α : Type} (l : List α) : Option Nat := sub l.length 1

theorem lastPlace_concat {α : Type} (l : List α) (x : α) :
    lastPlace (l ++ [x]) = some l.length := by
  rw [lastPlace, List.length_append, List.length_singleton]
  exact sub_of_le (Nat.le_add_left 1 _)

/-- The place of a header dep, read off the list after it was added. -/
def addHeaderDep (d : Draft) (hash : Hash) : Option (Nat × Draft) :=
  match d.headerDeps.idxOf? hash with
  | some i => some (i, d)
  | none => do
    let d := { d with headerDeps := d.headerDeps ++ [hash] }
    return (← lastPlace d.headerDeps, d)

theorem addHeaderDep_eq (d : Draft) (hash : Hash) :
    addHeaderDep d hash = some (d.addHeaderDep hash) := by
  unfold addHeaderDep Draft.addHeaderDep
  cases d.headerDeps.idxOf? hash with
  | some i => rfl
  | none =>
    simp only [lastPlace_concat]
    rfl

/-- The place of the change after the output at `i` is gone. -/
def shiftChange (change : Option Nat) (i : Nat) : Option (Option Nat) :=
  match change with
  | some slot =>
    if slot = i then some none
    else if i < slot then do return some (← sub slot 1) else some (some slot)
  | none => some none

theorem shiftChange_eq (change : Option Nat) (i : Nat) :
    shiftChange change i = some (Draft.shiftChange change i) := by
  unfold shiftChange Draft.shiftChange
  cases change with
  | none => rfl
  | some slot =>
    simp only
    split
    · rfl
    · split
      · rw [sub_of_le (by omega)]
        rfl
      · rfl

/-- The output that receives the change, where there is a slot for it. -/
def change (d : Draft) : Option (Option Cell) :=
  match d.change with
  | some slot => do return some (← d.outputs[slot]?)
  | none => some none

theorem change_eq (d : Draft) : change d = some d.changeOutput? := by
  unfold change Draft.changeOutput?
  cases h : d.change with
  | none => rfl
  | some slot =>
    simp only [Option.bind_some, List.getElem?_eq_getElem (d.change_lt slot h)]
    rfl

/-! ## Sums -/

/-- What the change output must hold, when there is one. -/
def changeOccupied (change : Option Cell) : Trapping Failure (Option Nat) :=
  match change with
  | none => pure none
  | some c => do return some (← ofExcept (Draft.exactly c.occupied?)).toNat

/-- Where a draft that pays a fee stands, when its sums fit. -/
def measured (d : Draft) (fee : Capacity) : Trapping Failure Balance := do
  let change ← Trapping.change d
  let outputs ← ofExcept d.outputsCapacity
  let committed ← ofExcept
    (Draft.exactly (Capacity.sub? outputs ((change.map Cell.capacity).getD 0)))
  let changeOccupied ← changeOccupied change
  let collected ← ofExcept d.inputsCapacity
  let required ← add 128 committed.toNat fee.toNat
  return ⟨collected.toNat, required, changeOccupied⟩

theorem measured_eq (d : Draft) (fee : Capacity) :
    (measured d fee).run = some (d.measured fee) := by
  have hrequired : ∀ committed : Capacity,
      add 128 committed.toNat fee.toNat = some (committed.toNat + fee.toNat) := fun committed =>
    add_of_lt (by have := UInt64.toNat_lt committed; have := UInt64.toNat_lt fee; omega)
  rw [measured, change_eq, lift_some_bind, Draft.measured, Draft.committedCapacity, bind_assoc]
  refine ofExcept_bind fun outputs => ofExcept_bind fun committed => ?_
  rw [hrequired]
  unfold changeOccupied Draft.changeOccupied
  cases d.changeOutput? with
  | none => exact ofExcept_bind fun change => ofExcept_bind fun collected => rfl
  | some c =>
    simp only [bind_assoc]
    refine ofExcept_bind fun occupied => ?_
    exact ofExcept_bind fun change => ofExcept_bind fun collected => rfl

/-- The fee of a transaction at a rate. -/
def fee (t : Transaction) (rate : UInt64) : Option Capacity := do
  let size ← add 64 t.serialize.length 4
  let fee ← divCeil 64 (min (size * rate.toNat) (UInt64.size - 1)) 1000
  return UInt64.ofNat fee

theorem fee_eq {t : Transaction} (h : t.serialize.length < 2 ^ 63) (rate : UInt64) :
    fee t rate = some (Fee.ofSize t.size rate) := by
  have hsize : add 64 t.serialize.length 4 = some t.size := add_of_lt (by omega)
  have hfee : divCeil 64 (min (t.size * rate.toNat) (UInt64.size - 1)) 1000 =
      some ((min (t.size * rate.toNat) (UInt64.size - 1) + 999) / 1000) :=
    divCeil_of_lt (Nat.lt_of_le_of_lt (Nat.min_le_right _ _) (by decide)) (by decide)
  rw [fee, hsize]
  simp only [Option.bind_eq_bind, Option.bind_some, hfee]
  rfl

/-! ## Epochs -/

/-- The epochs from a deposit to its withdrawal. -/
def depositedEpochs (deposit withdraw : EpochFraction) : Option Nat := do
  let behind ← mul 64 deposit.index withdraw.length
  let ahead ← mul 64 withdraw.index deposit.length
  let whole := withdraw.number - deposit.number
  if behind < ahead then add 64 whole 1 else return whole

/-- The epochs of the cycles that have begun. -/
def lockedEpochs (deposit withdraw : EpochFraction) : Option Nat := do
  let deposited ← depositedEpochs deposit withdraw
  let cycles ← divCeil 64 deposited Dao.cycle
  mul 64 cycles Dao.cycle

/-- The first point at which a deposit can be claimed. To pack an epoch traps when its number takes
more than 24 bits. -/
def minimalUnlock (deposit withdraw : EpochFraction) : Trapping Failure EpochFraction := do
  let locked ← lockedEpochs deposit withdraw
  let number ← add 64 deposit.number locked
  match Epoch.ofNats number deposit.index deposit.length with
  | .error e => throw (.encoding e)
  | .ok e => e.fraction?

theorem depositedEpochs_eq (deposit withdraw : EpochFraction) :
    depositedEpochs deposit withdraw = some (Dao.depositedEpochs deposit withdraw) := by
  have hproduct : ∀ e e' : EpochFraction,
      mul 64 e.index e'.length = some (e.index * e'.length) := fun e e' =>
    mul_of_lt (Nat.lt_trans (Nat.mul_lt_mul'' e.index_lt e'.length_lt) (by decide))
  have hnumber := withdraw.number_lt
  unfold depositedEpochs Dao.depositedEpochs
  simp only [hproduct, Option.bind_eq_bind, Option.bind_some]
  split
  · exact add_of_lt (by omega)
  · rfl

theorem depositedEpochs_le (deposit withdraw : EpochFraction) :
    Dao.depositedEpochs deposit withdraw ≤ 0x1000000 := by
  have hnumber := withdraw.number_lt
  unfold Dao.depositedEpochs
  dsimp only
  split
  · omega
  · omega

theorem lockedEpochs_lt (deposit withdraw : EpochFraction) :
    Dao.lockedEpochs deposit withdraw < 0x2000000 := by
  have hdeposited := depositedEpochs_le deposit withdraw
  refine Nat.lt_of_le_of_lt (Nat.div_mul_le_self _ _) ?_
  rw [Dao.cycle]
  omega

theorem lockedEpochs_eq (deposit withdraw : EpochFraction) :
    lockedEpochs deposit withdraw = some (Dao.lockedEpochs deposit withdraw) := by
  have hdeposited := depositedEpochs_le deposit withdraw
  have hcycles : divCeil 64 (Dao.depositedEpochs deposit withdraw) Dao.cycle =
      some ((Dao.depositedEpochs deposit withdraw + (Dao.cycle - 1)) / Dao.cycle) :=
    divCeil_of_lt (by omega) (by decide)
  rw [lockedEpochs, depositedEpochs_eq]
  simp only [Option.bind_eq_bind, Option.bind_some, hcycles]
  exact mul_of_lt (Nat.lt_trans (lockedEpochs_lt deposit withdraw) (by decide))

theorem minimalUnlock_eq (deposit withdraw : EpochFraction) :
    (minimalUnlock deposit withdraw).run = some (Dao.minimalUnlock deposit withdraw) := by
  have hdeposit := deposit.number_lt
  have hlocked := lockedEpochs_lt deposit withdraw
  rw [minimalUnlock, lockedEpochs_eq, lift_some_bind, add_of_lt (by omega), lift_some_bind,
    Dao.minimalUnlock]
  cases hpack : Epoch.ofNats (deposit.number + Dao.lockedEpochs deposit withdraw) deposit.index
      deposit.length with
  | error e => rfl
  | ok e =>
    obtain ⟨point, hpoint⟩ := Epoch.exists_fraction? hpack
    simp only [hpoint]
    rfl

/-! ## Interest -/

/-- What free capacity has grown to between two accumulate rates. -/
def grown (free rate base : UInt64) : Option Nat := do
  let product ← mul 128 free.toNat rate.toNat
  div product base.toNat

theorem grown_eq (free rate : UInt64) {base : UInt64} (h : base ≠ 0) :
    grown free rate base = some (free.toNat * rate.toNat / base.toNat) := by
  have hpos : 0 < base.toNat := Nat.pos_of_ne_zero fun hzero => h (UInt64.toNat_inj.mp hzero)
  have hproduct : mul 128 free.toNat rate.toNat = some (free.toNat * rate.toNat) :=
    mul_of_words free.toNat_lt rate.toNat_lt
  rw [grown, hproduct]
  exact div_of_pos hpos

/-- The interest of a deposit between blocks of two accumulate rates. -/
def compensation (total occupied : Capacity) (depositRate withdrawRate : UInt64) :
    Trapping Failure Capacity := do
  if depositRate = 0 then throw (.encoding .zeroRate)
  else
    match Capacity.sub? total occupied with
    | none => throw .capacityOverflow
    | some free => do
      let grown ← Trapping.grown free withdrawRate depositRate
      match Capacity.ofNat? (grown - free.toNat) with
      | none => throw .capacityOverflow
      | some interest => return interest

theorem compensation_eq (total occupied : Capacity) (depositRate withdrawRate : UInt64) :
    (compensation total occupied depositRate withdrawRate).run =
      some (Dao.compensation total occupied depositRate withdrawRate) := by
  unfold compensation Dao.compensation
  split
  · rfl
  · rename_i hrate
    cases Capacity.sub? total occupied with
    | none => rfl
    | some free =>
      simp only [grown_eq free withdrawRate hrate, lift_some_bind]
      cases Capacity.ofNat? (free.toNat * withdrawRate.toNat / depositRate.toNat - free.toNat) with
      | none => rfl
      | some interest => rfl

/-- What goes on alike from a value that is there goes on alike. -/
theorem orElse_bind {α β : Type} {e : QueryError} {o : Option α} {f : α → Trapping QueryError β}
    {g : α → Except QueryError β} (h : ∀ x, (f x).run = some (g x)) :
    (orElse e o >>= f).run = some (Chain.maximumWithdraw.orElse e o >>= g) := by
  cases o with
  | none => rfl
  | some x => exact h x

/-- An output of a stored transaction, and the block that committed it. -/
def stored? (c : Chain) (p : OutPoint) : Option (Cell × Hash) := do
  let t ← c.transaction? p.txHash
  let cell ← t.transaction.outputs[p.index.toNat]?
  return (cell, ← t.block)

/-- What a deposit is worth in a block. The block that committed the deposit has to be known. -/
def maximumWithdraw (c : Chain) (deposit : OutPoint) (block : Hash) :
    Trapping QueryError Capacity := do
  let (cell, home) ← orElse (.unknownDeposit deposit) (stored? c deposit)
  let made ← c.header? home
  let spent ← orElse (.unknownBlock block) (c.header? block)
  if spent.number ≤ made.number then throw .withdrawingBeforeDeposit
  else
    let occupied ← orElse .capacityOverflow cell.occupied?
    let free ← orElse .capacityOverflow (Capacity.sub? cell.capacity occupied)
    let grown ← Trapping.grown free spent.rate made.rate
    orElse .capacityOverflow (Capacity.add? (UInt64.ofNat grown) occupied)

theorem exists_header?_of_stored {c : Chain} (hc : c.Built) {p : OutPoint} {cell : Cell}
    {home : Hash} (h : stored? c p = some (cell, home)) : ∃ made, c.header? home = some made := by
  obtain ⟨t, ht, h⟩ := Option.bind_eq_some_iff.mp h
  obtain ⟨cell', hcell, h⟩ := Option.bind_eq_some_iff.mp h
  obtain ⟨block, hblock, h⟩ := Option.bind_eq_some_iff.mp h
  obtain ⟨-, rfl⟩ := Prod.mk.inj (Option.some.inj h)
  exact hc.exists_header? ht hblock

theorem maximumWithdraw_eq {c : Chain} (hc : c.Built) (hrated : c.Rated) (deposit : OutPoint)
    (block : Hash) :
    (maximumWithdraw c deposit block).run = some (c.maximumWithdraw deposit block) := by
  have hfound : (do
      let t ← c.transaction? deposit.txHash
      let cell ← t.transaction.outputs[deposit.index.toNat]?
      let made ← c.header? (← t.block)
      return (cell, made)) =
        (stored? c deposit).bind fun (cell, home) =>
          (c.header? home).map fun made => (cell, made) := by
    simp only [stored?, Option.bind_eq_bind, Option.pure_def, Option.bind_assoc, Option.bind_some,
      Option.map_eq_bind]
    rfl
  unfold maximumWithdraw Chain.maximumWithdraw
  rw [hfound]
  cases hstored : stored? c deposit with
  | none => rfl
  | some e =>
    obtain ⟨cell, home⟩ := e
    obtain ⟨made, hmade⟩ := exists_header?_of_stored hc hstored
    have hrate := hrated home made hmade
    simp only [Option.bind_some, hmade, Option.map_some, orElse_some_bind, lift_some_bind]
    refine orElse_bind fun spent => ?_
    by_cases hnumber : spent.number ≤ made.number
    · rw [if_pos hnumber, if_pos hnumber]
      rfl
    · rw [if_neg hnumber, if_neg hnumber]
      refine orElse_bind fun occupied => orElse_bind fun free => ?_
      rw [grown_eq free spent.rate hrate, lift_some_bind, if_neg hrate]
      cases Capacity.add? (UInt64.ofNat (free.toNat * spent.rate.toNat / made.rate.toNat)) occupied
        with
      | none => rfl
      | some worth => rfl

/-! ## Pages -/

/-- The position of the last cell of a page, which an empty page does not have. -/
def cursor (c : Chain) (key : SearchKey) (order : Order) (limit : Nat) (after : Option Nat) :
    Option Nat :=
  (((c.inOrder order).filter fun (cell, i) =>
    Chain.isAfter order after i && key.accepts cell).take limit).getLast?.map Prod.snd

/-- A page that has cells has a cursor. -/
theorem cursor_eq {c : Chain} {key : SearchKey} {order : Order} {limit : Nat} {after : Option Nat}
    (h : (c.page key order limit after).cells ≠ []) :
    cursor c key order limit after = some (c.page key order limit after).cursor := by
  have hfound := fun hnil => h (List.map_eq_nil_iff.mpr hnil)
  rw [cursor, List.getLast?_eq_some_getLast hfound, Chain.page,
    List.getLast?_eq_some_getLast hfound]
  rfl

end Trapping

end CellTx
