import CellTx.Proofs.Answering
import CellTx.Proofs.Payout

/-!
# Shortages

Every failure of a construction has a cause (`Construction.Cause`): the world, a plain refusal, or a
shortage of capacity, of tokens or of a worth that pays the fee. A shortage names what is required
and what there is, and mostly the second is less than the first (`Failure.Truthful`). It is not when
something is left over that is less than the output that gets the rest occupies
(`Failure.RestBelow`): this output is no part of what is said to be required.

Results:
* `Failure.truthful_of_kind`: only the failures of three kinds tell of a shortage; those of the
  world and plain ones do not (`Failure.truthful_of_world`, `Failure.Plain.truthful`).
* `Balance.of_not_covered`: a draft that is not covered falls short, or leaves something over that
  does not fund its change.
* `Construction.failsOnly_cause`: every failure has one of the causes.
* `Construction.shortage_truthful_iff`: what a failure says of a shortage is true with that one
  exception, which `Construction.shortage_not_truthful` shows to be met.

Out of scope: the words of a failure, see `CellTx.Failure`.
-/

namespace CellTx

variable {σ : Type}

/-- A failure that names a shortage is right about it: there is less than is required. -/
def Failure.Truthful : Failure → Prop
  | insufficientCapacity required collected => collected < required
  | insufficientTokens required collected => collected < required
  | insufficientForFee fee available => available < fee
  | _ => True

/-- A failure names a shortage where something is left over, though less than a floor. Of a
collection nothing is left over when it is exactly balanced, and then it does not fail. -/
def Failure.RestBelow (floor : Nat) : Failure → Prop
  | insufficientCapacity required collected => required < collected ∧ collected < required + floor
  | insufficientForFee fee available =>
    fee.toNat ≤ available.toNat ∧ available.toNat < fee.toNat + floor
  | _ => False

/-- Only the failures of three kinds tell of a shortage. -/
theorem Failure.truthful_of_kind {f : Failure}
    (h : f.kind ∉ [.insufficientCapacity, .insufficientToken, .insufficientForFee]) :
    f.Truthful := by
  cases f with
  | insufficientCapacity | insufficientTokens | insufficientForFee =>
    exact absurd (by simp [kind]) h
  | _ => exact trivial

/-- A plain failure tells of no shortage. -/
theorem Failure.Plain.truthful {f : Failure} (h : f.Plain) : f.Truthful := by
  have hkinds : ∀ kind ∈ [Kind.insufficientCapacity, .insufficientToken, .insufficientForFee],
      kind.isPlain = false := by decide
  exact truthful_of_kind fun hkind => Bool.false_ne_true ((hkinds _ hkind).symm.trans h)

/-- A failure of the world tells of no shortage. -/
theorem Failure.truthful_of_world {f : Failure} (h : f.kind ∈ [.remoteQueryFailure, .defect]) :
    f.Truthful := by
  have hkinds : ∀ kind ∈ [Kind.remoteQueryFailure, .defect],
      kind ∉ [.insufficientCapacity, .insufficientToken, .insufficientForFee] := by decide
  exact truthful_of_kind (hkinds _ h)

/-- Where something is left over there is no shortage. -/
theorem Failure.RestBelow.not_truthful {f : Failure} {floor : Nat} (h : f.RestBelow floor) :
    ¬ f.Truthful := by
  cases f with
  | insufficientCapacity required collected => exact Nat.lt_asymm h.1
  | insufficientForFee fee available => exact Nat.not_lt.mpr h.1
  | _ => exact h.elim

/-- A draft that is not covered falls short of what is required, or leaves something over that does
not fund its change. -/
theorem Balance.of_not_covered {b : Balance} (hsufficient : b.isSufficient = false)
    (hexact : b.isExact = false) :
    b.collected < b.required ∨ ∃ floor, b.changeOccupied = some floor ∧
      b.required < b.collected ∧ b.collected < b.required + floor := by
  by_cases hle : b.required ≤ b.collected
  · have hleft : b.leftover? = some (b.collected - b.required) := if_pos hle
    unfold isSufficient at hsufficient
    unfold isExact at hexact
    rw [hleft] at hsufficient hexact
    cases hchange : b.changeOccupied with
    | none =>
      rw [hchange] at hsufficient hexact
      simp at hsufficient hexact
      omega
    | some floor =>
      rw [hchange] at hsufficient
      simp at hsufficient
      exact Or.inr ⟨floor, rfl, by omega, by omega⟩
  · exact Or.inl (Nat.lt_of_not_le hle)

namespace Construction

/-- The lock of the output that gets what is left over: the change, or the only output of a
claim. -/
inductive RestGoesTo (a : Assembler σ) : Construction → Script → Prop
  | change {k : Construction} {o : Opening} {lock : Script} (opens : Opens a k o)
      (change : o.change = some lock) : RestGoesTo a k lock
  | claim {p : OutPoint} {w : Assembler.WithdrawingCell}
      (loaded : Yields (a.loadWithdrawing p) w) : RestGoesTo a (.claim p) w.cell.cell.lock

/-- Why a construction failed. -/
inductive Cause (a : Assembler σ) (k : Construction) : Failure → Prop
  /-- A question or a search failed. -/
  | world {f : Failure} (kind : f.kind ∈ [.remoteQueryFailure, .defect]) : Cause a k f
  /-- A request was refused, a thing was not there, or a sum did not fit. -/
  | plain {f : Failure} (plain : f.Plain) : Cause a k f
  /-- The cells ran out before a draft of what the construction starts from was covered. -/
  | capacity {o : Opening} {d : Draft} {fee : Capacity} {required collected : Nat}
      (opens : Opens a k o) (offers : d.Offers o.promised o.change)
      (estimated : Yields (a.estimate d) fee)
      (required_eq : required = Capacity.total (o.promised.map Cell.capacity) + fee.toNat)
      (collected_eq : collected = Capacity.total (d.inputs.map DraftInput.worth))
      (uncovered : collected < required ∨ ∃ lock, o.change = some lock ∧ required < collected ∧
        collected < required + changeFloor lock) :
      Cause a k (.insufficientCapacity required collected)
  /-- The token cells ran out. -/
  | tokens {required collected : TokenAmount} (less : collected < required) :
      Cause a k (.insufficientTokens required collected)
  /-- The worth of a claimed cell does not pay for the fee and what the output occupies. -/
  | fee {p : OutPoint} {w : Assembler.WithdrawingCell} {d : Draft} {fee : Capacity}
      (claims : k = .claim p) (loaded : Yields (a.loadWithdrawing p) w)
      (estimated : Yields (a.estimate d) fee)
      (less : w.worth.toNat < fee.toNat + changeFloor w.cell.cell.lock) :
      Cause a k (.insufficientForFee fee w.worth)

variable {a : Assembler σ} {k : Construction} {f : Failure}

/-- Every failure of a construction has a cause, whatever the world answers. -/
theorem failsOnly_cause (a : Assembler σ) (k : Construction) : FailsOnly (Cause a k) (k.run a) := by
  refine failsOnly_run (a.answers (fun _ => .world) fun _ => .plain) ?_
    (fun _ _ => .tokens) fun _ _ _ _ => .fee
  intro o d b hopens hoffers hb hsufficient hexact
  obtain ⟨fee, hfee, hcollected, hrequired, hfloor⟩ := Assembler.measure_spec hoffers hb
  refine .capacity hopens hoffers hfee hrequired hcollected ?_
  refine (Balance.of_not_covered hsufficient hexact).imp_right ?_
  rintro ⟨floor, hchange, hleft⟩
  rw [hfloor, Option.map_eq_some_iff] at hchange
  obtain ⟨lock, hlock, rfl⟩ := hchange
  exact ⟨lock, hlock, hleft⟩

/-- A shortage that is caused is as it is told, or the rest is below its floor. -/
theorem Cause.truthful_or (h : Cause a k f) :
    f.Truthful ∨ ∃ lock, RestGoesTo a k lock ∧ f.RestBelow (changeFloor lock) := by
  cases h with
  | world hkind => exact Or.inl (Failure.truthful_of_world hkind)
  | plain hplain => exact Or.inl hplain.truthful
  | capacity hopens _ _ _ _ huncovered =>
    refine huncovered.imp_right ?_
    rintro ⟨lock, hlock, hleft⟩
    exact ⟨lock, .change hopens hlock, hleft⟩
  | tokens hless => exact Or.inl hless
  | @fee p w d fee hclaims hloaded _ hless =>
    subst hclaims
    rcases Nat.lt_or_ge w.worth.toNat fee.toNat with hlt | hge
    · exact Or.inl hlt
    · exact Or.inr ⟨_, .claim hloaded, hge, hless⟩

/-- What a failed construction says of a shortage is true, unless what is left over is less than the
output that gets it occupies: the change, or the only output of a claim. Then the failure says that
there is not enough, and names more than it says is required. -/
theorem shortage_truthful_iff (h : Reaches (k.run a).run (.error f)) :
    f.Truthful ↔ ¬ ∃ lock, RestGoesTo a k lock ∧ f.RestBelow (changeFloor lock) := by
  constructor
  · rintro htruthful ⟨lock, -, hrest⟩
    exact hrest.not_truthful htruthful
  · exact (failsOnly_cause a k f h).truthful_or.resolve_right

/-- A cell of 100 CKB does not pay for 100 CKB and a fee. -/
theorem shortage_truthful_iff_oneCell :
    let a := Assembler.onChain (.oneCell (.plain (.ofByte 1) 10000000000))
    let k := transfer ⟨[.ofByte 1], [(.ofByte 2, 10000000000)], some (.ofByte 1)⟩
    let f := Failure.insufficientCapacity 10000000464 10000000000
    Reaches (k.run a).run (.error f) ∧
      (f.Truthful ↔ ¬ ∃ lock, RestGoesTo a k lock ∧ f.RestBelow (changeFloor lock)) := by
  intro a k f
  have h : Reaches (k.run a).run (.error f) := reaches_of_run (s := 0) (by decide +kernel)
  exact ⟨h, shortage_truthful_iff h⟩

/-- A cell that holds a shannon more than the receiver and the fee get is too little, and so is a
claimed cell that is worth 12 CKB more than the fee. -/
theorem shortage_not_truthful :
    (Reaches ((transfer ⟨[.ofByte 1], [(.ofByte 2, 10000000000)], some (.ofByte 1)⟩).run
        (.onChain (.oneCell (.plain (.ofByte 1) 10000000465)))).run
        (.error (.insufficientCapacity 10000000464 10000000465)) ∧
      ¬ (Failure.insufficientCapacity 10000000464 10000000465).Truthful) ∧
    Reaches ((claim ⟨withdrawing.hash, 0⟩).run
        { Assembler.onChain .withdrawn with feeRate := 70000000000 }).run
        (.error (.insufficientForFee 32760000000 33960000000)) ∧
      ¬ (Failure.insufficientForFee 32760000000 33960000000).Truthful := by
  refine ⟨⟨reaches_of_run (s := 0) (by decide +kernel), ?_⟩,
    reaches_of_run (s := 0) (by decide +kernel), ?_⟩
  · exact Nat.lt_asymm (by decide)
  · exact Nat.not_lt.mpr (by decide)

end Construction

end CellTx
