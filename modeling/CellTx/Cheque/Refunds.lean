import CellTx.Capacity
import CellTx.Failure

/-!
# Refunds

What is owed back to the senders of claimed cheques: each sender once, in the order of the first
credit, with the sum of the sender's credits (specification, section 4.6). A credit that would carry
a sender's sum beyond 64 bits is refused.

Results:
* `owed_credit`: a credit that is granted adds to its sender's sum.
* `owed_credit_of_ne`: it leaves every other sum as it was. What a sequence of credits comes to,
  refused ones included, is `Refunds.postings_exact` in `CellTx.Proofs.Postings`.

Out of scope: lifting a refund to what its cell occupies, which is not done anywhere
(`Assembler.claimed_outputs_funded_iff` says when it would have to be).
-/

namespace CellTx

/-- What is owed to whom. -/
abbrev Refunds := List (Script × Capacity)

namespace Refunds

/-- Adds to what a sender is owed. -/
def credit (sender : Script) (capacity : Capacity) : Refunds → Except Failure Refunds
  | [] => .ok [(sender, capacity)]
  | (lock, owed) :: rest =>
    if lock = sender then
      match Capacity.add? owed capacity with
      | some sum => .ok ((lock, sum) :: rest)
      | none => .error .capacityOverflow
    else return (lock, owed) :: (← credit sender capacity rest)

/-- What a sender is owed. -/
def owed (sender : Script) : Refunds → Nat
  | [] => 0
  | (lock, capacity) :: rest => if lock = sender then capacity.toNat else owed sender rest

/-! ## Lemmas -/

section Cons

variable (sender lock : Script) (r : Refunds)

theorem credit_cons (capacity owed : Capacity) :
    credit sender capacity ((lock, owed) :: r) =
      if lock = sender then
        match Capacity.add? owed capacity with
        | some sum => .ok ((lock, sum) :: r)
        | none => .error .capacityOverflow
      else return (lock, owed) :: (← credit sender capacity r) := rfl

theorem owed_nil : owed sender [] = 0 := rfl

theorem owed_cons (capacity : Capacity) :
    owed sender ((lock, capacity) :: r) =
      if lock = sender then capacity.toNat else owed sender r := rfl

end Cons

/-- What a credit of a sender behind the first one does to the rest. -/
theorem credit_cons_of_ne {sender lock : Script} {capacity owed : Capacity} {r r' : Refunds}
    (hne : lock ≠ sender) (h : credit sender capacity ((lock, owed) :: r) = .ok r') :
    ∃ rest, credit sender capacity r = .ok rest ∧ r' = (lock, owed) :: rest := by
  rw [credit_cons, if_neg hne] at h
  cases hr : credit sender capacity r with
  | error f =>
    rw [hr] at h
    cases h
  | ok rest =>
    rw [hr] at h
    exact ⟨rest, rfl, (Except.ok.inj h).symm⟩

theorem owed_credit {sender : Script} {capacity : Capacity} {r r' : Refunds}
    (h : credit sender capacity r = .ok r') :
    owed sender r' = owed sender r + capacity.toNat := by
  induction r generalizing r' with
  | nil =>
    rw [← Except.ok.inj h]
    simp [owed]
  | cons e r ih =>
    obtain ⟨lock, held⟩ := e
    by_cases hl : lock = sender
    · rw [credit_cons, if_pos hl] at h
      split at h
      · rename_i sum hsum
        rw [← Except.ok.inj h, owed_cons, if_pos hl, owed_cons, if_pos hl]
        exact Capacity.add?_eq_some_iff.mp hsum
      · cases h
    · obtain ⟨rest, hrest, rfl⟩ := credit_cons_of_ne hl h
      rw [owed_cons, if_neg hl, owed_cons, if_neg hl]
      exact ih hrest

theorem owed_credit_of_ne {sender other : Script} {capacity : Capacity} {r r' : Refunds}
    (hne : sender ≠ other) (h : credit sender capacity r = .ok r') :
    owed other r' = owed other r := by
  induction r generalizing r' with
  | nil =>
    rw [← Except.ok.inj h]
    simp [owed, hne]
  | cons e r ih =>
    obtain ⟨lock, held⟩ := e
    by_cases hl : lock = sender
    · have ho : lock ≠ other := fun heq => hne (hl.symm.trans heq)
      rw [credit_cons, if_pos hl] at h
      split at h
      · rw [← Except.ok.inj h, owed_cons, if_neg ho, owed_cons, if_neg ho]
      · cases h
    · obtain ⟨rest, hrest, rfl⟩ := credit_cons_of_ne hl h
      rw [owed_cons, owed_cons, ih hrest]

end Refunds

end CellTx
