import CellTx.Proofs.Refunds
import Mathlib.Algebra.GroupWithZero.Nat

/-!
# Refunds kept by their owner

Credits on a list that stays with its owner, who goes on after one that was refused
(`Refunds.post`).

Results:
* `Refunds.posting_eq`: to an owner who drops the list then, a posting is the credit that returns a
  list.
* `Refunds.credits_granted`: what a sequence of postings leaves is what the granted ones among them
  make.
* `Refunds.postings_exact`: every sender is listed once, in the order of first appearance, with the
  exact sum of its granted credits; a credit is refused exactly when that sum would leave 64 bits,
  and changes nothing then.

Out of scope: taking a credit back.
-/

namespace CellTx

namespace Refunds

/-! ## One posting -/

/-- Adds to what a sender is owed: in the first entry of the sender, or in a new one. -/
def post (sender : Script) (capacity : Capacity) : ExceptT Failure (StateM Refunds) Unit := do
  let r ← get
  match r.findFinIdx? (·.1 = sender) with
  | some i =>
    match Capacity.add? r[i].2 capacity with
    | some sum => set (r.set i (r[i].1, sum))
    | none => throw .capacityOverflow
  | none => set (r ++ [(sender, capacity)])

/-- What a posting comes to, and the list that it leaves. -/
def posting (sender : Script) (capacity : Capacity) (r : Refunds) :
    Except Failure Unit × Refunds :=
  ((post sender capacity).run.run r).run

variable {sender lock : Script} {capacity : Capacity} {r r' : Refunds} {f : Failure}

/-- A credit goes to the first entry of its sender, or to a new one at the end. -/
theorem credit_eq_found :
    credit sender capacity r =
      match r.findFinIdx? (·.1 = sender) with
      | some i =>
        match Capacity.add? (r.get i).2 capacity with
        | some sum => .ok (r.set i ((r.get i).1, sum))
        | none => .error .capacityOverflow
      | none => .ok (r ++ [(sender, capacity)]) := by
  induction r with
  | nil => rfl
  | cons e r ih =>
    obtain ⟨lock, held⟩ := e
    rw [List.findFinIdx?_cons]
    by_cases hl : lock = sender
    · rw [credit_cons, if_pos hl, if_pos (decide_eq_true hl)]
      rfl
    · rw [credit_cons, if_neg hl, if_neg (by simpa using hl), ih]
      cases r.findFinIdx? (·.1 = sender) with
      | none => rfl
      | some i =>
        simp only [Option.map_some, List.get_cons_succ', Fin.val_succ, List.set_cons_succ]
        cases Capacity.add? (r.get i).2 capacity <;> rfl

/-- A posting is the credit, and leaves the list alone when that is refused. -/
theorem posting_eq (sender : Script) (capacity : Capacity) (r : Refunds) :
    posting sender capacity r =
      match credit sender capacity r with
      | .ok r' => (.ok (), r')
      | .error f => (.error f, r) := by
  rw [credit_eq_found, posting, post]
  change StateT.run (ExceptT.run (match r.findFinIdx? (·.1 = sender) with
    | some i => _
    | none => _)) r = _
  cases r.findFinIdx? (·.1 = sender) with
  | none => rfl
  | some i =>
    dsimp only
    cases Capacity.add? r[i].2 capacity <;> rfl

/-! ## Many postings -/

/-- The list that is left by some postings, one after the other, whatever became of those before. -/
def posted : Refunds → List (Script × Capacity) → Refunds
  | r, [] => r
  | r, e :: rest => posted (posting e.1 e.2 r).2 rest

/-- The credits that are granted when they are posted one after the other. -/
def granted : Refunds → List (Script × Capacity) → List (Script × Capacity)
  | _, [] => []
  | r, e :: rest =>
    match posting e.1 e.2 r with
    | (.ok (), left) => e :: granted left rest
    | (.error _, left) => granted left rest

variable {e : Script × Capacity} (entries : List (Script × Capacity))

theorem posted_of_granted (h : credit e.1 e.2 r = .ok r') :
    posted r (e :: entries) = posted r' entries ∧
      granted r (e :: entries) = e :: granted r' entries := by
  rw [posted, granted, posting_eq, h]
  exact ⟨rfl, rfl⟩

theorem posted_of_refused (h : credit e.1 e.2 r = .error f) :
    posted r (e :: entries) = posted r entries ∧ granted r (e :: entries) = granted r entries := by
  rw [posted, granted, posting_eq, h]
  exact ⟨rfl, rfl⟩

/-- What is left is what the granted credits make. -/
theorem credits_granted (r : Refunds) (entries : List (Script × Capacity)) :
    credits r (granted r entries) = .ok (posted r entries) := by
  induction entries generalizing r with
  | nil => rfl
  | cons e entries ih =>
    cases h : credit e.1 e.2 r with
    | ok r' =>
      obtain ⟨hposted, hgranted⟩ := posted_of_granted entries h
      rw [hposted, hgranted]
      exact except_bind_eq_ok.mpr ⟨r', h, ih r'⟩
    | error f =>
      obtain ⟨hposted, hgranted⟩ := posted_of_refused entries h
      rw [hposted, hgranted, ih r]

/-- Only a sender that is listed can be refused a credit. -/
theorem mem_keys_of_refused (h : credit sender capacity r = .error f) : sender ∈ keys r := by
  refine Decidable.not_not.mp fun hmem => ?_
  have hle := (credit_eq_error_iff.mp h).2
  rw [owed_of_not_mem hmem, Nat.zero_add] at hle
  exact Nat.not_le_of_lt (Capacity.toNat_lt capacity) hle

/-- Senders are listed in the order of their first credits, which are granted. -/
theorem keys_posted (r : Refunds) (entries : List (Script × Capacity)) :
    keys (posted r entries) =
      keys r ++ ((entries.map Prod.fst).filter (· ∉ keys r)).eraseDups := by
  induction entries generalizing r with
  | nil => exact (List.append_nil _).symm
  | cons e entries ih =>
    rw [List.map_cons]
    cases h : credit e.1 e.2 r with
    | ok r' => rw [(posted_of_granted _ h).1, ih r', keys_credit_append h]
    | error f =>
      rw [(posted_of_refused _ h).1, ih r,
        List.filter_cons_of_neg (by simpa using mem_keys_of_refused h)]

/-- Which credits of a sender are granted depends on the credits of that sender alone. -/
theorem granted_filter (h : owed lock r = owed lock r') (entries : List (Script × Capacity)) :
    (granted r entries).filter (·.1 = lock) = granted r' (entries.filter (·.1 = lock)) := by
  induction entries generalizing r r' with
  | nil => rfl
  | cons e entries ih =>
    by_cases hl : e.1 = lock
    · rw [List.filter_cons_of_pos (by simpa using hl)]
      have howed : owed e.1 r = owed e.1 r' := hl ▸ h
      cases hr : credit e.1 e.2 r with
      | ok r₁ =>
        cases hr' : credit e.1 e.2 r' with
        | ok r₁' =>
          have hsum : owed lock r₁ = owed lock r₁' := by
            rw [← hl, owed_credit hr, owed_credit hr', howed]
          rw [(posted_of_granted _ hr).2, (posted_of_granted _ hr').2,
            List.filter_cons_of_pos (by simpa using hl), ih hsum]
        | error f =>
          rw [credit_eq_error_iff, ← howed, ← credit_eq_error_iff, hr] at hr'
          exact nomatch hr'
      | error f =>
        have hr' : credit e.1 e.2 r' = .error f := by
          rwa [credit_eq_error_iff, ← howed, ← credit_eq_error_iff]
        rw [(posted_of_refused _ hr).2, (posted_of_refused _ hr').2, ih h]
    · rw [List.filter_cons_of_neg (by simpa using hl)]
      cases hr : credit e.1 e.2 r with
      | ok r₁ =>
        rw [(posted_of_granted _ hr).2, List.filter_cons_of_neg (by simpa using hl),
          ih ((owed_credit_of_ne hl hr).trans h)]
      | error f => rw [(posted_of_refused _ hr).2, ih h]

/-- After any credits, made one after the other whatever became of those before, the list has each
credited sender once, in the order of first appearance, with the sum of the credits that were
granted to it. The next credit is refused exactly when it would carry the sum of its sender beyond
64 bits, for that reason, and leaves the list as it was; otherwise it adds to that sum. What
becomes of the credits of a sender is the same without those of the others. -/
theorem postings_exact (entries : List (Script × Capacity)) :
    keys (posted [] entries) = (entries.map Prod.fst).eraseDups ∧
      (keys (posted [] entries)).Nodup ∧
      (∀ e ∈ posted [] entries, e.2.toNat = owed e.1 (posted [] entries)) ∧
      (∀ lock, owed lock (posted [] entries) =
        Capacity.total (((granted [] entries).filter (·.1 = lock)).map Prod.snd)) ∧
      (∀ sender capacity,
        ((∃ f, (posting sender capacity (posted [] entries)).1 = .error f) ↔
          2 ^ 64 ≤ owed sender (posted [] entries) + capacity.toNat) ∧
        ∀ f, (posting sender capacity (posted [] entries)).1 = .error f →
          f = .capacityOverflow ∧
            (posting sender capacity (posted [] entries)).2 = posted [] entries) ∧
      ∀ lock, (granted [] entries).filter (·.1 = lock) =
          granted [] (entries.filter (·.1 = lock)) ∧
        owed lock (posted [] entries) = owed lock (posted [] (entries.filter (·.1 = lock))) := by
  have hkeys : keys (posted [] entries) = (entries.map Prod.fst).eraseDups := by
    have hall : (entries.map Prod.fst).filter (· ∉ keys []) = entries.map Prod.fst :=
      List.filter_eq_self.mpr fun x _ => decide_eq_true List.not_mem_nil
    rw [keys_posted, hall]
    rfl
  have hnodup : (keys (posted [] entries)).Nodup :=
    nodup_credits (r := []) List.nodup_nil (credits_granted [] entries)
  have howed : ∀ (entries : List (Script × Capacity)) (lock : Script),
      owed lock (posted [] entries) =
        Capacity.total (((granted [] entries).filter (·.1 = lock)).map Prod.snd) := by
    intro entries lock
    rw [owed_credits (credits_granted [] entries), owed_nil, Nat.zero_add]
  have hapart : ∀ lock, (granted [] entries).filter (·.1 = lock) =
      granted [] (entries.filter (·.1 = lock)) := fun lock => granted_filter rfl entries
  have hall : ∀ lock, (granted [] (entries.filter (·.1 = lock))).filter (·.1 = lock) =
      granted [] (entries.filter (·.1 = lock)) := by
    intro lock
    rw [← hapart, List.filter_filter]
    exact List.filter_congr fun x _ => Bool.and_self _
  refine ⟨hkeys, hnodup, fun e he => (owed_of_mem hnodup he).symm, howed entries,
    fun sender capacity => ?_, fun lock => ⟨hapart lock, ?_⟩⟩
  · rw [posting_eq]
    cases h : credit sender capacity (posted [] entries) with
    | ok r' =>
      refine ⟨iff_of_false nofun fun hle => ?_, nofun⟩
      rw [credit_eq_error_iff.mpr ⟨rfl, hle⟩] at h
      exact nomatch h
    | error f =>
      obtain ⟨rfl, hle⟩ := credit_eq_error_iff.mp h
      exact ⟨iff_of_true ⟨_, rfl⟩ hle, fun g hg => ⟨(Except.error.inj hg).symm, rfl⟩⟩
  · rw [howed, howed, hapart, hall]

/-- One sender is credited all that 64 bits hold, and another a little. One more for the first is
refused, and the second is credited again. -/
theorem postings_exact_refused :
    let first : Script := ⟨.zero, .type, [1]⟩
    let second : Script := ⟨.zero, .type, [2]⟩
    let r := posted [] [(first, 18446744073709551615), (second, 5)]
    owed first r = 18446744073709551615 ∧ (∃ f, (posting first 1 r).1 = .error f) ∧
      posted r [(first, 1), (second, 7)] = [(first, 18446744073709551615), (second, 12)] := by
  intro first second r
  obtain ⟨-, -, hentry, -, hrefused, -⟩ :=
    postings_exact [(first, 18446744073709551615), (second, 5)]
  have howed : owed first r = 18446744073709551615 :=
    (hentry (first, 18446744073709551615) (by decide)).symm
  refine ⟨howed, (hrefused first 1).1.mpr ?_, by decide⟩
  rw [howed]
  decide

end Refunds

end CellTx
