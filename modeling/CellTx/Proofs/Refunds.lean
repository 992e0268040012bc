import CellTx.Cheque.Refunds
import CellTx.Proofs.Outcome

/-!
# Credits

Some credits one after the other, none of which is refused (`Refunds.credits`).

Results:
* `keys_credits`, `nodup_credits`: each sender is listed once, in the order of the first credit.
* `owed_credits`: a sender is owed the sum of its credits.
* `total_credits`: all that is credited is owed.
* `credit_eq_error_iff`: a credit is refused exactly when its sender's sum would leave 64 bits.

Out of scope: what is left after a refusal, which is in `CellTx.Proofs.Postings`.
-/

namespace CellTx

namespace Refunds

/-- Some credits, one after the other. -/
def credits : Refunds → List (Script × Capacity) → Except Failure Refunds
  | r, [] => .ok r
  | r, (sender, capacity) :: rest => do
    let r ← r.credit sender capacity
    credits r rest

/-- The senders that are owed something. -/
def keys (r : Refunds) : List Script := r.map Prod.fst

variable {sender : Script} {capacity : Capacity} {r r' : Refunds}

/-! ## One credit -/

/-- A credit lists its sender, unless it is listed. -/
theorem keys_credit (h : credit sender capacity r = .ok r') :
    keys r' = if sender ∈ keys r then keys r else keys r ++ [sender] := by
  induction r generalizing r' with
  | nil =>
    rw [← Except.ok.inj h]
    rfl
  | cons e r ih =>
    obtain ⟨lock, held⟩ := e
    by_cases hl : lock = sender
    · rw [credit_cons, if_pos hl] at h
      rw [if_pos (hl ▸ List.mem_cons_self)]
      split at h
      · rw [← Except.ok.inj h]
        rfl
      · cases h
    · obtain ⟨rest, hrest, rfl⟩ := credit_cons_of_ne hl h
      have hmem : sender ∈ keys ((lock, held) :: r) ↔ sender ∈ keys r := by
        rw [keys, List.map_cons, List.mem_cons]
        exact or_iff_right (Ne.symm hl)
      have hrec : keys ((lock, held) :: rest) = lock :: keys rest := rfl
      rw [hrec, ih hrest]
      by_cases hs : sender ∈ keys r
      · rw [if_pos hs, if_pos (hmem.mpr hs)]
        rfl
      · rw [if_neg hs, if_neg (mt hmem.mp hs)]
        rfl

/-- A credit keeps senders apart. -/
theorem nodup_credit (hn : (keys r).Nodup) (h : credit sender capacity r = .ok r') :
    (keys r').Nodup := by
  rw [keys_credit h]
  split
  · exact hn
  · rename_i hs
    refine List.nodup_append.mpr
      ⟨hn, List.nodup_cons.mpr ⟨List.not_mem_nil, List.nodup_nil⟩, fun x hx y hy => ?_⟩
    rw [List.mem_singleton.mp hy]
    exact fun heq => hs (heq ▸ hx)

theorem total_credit (h : credit sender capacity r = .ok r') :
    Capacity.total (r'.map Prod.snd) = Capacity.total (r.map Prod.snd) + capacity.toNat := by
  induction r generalizing r' with
  | nil =>
    rw [← Except.ok.inj h]
    exact Nat.add_comm _ _
  | cons e r ih =>
    obtain ⟨lock, held⟩ := e
    by_cases hl : lock = sender
    · rw [credit_cons, if_pos hl] at h
      split at h
      · rename_i sum hsum
        have := Capacity.add?_eq_some_iff.mp hsum
        rw [← Except.ok.inj h]
        simp only [List.map_cons, Capacity.total_cons]
        omega
      · cases h
    · obtain ⟨rest, hrest, rfl⟩ := credit_cons_of_ne hl h
      simp only [List.map_cons, Capacity.total_cons, ih hrest, Nat.add_assoc]

/-- With senders kept apart, an entry is what its sender is owed. -/
theorem owed_of_mem (hn : (keys r).Nodup) {e : Script × Capacity} (he : e ∈ r) :
    owed e.1 r = e.2.toNat := by
  induction r with
  | nil => exact absurd he List.not_mem_nil
  | cons f r ih =>
    obtain ⟨lock, held⟩ := f
    rw [keys, List.map_cons, List.nodup_cons] at hn
    rcases List.mem_cons.mp he with rfl | hr
    · rw [owed_cons, if_pos rfl]
    · have hne : lock ≠ e.1 := by
        rintro rfl
        exact hn.1 (List.mem_map.mpr ⟨e, hr, rfl⟩)
      rw [owed_cons, if_neg hne, ih hn.2 hr]

theorem owed_of_not_mem (h : sender ∉ keys r) : owed sender r = 0 := by
  induction r with
  | nil => rfl
  | cons e r ih =>
    obtain ⟨lock, held⟩ := e
    rw [keys, List.map_cons, List.mem_cons, not_or] at h
    rw [owed_cons, if_neg (Ne.symm h.1), ih h.2]

/-- No sender is owed more than all together. -/
theorem owed_le_total (sender : Script) (r : Refunds) :
    owed sender r ≤ Capacity.total (r.map Prod.snd) := by
  induction r with
  | nil => exact Nat.zero_le _
  | cons e r ih =>
    obtain ⟨lock, held⟩ := e
    rw [owed_cons, List.map_cons, Capacity.total_cons]
    split
    · exact Nat.le_add_right _ _
    · exact Nat.le_trans ih (Nat.le_add_left _ _)

/-- A credit is refused exactly when the sum of its sender would leave 64 bits. -/
theorem credit_eq_error_iff {f : Failure} :
    credit sender capacity r = .error f ↔
      f = .capacityOverflow ∧ UInt64.size ≤ owed sender r + capacity.toNat := by
  have hsize := capacity.toNat_lt
  induction r generalizing f with
  | nil =>
    refine iff_of_false nofun fun h => ?_
    have hle := h.2
    rw [owed_nil] at hle
    omega
  | cons e r ih =>
    obtain ⟨lock, held⟩ := e
    by_cases hl : lock = sender
    · rw [credit_cons, if_pos hl, owed_cons, if_pos hl]
      cases hsum : Capacity.add? held capacity with
      | some sum =>
        refine iff_of_false nofun fun h => ?_
        have hfits := Capacity.add?_eq_some_iff.mp hsum
        have hlt := sum.toNat_lt
        omega
      | none =>
        rw [Except.error.injEq, eq_comm]
        exact (and_iff_left (Capacity.ofNat?_eq_none_iff.mp hsum)).symm
    · rw [credit_cons, if_neg hl, owed_cons, if_neg hl]
      refine Iff.trans ?_ ih
      cases credit sender capacity r with
      | ok rest => exact iff_of_false nofun nofun
      | error g => exact Iff.rfl

/-- The senders after a credit and those after them that are new, each once. -/
theorem keys_credit_append (h : credit sender capacity r = .ok r') (senders : List Script) :
    keys r' ++ (senders.filter (· ∉ keys r')).eraseDups =
      keys r ++ ((sender :: senders).filter (· ∉ keys r)).eraseDups := by
  rw [keys_credit h]
  by_cases hs : sender ∈ keys r
  · rw [if_pos hs, List.filter_cons_of_neg (by simpa using hs)]
  · rw [if_neg hs, List.filter_cons_of_pos (by simpa using hs), List.eraseDups_cons,
      List.append_assoc, List.filter_filter]
    refine congrArg (fun l => keys r ++ sender :: List.eraseDups l) ?_
    refine List.filter_congr fun x _ => ?_
    by_cases hx : x = sender <;> simp [hx]

/-! ## Many credits -/

variable {entries : List (Script × Capacity)}

theorem nodup_credits (hn : (keys r).Nodup) (h : credits r entries = .ok r') :
    (keys r').Nodup := by
  induction entries generalizing r with
  | nil => exact Except.ok.inj h ▸ hn
  | cons e entries ih =>
    obtain ⟨r₁, h₁, h⟩ := except_bind_eq_ok.mp h
    exact ih (nodup_credit hn h₁) h

/-- Senders are listed in the order of their first credits. -/
theorem keys_credits (h : credits r entries = .ok r') :
    keys r' = keys r ++ ((entries.map Prod.fst).filter (· ∉ keys r)).eraseDups := by
  induction entries generalizing r with
  | nil =>
    rw [Except.ok.inj h]
    exact (List.append_nil _).symm
  | cons e entries ih =>
    obtain ⟨r₁, h₁, h⟩ := except_bind_eq_ok.mp h
    rw [ih h, List.map_cons, keys_credit_append h₁]

theorem owed_credits (h : credits r entries = .ok r') (lock : Script) :
    owed lock r' =
      owed lock r + Capacity.total ((entries.filter (·.1 = lock)).map Prod.snd) := by
  induction entries generalizing r with
  | nil =>
    rw [Except.ok.inj h]
    rfl
  | cons e entries ih =>
    obtain ⟨r₁, h₁, h⟩ := except_bind_eq_ok.mp h
    rw [ih h]
    by_cases hl : e.1 = lock
    · rw [List.filter_cons_of_pos (by simpa using hl), ← hl, owed_credit h₁, List.map_cons,
        Capacity.total_cons, Nat.add_assoc]
    · rw [List.filter_cons_of_neg (by simpa using hl), owed_credit_of_ne hl h₁]

theorem total_credits (h : credits r entries = .ok r') :
    Capacity.total (r'.map Prod.snd) =
      Capacity.total (r.map Prod.snd) + Capacity.total (entries.map Prod.snd) := by
  induction entries generalizing r with
  | nil =>
    rw [Except.ok.inj h]
    rfl
  | cons e entries ih =>
    obtain ⟨r₁, h₁, h⟩ := except_bind_eq_ok.mp h
    rw [ih h, total_credit h₁, List.map_cons, Capacity.total_cons, Nat.add_assoc]

end Refunds

end CellTx
