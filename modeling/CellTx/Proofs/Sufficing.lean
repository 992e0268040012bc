import CellTx.Proofs.Enough

/-!
# Collections that end well

A collection of capacity ends well at the first draft that is covered, or with the last cell at one
that owes nothing and has no change output (`Draft.Collects`).

Results:
* `CellStream.Supplies.on_collects_iff`: nothing else ends well, sums that do not fit included.
* `Draft.Collects.append`: so more cells behind those that it can spend change nothing when it
  stopped at a covered draft, and are all that matters when it did not.
* `Draft.exists_collects_iff`: whether there is a draft to stop at can be told from the drafts one
  by one.

Out of scope: cells that come before those that were there.
-/

namespace CellTx

variable {σ : Type}

open CellStream Edit

namespace Draft

variable {price : Transaction → Capacity} {d d' d'' : Draft} {c : LiveCell} {cells : List LiveCell}

/-- Nothing is owed and nothing is left over, and there is no change output. -/
def Exact (price : Transaction → Capacity) (d : Draft) : Prop :=
  d.change = none ∧ d.leftover (price d.transaction).toNat = 0

/-- A draft is covered when it has no change output and something is left over. -/
theorem covered_iff_of_none (h : d.change = none) :
    d.Covered price ↔ 0 < d.leftover (price d.transaction).toNat := by
  rw [Covered, Sufficient, changeFloor?_of_none h]

theorem Exact.not_covered (h : d.Exact price) : ¬ d.Covered price := by
  rw [covered_iff_of_none h.1, h.2]
  exact Int.lt_irrefl 0

/-- From a draft and some cells that it can spend, a collection ends well with another draft. -/
inductive Collects (price : Transaction → Capacity) : Draft → List LiveCell → Draft → Prop
  /-- A covered draft takes no more cells. -/
  | covered {d : Draft} {cells : List LiveCell} (fit : d.SumsFit) (covered : d.Covered price) :
      Collects price d cells d
  /-- The cells ran out when nothing was owed. -/
  | exact {d : Draft} (fit : d.SumsFit) (exact : d.Exact price) : Collects price d [] d
  | next {d d' : Draft} {c : LiveCell} {cells : List LiveCell} (fit : d.SumsFit)
      (uncovered : ¬ d.Covered price) (rest : Collects price (d.consume c) cells d') :
      Collects price d (c :: cells) d'

namespace Collects

theorem fit (h : Collects price d cells d') : d.SumsFit := by
  cases h <;> assumption

theorem spendsOn (h : Collects price d cells d') : d.SpendsOn d' := by
  induction h with
  | covered | exact => exact SpendsOn.refl _
  | next _ _ _ ih => exact ih.of_consume

theorem stops (h : Collects price d cells d') :
    d'.SumsFit ∧ (d'.Covered price ∨ d'.Exact price) := by
  induction h with
  | covered fit covered => exact ⟨fit, Or.inl covered⟩
  | exact fit exact => exact ⟨fit, Or.inr exact⟩
  | next _ _ _ ih => exact ih

theorem iff_of_covered (hfit : d.SumsFit) (hd : d.Covered price) :
    Collects price d cells d' ↔ d' = d := by
  constructor
  · intro h
    cases h with
    | covered => rfl
    | exact => rfl
    | next _ uncovered => exact absurd hd uncovered
  · rintro rfl
    exact .covered hfit hd

theorem nil_iff (hfit : d.SumsFit) (hd : ¬ d.Covered price) :
    Collects price d [] d' ↔ d.Exact price ∧ d' = d := by
  constructor
  · intro h
    cases h with
    | covered _ covered => exact absurd covered hd
    | exact _ exact => exact ⟨exact, rfl⟩
  · rintro ⟨hexact, rfl⟩
    exact .exact hfit hexact

theorem cons_iff (hfit : d.SumsFit) (hd : ¬ d.Covered price) :
    Collects price d (c :: cells) d' ↔ Collects price (d.consume c) cells d' := by
  constructor
  · intro h
    cases h with
    | covered _ covered => exact absurd covered hd
    | next _ _ rest => exact rest
  · exact .next hfit hd

/-- A collection that stopped at a covered draft stops there whatever comes behind. One that did not
has spent all cells, and goes on from there. -/
theorem append (h : Collects price d cells d') (more : List LiveCell) :
    d'.Covered price ∧ Collects price d (cells ++ more) d' ∨
      d' = cells.foldl consume d ∧ d'.Exact price ∧ d'.SumsFit ∧
        ∀ d'', Collects price d (cells ++ more) d'' ↔ Collects price d' more d'' := by
  induction h with
  | covered fit covered => exact Or.inl ⟨covered, .covered fit covered⟩
  | exact fit exact => exact Or.inr ⟨rfl, exact, fit, fun _ => Iff.rfl⟩
  | next fit uncovered _ ih =>
    refine ih.imp (fun ⟨hcovered, hrest⟩ => ⟨hcovered, .next fit uncovered hrest⟩) ?_
    rintro ⟨hd', hexact, hfit, hrest⟩
    exact ⟨hd', hexact, hfit, fun d'' => (cons_iff fit uncovered).trans (hrest d'')⟩

end Collects

/-! ## One by one -/

/-- A spent cell does not make sums fit. -/
theorem SumsFit.of_consume (h : (d.consume c).SumsFit) : d.SumsFit where
  inputs := by
    have := h.inputs
    rw [worth_consume] at this
    omega
  outputs := h.outputs
  floor := h.floor

theorem SumsFit.of_spending {k : Nat} (h : (d.spending cells k).SumsFit) : d.SumsFit := by
  induction k generalizing d cells with
  | zero => exact h
  | succ k ih =>
    cases cells with
    | nil => exact h
    | cons c cells => exact (ih (d := d.consume c) h).of_consume

/-- A collection ends well when one of the drafts is covered, or the last one is exact, and the sums
up to there fit. -/
theorem exists_collects_iff : (∃ d', Collects price d cells d') ↔
    ∃ k ≤ cells.length, (d.spending cells k).SumsFit ∧
      ((d.spending cells k).Covered price ∨
        k = cells.length ∧ (d.spending cells k).Exact price) := by
  constructor
  · rintro ⟨d', h⟩
    induction h with
    | covered fit covered => exact ⟨0, Nat.zero_le _, fit, Or.inl covered⟩
    | exact fit exact => exact ⟨0, Nat.le_refl _, fit, Or.inr ⟨rfl, exact⟩⟩
    | next _ _ _ ih =>
      obtain ⟨k, hk, hfit, hstop⟩ := ih
      exact ⟨k + 1, Nat.succ_le_succ hk, hfit, hstop.imp_right (.imp_left (congrArg (· + 1)))⟩
  · rintro ⟨k, hk, hfit, hstop⟩
    induction cells generalizing d k with
    | nil =>
      obtain rfl := Nat.le_zero.mp hk
      rcases hstop with hcovered | ⟨-, hexact⟩
      · exact ⟨d, .covered hfit hcovered⟩
      · exact ⟨d, .exact hfit hexact⟩
    | cons c cells ih =>
      have hhere := hfit.of_spending
      by_cases hd : d.Covered price
      · exact ⟨d, .covered hhere hd⟩
      cases k with
      | zero =>
        rcases hstop with hcovered | ⟨hnil, -⟩
        · exact absurd hcovered hd
        · exact nomatch hnil
      | succ k =>
        obtain ⟨d', h⟩ := ih (d := d.consume c) k (Nat.le_of_succ_le_succ hk) hfit
          (hstop.imp_right (.imp_left Nat.succ.inj))
        exact ⟨d', .next hhere hd h⟩

end Draft

/-! ## Runs -/

namespace InPlace

variable {a : Assembler σ} {price : Transaction → Capacity} {bound fuel : Nat} {got : Collected}
  {d : Draft} {streams rest : List CellStream} {s s' : σ} {c : LiveCell}

theorem on_collectCapacityWithin_unfit (ha : a.Prices price) (hfit : ¬ d.SumsFit) :
    (collectCapacityWithin a bound (fuel + 1) got streams).on d s =
      (.error .capacityOverflow, d, s) := by
  have hmeasure : (look (a.measure d)).on d s = (.error .capacityOverflow, d, s) := by
    rw [on_look, Assembler.run_measure_error ha hfit]
  rw [collectCapacityWithin, on_bind_ok _ (on_draft d s), on_bind_error _ hmeasure]

theorem on_collectCapacityWithin_unadded (ha : a.Prices price) (hfit : d.SumsFit)
    (h : ¬ d.Covered price)
    (hfind : (CellStream.find a.ledger (d.takes Cell.isPlain) bound streams).run.run s =
      (.ok (some c, rest), s')) {f : Failure} (hadd : got.add c = .error f) :
    (collectCapacityWithin a bound (fuel + 1) got streams).on d s = (.error f, d, s') := by
  have hlook : (look (Build.ofExcept (got.add c))).on d s' = (.error f, d, s') := by
    rw [on_look_ofExcept, hadd]
  rw [collectCapacityWithin, on_bind_ok _ (on_draft d s), on_bind_ok _ (on_look_measure ha hfit s),
    if_neg (mt (d.isSufficient_balance _).mp h)]
  exact (on_bind_ok _ (on_look_find hfind)).trans (on_bind_error _ hlook)

end InPlace

/-- What is collected does not fit with a cell when the inputs do not. -/
theorem Collected.exists_add_or {got : Collected} {d : Draft} (hgot : got.capacity.toNat ≤ d.worth)
    (c : LiveCell) :
    (∃ got' : Collected, got.add c = .ok got' ∧
      got'.capacity.toNat ≤ (d.consume c).worth) ∨
      (∃ f, got.add c = .error f) ∧ ¬ (d.consume c).SumsFit := by
  rw [Draft.worth_consume]
  by_cases hfit : got.capacity.toNat + c.cell.capacity.toNat < UInt64.size
  · obtain ⟨got', hadd, -, hcapacity⟩ := got.exists_add c hfit
    exact Or.inl ⟨got', hadd, by omega⟩
  · refine Or.inr ⟨?_, fun h => hfit ?_⟩
    · cases hadd : got.add c with
      | error f => exact ⟨f, rfl⟩
      | ok got' =>
        unfold Collected.add at hadd
        split at hadd
        · rename_i sum hsum
          have := Capacity.add?_eq_some_iff.mp hsum
          exact absurd (this ▸ Capacity.toNat_lt sum) hfit
        · exact nomatch hadd
    · have := h.inputs
      rw [Draft.worth_consume] at this
      omega

/-- A collection over what some streams supply ends well with the drafts of `Draft.Collects`, and
with no other. -/
theorem CellStream.Supplies.on_collects_iff {a : Assembler σ} {price : Transaction → Capacity}
    (ha : a.Prices price) {bound fuel : Nat} {got : Collected} {d d' : Draft}
    {streams : List CellStream} {s : σ} {cells : List LiveCell}
    (h : Supplies a.ledger streams s cells) (hb : cells.length < bound) (hf : cells.length < fuel)
    (hgot : got.capacity.toNat ≤ d.worth) :
    (∃ got' s', (InPlace.collectCapacityWithin a bound fuel got streams).on d s =
      (.ok got', d', s')) ↔ d.Collects price (d.pick Cell.isPlain cells) d' := by
  induction fuel generalizing got d streams s cells with
  | zero => exact absurd hf (Nat.not_lt_zero _)
  | succ fuel ih =>
    by_cases hfit : d.SumsFit
    case neg =>
      rw [InPlace.on_collectCapacityWithin_unfit ha hfit]
      exact iff_of_false nofun fun hd => hfit hd.fit
    by_cases hd : d.Covered price
    · rw [InPlace.on_collectCapacityWithin_covered ha hfit hd,
        Draft.Collects.iff_of_covered hfit hd]
      constructor
      · rintro ⟨_, _, heq⟩
        exact (congrArg (fun x => x.2.1) heq).symm
      · rintro rfl
        exact ⟨_, _, rfl⟩
    obtain ⟨rest, s₁, hfind, hlater⟩ := h.find_pick Cell.isPlain d hb
    cases hpick : d.pick Cell.isPlain cells with
    | nil =>
      rw [hpick] at hfind
      rw [InPlace.on_collectCapacityWithin_none ha hfit hd hfind, Draft.Collects.nil_iff hfit hd]
      by_cases hexact : d.change = none ∧ d.leftover (price d.transaction).toNat = 0
      · rw [if_pos hexact]
        constructor
        · rintro ⟨_, _, heq⟩
          exact ⟨hexact, (congrArg (fun x => x.2.1) heq).symm⟩
        · rintro ⟨-, rfl⟩
          exact ⟨_, _, rfl⟩
      · rw [if_neg hexact]
        exact iff_of_false nofun fun hd => hexact hd.1
    | cons c payable =>
      obtain ⟨cells', hsupply, hshorter, hpayable⟩ := hlater c payable hpick
      rw [hpick] at hfind
      rw [Draft.Collects.cons_iff hfit hd]
      rcases Collected.exists_add_or hgot c with ⟨got', hadd, hgot'⟩ | ⟨⟨f, hadd⟩, hnext⟩
      · rw [InPlace.on_collectCapacityWithin_next ha hfit hd hfind hadd, ← hpayable]
        exact ih hsupply (by omega) (by omega) hgot'
      · rw [InPlace.on_collectCapacityWithin_unadded ha hfit hd hfind hadd]
        exact iff_of_false nofun fun hd => hnext hd.fit

end CellTx
