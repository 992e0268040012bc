import CellTx.Proofs.Standing
import CellTx.Proofs.Supply

/-!
# Where a collection of capacity stops

A collection of capacity spends the cells that can be picked one after the other and stops at the
first draft that is sufficient, although later ones need not be: each cell raises both what the
inputs are worth and the fee. When the cells run out it ends well only if the last draft owes
nothing and has no change output (specification, section 4.2).

Results:
* `CapacityPass.next`: a round that spends a cell goes on as the rest does.
* `InPlace.collectCapacityWithin_first`: by induction on the cells that are left, where the rounds
  end, and with which draft (`CapacityPass`).
* `Assembler.collectCapacity_first_sufficient`: the same of a collection in place and of one that
  returns a draft.

All that is asked for is that the streams deliver their cells, that the fee of a draft can be told,
and that the sums of the drafts on the way fit.

Out of scope: drafts whose sums do not fit 64 bits, see `CellTx.Proofs.Sufficing`.
-/

namespace CellTx

variable {σ : Type}

open CellStream Edit

namespace Draft

/-- The draft after the first `k` of some cells are spent. -/
def spending (d : Draft) (cells : List LiveCell) (k : Nat) : Draft :=
  (cells.take k).foldl Draft.consume d

theorem worth_consume (d : Draft) (c : LiveCell) :
    (d.consume c).worth = d.worth + c.cell.capacity.toNat := by
  rw [worth, worth, consume, addInput, inputs_addInputWorth, List.map_append,
    Capacity.total_append]
  rfl

/-- Whether a draft needs no more inputs when transactions have a price. -/
def Covered (price : Transaction → Capacity) (d : Draft) : Prop :=
  d.Sufficient (price d.transaction).toNat

instance (price : Transaction → Capacity) (d : Draft) : Decidable (d.Covered price) :=
  inferInstanceAs (Decidable (d.Sufficient _))

end Draft

/-! ## The pass -/

/-- What a pass over plain cells comes to. It begins with a draft and what is collected `before`,
and meets `cells` that can be spent; of these it takes `taken`. -/
structure CapacityPass (price : Transaction → Capacity) (d : Draft) (before : Collected)
    (cells : List LiveCell) (taken : Nat) (r : Except Failure Collected) : Prop where
  le : taken ≤ cells.length
  /-- No draft on the way was sufficient. -/
  first : ∀ j < taken, ¬ (d.spending cells j).Covered price
  enough : (d.spending cells taken).Covered price →
    ∃ got, r = .ok got ∧ before.Extends (cells.take taken) got
  /-- The cells ran out. -/
  exhausted : ¬ (d.spending cells taken).Covered price → taken = cells.length
  /-- Nothing is owed, and there is no change output that nothing is left over for. -/
  exact : ¬ (d.spending cells taken).Covered price → (d.spending cells taken).change = none →
    (d.spending cells taken).leftover (price (d.spending cells taken).transaction).toNat = 0 →
    ∃ got, r = .ok got ∧ before.Extends cells got
  short : ¬ (d.spending cells taken).Covered price →
    ¬ ((d.spending cells taken).change = none ∧
      (d.spending cells taken).leftover (price (d.spending cells taken).transaction).toNat = 0) →
    r = .error (.insufficientCapacity
      ((d.spending cells taken).committed + (price (d.spending cells taken).transaction).toNat)
      (d.spending cells taken).worth)

/-- A pass stops at the first draft that is sufficient. -/
theorem CapacityPass.taken_eq {price : Transaction → Capacity} {d : Draft} {before : Collected}
    {cells : List LiveCell} {taken k : Nat} {r : Except Failure Collected}
    (h : CapacityPass price d before cells taken r) (hk : k ≤ cells.length)
    (hcovered : (d.spending cells k).Covered price)
    (hbefore : ∀ j < k, ¬ (d.spending cells j).Covered price) : taken = k := by
  rcases Nat.lt_trichotomy taken k with hlt | heq | hgt
  · have := h.exhausted (hbefore taken hlt)
    omega
  · exact heq
  · exact absurd hcovered (h.first k hgt)

theorem CapacityPass.next {price : Transaction → Capacity} {d : Draft} {before got : Collected}
    {c : LiveCell} {cells : List LiveCell} {taken : Nat} {r : Except Failure Collected}
    (hd : ¬ d.Covered price) (hcells : got.cells = before.cells ++ [c])
    (hcapacity : got.capacity.toNat = before.capacity.toNat + c.cell.capacity.toNat)
    (h : CapacityPass price (d.consume c) got cells taken r) :
    CapacityPass price d before (c :: cells) (taken + 1) r where
  le := Nat.succ_le_succ h.le
  first := fun j hj => by
    cases j with
    | zero => exact hd
    | succ j => exact h.first j (Nat.lt_of_succ_lt_succ hj)
  enough := fun hcovered => by
    obtain ⟨got', hr, hextends⟩ := h.enough hcovered
    exact ⟨got', hr, hextends.cons hcells hcapacity⟩
  exhausted := fun hcovered => congrArg (· + 1) (h.exhausted hcovered)
  exact := fun hcovered hchange hleft => by
    obtain ⟨got', hr, hextends⟩ := h.exact hcovered hchange hleft
    exact ⟨got', hr, hextends.cons hcells hcapacity⟩
  short := fun hcovered hnot => h.short hcovered hnot

namespace InPlace

variable {a : Assembler σ} {price : Transaction → Capacity}

section Rounds

variable {bound fuel : Nat} {got got' : Collected} {d : Draft} {streams rest : List CellStream}
  {s s' : σ} {c : LiveCell}

theorem on_look_measure (ha : a.Prices price) (hfit : d.SumsFit) (s : σ) :
    (look (a.measure d)).on d s = (.ok (d.balance (price d.transaction).toNat), d, s) := by
  rw [on_look, Assembler.run_measure ha hfit]

theorem on_collectCapacityWithin_covered (ha : a.Prices price) (hfit : d.SumsFit)
    (h : d.Covered price) :
    (collectCapacityWithin a bound (fuel + 1) got streams).on d s = (.ok got, d, s) := by
  rw [collectCapacityWithin, on_bind_ok _ (on_draft d s), on_bind_ok _ (on_look_measure ha hfit s),
    if_pos ((d.isSufficient_balance _).mpr h)]
  rfl

theorem on_collectCapacityWithin_none (ha : a.Prices price) (hfit : d.SumsFit)
    (h : ¬ d.Covered price)
    (hfind : (CellStream.find a.ledger (d.takes Cell.isPlain) bound streams).run.run s =
      (.ok (none, rest), s')) :
    (collectCapacityWithin a bound (fuel + 1) got streams).on d s =
      (if d.change = none ∧ d.leftover (price d.transaction).toNat = 0 then .ok got
        else .error (.insufficientCapacity (d.committed + (price d.transaction).toNat) d.worth),
        d, s') := by
  rw [collectCapacityWithin, on_bind_ok _ (on_draft d s), on_bind_ok _ (on_look_measure ha hfit s),
    if_neg (mt (d.isSufficient_balance _).mp h)]
  refine (on_bind_ok _ (on_look_find hfind)).trans ?_
  dsimp only
  by_cases hexact : (d.balance (price d.transaction).toNat).isExact = true
  · rw [if_pos hexact, if_pos ((d.isExact_balance _).mp hexact)]
    rfl
  · rw [if_neg hexact, if_neg (mt (d.isExact_balance _).mpr hexact)]
    rfl

theorem on_collectCapacityWithin_next (ha : a.Prices price) (hfit : d.SumsFit)
    (h : ¬ d.Covered price)
    (hfind : (CellStream.find a.ledger (d.takes Cell.isPlain) bound streams).run.run s =
      (.ok (some c, rest), s')) (hadd : got.add c = .ok got') :
    (collectCapacityWithin a bound (fuel + 1) got streams).on d s =
      (collectCapacityWithin a bound fuel got' rest).on (d.consume c) s' := by
  rw [collectCapacityWithin, on_bind_ok _ (on_draft d s), on_bind_ok _ (on_look_measure ha hfit s),
    if_neg (mt (d.isSufficient_balance _).mp h)]
  refine (on_bind_ok _ (on_look_find hfind)).trans ?_
  dsimp only
  rw [hadd, on_bind_ok _ (on_look_ofExcept _ d s'), on_bind_ok _ (on_replace (d.consume c) d s')]

end Rounds

theorem collectCapacityWithin_first (ha : a.Prices price) {bound fuel : Nat} {got : Collected}
    {d : Draft} {streams : List CellStream} {s : σ} {cells : List LiveCell}
    (h : Supplies a.ledger streams s cells) (hb : cells.length < bound) (hf : cells.length < fuel)
    (hgot : got.capacity.toNat ≤ d.worth)
    (hfit : ∀ k ≤ (d.pick Cell.isPlain cells).length,
      (∀ j < k, ¬ (d.spending (d.pick Cell.isPlain cells) j).Covered price) →
      (d.spending (d.pick Cell.isPlain cells) k).SumsFit) :
    ∃ taken r s', (collectCapacityWithin a bound fuel got streams).on d s =
        (r, d.spending (d.pick Cell.isPlain cells) taken, s') ∧
      CapacityPass price d got (d.pick Cell.isPlain cells) taken r := by
  induction fuel generalizing got d streams s cells with
  | zero => exact absurd hf (Nat.not_lt_zero _)
  | succ fuel ih =>
    have hhere : d.SumsFit := hfit 0 (Nat.zero_le _) nofun
    by_cases hcovered : d.Covered price
    · exact ⟨0, _, s, on_collectCapacityWithin_covered ha hhere hcovered,
        Nat.zero_le _, nofun, fun _ => ⟨got, rfl, Collected.Extends.refl got⟩,
        (absurd hcovered ·), (absurd hcovered ·), (absurd hcovered ·)⟩
    obtain ⟨rest, s₁, hfind, hlater⟩ := h.find_pick Cell.isPlain d hb
    cases hpick : d.pick Cell.isPlain cells with
    | nil =>
      rw [hpick] at hfind
      refine ⟨0, _, s₁, on_collectCapacityWithin_none ha hhere hcovered hfind, Nat.zero_le _,
        nofun, (absurd · hcovered), fun _ => rfl, fun _ hchange hleft => ?_,
        fun _ hnot => if_neg hnot⟩
      exact ⟨got, if_pos ⟨hchange, hleft⟩, Collected.Extends.refl got⟩
    | cons c payable =>
      obtain ⟨cells', hsupply, hshorter, hpayable⟩ := hlater c payable hpick
      rw [hpick] at hfit hfind
      have hnext : (d.consume c).SumsFit := hfit 1 (by simp) fun j hj => by
        rw [Nat.lt_one_iff.mp hj]
        exact hcovered
      have hworth := hnext.inputs
      rw [Draft.worth_consume] at hworth
      obtain ⟨got', hadd, hcells, hcapacity⟩ := got.exists_add c (by omega)
      have hgot' : got'.capacity.toNat ≤ (d.consume c).worth := by
        rw [Draft.worth_consume]
        omega
      -- the rest of the pass is the one over what can still be picked
      obtain ⟨taken, r, s', hon, hpass⟩ := ih hsupply (by omega) (by omega) hgot'
        fun k hk hbefore => by
          rw [hpayable] at hk hbefore ⊢
          refine hfit (k + 1) (Nat.succ_le_succ hk) fun j hj => ?_
          cases j with
          | zero => exact hcovered
          | succ j => exact hbefore j (Nat.lt_of_succ_lt_succ hj)
      rw [hpayable] at hon hpass
      refine ⟨taken + 1, r, s', ?_, hpass.next hcovered hcells hcapacity⟩
      rw [on_collectCapacityWithin_next ha hhere hcovered hfind hadd]
      exact hon

end InPlace

/-- A collection of capacity stops at the first sufficient draft, when its streams deliver no more
cells than their span promises, as those of a chain do. The cells that it can spend are the plain
ones that the draft does not spend, each once and in order; it takes none when the draft is
sufficient, and the first of them up to the first draft that is. Without one it takes all, and ends
well only when nothing is owed and there is no change output. Whatever else happens, a ledger or an
estimator that fails included, it does nothing to a draft but spend cells. -/
theorem Assembler.collectCapacity_first_sufficient {a : Assembler σ}
    {price : Transaction → Capacity} (ha : a.Prices price) {d : Draft}
    {streams : List CellStream} {s : σ} {cells : List LiveCell}
    (hsupply : Supplies a.ledger streams s cells)
    (hspan : cells.length ≤ streams.length * a.ledger.span)
    (hfit : ∀ k ≤ (d.pick Cell.isPlain cells).length,
      (∀ j < k, ¬ (d.spending (d.pick Cell.isPlain cells) j).Covered price) →
      (d.spending (d.pick Cell.isPlain cells) k).SumsFit) :
    (InPlace.collectCapacity a streams).returned d = a.collectCapacity d streams ∧
    (d.Covered price → (InPlace.collectCapacity a streams).on d s = (.ok {}, d, s)) ∧
    (∃ taken r s', (InPlace.collectCapacity a streams).on d s =
        (r, d.spending (d.pick Cell.isPlain cells) taken, s') ∧
      CapacityPass price d {} (d.pick Cell.isPlain cells) taken r ∧
      ∀ k ≤ (d.pick Cell.isPlain cells).length,
        (d.spending (d.pick Cell.isPlain cells) k).Covered price →
        (∀ j < k, ¬ (d.spending (d.pick Cell.isPlain cells) j).Covered price) → taken = k) ∧
    ∀ (b : Assembler σ) (d : Draft) (streams : List CellStream) (s : σ),
      let d' := ((InPlace.collectCapacity b streams).on d s).2.1
      d.SpendsOn d' ∧ d'.version = d.version ∧ d'.headerDeps = d.headerDeps ∧
        d'.cellDeps = d.cellDeps ∧ d'.outputs = d.outputs ∧ d'.change = d.change ∧
        d.inputs <+: d'.inputs := by
  refine ⟨InPlace.returned_collectCapacity a d streams, fun hcovered => ?_, ?_,
    fun b d streams s => ?_⟩
  · exact InPlace.on_collectCapacityWithin_covered ha (hfit 0 (Nat.zero_le _) nofun) hcovered
  · have hbound : cells.length < bound a.ledger streams := Nat.lt_succ_of_le hspan
    have hgot : ({} : Collected).capacity.toNat ≤ d.worth := Nat.zero_le _
    obtain ⟨taken, r, s', hon, hpass⟩ :=
      InPlace.collectCapacityWithin_first ha hsupply hbound hbound hgot hfit
    exact ⟨taken, r, s', hon, hpass, fun k hk => hpass.taken_eq hk⟩
  · have hspends := InPlace.leaves_collectCapacity b d streams s
    exact ⟨hspends, hspends.kept⟩

/-- A chain where a lock has three plain cells. -/
def Chain.withThreeCells : Chain :=
  (Chain.new.fund [Cell.plain (.ofByte 1) 13000000000, Cell.plain (.ofByte 1) 6000000000,
    Cell.plain (.ofByte 1) 50000000000]).2

/-- A draft that owes a hundred CKB and has a change output. -/
def Draft.owing : Draft :=
  (Draft.empty.addOutput (Cell.plain (.ofByte 2) 10000000000)).addChange
    (Cell.plain (.ofByte 1) 0)

/-- The first cell covers what is owed, but what it leaves over cannot fund the change; the second
one does, so the third is left alone. -/
theorem Assembler.collectCapacity_first_sufficient_threeCells :
    ∃ (a : Assembler Nat) (streams : List CellStream) (cells : List LiveCell) (got : Collected)
      (s' : Nat), Supplies a.ledger streams 0 cells ∧ cells.length = 3 ∧
      (InPlace.collectCapacity a streams).on Draft.owing 0 =
        (.ok got, Draft.owing.spending (Draft.owing.pick Cell.isPlain cells) 2, s') ∧
      Collected.Extends {} ((Draft.owing.pick Cell.isPlain cells).take 2) got := by
  let a := Assembler.onChain .withThreeCells
  have hsupply := supplies_rests (c := .withThreeCells)
    (paged_stream (a := a) (by decide) [SearchKey.plainByLock (.ofByte 1)]) 0
  have hprices := prices_bySize (a := a) rfl
  obtain ⟨payable, hpayable⟩ : ∃ payable, payable = Draft.owing.pick Cell.isPlain
    (rests .withThreeCells ([SearchKey.plainByLock (.ofByte 1)].map a.stream)) := ⟨_, rfl⟩
  have hlength : payable.length = 3 := by
    rw [hpayable]
    decide +kernel
  have hfits : ∀ k ≤ 3, (Draft.owing.spending payable k).SumsFit := by
    rw [hpayable]
    decide +kernel
  have hstop : (Draft.owing.spending payable 2).Covered
      fun t => Fee.ofSize t.size a.feeRate := by
    rw [hpayable]
    decide +kernel
  have hbefore : ∀ j < 2, ¬ (Draft.owing.spending payable j).Covered
      fun t => Fee.ofSize t.size a.feeRate := by
    rw [hpayable]
    decide +kernel
  obtain ⟨-, -, ⟨taken, r, s', hon, hpass, hfirst⟩, -⟩ :=
    collectCapacity_first_sufficient hprices (d := Draft.owing) hsupply (by decide +kernel)
      fun k hk _ => hpayable ▸ hfits k (hlength ▸ hpayable ▸ hk)
  rw [← hpayable] at hon hpass hfirst
  obtain rfl := hfirst 2 (by rw [hlength]; decide) hstop hbefore
  obtain ⟨got, rfl, hgot⟩ := hpass.enough hstop
  exact ⟨a, _, _, got, s', hsupply, by decide +kernel, hpayable ▸ hon, hpayable ▸ hgot⟩

end CellTx
