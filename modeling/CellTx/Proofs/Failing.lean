import CellTx.Cheque.Claim
import CellTx.Cheque.Withdraw
import CellTx.Proofs.Draft
import CellTx.Proofs.Ending
import CellTx.Proofs.Heeding

/-!
# How a construction can fail

The failures that some state of the world leads to (`FailsOnly`). Once a flow has found what it
starts from, what is left to fail are sums, questions, the search for cells that pay
(`Assembler.BalancesOnly`) and the shortfall of a draft that these did not cover
(`Construction.ShortOnly`).

Results:
* `FailsOnly.bind`: a sequence fails only as its steps do.
* `Draft.of_removeOutput_eq_error` and its companions: the operations on a draft fail where an
  output is not there or a sum does not fit.
* `failsOnly_settleChange`, `failsOnly_collectCapacityWithin`: so do the two halves of balancing.
* `Flow.failsOnly_assemble`: a flow fails as its phases do, or because its fee does not fit.
* `failsOnly_withdrawCheque`, `failsOnly_claimCheques`: a later phase never fails as the first one
  does when it finds nothing (`Failure.OfBalancing`).

Out of scope: that a failure is reached. `CellTx.Proofs.Shortages` says when what it tells is true.
-/

namespace CellTx

open CellStream (Affords)

variable {ε σ α β : Type} {p : ε → Prop}

/-- Whatever failure some state of the world leads to satisfies `p`. -/
def FailsOnly (p : ε → Prop) (m : ExceptT ε (StateM σ) α) : Prop :=
  ∀ e, Reaches m.run (.error e) → p e

/-! ## Sequences -/

theorem FailsOnly.pure (x : α) : FailsOnly p (pure x : ExceptT ε (StateM σ) α) :=
  fun _ h => nomatch Reaches.of_pure h

theorem FailsOnly.throw {e : ε} (h : p e) : FailsOnly p (throw e : ExceptT ε (StateM σ) α) :=
  fun _ he => Except.error.inj (Reaches.of_pure he) ▸ h

theorem FailsOnly.bind {m : ExceptT ε (StateM σ) α} {f : α → ExceptT ε (StateM σ) β}
    (hm : FailsOnly p m) (hf : ∀ x, Yields m x → FailsOnly p (f x)) : FailsOnly p (m >>= f) := by
  intro e he
  rw [ExceptT.run_bind] at he
  obtain ⟨r, hr, he⟩ := Reaches.bind he
  cases r with
  | ok x => exact hf x hr e he
  | error e' =>
    obtain rfl := Except.error.inj (Reaches.of_pure he)
    exact hm _ hr

theorem FailsOnly.mono {q : ε → Prop} {m : ExceptT ε (StateM σ) α} (h : FailsOnly p m)
    (hpq : ∀ e, p e → q e) : FailsOnly q m := fun e he => hpq e (h e he)

/-- What ends well does not fail. -/
theorem Ends.failsOnly {m : ExceptT ε (StateM σ) α} {x : α} (h : Ends m (.ok x)) :
    FailsOnly p m := fun _ he => nomatch Always.eq h he

/-- What never ends well and fails in one way only always fails so. -/
theorem FailsOnly.ends {m : ExceptT ε (StateM σ) α} {e : ε} (h : FailsOnly (· = e) m)
    (hno : ∀ x, ¬ Yields m x) : Ends m (.error e) := by
  intro s
  rcases hrun : m.run.run s with ⟨x | x, s'⟩
  · obtain rfl := h x ⟨s, s', hrun⟩
    exact ⟨s', rfl⟩
  · exact absurd ⟨s, s', hrun⟩ (hno x)

variable {q : Failure → Prop}

theorem FailsOnly.ask {p : QueryError → Prop} {m : Query σ α} (hm : FailsOnly p m)
    (h : ∀ e, p e → q (.query e)) : FailsOnly q (Build.ask m) := by
  intro f hf
  rw [Build.ask, ExceptT.run_adapt] at hf
  obtain ⟨r, hr, hf⟩ := hf.of_map
  cases r with
  | ok x => cases hf
  | error e => exact Except.error.inj hf ▸ h e (hm e hr)

theorem failsOnly_ask (h : ∀ e, q (.query e)) (m : Query σ α) : FailsOnly q (Build.ask m) :=
  FailsOnly.ask (p := fun _ => True) (fun _ _ => trivial) fun e _ => h e

theorem failsOnly_ofExcept {r : Except Failure α} (h : ∀ f, r = .error f → q f) :
    FailsOnly q (Build.ofExcept r : Build σ α) :=
  fun f hf => h f (Always.eq (ends_ofExcept r) hf)

theorem failsOnly_decoded (h : ∀ e, q (.encoding e)) (r : Except EncodingError α) :
    FailsOnly q (Build.decoded r : Build σ α) := by
  cases r with
  | ok x => exact FailsOnly.pure x
  | error e => exact FailsOnly.throw (h e)

theorem failsOnly_demand {f : Failure} (h : q f) (o : Option α) :
    FailsOnly q (Build.demand f o : Build σ α) := by
  cases o with
  | some x => exact FailsOnly.pure x
  | none => exact FailsOnly.throw h

/-- A result fails only as the first of its steps that does. -/
theorem of_except_bind_eq_error {r : Except Failure α} {f : α → Except Failure β} {e : Failure}
    (h : (r >>= f) = .error e) (hr : ∀ e, r = .error e → q e)
    (hf : ∀ x e, f x = .error e → q e) : q e := by
  rcases except_bind_eq_error h with h | ⟨x, -, h⟩
  · exact hr e h
  · exact hf x e h

/-! ## Drafts

An operation on an output fails because the output is not there, which is up to the caller, or
because a sum does not fit. -/

namespace Draft

variable {d : Draft} {i : Nat} {f : Failure}

theorem of_exactly_eq_error {o : Option Capacity} (hover : q .capacityOverflow)
    (h : exactly o = .error f) : q f := by
  cases o with
  | some c => exact nomatch h
  | none => exact Except.error.inj h ▸ hover

theorem of_committedCapacity_eq_error (hover : q .capacityOverflow)
    (h : d.committedCapacity = .error f) : q f :=
  of_except_bind_eq_error h (fun _ he => of_exactly_eq_error hover he)
    fun _ _ he => of_exactly_eq_error hover he

theorem of_fee_eq_error (hover : q .capacityOverflow) (h : d.fee = .error f) : q f :=
  of_except_bind_eq_error h (fun _ he => of_exactly_eq_error hover he) fun _ _ he =>
    of_except_bind_eq_error he (fun _ he => of_exactly_eq_error hover he)
      fun _ _ he => of_exactly_eq_error hover he

theorem of_output_eq_error (hi : i < d.outputs.length) (h : d.output i = .error f) : q f := by
  rw [output, List.getElem?_eq_getElem hi] at h
  exact nomatch h

theorem of_occupied_eq_error (hi : i < d.outputs.length) (hover : q .capacityOverflow)
    (h : d.occupied i = .error f) : q f := by
  refine of_except_bind_eq_error h (fun _ he => of_output_eq_error hi he) fun c e he => ?_
  split at he
  · exact nomatch he
  · exact Except.error.inj he ▸ hover

theorem of_setCapacity_eq_error (hi : i < d.outputs.length) {capacity : Capacity}
    (h : d.setCapacity i capacity = .error f) : q f :=
  of_except_bind_eq_error h (fun _ he => of_output_eq_error hi he) fun _ _ he => nomatch he

theorem of_setData_eq_error (hi : i < d.outputs.length) {data : Bytes}
    (h : d.setData i data = .error f) : q f :=
  of_except_bind_eq_error h (fun _ he => of_output_eq_error hi he) fun _ _ he => nomatch he

theorem of_removeOutput_eq_error (hi : i < d.outputs.length) (h : d.removeOutput i = .error f) :
    q f := by
  rw [removeOutput, dif_pos hi] at h
  exact nomatch h

/-- The tokens left over go to an output that is there. -/
theorem of_settleTokenChange_eq_error (hi : i < d.outputs.length) {collected required : TokenAmount}
    (hshort : collected < required → q (.insufficientTokens required collected))
    (h : d.settleTokenChange i collected required = .error f) : q f := by
  unfold settleTokenChange at h
  split at h
  · exact Except.error.inj h ▸ hshort ‹_›
  · split at h
    · exact of_removeOutput_eq_error hi h
    · exact of_setData_eq_error hi h

end Draft

/-- Raising an output that was just added does not miss it. -/
theorem Assembler.of_addRaised_eq_error {cell : Cell} {d : Draft} {f : Failure}
    (hover : q .capacityOverflow) (h : addRaised cell d = .error f) : q f := by
  have hi := d.length_lt_addOutput cell
  refine of_except_bind_eq_error h (fun _ he => ?_) fun _ _ he => nomatch he
  refine of_except_bind_eq_error he (fun _ he => Draft.of_output_eq_error hi he) fun c _ he => ?_
  refine of_except_bind_eq_error he (fun _ he => Draft.of_occupied_eq_error hi hover he)
    fun o _ he => ?_
  split at he <;> exact nomatch he

/-! ## Balancing -/

theorem Collected.of_add_eq_error {got : Collected} {c : LiveCell} {f : Failure}
    (hover : q .capacityOverflow) (h : got.add c = .error f) : q f := by
  unfold Collected.add at h
  split at h
  · exact nomatch h
  · exact Except.error.inj h ▸ hover

/-- A pull fails only as the questions for pages do. -/
theorem CellStream.failsOnly_pull {p : QueryError → Prop} {l : Ledger σ}
    (hcells : ∀ key order limit after, FailsOnly p (l.cells key order limit after))
    (streams : List CellStream) : FailsOnly p (pull l streams) := by
  induction streams with
  | nil => exact FailsOnly.pure _
  | cons s rest ih =>
    rw [pull_cons]
    cases s.buffer with
    | cons c cells => exact FailsOnly.pure _
    | nil =>
      simp only
      split
      · exact ih
      · refine FailsOnly.bind (FailsOnly.bind (hcells _ _ _ _) fun page _ => ?_) fun t _ => ?_
        · split
          · exact FailsOnly.pure _
          · exact FailsOnly.pure _
        · cases t.buffer with
          | cons c cells => exact FailsOnly.pure _
          | nil => exact ih

theorem CellStream.failsOnly_find {l : Ledger σ} {accept : LiveCell → Bool} {fuel : Nat}
    {streams : List CellStream} (hpull : ∀ streams, FailsOnly q (Build.ask (pull l streams)))
    (h : Affords (q (.defect .endlessSearch)) l fuel streams) :
    FailsOnly q (find l accept fuel streams) := by
  induction fuel generalizing streams with
  | zero => exact FailsOnly.throw h.of_zero
  | succ fuel ih =>
    rw [find]
    refine (hpull streams).bind fun e he => ?_
    obtain ⟨_ | c, streams'⟩ := e
    · exact FailsOnly.pure _
    · simp only
      split
      · exact FailsOnly.pure _
      · exact ih (h.pull (yields_ask.mp he))

theorem CellStream.failsOnly_drain {l : Ledger σ} {fuel : Nat} {streams : List CellStream}
    (hpull : ∀ streams, FailsOnly q (Build.ask (pull l streams)))
    (h : Affords (q (.defect .endlessSearch)) l fuel streams) :
    FailsOnly q (drain l fuel streams) := by
  induction fuel generalizing streams with
  | zero => exact FailsOnly.throw h.of_zero
  | succ fuel ih =>
    rw [drain]
    refine (hpull streams).bind fun e he => ?_
    obtain ⟨_ | c, streams'⟩ := e
    · exact FailsOnly.pure _
    · exact (ih (h.pull (yields_ask.mp he))).bind fun _ _ => FailsOnly.pure _

namespace Assembler

variable {a : Assembler σ}

theorem failsOnly_measure {d : Draft} (hestimate : FailsOnly q (a.estimate d))
    (hover : q .capacityOverflow) : FailsOnly q (a.measure d) := by
  refine hestimate.bind fun fee _ => ?_
  refine (failsOnly_ofExcept fun _ he =>
    Draft.of_committedCapacity_eq_error hover he).bind fun _ _ => ?_
  have hinputs : FailsOnly q (Build.ofExcept d.inputsCapacity : Build σ Capacity) :=
    failsOnly_ofExcept fun _ he => Draft.of_exactly_eq_error hover he
  split
  · exact (FailsOnly.pure none).bind fun _ _ => hinputs.bind fun _ _ => FailsOnly.pure _
  · refine (failsOnly_demand hover _).bind fun _ _ => ?_
    exact (FailsOnly.pure _).bind fun _ _ => hinputs.bind fun _ _ => FailsOnly.pure _

/-- The change is settled in an output that is there. -/
theorem failsOnly_settleChange {d : Draft} (hmeasure : FailsOnly q (a.measure d))
    (hshort : ∀ b, Yields (a.measure d) b → b.leftover? = none → q b.shortfall)
    (hover : q .capacityOverflow) : FailsOnly q (a.settleChange d) := by
  unfold settleChange
  split
  · exact FailsOnly.pure _
  · rename_i i hi
    have hlt := d.change_lt i hi
    refine hmeasure.bind fun b hb => ?_
    refine FailsOnly.bind ?_ fun left _ => ?_
    · cases hleft : b.leftover? with
      | none => exact FailsOnly.throw (hshort b hb hleft)
      | some left => exact FailsOnly.pure _
    refine (failsOnly_demand hover _).bind fun _ _ => ?_
    refine (failsOnly_ofExcept fun _ he => Draft.of_occupied_eq_error hlt hover he).bind
      fun _ _ => ?_
    split
    · exact failsOnly_ofExcept fun _ he => Draft.of_setCapacity_eq_error hlt he
    · exact failsOnly_ofExcept fun _ he => Draft.of_removeOutput_eq_error hlt he

/-- A collection of capacity fails as measures and searches do, or in the shortfall of a draft that
it came to, of which is known what stays so while cells are spent. -/
theorem failsOnly_collectCapacityWithin {P : Draft → Prop} {bound fuel : Nat} {got : Collected}
    {d : Draft} {streams : List CellStream} (hmeasure : ∀ d, FailsOnly q (a.measure d))
    (hpull : ∀ streams, FailsOnly q (Build.ask (CellStream.pull a.ledger streams)))
    (hover : q .capacityOverflow) (hconsume : ∀ d c, P d → P (d.consume c))
    (hshort : ∀ d b, P d → Yields (a.measure d) b → b.isSufficient = false → b.isExact = false →
      q b.shortfall)
    (hbound : Affords (q (.defect .endlessSearch)) a.ledger bound streams)
    (hfuel : Affords (q (.defect .endlessSearch)) a.ledger fuel streams) (hd : P d) :
    FailsOnly q (a.collectCapacityWithin bound fuel got d streams) := by
  induction fuel generalizing got d streams with
  | zero => exact FailsOnly.throw hfuel.of_zero
  | succ fuel ih =>
    rw [collectCapacityWithin]
    refine (hmeasure d).bind fun b hb => ?_
    split
    · exact FailsOnly.pure _
    rename_i hsufficient
    refine (CellStream.failsOnly_find hpull hbound).bind fun e he => ?_
    obtain ⟨_ | c, streams'⟩ := e
    · simp only
      split
      · exact FailsOnly.pure _
      · rename_i hexact
        exact FailsOnly.throw
          (hshort d b hd hb (eq_false_of_ne_true hsufficient)
            (eq_false_of_ne_true hexact))
    · refine (failsOnly_ofExcept fun _ he => Collected.of_add_eq_error hover he).bind fun _ _ => ?_
      exact ih (hbound.after_find he) (hfuel.find he) (hconsume d c hd)

/-- What can fail while a draft is balanced, a shortfall apart: a question, a sum, or the search for
cells that pay. -/
structure BalancesOnly (q : Failure → Prop) (a : Assembler σ) : Prop where
  estimate d : FailsOnly q (a.estimate d)
  pull streams : FailsOnly q (Build.ask (CellStream.pull a.ledger streams))
  search (keys : List SearchKey) : Affords (q (.defect .endlessSearch)) a.ledger
    (CellStream.bound a.ledger (keys.map a.stream)) (keys.map a.stream)
  overflow : q .capacityOverflow

end Assembler

/-- A construction may fail in the shortfall of any draft of what it starts from. -/
def Construction.ShortOnly (q : Failure → Prop) (a : Assembler σ) (k : Construction) : Prop :=
  ∀ o d b, Opens a k o → d.Offers o.promised o.change → Yields (a.measure d) b →
    b.isSufficient = false → b.isExact = false → q b.shortfall

/-- Not even what is required is covered. -/
theorem Balance.not_covered_of_leftover {b : Balance} (h : b.leftover? = none) :
    b.isSufficient = false ∧ b.isExact = false := by
  unfold isSufficient isExact
  rw [h]
  exact ⟨rfl, Bool.and_false _⟩

namespace Assembler.BalancesOnly

variable {a : Assembler σ} {d : Draft} {k : Construction} {payers : List Script}

theorem measure (h : a.BalancesOnly q) (d : Draft) : FailsOnly q (a.measure d) :=
  failsOnly_measure (h.estimate d) h.overflow

/-- The last phases of a construction fail as balancing does, or in a shortfall. -/
theorem fund (h : a.BalancesOnly q) (hshort : k.ShortOnly q a) (hd : Begun a k payers d)
    {streams : List CellStream}
    (hstreams : streams = (payers.map SearchKey.plainByLock).map a.stream) :
    FailsOnly q (do return (← a.collectCapacity d streams).2) ∧
      ∀ d', Yields (do return (← a.collectCapacity d streams).2) d' →
        FailsOnly q (a.settleChange d') := by
  subst hstreams
  obtain ⟨o, hopens, -, -, hoffers⟩ := hd
  refine ⟨?_, fun d' hd' => ?_⟩
  · have hcollect : FailsOnly q
        (a.collectCapacity d ((payers.map SearchKey.plainByLock).map a.stream)) :=
      failsOnly_collectCapacityWithin h.measure h.pull h.overflow (fun _ c hd => hd.consume c)
        (fun d b hd => hshort o d b hopens hd) (h.search _) (h.search _) hoffers
    exact hcollect.bind fun _ _ => FailsOnly.pure _
  · obtain ⟨⟨got, d''⟩, hcollected, hd'⟩ := hd'.bind
    obtain rfl := hd'.of_pure
    obtain ⟨cells, hpass, -⟩ := collectCapacity_spec hcollected
    refine failsOnly_settleChange (h.measure _) (fun b hb hleft => ?_) h.overflow
    obtain ⟨hsufficient, hexact⟩ := Balance.not_covered_of_leftover hleft
    exact hshort o d' b hopens (hpass.offers hoffers) hb hsufficient hexact

end Assembler.BalancesOnly

/-! ## Failures of balancing -/

/-- The failures of sums and questions, and of the search for cells that pay. -/
def Failure.OfBalancing (f : Failure) : Prop :=
  f.kind ∈ [Kind.insufficientCapacity, .remoteQueryFailure, .capacityOverflow, .defect]

theorem Failure.ofBalancing_query (e : QueryError) : (query e).OfBalancing := by
  cases e <;> simp [OfBalancing, kind]

/-- Nothing else fails while a draft is balanced, whatever the world answers. -/
theorem Assembler.balancesOnly (hq : ∀ f : Failure, f.OfBalancing → q f) (a : Assembler σ) :
    a.BalancesOnly q where
  estimate _ := failsOnly_ask (fun e => hq _ (Failure.ofBalancing_query e)) _
  pull _ := failsOnly_ask (fun e => hq _ (Failure.ofBalancing_query e)) _
  search _ := Or.inl (hq _ (by simp [Failure.OfBalancing, Failure.kind]))
  overflow := hq _ (by simp [Failure.OfBalancing, Failure.kind])

theorem Construction.shortOnly (hq : ∀ f : Failure, f.OfBalancing → q f) (a : Assembler σ)
    (k : Construction) : k.ShortOnly q a :=
  fun _ _ _ _ _ _ _ _ => hq _ (by simp [Failure.OfBalancing, Failure.kind, Balance.shortfall])

/-! ## Flows -/

/-- Before any output is added, a flow does not fail, and nothing is in the draft yet. -/
def Flow.Prepares {Plan : Type} (flow : Flow σ Plan) : Prop :=
  ∀ plan, ∃ d₁ d₂ d₃, Ends (flow.setVersion plan Draft.empty) (.ok d₁) ∧
    Ends (flow.setHeaderDeps plan d₁) (.ok d₂) ∧ Ends (flow.setCellDeps plan d₂) (.ok d₃) ∧
    d₃.Blank

/-- A flow fails as its phases do on what the phases before them made, or because its fee does not
fit. -/
theorem Flow.failsOnly_assemble {Plan : Type} {flow : Flow σ Plan} (hprepares : flow.Prepares)
    (hover : q .capacityOverflow) (hinit : FailsOnly q flow.init)
    (houtputs : ∀ plan d, d.Blank → FailsOnly q (flow.buildOutputs plan d))
    (hrest : ∀ plan d₀ d, Yields flow.init plan → d₀.Blank → Yields (flow.buildOutputs plan d₀) d →
      FailsOnly q (flow.buildInputs plan d) ∧
        ∀ d', Yields (flow.buildInputs plan d) d' → FailsOnly q (flow.settleChange plan d')) :
    FailsOnly q flow.assemble := by
  have hdraft : FailsOnly q flow.draft := by
    refine hinit.bind fun plan hplan => ?_
    obtain ⟨d₁, d₂, d₃, h₁, h₂, h₃, hblank⟩ := hprepares plan
    refine h₁.failsOnly.bind fun d hd => ?_
    obtain rfl := h₁.eq hd
    refine h₂.failsOnly.bind fun d hd => ?_
    obtain rfl := h₂.eq hd
    refine h₃.failsOnly.bind fun d hd => ?_
    obtain rfl := h₃.eq hd
    refine (houtputs plan _ hblank).bind fun d₄ h₄ => ?_
    obtain ⟨hinputs, hsettle⟩ := hrest plan _ d₄ hplan hblank h₄
    exact hinputs.bind fun d₅ h₅ => (hsettle d₅ h₅).bind fun _ _ => FailsOnly.pure _
  refine hdraft.bind fun e _ => FailsOnly.bind ?_ fun _ _ => FailsOnly.pure _
  exact failsOnly_ofExcept fun _ hf => Draft.of_fee_eq_error hover hf

namespace Assembler

variable {a : Assembler σ}

theorem BalancesOnly.withdrawCheque (h : a.BalancesOnly q) {r : ChequeRequest}
    (hshort : (Construction.withdrawCheque r).ShortOnly q a)
    (hfind : FailsOnly q (a.findCheque r)) : FailsOnly q (a.withdrawCheque r) := by
  refine Flow.failsOnly_assemble (fun c => ⟨_, _, _, Ends.pure _, Ends.pure _, Ends.pure _,
    (((Draft.Blank.empty.setVersion 0).addCellDep _).addCellDep _).addCellDep _⟩) h.overflow
    hfind (fun c d _ => ?_) fun c d d' hc hd hd' => ?_
  · exact failsOnly_ofExcept fun _ hf =>
      of_except_bind_eq_error hf (fun _ he => of_addRaised_eq_error h.overflow he)
        fun _ _ he => nomatch he
  · exact h.fund hshort (Construction.begun_withdrawCheque hd hc hd'.of_ofExcept) rfl

theorem BalancesOnly.claimCheques (h : a.BalancesOnly q) {receiver : Script} {owner : Hash}
    (hshort : (Construction.claimCheques receiver owner).ShortOnly q a)
    (hfind : FailsOnly q (a.findCheques receiver owner)) :
    FailsOnly q (a.claimCheques receiver owner) := by
  refine Flow.failsOnly_assemble (fun t => ⟨_, _, _, Ends.pure _, Ends.pure _, Ends.pure _,
    (((Draft.Blank.empty.setVersion 0).addCellDep _).addCellDep _).addCellDep _⟩) h.overflow
    hfind (fun t d _ => ?_) fun t d d' ht hd hd' => ?_
  · exact failsOnly_ofExcept fun _ hf =>
      of_except_bind_eq_error hf (fun _ he => of_addRaised_eq_error h.overflow he)
        fun _ _ he => nomatch he
  · exact h.fund hshort (Construction.begun_claimCheques hd ht hd'.of_ofExcept) rfl

/-- Taking back a cheque fails as the search for it does, or of balancing. -/
theorem failsOnly_withdrawCheque {r : ChequeRequest} (hq : ∀ f : Failure, f.OfBalancing → q f)
    (hfind : FailsOnly q (a.findCheque r)) : FailsOnly q (a.withdrawCheque r) :=
  (a.balancesOnly hq).withdrawCheque (Construction.shortOnly hq a _) hfind

/-- A claim of cheques fails as the search for them does, or of balancing. -/
theorem failsOnly_claimCheques {receiver : Script} {owner : Hash}
    (hq : ∀ f : Failure, f.OfBalancing → q f)
    (hfind : FailsOnly q (a.findCheques receiver owner)) :
    FailsOnly q (a.claimCheques receiver owner) :=
  (a.balancesOnly hq).claimCheques (Construction.shortOnly hq a _) hfind

end Assembler

end CellTx
