import CellTx.Proofs.Supply
import Mathlib.Algebra.BigOperators.Group.List.Basic

/-!
# Collecting tokens

A collection of tokens spends the shortest run of token cells that holds what is required, or all of
them when they hold less (specification, sections 4.2 and 4.3).

Results:
* `InPlace.collectTokensWithin_shortest`: by induction on the cells that are left, where the rounds
  end, and with which draft (`TokenPass`).
* `TokenPass.isOk_iff`: it ends well exactly when the cells hold enough.
* `Draft.changeOutput?_of_removed`: the change output, wherever it stands, stays the one it was when
  the token change goes.
* `InPlace.settleTokenChange_settled`: settling writes what is left over into an output or removes
  it.
* `Assembler.tokens_collected_and_settled`: both, for drafts of any shape and any sources.

Out of scope: cells of the token whose data is no amount; the collection ends at one with the error
of `TokenAmount.ofData`.
-/

namespace CellTx

variable {σ : Type}

open CellStream Edit

/-! ## The pass -/

/-- What a pass over token cells comes to. It begins with `start` tokens and what is collected
`before`, and meets `cells` that hold `amounts`; of these it takes `taken`. -/
structure TokenPass (required : TokenAmount) (start : Nat) (before : Collected)
    (cells : List LiveCell) (amounts : List TokenAmount) (taken : Nat)
    (r : Except Failure (Collected × TokenAmount)) : Prop where
  le : taken ≤ cells.length
  /-- No shorter run of cells holds what is required. -/
  shortest : ∀ j < taken, start + ((amounts.take j).map BitVec.toNat).sum < required.toNat
  enough : required.toNat ≤ start + ((amounts.take taken).map BitVec.toNat).sum →
    ∃ got amount, r = .ok (got, amount) ∧ before.Extends (cells.take taken) got ∧
      amount.toNat = start + ((amounts.take taken).map BitVec.toNat).sum
  short : start + ((amounts.take taken).map BitVec.toNat).sum < required.toNat →
    taken = cells.length ∧ ∃ amount, r = .error (.insufficientTokens required amount) ∧
      amount.toNat = start + (amounts.map BitVec.toNat).sum

/-- A pass that goes on is one that met a cell more. -/
theorem TokenPass.next {required : TokenAmount} {start sum taken : Nat} {before got : Collected}
    {c : LiveCell} {cells : List LiveCell} {held : TokenAmount} {amounts : List TokenAmount}
    {r : Except Failure (Collected × TokenAmount)} (hlt : start < required.toNat)
    (hsum : sum = start + held.toNat) (hcells : got.cells = before.cells ++ [c])
    (hcapacity : got.capacity.toNat = before.capacity.toNat + c.cell.capacity.toNat)
    (h : TokenPass required sum got cells amounts taken r) :
    TokenPass required start before (c :: cells) (held :: amounts) (taken + 1) r := by
  have htotal : ∀ l : List TokenAmount, start + ((held :: l).map BitVec.toNat).sum =
      sum + (l.map BitVec.toNat).sum := fun l => by
    rw [List.map_cons, List.sum_cons, hsum, Nat.add_assoc]
  refine ⟨Nat.succ_le_succ h.le, fun j hj => ?_, fun hle => ?_, fun hlt => ?_⟩
  · cases j with
    | zero => exact hlt
    | succ j =>
      rw [List.take_succ_cons, htotal]
      exact h.shortest j (Nat.lt_of_succ_lt_succ hj)
  · rw [List.take_succ_cons, htotal] at hle
    obtain ⟨got', amount, hr, hextends, hamount⟩ := h.enough hle
    refine ⟨got', amount, hr, hextends.cons hcells hcapacity, ?_⟩
    rw [List.take_succ_cons, htotal, hamount]
  · rw [List.take_succ_cons, htotal] at hlt
    obtain ⟨htaken, amount, hr, hamount⟩ := h.short hlt
    exact ⟨congrArg (· + 1) htaken, amount, hr, hamount.trans (htotal amounts).symm⟩

/-- A pass ends well when the cells hold what is required, and only then. -/
theorem TokenPass.isOk_iff {required : TokenAmount} {start taken : Nat} {before : Collected}
    {cells : List LiveCell} {amounts : List TokenAmount}
    {r : Except Failure (Collected × TokenAmount)}
    (h : TokenPass required start before cells amounts taken r)
    (hlength : cells.length = amounts.length) :
    (∃ got, r = .ok got) ↔ required.toNat ≤ start + (amounts.map BitVec.toNat).sum := by
  by_cases henough : required.toNat ≤ start + ((amounts.take taken).map BitVec.toNat).sum
  · obtain ⟨got, amount, hr, -⟩ := h.enough henough
    have hsplit := List.sum_take_add_sum_drop (amounts.map BitVec.toNat) taken
    rw [← List.map_take] at hsplit
    exact iff_of_true ⟨_, hr⟩ (by omega)
  · obtain ⟨htaken, amount, rfl, -⟩ := h.short (Nat.lt_of_not_le henough)
    rw [htaken, hlength, List.take_length] at henough
    exact iff_of_false (fun ⟨_, h⟩ => nomatch h) henough

namespace InPlace

variable {a : Assembler σ} {type : Script} {required : TokenAmount}

section Rounds

variable {bound fuel : Nat} {got got' : Collected} {amount held sum : TokenAmount} {d : Draft}
  {streams rest : List CellStream} {s s' : σ} {c : LiveCell}

theorem on_collectTokensWithin_enough (h : required ≤ amount) :
    (collectTokensWithin a bound type required (fuel + 1) (got, amount) streams).on d s =
      (.ok (got, amount), d, s) := by
  rw [collectTokensWithin, if_pos h]
  rfl

theorem on_collectTokensWithin_none (h : ¬ required ≤ amount)
    (hfind : (CellStream.find a.ledger (d.takes (Cell.hasType type)) bound streams).run.run s =
      (.ok (none, rest), s')) :
    (collectTokensWithin a bound type required (fuel + 1) (got, amount) streams).on d s =
      (.error (.insufficientTokens required amount), d, s') := by
  rw [collectTokensWithin, if_neg h, on_bind_ok _ (on_draft d s)]
  exact on_bind_ok _ (on_look_find hfind)

theorem on_collectTokensWithin_next (h : ¬ required ≤ amount)
    (hfind : (CellStream.find a.ledger (d.takes (Cell.hasType type)) bound streams).run.run s =
      (.ok (some c, rest), s'))
    (hheld : TokenAmount.ofData? c.cell.data = some held)
    (hsum : TokenAmount.add? amount held = some sum) (hadd : got.add c = .ok got') :
    (collectTokensWithin a bound type required (fuel + 1) (got, amount) streams).on d s =
      (collectTokensWithin a bound type required fuel (got', sum) rest).on (d.consume c) s' := by
  rw [collectTokensWithin, if_neg h, on_bind_ok _ (on_draft d s)]
  refine (on_bind_ok _ (on_look_find hfind)).trans ?_
  dsimp only
  rw [TokenAmount.ofData?_eq_some_iff.mp hheld, on_bind_ok _ (on_look_decoded (.ok held) d s'),
    hsum, on_bind_ok _ (on_look_demand _ sum d s'), hadd, on_bind_ok _ (on_look_ofExcept _ d s'),
    on_bind_ok _ (on_replace (d.consume c) d s')]

end Rounds

theorem collectTokensWithin_shortest (required : TokenAmount) {bound fuel : Nat}
    {got : Collected} {amount : TokenAmount} {d : Draft} {streams : List CellStream} {s : σ}
    {cells : List LiveCell} {amounts : List TokenAmount} (h : Supplies a.ledger streams s cells)
    (hb : cells.length < bound) (hf : cells.length < fuel)
    (hheld : (d.pick (Cell.hasType type) cells).map (fun c => TokenAmount.ofData? c.cell.data) =
      amounts.map some)
    (hamounts : amount.toNat + (amounts.map BitVec.toNat).sum < TokenAmount.size)
    (hcapacities : got.capacity.toNat + Capacity.total ((d.pick (Cell.hasType type) cells).map
      fun c => c.cell.capacity) < UInt64.size) :
    ∃ taken r s', (collectTokensWithin a bound type required fuel (got, amount) streams).on d s =
        (r, ((d.pick (Cell.hasType type) cells).take taken).foldl Draft.consume d, s') ∧
      TokenPass required amount.toNat got (d.pick (Cell.hasType type) cells) amounts taken r := by
  induction fuel generalizing got amount d streams s cells amounts with
  | zero => exact absurd hf (Nat.not_lt_zero _)
  | succ fuel ih =>
    by_cases hle : required ≤ amount
    · refine ⟨0, _, s, on_collectTokensWithin_enough hle, Nat.zero_le _, nofun, fun _ => ?_,
        fun hlt => absurd (BitVec.le_def.mp hle) (Nat.not_le_of_lt hlt)⟩
      exact ⟨got, amount, rfl, Collected.Extends.refl got, rfl⟩
    have hlt : amount.toNat < required.toNat := Nat.lt_of_not_le (mt BitVec.le_def.mpr hle)
    obtain ⟨rest, s₁, hfind, hlater⟩ := h.find_pick (Cell.hasType type) d hb
    cases hpick : d.pick (Cell.hasType type) cells with
    | nil =>
      rw [hpick] at hheld hfind
      obtain rfl := List.map_eq_nil_iff.mp hheld.symm
      exact ⟨0, _, s₁, on_collectTokensWithin_none hle hfind, Nat.zero_le _, nofun,
        fun hle => absurd hle (Nat.not_le_of_lt hlt), fun _ => ⟨rfl, amount, rfl, rfl⟩⟩
    | cons c payable =>
      obtain ⟨cells', hsupply, hshorter, hpayable⟩ := hlater c payable hpick
      rw [hpick] at hheld hcapacities hfind
      obtain ⟨held, amounts', rfl, hc, hrest⟩ := List.map_eq_cons_iff.mp hheld.symm
      rw [List.map_cons, List.sum_cons] at hamounts
      rw [List.map_cons, Capacity.total_cons] at hcapacities
      obtain ⟨sum, hadd?⟩ := TokenAmount.exists_add? (a := amount) (b := held) (by omega)
      have hsum := TokenAmount.add?_eq_some_iff.mp hadd?
      obtain ⟨got', hadd, hcells, hcapacity⟩ := got.exists_add c (by omega)
      rw [← hpayable] at hrest hcapacities
      have hamounts' : sum.toNat + (amounts'.map BitVec.toNat).sum < TokenAmount.size := by omega
      have hcapacities' : got'.capacity.toNat + Capacity.total
          (((d.consume c).pick (Cell.hasType type) cells').map fun c => c.cell.capacity) <
          UInt64.size := by omega
      -- the rest of the pass is the one over what can still be picked
      obtain ⟨taken, r, s', hon, hpass⟩ :=
        ih hsupply (by omega) (by omega) hrest.symm hamounts' hcapacities'
      rw [hpayable] at hon hpass
      refine ⟨taken + 1, r, s', ?_, hpass.next hlt hsum hcells hcapacity⟩
      rw [on_collectTokensWithin_next hle hfind hc.symm hadd? hadd]
      exact hon

end InPlace

/-! ## What is left over -/

/-- What the draft becomes when `left` tokens are left over for the output at `i`. -/
structure TokenChangeSettled (i left : Nat) (d d' : Draft) : Prop where
  /-- Nothing is left over: the output goes, and the change stays with its output. -/
  removed : left = 0 → d.DiffersInOutputs d' ∧ d'.outputs = d.outputs.eraseIdx i ∧
    (d.change = none → d'.change = none) ∧
    ∀ slot, d.change = some slot →
      (slot = i → d'.change = none) ∧
      (slot < i → d'.change = some slot) ∧
      (i < slot → d'.change = some (slot - 1)) ∧
      (slot ≠ i → d'.changeOutput? = d.changeOutput?)
  /-- Something is left over: the output's data holds it, and nothing else changes. -/
  written : left ≠ 0 → ∃ c data amount, d.outputs[i]? = some c ∧
    d' = d.setOutput i { c with data := data } ∧ TokenAmount.ofData? data = some amount ∧
    amount.toNat = left

namespace Draft

variable {d d' : Draft} {i slot : Nat}

/-- The output that receives the change stays the one it was while others are removed. -/
theorem changeOutput?_of_removed (houtputs : d'.outputs = d.outputs.eraseIdx i)
    (hchange : d'.change = shiftChange d.change i) (hslot : d.change = some slot)
    (hne : slot ≠ i) : d'.changeOutput? = d.changeOutput? := by
  rw [changeOutput?, changeOutput?, hchange, houtputs, hslot, shiftChange, if_neg hne]
  by_cases hlt : i < slot
  · rw [if_pos hlt, Option.bind_some, Option.bind_some, List.getElem?_eraseIdx,
      if_neg (by omega), Nat.sub_add_cancel (by omega)]
  · rw [if_neg hlt, Option.bind_some, Option.bind_some, List.getElem?_eraseIdx,
      if_pos (by omega)]

end Draft

namespace InPlace

theorem settleTokenChange_settled {d : Draft} {i : Nat} {collected required : TokenAmount}
    (s : σ) (hle : required.toNat ≤ collected.toNat) (hi : i < d.outputs.length) :
    ∃ d', (settleTokenChange i collected required).on d s = (.ok (), d', s) ∧
      TokenChangeSettled i (collected.toNat - required.toNat) d d' := by
  have hnot : ¬ collected < required := mt BitVec.lt_def.mp (Nat.not_lt_of_le hle)
  rw [settleTokenChange, if_neg hnot]
  by_cases heq : collected = required
  · obtain ⟨d', hremoved, hdiffers, houtputs, hchange⟩ := Draft.removeOutput_of_lt hi
    rw [if_pos heq]
    refine ⟨d', on_apply_ok s hremoved, fun _ => ⟨hdiffers, houtputs, fun hnone => ?_,
      fun slot hslot => ⟨?_, ?_, ?_, Draft.changeOutput?_of_removed houtputs hchange hslot⟩⟩,
      fun h => absurd (congrArg BitVec.toNat heq) (by omega)⟩
    · rw [hchange, hnone]
      rfl
    · intro h
      rw [hchange, hslot, Draft.shiftChange, if_pos h]
    · intro h
      rw [hchange, hslot, Draft.shiftChange, if_neg (by omega), if_neg (by omega)]
    · intro h
      rw [hchange, hslot, Draft.shiftChange, if_neg (by omega), if_pos h]
  · have hset : d.setData i (TokenAmount.data (collected - required)) = .ok (d.setOutput i
        { d.outputs[i] with data := TokenAmount.data (collected - required) }) :=
      except_bind_eq_ok.mpr ⟨_, Draft.output_eq_ok.mpr (List.getElem?_eq_getElem hi), rfl⟩
    have hleft : (collected - required).toNat = collected.toNat - required.toNat :=
      BitVec.toNat_sub_of_le (BitVec.le_def.mpr hle)
    rw [if_neg heq]
    refine ⟨_, on_apply_ok s hset, fun h => absurd (BitVec.eq_of_toNat_eq (by omega)) heq,
      fun _ => ⟨_, _, _, List.getElem?_eq_getElem hi, rfl, TokenAmount.ofData?_data _, hleft⟩⟩

end InPlace

/-! ## Both -/

/-- A collection of tokens takes the shortest run of cells that holds what is required, and ends
well exactly when all that can be picked hold it, when its streams deliver no more cells than their
span promises. What is left over is settled exactly: written into an output, or that output is
removed and the change moves with its own. Without enough tokens settling fails and leaves the draft
alone. -/
theorem Assembler.tokens_collected_and_settled {a : Assembler σ} {type : Script}
    {required : TokenAmount} {d : Draft} {streams : List CellStream} {s : σ}
    {cells : List LiveCell} {amounts : List TokenAmount}
    (hsupply : Supplies a.ledger streams s cells)
    (hspan : cells.length ≤ streams.length * a.ledger.span)
    (hheld : (d.pick (Cell.hasType type) cells).map (fun c => TokenAmount.ofData? c.cell.data) =
      amounts.map some)
    (hamounts : (amounts.map BitVec.toNat).sum < TokenAmount.size)
    (hcapacities : Capacity.total ((d.pick (Cell.hasType type) cells).map
      fun c => c.cell.capacity) < UInt64.size) :
    (InPlace.collectTokens a type required streams).returned d =
      a.collectTokens d type required streams ∧
    (∃ taken r s', (InPlace.collectTokens a type required streams).on d s =
        (r, ((d.pick (Cell.hasType type) cells).take taken).foldl Draft.consume d, s') ∧
      TokenPass required 0 {} (d.pick (Cell.hasType type) cells) amounts taken r ∧
      ((∃ got, r = .ok got) ↔ required.toNat ≤ (amounts.map BitVec.toNat).sum)) ∧
    ∀ (d : Draft) (i : Nat) (collected : TokenAmount) (s : σ),
      Prod.snd <$> (InPlace.settleTokenChange i collected required : Edit σ Unit).returned d =
        Build.ofExcept (d.settleTokenChange i collected required) ∧
      (collected.toNat < required.toNat →
        (InPlace.settleTokenChange i collected required).on d s =
          (.error (.insufficientTokens required collected), d, s)) ∧
      (required.toNat ≤ collected.toNat → i < d.outputs.length →
        ∃ d', (InPlace.settleTokenChange i collected required).on d s = (.ok (), d', s) ∧
          TokenChangeSettled i (collected.toNat - required.toNat) d d') := by
  refine ⟨InPlace.returned_collectTokens a d type required streams, ?_, fun d i collected s =>
    ⟨InPlace.returned_settleTokenChange d i collected required, fun hlt => ?_,
      fun hle hi => InPlace.settleTokenChange_settled s hle hi⟩⟩
  · have hbound : cells.length < bound a.ledger streams := Nat.lt_succ_of_le hspan
    have hamounts₀ : (0 : TokenAmount).toNat + (amounts.map BitVec.toNat).sum <
        TokenAmount.size := by simpa using hamounts
    have hcapacities₀ : ({} : Collected).capacity.toNat + Capacity.total
        ((d.pick (Cell.hasType type) cells).map fun c => c.cell.capacity) < UInt64.size := by
      simpa using hcapacities
    obtain ⟨taken, r, s', hon, hpass⟩ := InPlace.collectTokensWithin_shortest required hsupply
      hbound hbound hheld hamounts₀ hcapacities₀
    have hlength : (d.pick (Cell.hasType type) cells).length = amounts.length := by
      simpa using congrArg List.length hheld
    have hzero : (0 : TokenAmount).toNat = 0 := rfl
    rw [hzero] at hpass
    have hiff := hpass.isOk_iff hlength
    rw [Nat.zero_add] at hiff
    exact ⟨taken, r, s', hon, hpass, hiff⟩
  · rw [InPlace.settleTokenChange, if_pos (BitVec.lt_def.mpr hlt)]
    rfl

/-- A chain where a lock has 4 and 5 tokens of the zero owner. -/
def Chain.withTwoTokenCells : Chain :=
  (Chain.new.fund [⟨20000000000, .ofByte 1, some (SystemScripts.mainnet.sudtType Hash.zero),
      TokenAmount.data 4⟩,
    ⟨20000000000, .ofByte 1, some (SystemScripts.mainnet.sudtType Hash.zero),
      TokenAmount.data 5⟩]).2

/-- A search for the tokens of that lock, made twice. -/
def Assembler.twiceTokens : List CellStream :=
  List.replicate 2 ((Assembler.onChain .withTwoTokenCells).stream
    (SearchKey.byLockAndType (.ofByte 1) (SystemScripts.mainnet.sudtType Hash.zero)))

/-- Six tokens are collected from 4 and 5, although the second search reports both cells again;
three are left over for the first of two outputs. -/
theorem Assembler.tokens_collected_and_settled_twice :
    ∃ (a : Assembler Nat) (type : Script) (cells : List LiveCell),
      Supplies a.ledger Assembler.twiceTokens 0 cells ∧ cells.length = 4 ∧
      (∃ taken r s', (InPlace.collectTokens a type 6 Assembler.twiceTokens).on Draft.empty 0 =
          (r, ((Draft.empty.pick (Cell.hasType type) cells).take taken).foldl Draft.consume
            Draft.empty, s') ∧
        TokenPass 6 0 {} (Draft.empty.pick (Cell.hasType type) cells) [4, 5] taken r ∧
        ∃ got, r = .ok got) ∧
      ∃ d', (InPlace.settleTokenChange 0 9 6).on
          ((Draft.empty.addOutput (Cell.plain (.ofByte 1) 0)).addChange
            (Cell.plain (.ofByte 1) 0)) 0 = (.ok (), d', 0) ∧
        TokenChangeSettled 0 3 ((Draft.empty.addOutput (Cell.plain (.ofByte 1) 0)).addChange
          (Cell.plain (.ofByte 1) 0)) d' := by
  have hpaged : Paged Assembler.twiceTokens := fun s hs => by
    rw [List.eq_of_mem_replicate hs]
    decide
  have hsupply := supplies_rests (c := .withTwoTokenCells) hpaged 0
  obtain ⟨-, ⟨taken, r, s', hon, hpass, hiff⟩, hsettle⟩ :=
    @tokens_collected_and_settled Nat (.onChain .withTwoTokenCells)
      (SystemScripts.mainnet.sudtType Hash.zero) 6 Draft.empty _ _ _ [4, 5] hsupply
      (by decide +kernel) (by decide +kernel) (by decide) (by decide +kernel)
  obtain ⟨-, -, hsettled⟩ := hsettle ((Draft.empty.addOutput (Cell.plain (.ofByte 1) 0)).addChange
    (Cell.plain (.ofByte 1) 0)) 0 9 0
  exact ⟨_, _, _, hsupply, by decide +kernel, ⟨taken, r, s', hon, hpass, hiff.mpr (by decide)⟩,
    hsettled (by decide) (by decide)⟩

end CellTx
