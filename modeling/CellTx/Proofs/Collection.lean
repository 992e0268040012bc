import CellTx.Proofs.Balance
import CellTx.Proofs.Drawing

/-!
# Which cells a collection spends

Over a chain the cells of some searches come in a fixed order. A collection passes over the cells
that it does not accept or that are spent already (`Draft.pick`), and spends the first of the others
until it has enough.

Results:
* `Draft.pick_of_find`, `Draft.pick_append`, `Draft.pick_sublist`: picking is a greedy pass.
* `Draft.pick_eq_filter`: when no two cells share an out point and none is spent before, what is
  picked are all cells that are accepted.
* `collectCapacity_prefix`, `collectTokens_prefix`: what is spent is the beginning of what can be
  picked; of tokens it is the shortest one that holds enough (`ShortestCover`).

Out of scope: where a collection of capacity stops (`CellTx.Proofs.Enough`).
-/

namespace CellTx

namespace Draft

variable {accept : Cell → Bool}

theorem spends_consume (d : Draft) (x : LiveCell) (p : OutPoint) :
    (d.consume x).spends p = (d.spends p || decide (x.outPoint = p)) := by
  rw [spends, consume, addInput, inputs_addInputWorth, List.any_append]
  simp [spends]

/-- The cells that are accepted and not spent before, neither by the draft nor by an earlier one. -/
def pick (accept : Cell → Bool) : Draft → List LiveCell → List LiveCell
  | _, [] => []
  | d, x :: xs =>
    if !d.spends x.outPoint && accept x.cell then x :: pick accept (d.consume x) xs
    else pick accept d xs

/-- The first cell that is picked is the first one that is found. -/
theorem pick_of_find {d : Draft} {xs : List LiveCell} {x : LiveCell}
    (h : xs.find? (fun y => !d.spends y.outPoint && accept y.cell) = some x) :
    d.pick accept xs = x :: (d.consume x).pick accept
      (xs.dropWhile fun y => !(!d.spends y.outPoint && accept y.cell)).tail := by
  let free := fun y : LiveCell => !d.spends y.outPoint && accept y.cell
  change xs.find? free = some x at h
  change _ = x :: (d.consume x).pick accept (xs.dropWhile fun y => !free y).tail
  induction xs with
  | nil => exact nomatch h
  | cons y ys ih =>
    by_cases hy : free y = true
    · rw [List.find?_cons_of_pos hy] at h
      obtain rfl := Option.some.inj h
      rw [pick, if_pos hy, List.dropWhile_cons_of_neg (by rw [hy]; exact Bool.false_ne_true),
        List.tail_cons]
    · rw [List.find?_cons_of_neg hy] at h
      rw [pick, if_neg hy, ih h, List.dropWhile_cons_of_pos]
      rw [Bool.not_eq_true] at hy
      rw [hy]
      rfl

/-- What is picked depends on nothing but what is spent. -/
theorem pick_congr {d d' : Draft} (h : ∀ p, d.spends p = d'.spends p) (cells : List LiveCell) :
    d.pick accept cells = d'.pick accept cells := by
  induction cells generalizing d d' with
  | nil => rfl
  | cons x cells ih =>
    have hconsume : ∀ p, (d.consume x).spends p = (d'.consume x).spends p := fun p => by
      rw [spends_consume, spends_consume, h]
    rw [pick, pick, h, ih h, ih hconsume]

/-- A draft without inputs picks like the empty one. -/
theorem pick_of_inputs_nil {d : Draft} (h : d.inputs = []) (cells : List LiveCell) :
    d.pick accept cells = empty.pick accept cells :=
  pick_congr (fun p => by rw [spends, h]; rfl) cells

/-- Cells that are not accepted are passed over. -/
theorem pick_filter (d : Draft) (cells : List LiveCell) :
    d.pick accept (cells.filter fun x => accept x.cell) = d.pick accept cells := by
  induction cells generalizing d with
  | nil => rfl
  | cons x cells ih =>
    by_cases hx : accept x.cell = true
    · rw [List.filter_cons_of_pos (p := fun y : LiveCell => accept y.cell) hx, pick, pick, ih, ih]
    · rw [List.filter_cons_of_neg (p := fun y : LiveCell => accept y.cell) hx, pick,
        if_neg (fun h => hx (Bool.and_eq_true_iff.mp h).2), ih]

/-- Cells are picked one list after the other. -/
theorem pick_append (d : Draft) (cells later : List LiveCell) :
    d.pick accept (cells ++ later) = d.pick accept cells ++
      ((d.pick accept cells).foldl consume d).pick accept later := by
  induction cells generalizing d with
  | nil => rfl
  | cons x cells ih =>
    rw [List.cons_append, pick, pick]
    split
    · rw [ih, List.foldl_cons, List.cons_append]
    · exact ih d

theorem pick_sublist (d : Draft) (cells : List LiveCell) :
    (d.pick accept cells).Sublist cells := by
  induction cells generalizing d with
  | nil => exact List.Sublist.refl _
  | cons x cells ih =>
    rw [pick]
    split
    · exact (ih _).cons_cons x
    · exact (ih d).cons x

/-- The first cells offer the first to be picked. -/
theorem pick_mono {d : Draft} {cells cells' : List LiveCell} (h : cells <+: cells') :
    d.pick accept cells <+: d.pick accept cells' := by
  obtain ⟨later, rfl⟩ := h
  rw [pick_append]
  exact List.prefix_append _ _

/-- Cells with out points of their own are picked when they are accepted. -/
theorem pick_eq_filter {d : Draft} {xs : List LiveCell} (hn : (xs.map LiveCell.outPoint).Nodup)
    (hd : ∀ x ∈ xs, accept x.cell = true → d.spends x.outPoint = false) :
    d.pick accept xs = xs.filter fun x => accept x.cell := by
  induction xs generalizing d with
  | nil => rfl
  | cons x xs ih =>
    rw [List.map_cons, List.nodup_cons] at hn
    obtain ⟨hx, hxs⟩ := List.forall_mem_cons.mp hd
    rw [pick, List.filter_cons]
    by_cases ha : accept x.cell = true
    · rw [if_pos (by rw [hx ha, ha]; rfl), if_pos ha, ih hn.2 fun y hy hacc => ?_]
      rw [spends_consume, hxs y hy hacc, Bool.false_or, decide_eq_false_iff_not]
      exact fun heq => hn.1 (heq ▸ List.mem_map_of_mem hy)
    · rw [if_neg (fun h => ha (Bool.and_eq_true_iff.mp h).2), if_neg ha, ih hn.2 hxs]

end Draft

/-- The shortest prefix of the cells found whose tokens reach an amount, with what they hold. -/
structure ShortestCover (required : TokenAmount) (found cells : List LiveCell)
    (held : List TokenAmount) : Prop where
  first : cells <+: found
  amounts : cells.map (fun x => TokenAmount.ofData? x.cell.data) = held.map some
  enough : required.toNat ≤ (held.map BitVec.toNat).sum
  least : ∀ k < held.length, ((held.take k).map BitVec.toNat).sum < required.toNat

namespace Assembler

variable {σ : Type} {a : Assembler σ} {found : List LiveCell}

theorem collectCapacityWithin_prefix {bound fuel : Nat} {got got' : Collected} {d d' : Draft}
    {streams : List CellStream} (hs : CellStream.Delivers a.ledger found streams)
    (h : Yields (a.collectCapacityWithin bound fuel got d streams) (got', d')) :
    ∃ cells, cells <+: d.pick Cell.isPlain found ∧ d' = cells.foldl Draft.consume d := by
  induction fuel generalizing got d streams found with
  | zero => exact absurd h not_yields_throw
  | succ fuel ih =>
    rw [collectCapacityWithin] at h
    obtain ⟨b, -, h⟩ := h.bind
    split at h
    · obtain ⟨-, rfl⟩ := Prod.mk.inj h.of_pure
      exact ⟨[], List.nil_prefix, rfl⟩
    obtain ⟨⟨o, rest⟩, hfind, h⟩ := h.bind
    obtain ⟨ho, hrest⟩ := hs.find hfind
    cases o with
    | none =>
      simp only at h
      split at h
      · obtain ⟨-, rfl⟩ := Prod.mk.inj h.of_pure
        exact ⟨[], List.nil_prefix, rfl⟩
      · exact absurd h not_yields_throw
    | some x =>
      obtain ⟨got₁, -, h⟩ := h.bind
      obtain ⟨cells, hcells, rfl⟩ := ih (hrest x rfl) h
      refine ⟨x :: cells, ?_, rfl⟩
      rw [Draft.pick_of_find ho.symm]
      exact (List.prefix_cons_inj x).mpr hcells

/-- A collection of capacity spends the first cells that it can. -/
theorem collectCapacity_prefix {keys : List SearchKey} {got : Collected} {d d' : Draft}
    (hs : CellStream.Delivers a.ledger found (keys.map a.stream))
    (h : Yields (a.collectCapacity d (keys.map a.stream)) (got, d')) :
    ∃ cells, cells <+: d.pick Cell.isPlain found ∧ d' = cells.foldl Draft.consume d :=
  collectCapacityWithin_prefix hs h

theorem collectTokensWithin_prefix {bound fuel : Nat} {type : Script} {required : TokenAmount}
    {got got' : Collected} {amount amount' : TokenAmount} {d d' : Draft}
    {streams : List CellStream} (hs : CellStream.Delivers a.ledger found streams)
    (h : Yields (a.collectTokensWithin bound type required fuel (got, amount) d streams)
      ((got', amount'), d')) :
    ∃ (cells : List LiveCell) (held : List TokenAmount),
      cells <+: d.pick (Cell.hasType type) found ∧ d' = cells.foldl Draft.consume d ∧
      cells.map (fun x => TokenAmount.ofData? x.cell.data) = held.map some ∧
      amount'.toNat = amount.toNat + (held.map BitVec.toNat).sum ∧
      required.toNat ≤ amount'.toNat ∧
      ∀ k < held.length,
        amount.toNat + ((held.take k).map BitVec.toNat).sum < required.toNat := by
  induction fuel generalizing got amount d streams found with
  | zero => exact absurd h not_yields_throw
  | succ fuel ih =>
    rw [collectTokensWithin] at h
    split at h
    · rename_i hle
      obtain ⟨hgot, rfl⟩ := Prod.mk.inj h.of_pure
      obtain ⟨-, rfl⟩ := Prod.mk.inj hgot
      exact ⟨[], [], List.nil_prefix, rfl, rfl, rfl, hle, fun k hk => absurd hk (Nat.not_lt_zero k)⟩
    rename_i hlt
    obtain ⟨⟨o, rest⟩, hfind, h⟩ := h.bind
    obtain ⟨ho, hrest⟩ := hs.find hfind
    cases o with
    | none => exact absurd h not_yields_throw
    | some x =>
      obtain ⟨worth, hworth, h⟩ := h.bind
      obtain ⟨sum, hsum, h⟩ := h.bind
      obtain ⟨got₁, -, h⟩ := h.bind
      obtain ⟨cells, held, hcells, rfl, hheld, htotal, henough, hleast⟩ := ih (hrest x rfl) h
      have hsum : sum.toNat = amount.toNat + worth.toNat :=
        TokenAmount.add?_eq_some_iff.mp hsum.of_demand
      refine ⟨x :: cells, worth :: held, ?_, rfl, ?_, ?_, henough, fun k hk => ?_⟩
      · rw [Draft.pick_of_find ho.symm]
        exact (List.prefix_cons_inj x).mpr hcells
      · rw [List.map_cons, List.map_cons,
          TokenAmount.ofData?_eq_some_iff.mpr hworth.of_decoded, hheld]
      · rw [htotal, hsum, List.map_cons, List.sum_cons, Nat.add_assoc]
      · cases k with
        | zero => exact Nat.lt_of_not_le hlt
        | succ k =>
          have := hleast k (Nat.lt_of_succ_lt_succ hk)
          rw [List.take_succ_cons, List.map_cons, List.sum_cons]
          omega

/-- A collection of tokens spends the fewest of the first cells that hold enough. -/
theorem collectTokens_prefix {type : Script} {required amount : TokenAmount}
    {keys : List SearchKey} {got : Collected} {d d' : Draft}
    (hs : CellStream.Delivers a.ledger found (keys.map a.stream))
    (h : Yields (a.collectTokens d type required (keys.map a.stream)) ((got, amount), d')) :
    ∃ cells held, ShortestCover required (d.pick (Cell.hasType type) found) cells held ∧
      d' = cells.foldl Draft.consume d ∧ amount.toNat = (held.map BitVec.toNat).sum := by
  obtain ⟨cells, held, hcells, hd, hheld, htotal, henough, hleast⟩ :=
    collectTokensWithin_prefix hs h
  have hzero : (0 : TokenAmount).toNat = 0 := rfl
  rw [hzero, Nat.zero_add] at htotal
  refine ⟨cells, held, ⟨hcells, hheld, htotal ▸ henough, fun k hk => ?_⟩, hd, htotal⟩
  have := hleast k hk
  rwa [hzero, Nat.zero_add] at this

end Assembler

end CellTx
