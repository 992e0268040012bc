import CellTx.Proofs.Asking
import CellTx.Proofs.Collection
import CellTx.Proofs.Fees
import CellTx.Proofs.InPlace

/-!
# What streams supply

Walked from some state of the world, streams may deliver cell after cell without a question that
fails (`CellStream.Supplies`); a chain that is asked directly does so from every state.

Results:
* `supplies_rests`: what a chain supplies.
* `Supplies.find`: a search along the way finds the first cell that it accepts, and what comes after
  that is supplied on.
* `Supplies.find_pick`: a collection looks for a cell that it accepts and that the draft does not
  spend, so what it finds is the first that can be picked.

Out of scope: streams whose questions fail halfway (`CellTx.Proofs.Drawing`).
-/

namespace CellTx

variable {σ : Type}

namespace CellStream

variable {l : Ledger σ} {streams : List CellStream} {s : σ} {cells : List LiveCell}

/-- From a state of the world, the streams deliver some cells and then nothing, and no question
fails. -/
inductive Supplies (l : Ledger σ) : List CellStream → σ → List LiveCell → Prop
  | done {streams rest : List CellStream} {s s' : σ}
      (pulled : (pull l streams).run.run s = (.ok (none, rest), s')) : Supplies l streams s []
  | cell {streams rest : List CellStream} {s s' : σ} {c : LiveCell} {cells : List LiveCell}
      (pulled : (pull l streams).run.run s = (.ok (some c, rest), s'))
      (later : Supplies l rest s' cells) : Supplies l streams s (c :: cells)

/-- The first accepted cell is found, and the cells after it are still to come. -/
theorem Supplies.find (h : Supplies l streams s cells) (accept : LiveCell → Bool) {fuel : Nat}
    (hf : cells.length < fuel) :
    ∃ rest s', (CellStream.find l accept fuel streams).run.run s =
        (.ok (cells.find? accept, rest), s') ∧
      ∀ c, cells.find? accept = some c →
        Supplies l rest s' (cells.dropWhile (!accept ·)).tail := by
  induction h generalizing fuel with
  | @done streams rest s s' pulled =>
    cases fuel with
    | zero => exact absurd hf (Nat.not_lt_zero _)
    | succ fuel =>
      have hask : (Build.ask (pull l streams)).run.run s = (.ok (none, rest), s') := by
        rw [run_ask, pulled]
        rfl
      exact ⟨rest, s', by rw [CellStream.find, run_bind_ok hask]; rfl, nofun⟩
  | @cell streams rest s s' c cells pulled later ih =>
    cases fuel with
    | zero => exact absurd hf (Nat.not_lt_zero _)
    | succ fuel =>
      have hask : (Build.ask (pull l streams)).run.run s = (.ok (some c, rest), s') := by
        rw [run_ask, pulled]
        rfl
      rw [CellStream.find, run_bind_ok hask]
      by_cases hc : accept c = true
      · rw [List.find?_cons_of_pos hc,
          List.dropWhile_cons_of_neg (by rw [hc]; exact Bool.false_ne_true)]
        refine ⟨rest, s', ?_, fun _ _ => later⟩
        simp only [hc, if_true]
        rfl
      · obtain ⟨rest', s'', hfind, hlater⟩ := ih (Nat.lt_of_succ_lt_succ hf)
        rw [List.find?_cons_of_neg hc, List.dropWhile_cons_of_pos
          (by rw [Bool.not_eq_true] at hc; rw [hc]; rfl)]
        refine ⟨rest', s'', ?_, hlater⟩
        simp only [hc]
        exact hfind

/-- A chain that is asked directly supplies all that the streams still have to deliver. -/
theorem supplies_rests {c : Chain} {streams : List CellStream} (hl : Paged streams) (s : Nat) :
    Supplies c.ledger streams s (rests c streams) := by
  generalize hcells : rests c streams = cells
  induction cells generalizing streams s with
  | nil =>
    obtain ⟨rest, hpull, -, -⟩ := ends_pull (c := c) hl
    obtain ⟨s', hpull⟩ := hpull s
    rw [hcells] at hpull
    exact .done hpull
  | cons x cells ih =>
    obtain ⟨rest, hpull, hrests, hl'⟩ := ends_pull (c := c) hl
    obtain ⟨s', hpull⟩ := hpull s
    rw [hcells] at hpull hrests
    exact .cell hpull (ih hl' s' hrests)

end CellStream

open CellStream

/-! ## Picking -/

namespace Draft

variable {accept : Cell → Bool} {d : Draft} {cells : List LiveCell}

/-- Whether a collection takes a cell: it is accepted, and the draft does not spend it. -/
def takes (accept : Cell → Bool) (d : Draft) (c : LiveCell) : Bool :=
  !d.spends c.outPoint && accept c.cell

/-- Nothing can be picked when nothing is found. -/
theorem pick_eq_nil_of_find (h : cells.find? (d.takes accept) = none) :
    d.pick accept cells = [] := by
  induction cells with
  | nil => rfl
  | cons c cells ih =>
    obtain ⟨hc, hcells⟩ := List.forall_mem_cons.mp (List.find?_eq_none.mp h)
    exact (if_neg hc).trans (ih (List.find?_eq_none.mpr hcells))

end Draft

/-- A collection finds the first cell that it can pick, or nothing when there is none. -/
theorem CellStream.Supplies.find_pick {l : Ledger σ} {streams : List CellStream} {s : σ}
    {cells : List LiveCell} (h : Supplies l streams s cells) (accept : Cell → Bool) (d : Draft)
    {bound : Nat} (hb : cells.length < bound) :
    ∃ rest s', (CellStream.find l (d.takes accept) bound streams).run.run s =
        (.ok ((d.pick accept cells).head?, rest), s') ∧
      ∀ c payable, d.pick accept cells = c :: payable → ∃ cells',
        Supplies l rest s' cells' ∧ cells'.length < cells.length ∧
        (d.consume c).pick accept cells' = payable := by
  obtain ⟨rest, s', hfind, hlater⟩ := h.find (d.takes accept) hb
  cases hfound : cells.find? (d.takes accept) with
  | none =>
    rw [hfound] at hfind
    rw [Draft.pick_eq_nil_of_find hfound]
    exact ⟨rest, s', hfind, nofun⟩
  | some c =>
    have hpick := Draft.pick_of_find hfound
    rw [hfound] at hfind
    rw [hpick]
    refine ⟨rest, s', hfind, fun c' payable heq => ⟨_, hlater c hfound, ?_, ?_⟩⟩
    · have hmem := List.mem_of_find?_eq_some hfound
      have hpos := List.length_pos_of_mem hmem
      have hle := (List.dropWhile_sublist (l := cells) (!d.takes accept ·)).length_le
      rw [List.length_tail]
      omega
    · obtain ⟨rfl, hrest⟩ := List.cons.inj heq
      exact hrest

/-- What a collection in place finds is what the search finds. -/
theorem Edit.on_look_find {l : Ledger σ} {accept : Cell → Bool} {bound : Nat} {d : Draft}
    {streams rest : List CellStream} {s s' : σ} {o : Option LiveCell}
    (h : (CellStream.find l (d.takes accept) bound streams).run.run s = (.ok (o, rest), s')) :
    (look (CellStream.find l (fun c => !d.spends c.outPoint && accept c.cell) bound streams)).on
      d s = (.ok (o, rest), d, s') :=
  congrArg (fun x => (x.1, d, x.2)) h

/-! ## What is collected -/

namespace Collected

variable {before got after : Collected} {c : LiveCell} {cells : List LiveCell}

/-- What is collected after some more cells. -/
structure Extends (before : Collected) (cells : List LiveCell) (after : Collected) : Prop where
  cells_eq : after.cells = before.cells ++ cells
  capacity_eq : after.capacity.toNat =
    before.capacity.toNat + Capacity.total (cells.map fun c => c.cell.capacity)

theorem Extends.refl (got : Collected) : got.Extends [] got := ⟨(List.append_nil _).symm, rfl⟩

/-- A cell is added when the capacity fits 64 bits. -/
theorem exists_add (before : Collected) (c : LiveCell)
    (h : before.capacity.toNat + c.cell.capacity.toNat < UInt64.size) :
    ∃ got : Collected, before.add c = .ok got ∧ got.cells = before.cells ++ [c] ∧
      got.capacity.toNat = before.capacity.toNat + c.cell.capacity.toNat := by
  obtain ⟨sum, hsum⟩ := Capacity.exists_add? h
  exact ⟨⟨sum, before.cells ++ [c]⟩, by rw [add, hsum], rfl, Capacity.add?_eq_some_iff.mp hsum⟩

theorem Extends.cons (hcells : got.cells = before.cells ++ [c])
    (hcapacity : got.capacity.toNat = before.capacity.toNat + c.cell.capacity.toNat)
    (h : got.Extends cells after) : before.Extends (c :: cells) after where
  cells_eq := by rw [h.cells_eq, hcells, List.append_assoc, List.singleton_append]
  capacity_eq := by
    rw [h.capacity_eq, hcapacity, List.map_cons, Capacity.total_cons, Nat.add_assoc]

end Collected

end CellTx
