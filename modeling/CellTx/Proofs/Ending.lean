import CellTx.Proofs.SpentOnce

/-!
# Walks that end

A walk may be interrupted by a question that fails, but it never goes on for ever: what its streams
deliver is bounded (`CellStream.AtMost`), whatever the world answers.

Results:
* `AtMost.find`: a search leaves less to deliver with each cell that it finds, so that one with more
  steps than cells has always enough of them (`CellStream.Affords`).
* `Node.atMost_length_rests`, `Node.atMost_start`: on a node each delivered cell takes one from what
  is on the current page and behind its cursor, which in the beginning is less than what a search is
  allowed.

Out of scope: ledgers whose pages never end, which are met with `Defect.endlessSearch`.
-/

namespace CellTx

open CellStream

variable {σ : Type}

namespace CellStream

variable {l : Ledger σ} {streams rest : List CellStream} {n : Nat}

/-- Whatever the world answers, the streams deliver at most so many cells. -/
def AtMost (l : Ledger σ) : Nat → List CellStream → Prop
  | 0, streams => ∀ c rest, ¬ Yields (pull l streams) (some c, rest)
  | n + 1, streams => ∀ c rest, Yields (pull l streams) (some c, rest) → AtMost l n rest

/-- A delivered cell is one of those. -/
theorem AtMost.pull (h : AtMost l n streams) {c : LiveCell}
    (hp : Yields (pull l streams) (some c, rest)) : ∃ m, n = m + 1 ∧ AtMost l m rest := by
  cases n with
  | zero => exact absurd hp (h c rest)
  | succ n => exact ⟨n, rfl, h c rest hp⟩

/-- A search leaves less to deliver with the cell that it finds. -/
theorem AtMost.find {accept : LiveCell → Bool} {fuel : Nat} {c : LiveCell}
    (h : AtMost l n streams) (hf : Yields (CellStream.find l accept fuel streams) (some c, rest)) :
    ∃ m, m < n ∧ AtMost l m rest := by
  induction fuel generalizing n streams with
  | zero => exact absurd hf not_yields_throw
  | succ fuel ih =>
    rw [CellStream.find] at hf
    obtain ⟨⟨o, streams'⟩, hp, hf⟩ := hf.bind
    cases o with
    | none => cases (Prod.mk.inj hf.of_pure).1
    | some x =>
      obtain ⟨m, rfl, hm⟩ := h.pull (yields_ask.mp hp)
      simp only at hf
      split at hf
      · obtain ⟨-, rfl⟩ := Prod.mk.inj hf.of_pure
        exact ⟨m, Nat.lt_succ_self m, hm⟩
      · obtain ⟨k, hk, hrest⟩ := ih hm hf
        exact ⟨k, Nat.lt_succ_of_lt hk, hrest⟩

/-- So many steps are more than the streams have cells, unless running out is `excused`. -/
def Affords (excused : Prop) (l : Ledger σ) (fuel : Nat) (streams : List CellStream) : Prop :=
  excused ∨ ∃ n, n < fuel ∧ AtMost l n streams

namespace Affords

variable {excused : Prop} {fuel steps : Nat} {accept : LiveCell → Bool} {c : LiveCell}

theorem of_zero (h : Affords excused l 0 streams) : excused := by
  rcases h with h | ⟨_, hn, -⟩
  · exact h
  · exact absurd hn (Nat.not_lt_zero _)

/-- A delivered cell takes one step. -/
theorem pull (h : Affords excused l (fuel + 1) streams)
    (hp : Yields (CellStream.pull l streams) (some c, rest)) : Affords excused l fuel rest := by
  rcases h with h | ⟨n, hn, hmost⟩
  · exact Or.inl h
  · obtain ⟨m, rfl, hrest⟩ := hmost.pull hp
    exact Or.inr ⟨m, Nat.lt_of_succ_lt_succ hn, hrest⟩

/-- A found cell takes one step or more. -/
theorem find (h : Affords excused l (fuel + 1) streams)
    (hf : Yields (CellStream.find l accept steps streams) (some c, rest)) :
    Affords excused l fuel rest := by
  rcases h with h | ⟨n, hn, hmost⟩
  · exact Or.inl h
  · obtain ⟨m, hm, hrest⟩ := hmost.find hf
    exact Or.inr ⟨m, by omega, hrest⟩

/-- What is enough for the streams is enough for what they have left. -/
theorem after_find (h : Affords excused l fuel streams)
    (hf : Yields (CellStream.find l accept steps streams) (some c, rest)) :
    Affords excused l fuel rest := by
  rcases h with h | ⟨n, hn, hmost⟩
  · exact Or.inl h
  · obtain ⟨m, hm, hrest⟩ := hmost.find hf
    exact Or.inr ⟨m, Nat.lt_trans hm hn, hrest⟩

end Affords

end CellStream

/-! ## Nodes -/

namespace Node

variable {n : Node} {streams : List CellStream}

/-- A node delivers no more cells than the streams have left. -/
theorem atMost_length_rests {k : Nat} (h : (n.rests streams).length ≤ k) :
    AtMost n.ledger k streams := by
  induction k generalizing streams with
  | zero =>
    intro c rest hp
    have hle := (pull_sublist hp).length_le
    rw [Option.toList_some, List.singleton_append, List.length_cons] at hle
    omega
  | succ k ih =>
    intro c rest hp
    have hle := (pull_sublist hp).length_le
    rw [Option.toList_some, List.singleton_append, List.length_cons] at hle
    exact ih (by omega)

/-- Walks that have not started deliver less than their bound from a node. -/
theorem atMost_start {a : Assembler Nat} (ha : a.ledger = n.ledger) (keys : List SearchKey) :
    ∃ k, k < CellStream.bound a.ledger (keys.map a.stream) ∧
      AtMost a.ledger k (keys.map a.stream) := by
  have hrests : n.rests (keys.map a.stream) =
      CellStream.rests n.chain ((keys.map n.searched).map a.stream) := by
    rw [rests, CellStream.rests, List.flatMap_map, List.flatMap_map, List.flatMap_map]
    rfl
  have hlt := Assembler.length_rests_lt_bound (c := n.chain)
    (a := { a with ledger := n.chain.ledger }) rfl (keys.map n.searched)
  refine ⟨(n.rests (keys.map a.stream)).length, ?_, ?_⟩
  · rw [hrests, ha]
    refine Nat.lt_of_lt_of_eq hlt ?_
    rw [CellStream.bound, CellStream.bound, List.length_map, List.length_map, List.length_map]
    rfl
  · rw [ha]
    exact atMost_length_rests (Nat.le_refl _)

end Node

end CellTx
