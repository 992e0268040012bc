import CellTx.Proofs.Delivery
import CellTx.Proofs.Held

/-!
# What a node delivers

A node may refuse a question in the middle of a walk, and it may forget a filter. But as long as it
answers, it answers as its chain does for the search that it makes (`Node.towards`). So a walk over
a node that succeeds has taken the first of a fixed list of cells (`CellStream.Delivers`), whatever
the node refuses later.

Results:
* `Node.ends_pull`: the next cell is the next of the chain's, where there is one.
* `Delivers.find`: a search takes the first cell that it accepts, and leaves what is behind it.
* `Assembler.delivers_stream`, `Assembler.exists_delivers`: new streams deliver what the chain has
  for their searches.

Out of scope: the order of a search that forgets its filter, beyond that it is the chain's.
-/

namespace CellTx

variable {σ : Type}

namespace CellStream

/-- The streams deliver some cells in order: a pull takes the first of them, unless it fails. -/
def Delivers (l : Ledger σ) : List LiveCell → List CellStream → Prop
  | [], streams => ∀ o rest, Yields (pull l streams) (o, rest) → o = none
  | x :: cells, streams =>
    ∀ o rest, Yields (pull l streams) (o, rest) → o = some x ∧ Delivers l cells rest

/-- What is found is the first accepted cell, and the cells after it are still to come. -/
theorem Delivers.find {l : Ledger σ} {accept : LiveCell → Bool} {fuel : Nat}
    {cells : List LiveCell} {streams rest : List CellStream} {o : Option LiveCell}
    (h : Delivers l cells streams) (hf : Yields (find l accept fuel streams) (o, rest)) :
    o = cells.find? accept ∧
      ∀ x, o = some x → Delivers l (cells.dropWhile (!accept ·)).tail rest := by
  induction fuel generalizing cells streams with
  | zero => exact absurd hf not_yields_throw
  | succ fuel ih =>
    rw [CellStream.find] at hf
    obtain ⟨⟨pulled, streams'⟩, hpull, hf⟩ := hf.bind
    have hpull := yields_ask.mp hpull
    cases cells with
    | nil =>
      obtain rfl := h _ _ hpull
      obtain ⟨rfl, -⟩ := Prod.mk.inj hf.of_pure
      exact ⟨rfl, fun x hx => absurd hx.symm (Option.some_ne_none x)⟩
    | cons y cells =>
      obtain ⟨rfl, hrest⟩ := h _ _ hpull
      simp only at hf
      by_cases hy : accept y = true
      · rw [if_pos hy] at hf
        obtain ⟨rfl, rfl⟩ := Prod.mk.inj hf.of_pure
        rw [List.find?_cons_of_pos hy,
          List.dropWhile_cons_of_neg (by rw [hy]; exact Bool.false_ne_true)]
        exact ⟨rfl, fun _ _ => hrest⟩
      · rw [if_neg hy] at hf
        rw [List.find?_cons_of_neg hy,
          List.dropWhile_cons_of_pos (by rw [Bool.not_eq_true] at hy; rw [hy]; rfl)]
        exact ih hrest hf

end CellStream

/-! ## Nodes -/

namespace Node

open CellStream

variable {n : Node}

/-- The walk over the chain that a node makes of a walk. -/
def towards (n : Node) (s : CellStream) : CellStream := { s with key := n.searched s.key }

@[simp] theorem buffer_towards (n : Node) (s : CellStream) : (n.towards s).buffer = s.buffer := rfl
@[simp] theorem finished_towards (n : Node) (s : CellStream) :
    (n.towards s).finished = s.finished := rfl

theorem withData_searched (n : Node) (key : SearchKey) :
    (n.searched key).withData = key.withData := by
  unfold searched
  split <;> rfl

/-- Where the filter holds, a node finds what its chain finds, whether or not it forgets the
filter. -/
theorem accepts_searched {key : SearchKey} {x : LiveCell}
    (h : key.filter.all (·.accepts (key.scriptsOf x.cell).2 x) = true) :
    (n.searched key).accepts x = (key.scriptsOf x.cell).1.any key.matchesScript := by
  unfold searched
  split
  · exact Bool.and_true _
  · rw [SearchKey.accepts, h, Bool.and_true]

theorem ends_fetch {s t : CellStream} (h : Yields (s.fetch n.ledger) t) :
    Ends ((n.towards s).fetch n.chain.ledger) (.ok (n.towards t)) := by
  obtain ⟨page, hpage, h⟩ := h.bind
  obtain rfl := page_of_cells hpage
  have hcells : Ends (n.chain.ledger.cells (n.searched s.key) s.order s.limit s.cursor)
      (.ok (n.chain.page (n.searched s.key) s.order s.limit s.cursor)) := fun k => ⟨k + 1, rfl⟩
  refine hcells.bind ?_
  split at h
  · rename_i hempty
    rw [h.of_pure, if_pos hempty]
    exact Ends.pure _
  · rename_i hempty
    rw [h.of_pure, if_neg hempty]
    exact Ends.pure _

/-- Unless the node fails, its next cell is that of its chain. -/
theorem always_next {s t : CellStream} {o : Option (Except QueryError LiveCell)}
    (h : Reaches (s.next n.ledger) (o, t)) (ho : ∀ e, o ≠ some (.error e)) :
    Always ((n.towards s).next n.chain.ledger) (o, n.towards t) := by
  unfold next at h ⊢
  rw [buffer_towards, finished_towards]
  split at h
  · obtain ⟨rfl, rfl⟩ := Prod.mk.inj h.of_pure
    exact Always.pure _
  · split at h
    · rename_i hf
      obtain ⟨rfl, rfl⟩ := Prod.mk.inj h.of_pure
      simp only [hf, if_true]
      exact Always.pure _
    · rename_i hf
      obtain ⟨r, hr, h⟩ := h.bind
      simp only [hf]
      cases r with
      | error e => exact absurd (Prod.mk.inj h.of_pure).1 (ho e)
      | ok u =>
        refine Always.bind (ends_fetch hr) ?_
        simp only [buffer_towards] at h ⊢
        split at h
        · obtain ⟨rfl, rfl⟩ := Prod.mk.inj h.of_pure
          exact Always.pure _
        · obtain ⟨rfl, rfl⟩ := Prod.mk.inj h.of_pure
          exact Always.pure _

/-- A pull that succeeds is one from the chain. -/
theorem ends_pull {streams rest : List CellStream} {o : Option LiveCell}
    (h : Yields (pull n.ledger streams) (o, rest)) :
    Ends (pull n.chain.ledger (streams.map n.towards)) (.ok (o, rest.map n.towards)) := by
  induction streams with
  | nil =>
    obtain ⟨rfl, rfl⟩ := Prod.mk.inj h.of_pure
    exact Ends.pure _
  | cons s streams ih =>
    rw [pull] at h
    obtain ⟨⟨r, t⟩, hr, h⟩ := h.bind
    have hnext := hr.of_lift
    rw [List.map_cons, pull]
    split at h
    · rename_i x u heq
      obtain ⟨rfl, rfl⟩ := Prod.mk.inj heq
      obtain ⟨rfl, rfl⟩ := Prod.mk.inj h.of_pure
      have hok : ∀ e : QueryError, some (Except.ok x) ≠ some (.error e) :=
        fun e he => by cases he
      exact (Ends.of_lift (always_next hnext hok)).bind (Ends.pure _)
    · exact absurd h not_yields_throw
    · rename_i u heq
      obtain ⟨rfl, rfl⟩ := Prod.mk.inj heq
      have hnone : ∀ e : QueryError, (none : Option (Except _ LiveCell)) ≠ some (.error e) :=
        fun e he => by cases he
      exact (Ends.of_lift (always_next hnext hnone)).bind (ih h)

/-- What a pull leaves of what the chain has to deliver. -/
theorem rests_of_pull {streams rest : List CellStream} {o : Option LiveCell} (hl : Paged streams)
    (h : Yields (pull n.ledger streams) (o, rest)) :
    o = (rests n.chain (streams.map n.towards)).head? ∧
      rests n.chain (rest.map n.towards) = (rests n.chain (streams.map n.towards)).tail ∧
      Paged rest := by
  have hl' : Paged (streams.map n.towards) := List.forall_mem_map.mpr hl
  obtain ⟨rest', hends, hrests, hrest'⟩ := CellStream.ends_pull (c := n.chain) hl'
  obtain ⟨ho, rfl⟩ := Prod.mk.inj (hends.eq (ends_pull h).yields)
  exact ⟨ho.symm, hrests, fun s hs => hrest' (n.towards s) (List.mem_map_of_mem hs)⟩

/-- A node delivers what its chain does. -/
theorem delivers_rests {streams : List CellStream} (hl : Paged streams) :
    Delivers n.ledger (rests n.chain (streams.map n.towards)) streams := by
  generalize hcells : rests n.chain (streams.map n.towards) = cells
  induction cells generalizing streams with
  | nil =>
    intro o rest hpull
    have ho := (rests_of_pull hl hpull).1
    rwa [hcells] at ho
  | cons x cells ih =>
    intro o rest hpull
    obtain ⟨ho, hrests, hrest⟩ := rests_of_pull hl hpull
    rw [hcells] at ho hrests
    exact ⟨ho, ih hrest hrests⟩

/-- Nothing comes of pages without room. -/
theorem delivers_nil {streams : List CellStream} (h : ∀ s ∈ streams, s.limit = 0 ∧ s.buffer = []) :
    Delivers n.ledger [] streams := by
  intro o rest hpull
  have h' : ∀ s ∈ streams.map n.towards, s.limit = 0 ∧ s.buffer = [] :=
    List.forall_mem_map.mpr h
  have hnone := ends_pull_of_limit_zero (c := n.chain) h'
  exact (Prod.mk.inj (hnone.eq (ends_pull hpull).yields)).1.symm

end Node

/-! ## Searches -/

namespace Assembler

variable {n : Node} {a : Assembler Nat} {keys : List SearchKey}

/-- Searches for whole cells deliver the live cells that the searches of the node accept. -/
theorem delivers_stream (ha : a.ledger = n.ledger) (hp : a.pageSize ≠ 0)
    (hdata : ∀ key ∈ keys, key.withData = true) :
    CellStream.Delivers a.ledger
      (keys.flatMap fun key => n.chain.live.filter (n.searched key).accepts)
      (keys.map a.stream) := by
  have htowards : (keys.map a.stream).map n.towards = (keys.map n.searched).map a.stream := by
    rw [List.map_map, List.map_map]
    rfl
  have hdata' : ∀ key ∈ keys.map n.searched, key.withData = true :=
    List.forall_mem_map.mpr fun key hkey => (n.withData_searched key).trans (hdata key hkey)
  have hdelivers := Node.delivers_rests (n := n) (paged_stream hp keys)
  rw [htowards, rests_streams a hdata', List.flatMap_map] at hdelivers
  rw [ha]
  exact hdelivers

/-- Searches without room on their pages deliver nothing. -/
theorem delivers_stream_of_unpaged (ha : a.ledger = n.ledger) (hp : a.pageSize = 0) :
    CellStream.Delivers a.ledger [] (keys.map a.stream) := by
  rw [ha]
  exact Node.delivers_nil (List.forall_mem_map.mpr fun _ _ => ⟨congrArg UInt32.toNat hp, rfl⟩)

/-- Whatever room the pages have, a walk delivers the first of the accepted cells. -/
theorem exists_delivers (ha : a.ledger = n.ledger) (hdata : ∀ key ∈ keys, key.withData = true) :
    ∃ cells, cells <+: (keys.flatMap fun key => n.chain.live.filter (n.searched key).accepts) ∧
      CellStream.Delivers a.ledger cells (keys.map a.stream) := by
  by_cases hp : a.pageSize = 0
  · exact ⟨[], List.nil_prefix, delivers_stream_of_unpaged ha hp⟩
  · exact ⟨_, List.prefix_rfl, delivers_stream ha hp hdata⟩

end Assembler

end CellTx
