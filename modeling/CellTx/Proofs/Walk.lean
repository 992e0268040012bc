import CellTx.Assembler
import CellTx.Proofs.Outcome

/-!
# What a walk delivers

Every cell that a walk delivers was on a page that the ledger handed out for one of the walk's
searches (`Ledger.Reports`). Nothing is assumed of the ledger: its pages may repeat cells, and
differ from one question to the next.

Results:
* `Holds.fetch`, `Holds.next`: a stream that holds reported cells goes on doing so.
* `Walks.pull`, `Walks.find`, `Walks.drain`: what several streams deliver was reported to one of
  their searches, and `find` delivers what is accepted.

Out of scope: order and completeness, which need more of the ledger: `CellTx.Proofs.Delivery` has
them for a chain, `CellTx.Proofs.Drawing` for a node.
-/

namespace CellTx

variable {σ : Type}

/-- The ledger reports a cell to a search. -/
def Ledger.Reports (l : Ledger σ) (key : SearchKey) (x : LiveCell) : Prop :=
  ∃ order limit after page, Yields (l.cells key order limit after) page ∧ x ∈ page.cells

namespace CellStream

/-- What a stream still holds was reported to its search. -/
def Holds (l : Ledger σ) (s : CellStream) : Prop := ∀ x ∈ s.buffer, l.Reports s.key x

/-- The streams walk searches among `keys`, and hold what was reported. -/
def Walks (l : Ledger σ) (keys : List SearchKey) (streams : List CellStream) : Prop :=
  ∀ s ∈ streams, s.key ∈ keys ∧ s.Holds l

theorem Holds.fetch {l : Ledger σ} {s t : CellStream} (hs : s.Holds l)
    (h : Yields (s.fetch l) t) : t.key = s.key ∧ t.Holds l := by
  obtain ⟨page, hpage, h⟩ := h.bind
  split at h
  · rw [h.of_pure]
    exact ⟨rfl, hs⟩
  · rw [h.of_pure]
    exact ⟨rfl, fun x hx => ⟨_, _, _, page, hpage, hx⟩⟩

/-- Taking the first cell that a stream holds. -/
theorem Holds.take {l : Ledger σ} {s : CellStream} (hs : s.Holds l) {c : LiveCell}
    {rest : List LiveCell} (hb : s.buffer = c :: rest) :
    l.Reports s.key c ∧ Holds l { s with buffer := rest } :=
  ⟨hs c (hb ▸ List.mem_cons_self), fun x hx => hs x (hb ▸ List.mem_cons_of_mem c hx)⟩

theorem Holds.next {l : Ledger σ} {s t : CellStream} {o : Option (Except QueryError LiveCell)}
    (hs : s.Holds l) (h : Reaches (s.next l) (o, t)) :
    t.key = s.key ∧ t.Holds l ∧ ∀ c, o = some (.ok c) → l.Reports s.key c := by
  unfold CellStream.next at h
  split at h
  · rename_i c rest hb
    obtain ⟨rfl, rfl⟩ := Prod.mk.inj h.of_pure
    obtain ⟨hc, ht⟩ := hs.take hb
    exact ⟨rfl, ht, fun c' hc' => by cases hc'; exact hc⟩
  split at h
  · obtain ⟨rfl, rfl⟩ := Prod.mk.inj h.of_pure
    exact ⟨rfl, hs, fun c hc => nomatch hc⟩
  obtain ⟨r, hr, h⟩ := h.bind
  cases r with
  | error e =>
    obtain ⟨rfl, rfl⟩ := Prod.mk.inj h.of_pure
    exact ⟨rfl, hs, fun c hc => nomatch hc⟩
  | ok u =>
    obtain ⟨hkey, hu⟩ := hs.fetch hr
    simp only at h
    split at h
    · rename_i c rest hb
      obtain ⟨rfl, rfl⟩ := Prod.mk.inj h.of_pure
      obtain ⟨hc, ht⟩ := hu.take hb
      rw [hkey] at hc
      exact ⟨hkey, ht, fun c' hc' => by cases hc'; exact hc⟩
    · obtain ⟨rfl, rfl⟩ := Prod.mk.inj h.of_pure
      exact ⟨hkey, hu, fun c hc => nomatch hc⟩

theorem Walks.pull {l : Ledger σ} {keys : List SearchKey} {streams rest : List CellStream}
    {o : Option LiveCell} (hw : Walks l keys streams) (h : Yields (pull l streams) (o, rest)) :
    Walks l keys rest ∧ ∀ c, o = some c → ∃ key ∈ keys, l.Reports key c := by
  induction streams with
  | nil =>
    obtain ⟨rfl, rfl⟩ := Prod.mk.inj h.of_pure
    exact ⟨hw, fun c hc => nomatch hc⟩
  | cons s streams ih =>
    have hw' : Walks l keys streams := fun t ht => hw t (List.mem_cons_of_mem s ht)
    obtain ⟨hkey, hs⟩ := hw s List.mem_cons_self
    rw [CellStream.pull] at h
    obtain ⟨⟨r, t⟩, hr, h⟩ := h.bind
    obtain ⟨ht, hh, hc⟩ := hs.next hr.of_lift
    split at h
    · rename_i c u heq
      obtain ⟨rfl, rfl⟩ := Prod.mk.inj heq
      obtain ⟨rfl, rfl⟩ := Prod.mk.inj h.of_pure
      refine ⟨fun u hu => ?_, fun c' hc' => ⟨s.key, hkey, hc c' (by cases hc'; rfl)⟩⟩
      rcases List.mem_cons.mp hu with rfl | hu
      · exact ⟨ht ▸ hkey, hh⟩
      · exact hw' u hu
    · exact absurd h not_yields_throw
    · exact ih hw' h

/-- What `find` delivers was accepted, and reported to one of the searches. -/
theorem Walks.find {l : Ledger σ} {keys : List SearchKey} {accept : LiveCell → Bool} {fuel : Nat}
    {streams rest : List CellStream} {o : Option LiveCell} (hw : Walks l keys streams)
    (h : Yields (find l accept fuel streams) (o, rest)) :
    Walks l keys rest ∧ ∀ c, o = some c → accept c = true ∧ ∃ key ∈ keys, l.Reports key c := by
  induction fuel generalizing streams with
  | zero => exact absurd h not_yields_throw
  | succ fuel ih =>
    rw [CellStream.find] at h
    obtain ⟨⟨o', streams'⟩, hp, h⟩ := h.bind
    obtain ⟨hw', hc⟩ := hw.pull (yields_ask.mp hp)
    cases o' with
    | none =>
      obtain ⟨rfl, rfl⟩ := Prod.mk.inj h.of_pure
      exact ⟨hw', fun c hc => nomatch hc⟩
    | some c =>
      simp only at h
      split at h
      · rename_i ha
        obtain ⟨rfl, rfl⟩ := Prod.mk.inj h.of_pure
        exact ⟨hw', fun c' hc' => by cases hc'; exact ⟨ha, hc c rfl⟩⟩
      · exact ih hw' h

/-- Every drained cell was reported to one of the searches. -/
theorem Walks.drain {l : Ledger σ} {keys : List SearchKey} {fuel : Nat}
    {streams : List CellStream} {cells : List LiveCell} (hw : Walks l keys streams)
    (h : Yields (drain l fuel streams) cells) : ∀ c ∈ cells, ∃ key ∈ keys, l.Reports key c := by
  induction fuel generalizing streams cells with
  | zero => exact absurd h not_yields_throw
  | succ fuel ih =>
    rw [CellStream.drain] at h
    obtain ⟨⟨o, streams'⟩, hp, h⟩ := h.bind
    obtain ⟨hw', hc⟩ := hw.pull (yields_ask.mp hp)
    cases o with
    | none =>
      rw [h.of_pure]
      exact fun c hc => absurd hc List.not_mem_nil
    | some c =>
      obtain ⟨tail, ht, h⟩ := h.bind
      rw [h.of_pure]
      intro x hx
      rcases List.mem_cons.mp hx with rfl | hx
      · exact hc x rfl
      · exact ih hw' ht x hx

end CellStream

/-- Streams that have not started walk the searches of their keys. -/
theorem Assembler.walks_stream (l : Ledger σ) (a : Assembler σ) (keys : List SearchKey) :
    CellStream.Walks l keys (keys.map a.stream) := by
  intro s hs
  obtain ⟨key, hkey, rfl⟩ := List.mem_map.mp hs
  exact ⟨hkey, fun x hx => absurd hx List.not_mem_nil⟩

end CellTx
