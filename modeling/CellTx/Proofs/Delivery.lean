import CellTx.Assembler
import CellTx.Ledger.Chain
import CellTx.Proofs.Outcome

/-!
# What a walk over a chain delivers

On a chain that is asked directly, a search has one answer: its pages, one after the other, are the
live cells that it accepts, in order and once each. So a stream has a fixed rest still to come
(`CellStream.rest`), and several streams have theirs one after the other.

Results:
* `Chain.remaining_page`: a page, and what remains behind its cursor, are what remained.
* `CellStream.always_next`: each call of `next` takes the first of the rest.
* `CellStream.ends_pull`, `CellStream.ends_find`, `CellStream.ends_drain`: so do the walks of
  several streams.
* `Assembler.rests_single`, `Assembler.length_rests_lt_bound`: what a new stream has to deliver, and
  that the bound on walks is never met.

Out of scope: nodes that refuse questions (`CellTx.Proofs.Drawing`), and how often is asked
(`CellTx.Proofs.Paging`).
-/

namespace CellTx

/-! ## Pages -/

/-- In a strictly ordered list, what comes after the last of the first `k` is the rest. -/
theorem filter_after_last {α : Type} {r : α → α → Bool} {l : List α} {k : Nat} {x : α}
    (hr : l.Pairwise fun y z => r y z = true ∧ r z y = false) (hirrefl : ∀ y, r y y = false)
    (h : (l.take k).getLast? = some x) : l.filter (r x) = l.drop k := by
  obtain ⟨init, hinit⟩ := List.getLast?_eq_some_iff.mp h
  have hsplit : l = (init ++ [x]) ++ l.drop k := by rw [← hinit, List.take_append_drop]
  rw [hsplit, List.pairwise_append, List.pairwise_append] at hr
  obtain ⟨⟨-, -, hbefore⟩, -, hafter⟩ := hr
  have hinit' : (init ++ [x]).filter (r x) = [] := by
    refine List.filter_eq_nil_iff.mpr fun y hy => ?_
    rcases List.mem_append.mp hy with hy | hy
    · rw [(hbefore y hy x List.mem_cons_self).2]
      exact Bool.false_ne_true
    · rw [List.mem_singleton.mp hy, hirrefl]
      exact Bool.false_ne_true
  have hdrop : (l.drop k).filter (r x) = l.drop k :=
    List.filter_eq_self.mpr fun y hy =>
      (hafter x (List.mem_append_right init List.mem_cons_self) y hy).1
  calc l.filter (r x) = ((init ++ [x]) ++ l.drop k).filter (r x) := congrArg _ hsplit
    _ = l.drop k := by rw [List.filter_append, hinit', hdrop, List.nil_append]

namespace Chain

variable {c : Chain}

/-- Positions grow, or fall, in the order of a search. -/
theorem pairwise_inOrder (c : Chain) (order : Order) :
    (c.inOrder order).Pairwise fun x y =>
      isAfter order (some x.2) y.2 = true ∧ isAfter order (some y.2) x.2 = false := by
  have hlt : c.live.zipIdx.Pairwise fun x y => x.2 < y.2 := by
    have : (List.range' 0 c.live.length).Pairwise (· < ·) := List.pairwise_lt_range'
    rw [← List.zipIdx_map_snd, List.pairwise_map] at this
    exact this
  cases order with
  | oldestFirst =>
    refine hlt.imp fun {x y} h => ?_
    simp only [isAfter, decide_eq_true_eq, decide_eq_false_iff_not]
    omega
  | newestFirst =>
    refine List.pairwise_reverse.mpr (hlt.imp fun {x y} h => ?_)
    simp only [isAfter, decide_eq_true_eq, decide_eq_false_iff_not]
    omega

/-- The cells of a search after a cursor, with their positions. -/
def remaining (c : Chain) (key : SearchKey) (order : Order) (after : Option Nat) :
    List (LiveCell × Nat) :=
  (c.inOrder order).filter fun (cell, i) => isAfter order after i && key.accepts cell

theorem isAfter_trans {order : Order} {after : Option Nat} {i j : Nat}
    (hi : isAfter order after i = true) (hj : isAfter order (some i) j = true) :
    isAfter order after j = true := by
  cases order <;> cases after <;> simp only [isAfter, decide_eq_true_eq] at hi hj ⊢ <;> omega

/-- After the last cell of a page come the cells that the page left out. -/
theorem remaining_page {key : SearchKey} {order : Order} {after : Option Nat} {limit i : Nat}
    {x : LiveCell} (h : ((c.remaining key order after).take limit).getLast? = some (x, i)) :
    c.remaining key order (some i) = (c.remaining key order after).drop limit := by
  have hmem : (x, i) ∈ c.remaining key order after :=
    List.mem_of_mem_take (List.mem_of_getLast? h)
  have hi : isAfter order after i = true := by
    have := (List.mem_filter.mp hmem).2
    rw [Bool.and_eq_true] at this
    exact this.1
  have hpairwise := (c.pairwise_inOrder order).filter
    fun (cell, i) => isAfter order after i && key.accepts cell
  rw [← filter_after_last (r := fun x y => isAfter order (some x.2) y.2) hpairwise ?_ h]
  · unfold remaining
    rw [List.filter_filter]
    refine List.filter_congr fun y _ => ?_
    by_cases hy : isAfter order (some i) y.2 = true
    · simp only [hy, isAfter_trans hi hy, Bool.true_and]
    · simp only [Bool.not_eq_true] at hy
      simp only [hy, Bool.false_and]
  · intro y
    cases order <;> simp [isAfter]

end Chain

/-! ## Streams -/

namespace CellStream

variable {c : Chain}

/-- What a stream over a chain still has to deliver. -/
def rest (c : Chain) (s : CellStream) : List LiveCell :=
  s.buffer ++
    if s.finished then []
    else (c.remaining s.key s.order s.cursor).map fun e => s.key.report e.1

/-- What several streams still have to deliver, one after the other. -/
def rests (c : Chain) (streams : List CellStream) : List LiveCell := streams.flatMap (rest c)

/-- Every page holds at least a cell. -/
def Paged (streams : List CellStream) : Prop := ∀ s ∈ streams, s.limit ≠ 0

/-- The next page is taken from the rest. -/
theorem ends_fetch {s : CellStream} (hl : s.limit ≠ 0) (hb : s.buffer = [])
    (hf : s.finished = false) :
    ∃ t : CellStream, Ends (s.fetch c.ledger) (.ok t) ∧ t.rest c = s.rest c ∧
      t.limit = s.limit ∧ (t.buffer = [] → t.rest c = []) := by
  have hcells : Ends (c.ledger.cells s.key s.order s.limit s.cursor)
      (.ok (c.page s.key s.order s.limit s.cursor)) := fun n => ⟨n + 1, rfl⟩
  let found := (c.remaining s.key s.order s.cursor).take s.limit
  have hpage : (c.page s.key s.order s.limit s.cursor).cells =
      found.map fun e => s.key.report e.1 := rfl
  cases hlast : found.getLast? with
  | none =>
    have hnil : found = [] := List.getLast?_eq_none_iff.mp hlast
    have hremaining : c.remaining s.key s.order s.cursor = [] := by
      rcases List.take_eq_nil_iff.mp hnil with h | h
      · exact absurd h hl
      · exact h
    refine ⟨{ s with finished := true }, hcells.bind ?_, ?_, rfl, fun _ => ?_⟩
    · rw [if_pos (by rw [hpage, hnil]; rfl)]
      exact Ends.pure _
    · simp only [rest, hb, hf, hremaining]
      rfl
    · simp only [rest, hb]
      rfl
  | some e =>
    obtain ⟨x, i⟩ := e
    have hne : found ≠ [] := fun hnil => by rw [hnil] at hlast; exact nomatch hlast
    have hcursor : (c.page s.key s.order s.limit s.cursor).cursor = i := by
      change (found.getLast?.map Prod.snd).getD 0 = i
      rw [hlast]
      rfl
    refine ⟨{ s with
      cursor := some (c.page s.key s.order s.limit s.cursor).cursor
      buffer := (c.page s.key s.order s.limit s.cursor).cells }, hcells.bind ?_, ?_, rfl, ?_⟩
    · rw [if_neg (by rw [hpage, List.isEmpty_map, List.isEmpty_iff]; exact hne)]
      exact Ends.pure _
    · simp only [rest, hb, hf, hpage, hcursor, Bool.false_eq_true, if_false, List.nil_append]
      rw [Chain.remaining_page hlast, ← List.map_append, List.take_append_drop]
    · intro hnil
      rw [hpage] at hnil
      exact absurd (List.map_eq_nil_iff.mp hnil) hne

/-- The next cell is the first of the rest. -/
theorem always_next {s : CellStream} (hl : s.limit ≠ 0) :
    ∃ t : CellStream, Always (s.next c.ledger) ((s.rest c).head?.map .ok, t) ∧
      t.rest c = (s.rest c).tail ∧ t.limit = s.limit := by
  unfold next
  split
  · rename_i x buffer hb
    exact ⟨{ s with buffer := buffer }, by rw [rest, hb]; exact Always.pure _,
      by rw [rest, rest, hb]; rfl, rfl⟩
  · rename_i hb
    split
    · rename_i hf
      exact ⟨s, by rw [rest, hb, if_pos hf]; exact Always.pure _, by rw [rest, hb, if_pos hf]; rfl,
        rfl⟩
    · rename_i hf
      obtain ⟨t, ht, hrest, hlimit, hdone⟩ :=
        ends_fetch (c := c) hl hb (Bool.eq_false_iff.mpr hf)
      cases hbuffer : t.buffer with
      | nil =>
        have hnil := hdone hbuffer
        refine ⟨t, ?_, by rw [← hrest, hnil]; rfl, hlimit⟩
        rw [← hrest, hnil]
        refine Always.bind ht ?_
        simp only [hbuffer]
        exact Always.pure _
      | cons x buffer =>
        refine ⟨{ t with buffer := buffer }, ?_, ?_, hlimit⟩
        · rw [← hrest, rest, hbuffer]
          refine Always.bind ht ?_
          simp only [hbuffer]
          exact Always.pure _
        · rw [← hrest, rest, rest, hbuffer]
          rfl

/-- The next cell of several streams is the first of their rests. -/
theorem ends_pull {streams : List CellStream} (hl : Paged streams) :
    ∃ streams' : List CellStream,
      Ends (pull c.ledger streams) (.ok ((rests c streams).head?, streams')) ∧
      rests c streams' = (rests c streams).tail ∧ Paged streams' := by
  induction streams with
  | nil => exact ⟨[], Ends.pure _, rfl, hl⟩
  | cons s streams ih =>
    obtain ⟨hs, hstreams⟩ := List.forall_mem_cons.mp hl
    obtain ⟨t, ht, hrest, hlimit⟩ := always_next (c := c) hs
    have hrests : rests c (s :: streams) = s.rest c ++ rests c streams := List.flatMap_cons
    rw [hrests]
    cases hr : s.rest c with
    | nil =>
      obtain ⟨streams', hpull, hrests', hl'⟩ := ih hstreams
      rw [hr] at ht
      exact ⟨streams', (Ends.of_lift ht).bind hpull, hrests', hl'⟩
    | cons x xs =>
      rw [hr] at ht hrest
      refine ⟨t :: streams, (Ends.of_lift ht).bind (Ends.pure _), ?_,
        List.forall_mem_cons.mpr ⟨hlimit ▸ hs, hstreams⟩⟩
      change (t :: streams).flatMap (rest c) = _
      rw [List.flatMap_cons, hrest]
      rfl

/-- The first accepted cell of the rests is found. -/
theorem ends_find (accept : LiveCell → Bool) {fuel : Nat} {streams : List CellStream}
    (hl : Paged streams) (hf : (rests c streams).length < fuel) :
    ∃ streams' : List CellStream,
      Ends (find c.ledger accept fuel streams) (.ok ((rests c streams).find? accept, streams')) ∧
      rests c streams' = ((rests c streams).dropWhile (!accept ·)).tail ∧ Paged streams' := by
  induction fuel generalizing streams with
  | zero => exact absurd hf (Nat.not_lt_zero _)
  | succ fuel ih =>
    obtain ⟨streams₁, hpull, hrests₁, hl₁⟩ := ends_pull (c := c) hl
    rw [CellStream.find]
    cases hr : rests c streams with
    | nil =>
      rw [hr] at hpull hrests₁
      exact ⟨streams₁, hpull.ask.bind (Ends.pure _), hrests₁, hl₁⟩
    | cons x xs =>
      rw [hr] at hpull hrests₁ hf
      by_cases hx : accept x = true
      · refine ⟨streams₁, hpull.ask.bind ?_, ?_, hl₁⟩
        · rw [List.find?_cons_of_pos hx]
          simp only [List.head?_cons, hx, if_true]
          exact Ends.pure _
        · rw [List.dropWhile_cons_of_neg (by rw [hx]; exact Bool.false_ne_true)]
          exact hrests₁
      · obtain ⟨streams', hfind, hrests', hl'⟩ := ih hl₁ (by
          rw [hrests₁]
          exact Nat.lt_of_succ_lt_succ hf)
        rw [hrests₁] at hfind hrests'
        refine ⟨streams', hpull.ask.bind ?_, ?_, hl'⟩
        · rw [List.find?_cons_of_neg hx]
          simp only [List.head?_cons, hx]
          exact hfind
        · rw [List.dropWhile_cons_of_pos (by rw [Bool.not_eq_true] at hx; rw [hx]; rfl)]
          exact hrests'

/-- Nothing comes of streams whose pages are empty. -/
theorem ends_pull_of_limit_zero {streams : List CellStream}
    (h : ∀ s ∈ streams, s.limit = 0 ∧ s.buffer = []) :
    Ends (pull c.ledger streams) (.ok (none, [])) := by
  induction streams with
  | nil => exact Ends.pure _
  | cons s streams ih =>
    obtain ⟨⟨hl, hb⟩, hstreams⟩ := List.forall_mem_cons.mp h
    have hnext : ∃ t, Always (s.next c.ledger) (none, t) := by
      have hcells : Ends (c.ledger.cells s.key s.order s.limit s.cursor)
          (.ok (c.page s.key s.order s.limit s.cursor)) := fun n => ⟨n + 1, rfl⟩
      have hfetch : Ends (s.fetch c.ledger) (.ok { s with finished := true }) := by
        refine hcells.bind ?_
        rw [if_pos (by rw [hl]; rfl)]
        exact Ends.pure _
      unfold next
      simp only [hb]
      split
      · exact ⟨s, Always.pure _⟩
      · refine ⟨{ s with finished := true }, Always.bind hfetch ?_⟩
        simp only [hb]
        exact Always.pure _
    obtain ⟨t, ht⟩ := hnext
    exact (Ends.of_lift ht).bind (ih hstreams)

/-- All of the rests are drained. -/
theorem ends_drain {fuel : Nat} {streams : List CellStream} (hl : Paged streams)
    (hf : (rests c streams).length < fuel) :
    Ends (drain c.ledger fuel streams) (.ok (rests c streams)) := by
  induction fuel generalizing streams with
  | zero => exact absurd hf (Nat.not_lt_zero _)
  | succ fuel ih =>
    obtain ⟨streams₁, hpull, hrests₁, hl₁⟩ := ends_pull (c := c) hl
    rw [drain]
    cases hr : rests c streams with
    | nil =>
      rw [hr] at hpull
      exact hpull.ask.bind (Ends.pure _)
    | cons x xs =>
      rw [hr] at hpull hrests₁ hf
      have hdrain := ih hl₁ (by
        rw [hrests₁]
        exact Nat.lt_of_succ_lt_succ hf)
      rw [hrests₁] at hdrain
      exact hpull.ask.bind (hdrain.bind (Ends.pure _))

end CellStream

/-! ## Searches -/

namespace Assembler

variable {c : Chain} {a : Assembler Nat}

/-- A stream that has not started delivers the live cells that its search accepts. -/
theorem rest_stream (c : Chain) (a : Assembler Nat) (key : SearchKey) :
    (a.stream key).rest c = (c.live.filter key.accepts).map key.report := by
  have hremaining : (c.remaining key .oldestFirst none).map Prod.fst =
      c.live.filter key.accepts := by
    have hfst : c.live.zipIdx.map Prod.fst = c.live := List.zipIdx_map_fst 0 c.live
    conv => rhs; rw [← hfst, List.filter_map]
    rfl
  rw [← hremaining, List.map_map]
  rfl

/-- Searches that report cells with their data deliver the live cells that they accept. -/
theorem rests_streams (a : Assembler Nat) {keys : List SearchKey}
    (h : ∀ key ∈ keys, key.withData = true) :
    CellStream.rests c (keys.map a.stream) =
      keys.flatMap fun key => c.live.filter key.accepts := by
  rw [CellStream.rests, List.flatMap_map, List.flatMap_def, List.flatMap_def]
  refine congrArg List.flatten (List.map_congr_left fun key hkey => ?_)
  have hreport : key.report = id := by
    funext x
    rw [SearchKey.report, if_pos (h key hkey)]
    rfl
  rw [rest_stream, hreport, List.map_id]

theorem rests_single (a : Assembler Nat) {key : SearchKey} (h : key.withData = true) :
    CellStream.rests c ([key].map a.stream) = c.live.filter key.accepts := by
  rw [rests_streams a (List.forall_mem_singleton.mpr h), List.flatMap_singleton]

theorem paged_stream (h : a.pageSize ≠ 0) (keys : List SearchKey) :
    CellStream.Paged (keys.map a.stream) := by
  intro s hs
  obtain ⟨key, -, rfl⟩ := List.mem_map.mp hs
  exact fun h0 => h (UInt32.toNat_inj.mp h0)

/-- The bound of a walk exceeds what it delivers. -/
theorem length_rests_lt_bound (ha : a.ledger = c.ledger) (keys : List SearchKey) :
    (CellStream.rests c (keys.map a.stream)).length <
      CellStream.bound a.ledger (keys.map a.stream) := by
  have hle : (CellStream.rests c (keys.map a.stream)).length ≤ keys.length * c.live.length := by
    induction keys with
    | nil => exact Nat.zero_le _
    | cons key keys ih =>
      have hkey : ((a.stream key).rest c).length ≤ c.live.length := by
        rw [rest_stream, List.length_map]
        exact List.length_filter_le _ _
      change ((a.stream key).rest c ++ CellStream.rests c (keys.map a.stream)).length ≤ _
      rw [List.length_append, List.length_cons, Nat.succ_mul]
      omega
  rw [CellStream.bound, ha, List.length_map]
  exact Nat.lt_succ_of_le hle

end Assembler

end CellTx
