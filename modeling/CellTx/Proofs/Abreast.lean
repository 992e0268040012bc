import CellTx.Proofs.Delivery
import CellTx.Proofs.Histories
import CellTx.Proofs.Recording
import CellTx.Proofs.Records
import Mathlib.Data.List.Forall2

/-!
# Two chains walked abreast

A chain that harbours foreign cells has more live cells than another, so that the same search has
other cursors, other pages and, with another page size, other numbers of requests. Still two walks
deliver the same cells as long as the searches they ask for match no foreign cell. A walk that is
not asked may differ in what it would deliver (`Abreast`).

Results:
* `Chain.follows_pull`: the two walks take the same cell next, and are abreast again.
* `Chain.mirrors_ledger`, `Node.mirrors_unreachable`: `Ledger.MirroredBy`, which says of two ledgers
  all that a construction relies on, holds of such chains, and of nodes whose chains cannot be
  reached.
* `Chain.Harbours.commit`, `Chain.Harbours.commit_foreign`: such chains come about when other
  people's transactions are committed in between.

Out of scope: foreign cells that a search does match, which may change everything.
-/

namespace CellTx

variable {σ : Type} {α : Type}

/-! ## Ledgers that mirror each other -/

/-- The assembler that asks a ledger for pages of some size, with the settings of another. -/
def Assembler.over (a : Assembler σ) (l : Ledger σ) (pageSize : UInt32) : Assembler σ :=
  { a with ledger := l, pageSize := pageSize }

/-- What one call takes from two walks that have at most `n` cells left: nothing, or a cell that is
the same in both and that no made transaction made. -/
inductive Stepped (made : Hash → Prop) (abreast : Nat → List CellStream → List CellStream → Prop)
    (n : Nat) : Option LiveCell × List CellStream → Option LiveCell × List CellStream → Prop
  | ended (ss ts : List CellStream) : Stepped made abreast n (none, ss) (none, ts)
  | cell {m : Nat} {c : LiveCell} {ss ts : List CellStream} (fewer : m < n)
      (known : ¬ made c.outPoint.txHash) (still : abreast m ss ts) :
      Stepped made abreast n (some c, ss) (some c, ts)

/-- Two ledgers that answer alike: lookups by hashes that are not `made`, and walks that begin with
the page sizes `p` and `q` and ask for quiet searches only. -/
structure Ledger.MirroredBy (quiet : SearchKey → Prop) (made : Hash → Prop)
    (abreast : Nat → List CellStream → List CellStream → Prop) (p q : UInt32)
    (l l' : Ledger σ) : Prop where
  header (hash : Hash) : ∃ r, Ends (l.header hash) r ∧ Ends (l'.header hash) r
  transaction (hash : Hash) : ¬ made hash →
    ∃ r, Ends (l.transaction hash) r ∧ Ends (l'.transaction hash) r ∧
      ∀ t, r = .ok (some t) → ∀ x ∈ t.transaction.spent, ¬ made x.txHash
  maximumWithdraw (x : OutPoint) (block : Hash) : ¬ made x.txHash →
    ∃ r, Ends (l.maximumWithdraw x block) r ∧ Ends (l'.maximumWithdraw x block) r
  pull (n : Nat) (ss ts : List CellStream) :
    Mirrors quiet (abreast n ss ts) (Stepped made abreast n)
      (CellStream.pull l.recorded ss) (CellStream.pull l' ts)
  start (a : Assembler σ) (keys : List SearchKey) :
    ∃ n < CellStream.bound l (keys.map (a.over l p).stream),
      abreast n (keys.map (a.over l p).stream) (keys.map (a.over l' q).stream)
  span : l.span ≤ l'.span

/-! ## Walks on record -/

namespace CellStream

/-- The next call asks for a page. -/
def Asks (s : CellStream) : Prop := s.buffer = [] ∧ s.finished = false

instance (s : CellStream) : Decidable s.Asks :=
  inferInstanceAs (Decidable (s.buffer = [] ∧ s.finished = false))

/-- The key that the next call puts on record. -/
def asked (s : CellStream) : List SearchKey := if s.Asks then [s.key] else []

theorem run_fetch_recorded (l : Ledger σ) (s : CellStream) (w : Recorded σ) :
    (s.fetch l.recorded).run.run w =
      (((s.fetch l).run.run w.world).1,
        ⟨((s.fetch l).run.run w.world).2, w.searches ++ [s.key]⟩) := by
  have hcells : (l.recorded.cells s.key s.order s.limit s.cursor).run.run w =
      (((l.cells s.key s.order s.limit s.cursor).run.run w.world).1,
        ⟨((l.cells s.key s.order s.limit s.cursor).run.run w.world).2,
          w.searches ++ [s.key]⟩) := Query.run_recorded _ _ w
  unfold fetch
  rcases hrun : (l.cells s.key s.order s.limit s.cursor).run.run w.world with ⟨e | page, w₁⟩
  · rw [hrun] at hcells
    rw [run_bind_error hrun, run_bind_error hcells]
  · rw [hrun] at hcells
    rw [run_bind_ok hrun, run_bind_ok hcells]
    split <;> rfl

/-- A record changes nothing in what a stream delivers. -/
theorem run_next_recorded (l : Ledger σ) (s : CellStream) (w : Recorded σ) :
    (s.next l.recorded).run w =
      (((s.next l).run w.world).1, ⟨((s.next l).run w.world).2, w.searches ++ s.asked⟩) := by
  unfold next
  cases hb : s.buffer with
  | cons c cells =>
    have hasked : s.asked = [] := if_neg (by simp [Asks, hb])
    rw [hasked, List.append_nil]
    rfl
  | nil =>
    by_cases hend : s.finished = true
    · have hasked : s.asked = [] := if_neg (by simp [Asks, hend])
      rw [hasked, List.append_nil, if_pos hend, if_pos hend]
      rfl
    have hasked : s.asked = [s.key] := if_pos ⟨hb, Bool.eq_false_iff.mpr hend⟩
    simp only [hasked, hend, Bool.false_eq_true, if_false]
    rw [StateT.run_bind, run_fetch_recorded, StateT.run_bind]
    rcases (s.fetch l).run.run w.world with ⟨e | ⟨key, order, limit, cursor, held, done⟩, w₁⟩
    · rfl
    · cases held <;> rfl

/-- What several streams do once the first of them has answered. -/
def pullFrom (l : Ledger σ) (rest : List CellStream) :
    Option (Except QueryError LiveCell) × CellStream → Query σ (Option LiveCell × List CellStream)
  | (some (.ok c), s) => pure (some c, s :: rest)
  | (some (.error e), _) => throw e
  | (none, _) => pull l rest

theorem run_pull_cons (l : Ledger σ) (s : CellStream) (rest : List CellStream) (w : σ) :
    (pull l (s :: rest)).run.run w =
      (pullFrom l rest ((s.next l).run w).1).run.run ((s.next l).run w).2 := rfl

variable {quiet : SearchKey → Prop} {made : Hash → Prop}

theorem Grows.pullFrom {l : Ledger σ} {rest : List CellStream} (h : Grows (pull l.recorded rest)) :
    (next : Option (Except QueryError LiveCell) × CellStream) →
      Grows (pullFrom l.recorded rest next)
  | (some (.ok c), s) => Grows.of_result (.ok (some c, s :: rest))
  | (some (.error e), _) => Grows.of_result (.error e)
  | (none, _) => h

/-- What the first stream asks for stays on record. -/
theorem asked_subset {l : Ledger σ} {rest : List CellStream} (h : Grows (pull l.recorded rest))
    (s : CellStream) (w : Recorded σ) :
    w.searches ++ s.asked ⊆ ((pull l.recorded (s :: rest)).run.run w).2.searches := by
  rw [run_pull_cons, run_next_recorded]
  exact Grows.pullFrom h ((s.next l).run w.world).1
    ⟨((s.next l).run w.world).2, w.searches ++ s.asked⟩

theorem grows_pull (l : Ledger σ) (streams : List CellStream) :
    Grows (pull l.recorded streams) := by
  induction streams with
  | nil => exact Grows.of_result (.ok (none, []))
  | cons s rest ih =>
    intro w
    exact List.Subset.trans (List.subset_append_left w.searches s.asked) (asked_subset ih s w)

end CellStream

/-! ## Chains with foreign cells -/

/-- The second list is the first with elements inserted, each of which has a property. -/
inductive Inserted (p : α → Prop) : List α → List α → Prop
  | nil : Inserted p [] []
  | keep (x : α) {l m : List α} (rest : Inserted p l m) : Inserted p (x :: l) (x :: m)
  | insert (x : α) {l m : List α} (inserted : p x) (rest : Inserted p l m) : Inserted p l (x :: m)

namespace Inserted

variable {p : α → Prop} {l l' m m' : List α}

theorem refl (p : α → Prop) (l : List α) : Inserted p l l := by
  induction l with
  | nil => exact .nil
  | cons x l ih => exact .keep x ih

theorem of_forall (h : ∀ x ∈ m, p x) : Inserted p [] m := by
  induction m with
  | nil => exact .nil
  | cons x m ih =>
    obtain ⟨hx, hm⟩ := List.forall_mem_cons.mp h
    exact .insert x hx (ih hm)

theorem append (h : Inserted p l m) (h' : Inserted p l' m') :
    Inserted p (l ++ l') (m ++ m') := by
  induction h with
  | nil => exact h'
  | keep x _ ih => exact .keep x ih
  | insert x hx _ ih => exact .insert x hx ih

theorem filter (f : α → Bool) (h : Inserted p l m) : Inserted p (l.filter f) (m.filter f) := by
  induction h with
  | nil => exact .nil
  | keep x _ ih =>
    rw [List.filter_cons, List.filter_cons]
    split
    · exact .keep x ih
    · exact ih
  | insert x hx _ ih =>
    rw [List.filter_cons]
    split
    · exact .insert x hx ih
    · exact ih

theorem filter_eq (h : Inserted p l m) {f : α → Bool} (hf : ∀ x, p x → f x = false) :
    m.filter f = l.filter f := by
  induction h with
  | nil => rfl
  | keep x _ ih => rw [List.filter_cons, List.filter_cons, ih]
  | insert x hx _ ih => rw [List.filter_cons_of_neg (by simp [hf x hx]), ih]

theorem length_le (h : Inserted p l m) : l.length ≤ m.length := by
  induction h with
  | nil => exact Nat.le_refl _
  | keep x _ ih => exact Nat.succ_le_succ ih
  | insert x _ _ ih => exact Nat.le_succ_of_le ih

end Inserted

namespace Chain

/-- The chain `d` is `c` but for foreign live cells, and but for the transactions whose hashes are
`made`, which `c` neither knows nor spends from. -/
structure Harbours (made : Hash → Prop) (foreign : LiveCell → Prop) (c d : Chain) : Prop where
  header (hash : Hash) : d.header? hash = c.header? hash
  live : Inserted foreign c.live d.live
  transaction (hash : Hash) : ¬ made hash → d.transaction? hash = c.transaction? hash
  unknown (hash : Hash) : made hash → c.transaction? hash = none
  unspent (hash : Hash) (t : CommittedTransaction) : c.transaction? hash = some t →
    ∀ x ∈ t.transaction.spent, ¬ made x.txHash

namespace Harbours

variable {made : Hash → Prop} {foreign : LiveCell → Prop} {c d : Chain}

/-- A chain that knows of no made transaction harbours nothing. -/
theorem self (hunknown : ∀ hash, made hash → c.transaction? hash = none)
    (hunspent : ∀ hash t, c.transaction? hash = some t →
      ∀ x ∈ t.transaction.spent, ¬ made x.txHash) : c.Harbours made foreign c where
  header _ := rfl
  live := .refl foreign c.live
  transaction _ _ := rfl
  unknown := hunknown
  unspent := hunspent

theorem refl (c : Chain) : c.Harbours (fun _ => False) (fun _ => False) c :=
  .self (fun _ => False.elim) fun _ _ _ _ _ => id

/-- Both chains commit a transaction that knows of no made one. -/
theorem commit (hc : c.Harbours made foreign d) {t : Transaction} (hhash : ¬ made t.hash)
    (hspent : ∀ x ∈ t.spent, ¬ made x.txHash) (h : Header) :
    (c.commit t h).Harbours made foreign (d.commit t h) where
  header hash := by
    change (d.insertHeader h).header? hash = (c.insertHeader h).header? hash
    rw [header?_insertHeader, header?_insertHeader, hc.header]
  live := (hc.live.filter _).append (.refl foreign _)
  transaction hash hmade := by
    rw [transaction?_commit, transaction?_commit, hc.transaction hash hmade]
  unknown hash hmade := by
    have hne : hash ≠ t.hash := fun heq => hhash (heq ▸ hmade)
    rw [transaction?_commit, if_neg hne]
    exact hc.unknown hash hmade
  unspent hash u hu := by
    rw [transaction?_commit] at hu
    split at hu
    · obtain rfl := Option.some.inj hu
      exact hspent
    · exact hc.unspent hash u hu

/-- The second chain alone commits a made transaction, whose cells are foreign, in a known block. -/
theorem commit_foreign (hc : c.Harbours made foreign d) {t : Transaction} {h : Header}
    (hhash : made t.hash) (hspent : ∀ x ∈ c.live, x.outPoint ∉ t.spent)
    (hforeign : ∀ x ∈ Chain.made t h, foreign x) (hknown : d.header? h.hash = some h) :
    c.Harbours made foreign (d.commit t h) where
  header hash := by
    change (d.insertHeader h).header? hash = c.header? hash
    rw [header?_insertHeader, ← hc.header]
    split
    · rename_i heq
      rw [heq, hknown]
    · rfl
  live := by
    have hkept : c.live.filter (fun cell => !t.spent.contains cell.outPoint) = c.live :=
      List.filter_eq_self.mpr fun x hx => by simp [hspent x hx]
    have hlive := (hc.live.filter fun cell => !t.spent.contains cell.outPoint).append
      (Inserted.of_forall hforeign)
    rwa [hkept, List.append_nil] at hlive
  transaction hash hmade := by
    have hne : hash ≠ t.hash := fun heq => hmade (heq ▸ hhash)
    rw [transaction?_commit, if_neg hne]
    exact hc.transaction hash hmade
  unknown := hc.unknown
  unspent := hc.unspent

end Harbours

/-- The transaction of a live cell is known. -/
theorem Built.transaction?_of_live {c : Chain} (hc : c.Built) :
    ∀ x ∈ c.live, c.transaction? x.outPoint.txHash ≠ none := by
  have hcommit : ∀ (c : Chain) (t : Transaction) (h : Header),
      (∀ x ∈ c.live, c.transaction? x.outPoint.txHash ≠ none) →
      ∀ x ∈ (c.commit t h).live, (c.commit t h).transaction? x.outPoint.txHash ≠ none := by
    intro c t h ih x hx
    rw [transaction?_commit]
    rcases List.mem_append.mp hx with hx | hx
    · split
      · exact nofun
      · exact ih x (List.mem_filter.mp hx).1
    · obtain ⟨⟨cell, i⟩, -, rfl⟩ := List.mem_map.mp hx
      rw [if_pos rfl]
      exact nofun
  induction hc with
  | new => exact fun x hx => absurd hx List.not_mem_nil
  | insertHeader h _ ih => exact ih
  | commit t h _ ih => exact hcommit _ t h ih
  | @fund c cells _ ih => exact hcommit { c with fundings := c.fundings + 1 } _ _ ih

end Chain

/-! ## Walks over two chains -/

section

variable {quiet : SearchKey → Prop} {made : Hash → Prop} {foreign : LiveCell → Prop} {A B : Chain}

/-- Two streams that have the same cells left, unless the first asks for a search that is not quiet
next. -/
structure Abreast (quiet : SearchKey → Prop) (made : Hash → Prop) (A B : Chain)
    (s t : CellStream) : Prop where
  pages : s.limit ≠ 0 ∧ t.limit ≠ 0
  known : ∀ x ∈ s.rest A, ¬ made x.outPoint.txHash
  rest : s.rest A = t.rest B ∨ s.Asks ∧ ¬ quiet s.key

namespace Abreast

variable {s t : CellStream}

theorem rest_eq (h : Abreast quiet made A B s t) (hquiet : ∀ key ∈ s.asked, quiet key) :
    s.rest A = t.rest B := by
  rcases h.rest with heq | ⟨hasks, hloud⟩
  · exact heq
  · refine absurd (hquiet s.key ?_) hloud
    rw [CellStream.asked, if_pos hasks]
    exact List.mem_singleton_self s.key

/-- Both streams deliver the first of what is left, and are abreast then. -/
theorem next (h : Abreast quiet made A B s t) (heq : s.rest A = t.rest B) :
    ∃ s' t' : CellStream, Always (s.next A.ledger) ((s.rest A).head?.map .ok, s') ∧
      Always (t.next B.ledger) ((s.rest A).head?.map .ok, t') ∧
      s'.rest A = (s.rest A).tail ∧ Abreast quiet made A B s' t' := by
  obtain ⟨s', hs, hrest, hlimit⟩ := CellStream.always_next (c := A) h.pages.1
  obtain ⟨t', ht, hrest', hlimit'⟩ := CellStream.always_next (c := B) h.pages.2
  rw [← heq] at ht hrest'
  refine ⟨s', t', hs, ht, hrest, ⟨hlimit ▸ h.pages.1, hlimit' ▸ h.pages.2⟩, fun x hx => ?_,
    Or.inl (hrest.trans hrest'.symm)⟩
  rw [hrest] at hx
  exact h.known x (List.mem_of_mem_tail hx)

end Abreast

namespace Chain

/-- Streams abreast, one by one, that have at most `n` cells left. -/
def WalksAbreast (quiet : SearchKey → Prop) (made : Hash → Prop) (A B : Chain) (n : Nat)
    (ss ts : List CellStream) : Prop :=
  List.Forall₂ (Abreast quiet made A B) ss ts ∧ (CellStream.rests A ss).length ≤ n

/-- Walks abreast deliver the same next cell. -/
theorem follows_pull {n : Nat} {ss ts : List CellStream} (h : WalksAbreast quiet made A B n ss ts) :
    Follows quiet (Stepped made (WalksAbreast quiet made A B) n)
      (CellStream.pull A.ledger.recorded ss) (CellStream.pull B.ledger ts) := by
  obtain ⟨h, hn⟩ := h
  induction h with
  | nil => exact fun w _ => ⟨_, Ends.pure _, .ok (.ended [] [])⟩
  | @cons s t ss ts hst hrest ih =>
    intro w hquiet
    have heq := hst.rest_eq fun key hkey => hquiet key
      (CellStream.asked_subset (CellStream.grows_pull _ _) s w (List.mem_append_right _ hkey))
    obtain ⟨s', t', hs, ht, hrest', hst'⟩ := hst.next heq
    obtain ⟨w', hw'⟩ := hs w.world
    have hnext : (s.next A.ledger.recorded).run w =
        (((s.rest A).head?.map .ok, s'), ⟨w', w.searches ++ s.asked⟩) := by
      rw [CellStream.run_next_recorded, hw']
    rw [CellStream.run_pull_cons, hnext] at hquiet ⊢
    have hrests : CellStream.rests A (s :: ss) = s.rest A ++ CellStream.rests A ss :=
      List.flatMap_cons
    rw [hrests, List.length_append] at hn
    cases hr : s.rest A with
    | nil =>
      rw [hr] at hquiet ht
      obtain ⟨r, hend, halike⟩ := ih (by omega) _ hquiet
      exact ⟨r, (Ends.of_lift ht).bind hend, halike⟩
    | cons x xs =>
      rw [hr] at ht hrest' hn
      refine ⟨.ok (some x, t' :: ts), (Ends.of_lift ht).bind (Ends.pure _), .ok ?_⟩
      refine .cell (m := xs.length + (CellStream.rests A ss).length) ?_ ?_ ⟨.cons hst' hrest, ?_⟩
      · rw [List.length_cons] at hn
        omega
      · exact hst.known x (hr ▸ List.mem_cons_self)
      · have hleft : CellStream.rests A (s' :: ss) = xs ++ CellStream.rests A ss := by
          rw [CellStream.rests, List.flatMap_cons, hrest']
          rfl
        exact Nat.le_of_eq (by rw [hleft, List.length_append])

/-- Streams that have not started are abreast. -/
theorem walksAbreast_start (hA : A.Built) (h : A.Harbours made foreign B)
    (hquiet : ∀ key, quiet key → ∀ x, foreign x → key.accepts x = false) {p q : UInt32}
    (hp : p ≠ 0) (hq : q ≠ 0) (a : Assembler Nat) (keys : List SearchKey) :
    List.Forall₂ (Abreast quiet made A B) (keys.map (a.over A.ledger p).stream)
      (keys.map (a.over B.ledger q).stream) := by
  rw [List.forall₂_map_left_iff, List.forall₂_map_right_iff]
  refine List.forall₂_same.mpr fun key _ => ⟨⟨?_, ?_⟩, fun x hx => ?_, ?_⟩
  · exact fun h0 => hp (UInt32.toNat_inj.mp h0)
  · exact fun h0 => hq (UInt32.toNat_inj.mp h0)
  · rw [Assembler.rest_stream] at hx
    obtain ⟨y, hy, rfl⟩ := List.mem_map.mp hx
    have hknown := hA.transaction?_of_live y (List.mem_filter.mp hy).1
    have hpoint : (key.report y).outPoint = y.outPoint := by
      unfold SearchKey.report
      split <;> rfl
    rw [hpoint]
    exact fun hmade => hknown (h.unknown _ hmade)
  · by_cases hkey : quiet key
    · left
      rw [Assembler.rest_stream, Assembler.rest_stream, h.live.filter_eq (hquiet key hkey)]
    · exact Or.inr ⟨⟨rfl, rfl⟩, hkey⟩

theorem mirrors_ledger (hA : A.Built) (h : A.Harbours made foreign B)
    (hquiet : ∀ key, quiet key → ∀ x, foreign x → key.accepts x = false) {p q : UInt32}
    (hp : p ≠ 0) (hq : q ≠ 0) :
    A.ledger.MirroredBy quiet made (WalksAbreast quiet made A B) p q B.ledger where
  header hash := by
    refine ⟨.ok (A.header? hash), Ends.pure _, ?_⟩
    rw [← h.header hash]
    exact Ends.pure _
  transaction hash hmade := by
    refine ⟨.ok (A.transaction? hash), Ends.pure _, ?_, fun t ht => ?_⟩
    · rw [← h.transaction hash hmade]
      exact Ends.pure _
    · exact h.unspent hash t (Except.ok.inj ht)
  maximumWithdraw x block hmade := by
    refine ⟨A.maximumWithdraw x block, Always.pure _, ?_⟩
    have heq : B.maximumWithdraw x block = A.maximumWithdraw x block := by
      simp only [maximumWithdraw, h.transaction _ hmade, h.header]
    rw [← heq]
    exact Always.pure _
  pull n ss ts := ⟨CellStream.grows_pull _ _, follows_pull⟩
  start a keys :=
    ⟨_, Assembler.length_rests_lt_bound (a := a.over A.ledger p) rfl keys,
      walksAbreast_start hA h hquiet hp hq a keys, Nat.le_refl _⟩
  span := h.live.length_le

end Chain

end

/-! ## Nodes that cannot be reached -/

namespace Node

/-- A node whose chain cannot be reached. -/
def unreachable (c : Chain) : Node := { chain := c, offline := true }

theorem ends_cells_unreachable (c : Chain) (key : SearchKey) (order : Order) (limit : Nat)
    (after : Option Nat) :
    Ends ((unreachable c).ledger.cells key order limit after) (.error .refused) := by
  intro n
  cases after <;> exact ⟨n, rfl⟩

/-- A stream that asks for a page is refused. -/
theorem always_next_unreachable (c : Chain) {s : CellStream} (h : s.Asks) :
    ∃ t, Always (s.next (unreachable c).ledger) (some (.error .refused), t) := by
  obtain ⟨hb, hf⟩ := h
  have hfetch : Ends (s.fetch (unreachable c).ledger) (.error .refused) :=
    Ends.bind_error _ (ends_cells_unreachable c s.key s.order s.limit s.cursor)
  refine ⟨{ s with finished := true }, ?_⟩
  unfold CellStream.next
  simp only [hb, hf, Bool.false_eq_true, if_false]
  exact Always.bind hfetch (Always.pure _)

/-- Streams that have not started, one by one. -/
def WalksUnasked (_ : Nat) (ss ts : List CellStream) : Prop :=
  List.Forall₂ (fun s t => s.Asks ∧ t.Asks) ss ts

theorem follows_pull_unreachable (quiet : SearchKey → Prop) (made : Hash → Prop) (A B : Chain)
    {n : Nat} {ss ts : List CellStream} (h : WalksUnasked n ss ts) :
    Follows quiet (Stepped made WalksUnasked n)
      (CellStream.pull (unreachable A).ledger.recorded ss)
      (CellStream.pull (unreachable B).ledger ts) := by
  intro w _
  cases h with
  | nil => exact ⟨_, Ends.pure _, .ok (.ended [] [])⟩
  | @cons s t ss ts hst hrest =>
    obtain ⟨s', hs⟩ := always_next_unreachable A hst.1
    obtain ⟨t', ht⟩ := always_next_unreachable B hst.2
    obtain ⟨w', hw'⟩ := hs w.world
    rw [CellStream.run_pull_cons, CellStream.run_next_recorded, hw']
    exact ⟨.error .refused, (Ends.of_lift ht).bind (Ends.throw _), .error _⟩

/-- Nodes whose chains cannot be reached refuse everything alike. -/
theorem mirrors_unreachable (quiet : SearchKey → Prop) (made : Hash → Prop) (p q : UInt32)
    {A B : Chain} (hlive : A.live.length ≤ B.live.length) :
    (unreachable A).ledger.MirroredBy quiet made WalksUnasked p q (unreachable B).ledger where
  header _ := ⟨.error .refused, fun n => ⟨n, rfl⟩, fun n => ⟨n, rfl⟩⟩
  transaction _ _ := ⟨.error .refused, fun n => ⟨n, rfl⟩, fun n => ⟨n, rfl⟩, nofun⟩
  maximumWithdraw _ _ _ := ⟨.error .refused, fun n => ⟨n, rfl⟩, fun n => ⟨n, rfl⟩⟩
  pull n ss ts := ⟨CellStream.grows_pull _ _, follows_pull_unreachable quiet made A B⟩
  start a keys := by
    refine ⟨0, Nat.succ_pos _, ?_⟩
    rw [WalksUnasked, List.forall₂_map_left_iff, List.forall₂_map_right_iff]
    exact List.forall₂_same.mpr fun key _ => ⟨⟨rfl, rfl⟩, rfl, rfl⟩
  span := hlive

end Node

end CellTx
