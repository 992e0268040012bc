import CellTx.Proofs.Held
import CellTx.Proofs.Recovery

/-!
# What a history keeps

A chain that goes on from another one by its operations (`Chain.Leads`), where every transaction
that comes along has as many outputs as an out point can tell apart and no hash of a different one
(`Chain.Admits`).

Results:
* `Leads.output?`, `Leads.spentBy?`: such a history keeps every output and every list of spent cells
  that was ever stored.
* `Leads.stored`: from the first block on, all live cells are stored outputs.
* `senderOf?_of_first`: so what the sender of a cheque was recovered from stays where it is.

Out of scope: histories in which two transactions have one hash.
-/

namespace CellTx

namespace Chain

/-- A transaction that can come along: its outputs have out points of their own, and its hash names
no transaction that spends or makes something else. -/
structure Admits (c : Chain) (t : Transaction) : Prop where
  indexed : t.outputs.length ≤ UInt32.size
  same : ∀ u, c.transaction? t.hash = some u →
    u.transaction.spent = t.spent ∧ u.transaction.outputs = t.outputs

/-- One chain goes on from another. -/
inductive Leads (c : Chain) : Chain → Prop
  | refl : Leads c c
  | insertHeader {d : Chain} (h : Header) (earlier : Leads c d) : Leads c (d.insertHeader h)
  | commit {d : Chain} {t : Transaction} (h : Header) (admits : d.Admits t)
      (earlier : Leads c d) : Leads c (d.commit t h)
  | fund {d : Chain} (cells : List Cell) (admits : d.Admits (funding (d.fundings + 1) cells))
      (earlier : Leads c d) : Leads c (d.fund cells).2

/-- The cells that the transaction with a hash spent. -/
def spentBy? (c : Chain) (hash : Hash) : Option (List OutPoint) :=
  (c.transaction? hash).map (·.transaction.spent)

/-! ## One commit -/

theorem transaction?_commit (c : Chain) (t : Transaction) (h : Header) (hash : Hash) :
    (c.commit t h).transaction? hash =
      if hash = t.hash then some ⟨t, some h.hash⟩ else c.transaction? hash := by
  change ((t.hash, CommittedTransaction.mk t (some h.hash)) :: c.transactions).lookup hash = _
  rw [List.lookup_cons]
  by_cases heq : hash = t.hash
  · rw [if_pos heq, beq_iff_eq.mpr heq]
  · rw [if_neg heq, beq_false_of_ne heq]
    rfl

/-- A transaction under a new hash can come along. -/
theorem admits_of_new {c : Chain} {t : Transaction} (hnew : c.transaction? t.hash = none)
    (hlength : t.outputs.length ≤ UInt32.size) : c.Admits t := by
  refine ⟨hlength, fun u hu => ?_⟩
  rw [hnew] at hu
  exact nomatch hu

/-- An output of the committed transaction. -/
theorem output?_commit_self (c : Chain) (t : Transaction) (h : Header) (i : UInt32) :
    (c.commit t h).output? ⟨t.hash, i⟩ = t.outputs[i.toNat]? := by
  rw [output?, transaction?_commit, if_pos rfl]
  rfl

variable {c d : Chain} {t : Transaction} {h : Header}

theorem Admits.output? (ht : c.Admits t) {p : OutPoint} {cell : Cell}
    (hp : c.output? p = some cell) : (c.commit t h).output? p = some cell := by
  rw [Chain.output?, transaction?_commit]
  split
  · rename_i heq
    rw [Chain.output?, heq] at hp
    cases hu : c.transaction? t.hash with
    | none =>
      rw [hu] at hp
      cases hp
    | some u =>
      rw [hu] at hp
      change t.outputs[p.index.toNat]? = some cell
      rw [← (ht.same u hu).2]
      exact hp
  · exact hp

theorem Admits.spentBy? (ht : c.Admits t) {hash : Hash} {spent : List OutPoint}
    (hs : c.spentBy? hash = some spent) : (c.commit t h).spentBy? hash = some spent := by
  rw [Chain.spentBy?, transaction?_commit]
  split
  · rename_i heq
    obtain ⟨u, hu, rfl⟩ := Option.map_eq_some_iff.mp hs
    rw [heq] at hu
    exact congrArg some (ht.same u hu).1.symm
  · exact hs

/-- The new live cells are the outputs of the transaction. -/
theorem Admits.stored (ht : c.Admits t) (hc : c.Stored) : (c.commit t h).Stored := by
  intro x hx
  rcases List.mem_append.mp hx with hx | hx
  · exact ht.output? (hc x (List.mem_filter.mp hx).1)
  · obtain ⟨⟨cell, i⟩, hi, rfl⟩ := List.mem_map.mp hx
    have hcell : t.outputs[i]? = some cell := List.mk_mem_zipIdx_iff_getElem?.mp hi
    have hlt : i < UInt32.size :=
      Nat.lt_of_lt_of_le (List.getElem?_eq_some_iff.mp hcell).1 ht.indexed
    rw [output?_commit_self, UInt32.toNat_ofNat_of_lt' hlt]
    exact hcell

/-! ## Histories -/

theorem stored_new : Chain.new.Stored := fun _ hx => absurd hx List.not_mem_nil

/-- What every operation keeps, a history keeps. -/
theorem Leads.keeps {I : Chain → Prop} (hl : c.Leads d) (hc : I c)
    (headers : ∀ d h, I d → I (d.insertHeader h))
    (fundings : ∀ (d : Chain) n, I d → I { d with fundings := n })
    (commits : ∀ (d : Chain) t h, d.Admits t → I d → I (d.commit t h)) : I d := by
  induction hl with
  | refl => exact hc
  | insertHeader h _ ih => exact headers _ h ih
  | commit h admits _ ih => exact commits _ _ h admits ih
  | fund cells admits _ ih =>
    exact commits _ _ genesis ⟨admits.indexed, admits.same⟩ (fundings _ _ ih)

theorem Leads.stored (hl : c.Leads d) (hc : c.Stored) : d.Stored :=
  hl.keeps hc (fun _ _ hd => hd) (fun _ _ hd => hd) fun _ _ _ ht hd => ht.stored hd

theorem Leads.output? (hl : c.Leads d) {p : OutPoint} {cell : Cell}
    (hp : c.output? p = some cell) : d.output? p = some cell :=
  hl.keeps (I := fun d => d.output? p = some cell) hp (fun _ _ hd => hd) (fun _ _ hd => hd)
    fun _ _ _ ht hd => ht.output? hd

theorem Leads.spentBy? (hl : c.Leads d) {hash : Hash} {spent : List OutPoint}
    (hs : c.spentBy? hash = some spent) : d.spentBy? hash = some spent :=
  hl.keeps (I := fun d => d.spentBy? hash = some spent) hs (fun _ _ hd => hd) (fun _ _ hd => hd)
    fun _ _ _ ht hd => ht.spentBy? hd

/-- The sender of a cheque whose transaction spent a cell of the sender first. -/
theorem senderOf?_of_first {p q : OutPoint} {rest : List OutPoint} {cell : Cell}
    {args : ChequeArgs} (hs : c.spentBy? p.txHash = some (q :: rest))
    (hq : c.output? q = some cell) (hsender : args.isSender cell.lock = true) :
    c.senderOf? p args = some cell.lock := by
  obtain ⟨t, ht, hspent⟩ := Option.map_eq_some_iff.mp hs
  have hlocks : c.locksOf t.transaction.spent = cell.lock :: c.locksOf rest := by
    rw [hspent, locksOf, List.filterMap_cons, hq]
    rfl
  rw [senderOf?, ht]
  change (c.locksOf t.transaction.spent).find? args.isSender = _
  rw [hlocks, List.find?_cons_of_pos hsender]

end Chain

end CellTx
