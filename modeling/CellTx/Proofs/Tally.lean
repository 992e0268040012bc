import CellTx.Cheque.Claim
import CellTx.Cheque.Withdraw
import CellTx.Proofs.Refunds
import CellTx.Proofs.Walk
import Mathlib.Algebra.GroupWithZero.Nat

/-!
# Counting cheques

What a claim of cheques does to the cells that its search delivers, cell by cell (`Tallies`): a cell
that is no cheque for the receiver is skipped, any other is counted with its sender and what it
holds (`CountedCheque`).

Results:
* `Assembler.tallies_of_tally`: a tally that succeeds has counted so.
* `Tallies.cheques_eq`, `Tallies.amount_eq`, `Tallies.refunds_eq`: the tally is read off the counted
  cheques.
* `Assembler.findCheques_spec`, `Assembler.findCheque_spec`: what the first phases of a claim and of
  a withdrawal have found.

Out of scope: counts that fail (`CellTx.Proofs.RememberedSenders`).
-/

namespace CellTx

variable {σ : Type}

/-- A counted cheque: its args, its sender and the tokens that it holds. -/
structure CountedCheque where
  cheque : LiveCell
  args : ChequeArgs
  sender : Script
  amount : TokenAmount

namespace CountedCheque

/-- What is credited for the cheque. -/
def credit (e : CountedCheque) : Script × Capacity := (e.sender, e.cheque.cell.capacity)

end CountedCheque

namespace ClaimTally

theorem fits_eq_ok {α : Type} {f : Failure} {o : Option α} {x : α} :
    fits f o = .ok x ↔ o = some x := by
  cases o with
  | none => exact ⟨nofun, nofun⟩
  | some y => exact ⟨fun h => congrArg some (Except.ok.inj h), fun h => by cases h; rfl⟩

/-- What counting one cheque does to a tally. -/
theorem add_eq_ok {t t' : ClaimTally} {c : LiveCell} {sender : Script} {amount : TokenAmount}
    (h : t.add c sender amount = .ok t') :
    t'.cheques = t.cheques ++ [c] ∧ t'.amount.toNat = t.amount.toNat + amount.toNat ∧
      t'.capacity.toNat = t.capacity.toNat + c.cell.capacity.toNat ∧
      t.refunds.credit sender c.cell.capacity = .ok t'.refunds ∧ t'.senders = t.senders := by
  obtain ⟨total, htotal, h⟩ := except_bind_eq_ok.mp h
  obtain ⟨refunds, hrefunds, h⟩ := except_bind_eq_ok.mp h
  obtain ⟨capacity, hcapacity, h⟩ := except_bind_eq_ok.mp h
  obtain rfl := Except.ok.inj h
  exact ⟨rfl, TokenAmount.add?_eq_some_iff.mp (fits_eq_ok.mp htotal),
    Capacity.add?_eq_some_iff.mp (fits_eq_ok.mp hcapacity), hrefunds, rfl⟩

end ClaimTally

/-- The tally of some cells, with the cheques that were counted. -/
inductive Tallies (a : Assembler σ) (sudt : Script) (receiver : Bytes) :
    ClaimTally → List LiveCell → List CountedCheque → ClaimTally → Prop
  | done (t : ClaimTally) : Tallies a sudt receiver t [] [] t
  | skip {t t' : ClaimTally} {c : LiveCell} {cells : List LiveCell}
      {counted : List CountedCheque} (other : chequeArgsFor sudt receiver c = none)
      (rest : Tallies a sudt receiver t cells counted t') :
      Tallies a sudt receiver t (c :: cells) counted t'
  | count {t t₁ t₂ t' : ClaimTally} {e : CountedCheque} {cells : List LiveCell}
      {counted : List CountedCheque} (args : chequeArgsFor sudt receiver e.cheque = some e.args)
      (amount : TokenAmount.ofData? e.cheque.cell.data = some e.amount)
      (sender : Yields (a.senderOf t e.cheque e.args) (e.sender, t₁))
      (added : t₁.add e.cheque e.sender e.amount = .ok t₂)
      (rest : Tallies a sudt receiver t₂ cells counted t') :
      Tallies a sudt receiver t (e.cheque :: cells) (e :: counted) t'

namespace Assembler

variable {a : Assembler σ}

theorem tallies_of_tally {sudt : Script} {receiver : Bytes} {cells : List LiveCell}
    {t t' : ClaimTally} (h : Yields (a.tally sudt receiver t cells) t') :
    ∃ counted, Tallies a sudt receiver t cells counted t' := by
  induction cells generalizing t with
  | nil =>
    rw [h.of_pure]
    exact ⟨[], .done t⟩
  | cons c cells ih =>
    rw [tally] at h
    split at h
    · rename_i hother
      obtain ⟨counted, hrest⟩ := ih h
      exact ⟨counted, .skip hother hrest⟩
    · rename_i args hargs
      obtain ⟨amount, hamount, h⟩ := h.bind
      obtain ⟨⟨sender, t₁⟩, hsender, h⟩ := h.bind
      obtain ⟨t₂, hadd, h⟩ := h.bind
      obtain ⟨counted, hrest⟩ := ih h
      let e : CountedCheque := ⟨c, args, sender, amount⟩
      exact ⟨e :: counted, .count (e := e) hargs
        (TokenAmount.ofData?_eq_some_iff.mpr hamount.of_decoded) hsender hadd.of_ofExcept hrest⟩

/-- A sender is known, or is recovered and known from then on. -/
theorem senderOf_spec {t t' : ClaimTally} {c : LiveCell} {args : ChequeArgs} {sender : Script}
    (h : Yields (a.senderOf t c args) (sender, t')) :
    (t.senders.lookup args = some sender ∧ t' = t) ∨
      (t.senders.lookup args = none ∧ Yields (recoverSender a.ledger c.outPoint args) sender ∧
        t' = { t with senders := (args, sender) :: t.senders }) := by
  unfold senderOf at h
  split at h
  · rename_i lock hlock
    obtain ⟨rfl, rfl⟩ := Prod.mk.inj h.of_pure
    exact Or.inl ⟨hlock, rfl⟩
  · rename_i hnone
    obtain ⟨lock, hrecover, h⟩ := h.bind
    obtain ⟨rfl, rfl⟩ := Prod.mk.inj h.of_pure
    exact Or.inr ⟨hnone, hrecover, rfl⟩

/-- Looking a sender up changes nothing but the senders that are known. -/
theorem senderOf_frame {t t' : ClaimTally} {c : LiveCell} {args : ChequeArgs} {sender : Script}
    (h : Yields (a.senderOf t c args) (sender, t')) :
    t'.cheques = t.cheques ∧ t'.amount = t.amount ∧ t'.capacity = t.capacity ∧
      t'.refunds = t.refunds := by
  rcases senderOf_spec h with ⟨-, rfl⟩ | ⟨-, -, rfl⟩
  · exact ⟨rfl, rfl, rfl, rfl⟩
  · exact ⟨rfl, rfl, rfl, rfl⟩

end Assembler

theorem hasType_of_chequeArgsFor {sudt : Script} {receiver : Bytes} {c : LiveCell}
    {args : ChequeArgs} (h : chequeArgsFor sudt receiver c = some args) :
    c.cell.hasType sudt = true ∧ args.receiver = receiver ∧
      ChequeArgs.ofBytes c.cell.lock.args = .ok args := by
  unfold chequeArgsFor at h
  split at h
  · exact nomatch h
  · rename_i args' hargs
    split at h
    · rename_i hcond
      obtain rfl := Option.some.inj h
      rw [Bool.and_eq_true, decide_eq_true_eq] at hcond
      exact ⟨hcond.1, hcond.2, hargs⟩
    · exact nomatch h

namespace Tallies

variable {a : Assembler σ} {sudt : Script} {receiver : Bytes} {t t' : ClaimTally}
  {cells : List LiveCell} {counted : List CountedCheque}

/-- The counted cheques are the cells that are cheques for the receiver. -/
theorem counted_eq (h : Tallies a sudt receiver t cells counted t') :
    counted.map CountedCheque.cheque =
      cells.filter fun c => (chequeArgsFor sudt receiver c).isSome := by
  induction h with
  | done => rfl
  | skip hother _ ih =>
    rw [List.filter_cons_of_neg (by rw [hother]; exact Bool.false_ne_true)]
    exact ih
  | @count _ _ _ _ e _ _ hargs _ _ _ _ ih =>
    rw [List.filter_cons_of_pos (by rw [hargs]; rfl), ← ih]
    rfl

theorem cheques_eq (h : Tallies a sudt receiver t cells counted t') :
    t'.cheques = t.cheques ++ counted.map CountedCheque.cheque := by
  induction h with
  | done => exact (List.append_nil _).symm
  | skip _ _ ih => exact ih
  | @count _ _ _ _ e _ counted _ _ hsender hadd _ ih =>
    rw [ih, (ClaimTally.add_eq_ok hadd).1, (Assembler.senderOf_frame hsender).1, List.append_assoc]
    rfl

theorem amount_eq (h : Tallies a sudt receiver t cells counted t') :
    t'.amount.toNat = t.amount.toNat + (counted.map fun e => e.amount.toNat).sum := by
  induction h with
  | done => rfl
  | skip _ _ ih => exact ih
  | count _ _ hsender hadd _ ih =>
    rw [ih, (ClaimTally.add_eq_ok hadd).2.1, (Assembler.senderOf_frame hsender).2.1,
      List.map_cons, List.sum_cons, Nat.add_assoc]

theorem refunds_eq (h : Tallies a sudt receiver t cells counted t') :
    t.refunds.credits (counted.map CountedCheque.credit) = .ok t'.refunds := by
  induction h with
  | done => rfl
  | skip _ _ ih => exact ih
  | @count _ _ t₂ _ e _ _ _ _ hsender hadd _ ih =>
    have hcredit := (ClaimTally.add_eq_ok hadd).2.2.2.1
    rw [(Assembler.senderOf_frame hsender).2.2.2] at hcredit
    exact except_bind_eq_ok.mpr ⟨t₂.refunds, hcredit, ih⟩

/-- Each counted cheque is a cheque for the receiver, and holds what was counted. -/
theorem counted_spec (h : Tallies a sudt receiver t cells counted t') :
    ∀ e ∈ counted, chequeArgsFor sudt receiver e.cheque = some e.args ∧
      TokenAmount.ofData? e.cheque.cell.data = some e.amount := by
  induction h with
  | done => exact fun e he => absurd he List.not_mem_nil
  | skip _ _ ih => exact ih
  | count hargs hamount _ _ _ ih => exact List.forall_mem_cons.mpr ⟨⟨hargs, hamount⟩, ih⟩

theorem amounts_eq (h : Tallies a sudt receiver t cells counted t') :
    counted.map (fun e => TokenAmount.ofData? e.cheque.cell.data) =
      (counted.map CountedCheque.amount).map some := by
  rw [List.map_map]
  exact List.map_congr_left fun e he => (h.counted_spec e he).2

end Tallies

/-! ## Finding cheques -/

namespace Assembler

variable {a : Assembler σ}

/-- A claim counts the cells of its search; there is a cheque among them. -/
theorem findCheques_spec {receiver : Script} {owner : Hash} {t : ClaimTally}
    (h : Yields (a.findCheques receiver owner) t) :
    ∃ cells counted,
      Yields (CellStream.drain a.ledger
        (CellStream.bound a.ledger [a.stream (a.scripts.chequeSearch receiver.hashHead owner)])
        [a.stream (a.scripts.chequeSearch receiver.hashHead owner)]) cells ∧
      Tallies a (a.scripts.sudtType owner) receiver.hashHead {} cells counted t ∧
      t.cheques ≠ [] := by
  obtain ⟨cells, hdrain, h⟩ := h.bind
  obtain ⟨t', htally, h⟩ := h.bind
  obtain ⟨counted, hcounted⟩ := tallies_of_tally htally
  split at h
  · exact absurd h not_yields_throw
  · rename_i hne
    obtain rfl := h.of_pure
    exact ⟨cells, counted, hdrain, hcounted, fun hnil => hne (by rw [hnil]; rfl)⟩

/-- Every cheque of a claim was reported to its search. -/
theorem reported_of_findCheques {receiver : Script} {owner : Hash} {t : ClaimTally}
    (h : Yields (a.findCheques receiver owner) t) :
    ∀ c ∈ t.cheques, a.ledger.Reports (a.scripts.chequeSearch receiver.hashHead owner) c := by
  obtain ⟨cells, counted, hdrain, htallies, -⟩ := findCheques_spec h
  intro c hc
  rw [htallies.cheques_eq, htallies.counted_eq] at hc
  have hmem := (List.mem_filter.mp hc).1
  obtain ⟨key, hkey, hrep⟩ :=
    (walks_stream a.ledger a [_]).drain hdrain c hmem
  rwa [List.mem_singleton.mp hkey] at hrep

/-- A cheque that is found was reported, and is the one that is asked for. -/
theorem findCheque_spec {r : ChequeRequest} {c : LiveCell} (h : Yields (a.findCheque r) c) :
    r.isAsked a.scripts c = true ∧
      a.ledger.Reports (a.scripts.chequeSearch r.args.bytes r.owner) c := by
  obtain ⟨⟨o, rest⟩, hfind, h⟩ := h.bind
  cases o with
  | none => exact absurd h not_yields_throw
  | some c' =>
    obtain rfl := h.of_pure
    obtain ⟨-, hc⟩ := (walks_stream a.ledger a [_]).find hfind
    obtain ⟨hasked, key, hkey, hrep⟩ := hc c rfl
    rw [List.mem_singleton.mp hkey] at hrep
    exact ⟨hasked, hrep⟩

end Assembler

end CellTx
