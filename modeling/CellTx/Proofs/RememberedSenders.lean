import CellTx.Proofs.ClaimedCheques
import CellTx.Proofs.Failing
import CellTx.Proofs.Tokens

/-!
# Senders that a claim remembers

A claim recovers a sender once for each args and remembers it for the other cheques with these args
(specification, section 14), although these may have been made by other transactions. So a cheque
that cannot be recovered is claimed when one with the same args comes before it that can.

Results:
* `Assembler.ends_tally`: a tally counts all cheques, or ends at the first one of some args that
  cannot be recovered.
* `Assembler.ends_or_failsOnly_claimCheques`: a claim gives up if and only if there is such a one
  (`Assembler.GivesUp`).
* `Assembler.givesUp_relists_iff`: whether it does is a matter of the order in which the chain lists
  the cheques, unless all of them can be recovered or, for some args, none.
* `Assembler.claim_remembers_senders`: the exact condition, and that refunds go to the first
  cheque's sender.
* `Assembler.claim_spends_unrecovered`: a claim that spends a cheque nobody was recovered for.

Out of scope: claims whose sums do not fit, or with cheques that hold no amount
(`Chain.CountsCheques` excludes them).
-/

namespace CellTx

/-! ## Sums that fit -/

theorem Capacity.total_perm {l m : List Capacity} (h : l.Perm m) : total l = total m := by
  induction h with
  | nil => rfl
  | cons _ _ ih => rw [total_cons, total_cons, ih]
  | swap => simp only [total_cons, Nat.add_left_comm]
  | trans _ _ ih₁ ih₂ => exact ih₁.trans ih₂

/-- A credit that fits the total is granted. -/
theorem Refunds.exists_credit {sender : Script} {capacity : Capacity} {r : Refunds}
    (h : Capacity.total (r.map Prod.snd) + capacity.toNat < UInt64.size) :
    ∃ r', credit sender capacity r = .ok r' := by
  cases hcredit : credit sender capacity r with
  | ok r' => exact ⟨r', rfl⟩
  | error f =>
    have howed := owed_le_total sender r
    have hrefused := (credit_eq_error_iff.mp hcredit).2
    omega

/-- Some cheques can be counted: their data are amounts, and what they hold fits what is counted so
far. All that is counted is owed to somebody. -/
structure ClaimTally.Fits (t : ClaimTally) (sudt : Script) (cheques : List LiveCell) : Prop where
  readable : ∀ x ∈ cheques, (TokenAmount.ofData? x.cell.data).isSome = true
  tokens : t.amount.toNat + tokensIn sudt (cheques.map LiveCell.cell) < TokenAmount.size
  capacity : t.capacity.toNat +
    Capacity.total (cheques.map fun x => x.cell.capacity) < UInt64.size
  owed : Capacity.total (t.refunds.map Prod.snd) = t.capacity.toNat

/-- A cheque that fits is counted, and the others still fit then. -/
theorem ClaimTally.Fits.add {t : ClaimTally} {sudt : Script} {x : LiveCell}
    {cheques : List LiveCell} {amount : TokenAmount} (h : t.Fits sudt (x :: cheques))
    (htype : x.cell.hasType sudt = true)
    (hdata : TokenAmount.ofData? x.cell.data = some amount) (sender : Script) :
    ∃ t', t.add x sender amount = .ok t' ∧ t'.senders = t.senders ∧ t'.Fits sudt cheques := by
  obtain ⟨-, hreadable⟩ := List.forall_mem_cons.mp h.readable
  have htokens := h.tokens
  have hcapacity := h.capacity
  have howed := h.owed
  rw [List.map_cons, tokensIn_cons, Cell.tokens_of_ofData htype hdata] at htokens
  rw [List.map_cons, Capacity.total_cons] at hcapacity
  obtain ⟨total, htotal⟩ := TokenAmount.exists_add? (a := t.amount) (b := amount) (by omega)
  obtain ⟨refunds, hrefunds⟩ : ∃ r, t.refunds.credit sender x.cell.capacity = .ok r :=
    Refunds.exists_credit (by omega)
  obtain ⟨sum, hsum⟩ := Capacity.exists_add? (a := t.capacity) (b := x.cell.capacity) (by omega)
  have hadd : t.add x sender amount = .ok
      { t with cheques := t.cheques ++ [x], capacity := sum, amount := total, refunds := refunds } :=
    except_bind_eq_ok.mpr ⟨total, fits_eq_ok.mpr htotal, except_bind_eq_ok.mpr ⟨refunds, hrefunds,
      except_bind_eq_ok.mpr ⟨sum, fits_eq_ok.mpr hsum, rfl⟩⟩⟩
  refine ⟨_, hadd, rfl, hreadable, ?_, ?_, ?_⟩
  · rw [TokenAmount.add?_eq_some_iff.mp htotal]
    omega
  · rw [Capacity.add?_eq_some_iff.mp hsum]
    omega
  · rw [Refunds.total_credit hrefunds, Capacity.add?_eq_some_iff.mp hsum, howed]

/-! ## Counting -/

/-- The cheques with the same args as a given one. -/
theorem chequeArgsFor_eq_iff {sudt : Script} {head : Bytes} {x y : LiveCell} {args : ChequeArgs}
    (hx : chequeArgsFor sudt head x = some args) :
    chequeArgsFor sudt head y = some args ↔
      (chequeArgsFor sudt head y).isSome = true ∧ y.cell.lock.args = x.cell.lock.args := by
  have hxargs := (hasType_of_chequeArgsFor hx).2.2
  constructor
  · intro hy
    have hyargs := (hasType_of_chequeArgsFor hy).2.2
    exact ⟨by rw [hy]; rfl, by
      rw [← ChequeArgs.bytes_of_ofBytes hyargs, ChequeArgs.bytes_of_ofBytes hxargs]⟩
  · rintro ⟨hsome, hsame⟩
    obtain ⟨args', hy⟩ := Option.isSome_iff_exists.mp hsome
    have hyargs := (hasType_of_chequeArgsFor hy).2.2
    rw [hsame, hxargs] at hyargs
    rw [hy, Except.ok.inj hyargs]

namespace Assembler

variable {c : Chain} {a : Assembler Nat}

/-- A sender is known from then on, or nothing with the args was known and it is not recovered. -/
theorem ends_senderOf (ha : a.ledger = c.ledger) (t : ClaimTally) (x : LiveCell)
    (args : ChequeArgs) :
    (∃ lock senders, Ends (a.senderOf t x args) (.ok (lock, { t with senders := senders })) ∧
      ∀ other, senders.lookup other = none → other ≠ args ∧ t.senders.lookup other = none) ∨
    t.senders.lookup args = none ∧ c.senderOf? x.outPoint args = none ∧
      Ends (a.senderOf t x args) (.error (.unknownSender x.outPoint)) := by
  rw [senderOf]
  cases hlookup : t.senders.lookup args with
  | some lock =>
    refine Or.inl ⟨lock, t.senders, Ends.pure _, fun other hother => ⟨?_, hother⟩⟩
    rintro rfl
    rw [hlookup] at hother
    exact absurd hother (Option.some_ne_none lock)
  | none =>
    have hrecover := ends_recoverSender c x.outPoint args
    rw [← ha] at hrecover
    cases hs : c.senderOf? x.outPoint args with
    | none =>
      rw [hs] at hrecover
      exact Or.inr ⟨rfl, rfl, hrecover.bind_error _⟩
    | some lock =>
      rw [hs] at hrecover
      refine Or.inl ⟨lock, (args, lock) :: t.senders, hrecover.bind (Ends.pure _),
        fun other hother => ?_⟩
      rw [List.lookup_cons] at hother
      split at hother
      · exact absurd hother (Option.some_ne_none lock)
      · exact ⟨ne_of_beq_false ‹_›, hother⟩

section Step

variable {sudt : Script} {head : Bytes} {x : LiveCell} {cells : List LiveCell} {t : ClaimTally}
  {args : ChequeArgs} {amount : TokenAmount}

/-- A cheque that is counted, and the cells after it. -/
theorem ends_tally_cons (hargs : chequeArgsFor sudt head x = some args)
    (hdata : TokenAmount.ofData? x.cell.data = some amount) {sender : Script} {t₁ t₂ : ClaimTally}
    (hsender : Ends (a.senderOf t x args) (.ok (sender, t₁)))
    (hadd : t₁.add x sender amount = .ok t₂) {r : Except Failure ClaimTally}
    (hrest : Ends (a.tally sudt head t₂ cells) r) :
    Ends (a.tally sudt head t (x :: cells)) r := by
  rw [tally, hargs]
  simp only [TokenAmount.ofData?_eq_some_iff.mp hdata]
  refine (ends_decoded_ok amount).bind (hsender.bind (Ends.bind ?_ hrest))
  rw [hadd]
  exact Ends.pure t₂

/-- A cheque without sender ends the count. -/
theorem ends_tally_cons_error (hargs : chequeArgsFor sudt head x = some args)
    (hdata : TokenAmount.ofData? x.cell.data = some amount) {f : Failure}
    (hsender : Ends (a.senderOf t x args) (.error f)) :
    Ends (a.tally sudt head t (x :: cells)) (.error f) := by
  rw [tally, hargs]
  simp only [TokenAmount.ofData?_eq_some_iff.mp hdata]
  exact (ends_decoded_ok amount).bind (hsender.bind_error _)

end Step

/-- Cells whose cheques can be counted are counted, unless the sender of the first cheque with some
new args cannot be recovered. -/
theorem ends_tally (ha : a.ledger = c.ledger) {sudt : Script} {head : Bytes}
    {cells : List LiveCell} {t : ClaimTally}
    (hfits : t.Fits sudt (cells.filter fun x => (chequeArgsFor sudt head x).isSome)) :
    (∃ t', Ends (a.tally sudt head t cells) (.ok t')) ∨
      ∃ x args, cells.find? (chequeArgsFor sudt head · = some args) = some x ∧
        t.senders.lookup args = none ∧ c.senderOf? x.outPoint args = none ∧
          Ends (a.tally sudt head t cells) (.error (.unknownSender x.outPoint)) := by
  induction cells generalizing t with
  | nil => exact Or.inl ⟨t, Ends.pure t⟩
  | cons x cells ih =>
    cases hargs : chequeArgsFor sudt head x with
    | none =>
      rw [List.filter_cons_of_neg (by rw [hargs]; exact Bool.false_ne_true)] at hfits
      rw [tally, hargs]
      refine (ih hfits).imp id ?_
      rintro ⟨y, args, hfind, hy⟩
      exact ⟨y, args, by rw [List.find?_cons_of_neg (by simp [hargs]), hfind], hy⟩
    | some args =>
      rw [List.filter_cons_of_pos (by rw [hargs]; rfl)] at hfits
      obtain ⟨amount, hdata⟩ := Option.isSome_iff_exists.mp (hfits.readable x List.mem_cons_self)
      rcases ends_senderOf ha t x args with ⟨lock, senders, hsender, hknown⟩ | ⟨hnew, hnone, herror⟩
      · have hfits₁ : ({ t with senders := senders } : ClaimTally).Fits sudt _ :=
          ⟨hfits.readable, hfits.tokens, hfits.capacity, hfits.owed⟩
        obtain ⟨t₂, hadd, hsenders, hfits₂⟩ :=
          hfits₁.add (hasType_of_chequeArgsFor hargs).1 hdata lock
        rcases ih hfits₂ with ⟨t', hends⟩ | ⟨y, other, hfind, hlookup, hy, hends⟩
        · exact Or.inl ⟨t', ends_tally_cons hargs hdata hsender hadd hends⟩
        · -- the args of a cheque that is not recovered are none that are known
          rw [hsenders] at hlookup
          obtain ⟨hne, hlookup⟩ := hknown other hlookup
          refine Or.inr ⟨y, other, ?_, hlookup, hy, ends_tally_cons hargs hdata hsender hadd hends⟩
          rw [List.find?_cons_of_neg (by simpa [hargs] using hne.symm), hfind]
      · exact Or.inr ⟨x, args, List.find?_cons_of_pos (by simpa using hargs), hnew, hnone,
          ends_tally_cons_error hargs hdata herror⟩

end Assembler

/-! ## Claims -/

namespace Chain

/-- The sender of a cheque, as the chain recovers it from the transaction that made this cheque. -/
def recovered? (c : Chain) (x : LiveCell) : Option Script := do
  let args ← (ChequeArgs.ofBytes x.cell.lock.args).toOption
  c.senderOf? x.outPoint args

/-- The cheques of a token for a receiver can be counted: their data are amounts, and what they hold
fits the widths. -/
structure CountsCheques (c : Chain) (scripts : SystemScripts) (receiver : Script)
    (owner : Hash) : Prop where
  readable : ∀ x ∈ c.chequesFor scripts receiver owner,
    (TokenAmount.ofData? x.cell.data).isSome = true
  tokens : tokensIn (scripts.sudtType owner)
    ((c.chequesFor scripts receiver owner).map LiveCell.cell) < TokenAmount.size
  capacity : Capacity.total
    ((c.chequesFor scripts receiver owner).map fun x => x.cell.capacity) < UInt64.size

variable {c : Chain}

theorem attributed?_eq (c : Chain) (cheques : List LiveCell) (x : LiveCell) :
    c.attributed? cheques x =
      (cheques.find? (·.cell.lock.args = x.cell.lock.args)).bind c.recovered? := rfl

theorem recovered?_eq {x : LiveCell} {args : ChequeArgs}
    (h : ChequeArgs.ofBytes x.cell.lock.args = .ok args) :
    c.recovered? x = c.senderOf? x.outPoint args := by
  rw [recovered?, h]
  rfl

end Chain

namespace Assembler

variable {c : Chain} {a : Assembler Nat} {receiver : Script} {owner : Hash}

/-- A claim gives up on a cheque whose sender is unknown. -/
def GivesUp (a : Assembler Nat) (receiver : Script) (owner : Hash) : Prop :=
  ∃ f, Reaches (a.claimCheques receiver owner).run (.error f) ∧ f.kind = .senderLockNotFound

/-- A claim of cheques that can be counted gives up because of a cheque, the first with its args, that
cannot be recovered; or all cheques are attributed, and it fails for other reasons only. -/
theorem ends_or_failsOnly_claimCheques (ha : a.ledger = c.ledger) (hp : a.pageSize ≠ 0)
    (hcount : c.CountsCheques a.scripts receiver owner) :
    let cheques := c.chequesFor a.scripts receiver owner
    (∃ x ∈ cheques, c.attributed? cheques x = none ∧ c.recovered? x = none ∧
      Ends (a.claimCheques receiver owner) (.error (.unknownSender x.outPoint))) ∨
    (∀ x ∈ cheques, c.attributed? cheques x ≠ none) ∧
      FailsOnly (fun f => f.kind ≠ .senderLockNotFound) (a.claimCheques receiver owner) := by
  intro cheques
  let sudt := a.scripts.sudtType owner
  let key := a.scripts.chequeSearch receiver.hashHead owner
  have hdrain := ends_drain_cheques ha hp key rfl
  have hcheques : cheques = _ := c.chequesFor_eq_filter a.scripts receiver owner
  have hfits : ({} : ClaimTally).Fits sudt ((c.live.filter key.accepts).filter fun x =>
      (chequeArgsFor sudt receiver.hashHead x).isSome) := by
    rw [← hcheques]
    exact ⟨hcount.readable, (Nat.zero_add _).trans_lt hcount.tokens,
      (Nat.zero_add _).trans_lt hcount.capacity, rfl⟩
  rcases ends_tally ha hfits with ⟨t, htally⟩ | ⟨x, args, hfind, -, hnone, htally⟩
  · right
    constructor
    · obtain ⟨counted, htallies⟩ := tallies_of_tally htally.yields
      intro x hx
      have hcounted : counted.map CountedCheque.cheque = cheques :=
        htallies.counted_eq.trans hcheques.symm
      rw [← hcounted] at hx ⊢
      obtain ⟨e, he, rfl⟩ := List.mem_map.mp hx
      rw [attributed?_of_counted ha htallies e he]
      exact Option.some_ne_none _
    · refine failsOnly_claimCheques (fun f hf hkind => ?_) ?_
      · rw [Failure.OfBalancing, hkind] at hf
        exact absurd hf (by decide)
      · refine FailsOnly.bind hdrain.failsOnly fun cells hcells => ?_
        obtain rfl := hdrain.eq hcells
        refine FailsOnly.bind htally.failsOnly fun t' _ => ?_
        split
        · exact FailsOnly.throw (by simp [Failure.kind])
        · exact FailsOnly.pure _
  · left
    have hargs : chequeArgsFor sudt receiver.hashHead x = some args := by
      simpa using List.find?_some hfind
    have hx : x ∈ cheques := by
      rw [hcheques]
      exact List.mem_filter.mpr ⟨List.mem_of_find?_eq_some hfind, by rw [hargs]; rfl⟩
    have hrecovered : c.recovered? x = none :=
      (Chain.recovered?_eq (hasType_of_chequeArgsFor hargs).2.2).trans hnone
    have hfirst : cheques.find? (·.cell.lock.args = x.cell.lock.args) = some x := by
      rw [hcheques, List.find?_filter, ← hfind]
      refine List.find?_congr fun y _ => ?_
      rw [Bool.eq_iff_iff, decide_eq_true_eq, decide_eq_true_eq, decide_eq_true_eq]
      exact (chequeArgsFor_eq_iff hargs).symm
    refine ⟨x, hx, ?_, hrecovered, ?_⟩
    · rw [Chain.attributed?_eq, hfirst]
      exact hrecovered
    · have hinit : Ends (a.findCheques receiver owner) (.error (.unknownSender x.outPoint)) :=
        hdrain.bind (htally.bind_error _)
      have hdraft : Ends (a.claimChequesFlow receiver owner).draft
          (.error (.unknownSender x.outPoint)) := hinit.bind_error _
      exact hdraft.bind_error _

/-- What the cheques that are found come to: each is attributed to a sender, and each sender is owed
what its cheques hold. -/
theorem sent_of_findCheques (ha : a.ledger = c.ledger) (hp : a.pageSize ≠ 0) {t : ClaimTally}
    (h : Yields (a.findCheques receiver owner) t) :
    ∃ sent : List (LiveCell × Script),
      sent.map Prod.fst = c.chequesFor a.scripts receiver owner ∧
      (∀ e ∈ sent, c.attributed? (sent.map Prod.fst) e.1 = some e.2) ∧
      (∀ e ∈ sent, ∃ amount, TokenAmount.ofData? e.1.cell.data = some amount) ∧
      Refunds.keys t.refunds = (sent.map Prod.snd).eraseDups ∧
      ∀ e ∈ t.refunds, e.2.toNat =
        Capacity.total ((sent.filter (·.2 = e.1)).map fun e => e.1.cell.capacity) := by
  obtain ⟨cells, counted, htallies, hcheques⟩ := counted_of_findCheques ha hp h
  obtain ⟨hkeys, howed, -⟩ := refunds_of_counted htallies
  have hfst : (counted.map fun e => (e.cheque, e.sender)).map Prod.fst =
      counted.map CountedCheque.cheque := by
    rw [List.map_map]
    rfl
  refine ⟨counted.map fun e => (e.cheque, e.sender), hfst.trans hcheques, fun e he => ?_,
    fun e he => ?_, ?_, fun e he => ?_⟩
  · obtain ⟨f, hf, rfl⟩ := List.mem_map.mp he
    rw [hfst]
    exact attributed?_of_counted ha htallies f hf
  · obtain ⟨f, hf, rfl⟩ := List.mem_map.mp he
    exact ⟨f.amount, (htallies.counted_spec f hf).2⟩
  · rw [List.map_map]
    exact hkeys
  · refine (howed e he).trans ?_
    rw [List.filter_map, List.map_map]
    rfl

/-- What a claim refunds: to each sender what the cheques held that are attributed to it. -/
theorem refunds_of_claimCheques (ha : a.ledger = c.ledger) (hp : a.pageSize ≠ 0) {r : Assembled}
    (h : Yields (a.claimCheques receiver owner) r) :
    ∃ (sent : List (LiveCell × Script)) (claimed : Cell) (refunds change : List Cell),
      sent.map Prod.fst = c.chequesFor a.scripts receiver owner ∧
      (∀ e ∈ sent, c.attributed? (sent.map Prod.fst) e.1 = some e.2) ∧
      r.transaction.outputs = claimed :: refunds ++ change ∧
      refunds.map Cell.lock = (sent.map Prod.snd).eraseDups ∧
      ∀ x ∈ refunds, x.capacity.toNat =
        Capacity.total ((sent.filter (·.2 = x.lock)).map fun e => e.1.cell.capacity) := by
  obtain ⟨o, hopens, hcompletes⟩ := Construction.anatomy_claimCheques h
  obtain ⟨_, change, -, houtputs⟩ := hcompletes.first
  cases hopens with
  | @claimCheques _ _ t found =>
  obtain ⟨sent, hcheques, hsent, -, hkeys, howed⟩ := sent_of_findCheques ha hp found
  refine ⟨sent, _, t.refunds.map fun e => Cell.plain e.1 e.2, change, hcheques, hsent, houtputs,
    ?_, fun x hx => ?_⟩
  · rw [List.map_map]
    exact hkeys
  · obtain ⟨e, he, rfl⟩ := List.mem_map.mp hx
    exact howed e he

end Assembler

/-! ## Orders -/

namespace Chain

/-- Two chains have the same transactions and the same live cells, in whatever order. -/
structure Relists (d c : Chain) : Prop where
  live : d.live.Perm c.live
  transactions : d.transactions = c.transactions

variable {c d : Chain} {scripts : SystemScripts} {receiver : Script} {owner : Hash}

theorem Relists.recovered? (h : d.Relists c) (x : LiveCell) :
    d.recovered? x = c.recovered? x := by
  simp only [Chain.recovered?, senderOf?, locksOf, output?, transaction?, h.transactions]

theorem Relists.cheques (h : d.Relists c) :
    (d.chequesFor scripts receiver owner).Perm (c.chequesFor scripts receiver owner) :=
  h.live.filter _

theorem Relists.countsCheques (h : d.Relists c) (hc : c.CountsCheques scripts receiver owner) :
    d.CountsCheques scripts receiver owner := by
  have hperm : (d.chequesFor scripts receiver owner).Perm _ := h.cheques
  refine ⟨fun x hx => hc.readable x (hperm.mem_iff.mp hx), ?_, ?_⟩
  · rw [tokensIn, List.map_map, (hperm.map _).sum_nat, ← List.map_map]
    exact hc.tokens
  · rw [Capacity.total_perm (hperm.map _)]
    exact hc.capacity

/-- A cheque is attributed to what is recovered for one with the same args. -/
theorem exists_attributed?_eq (c : Chain) {cheques : List LiveCell} {x : LiveCell}
    (hx : x ∈ cheques) :
    ∃ y ∈ cheques, y.cell.lock.args = x.cell.lock.args ∧
      c.attributed? cheques x = c.recovered? y := by
  rw [attributed?_eq]
  cases hfind : cheques.find? (·.cell.lock.args = x.cell.lock.args) with
  | none => exact absurd (decide_eq_true rfl) (List.find?_eq_none.mp hfind x hx)
  | some y =>
    exact ⟨y, List.mem_of_find?_eq_some hfind, by simpa using List.find?_some hfind, rfl⟩

/-- The same chain, with the cells that can be recovered first. -/
def recoveredFirst (c : Chain) : Chain :=
  { c with
    live := c.live.filter (fun x => (c.recovered? x).isSome) ++
      c.live.filter (fun x => !(c.recovered? x).isSome) }

theorem relists_recoveredFirst (c : Chain) : c.recoveredFirst.Relists c :=
  ⟨List.filter_append_perm _ _, rfl⟩

/-- There a cheque is attributed when one with the same args can be recovered. -/
theorem attributed?_recoveredFirst {x y : LiveCell}
    (hy : y ∈ c.chequesFor scripts receiver owner)
    (hargs : y.cell.lock.args = x.cell.lock.args) (hrecovered : c.recovered? y ≠ none) :
    c.recoveredFirst.attributed? (c.recoveredFirst.chequesFor scripts receiver owner) x ≠
      none := by
  obtain ⟨hlive, hcheque⟩ := List.mem_filter.mp hy
  have hmem : y ∈ (c.live.filter fun x => (c.recovered? x).isSome).filter
      (·.cell.isChequeFor scripts receiver owner) :=
    List.mem_filter.mpr ⟨List.mem_filter.mpr ⟨hlive, Option.isSome_iff_ne_none.mpr hrecovered⟩,
      hcheque⟩
  rw [attributed?_eq, chequesFor, recoveredFirst, List.filter_append, List.find?_append]
  cases hfind : ((c.live.filter fun x => (c.recovered? x).isSome).filter
      (·.cell.isChequeFor scripts receiver owner)).find?
        (·.cell.lock.args = x.cell.lock.args) with
  | none => exact absurd (decide_eq_true hargs) (List.find?_eq_none.mp hfind y hmem)
  | some z =>
    have hz := (List.mem_filter.mp (List.mem_filter.mp (List.mem_of_find?_eq_some hfind)).1).2
    change c.recoveredFirst.recovered? z ≠ none
    rw [c.relists_recoveredFirst.recovered?]
    exact Option.isSome_iff_ne_none.mp hz

end Chain

namespace Assembler

variable {c : Chain} {a : Assembler Nat} {receiver : Script} {owner : Hash}

theorem givesUp_iff (ha : a.ledger = c.ledger) (hp : a.pageSize ≠ 0)
    (hcount : c.CountsCheques a.scripts receiver owner) :
    a.GivesUp receiver owner ↔ ∃ x ∈ c.chequesFor a.scripts receiver owner,
      c.attributed? (c.chequesFor a.scripts receiver owner) x = none := by
  rcases ends_or_failsOnly_claimCheques ha hp hcount with
    ⟨x, hx, hnone, -, hends⟩ | ⟨hall, hfails⟩
  · obtain ⟨s, hs⟩ := hends 0
    exact iff_of_true ⟨_, ⟨0, s, hs⟩, rfl⟩ ⟨x, hx, hnone⟩
  · exact iff_of_false (fun ⟨f, hf, hkind⟩ => hfails f hf hkind)
      fun ⟨x, hx, hnone⟩ => hall x hx hnone

/-- In every order of the live cells a claim gives up exactly when some cheque cannot be recovered, if
and only if all cheques can be recovered or, for some args, none. -/
theorem givesUp_relists_iff (hp : a.pageSize ≠ 0)
    (hcount : c.CountsCheques a.scripts receiver owner) :
    (∀ (d : Chain) (b : Assembler Nat), d.Relists c → b.ledger = d.ledger →
      b.scripts = a.scripts → b.pageSize ≠ 0 → (b.GivesUp receiver owner ↔
        ∃ x ∈ c.chequesFor a.scripts receiver owner, c.recovered? x = none)) ↔
    (∀ x ∈ c.chequesFor a.scripts receiver owner, c.recovered? x ≠ none) ∨
      ∃ x ∈ c.chequesFor a.scripts receiver owner,
        ∀ y ∈ c.chequesFor a.scripts receiver owner,
          y.cell.lock.args = x.cell.lock.args → c.recovered? y = none := by
  constructor
  · intro horders
    by_contra hneither
    rw [not_or] at hneither
    obtain ⟨hsome, hclass⟩ := hneither
    push Not at hsome hclass
    -- an order in which the cheques that can be recovered come first
    have hrelists := c.relists_recoveredFirst
    let b : Assembler Nat := { a with ledger := c.recoveredFirst.ledger }
    have hgives := (horders _ b hrelists rfl rfl hp).mpr hsome
    obtain ⟨x, hx, hnone⟩ := (givesUp_iff (a := b) rfl hp (hrelists.countsCheques hcount)).mp hgives
    obtain ⟨y, hy, hargs, hrecovered⟩ := hclass x (hrelists.cheques.mem_iff.mp hx)
    exact Chain.attributed?_recoveredFirst hy hargs hrecovered hnone
  · rintro hcases d b hrelists hb hscripts hbp
    have hcheques : (d.chequesFor b.scripts receiver owner).Perm
        (c.chequesFor a.scripts receiver owner) := hscripts ▸ hrelists.cheques
    rw [givesUp_iff hb hbp (hscripts ▸ hrelists.countsCheques hcount)]
    rcases hcases with hall | ⟨x, hx, hclass⟩
    · refine iff_of_false (fun ⟨x, hx, hnone⟩ => ?_) fun ⟨x, hx, hnone⟩ => hall x hx hnone
      obtain ⟨y, hy, -, heq⟩ := d.exists_attributed?_eq hx
      rw [heq, hrelists.recovered?] at hnone
      exact hall y (hcheques.mem_iff.mp hy) hnone
    · refine iff_of_true ⟨x, hcheques.mem_iff.mpr hx, ?_⟩ ⟨x, hx, hclass x hx rfl⟩
      obtain ⟨y, hy, hargs, heq⟩ := d.exists_attributed?_eq (hcheques.mem_iff.mpr hx)
      rw [heq, hrelists.recovered?]
      exact hclass y (hcheques.mem_iff.mp hy) hargs

/-- Asking the chain for the sender of a cheque. -/
theorem ends_recoverSender_of_cheque {scripts : SystemScripts} {x : LiveCell}
    (hx : x ∈ c.chequesFor scripts receiver owner) :
    ∃ args, ChequeArgs.ofBytes x.cell.lock.args = .ok args ∧
      Ends (recoverSender c.ledger x.outPoint args)
        (match c.recovered? x with
          | some sender => .ok sender
          | none => .error (.unknownSender x.outPoint)) := by
  obtain ⟨args, hargs⟩ :=
    Option.isSome_iff_exists.mp (isChequeFor_iff.mp (List.mem_filter.mp hx).2).1
  have hbytes := (hasType_of_chequeArgsFor hargs).2.2
  refine ⟨args, hbytes, ?_⟩
  rw [Chain.recovered?_eq hbytes]
  exact ends_recoverSender c x.outPoint args

end Assembler

/-- What a claim of cheques that can be counted does about their senders. Each cheque has a sender as
asking the chain recovers it, and one that the claim attributes it to: that of the first cheque with
the same args. The claim gives up if and only if some cheque is attributed to nobody, and names one
that cannot be recovered. When it succeeds, it refunds the senders that the cheques are attributed
to. Giving up is the same as having a cheque that cannot be recovered, in whatever order the chain
lists its cells, if and only if all cheques can be recovered or, for some args, none. -/
theorem Assembler.claim_remembers_senders {c : Chain} {a : Assembler Nat} {receiver : Script}
    {owner : Hash} (ha : a.ledger = c.ledger) (hp : a.pageSize ≠ 0)
    (hcount : c.CountsCheques a.scripts receiver owner) :
    let cheques := c.chequesFor a.scripts receiver owner
    (∀ x ∈ cheques, ∃ args, ChequeArgs.ofBytes x.cell.lock.args = .ok args ∧
      Ends (recoverSender c.ledger x.outPoint args)
        (match c.recovered? x with
          | some sender => .ok sender
          | none => .error (.unknownSender x.outPoint))) ∧
    (a.GivesUp receiver owner ↔ ∃ x ∈ cheques, c.attributed? cheques x = none) ∧
    (a.GivesUp receiver owner → ∃ x ∈ cheques, c.recovered? x = none ∧
      Ends (a.claimCheques receiver owner) (.error (.unknownSender x.outPoint))) ∧
    (∀ r, Yields (a.claimCheques receiver owner) r →
      ∃ (sent : List (LiveCell × Script)) (claimed : Cell) (refunds change : List Cell),
        sent.map Prod.fst = cheques ∧
        (∀ e ∈ sent, c.attributed? cheques e.1 = some e.2) ∧
        r.transaction.outputs = claimed :: refunds ++ change ∧
        refunds.map Cell.lock = (sent.map Prod.snd).eraseDups ∧
        ∀ x ∈ refunds, x.capacity.toNat =
          Capacity.total ((sent.filter (·.2 = x.lock)).map fun e => e.1.cell.capacity)) ∧
    ((∀ (d : Chain) (b : Assembler Nat), d.Relists c → b.ledger = d.ledger →
      b.scripts = a.scripts → b.pageSize ≠ 0 →
        (b.GivesUp receiver owner ↔ ∃ x ∈ cheques, c.recovered? x = none)) ↔
      (∀ x ∈ cheques, c.recovered? x ≠ none) ∨
        ∃ x ∈ cheques, ∀ y ∈ cheques, y.cell.lock.args = x.cell.lock.args →
          c.recovered? y = none) := by
  refine ⟨fun x hx => ends_recoverSender_of_cheque hx, givesUp_iff ha hp hcount, ?_, ?_,
    givesUp_relists_iff hp hcount⟩
  · rintro ⟨f, hf, hkind⟩
    rcases ends_or_failsOnly_claimCheques ha hp hcount with ⟨x, hx, -, hnone, hends⟩ | ⟨-, hfails⟩
    · exact ⟨x, hx, hnone, hends⟩
    · exact absurd hkind (hfails f hf)
  · intro r hr
    obtain ⟨sent, claimed, refunds, change, hcheques, hsent, hrest⟩ :=
      refunds_of_claimCheques ha hp hr
    exact ⟨sent, claimed, refunds, change, hcheques, hcheques ▸ hsent, hrest⟩

/-- A chain with two cheques of the zero owner that name the same locks. The first was made by its
sender, the second out of nothing. -/
def Chain.withOrphan : Chain :=
  let args := ChequeArgs.ofLocks (.ofByte 2) (.ofByte 1)
  ((Chain.withCheque (.ofByte 1) (.ofByte 2) (.ofByte 2)).fund
    [⟨30000000000, SystemScripts.mainnet.chequeLock args.bytes,
      some (SystemScripts.mainnet.sudtType Hash.zero), TokenAmount.data 5⟩]).2

/-- The same chain, listed in the other order. -/
def Chain.reversed (c : Chain) : Chain := { c with live := c.live.reverse }

theorem Chain.relists_reversed (c : Chain) : c.reversed.Relists c := ⟨List.reverse_perm _, rfl⟩

/-- The first cheque in the other order cannot be recovered, so neither is attributed. -/
theorem Chain.attributed?_reversed_withOrphan :
    ∃ x ∈ withOrphan.reversed.chequesFor SystemScripts.mainnet (.ofByte 2) Hash.zero,
      withOrphan.reversed.attributed?
        (withOrphan.reversed.chequesFor SystemScripts.mainnet (.ofByte 2) Hash.zero) x = none := by
  decide +kernel

theorem Chain.countsCheques_withOrphan :
    withOrphan.CountsCheques SystemScripts.mainnet (.ofByte 2) Hash.zero :=
  ⟨by decide +kernel, by decide +kernel, by decide +kernel⟩

/-- A claim gives up when the cheque that cannot be recovered comes first. -/
theorem Assembler.claim_remembers_senders_orphanFirst :
    ∃ x ∈ Chain.withOrphan.reversed.chequesFor SystemScripts.mainnet (.ofByte 2) Hash.zero,
      Chain.withOrphan.reversed.recovered? x = none ∧
      Ends ((onChain Chain.withOrphan.reversed).claimCheques (.ofByte 2) Hash.zero)
        (.error (.unknownSender x.outPoint)) := by
  obtain ⟨-, hgives, hends, -⟩ := @claim_remembers_senders Chain.withOrphan.reversed
    (onChain Chain.withOrphan.reversed) (.ofByte 2) Hash.zero rfl (by decide : (100 : UInt32) ≠ 0)
    ((Chain.relists_reversed _).countsCheques Chain.countsCheques_withOrphan)
  exact hends (hgives.mpr Chain.attributed?_reversed_withOrphan)

/-- A claim spends a cheque that cannot be recovered when it comes after one with the same args that
can. In the other order it gives up. -/
theorem Assembler.claim_spends_unrecovered :
    ∃ r, Yields ((onChain .withOrphan).claimCheques (.ofByte 2) Hash.zero) r ∧
      (∃ x ∈ Chain.withOrphan.chequesFor SystemScripts.mainnet (.ofByte 2) Hash.zero,
        Chain.withOrphan.recovered? x = none ∧ x.outPoint ∈ r.transaction.spent) ∧
      Chain.withOrphan.CountsCheques SystemScripts.mainnet (.ofByte 2) Hash.zero ∧
      (onChain Chain.withOrphan.reversed).GivesUp (.ofByte 2) Hash.zero := by
  obtain ⟨r, h, hspent⟩ := exists_yields
    (m := (onChain .withOrphan).claimCheques (.ofByte 2) Hash.zero) (s := 0) (fun r =>
      decide (∃ x ∈ Chain.withOrphan.chequesFor SystemScripts.mainnet (.ofByte 2) Hash.zero,
        Chain.withOrphan.recovered? x = none ∧ x.outPoint ∈ r.transaction.spent))
    (by decide +kernel)
  have hcount := (Chain.relists_reversed _).countsCheques Chain.countsCheques_withOrphan
  refine ⟨r, h, of_decide_eq_true hspent, Chain.countsCheques_withOrphan, ?_⟩
  exact (givesUp_iff (a := onChain Chain.withOrphan.reversed) rfl
    (by decide : (100 : UInt32) ≠ 0) hcount).mpr Chain.attributed?_reversed_withOrphan

end CellTx
