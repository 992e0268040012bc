import CellTx.Ledger.Chain
import CellTx.Proofs.Tally

/-!
# Who sent a cheque

On a chain the sender of a cheque is determined by its out point and args (`Chain.senderOf?`). A
claim asks once for each args: a cheque is attributed to the sender of the first cheque with the
same args (`Attributes`).

Results:
* `ends_recoverSender`: asking the chain finds the sender, or fails with the cheque's out point.
* `Tallies.attributes`, `Attributes.first`: each counted cheque is attributed to a sender that was
  recovered from the first one like it.

Out of scope: whether the lock that is found is the one that issued the cheque. On the way from an
issue it is (`CellTx.Proofs.IssuedCheques`).
-/

namespace CellTx

/-! ## Recovery on a chain -/

namespace Chain

/-- The locks of some spent cells, as far as the chain knows them. -/
def locksOf (c : Chain) (spent : List OutPoint) : List Script :=
  spent.filterMap fun p => (c.output? p).map Cell.lock

/-- The sender that the args of a cheque name: the first such lock among those of the cells that the
cheque's transaction spent. -/
def senderOf? (c : Chain) (p : OutPoint) (args : ChequeArgs) : Option Script := do
  let t ← c.transaction? p.txHash
  (c.locksOf t.transaction.spent).find? args.isSender

end Chain

theorem ends_findSender (c : Chain) (args : ChequeArgs) (spent : List OutPoint) :
    Ends (findSender c.ledger args spent) (.ok ((c.locksOf spent).find? args.isSender)) := by
  induction spent with
  | nil => exact Ends.pure none
  | cons p spent ih =>
    have hask : Ends (c.ledger.transaction p.txHash) (.ok (c.transaction? p.txHash)) :=
      Ends.pure _
    rw [findSender]
    refine hask.bind ?_
    have houtput : ((c.transaction? p.txHash).bind fun t =>
        t.transaction.outputs[p.index.toNat]?) = c.output? p := rfl
    rw [houtput, Chain.locksOf, List.filterMap_cons]
    cases c.output? p with
    | none => exact ih
    | some cell =>
      simp only [Option.map_some]
      by_cases hs : args.isSender cell.lock = true
      · rw [if_pos hs, List.find?_cons_of_pos hs]
        exact Ends.pure _
      · rw [if_neg hs, List.find?_cons_of_neg hs]
        exact ih

/-- Asking a chain for the sender of a cheque. -/
theorem ends_recoverSender (c : Chain) (p : OutPoint) (args : ChequeArgs) :
    Ends (recoverSender c.ledger p args)
      (match c.senderOf? p args with
        | some sender => .ok sender
        | none => .error (.unknownSender p)) := by
  have hask : Ends (c.ledger.transaction p.txHash) (.ok (c.transaction? p.txHash)) := Ends.pure _
  refine hask.ask.bind ?_
  cases ht : c.transaction? p.txHash with
  | none =>
    rw [Chain.senderOf?, ht]
    exact Ends.bind_error _ (ends_demand_none _)
  | some t =>
    have hsender : c.senderOf? p args = (c.locksOf t.transaction.spent).find? args.isSender := by
      rw [Chain.senderOf?, ht]
      rfl
    rw [hsender]
    refine (ends_demand_some _ t).bind
      ((ends_findSender c args t.transaction.spent).ask.bind ?_)
    cases (c.locksOf t.transaction.spent).find? args.isSender with
    | none => exact ends_demand_none _
    | some sender => exact ends_demand_some _ sender

theorem senderOf?_of_recoverSender {c : Chain} {p : OutPoint} {args : ChequeArgs}
    {sender : Script} (h : Yields (recoverSender c.ledger p args) sender) :
    c.senderOf? p args = some sender := by
  have hends := ends_recoverSender c p args
  cases hs : c.senderOf? p args with
  | none =>
    rw [hs] at hends
    exact nomatch Always.eq hends h
  | some s =>
    rw [hs] at hends
    rw [hends.eq h]

/-! ## Attribution -/

variable {σ : Type}

/-- Senders are looked up among the known ones, and recovered where they are not known. -/
inductive Attributes (l : Ledger σ) : List (ChequeArgs × Script) → List CountedCheque → Prop
  | done (known : List (ChequeArgs × Script)) : Attributes l known []
  | known {known : List (ChequeArgs × Script)} {e : CountedCheque} {rest : List CountedCheque}
      (found : known.lookup e.args = some e.sender) (tail : Attributes l known rest) :
      Attributes l known (e :: rest)
  | fresh {known : List (ChequeArgs × Script)} {e : CountedCheque} {rest : List CountedCheque}
      (absent : known.lookup e.args = none)
      (recovered : Yields (recoverSender l e.cheque.outPoint e.args) e.sender)
      (tail : Attributes l ((e.args, e.sender) :: known) rest) : Attributes l known (e :: rest)

theorem Tallies.attributes {a : Assembler σ} {sudt : Script} {receiver : Bytes}
    {t t' : ClaimTally} {cells : List LiveCell} {counted : List CountedCheque}
    (h : Tallies a sudt receiver t cells counted t') :
    Attributes a.ledger t.senders counted := by
  induction h with
  | done => exact .done _
  | skip _ _ ih => exact ih
  | count _ _ hsender hadd _ ih =>
    have hsenders := (ClaimTally.add_eq_ok hadd).2.2.2.2
    rcases Assembler.senderOf_spec hsender with ⟨hfound, rfl⟩ | ⟨habsent, hrecovered, rfl⟩
    · exact .known hfound (hsenders ▸ ih)
    · rw [hsenders] at ih
      exact .fresh habsent hrecovered ih

/-- A cheque whose sender was not known has the sender that was recovered for the first cheque with
its args. -/
theorem Attributes.first {l : Ledger σ} {known : List (ChequeArgs × Script)}
    {counted : List CountedCheque} (h : Attributes l known counted) :
    ∀ e ∈ counted, known.lookup e.args = some e.sender ∨
      known.lookup e.args = none ∧ ∃ f, counted.find? (·.args = e.args) = some f ∧
        f.sender = e.sender ∧ Yields (recoverSender l f.cheque.outPoint f.args) f.sender := by
  induction h with
  | done => exact fun e he => absurd he List.not_mem_nil
  | @known known x rest hfound _ ih =>
    refine List.forall_mem_cons.mpr ⟨Or.inl hfound, fun e he => ?_⟩
    rcases ih e he with hknown | ⟨hnone, f, hfind, hsender, hrecovered⟩
    · exact Or.inl hknown
    · have hne : x.args ≠ e.args := fun heq => by
        rw [heq, hnone] at hfound
        exact nomatch hfound
      exact Or.inr ⟨hnone, f, by rw [List.find?_cons_of_neg (by simpa using hne), hfind], hsender,
        hrecovered⟩
  | @fresh known x rest habsent hrec _ ih =>
    have hself : (x :: rest).find? (·.args = x.args) = some x :=
      List.find?_cons_of_pos (by simp)
    refine List.forall_mem_cons.mpr ⟨Or.inr ⟨habsent, x, hself, rfl, hrec⟩, fun e he => ?_⟩
    by_cases heq : e.args = x.args
    · rw [heq]
      refine Or.inr ⟨habsent, x, hself, ?_, hrec⟩
      rcases ih e he with hknown | ⟨hnone, -⟩
      · rw [heq, List.lookup_cons_self] at hknown
        exact Option.some.inj hknown
      · rw [heq, List.lookup_cons_self] at hnone
        exact nomatch hnone
    · have hlookup : ((x.args, x.sender) :: known).lookup e.args = known.lookup e.args := by
        rw [List.lookup_cons, beq_false_of_ne heq]
      have hih := ih e he
      rw [hlookup] at hih
      rcases hih with hknown | ⟨hnone, f, hfind, hsender, hrecovered⟩
      · exact Or.inl hknown
      · exact Or.inr ⟨hnone, f,
          by rw [List.find?_cons_of_neg (by simpa using Ne.symm heq), hfind], hsender, hrecovered⟩

end CellTx
