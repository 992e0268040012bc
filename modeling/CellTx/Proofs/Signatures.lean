import CellTx.Proofs.Fees
import CellTx.Proofs.Placeholders
import CellTx.Proofs.Reading

/-!
# Signed transactions

A signature is written over the zeros that a group's first witness has in place of one
(`WitnessArgs.overwriteLock`). It takes the same 65 bytes, and so the witness is read as before but
for its lock field, the other witnesses are left alone, and the transaction keeps its size; the hash
does not cover witnesses at all (specification, section 4.4).

Results:
* `WitnessArgs.overwriteLock_serialize`: the overwritten bytes are those of the witness with the
  signature in its lock field.
* `Assembled.hash_signed`, `Assembled.size_signed`: hash and size stay.
* `Construction.signed_keeps_fee`: the fee was estimated with the zeros in place, so it is enough
  for the signed transaction, for whatever signatures of 65 bytes.

Out of scope: whether a signature is valid, and signatures of other lengths.
-/

namespace CellTx

variable {σ : Type}

/-! ## Writing a signature -/

/-- A table whose first field is a byte string, cut around the contents of that field. -/
theorem Molecule.table_bytes {l : Bytes} {n : Nat} (hl : l.length = n) (rest : List Bytes) :
    table (bytes l :: rest) =
      number (4 + 4 * (rest.length + 1) + (4 + n + rest.flatten.length)) ++
        (number (4 + 4 * (rest.length + 1)) ++
          offsets (4 + 4 * (rest.length + 1) + (4 + n)) rest) ++
        number n ++ l ++ rest.flatten := by
  subst hl
  simp only [table, offsets, List.length_cons, List.flatten_cons, List.length_append, length_bytes,
    List.append_assoc]
  rw [bytes, List.append_assoc]

namespace WitnessArgs

/-- Where the contents of a lock field lie: behind the size, the three offsets and the length of
the field. -/
def lockOffset : Nat := 20

/-- Writes over the lock field of a witness. -/
def overwriteLock (signature witness : Bytes) : Bytes :=
  witness.take lockOffset ++ signature ++ witness.drop (lockOffset + signature.length)

/-- What stands before and behind the contents of a lock field depends on their length alone. -/
theorem serialize_of_lock (n : Nat) (inputType outputType : Option Bytes) :
    ∃ before behind : Bytes, before.length = lockOffset ∧ ∀ lock : Bytes, lock.length = n →
      serialize ⟨some lock, inputType, outputType⟩ = before ++ lock ++ behind := by
  let rest := [inputType, outputType].map fun field => Molecule.option (field.map Molecule.bytes)
  refine ⟨_, _, ?_, fun lock hlock => Molecule.table_bytes hlock rest⟩
  simp [rest, lockOffset]

/-- What a witness with a lock takes. -/
theorem length_serialize (lock : Bytes) (inputType : Option Bytes) :
    (serialize ⟨some lock, inputType, none⟩).length =
      20 + lock.length + (inputType.map fun t => 4 + t.length).getD 0 := by
  have hinput : (Molecule.option (inputType.map Molecule.bytes)).length =
      (inputType.map fun t => 4 + t.length).getD 0 := by
    cases inputType with
    | none => rfl
    | some t => exact Molecule.length_bytes t
  simp only [serialize, Molecule.length_table, List.map_cons, List.map_nil, List.flatten_cons,
    List.flatten_nil, List.length_append, List.length_cons, List.length_nil, hinput]
  simp only [Molecule.option, Option.map_some, Option.getD_some, Option.map_none, Option.getD_none,
    Molecule.length_bytes, List.length_nil]
  omega

/-- A witness with a signature and at most a number for type scripts is read. -/
theorem ofBytes?_of_brief {lock : Bytes} {inputType : Option Bytes} (hlock : lock.length = 65)
    (hbrief : ∀ t, inputType = some t → t.length = 8) :
    ofBytes? (serialize ⟨some lock, inputType, none⟩) = some ⟨some lock, inputType, none⟩ := by
  refine ofBytes?_serialize (Nat.lt_of_le_of_lt (m := 97) ?_ (by decide))
  rw [length_serialize, hlock]
  cases inputType with
  | none => simp
  | some t => simp [hbrief t rfl]

/-- Another lock of the same length is written in place. -/
theorem overwriteLock_serialize {lock signature : Bytes} (h : signature.length = lock.length)
    (inputType outputType : Option Bytes) :
    overwriteLock signature (serialize ⟨some lock, inputType, outputType⟩) =
      serialize ⟨some signature, inputType, outputType⟩ := by
  obtain ⟨before, behind, hbefore, hlocks⟩ := serialize_of_lock lock.length inputType outputType
  rw [hlocks lock rfl, hlocks signature h, overwriteLock, h, ← List.drop_drop, ← hbefore,
    List.append_assoc before, List.take_left' rfl, List.drop_left' rfl, List.drop_left' rfl,
    List.append_assoc]

end WitnessArgs

/-- The transaction with a signature for each group that has an input, written into the witness of
the first one. -/
def Assembled.signed (r : Assembled) (signature : SigningGroup → Bytes) : Transaction :=
  { r.transaction with
    witnesses := r.transaction.witnesses.mapIdx fun i w =>
      match r.groups.find? (·.inputs.head? = some i) with
      | some g => WitnessArgs.overwriteLock (signature g) w
      | none => w }

/-! ## What a signature changes -/

namespace Assembled

variable {r : Assembled} {signature : SigningGroup → Bytes} {i : Nat}

/-- The witness of an input that begins no group is left alone. -/
theorem witnesses_signed_of_not_first (h : ∀ g ∈ r.groups, g.inputs.head? ≠ some i) :
    (r.signed signature).witnesses[i]? = r.transaction.witnesses[i]? := by
  have hnone : r.groups.find? (·.inputs.head? = some i) = none :=
    List.find?_eq_none.mpr fun g hg => by simpa using h g hg
  simp [signed, List.getElem?_mapIdx, hnone]

/-- The witness of the input that begins a group is written over, when no other group has it. -/
theorem witnesses_signed_of_first {g : SigningGroup} (hg : g ∈ r.groups)
    (hfirst : g.inputs.head? = some i)
    (hunique : ∀ g' ∈ r.groups, i ∈ g'.inputs → g' = g) :
    (r.signed signature).witnesses[i]? =
      r.transaction.witnesses[i]?.map (WitnessArgs.overwriteLock (signature g)) := by
  have hfind : r.groups.find? (·.inputs.head? = some i) = some g := by
    cases hfound : r.groups.find? (·.inputs.head? = some i) with
    | none =>
      have := List.find?_eq_none.mp hfound g hg
      simp [hfirst] at this
    | some g' =>
      have hhead : g'.inputs.head? = some i := by simpa using List.find?_some hfound
      rw [hunique g' (List.mem_of_find?_eq_some hfound) (List.mem_of_head? hhead)]
  simp [signed, List.getElem?_mapIdx, hfind]

/-- Witnesses are not hashed. -/
theorem hash_signed : (r.signed signature).hash = r.transaction.hash := rfl

/-- Witnesses that keep their lengths keep the size. -/
theorem size_signed (h : ∀ (i : Nat) (w w' : Bytes), r.transaction.witnesses[i]? = some w →
      (r.signed signature).witnesses[i]? = some w' → w'.length = w.length) :
    (r.signed signature).size = r.transaction.size := by
  have hlengths : (r.signed signature).witnesses.map (fun w => 8 + w.length) =
      r.transaction.witnesses.map fun w => 8 + w.length := by
    refine List.ext_getElem? fun i => ?_
    rw [List.getElem?_map, List.getElem?_map]
    cases hw : r.transaction.witnesses[i]? with
    | none => simp [signed, List.getElem?_mapIdx, hw]
    | some w =>
      obtain ⟨w', hw'⟩ : ∃ w', (r.signed signature).witnesses[i]? = some w' := by
        simp [signed, List.getElem?_mapIdx, hw]
      rw [hw', Option.map_some, Option.map_some, h i w w' hw hw']
  rw [Transaction.size_eq, Transaction.size_eq, hlengths]
  rfl

end Assembled

/-- The first witness of a group: a witness with room for a signature, and with that signature once
it is written. -/
structure SignedWitness (r : Assembled) (signature : SigningGroup → Bytes) (g : SigningGroup)
    (i : Nat) (inputType : Option Bytes) : Prop where
  unsigned : r.transaction.witnesses[i]? =
    some (WitnessArgs.serialize ⟨some (zeros 65), inputType, none⟩)
  signed : (r.signed signature).witnesses[i]? =
    some (WitnessArgs.serialize ⟨some (signature g), inputType, none⟩)
  brief : ∀ t, inputType = some t → t.length = 8

namespace Construction

variable {a : Assembler σ} {k : Construction} {r : Assembled} {signature : SigningGroup → Bytes}

theorem signedWitness (signature : SigningGroup → Bytes) (h : Yields (k.run a) r)
    {g : SigningGroup} (hg : g ∈ r.groups) {i : Nat} (hfirst : g.inputs.head? = some i)
    (hlength : (signature g).length = 65) :
    ∃ inputType, SignedWitness r signature g i inputType := by
  obtain ⟨l, supplied, hbrief, -, hwitnesses, hgroups⟩ := adds_brief h
  have hagree := Draft.witnessed_addAll l supplied
  rw [Draft.locks_addAll, ← hwitnesses, ← hgroups] at hagree
  have hi : i ∈ g.inputs := List.mem_of_head? hfirst
  have hlt : i < l.length := by
    have := lt_of_mem_inputs (hgroups ▸ hg) hi
    rwa [List.length_map] at this
  have hunsigned := hagree.first g hg i l[i] (List.getElem?_eq_getElem hlt) hfirst
  refine ⟨l[i].inputType, hunsigned, ?_, hbrief _ (List.getElem_mem hlt)⟩
  rw [Assembled.witnesses_signed_of_first hg hfirst, hunsigned, Option.map_some,
    WitnessArgs.overwriteLock_serialize (by rw [hlength, length_zeros])]
  exact fun g' hg' hi' => eq_of_mem_inputs (hgroups ▸ hg') (hgroups ▸ hg) hi' hi

/-- A result keeps its size when it is signed. -/
theorem size_signed (h : Yields (k.run a) r)
    (hlength : ∀ g ∈ r.groups, g.inputs ≠ [] → (signature g).length = 65) :
    (r.signed signature).size = r.transaction.size := by
  refine Assembled.size_signed fun i w w' hw hw' => ?_
  by_cases hfirst : ∃ g ∈ r.groups, g.inputs.head? = some i
  · obtain ⟨g, hg, hhead⟩ := hfirst
    have hsignature := hlength g hg fun hnil => by simp [hnil] at hhead
    obtain ⟨inputType, hwitness⟩ := signedWitness signature h hg hhead hsignature
    rw [← Option.some.inj (hwitness.unsigned.symm.trans hw),
      ← Option.some.inj (hwitness.signed.symm.trans hw'), WitnessArgs.length_serialize,
      WitnessArgs.length_serialize, hsignature, length_zeros]
  · rw [Assembled.witnesses_signed_of_not_first fun g hg hhead => hfirst ⟨g, hg, hhead⟩, hw] at hw'
    rw [Option.some.inj hw']

/-- The fee of a result is not below the estimate. -/
theorem estimate_le (hf : a.estimator = Fee.bySize) (h : Yields (k.run a) r) :
    Fee.ofSize r.transaction.size a.feeRate ≤ r.fee := by
  rcases anatomy h with ⟨o, -, hcompletes⟩ | ⟨p, rfl, hclaims⟩
  · exact (hcompletes.changeOutcome hf).estimate_le
  · exact UInt64.le_of_eq (hclaims.fee_eq hf).symm

/-- Signatures for the groups of a result leave each first witness what it was but for its lock, and
the other witnesses alone. Hash and size stay what they are, and so the fee that was paid is not
below the estimate for the signed transaction. -/
theorem signed_keeps_fee (h : Yields (k.run a) r)
    (hlength : ∀ g ∈ r.groups, g.inputs ≠ [] → (signature g).length = 65) :
    (∀ g ∈ r.groups, ∀ i rest, g.inputs = i :: rest → ∃ w w' args,
      r.transaction.witnesses[i]? = some w ∧ (r.signed signature).witnesses[i]? = some w' ∧
      WitnessArgs.ofBytes? w = some args ∧ args.lock = some (zeros 65) ∧
      WitnessArgs.ofBytes? w' = some { args with lock := some (signature g) }) ∧
    (∀ i, (∀ g ∈ r.groups, g.inputs.head? ≠ some i) →
      (r.signed signature).witnesses[i]? = r.transaction.witnesses[i]?) ∧
    (r.signed signature).hash = r.transaction.hash ∧
    (r.signed signature).size = r.transaction.size ∧
    (∀ rate, Fee.ofSize r.transaction.size rate ≤ r.fee →
      Fee.ofSize (r.signed signature).size rate ≤ r.fee) ∧
    (a.estimator = Fee.bySize → Fee.ofSize (r.signed signature).size a.feeRate ≤ r.fee) := by
  have hsize := size_signed h hlength
  refine ⟨fun g hg i rest hinputs => ?_, fun i hi => Assembled.witnesses_signed_of_not_first hi,
    Assembled.hash_signed, hsize, fun rate hrate => ?_, fun hf => ?_⟩
  · have hsignature := hlength g hg (by simp [hinputs])
    have hhead : g.inputs.head? = some i := by rw [hinputs]; rfl
    obtain ⟨inputType, hwitness⟩ := signedWitness signature h hg hhead hsignature
    exact ⟨_, _, _, hwitness.unsigned, hwitness.signed,
      WitnessArgs.ofBytes?_of_brief (length_zeros 65) hwitness.brief, rfl,
      WitnessArgs.ofBytes?_of_brief hsignature hwitness.brief⟩
  · rw [hsize]
    exact hrate
  · rw [hsize]
    exact estimate_le hf h

/-- A lock with two cells and a signature of bytes `7` for it. -/
theorem signed_keeps_fee_twoCells :
    ∃ r, Yields ((Construction.transfer ⟨[.ofByte 1], [(.ofByte 2, 40000000000)],
        some (.ofByte 1)⟩).run (.onChain (Chain.new.fund
          [.plain (.ofByte 1) 20000000000, .plain (.ofByte 1) 30000000000]).2)) r ∧
      r.groups = [⟨.ofByte 1, [0, 1]⟩] ∧
      ((r.signed fun _ => List.replicate 65 7).witnesses[0]?.bind WitnessArgs.ofBytes?) =
        some ⟨some (List.replicate 65 7), none, none⟩ ∧
      (r.signed fun _ => List.replicate 65 7).witnesses[1]? = r.transaction.witnesses[1]? ∧
      Fee.ofSize (r.signed fun _ => List.replicate 65 7).size 1000 ≤ r.fee := by
  obtain ⟨r, h, hr⟩ := exists_yields
    (m := (Construction.transfer ⟨[.ofByte 1], [(.ofByte 2, 40000000000)],
      some (.ofByte 1)⟩).run (.onChain (Chain.new.fund
        [.plain (.ofByte 1) 20000000000, .plain (.ofByte 1) 30000000000]).2))
    (s := 0) (fun r => r.groups = [⟨.ofByte 1, [0, 1]⟩] ∧
      (r.transaction.witnesses[0]?.bind WitnessArgs.ofBytes?) = some ⟨some (zeros 65), none, none⟩)
    (by decide +kernel)
  obtain ⟨hgroups, hread⟩ := of_decide_eq_true hr
  let signature : SigningGroup → Bytes := fun _ => List.replicate 65 7
  have hlength : ∀ g ∈ r.groups, g.inputs ≠ [] → (signature g).length = 65 :=
    fun _ _ _ => List.length_replicate
  obtain ⟨hfirst, hothers, -, -, -, hfee⟩ := signed_keeps_fee h hlength
  obtain ⟨w, w', args, hw, hw', hargs, -, hargs'⟩ :=
    hfirst ⟨.ofByte 1, [0, 1]⟩ (hgroups ▸ List.mem_cons_self) 0 [1] rfl
  rw [hw, Option.bind_some, hargs] at hread
  refine ⟨r, h, hgroups, ?_, hothers 1 ?_, hfee rfl⟩
  · rw [hw', Option.bind_some, hargs', Option.some.inj hread]
  · rw [hgroups]
    exact List.forall_mem_singleton.mpr (by decide)

end Construction

end CellTx
