import CellTx.Script

/-!
# Signing groups

Who has to sign a transaction, and which inputs a signature covers (specification, section 4.4).
Locks are told apart by hash. Every lock that is supplied has a group, even without an input, in the
order of supply; the other locks follow in the order of their first input (`groupInputs`).

That the groups partition the inputs is `groupInputs_orderedPartition` in `CellTx.Proofs.Partition`;
that the first input of each has the room for a signature is `Construction.rooms_agree_with_groups`
in `CellTx.Proofs.Placeholders`.

Out of scope: signing. What a signature changes is only its bytes, see `CellTx.Proofs.Signatures`.
-/

namespace CellTx

/-- The inputs that one lock has to sign. -/
structure SigningGroup where
  script : Script
  inputs : List Nat
deriving DecidableEq

namespace SigningGroup

/-- The entries whose hash is neither in `seen` nor that of an entry before. -/
def distinct (seen : List Hash) : List (Hash × Script) → List (Hash × Script)
  | [] => []
  | e :: rest =>
    if e.1 ∈ seen then distinct seen rest else e :: distinct (e.1 :: seen) rest

/-- The positions of a hash in a list. -/
def positions (hash : Hash) (hashes : List Hash) : List Nat :=
  (hashes.zipIdx.filter fun e => e.1 = hash).map Prod.snd

end SigningGroup

/-- The groups of a transaction whose inputs are under the given locks. -/
def groupInputs (supplied locks : List Script) : List SigningGroup :=
  let owners := locks.map fun s => (s.hash, s)
  let hashes := owners.map Prod.fst
  (SigningGroup.distinct [] (supplied.map (fun s => (s.hash, s)) ++ owners)).map fun (h, s) =>
    ⟨s, SigningGroup.positions h hashes⟩

end CellTx
