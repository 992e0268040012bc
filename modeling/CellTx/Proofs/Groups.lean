import CellTx.Signing

/-!
# Who signs which input

The inputs of a signing group are the positions of one hash among the hashes of the spent locks.

Results:
* `SigningGroup.mem_positions`, `SigningGroup.pairwise_positions`: the positions of a hash, in
  ascending order.
* `SigningGroup.head?_positions`: a group begins with the first input under its hash.
* `exists_mem_groupInputs`, `eq_of_mem_inputs`: every input is in a group, and in one only.

Out of scope: the order of the groups, which is in `CellTx.Proofs.Partition`.
-/

namespace CellTx

namespace SigningGroup

theorem mem_positions {hash : Hash} {hashes : List Hash} {i : Nat} :
    i ∈ positions hash hashes ↔ hashes[i]? = some hash := by
  unfold positions
  rw [List.mem_map]
  constructor
  · rintro ⟨⟨h, j⟩, hmem, rfl⟩
    obtain ⟨hmem, heq⟩ := List.mem_filter.mp hmem
    rw [decide_eq_true_eq] at heq
    rw [List.mem_zipIdx_iff_getElem?] at hmem
    rw [← heq]
    exact hmem
  · intro h
    refine ⟨(hash, i), List.mem_filter.mpr ⟨?_, decide_eq_true rfl⟩, rfl⟩
    exact List.mem_zipIdx_iff_getElem?.mpr h

theorem pairwise_positions (hash : Hash) (hashes : List Hash) :
    (positions hash hashes).Pairwise (· < ·) := by
  have hsub : List.Sublist (positions hash hashes) (hashes.zipIdx.map Prod.snd) :=
    List.filter_sublist.map Prod.snd
  rw [List.zipIdx_map_snd] at hsub
  exact List.Pairwise.sublist hsub List.pairwise_lt_range'

/-- A group begins with the first input under its hash. -/
theorem head?_positions {hash : Hash} {hashes : List Hash} {i : Nat} :
    (positions hash hashes).head? = some i ↔ hashes[i]? = some hash ∧ hash ∉ hashes.take i := by
  have hpairwise := pairwise_positions hash hashes
  constructor
  · intro h
    obtain ⟨rest, hrest⟩ := List.head?_eq_some_iff.mp h
    have hi : i ∈ positions hash hashes := hrest ▸ List.mem_cons_self
    refine ⟨mem_positions.mp hi, fun hbefore => ?_⟩
    obtain ⟨j, hj⟩ := List.mem_iff_getElem?.mp hbefore
    have hlt : j < i := by
      have := (List.getElem?_eq_some_iff.mp hj).1
      rw [List.length_take] at this
      omega
    rw [List.getElem?_take_of_lt hlt] at hj
    -- an earlier position would be in the group, behind its least
    have hmem := mem_positions.mpr hj
    rw [hrest] at hmem hpairwise
    rcases List.mem_cons.mp hmem with rfl | hmem
    · exact Nat.lt_irrefl j hlt
    · exact Nat.lt_asymm hlt ((List.pairwise_cons.mp hpairwise).1 j hmem)
  · rintro ⟨hi, hfirst⟩
    have hmem := mem_positions.mpr hi
    cases hlist : positions hash hashes with
    | nil =>
      rw [hlist] at hmem
      exact absurd hmem List.not_mem_nil
    | cons j rest =>
      rw [hlist] at hmem hpairwise
      rcases List.mem_cons.mp hmem with rfl | hmem
      · rfl
      · have hlt := (List.pairwise_cons.mp hpairwise).1 i hmem
        have hj : hashes[j]? = some hash := mem_positions.mp (hlist ▸ List.mem_cons_self)
        refine absurd (List.mem_iff_getElem?.mpr ⟨j, ?_⟩) hfirst
        rw [List.getElem?_take_of_lt hlt]
        exact hj

theorem not_mem_seen_of_mem_distinct {seen : List Hash} {entries : List (Hash × Script)}
    {e : Hash × Script} (h : e ∈ distinct seen entries) : e.1 ∉ seen := by
  induction entries generalizing seen with
  | nil => exact absurd h List.not_mem_nil
  | cons f rest ih =>
    unfold distinct at h
    split at h
    · exact ih h
    · rename_i hf
      rcases List.mem_cons.mp h with rfl | h
      · exact hf
      · exact fun he => ih h (List.mem_cons_of_mem f.1 he)

/-- Of every hash there is one entry at most. -/
theorem eq_of_mem_distinct {seen : List Hash} {entries : List (Hash × Script)}
    {e e' : Hash × Script} (he : e ∈ distinct seen entries) (he' : e' ∈ distinct seen entries)
    (h : e.1 = e'.1) : e = e' := by
  induction entries generalizing seen with
  | nil => exact absurd he List.not_mem_nil
  | cons f rest ih =>
    unfold distinct at he he'
    split at he
    · rename_i hf
      rw [if_pos hf] at he'
      exact ih he he'
    · rename_i hf
      rw [if_neg hf] at he'
      rcases List.mem_cons.mp he with rfl | he <;> rcases List.mem_cons.mp he' with rfl | he'
      · rfl
      · exact absurd (h ▸ List.mem_cons_self) (not_mem_seen_of_mem_distinct he')
      · exact absurd (h ▸ List.mem_cons_self) (not_mem_seen_of_mem_distinct he)
      · exact ih he he'

/-- Every hash that is not seen before has an entry among the distinct ones. -/
theorem exists_mem_distinct {seen : List Hash} {entries : List (Hash × Script)}
    {e : Hash × Script} (he : e ∈ entries) (hseen : e.1 ∉ seen) :
    ∃ e' ∈ distinct seen entries, e'.1 = e.1 := by
  induction entries generalizing seen with
  | nil => exact absurd he List.not_mem_nil
  | cons f rest ih =>
    unfold distinct
    split
    · rename_i hf
      rcases List.mem_cons.mp he with rfl | he
      · exact absurd hf hseen
      · exact ih he hseen
    · by_cases heq : f.1 = e.1
      · exact ⟨f, List.mem_cons_self, heq⟩
      · rcases List.mem_cons.mp he with rfl | he
        · exact absurd rfl heq
        · have hseen' : e.1 ∉ f.1 :: seen := by simp [hseen, Ne.symm heq]
          obtain ⟨e', he', hhash⟩ := ih he hseen'
          exact ⟨e', List.mem_cons_of_mem f he', hhash⟩

end SigningGroup

/-- The inputs of a group are the positions of one hash. -/
theorem inputs_of_mem_groupInputs {supplied locks : List Script} {g : SigningGroup}
    (h : g ∈ groupInputs supplied locks) :
    ∃ hash, g.inputs = SigningGroup.positions hash (locks.map Script.hash) := by
  obtain ⟨⟨hash, script⟩, -, rfl⟩ := List.mem_map.mp h
  refine ⟨hash, ?_⟩
  rw [List.map_map]
  rfl

theorem lt_of_mem_inputs {supplied locks : List Script} {g : SigningGroup} {i : Nat}
    (hg : g ∈ groupInputs supplied locks) (hi : i ∈ g.inputs) : i < locks.length := by
  obtain ⟨hash, hinputs⟩ := inputs_of_mem_groupInputs hg
  rw [hinputs, SigningGroup.mem_positions] at hi
  have := (List.getElem?_eq_some_iff.mp hi).1
  rwa [List.length_map] at this

/-- No input is in two groups. -/
theorem eq_of_mem_inputs {supplied locks : List Script} {g g' : SigningGroup} {i : Nat}
    (hg : g ∈ groupInputs supplied locks) (hg' : g' ∈ groupInputs supplied locks)
    (hi : i ∈ g.inputs) (hi' : i ∈ g'.inputs) : g = g' := by
  obtain ⟨e, he, rfl⟩ := List.mem_map.mp hg
  obtain ⟨e', he', rfl⟩ := List.mem_map.mp hg'
  have hhash : e.1 = e'.1 := Option.some.inj
    ((SigningGroup.mem_positions.mp hi).symm.trans (SigningGroup.mem_positions.mp hi'))
  rw [SigningGroup.eq_of_mem_distinct he he' hhash]

/-- Every input is in a group. -/
theorem exists_mem_groupInputs {supplied locks : List Script} {i : Nat} (h : i < locks.length) :
    ∃ g ∈ groupInputs supplied locks, i ∈ g.inputs := by
  have hlock : (locks[i].hash, locks[i]) ∈ locks.map fun s => (s.hash, s) :=
    List.mem_map_of_mem (List.getElem_mem h)
  obtain ⟨e, he, hhash⟩ := SigningGroup.exists_mem_distinct
    (List.mem_append_right (supplied.map fun s => (s.hash, s)) hlock) List.not_mem_nil
  refine ⟨_, List.mem_map_of_mem he, SigningGroup.mem_positions.mpr ?_⟩
  rw [List.map_map, List.getElem?_map, List.getElem?_eq_getElem h, hhash]
  rfl

end CellTx
