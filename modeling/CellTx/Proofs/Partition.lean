import CellTx.Proofs.Grouping
import Mathlib.Data.List.Sort

/-!
# Signing groups are a partition in order

The groups of a transaction are determined by what is asked of them (`OrderedPartition`;
specification, section 4.4): whose they are and in which order, which inputs each covers, and that
these are listed in order.

Results:
* `OrderedPartition.unique`: two lists of groups that meet this are the same, so it says what the
  groups are.
* `orderedPartition_groupInputs`: the groups of the definition meet it.
* `groupInputs_orderedPartition`: so does what the one pass over the locks comes to.

Out of scope: locks that differ and have one hash, which are one lock here.
-/

namespace CellTx

namespace SigningGroup

/-! ## Distinct entries -/

/-- The hashes of the distinct entries, in the order of first appearance. -/
theorem hashes_distinct (seen : List Hash) (entries : List (Hash × Script)) :
    (distinct seen entries).map Prod.fst =
      ((entries.map Prod.fst).filter (· ∉ seen)).eraseDups := by
  induction entries generalizing seen with
  | nil => rfl
  | cons e rest ih =>
    rw [distinct, List.map_cons]
    by_cases he : e.1 ∈ seen
    · rw [if_pos he, List.filter_cons_of_neg (by simpa using he), ih]
    · rw [if_neg he, List.filter_cons_of_pos (by simpa using he), List.eraseDups_cons,
        List.map_cons, ih, List.filter_filter]
      refine congrArg (fun hashes => e.1 :: List.eraseDups hashes) ?_
      refine List.filter_congr fun hash _ => ?_
      rw [Bool.eq_iff_iff]
      simp

/-- A distinct entry is the first one with its hash. -/
theorem find?_of_mem_distinct {seen : List Hash} {entries : List (Hash × Script)}
    {e : Hash × Script} (h : e ∈ distinct seen entries) :
    entries.find? (fun f => f.1 = e.1) = some e := by
  induction entries generalizing seen with
  | nil => exact absurd h List.not_mem_nil
  | cons f rest ih =>
    have hunseen := not_mem_seen_of_mem_distinct h
    unfold distinct at h
    split at h
    · rename_i hf
      have hne : f.1 ≠ e.1 := fun heq => hunseen (heq ▸ hf)
      rw [List.find?_cons_of_neg (by simpa using hne)]
      exact ih h
    · rcases List.mem_cons.mp h with rfl | h
      · exact List.find?_cons_of_pos (decide_eq_true rfl)
      · have hne : f.1 ≠ e.1 := fun heq =>
          not_mem_seen_of_mem_distinct h (heq ▸ List.mem_cons_self)
        rw [List.find?_cons_of_neg (by simpa using hne)]
        exact ih h

end SigningGroup

open SigningGroup

/-! ## The partition -/

/-- Groups that are the partition of the inputs by the hash of their locks, in order. -/
structure OrderedPartition (supplied : List Script) (cells : List Cell)
    (groups : List SigningGroup) : Prop where
  /-- No hash has two groups. -/
  distinct : (groups.map (·.script.hash)).Nodup
  /-- The supplied hashes in the order of supply, then the other hashes of locks in the order of
  first appearance. -/
  order : groups.map (·.script.hash) =
    (supplied.map Script.hash).eraseDups ++
      ((cells.map (·.lock.hash)).filter (· ∉ supplied.map Script.hash)).eraseDups
  ascending : ∀ g ∈ groups, g.inputs.Pairwise (· < ·)
  disjoint : groups.Pairwise fun g g' => g.inputs.Disjoint g'.inputs
  covers : ∀ i, (∃ g ∈ groups, i ∈ g.inputs) ↔ i < cells.length
  /-- An input belongs to the group of the hash of its lock. -/
  owns : ∀ g ∈ groups, ∀ i, i ∈ g.inputs ↔ (cells[i]?).map (·.lock.hash) = some g.script.hash
  /-- Only a script that was supplied can have a group without inputs. -/
  supplied_of_empty : ∀ g ∈ groups, g.inputs = [] → g.script ∈ supplied
  /-- The script of a group is the first one with its hash. -/
  first : ∀ g ∈ groups,
    (supplied ++ cells.map Cell.lock).find? (·.hash = g.script.hash) = some g.script

section Partition

variable {supplied : List Script} {cells : List Cell} {groups groups' : List SigningGroup}

/-- What is asked of the groups leaves no choice. -/
theorem OrderedPartition.unique (h : OrderedPartition supplied cells groups)
    (h' : OrderedPartition supplied cells groups') : groups = groups' := by
  have hhashes := h.order.trans h'.order.symm
  -- a group is determined by its hash
  have hsame : ∀ g ∈ groups, ∀ g' ∈ groups', g.script.hash = g'.script.hash → g = g' := by
    intro g hg g' hg' heq
    have hscript : g.script = g'.script := by
      have hfirst := h.first g hg
      rw [heq, h'.first g' hg'] at hfirst
      exact (Option.some.inj hfirst).symm
    have hinputs : g.inputs = g'.inputs := by
      refine (h.ascending g hg).eq_of_mem_iff (h'.ascending g' hg') fun i => ?_
      rw [h.owns g hg, h'.owns g' hg', heq]
    obtain ⟨script, inputs⟩ := g
    obtain ⟨script', inputs'⟩ := g'
    exact congrArg₂ SigningGroup.mk hscript hinputs
  have hlength : groups.length = groups'.length := by
    simpa using congrArg List.length hhashes
  refine List.ext_getElem hlength fun i hi hi' => ?_
  refine hsame _ (List.getElem_mem hi) _ (List.getElem_mem hi') ?_
  have := congrArg (·[i]?) hhashes
  simpa [hi, hi'] using this

/-- A group of a transaction, with the entry that it comes from. -/
theorem entry_of_mem_groupInputs {locks : List Script} {g : SigningGroup}
    (h : g ∈ groupInputs supplied locks) :
    (g.script.hash, g.script) ∈
        SigningGroup.distinct [] ((supplied ++ locks).map fun s => (s.hash, s)) ∧
      g.inputs = positions g.script.hash (locks.map Script.hash) := by
  obtain ⟨⟨hash, script⟩, he, rfl⟩ := List.mem_map.mp h
  rw [← List.map_append] at he
  obtain ⟨s, -, hs⟩ := List.mem_map.mp ((sublist_distinct _ _).subset he)
  obtain ⟨rfl, rfl⟩ := Prod.mk.inj hs
  refine ⟨he, ?_⟩
  rw [List.map_map]
  rfl

theorem hashes_groupInputs (supplied locks : List Script) :
    (groupInputs supplied locks).map (·.script.hash) =
      (SigningGroup.distinct [] ((supplied ++ locks).map fun s => (s.hash, s))).map Prod.fst := by
  rw [groupInputs, List.map_map, ← List.map_append]
  refine List.map_congr_left fun e he => ?_
  obtain ⟨s, -, rfl⟩ := List.mem_map.mp ((sublist_distinct _ _).subset he)
  rfl

/-- The groups of a transaction are the partition of its inputs. -/
theorem orderedPartition_groupInputs (supplied : List Script) (cells : List Cell) :
    OrderedPartition supplied cells (groupInputs supplied (cells.map Cell.lock)) := by
  have hfirst : ∀ g ∈ groupInputs supplied (cells.map Cell.lock),
      (supplied ++ cells.map Cell.lock).find? (·.hash = g.script.hash) = some g.script := by
    intro g hg
    have hfind := find?_of_mem_distinct (entry_of_mem_groupInputs hg).1
    rw [List.find?_map] at hfind
    obtain ⟨s, hs, heq⟩ := Option.map_eq_some_iff.mp hfind
    obtain rfl : s = g.script := congrArg Prod.snd heq
    exact hs
  have hdistinct : ((groupInputs supplied (cells.map Cell.lock)).map (·.script.hash)).Nodup := by
    rw [hashes_groupInputs]
    exact nodup_hashes_distinct _ _
  constructor
  case distinct => exact hdistinct
  case order =>
    have hentries : ((supplied ++ cells.map Cell.lock).map fun s => (s.hash, s)).map Prod.fst =
        supplied.map Script.hash ++ cells.map (·.lock.hash) := by
      rw [List.map_map, List.map_append, List.map_map]
      rfl
    have hall : (supplied.map Script.hash ++ cells.map (·.lock.hash)).filter (· ∉ []) =
        supplied.map Script.hash ++ cells.map (·.lock.hash) :=
      List.filter_eq_self.mpr fun _ _ => decide_eq_true List.not_mem_nil
    rw [hashes_groupInputs, hashes_distinct, hentries, hall, List.eraseDups_append]
    refine congrArg ((supplied.map Script.hash).eraseDups ++ List.eraseDups ·) ?_
    refine List.filter_congr fun hash _ => ?_
    rw [Bool.eq_iff_iff]
    simp
  case ascending =>
    intro g hg
    rw [(entry_of_mem_groupInputs hg).2]
    exact pairwise_positions _ _
  case disjoint =>
    refine (List.pairwise_map.mp hdistinct).imp_of_mem fun {g g'} hg hg' hne i hi hi' => hne ?_
    rw [eq_of_mem_inputs hg hg' hi hi']
  case covers =>
    intro i
    constructor
    · rintro ⟨g, hg, hi⟩
      have := lt_of_mem_inputs hg hi
      rwa [List.length_map] at this
    · intro hi
      exact exists_mem_groupInputs (by rwa [List.length_map])
  case owns =>
    intro g hg i
    rw [(entry_of_mem_groupInputs hg).2, mem_positions, List.map_map, List.getElem?_map]
    rfl
  case supplied_of_empty =>
    intro g hg hempty
    rcases List.mem_append.mp (List.mem_of_find?_eq_some (hfirst g hg)) with hmem | hmem
    · exact hmem
    · -- the lock of an input would put that input into the group
      obtain ⟨i, hi⟩ := List.mem_iff_getElem?.mp hmem
      rw [(entry_of_mem_groupInputs hg).2] at hempty
      have hin : i ∈ positions g.script.hash ((cells.map Cell.lock).map Script.hash) :=
        mem_positions.mpr (by rw [List.getElem?_map, hi]; rfl)
      rw [hempty] at hin
      exact absurd hin List.not_mem_nil
  case first => exact hfirst

/-- Supplied scripts and input cells have one ordered partition: the groups of the transaction, to
which the one pass over the locks comes without a trap. -/
theorem groupInputs_orderedPartition (supplied : List Script) (cells : List Cell) :
    Trapping.groupInputs supplied (cells.map Cell.lock) =
        some (groupInputs supplied (cells.map Cell.lock)) ∧
      ∀ groups, groups = groupInputs supplied (cells.map Cell.lock) ↔
        OrderedPartition supplied cells groups := by
  refine ⟨Trapping.groupInputs_eq _ _, fun groups => ⟨?_, fun h => ?_⟩⟩
  · rintro rfl
    exact orderedPartition_groupInputs supplied cells
  · exact h.unique (orderedPartition_groupInputs supplied cells)

end Partition

end CellTx
