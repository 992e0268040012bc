import CellTx.Proofs.Groups
import CellTx.Proofs.Trapping

/-!
# Groups in one pass

Signing groups are found in one pass over the locks, which keeps the place of each hash
(`Trapping.Grouping`) and adds an input to the group at the place of its lock's hash (specification,
section 4.4).

Results:
* `Grouping.Covers.place`, `Grouping.Covers.cover`: what the pass has built by some lock are the
  groups of the locks up to there, and the place of a hash is always that of a group.
* `Trapping.groupInputs_eq`: what comes out is what the groups are said to be, without a trap.

Out of scope: how places are looked up.
-/

namespace CellTx

namespace SigningGroup

/-! ## One more lock -/

theorem distinct_concat (seen : List Hash) (entries : List (Hash × Script)) (e : Hash × Script) :
    distinct seen (entries ++ [e]) =
      if e.1 ∈ seen ∨ e.1 ∈ entries.map Prod.fst then distinct seen entries
      else distinct seen entries ++ [e] := by
  induction entries generalizing seen with
  | nil => simp [distinct]
  | cons f rest ih =>
    rw [List.cons_append, distinct, distinct, List.map_cons]
    by_cases hf : f.1 ∈ seen
    · rw [if_pos hf, if_pos hf, ih]
      refine if_congr ?_ rfl rfl
      grind
    · rw [if_neg hf, if_neg hf, ih, apply_ite (f :: ·)]
      refine if_congr ?_ rfl rfl
      grind

theorem sublist_distinct (seen : List Hash) (entries : List (Hash × Script)) :
    (distinct seen entries).Sublist entries := by
  induction entries generalizing seen with
  | nil => exact List.Sublist.refl _
  | cons f rest ih =>
    unfold distinct
    split
    · exact (ih seen).cons f
    · exact (ih _).cons_cons f

/-- No hash is left out. -/
theorem mem_hashes_distinct {entries : List (Hash × Script)} {h : Hash} :
    h ∈ (distinct [] entries).map Prod.fst ↔ h ∈ entries.map Prod.fst := by
  constructor
  · intro hmem
    exact ((sublist_distinct [] entries).map Prod.fst).subset hmem
  · intro hmem
    obtain ⟨e, he, rfl⟩ := List.mem_map.mp hmem
    obtain ⟨e', he', heq⟩ := exists_mem_distinct he List.not_mem_nil
    exact heq ▸ List.mem_map_of_mem he'

theorem nodup_hashes_distinct (seen : List Hash) (entries : List (Hash × Script)) :
    ((distinct seen entries).map Prod.fst).Nodup := by
  induction entries generalizing seen with
  | nil => exact List.nodup_nil
  | cons f rest ih =>
    unfold distinct
    split
    · exact ih seen
    · rw [List.map_cons, List.nodup_cons]
      refine ⟨fun hmem => ?_, ih _⟩
      obtain ⟨e, he, heq⟩ := List.mem_map.mp hmem
      exact not_mem_seen_of_mem_distinct he (heq ▸ List.mem_cons_self)

theorem positions_concat (hash last : Hash) (hashes : List Hash) :
    positions hash (hashes ++ [last]) =
      positions hash hashes ++ if last = hash then [hashes.length] else [] := by
  unfold positions
  rw [List.zipIdx_append, List.filter_append, List.map_append]
  by_cases h : last = hash
  · simp [h]
  · simp [h]

theorem positions_of_not_mem {hash : Hash} {hashes : List Hash} (h : hash ∉ hashes) :
    positions hash hashes = [] := by
  refine List.eq_nil_iff_forall_not_mem.mpr fun i hi => h ?_
  exact List.mem_of_getElem? (mem_positions.mp hi)

end SigningGroup

namespace Trapping

open SigningGroup

/-- Groups under construction, and the place of each hash among them. -/
structure Grouping where
  groups : List SigningGroup := []
  places : List (Hash × Nat) := []

namespace Grouping

/-- The place of a lock's group, which is added unless it is there. -/
def place (g : Grouping) (lock : Script) : Option (Nat × Grouping) :=
  match g.places.lookup lock.hash with
  | some i => some (i, g)
  | none => do
    let groups := g.groups ++ [⟨lock, []⟩]
    let i ← lastPlace groups
    return (i, ⟨groups, (lock.hash, i) :: g.places⟩)

/-- Adds an input to the group of its lock. -/
def cover (g : Grouping) (lock : Script) (input : Nat) : Option Grouping := do
  let (i, g) ← g.place lock
  let group ← g.groups[i]?
  return { g with groups := g.groups.set i { group with inputs := group.inputs ++ [input] } }

end Grouping

/-- The groups of a transaction whose inputs are under the given locks. -/
def groupInputs (supplied locks : List Script) : Option (List SigningGroup) := do
  let g ← supplied.foldlM (fun g lock => (·.2) <$> g.place lock) ({} : Grouping)
  let g ← locks.zipIdx.foldlM (fun g (lock, input) => g.cover lock input) g
  return g.groups

namespace Grouping

/-- The groups of some locks that cover inputs under some hashes. A hash that has a place is that
of the group there, and one that has none is that of no lock so far. -/
structure Covers (g : Grouping) (entries : List (Hash × Script)) (hashes : List Hash) : Prop where
  groups : g.groups = (distinct [] entries).map fun e => ⟨e.2, positions e.1 hashes⟩
  there hash i : g.places.lookup hash = some i →
    ((distinct [] entries).map Prod.fst)[i]? = some hash
  missing hash : g.places.lookup hash = none → hash ∉ entries.map Prod.fst
  owned : ∀ hash ∈ hashes, hash ∈ entries.map Prod.fst

variable {g : Grouping} {entries : List (Hash × Script)} {hashes : List Hash}

/-- There is a place for a lock, and it is that of its group. -/
theorem Covers.place (h : g.Covers entries hashes) (lock : Script) :
    ∃ i g', g.place lock = some (i, g') ∧ g'.Covers (entries ++ [(lock.hash, lock)]) hashes ∧
      g'.places.lookup lock.hash = some i := by
  have hmem : ∀ hash, hash ∈ (entries ++ [(lock.hash, lock)]).map Prod.fst ↔
      hash ∈ entries.map Prod.fst ∨ hash = lock.hash := fun hash => by
    rw [List.map_append, List.mem_append, List.map_singleton, List.mem_singleton]
  have howned : ∀ hash ∈ hashes, hash ∈ (entries ++ [(lock.hash, lock)]).map Prod.fst :=
    fun hash hh => (hmem hash).mpr (Or.inl (h.owned hash hh))
  unfold Grouping.place
  cases hplace : g.places.lookup lock.hash with
  | some i =>
    have hold : lock.hash ∈ entries.map Prod.fst :=
      mem_hashes_distinct.mp (List.mem_of_getElem? (h.there _ _ hplace))
    have hsame : distinct [] (entries ++ [(lock.hash, lock)]) = distinct [] entries := by
      rw [distinct_concat, if_pos (Or.inr hold)]
    refine ⟨i, g, rfl, ⟨hsame ▸ h.groups, hsame ▸ h.there, fun hash hnone => ?_, howned⟩, hplace⟩
    rw [hmem]
    rintro (hin | rfl)
    · exact h.missing hash hnone hin
    · exact Option.some_ne_none i (hplace.symm.trans hnone)
  | none =>
    have hnew := h.missing _ hplace
    have hadded : distinct [] (entries ++ [(lock.hash, lock)]) =
        distinct [] entries ++ [(lock.hash, lock)] := by
      rw [distinct_concat, if_neg (not_or.mpr ⟨List.not_mem_nil, hnew⟩)]
    have hlength : g.groups.length = (distinct [] entries).length := by
      rw [h.groups, List.length_map]
    simp only [lastPlace_concat]
    refine ⟨_, _, rfl, ⟨?_, fun hash i hi => ?_, fun hash hnone => ?_, howned⟩,
      List.lookup_cons_self⟩
    · rw [hadded, List.map_append, h.groups, List.map_singleton,
        positions_of_not_mem fun hh => hnew (h.owned _ hh)]
    · rw [hadded, List.map_append, List.map_singleton]
      rw [List.lookup_cons] at hi
      split at hi
      · rename_i heq
        rw [← Option.some.inj hi, hlength, ← List.length_map (f := Prod.fst),
          List.getElem?_concat_length, beq_iff_eq.mp heq]
      · have hi := h.there hash i hi
        rw [List.getElem?_append_left (List.getElem?_eq_some_iff.mp hi).1]
        exact hi
    · rw [List.lookup_cons] at hnone
      split at hnone
      · exact nomatch hnone
      · rename_i hne
        rw [hmem]
        rintro (hin | rfl)
        · exact h.missing hash hnone hin
        · exact Bool.false_ne_true (hne.symm.trans (beq_self_eq_true _))

/-- There is a group for an input, which then covers it. -/
theorem Covers.cover (h : g.Covers entries hashes) (lock : Script) :
    ∃ g', g.cover lock hashes.length = some g' ∧
      g'.Covers (entries ++ [(lock.hash, lock)]) (hashes ++ [lock.hash]) := by
  obtain ⟨i, g', hplace, h', hi⟩ := h.place lock
  have hhash := h'.there _ _ hi
  obtain ⟨e, he, heq⟩ := Option.map_eq_some_iff.mp (List.getElem?_map.symm.trans hhash)
  have hgroup : g'.groups[i]? = some ⟨e.2, positions e.1 hashes⟩ := by
    rw [h'.groups, List.getElem?_map, he]
    rfl
  refine ⟨{ g' with groups := g'.groups.set i ⟨e.2, positions e.1 hashes ++ [hashes.length]⟩ },
    ?_, ⟨?_, h'.there, h'.missing, fun hash hh => ?_⟩⟩
  · rw [Grouping.cover, hplace]
    simp only [Option.bind_eq_bind, Option.bind_some, hgroup]
    rfl
  · refine List.ext_getElem? fun j => ?_
    rw [List.getElem?_set, List.getElem?_map]
    by_cases hij : i = j
    · subst hij
      have hlt := (List.getElem?_eq_some_iff.mp hgroup).1
      rw [if_pos rfl, if_pos hlt, he, Option.map_some, positions_concat, heq, if_pos rfl]
    · rw [if_neg hij, h'.groups, List.getElem?_map]
      cases hj : (distinct [] (entries ++ [(lock.hash, lock)]))[j]? with
      | none => rfl
      | some e' =>
        -- the lock's hash has one place only
        have hne : lock.hash ≠ e'.1 := fun heq' => by
          refine hij ((List.getElem?_inj (List.getElem?_eq_some_iff.mp hhash).1
            (nodup_hashes_distinct [] (entries ++ [(lock.hash, lock)]))).mp ?_)
          rw [hhash, List.getElem?_map, hj, heq']
          rfl
        rw [Option.map_some, Option.map_some, positions_concat, if_neg hne, List.append_nil]
  · rw [List.map_append, List.mem_append]
    rcases List.mem_append.mp hh with hh | hh
    · exact Or.inl (h.owned hash hh)
    · exact Or.inr (by simpa using hh)

theorem Covers.foldlM_place (h : g.Covers entries hashes) (locks : List Script) :
    ∃ g', locks.foldlM (fun g lock => (·.2) <$> g.place lock) g = some g' ∧
      g'.Covers (entries ++ locks.map fun s => (s.hash, s)) hashes := by
  induction locks generalizing g entries with
  | nil => exact ⟨g, rfl, by simpa using h⟩
  | cons lock rest ih =>
    obtain ⟨i, g₁, hplace, h₁, -⟩ := h.place lock
    obtain ⟨g', hrest, h'⟩ := ih h₁
    refine ⟨g', ?_, by simpa using h'⟩
    rw [List.foldlM_cons, hplace]
    exact hrest

theorem Covers.foldlM_cover (h : g.Covers entries hashes) (locks : List Script) :
    ∃ g', (locks.zipIdx hashes.length).foldlM (fun g (lock, input) => g.cover lock input) g =
        some g' ∧
      g'.Covers (entries ++ locks.map fun s => (s.hash, s)) (hashes ++ locks.map Script.hash) := by
  induction locks generalizing g entries hashes with
  | nil => exact ⟨g, rfl, by simpa using h⟩
  | cons lock rest ih =>
    obtain ⟨g₁, hcover, h₁⟩ := h.cover lock
    obtain ⟨g', hrest, h'⟩ := ih h₁
    refine ⟨g', ?_, by simpa using h'⟩
    rw [List.length_append, List.length_singleton] at hrest
    rw [List.zipIdx_cons, List.foldlM_cons]
    simp only [hcover]
    exact hrest

end Grouping

theorem groupInputs_eq (supplied locks : List Script) :
    groupInputs supplied locks = some (CellTx.groupInputs supplied locks) := by
  have hempty : Grouping.Covers {} [] [] :=
    ⟨rfl, nofun, fun _ _ => List.not_mem_nil, fun _ hh => absurd hh List.not_mem_nil⟩
  obtain ⟨g₁, hsupplied, h₁⟩ := hempty.foldlM_place supplied
  obtain ⟨g, hlocks, h⟩ := h₁.foldlM_cover locks
  rw [groupInputs, hsupplied]
  simp only [Option.bind_eq_bind, Option.bind_some]
  rw [List.length_nil] at hlocks
  rw [hlocks, Option.bind_some, h.groups, CellTx.groupInputs, List.map_map]
  rfl

end Trapping

end CellTx
