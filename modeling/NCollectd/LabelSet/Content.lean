import NCollectd.LabelSet.Refinement

/-! The list of pairs an intact label array stores. -/

namespace NCollectd.LabelSet

/-- Sorted by name, with valid names and non-empty values. -/
structure WellFormed (pairs : List LabelPair) : Prop where
  sorted : (pairs.map LabelPair.name).Pairwise (· < ·)
  valid : ∀ pair ∈ pairs, pair.value ≠ [] ∧ validLabelName pair.name = true

/-- The array is intact and holds these pairs. -/
def Stores (labels : LabelArray) (pairs : List LabelPair) : Prop :=
  ∃ map cells, Intact labels map cells ∧ cells.map Cell.pair = pairs

theorem WellFormed.ordered (formed : WellFormed pairs) :
    pairs.Pairwise fun first second => first.name < second.name :=
  List.pairwise_map.mp formed.sorted

theorem WellFormed.nodup (formed : WellFormed pairs) : pairs.Nodup := by
  apply formed.ordered.imp
  intro first second less equal
  exact lt_irrefl _ (equal ▸ less)

theorem WellFormed.ext (first : WellFormed pairs) (second : WellFormed others)
    (same : ∀ pair, pair ∈ pairs ↔ pair ∈ others) : pairs = others := by
  have order := (List.perm_ext_iff_of_nodup first.nodup second.nodup).mpr same
  exact order.eq_of_pairwise (fun _ _ _ _ less greater => absurd less (not_lt_of_gt greater))
    first.ordered second.ordered

theorem Intact.mem_pairs (intact : Intact labels map cells) (pair : LabelPair) :
    pair ∈ cells.map Cell.pair ↔ map pair.name = some pair.value := by
  rw [intact.agrees, List.mem_map]
  constructor
  · rintro ⟨cell, member, rfl⟩
    exact ⟨cell, member, rfl, rfl⟩
  · rintro ⟨cell, member, sameName, sameValue⟩
    exact ⟨cell, member, by rw [Cell.pair, sameName, sameValue]⟩

theorem Intact.wellFormed (intact : Intact labels map cells) :
    WellFormed (cells.map Cell.pair) where
  sorted := by
    rw [List.map_map]
    exact intact.sorted
  valid := by
    intro pair member
    obtain ⟨cell, present, rfl⟩ := List.mem_map.mp member
    exact intact.valid cell present

theorem Stores.empty : Stores .empty [] := ⟨_, _, Intact.empty, rfl⟩

section

variable (stores : Stores labels pairs)
include stores

theorem Stores.wellFormed : WellFormed pairs := by
  obtain ⟨map, cells, intact, rfl⟩ := stores
  exact intact.wellFormed

theorem Stores.read : readPairs labels = some pairs := by
  obtain ⟨map, cells, intact, rfl⟩ := stores
  exact intact.held.readPairs_eq

theorem Stores.num : labels.num = pairs.length := by
  obtain ⟨map, cells, intact, rfl⟩ := stores
  simpa using intact.held.num

theorem Stores.pair_at (here : pairs[i]? = some pair) :
    pairName labels i = some pair.name ∧ pairValue labels i = some pair.value := by
  obtain ⟨map, cells, intact, rfl⟩ := stores
  rw [List.getElem?_map] at here
  obtain ⟨cell, inside, rfl⟩ := Option.map_eq_some_iff.mp here
  exact ⟨intact.held.pairName_eq inside, intact.held.pairValue_eq inside⟩

theorem Stores.lookup (name : CString) : ∃ found, labelSetValue labels name = some found ∧
      ∀ value, found = some value ↔ (⟨name, value⟩ : LabelPair) ∈ pairs := by
  obtain ⟨map, cells, intact, rfl⟩ := stores
  exact ⟨map name, intact.refines.lookup name, fun value => (intact.mem_pairs ⟨name, value⟩).symm⟩

theorem Stores.add (given : givenValue value ≠ none) :
    ∃ status next pairs', labelSetAdd labels name value = some (status, next) ∧ Stores next pairs' := by
  obtain ⟨map, cells, intact, rfl⟩ := stores
  have allowed : ¬ DeletesInner map ⟨name, value⟩ := fun inner => given inner.1
  obtain ⟨next, cells', added, after, _⟩ := intact.add allowed
  exact ⟨_, next, _, added, _, cells', after, rfl⟩

theorem Stores.set (valid : validLabelName name = true) (given : value ≠ []) :
    ∃ next pairs', labelSetAdd labels name (some value) = some (0, next) ∧ Stores next pairs' ∧
      ((∀ pair ∈ pairs, pair.name < name) → pairs' = pairs ++ [⟨name, value⟩]) := by
  obtain ⟨map, cells, intact, rfl⟩ := stores
  have kept : givenValue (some value) = some value := by simp [givenValue, given]
  have allowed : ¬ DeletesInner map ⟨name, some value⟩ := by
    intro inner
    simp [DeletesInner, kept] at inner
  obtain ⟨next, cells', added, after, _⟩ := intact.add allowed
  simp only [LabelMap.add, kept, valid, if_true] at added after
  refine ⟨next, _, added, ⟨_, cells', after, rfl⟩, fun greatest => ?_⟩
  have missing : map name = none := by
    by_contra present
    obtain ⟨old, present⟩ := Option.ne_none_iff_exists'.mp present
    exact lt_irrefl _ (greatest ⟨name, old⟩ ((intact.mem_pairs _).mpr present))
  refine after.wellFormed.ext ⟨?_, ?_⟩ ?_
  · rw [List.map_append, List.pairwise_append]
    refine ⟨intact.wellFormed.sorted, by simp, ?_⟩
    intro first member second last
    obtain ⟨pair, present, rfl⟩ := List.mem_map.mp member
    simpa [List.mem_singleton.mp last] using greatest pair present
  · intro pair member
    rcases List.mem_append.mp member with old | new
    · exact intact.wellFormed.valid pair old
    · rw [List.mem_singleton.mp new]
      exact ⟨given, valid⟩
  · intro pair
    rw [after.mem_pairs, List.mem_append, intact.mem_pairs, List.mem_singleton, Function.update_apply]
    by_cases same : pair.name = name
    · obtain ⟨found, stored⟩ := pair
      obtain rfl : found = name := same
      simp [missing, eq_comm]
    · have different : pair ≠ ⟨name, value⟩ := fun equal => same (congrArg LabelPair.name equal)
      simp [same, different]

end

/-- A sequence of `label_set_add` calls. -/
def runCalls (labels : LabelArray) : List LabelCall → Option LabelArray
  | [] => some labels
  | call :: calls => (labelSetAdd labels call.name call.value).bind fun result => runCalls result.2 calls

theorem Stores.run (stores : Stores labels pairs) (given : ∀ call ∈ calls, givenValue call.value ≠ none)
    (ran : runCalls labels calls = some next) : ∃ pairs', Stores next pairs' := by
  induction calls generalizing labels pairs with
  | nil =>
    cases ran
    exact ⟨pairs, stores⟩
  | cons call rest ih =>
    obtain ⟨result, added, later⟩ := Option.bind_eq_some_iff.mp ran
    obtain ⟨status, middle, pairs', added', stores'⟩ := stores.add (given call List.mem_cons_self)
    obtain rfl : (status, middle) = result := Option.some.inj (added'.symm.trans added)
    exact ih stores' (fun call member => given call (List.mem_cons_of_mem _ member)) later

end NCollectd.LabelSet
