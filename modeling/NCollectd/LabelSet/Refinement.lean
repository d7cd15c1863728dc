import NCollectd.LabelSet.ArrayInvariant

/-! A label set is meant to be a finite map from valid names to non-empty values. -/

namespace NCollectd.LabelSet

open Option

/-- The map a label set stands for. -/
abbrev LabelMap := CString → Option CString

structure LabelCall where
  name : CString
  value : Option CString
deriving DecidableEq

def LabelMap.empty : LabelMap := fun _ => none

def LabelMap.add (map : LabelMap) (call : LabelCall) : Status × LabelMap :=
  match givenValue call.value with
  | none => (0, Function.update map call.name none)
  | some value =>
    if validLabelName call.name then (0, Function.update map call.name (some value)) else (EINVAL, map)

/-- The array is sorted, holds only valid names and non-empty values, and every lookup gives what the map holds. -/
structure Refines (labels : LabelArray) (map : LabelMap) : Prop where
  wellFormed : ∃ pairs, readPairs labels = some pairs ∧
    (pairs.map LabelPair.name).Pairwise (fun first second => strcmp first second < 0) ∧
    ∀ pair ∈ pairs, pair.value ≠ [] ∧ validLabelName pair.name = true
  lookup : ∀ name, labelSetValue labels name = some (map name)

/-- Along the run the array refines the map, and a call that failed left it as it was. -/
def RunCorrect (labels : LabelArray) (map : LabelMap) : List LabelCall → Prop
  | [] => True
  | call :: rest => ∃ next, labelSetAdd labels call.name call.value = some ((map.add call).1, next) ∧
      Refines next (map.add call).2 ∧ ((map.add call).1 ≠ 0 → next = labels) ∧
      RunCorrect next (map.add call).2 rest

/-- The call deletes a label while a label with a greater name is set. -/
def DeletesInner (map : LabelMap) (call : LabelCall) : Prop :=
  givenValue call.value = none ∧ (map call.name).isSome ∧
    ∃ other, strcmp call.name other < 0 ∧ (map other).isSome

/-- No call of the run deletes a label that is not the last one. -/
def DeletesLastOnly (map : LabelMap) : List LabelCall → Prop
  | [] => True
  | call :: rest => ¬ DeletesInner map call ∧ DeletesLastOnly (map.add call).2 rest

/-- An intact array and the map it holds. -/
structure Intact (labels : LabelArray) (map : LabelMap) (cells : List Cell) : Prop where
  held : Holds labels cells
  sorted : (cells.map Cell.name).Pairwise (· < ·)
  valid : ∀ cell ∈ cells, cell.value ≠ [] ∧ validLabelName cell.name = true
  agrees : ∀ name value, map name = some value ↔ ∃ cell ∈ cells, cell.name = name ∧ cell.value = value

theorem Intact.empty : Intact .empty .empty [] where
  held := ⟨rfl, rfl, by simp, by simp⟩
  sorted := by simp
  valid := by simp
  agrees := by simp [LabelMap.empty]

section

variable (intact : Intact labels map cells)
include intact

theorem Intact.isSome_iff : (map name).isSome ↔ name ∈ cells.map Cell.name := by
  rw [isSome_iff_exists]
  constructor
  · rintro ⟨value, present⟩
    obtain ⟨cell, member, same, _⟩ := (intact.agrees name value).mp present
    exact List.mem_map.mpr ⟨cell, member, same⟩
  · intro member
    obtain ⟨cell, present, same⟩ := List.mem_map.mp member
    exact ⟨cell.value, (intact.agrees name cell.value).mpr ⟨cell, present, same, rfl⟩⟩

theorem Intact.absent (missing : map name = none) : name ∉ cells.map Cell.name := by
  intro member
  simpa [missing] using intact.isSome_iff.mpr member

theorem Intact.locate (present : map name = some value) :
    ∃ front cell back, cells = front ++ cell :: back ∧ cell.name = name ∧ cell.value = value := by
  obtain ⟨cell, member, sameName, sameValue⟩ := (intact.agrees name value).mp present
  obtain ⟨front, back, split⟩ := List.append_of_mem member
  exact ⟨front, cell, back, split, sameName, sameValue⟩

theorem Intact.refines : Refines labels map where
  wellFormed := by
    refine ⟨_, intact.held.readPairs_eq, ?_, ?_⟩
    · have sorted := intact.sorted
      rw [List.map_map]
      exact sorted.imp fun less => (strcmp_neg_iff _ _).mpr less
    · intro pair member
      obtain ⟨cell, present, same⟩ := List.mem_map.mp member
      subst same
      exact intact.valid cell present
  lookup := by
    intro name
    cases present : map name with
    | none =>
      rw [labelSetValue, intact.held.read_absent (intact.absent present)]
    | some value =>
      obtain ⟨front, cell, back, split, rfl, rfl⟩ := intact.locate present
      have here : cells[front.length]? = some cell := by simp [split]
      rw [labelSetValue, intact.held.read_found intact.sorted here]
      simp [intact.held.pairValue_eq here]

end

theorem value_of_update (name other : CString) (map : LabelMap) (value : Option CString) :
    Function.update map name value other = if other = name then value else map other := by
  simp [Function.update_apply]

theorem Intact.create (intact : Intact labels map cells) (missing : map name = none)
    (valid : validLabelName name = true) (given : value ≠ []) :
    ∃ next cells', labelSetCreate labels name value = some (0, next) ∧
      Intact next (Function.update map name (some value)) cells' := by
  have absent := intact.absent missing
  obtain ⟨next, created, held⟩ := intact.held.create absent valid given
  refine ⟨next, _, created, held, sortCells_sorted ?_, ?_, ?_⟩
  · rw [List.map_append, List.nodup_append']
    refine ⟨intact.sorted.imp ne_of_lt, by simp, ?_⟩
    rw [List.map_singleton, List.disjoint_singleton]
    exact absent
  · intro cell member
    rcases List.mem_append.mp ((sortCells_perm _).mem_iff.mp member) with old | new
    · exact intact.valid cell old
    · rw [List.mem_singleton.mp new]
      exact ⟨given, valid⟩
  · intro other stored
    simp only [(sortCells_perm _).mem_iff, List.mem_append, List.mem_singleton, value_of_update]
    by_cases same : other = name
    · subst other
      constructor
      · intro set
        exact ⟨newCell labels name value, .inr rfl, rfl, by simpa [newCell] using set⟩
      · rintro ⟨cell, old | new, sameName, sameValue⟩
        · exact absurd (List.mem_map.mpr ⟨cell, old, sameName⟩) absent
        · subst cell
          simpa [newCell] using sameValue
    · simp only [same, ↓reduceIte]
      rw [intact.agrees other stored]
      constructor
      · rintro ⟨cell, old, names⟩
        exact ⟨cell, .inl old, names⟩
      · rintro ⟨cell, old | new, sameName, sameValue⟩
        · exact ⟨cell, old, sameName, sameValue⟩
        · subst cell
          exact absurd sameName.symm same

theorem sorted_split (sorted : ((front ++ cell :: back).map Cell.name).Pairwise (· < ·)) :
    (∀ other ∈ front, other.name < cell.name) ∧ ∀ other ∈ back, cell.name < other.name := by
  rw [List.map_append, List.map_cons, List.pairwise_append, List.pairwise_cons] at sorted
  obtain ⟨_, ⟨after, _⟩, before⟩ := sorted
  constructor
  · intro other member
    exact before _ (List.mem_map_of_mem member) _ (List.mem_cons_self ..)
  · intro other member
    exact after _ (List.mem_map_of_mem member)

theorem Intact.overwrite (intact : Intact labels map (front ++ cell :: back)) (given : value ≠ []) :
    ∃ next cells', overwriteValue labels front.length value = some (0, next) ∧
      Intact next (Function.update map cell.name (some value)) cells' := by
  obtain ⟨next, fresh, written, held⟩ := intact.held.overwrite value
  obtain ⟨before, after⟩ := sorted_split intact.sorted
  refine ⟨next, _, written, held, ?_, ?_, ?_⟩
  · simpa using intact.sorted
  · intro other member
    rcases List.mem_append.mp member with inFront | inBack
    · exact intact.valid other (List.mem_append_left _ inFront)
    · rcases List.mem_cons.mp inBack with same | inBack
      · subst other
        exact ⟨given, (intact.valid cell (by simp)).2⟩
      · exact intact.valid other (List.mem_append_right _ (List.mem_cons_of_mem _ inBack))
  · intro other stored
    simp only [value_of_update, List.mem_append, List.mem_cons]
    by_cases same : other = cell.name
    · subst other
      simp only [↓reduceIte, some.injEq]
      constructor
      · rintro rfl
        exact ⟨_, .inr (.inl rfl), rfl, rfl⟩
      · rintro ⟨found, inFront | rfl | inBack, sameName, sameValue⟩
        · exact absurd sameName (ne_of_lt (before found inFront))
        · exact sameValue
        · exact absurd sameName.symm (ne_of_lt (after found inBack))
    · simp only [same, ↓reduceIte]
      rw [intact.agrees other stored]
      simp only [List.mem_append, List.mem_cons]
      constructor
      all_goals
        rintro ⟨found, inFront | rfl | inBack, sameName, sameValue⟩
        · exact ⟨found, .inl inFront, sameName, sameValue⟩
        · exact absurd sameName.symm same
        · exact ⟨found, .inr (.inr inBack), sameName, sameValue⟩

theorem Intact.delete_last (intact : Intact labels map (front ++ [cell])) :
    ∃ next, labelSetDelete labels front.length = some (0, next) ∧
      Intact next (Function.update map cell.name none) front := by
  obtain ⟨next, deleted, held⟩ := intact.held.delete_last
  obtain ⟨before, _⟩ := sorted_split intact.sorted
  refine ⟨next, deleted, held, ?_, ?_, ?_⟩
  · have sorted := intact.sorted
    rw [List.map_append, List.pairwise_append] at sorted
    exact sorted.1
  · intro other member
    exact intact.valid other (List.mem_append_left _ member)
  · intro other stored
    simp only [value_of_update]
    by_cases same : other = cell.name
    · subst other
      simp only [↓reduceIte, reduceCtorEq, false_iff]
      rintro ⟨found, member, sameName, _⟩
      exact absurd sameName (ne_of_lt (before found member))
    · simp only [same, ↓reduceIte]
      rw [intact.agrees other stored]
      constructor
      · rintro ⟨found, member, sameName, sameValue⟩
        rcases List.mem_append.mp member with inFront | last
        · exact ⟨found, inFront, sameName, sameValue⟩
        · rw [List.mem_singleton.mp last] at sameName
          exact absurd sameName.symm same
      · rintro ⟨found, member, names⟩
        exact ⟨found, List.mem_append_left _ member, names⟩

theorem given_ne_nil (given : givenValue value = some string) : string ≠ [] := by
  rw [givenValue, filter_eq_some_iff] at given
  simpa using given.2

theorem Intact.add (intact : Intact labels map cells) (allowed : ¬ DeletesInner map call) :
    ∃ next cells', labelSetAdd labels call.name call.value = some ((map.add call).1, next) ∧
      Intact next (map.add call).2 cells' ∧ ((map.add call).1 ≠ 0 → next = labels) := by
  cases present : map call.name with
  | none =>
    have read := intact.held.read_absent (intact.absent present)
    cases given : givenValue call.value with
    | none =>
      have unchanged : Function.update map call.name none = map := by
        rw [← present]
        exact Function.update_eq_self _ _
      refine ⟨labels, cells, ?_, ?_, fun _ => rfl⟩
      · simp [labelSetAdd, read, given, LabelMap.add]
      · simpa [LabelMap.add, given, unchanged] using intact
    | some value =>
      by_cases valid : validLabelName call.name = true
      · obtain ⟨next, cells', created, after⟩ := intact.create present valid (given_ne_nil given)
        refine ⟨next, cells', ?_, ?_, ?_⟩
        · simp [labelSetAdd, read, given, LabelMap.add, valid, created]
        · simpa [LabelMap.add, given, valid] using after
        · simp [LabelMap.add, given, valid]
      · refine ⟨labels, cells, ?_, ?_, fun _ => rfl⟩
        · simp [labelSetAdd, read, given, LabelMap.add, valid, labelSetCreate]
        · simpa [LabelMap.add, given, valid] using intact
  | some old =>
    obtain ⟨front, cell, back, split, sameName, sameValue⟩ := intact.locate present
    subst split
    have here : (front ++ cell :: back)[front.length]? = some cell := by simp
    have read := sameName ▸ intact.held.read_found intact.sorted here
    cases given : givenValue call.value with
    | none =>
      have last : back = [] := by
        by_contra nonempty
        obtain ⟨other, rest, rfl⟩ := List.exists_cons_of_ne_nil nonempty
        have greater := (sorted_split intact.sorted).2 other (by simp)
        refine allowed ⟨given, by simp [present], other.name, ?_, ?_⟩
        · rw [← sameName]
          exact (strcmp_neg_iff _ _).mpr greater
        · exact intact.isSome_iff.mpr (List.mem_map_of_mem (by simp))
      subst last
      obtain ⟨next, deleted, after⟩ := intact.delete_last
      refine ⟨next, front, ?_, ?_, ?_⟩
      · simp [labelSetAdd, read, given, LabelMap.add, deleted]
      · simpa [LabelMap.add, given, sameName] using after
      · simp [LabelMap.add, given]
    | some value =>
      have valid : validLabelName call.name = true := sameName ▸ (intact.valid cell (by simp)).2
      obtain ⟨next, cells', written, after⟩ := intact.overwrite (given_ne_nil given)
      refine ⟨next, cells', ?_, ?_, ?_⟩
      · simp [labelSetAdd, read, given, LabelMap.add, valid, written]
      · simpa [LabelMap.add, given, valid, sameName] using after
      · simp [LabelMap.add, given, valid]

theorem read_sound (read : labelSetRead labels name = some (.ok index)) :
    index < labels.num ∧ pairName labels index = some name := by
  unfold labelSetRead at read
  split at read
  · cases read
  · cases read
  · rename_i found
    obtain rfl : _ = index := by simpa using read
    obtain ⟨bound, compared⟩ := bsearch_sound found
    refine ⟨bound, ?_⟩
    obtain ⟨stored, loaded, zero⟩ := map_eq_some_iff.mp compared
    rw [loaded, (strcmp_eq_zero_iff _ _).mp zero]

theorem Refines.name_at (refines : Refines labels map) (present : (map name).isSome) :
    ∃ index < labels.num, pairName labels index = some name := by
  obtain ⟨value, stored⟩ := isSome_iff_exists.mp present
  have lookup := refines.lookup name
  rw [labelSetValue, stored] at lookup
  split at lookup
  · cases lookup
  · cases lookup
  · rename_i index found
    obtain ⟨bound, named⟩ := read_sound found
    exact ⟨index, bound, named⟩

theorem Refines.names (refines : Refines labels map) :
    ∃ names : List CString, names.length = labels.num ∧ names.Pairwise (· < ·) ∧
      ∀ index < labels.num, pairName labels index = names[index]? := by
  obtain ⟨pairs, read, sorted, _⟩ := refines.wellFormed
  obtain ⟨length, reads⟩ := readAll_eq_some_iff.mp read
  refine ⟨pairs.map LabelPair.name, by simpa using length,
    sorted.imp fun less => (strcmp_neg_iff _ _).mp less, fun index bound => ?_⟩
  have here := reads index bound
  have inside : index < pairs.length := length ▸ bound
  rw [List.getElem?_eq_getElem inside, readPair] at here
  rw [List.getElem?_map, List.getElem?_eq_getElem inside]
  split at here
  · rename_i name value named _
    rw [named, ← some.inj here]
    rfl
  · cases here

theorem mixed_name (held : Holds labels (front ++ [cell, next])) :
    loadPtr (memmove labels.ptr (sizeofPair * front.length) (sizeofPair * (front.length + 1)) 1)
      (sizeofPair * front.length) = none := by
  have size := held.length_le
  simp only [List.length_append, List.length_cons, List.length_nil, sizeofPair, sizeofPtr] at size
  have source : sizeofPair * (front.length + 1) + 1 ≤ labels.ptr.length := by
    simp only [sizeofPair, sizeofPtr]
    omega
  have forward : sizeofPair * front.length ≤ sizeofPair * (front.length + 1) :=
    Nat.mul_le_mul_left _ (Nat.le_succ _)
  have nextHere : (front ++ [cell, next])[front.length + 1]? = some next := by simp
  have cellHere : (front ++ [cell, next])[front.length]? = some cell := by simp
  have moved : (memmove labels.ptr (sizeofPair * front.length) (sizeofPair * (front.length + 1))
      1)[sizeofPair * front.length + 0]? = some (.fragment next.nameAt 0) := by
    rw [getElem?_memmove_within source forward (Nat.le_add_right ..) (by omega),
      show sizeofPair * front.length + 0 - sizeofPair * front.length + sizeofPair * (front.length + 1) =
        sizeofPair * (front.length + 1) + 0 by omega]
    exact held.nameByte_eq nextHere (by decide)
  have stayed : (memmove labels.ptr (sizeofPair * front.length) (sizeofPair * (front.length + 1))
      1)[sizeofPair * front.length + 1]? = some (.fragment cell.nameAt 1) := by
    rw [getElem?_memmove_after source forward (le_refl _)]
    exact held.nameByte_eq cellHere (by decide)
  by_contra loaded
  obtain ⟨block, loaded⟩ := ne_none_iff_exists'.mp loaded
  rw [loadPtr_eq_some_iff] at loaded
  have byte : ∀ offset < sizeofPtr, (memmove labels.ptr (sizeofPair * front.length)
      (sizeofPair * (front.length + 1)) 1)[sizeofPair * front.length + offset]? =
        some (.fragment block offset) := by
    intro offset inside
    rw [← List.getElem?_drop, ← List.getElem?_take_of_lt inside, loaded]
    simp [ptrBytes, inside]
  have first := moved.symm.trans (byte 0 (by decide))
  have second := stayed.symm.trans (byte 1 (by decide))
  simp only [some.injEq, MemVal.fragment.injEq, and_true] at first second
  exact ((held.apart).2 next (by simp) next.nameAt (by simp [Cell.blocks])).1 (first.trans second.symm)

theorem last_slot (held : Holds labels (front ++ cell :: back)) (several : 2 ≤ back.length)
    (here : back[back.length - 2]? = some kept) :
    loadPtr (memmove labels.ptr (sizeofPair * front.length) (sizeofPair * (front.length + 1)) back.length)
      (sizeofPair * (front.length + back.length - 1)) = some kept.nameAt := by
  have size := held.length_le
  simp only [List.length_append, List.length_cons, sizeofPair, sizeofPtr] at size
  have place : (front ++ cell :: back)[front.length + back.length - 1]? = some kept := by
    rw [List.getElem?_append_right (by omega),
      show front.length + back.length - 1 - front.length = (back.length - 2) + 1 by omega,
      List.getElem?_cons_succ]
    exact here
  have before := held.nameBlock_eq place
  rw [nameBlock, loadPtr_eq_some_iff] at before
  rw [loadPtr_eq_some_iff, ← before]
  apply List.ext_getElem?
  intro offset
  by_cases inside : offset < sizeofPtr
  · rw [List.getElem?_take_of_lt inside, List.getElem?_take_of_lt inside, List.getElem?_drop,
      List.getElem?_drop, getElem?_memmove_after]
    · simp only [sizeofPair, sizeofPtr]
      omega
    · exact Nat.mul_le_mul_left _ (Nat.le_succ _)
    · simp only [sizeofPair, sizeofPtr]
      omega
  · rw [List.getElem?_take_eq_none (le_of_not_gt inside),
      List.getElem?_take_eq_none (le_of_not_gt inside)]

private def shifted (labels : LabelArray) (heap : Heap CString) (front back : List Cell) : LabelArray :=
  ⟨heap, memmove labels.ptr (sizeofPair * front.length) (sizeofPair * (front.length + 1)) back.length,
    front.length + back.length⟩

theorem shifted_single (held : Holds labels (front ++ [cell, next])) :
    ¬ Refines (shifted labels heap front [next]) map := by
  intro refines
  obtain ⟨names, length, _, named⟩ := refines.names
  have readable := named front.length (by simp [shifted])
  rw [pairName, nameBlock, shifted] at readable
  simp only [List.length_singleton, mixed_name held, bind_none] at readable
  rw [List.getElem?_eq_getElem (by simp [length, shifted])] at readable
  cases readable

theorem shifted_several (held : Holds labels (front ++ cell :: back)) (several : 2 ≤ back.length)
    (sorted : (back.map Cell.name).Pairwise (· < ·)) (live : ∀ other ∈ front ++ back, other.Live heap)
    (set : ∀ other ∈ back, (map other.name).isSome) :
    ¬ Refines (shifted labels heap front back) map := by
  intro refines
  obtain ⟨names, length, ascending, named⟩ := refines.names
  have size : names.length = front.length + back.length := length
  have keptHere := List.getElem?_eq_getElem (show back.length - 2 < back.length by omega)
  have lastMember := List.getElem_mem (show back.length - 1 < back.length by omega)
  have keptLess : back[back.length - 2].name < back[back.length - 1].name :=
    List.pairwise_iff_getElem.mp (List.pairwise_map.mp sorted) _ _ (by omega) (by omega) (by omega)
  have lastName : names[front.length + back.length - 1]? = some back[back.length - 2].name := by
    rw [← named _ (by simp only [shifted]; omega), pairName, nameBlock, shifted]
    simp only [last_slot held several keptHere, bind_some]
    exact (live _ (List.mem_append_right _ (List.getElem_mem _))).1
  obtain ⟨index, bound, stored⟩ := refines.name_at (set _ lastMember)
  rw [named index bound] at stored
  obtain ⟨indexBound, stored⟩ := List.getElem?_eq_some_iff.mp stored
  obtain ⟨slotBound, lastName⟩ := List.getElem?_eq_some_iff.mp lastName
  have order : names[index] ≤ names[front.length + back.length - 1] := by
    rcases lt_or_ge index (front.length + back.length - 1) with less | equal
    · exact le_of_lt (List.pairwise_iff_getElem.mp ascending _ _ indexBound slotBound less)
    · have same : index = front.length + back.length - 1 := by omega
      simp [same]
  rw [stored, lastName] at order
  exact absurd keptLess (not_lt_of_ge order)

theorem Intact.delete_inner (intact : Intact labels map cells) (inner : DeletesInner map call)
    (added : labelSetAdd labels call.name call.value = some (status, next)) :
    ¬ Refines next (map.add call).2 := by
  obtain ⟨given, present, other, greater, otherPresent⟩ := inner
  obtain ⟨old, stored⟩ := isSome_iff_exists.mp present
  obtain ⟨front, cell, back, split, sameName, _⟩ := intact.locate stored
  subst split
  have here : (front ++ cell :: back)[front.length]? = some cell := by simp
  have read := sameName ▸ intact.held.read_found intact.sorted here
  obtain ⟨before, after⟩ := sorted_split intact.sorted
  have nonempty : back.length ≠ 0 := by
    intro empty
    obtain rfl := List.length_eq_zero_iff.mp empty
    obtain ⟨found, member, named⟩ := List.mem_map.mp (intact.isSome_iff.mp otherPresent)
    have less := (strcmp_neg_iff _ _).mp greater
    rw [← sameName, ← named] at less
    rcases List.mem_append.mp member with inFront | last
    · exact absurd (before found inFront) (not_lt_of_gt less)
    · exact absurd (List.mem_singleton.mp last ▸ less) (lt_irrefl _)
  obtain ⟨heap, live, deleted⟩ := intact.held.delete_eq
  have result : next = shifted labels heap front back := by
    simp only [labelSetAdd, read, given, deleted, ne_eq, nonempty, not_false_eq_true, ↓reduceIte,
      Nat.add_eq_zero_iff, and_false] at added
    simpa [shifted] using congrArg Prod.snd (some.inj added).symm
  rw [result]
  by_cases single : back.length = 1
  · obtain ⟨only, rfl⟩ := List.length_eq_one_iff.mp single
    exact shifted_single intact.held
  · have sorted := intact.sorted
    rw [List.map_append, List.map_cons, List.pairwise_append, List.pairwise_cons] at sorted
    apply shifted_several intact.held (by omega) sorted.2.1.2 live
    intro rest member
    have different : rest.name ≠ call.name := sameName ▸ ne_of_gt (after rest member)
    simp only [LabelMap.add, given, Function.update_of_ne different]
    exact intact.isSome_iff.mpr (List.mem_map_of_mem (by simp [member]))

theorem run_correct_iff (calls : List LabelCall) :
    ∀ {labels map cells}, Intact labels map cells →
      (RunCorrect labels map calls ↔ DeletesLastOnly map calls) := by
  induction calls with
  | nil => exact fun _ => Iff.rfl
  | cons call rest ih =>
    intro labels map cells intact
    constructor
    · rintro ⟨next, added, refines, _, restCorrect⟩
      have allowed : ¬ DeletesInner map call := fun inner => intact.delete_inner inner added refines
      obtain ⟨next', cells', added', after, _⟩ := intact.add allowed
      have same : next = next' := by
        have both := added.symm.trans added'
        simpa using both
      subst next'
      exact ⟨allowed, (ih after).mp restCorrect⟩
    · rintro ⟨allowed, restAllowed⟩
      obtain ⟨next, cells', added, after, unchanged⟩ := intact.add allowed
      exact ⟨next, added, after.refines, unchanged, (ih after).mpr restAllowed⟩

/-- A label set refines its map exactly when every deletion removes the last label. -/
theorem labelSet_refines_map_iff (calls : List LabelCall) :
    RunCorrect .empty .empty calls ↔ DeletesLastOnly .empty calls :=
  run_correct_iff calls Intact.empty

/-- Set `a`, set `b`, delete `a`: the name of the remaining pair cannot be read. -/
theorem labelSet_inner_delete_fails :
    ¬ RunCorrect .empty .empty
      [⟨['a'], some ['1']⟩, ⟨['b'], some ['2']⟩, ⟨['a'], some []⟩] := by
  rintro ⟨first, addedFirst, _, _, second, addedSecond, _, _, third, addedThird, refines, _⟩
  have unreadable : ((labelSetAdd .empty ['a'] (some ['1'])).bind fun first =>
      (labelSetAdd first.2 ['b'] (some ['2'])).bind fun second =>
        (labelSetAdd second.2 ['a'] (some [])).bind fun third =>
          labelSetValue third.2 ['b']) = none := by decide +kernel
  rw [addedFirst, bind_some, addedSecond, bind_some, addedThird, bind_some,
    refines.lookup] at unreadable
  cases unreadable

end NCollectd.LabelSet
