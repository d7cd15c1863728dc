import NCollectd.Plugin.ReadThreads

namespace NCollectd.ReadFuncs

open List

universe u

variable {Callback : Type u} {s s' : System Callback n} {log new : List (Event n)}

theorem llistSearch_spec (live : ∀ entry ∈ list, ∃ func, functions.deref entry = some func)
    (test : ReadFunc Callback → Bool) :
    (∃ entry func, llistSearch functions test list = some (some entry) ∧ entry ∈ list ∧
      functions.deref entry = some func ∧ test func = true) ∨
      llistSearch functions test list = some none ∧
        ∀ entry ∈ list, ∀ func, functions.deref entry = some func → test func = false := by
  induction list with
  | nil => exact .inr ⟨rfl, nofun⟩
  | cons entry list ih =>
    obtain ⟨func, found⟩ := live entry mem_cons_self
    rw [llistSearch, found, Option.bind_some]
    cases passed : test func with
    | true => exact .inl ⟨entry, func, rfl, mem_cons_self, found, passed⟩
    | false =>
      rw [if_neg Bool.false_ne_true]
      rcases ih fun other member => live other (mem_cons_of_mem entry member) with
        ⟨other, func', searched, member, alive, passed'⟩ | ⟨searched, failed⟩
      · exact .inl ⟨other, func', searched, mem_cons_of_mem entry member, alive, passed'⟩
      · refine .inr ⟨searched, fun other member func' alive => ?_⟩
        rcases mem_cons.mp member with rfl | later
        · cases found.symm.trans alive
          exact passed
        · exact failed other later func' alive

theorem Invariant.entry_live (invariant : Invariant s log) (member : rf ∈ entries s.shared) :
    ∃ func, s.shared.functions.deref rf = some func ∧ func.type ≠ .remove := by
  obtain ⟨inserted, unmarked⟩ := (invariant.listed rf).mp member
  rcases mem_append.mp (invariant.places.subset inserted) with owned | destroyed
  · obtain ⟨func, live, mark⟩ := invariant.live rf owned
    exact ⟨func, live, fun removed => unmarked (mark.mp removed)⟩
  · exact absurd (invariant.marks.marked destroyed) unmarked

theorem Invariant.entries_live (invariant : Invariant s log) :
    ∀ entry ∈ entries s.shared, ∃ func, s.shared.functions.deref entry = some func := by
  intro entry member
  obtain ⟨func, live, _⟩ := invariant.entry_live member
  exact ⟨func, live⟩

theorem Invariant.mark (invariant : Invariant s log) (member : rf ∈ entries s.shared) :
    ∃ shared', markRemoved s.shared (entries s.shared) rf = some shared' ∧
      entries shared' = (entries s.shared).erase rf ∧
      (∀ other func, shared'.functions.deref other = some func →
        ∃ old, s.shared.functions.deref other = some old ∧ func.name = old.name) ∧
      Invariant { s with shared := shared' } (log ++ [.marked rf]) := by
  obtain ⟨func, live, _⟩ := invariant.entry_live member
  obtain ⟨functions', stored⟩ : ∃ functions',
      s.shared.functions.store rf { func with type := .remove } = some functions' :=
    ⟨_, Heap.store_live live⟩
  have kept : ∀ other, other ≠ rf → functions'.deref other = s.shared.functions.deref other := by
    intro other different
    rw [Heap.deref_store stored, if_neg different]
  have here : functions'.deref rf = some { func with type := .remove } := by
    rw [Heap.deref_store stored, if_pos rfl]
  have named : ∀ other func', functions'.deref other = some func' →
      ∃ old, s.shared.functions.deref other = some old ∧ func'.name = old.name := by
    intro other func' found
    by_cases same : other = rf
    · subst same
      cases here.symm.trans found
      exact ⟨func, live, rfl⟩
    · rw [kept other same] at found
      exact ⟨func', found, rfl⟩
  have inserted : insertedOf (log ++ [(.marked rf : Event n)]) = insertedOf log := by simp [insertedOf]
  have marks : markedOf (log ++ [(.marked rf : Event n)]) = markedOf log ++ [rf] := by simp [markedOf]
  have destroyed : destroyedOf (log ++ [(.marked rf : Event n)]) = destroyedOf log := by simp [destroyedOf]
  refine ⟨{ s.shared with functions := functions', readList := some ((entries s.shared).erase rf) }, ?_, rfl,
    named, ?_, ?_, ?_, ?_, ?_, ?_, ?_, ?_, ?_, ?_, ?_, ?_⟩
  · simp [markRemoved, live, stored]
  all_goals try simp only [inserted, marks, destroyed]
  · exact invariant.places
  · exact invariant.distinct
  · intro other owned
    by_cases same : other = rf
    · subst same
      exact ⟨_, here, by simp⟩
    · obtain ⟨func', live', mark⟩ := invariant.live other owned
      refine ⟨func', (kept other same).trans live', ?_⟩
      simpa [same] using mark
  · intro other found
    rw [Heap.length_store stored]
    exact invariant.bounded other found
  · intro other
    rw [entries, Option.getD_some, invariant.once.mem_erase_iff, invariant.listed other]
    simp only [mem_append, mem_singleton]
    tauto
  · exact invariant.once.erase rf
  · intro first listed second listed' func₁ func₂ found found' equal
    obtain ⟨old, alive, name⟩ := named first func₁ found
    obtain ⟨old', alive', name'⟩ := named second func₂ found'
    exact invariant.names first (mem_of_mem_erase listed) second (mem_of_mem_erase listed') old old'
      alive alive' (by rw [← name, ← name', equal])
  · intro other found
    rcases mem_append.mp found with earlier | now
    · exact invariant.inserted other earlier
    · obtain rfl := mem_singleton.mp now
      exact ((invariant.listed other).mp member).1
  · exact invariant.marks.append fun _ _ _ shape => absurd shape (no_destroyed rfl)
  · intro thread other due
    exact mem_append_left _ (invariant.known thread other due)
  · exact invariant.created
  · refine le_trans (length_liveBlocks_le _ fun other func' found => ?_) invariant.room
    obtain ⟨old, alive, _⟩ := named other func' found
    exact Heap.mem_liveBlocks.mpr ⟨old, alive⟩

theorem Invariant.unchanged (invariant : Invariant s log) (silent : Silent new) : Invariant s (log ++ new) :=
  invariant.change .refl rfl id (.refl _) invariant.known silent

theorem hasName_iff : hasName name rf = true ↔ rf.name = name := by
  rw [hasName, decide_eq_true_iff, strcmp_eq_zero_iff]

theorem silent_answered (status : Status) : Silent [(.answered status : Event n)] := ⟨rfl, rfl, rfl⟩

def Unlisted (shared : Shared Callback) (name : CString) : Prop :=
  ∀ rf ∈ entries shared, ∀ func, shared.functions.deref rf = some func → func.name ≠ name

section

variable (invariant : Invariant s log)
include invariant

theorem Invariant.unregister_named (name : CString) :
    ∃ s' new, perform s (.unregister (some name)) = some (s', new) ∧ Invariant s' (log ++ new) ∧
      Unlisted s'.shared name := by
  cases created : s.shared.readList with
  | none =>
    refine ⟨s, [.answered (-ENOENT)], ?_, invariant.unchanged (silent_answered _), ?_⟩
    · simp [perform, pluginUnregisterRead, created]
    · intro rf member
      rw [entries, created] at member
      cases member
  | some list =>
    have contents : entries s.shared = list := by rw [entries, created]; rfl
    rcases llistSearch_spec invariant.entries_live (hasName name) with
      ⟨rf, func, searched, member, live, named⟩ | ⟨searched, failed⟩
    · obtain ⟨shared', marked, rest, names, after⟩ := invariant.mark member
      have same := hasName_iff.mp named
      rw [contents] at searched marked
      refine ⟨{ s with shared := shared' }, [.marked rf, .answered 0], ?_, ?_, ?_⟩
      · simp [perform, pluginUnregisterRead, created, searched, marked]
      · have silent := after.unchanged (silent_answered 0)
        rwa [append_assoc] at silent
      · intro other listed func' live' equal
        rw [rest, invariant.once.mem_erase_iff] at listed
        obtain ⟨old, alive, name'⟩ := names other func' live'
        exact listed.1 (invariant.names other listed.2 rf member old func alive live (by rw [← name', equal, same]))
    · rw [contents] at searched
      refine ⟨s, [.answered (-ENOENT)], ?_, invariant.unchanged (silent_answered _), ?_⟩
      · simp [perform, pluginUnregisterRead, created, searched]
      · intro rf member func live equal
        have absent := failed rf member func live
        rw [hasName_iff.mpr equal] at absent
        cases absent

theorem Invariant.unregister (name : Option CString) : Performs s log (.unregister name) := by
  cases name with
  | none => exact ⟨s, _, rfl, invariant.unchanged (silent_answered _)⟩
  | some name =>
    obtain ⟨s', new, performed, after, _⟩ := invariant.unregister_named name
    exact ⟨s', new, performed, after⟩

theorem Invariant.unregisterGroupLoop (group : CString) (enough : (entries s.shared).length ≤ fuel) :
    ∃ marked shared', unregisterGroupLoop group fuel s.shared (entries s.shared) = some (marked, shared') ∧
      Invariant { s with shared := shared' } (log ++ marked.map .marked) := by
  induction fuel generalizing s log with
  | zero =>
    have empty : entries s.shared = [] := eq_nil_of_length_eq_zero (Nat.le_zero.mp enough)
    refine ⟨[], s.shared, ?_, by simpa using invariant⟩
    rw [empty]
    rfl
  | succ fuel ih =>
    rw [ReadFuncs.unregisterGroupLoop]
    rcases llistSearch_spec invariant.entries_live (hasGroup group) with
      ⟨rf, func, searched, member, live, named⟩ | ⟨searched, failed⟩
    · obtain ⟨shared', marked, rest, _, after⟩ := invariant.mark member
      have shorter : (entries shared').length ≤ fuel := by
        rw [rest, length_erase_of_mem member]
        omega
      obtain ⟨more, shared'', returned, final⟩ := ih after shorter
      refine ⟨rf :: more, shared'', ?_, ?_⟩
      · rw [searched, Option.bind_some]
        simp only [marked, Option.bind_some]
        rw [← rest, returned]
        rfl
      · rwa [append_assoc] at final
    · exact ⟨[], s.shared, by rw [searched]; rfl, by simpa using invariant⟩

theorem Invariant.unregisterGroup (group : Option CString) : Performs s log (.unregisterGroup group) := by
  cases group with
  | none => exact ⟨s, _, rfl, invariant.unchanged (silent_answered _)⟩
  | some group =>
    cases created : s.shared.readList with
    | none =>
      refine ⟨s, [.answered (-ENOENT)], ?_, invariant.unchanged (silent_answered _)⟩
      simp [perform, pluginUnregisterReadGroup, created]
    | some list =>
      have contents : entries s.shared = list := by rw [entries, created]; rfl
      obtain ⟨marked, shared', returned, after⟩ := invariant.unregisterGroupLoop group (le_refl _)
      rw [contents] at returned
      refine ⟨{ s with shared := shared' }, marked.map .marked ++ [.answered (if marked = [] then -ENOENT else 0)],
        ?_, ?_⟩
      · simp [perform, pluginUnregisterReadGroup, created, returned]
      · rw [← append_assoc]
        exact after.unchanged (silent_answered _)

end

theorem name_readFunc (request : Registration Callback) : request.readFunc.name = request.name := by
  cases request <;> rfl

theorem type_readFunc (request : Registration Callback) : request.readFunc.type ≠ .remove := by
  cases request <;> nofun

theorem allocate_readFunc (functions : Heap (ReadFunc Callback)) (func func' : ReadFunc Callback) :
    ∃ functions', (functions.alloc func).1.store (functions.alloc func).2 func' = some functions' ∧
      functions'.deref (functions.alloc func).2 = some func' ∧
      (∀ other, other ≠ (functions.alloc func).2 → functions'.deref other = functions.deref other) ∧
      functions'.blocks.length = functions.blocks.length + 1 := by
  obtain ⟨functions', stored⟩ : ∃ functions', (functions.alloc func).1.store (functions.alloc func).2 func' =
      some functions' := ⟨_, Heap.store_live Heap.deref_alloc_self⟩
  refine ⟨functions', stored, ?_, fun other different => ?_, ?_⟩
  · rw [Heap.deref_store stored, if_pos rfl]
  · rw [Heap.deref_store stored, if_neg different, Heap.deref_alloc_ne func different]
  · rw [Heap.length_store stored]
    simp [Heap.alloc]

section

variable (invariant : Invariant s log)
include invariant

theorem Invariant.entry_ne_fresh (member : rf ∈ entries s.shared) (func : ReadFunc Callback)
    : rf ≠ (s.shared.functions.alloc func).2 := by
  obtain ⟨old, live, _⟩ := invariant.entry_live member
  exact Heap.ne_alloc live func

/-- A name that is still in `read_list` is refused, and nothing has changed. -/
theorem Invariant.register_listed (request : Registration Callback) (now : UInt64)
    (member : rf ∈ entries s.shared) (live : s.shared.functions.deref rf = some func)
    (same : func.name = request.name) :
    ∃ functions', perform s (.register request now) =
        some ({ s with shared := { s.shared with functions := functions' } }, [.refused EINVAL]) ∧
      SameFields s.shared.functions functions' ∧
      ∀ other, functions'.deref other = s.shared.functions.deref other := by
  obtain ⟨list, created⟩ : ∃ list, s.shared.readList = some list := by
    cases created : s.shared.readList with
    | none =>
      rw [entries, created] at member
      cases member
    | some list => exact ⟨list, rfl⟩
  obtain ⟨heap, present⟩ : ∃ heap, s.shared.readHeap = some heap := by
    have known := ((invariant.listed rf).mp member).1
    exact Option.ne_none_iff_exists'.mp (invariant.created (ne_nil_of_mem known))
  have contents : entries s.shared = list := by rw [entries, created]; rfl
  obtain ⟨allocated, stored, here, kept, longer⟩ := allocate_readFunc s.shared.functions request.readFunc
    { request.readFunc with nextRead := now, effectiveInterval := request.readFunc.interval }
  have still : ∀ entry ∈ entries s.shared, allocated.deref entry = s.shared.functions.deref entry :=
    fun entry listed => kept entry (invariant.entry_ne_fresh listed _)
  have alive : ∀ entry ∈ entries s.shared, ∃ func, allocated.deref entry = some func := by
    intro entry listed
    rw [still entry listed]
    exact invariant.entries_live entry listed
  obtain ⟨functions', freed⟩ : ∃ functions', allocated.free (s.shared.functions.alloc request.readFunc).2 =
      some functions' := ⟨_, Heap.free_live here⟩
  have unchanged : ∀ other, functions'.deref other = s.shared.functions.deref other := by
    intro other
    by_cases new : other = (s.shared.functions.alloc request.readFunc).2
    · rw [new, Heap.deref_free_self freed, Heap.deref_fresh]
    · rw [Heap.deref_free freed new, kept other new]
  refine ⟨functions', ?_, ⟨?_, fun other => by rw [unchanged other]⟩, unchanged⟩
  · rcases llistSearch_spec alive (hasName request.readFunc.name) with ⟨entry, _, searched, _⟩ | ⟨_, failed⟩
    · rw [contents] at searched
      simp [perform, register, pluginInsertRead, Heap.deref_alloc_self, stored, created, present, searched, EINVAL,
        freed]
    · have absent := failed rf member func ((still rf member).trans live)
      rw [name_readFunc, hasName_iff.mpr same] at absent
      cases absent
  · rw [Heap.length_free freed, longer]
    exact Nat.le_succ _

theorem Invariant.add
    (here : functions'.deref s.shared.functions.blocks.length = some func) (unmarked : func.type ≠ .remove)
    (kept : ∀ other, other ≠ s.shared.functions.blocks.length →
      functions'.deref other = s.shared.functions.deref other)
    (longer : functions'.blocks.length = s.shared.functions.blocks.length + 1)
    (free : Unlisted s.shared func.name)
    (added : heap.list.Perm (s.shared.functions.blocks.length :: heapList s.shared))
    (room : s.shared.functions.liveBlocks.length < readFuncMax) :
    Invariant ⟨⟨functions', some heap,
      some (entries s.shared ++ [s.shared.functions.blocks.length]), s.shared.readLoop⟩,
      s.phase⟩ (log ++ [.inserted s.shared.functions.blocks.length]) := by
  generalize place : s.shared.functions.blocks.length = rf at *
  have unknown : rf ∉ insertedOf log := fun known => lt_irrefl rf (place ▸ invariant.bounded rf known)
  have inserted : insertedOf (log ++ [(.inserted rf : Event n)]) = insertedOf log ++ [rf] := by simp [insertedOf]
  have marks : markedOf (log ++ [(.inserted rf : Event n)]) = markedOf log := by simp [markedOf]
  have destroyed : destroyedOf (log ++ [(.inserted rf : Event n)]) = destroyedOf log := by simp [destroyedOf]
  have notMarked : rf ∉ markedOf log := fun marked => unknown (invariant.inserted rf marked)
  have notListed : rf ∉ entries s.shared := fun listed => unknown ((invariant.listed rf).mp listed).1
  have fresh : ∀ other, other ∈ entries s.shared → other ≠ rf := by
    rintro other listed rfl
    exact notListed listed
  refine ⟨?_, ?_, ?_, ?_, ?_, ?_, ?_, ?_, ?_, ?_, ?_, ?_⟩
  all_goals try simp only [inserted, marks, destroyed, heapList, entries, Option.map_some, Option.getD_some]
  · refine (perm_append_singleton rf _).trans ((invariant.places.cons rf).trans ?_)
    exact (added.symm.append_right _).append_right _
  · refine nodup_append.mpr ⟨invariant.distinct, nodup_singleton rf, ?_⟩
    rintro first known second here' rfl
    obtain rfl := mem_singleton.mp here'
    exact unknown known
  · intro other owned
    rw [mem_append, added.mem_iff, mem_cons, or_assoc] at owned
    rcases owned with rfl | owned
    · exact ⟨func, here, ⟨fun removed => absurd removed unmarked, fun marked => absurd marked notMarked⟩⟩
    · have owned := mem_append.mpr owned
      have different : other ≠ rf := by
        rintro rfl
        exact unknown (invariant.places.symm.subset (mem_append_left _ owned))
      rw [kept other different]
      exact invariant.live other owned
  · intro other known
    rw [longer]
    rcases mem_append.mp known with earlier | now
    · exact Nat.lt_succ_of_lt (place ▸ invariant.bounded other earlier)
    · rw [mem_singleton.mp now]
      exact Nat.lt_succ_self rf
  · intro other
    rw [mem_append, mem_append, mem_singleton]
    constructor
    · rintro (listed | rfl)
      · obtain ⟨known, notMarked'⟩ := (invariant.listed other).mp listed
        exact ⟨.inl known, notMarked'⟩
      · exact ⟨.inr rfl, notMarked⟩
    · rintro ⟨known | rfl, notMarked'⟩
      · exact .inl ((invariant.listed other).mpr ⟨known, notMarked'⟩)
      · exact .inr rfl
  · refine nodup_append.mpr ⟨invariant.once, nodup_singleton rf, ?_⟩
    rintro first listed second here' rfl
    obtain rfl := mem_singleton.mp here'
    exact notListed listed
  · intro first listed second listed' func₁ func₂ found found' equal
    rcases mem_append.mp listed with old | new <;> rcases mem_append.mp listed' with old' | new'
    · rw [kept first (fresh first old)] at found
      rw [kept second (fresh second old')] at found'
      exact invariant.names first old second old' func₁ func₂ found found' equal
    · obtain rfl := mem_singleton.mp new'
      cases here.symm.trans found'
      rw [kept first (fresh first old)] at found
      exact absurd equal (free first old func₁ found)
    · obtain rfl := mem_singleton.mp new
      cases here.symm.trans found
      rw [kept second (fresh second old')] at found'
      exact absurd equal.symm (free second old' func₂ found')
    · rw [mem_singleton.mp new, mem_singleton.mp new']
  · exact fun other marked => mem_append_left _ (invariant.inserted other marked)
  · exact invariant.marks.append fun _ _ _ shape => absurd shape (no_destroyed rfl)
  · exact invariant.known
  · exact fun _ => Option.some_ne_none heap
  · refine le_trans (length_liveBlocks_le (rf :: s.shared.functions.liveBlocks) fun other func' found => ?_) room
    by_cases same : other = rf
    · exact mem_cons.mpr (.inl same)
    · rw [kept other same] at found
      exact mem_cons_of_mem rf (Heap.mem_liveBlocks.mpr ⟨func', found⟩)

/-- Any other name is accepted. -/
theorem Invariant.register_unlisted (request : Registration Callback) (now : UInt64)
    (room : Enabled s (.register request now)) (free : Unlisted s.shared request.name) :
    ∃ s' rf, perform s (.register request now) = some (s', [.inserted rf]) ∧ Invariant s' (log ++ [.inserted rf]) := by
  obtain ⟨functions', stored, here, kept, longer⟩ := allocate_readFunc s.shared.functions request.readFunc
    { request.readFunc with nextRead := now, effectiveInterval := request.readFunc.interval }
  have still : ∀ entry ∈ entries s.shared, functions'.deref entry = s.shared.functions.deref entry :=
    fun entry listed => kept entry (invariant.entry_ne_fresh listed _)
  have alive : ∀ entry ∈ entries s.shared, ∃ func, functions'.deref entry = some func := by
    intro entry listed
    rw [still entry listed]
    exact invariant.entries_live entry listed
  have searched : llistSearch functions' (hasName request.readFunc.name) (entries s.shared) = some none := by
    rcases llistSearch_spec alive (hasName request.readFunc.name) with
      ⟨entry, func, _, listed, found, named⟩ | ⟨none, _⟩
    · rw [still entry listed] at found
      rw [name_readFunc, hasName_iff] at named
      exact absurd named (free entry listed func found)
    · exact none
  have contents : (s.shared.readHeap.getD cHeapCreate).list = heapList s.shared := by
    cases present : s.shared.readHeap with
    | none => simp [heapList, present, cHeapCreate]
    | some heap => simp [heapList, present]
  have heapLive : ∀ rf ∈ (s.shared.functions.alloc request.readFunc).2 :: (s.shared.readHeap.getD cHeapCreate).list,
      ∃ func, functions'.deref rf = some func := by
    intro rf member
    rw [contents] at member
    rcases mem_cons.mp member with rfl | inside
    · exact ⟨_, here⟩
    · obtain ⟨func, live⟩ := invariant.heap_live rf inside
      rw [kept rf (Heap.ne_alloc live _)]
      exact ⟨func, live⟩
  obtain ⟨heap, inserted, added⟩ := heapInsert_spec heapLive (contents ▸ invariant.heap_room)
  rw [contents] at added
  refine ⟨_, (s.shared.functions.alloc request.readFunc).2, ?_,
    invariant.add here (type_readFunc request) kept longer ?_ added room⟩
  · rw [entries] at searched
    simp only [perform, register, pluginInsertRead, Heap.deref_alloc_self, Option.bind_some,
      stored, searched, inserted,
      Option.map_some]
    rfl
  · exact (name_readFunc request).symm ▸ free

theorem Invariant.register (request : Registration Callback) (now : UInt64)
    (room : Enabled s (.register request now)) :
    Performs s log (.register request now) := by
  by_cases free : Unlisted s.shared request.name
  · obtain ⟨s', rf, performed, after⟩ := invariant.register_unlisted request now room free
    exact ⟨s', _, performed, after⟩
  · simp only [Unlisted, not_forall, ne_eq, not_not] at free
    obtain ⟨rf, member, func, live, same⟩ := free
    obtain ⟨functions', performed, fields, _⟩ := invariant.register_listed request now member live same
    refine ⟨_, _, performed, invariant.change fields rfl id (.refl _) invariant.known ⟨rfl, rfl, rfl⟩⟩

end

/-- Every possible step is defined and keeps the invariant. -/
theorem Invariant.step (invariant : Invariant s log) (enabled : Enabled s action) : Performs s log action := by
  cases action with
  | register request now => exact invariant.register request now enabled
  | unregister name => exact invariant.unregister name
  | unregisterGroup group => exact invariant.unregisterGroup group
  | stop => exact ⟨_, [], rfl, invariant.change .refl rfl id (.refl _) invariant.known .nil⟩
  | loop thread => exact invariant.loop enabled
  | pop thread => exact invariant.pop enabled
  | prepare thread interval now =>
    obtain ⟨rf, popped⟩ := enabled
    exact invariant.prepare popped interval now
  | wait thread now rc =>
    obtain ⟨rf, waiting⟩ := enabled
    exact invariant.wait waiting now rc
  | choose thread =>
    obtain ⟨rf, type, due⟩ := enabled
    exact invariant.choose due
  | finish thread status now maxInterval =>
    obtain ⟨rf, running⟩ := enabled
    exact invariant.finish running status now maxInterval
  | insert thread =>
    obtain ⟨rf, leave, reinserting⟩ := enabled
    exact invariant.insert reinserting

theorem invariant_of_execution (run : Execution s log) : Invariant s log :=
  run.holds Invariant invariant_initial fun _ _ _ invariant enabled => invariant.step enabled

/-- No read function is in the hands of two threads. -/
theorem Invariant.held_unique (invariant : Invariant s log) (first : (s.phase thread).held = some rf)
    (second : (s.phase thread').held = some rf) : thread = thread' := by
  by_contra different
  have distinct := (invariant.places.nodup_iff.mp invariant.distinct).of_append_left.of_append_right
  obtain ⟨others, before, after⟩ := heldList_update s.phase thread .top
  rw [first] at before
  have elsewhere : rf ∈ heldList (Function.update s.phase thread .top) :=
    mem_heldList.mpr ⟨thread', by rw [Function.update_of_ne (Ne.symm different), second]⟩
  exact (nodup_cons.mp (before.nodup_iff.mp distinct)).1 (after.subset elsewhere)

theorem held_of_executes {phase : Phase} (running : phase.executes = some rf) : phase.held = some rf := by
  cases phase with
  | running => exact running
  | _ => cases running

/-- Under every interleaving a read function has one owner, and is destroyed once and after it was marked. -/
theorem read_functions_owned (run : Execution s log) :
    (insertedOf log).Nodup ∧
      (insertedOf log).Perm (heapList s.shared ++ heldList s.phase ++ destroyedOf log) ∧
      (∀ thread thread' rf, (s.phase thread).held = some rf → (s.phase thread').held = some rf → thread = thread') ∧
      (∀ thread thread' rf, (s.phase thread).executes = some rf → (s.phase thread').executes = some rf →
        thread = thread') ∧
      DestroyedAfterMark log ∧
      (∀ rf ∈ heapList s.shared ++ heldList s.phase, ∃ func, s.shared.functions.deref rf = some func ∧
        (func.type = .remove ↔ rf ∈ markedOf log)) ∧
      (∀ rf, rf ∈ entries s.shared ↔ rf ∈ insertedOf log ∧ rf ∉ markedOf log) ∧
      (entries s.shared).Nodup ∧
      (∀ rf ∈ entries s.shared, ∀ rf' ∈ entries s.shared, ∀ func func', s.shared.functions.deref rf = some func →
        s.shared.functions.deref rf' = some func' → func.name = func'.name → rf = rf') ∧
      (∀ request now, ∀ rf ∈ entries s.shared, ∀ func, s.shared.functions.deref rf = some func →
        func.name = request.name → ∃ functions', perform s (.register request now) =
            some ({ s with shared := { s.shared with functions := functions' } }, [.refused EINVAL]) ∧
          ∀ other, functions'.deref other = s.shared.functions.deref other) ∧
      (∀ request now, Enabled s (.register request now) → Unlisted s.shared request.name →
        ∃ s' rf, perform s (.register request now) = some (s', [.inserted rf])) ∧
      (∀ request now, ∃ s' new, perform s (.unregister (some request.name)) = some (s', new) ∧
        (Enabled s' (.register request now) →
          ∃ s'' rf, perform s' (.register request now) = some (s'', [.inserted rf]))) ∧
      (∀ action, Enabled s action → ∃ s' new, perform s action = some (s', new)) := by
  have invariant := invariant_of_execution run
  refine ⟨invariant.distinct, invariant.places, fun _ _ _ => invariant.held_unique, fun _ _ _ first second => ?_,
    invariant.marks, invariant.live, invariant.listed, invariant.once, invariant.names, ?_, ?_, ?_, ?_⟩
  · exact invariant.held_unique (held_of_executes first) (held_of_executes second)
  · intro request now rf member func live same
    obtain ⟨functions', performed, _, unchanged⟩ := invariant.register_listed request now member live same
    exact ⟨functions', performed, unchanged⟩
  · intro request now room free
    obtain ⟨s', rf, performed, _⟩ := invariant.register_unlisted request now room free
    exact ⟨s', rf, performed⟩
  · intro request now
    obtain ⟨s', new, performed, after, free⟩ := invariant.unregister_named request.name
    refine ⟨s', new, performed, fun room => ?_⟩
    obtain ⟨s'', rf, registered, _⟩ := after.register_unlisted request now room free
    exact ⟨s'', rf, registered⟩
  · intro action enabled
    obtain ⟨s', new, performed, _⟩ := invariant.step enabled
    exact ⟨s', new, performed⟩

theorem read_functions_owned_again : ∃ (s : System Unit 1) (log : List (Event 1)), Execution s log ∧
    insertedOf log = [0, 1] ∧ markedOf log = [0] ∧ destroyedOf log = [0] ∧
    (insertedOf log).Perm (heapList s.shared ++ heldList s.phase ++ destroyedOf log) := by
  have begin : Execution (.initial : System Unit 1) [] := .start
  have first := begin.step (.register (.simple ['a'] () 10) 5) (show 0 < readFuncMax by decide)
    (by with_unfolding_all rfl)
  have popped := (first.step (.loop 0) rfl rfl).step (.pop 0) rfl (by with_unfolding_all rfl)
  have removed := popped.step (.unregister (some ['a'])) trivial (by with_unfolding_all rfl)
  have second := removed.step (.register (.simple ['a'] () 10) 5) (show 1 < readFuncMax by decide)
    (by with_unfolding_all rfl)
  have due := (second.step (.prepare 0 1 2) ⟨_, rfl⟩ (by with_unfolding_all rfl)).step (.wait 0 7 0) ⟨_, rfl⟩
    (by with_unfolding_all rfl)
  have run := due.step (.choose 0) ⟨_, _, rfl⟩ (by with_unfolding_all rfl)
  exact ⟨_, _, run, by with_unfolding_all rfl, by with_unfolding_all rfl, by with_unfolding_all rfl,
    (read_functions_owned run).2.1⟩

end NCollectd.ReadFuncs
