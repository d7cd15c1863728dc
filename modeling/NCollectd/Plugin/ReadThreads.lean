import NCollectd.Plugin.Read
import NCollectd.Utils.HeapRuns

namespace NCollectd.ReadFuncs

open Option

universe u

variable {Callback : Type u} {s s' : System Callback n} {shared shared' : Shared Callback}
  {functions functions' : Heap (ReadFunc Callback)} {log new : List (Event n)} {thread : Fin n}

def heapList (shared : Shared Callback) : List Block := (shared.readHeap.map CHeap.list).getD []

def entries (shared : Shared Callback) : List Block := shared.readList.getD []

def heldList (phase : Fin n → Phase) : List Block := (List.finRange n).filterMap fun thread => (phase thread).held

def insertedOf (log : List (Event n)) : List Block :=
  log.filterMap fun
    | .inserted rf => some rf
    | _ => none

def markedOf (log : List (Event n)) : List Block :=
  log.filterMap fun
    | .marked rf => some rf
    | _ => none

def destroyedOf (log : List (Event n)) : List Block :=
  log.filterMap fun
    | .destroyed rf => some rf
    | _ => none

@[simp] theorem insertedOf_append : insertedOf (log ++ new) = insertedOf log ++ insertedOf new := List.filterMap_append

@[simp] theorem markedOf_append : markedOf (log ++ new) = markedOf log ++ markedOf new := List.filterMap_append

@[simp] theorem destroyedOf_append : destroyedOf (log ++ new) = destroyedOf log ++ destroyedOf new :=
  List.filterMap_append

/-- A read function is destroyed only after it was marked. -/
def DestroyedAfterMark (log : List (Event n)) : Prop :=
  ∀ before after rf, log = before ++ .destroyed rf :: after → rf ∈ markedOf before

theorem DestroyedAfterMark.marked (order : DestroyedAfterMark log) (member : rf ∈ destroyedOf log) :
    rf ∈ markedOf log := by
  obtain ⟨event, present, found⟩ := List.mem_filterMap.mp member
  obtain ⟨before, after, rfl⟩ := List.append_of_mem present
  cases event with
  | destroyed =>
    cases found
    rw [markedOf_append]
    exact List.mem_append_left _ (order before after rf rfl)
  | _ => cases found

theorem DestroyedAfterMark.append (order : DestroyedAfterMark log)
    (later : ∀ before after rf, new = before ++ .destroyed rf :: after → rf ∈ markedOf (log ++ before)) :
    DestroyedAfterMark (log ++ new) := by
  intro before after rf shape
  rcases List.append_eq_append_iff.mp shape with ⟨middle, rfl, rest⟩ | ⟨middle, rest, tail⟩
  · exact later middle after rf rest
  · cases middle with
    | nil =>
      have found := later [] after rf tail.symm
      rw [rest, List.append_nil, List.append_nil] at found
      exact found
    | cons event middle =>
      cases tail
      exact order before middle rf rest

/-- Events that neither insert, mark nor destroy. -/
structure Silent (new : List (Event n)) : Prop where
  inserts : insertedOf new = []
  marks : markedOf new = []
  destroys : destroyedOf new = []

theorem Silent.nil : Silent ([] : List (Event n)) := ⟨rfl, rfl, rfl⟩

theorem Silent.kept (silent : Silent new) (log : List (Event n)) : insertedOf (log ++ new) = insertedOf log ∧
    markedOf (log ++ new) = markedOf log ∧ destroyedOf (log ++ new) = destroyedOf log := by
  simp [silent.inserts, silent.marks, silent.destroys]

theorem no_destroyed (none : destroyedOf new = []) : new ≠ before ++ .destroyed rf :: after := by
  rintro rfl
  simp [destroyedOf] at none

theorem Silent.destroyedAfterMark (silent : Silent new) (order : DestroyedAfterMark log) :
    DestroyedAfterMark (log ++ new) :=
  order.append fun _ _ _ shape => absurd shape (no_destroyed silent.destroys)

private def heldByOthers (phase : Fin n → Phase) (thread : Fin n) : List Block :=
  ((List.finRange n).erase thread).filterMap fun other => (phase other).held

theorem heldList_perm (phase : Fin n → Phase) (thread : Fin n) :
    (heldList phase).Perm ((phase thread).held.toList ++ heldByOthers phase thread) := by
  refine ((List.perm_cons_erase (List.mem_finRange thread)).filterMap _).trans ?_
  rw [List.filterMap_cons]
  cases (phase thread).held with
  | none | some rf => exact .refl _

theorem heldByOthers_update (phase' : Phase) :
    heldByOthers (Function.update phase thread phase') thread = heldByOthers phase thread := by
  refine List.filterMap_congr fun other member => ?_
  rw [Function.update_of_ne ((List.nodup_finRange n).mem_erase_iff.mp member).1]

theorem heldList_update (phase : Fin n → Phase) (thread : Fin n) (phase' : Phase) :
    ∃ others, (heldList phase).Perm ((phase thread).held.toList ++ others) ∧
      (heldList (Function.update phase thread phase')).Perm (phase'.held.toList ++ others) := by
  refine ⟨heldByOthers phase thread, heldList_perm phase thread, ?_⟩
  have moved := heldList_perm (Function.update phase thread phase') thread
  rwa [Function.update_self, heldByOthers_update] at moved

theorem mem_heldList : rf ∈ heldList phase ↔ ∃ thread, (phase thread).held = some rf := by
  simp [heldList]

def ReadFunc.fields (rf : ReadFunc Callback) : CString × RfType := (rf.name, rf.type)

/-- Both memories have the same read functions, up to their times. -/
structure SameFields (functions functions' : Heap (ReadFunc Callback)) : Prop where
  length : functions.blocks.length ≤ functions'.blocks.length
  fields : ∀ rf, (functions'.deref rf).map ReadFunc.fields = (functions.deref rf).map ReadFunc.fields

theorem SameFields.refl : SameFields functions functions := ⟨le_refl _, fun _ => rfl⟩

theorem SameFields.forward (same : SameFields functions functions') (live : functions.deref rf = some func) :
    ∃ func', functions'.deref rf = some func' ∧ func'.name = func.name ∧ func'.type = func.type := by
  have fields := same.fields rf
  rw [live] at fields
  obtain ⟨func', found, equal⟩ := map_eq_some_iff.mp fields
  exact ⟨func', found, congrArg Prod.fst equal, congrArg Prod.snd equal⟩

theorem SameFields.backward (same : SameFields functions functions') (live : functions'.deref rf = some func') :
    ∃ func, functions.deref rf = some func ∧ func'.name = func.name ∧ func'.type = func.type := by
  have fields := same.fields rf
  rw [live] at fields
  obtain ⟨func, found, equal⟩ := map_eq_some_iff.mp fields.symm
  exact ⟨func, found, (congrArg Prod.fst equal).symm, (congrArg Prod.snd equal).symm⟩

theorem length_liveBlocks_le (bound : List Block) (inside : ∀ rf func, functions'.deref rf = some func → rf ∈ bound) :
    functions'.liveBlocks.length ≤ bound.length := by
  have subset : functions'.liveBlocks ⊆ bound := by
    intro rf member
    obtain ⟨func, live⟩ := Heap.mem_liveBlocks.mp member
    exact inside rf func live
  exact (List.subperm_of_subset Heap.nodup_liveBlocks subset).length_le

/-- Every inserted read function is in one place, and `read_list` has the unmarked ones. -/
structure Invariant (s : System Callback n) (log : List (Event n)) : Prop where
  places : (insertedOf log).Perm (heapList s.shared ++ heldList s.phase ++ destroyedOf log)
  distinct : (insertedOf log).Nodup
  live : ∀ rf ∈ heapList s.shared ++ heldList s.phase, ∃ func, s.shared.functions.deref rf = some func ∧
    (func.type = .remove ↔ rf ∈ markedOf log)
  bounded : ∀ rf ∈ insertedOf log, rf < s.shared.functions.blocks.length
  listed : ∀ rf, rf ∈ entries s.shared ↔ rf ∈ insertedOf log ∧ rf ∉ markedOf log
  once : (entries s.shared).Nodup
  names : ∀ rf ∈ entries s.shared, ∀ rf' ∈ entries s.shared, ∀ func func', s.shared.functions.deref rf = some func →
    s.shared.functions.deref rf' = some func' → func.name = func'.name → rf = rf'
  inserted : ∀ rf ∈ markedOf log, rf ∈ insertedOf log
  marks : DestroyedAfterMark log
  known : ∀ thread rf, s.phase thread = .due rf .remove → rf ∈ markedOf log
  created : insertedOf log ≠ [] → s.shared.readHeap ≠ none
  room : s.shared.functions.liveBlocks.length ≤ readFuncMax

abbrev Performs (s : System Callback n) (log : List (Event n)) (action : Action Callback n) : Prop :=
  ∃ s' new, perform s action = some (s', new) ∧ Invariant s' (log ++ new)

theorem invariant_initial : Invariant (.initial : System Callback n) [] := by
  have nobody : heldList (System.initial : System Callback n).phase = [] :=
    List.filterMap_eq_nil_iff.mpr fun _ _ => rfl
  refine ⟨?_, List.nodup_nil, ?_, nofun, ?_, List.nodup_nil, nofun, nofun, ?_, nofun, ?_, Nat.zero_le _⟩
  · rw [nobody]
    exact .refl _
  · rw [nobody]
    nofun
  · intro rf
    exact ⟨nofun, fun absent => nomatch absent.1⟩
  · exact fun _ _ _ shape => absurd shape (no_destroyed rfl)
  · exact fun nonempty => absurd rfl nonempty

theorem Invariant.change (invariant : Invariant s log)
    (same : SameFields s.shared.functions shared'.functions) (sameEntries : entries shared' = entries s.shared)
    (present : s.shared.readHeap ≠ none → shared'.readHeap ≠ none)
    (owned : (heapList shared' ++ heldList phase').Perm (heapList s.shared ++ heldList s.phase))
    (known : ∀ thread rf, phase' thread = .due rf .remove → rf ∈ markedOf log) (silent : Silent new) :
    Invariant ⟨shared', phase'⟩ (log ++ new) := by
  have kept := silent.kept log
  refine ⟨?_, ?_, ?_, ?_, ?_, ?_, ?_, ?_, ?_, ?_, ?_, ?_⟩
  all_goals try simp only [kept, sameEntries]
  · exact invariant.places.trans (owned.symm.append_right _)
  · exact invariant.distinct
  · intro rf member
    obtain ⟨func, live, mark⟩ := invariant.live rf (owned.subset member)
    obtain ⟨func', live', _, type⟩ := same.forward live
    exact ⟨func', live', type ▸ mark⟩
  · exact fun rf member => lt_of_lt_of_le (invariant.bounded rf member) same.length
  · exact invariant.listed
  · exact invariant.once
  · intro rf member rf' member' func func' live live' equal
    obtain ⟨old, found, name, _⟩ := same.backward live
    obtain ⟨old', found', name', _⟩ := same.backward live'
    exact invariant.names rf member rf' member' old old' found found' (by rw [← name, ← name', equal])
  · exact invariant.inserted
  · exact silent.destroyedAfterMark invariant.marks
  · exact known
  · exact fun nonempty => present (invariant.created nonempty)
  · refine le_trans (length_liveBlocks_le _ fun rf func live => ?_) invariant.room
    obtain ⟨old, found, _⟩ := same.backward live
    exact Heap.mem_liveBlocks.mpr ⟨old, found⟩

theorem Invariant.move (invariant : Invariant s log) (same : SameFields s.shared.functions shared'.functions)
    (list : shared'.readList = s.shared.readList)
    (present : s.shared.readHeap ≠ none → shared'.readHeap ≠ none)
    (moved : (heapList shared' ++ phase'.held.toList).Perm (heapList s.shared ++ (s.phase thread).held.toList))
    (known : ∀ rf, phase' = .due rf .remove → rf ∈ markedOf log) (silent : Silent new) :
    Invariant (s.at shared' thread phase') (log ++ new) := by
  obtain ⟨others, before, after⟩ := heldList_update s.phase thread phase'
  refine invariant.change same (by rw [entries, list, entries]) present ?_ (fun other rf due => ?_) silent
  · refine (after.append_left _).trans (List.Perm.trans ?_ (before.symm.append_left _))
    rw [← List.append_assoc, ← List.append_assoc]
    exact moved.append_right _
  · by_cases here : other = thread
    · subst other
      rw [Function.update_self] at due
      exact known rf due
    · rw [Function.update_of_ne here] at due
      exact invariant.known other rf due

theorem allLive_iff :
    allLive functions pointers = true ↔ ∀ rf ∈ pointers, ∃ func, functions.deref rf = some func := by
  simp only [allLive, List.all_eq_true, isSome_iff_exists]

theorem heapGetRoot_spec (live : ∀ rf ∈ heapList shared, ∃ func, functions.deref rf = some func) :
    ∃ root heap, heapGetRoot functions shared.readHeap = some (root, heap) ∧
      (heapList { shared with readHeap := heap } ++ root.toList).Perm (heapList shared) ∧
      (shared.readHeap ≠ none → heap ≠ none) := by
  cases present : shared.readHeap with
  | none => exact ⟨none, none, rfl, by simp [heapList, present], id⟩
  | some heap =>
    have contents : heapList shared = heap.list := by rw [heapList, present]; rfl
    rw [contents] at live ⊢
    obtain ⟨root, heap', returned, result, _⟩ := cHeapGetRoot_spec (compareBlocks functions) heap
    refine ⟨root, some heap', ?_, ?_, nofun⟩
    · rw [heapGetRoot, if_pos (allLive_iff.mpr live), returned]
      rfl
    · rcases result with ⟨rfl, empty, rfl⟩ | ⟨rf, rfl, taken⟩
      · exact .of_eq (List.append_nil _)
      · exact (List.perm_append_singleton rf heap'.list).trans taken.symm

theorem heapInsert_spec (live : ∀ rf' ∈ rf :: heap.list, ∃ func, functions.deref rf' = some func)
    (room : heap.list.length ≤ readFuncMax) :
    ∃ heap', heapInsert functions heap rf = some (0, heap') ∧ heap'.list.Perm (rf :: heap.list) := by
  obtain ⟨status, heap', returned, result, _⟩ := cHeapInsert_spec (compareBlocks functions) heap rf
  rw [heapInsert, if_pos (allLive_iff.mpr live), returned]
  rcases result with ⟨rfl, added⟩ | ⟨_, _, full⟩
  · exact ⟨heap', rfl, added⟩
  · unfold objectMax at full
    unfold readFuncMax at room
    omega

theorem modify_spec (live : shared.functions.deref rf = some func) (change : ReadFunc Callback → ReadFunc Callback)
    (kept : (change func).fields = func.fields) :
    ∃ functions', shared.modify rf change = some { shared with functions := functions' } ∧
      SameFields shared.functions functions' := by
  obtain ⟨functions', stored⟩ : ∃ functions', shared.functions.store rf (change func) = some functions' :=
    ⟨_, Heap.store_live live⟩
  refine ⟨functions', by rw [Shared.modify, live, bind_some, stored]; rfl, ?_, fun other => ?_⟩
  · exact le_of_eq (Heap.length_store stored).symm
  · rw [Heap.deref_store stored]
    split
    · rename_i same
      rw [same, live, map_some, map_some, kept]
    · rfl

section

variable (invariant : Invariant s log)
include invariant

theorem Invariant.heap_live : ∀ rf ∈ heapList s.shared, ∃ func, s.shared.functions.deref rf = some func := by
  intro rf member
  obtain ⟨func, live, _⟩ := invariant.live rf (List.mem_append_left _ member)
  exact ⟨func, live⟩

theorem Invariant.held_live (held : (s.phase thread).held = some rf) :
    ∃ func, s.shared.functions.deref rf = some func ∧ (func.type = .remove ↔ rf ∈ markedOf log) :=
  invariant.live rf (List.mem_append_right _ (mem_heldList.mpr ⟨thread, held⟩))

theorem Invariant.heap_room : (heapList s.shared).length ≤ readFuncMax := by
  have distinct := (invariant.places.nodup_iff.mp invariant.distinct).of_append_left.of_append_left
  have subset : heapList s.shared ⊆ s.shared.functions.liveBlocks := by
    intro rf member
    exact Heap.mem_liveBlocks.mpr (invariant.heap_live rf member)
  exact le_trans (List.subperm_of_subset distinct subset).length_le invariant.room

theorem Invariant.loop (top : s.phase thread = .top) : Performs s log (.loop thread) := by
  refine ⟨_, [], rfl, invariant.move .refl rfl id ?_ (fun rf due => ?_) .nil⟩
  · rw [top]
    split <;> exact .refl _
  · split at due <;> cases due

theorem Invariant.pop (entering : s.phase thread = .entering) : Performs s log (.pop thread) := by
  obtain ⟨root, heap, returned, taken, present⟩ := heapGetRoot_spec invariant.heap_live
  have performed : perform s (.pop thread) =
      some (s.at { s.shared with readHeap := heap } thread (root.elim .top .popped), []) := by
    rw [perform, returned]
    rfl
  refine ⟨_, _, performed, invariant.move .refl rfl present ?_ (fun rf due => ?_) .nil⟩
  · have held : (root.elim Phase.top Phase.popped).held.toList = root.toList := by cases root <;> rfl
    rw [entering, held]
    exact taken.trans (.of_eq (List.append_nil _).symm)
  · cases root <;> cases due

theorem Invariant.prepare (popped : s.phase thread = .popped rf) (interval now : UInt64) :
    Performs s log (.prepare thread interval now) := by
  obtain ⟨func, live, _⟩ := invariant.held_live (show (s.phase thread).held = some rf by rw [popped]; rfl)
  have kept : (defaultInterval interval now func).fields = func.fields := by
    unfold defaultInterval
    split <;> rfl
  obtain ⟨functions', modified, same⟩ := modify_spec live (defaultInterval interval now) kept
  have performed : perform s (.prepare thread interval now) =
      some (s.at { s.shared with functions := functions' } thread (.waiting rf), []) := by
    simp [perform, popped, modified]
  refine ⟨_, _, performed, invariant.move same rfl id ?_ nofun .nil⟩
  rw [popped]
  exact .refl _

theorem Invariant.wait (waiting : s.phase thread = .waiting rf) (now : UInt64) (rc : Int) :
    Performs s log (.wait thread now rc) := by
  obtain ⟨func, live, mark⟩ := invariant.held_live (show (s.phase thread).held = some rf by rw [waiting]; rfl)
  rw [Performs, perform, waiting]
  dsimp only
  rw [live]
  by_cases early : s.shared.readLoop ∧ now < func.nextRead ∧ rc = 0
  · refine ⟨s, [], by rw [map_some, if_pos early], ?_⟩
    rw [List.append_nil]
    exact invariant
  · refine ⟨_, [], by rw [map_some, if_neg early], invariant.move .refl rfl id ?_ ?_ .nil⟩
    · rw [waiting]
      exact .refl _
    · rintro other due
      obtain ⟨rfl, type⟩ := Phase.due.inj due
      exact mark.mp type

theorem Invariant.finish (running : s.phase thread = .running rf) (status : Int) (now maxInterval : UInt64) :
    Performs s log (.finish thread status now maxInterval) := by
  obtain ⟨func, live, _⟩ := invariant.held_live (show (s.phase thread).held = some rf by rw [running]; rfl)
  obtain ⟨functions', modified, same⟩ := modify_spec live (reschedule status now maxInterval) rfl
  have performed : perform s (.finish thread status now maxInterval) =
      some (s.at { s.shared with functions := functions' } thread (.reinserting rf false), [.finished thread rf]) := by
    simp [perform, running, modified]
  refine ⟨_, _, performed, invariant.move same rfl id ?_ nofun ⟨rfl, rfl, rfl⟩⟩
  rw [running]
  exact .refl _

theorem Invariant.insert (reinserting : s.phase thread = .reinserting rf leave) :
    Performs s log (.insert thread) := by
  have holds : (s.phase thread).held = some rf := by rw [reinserting]; rfl
  obtain ⟨func, live, _⟩ := invariant.held_live holds
  have known : rf ∈ insertedOf log := by
    refine invariant.places.symm.subset (List.mem_append_left _ (List.mem_append_right _ ?_))
    exact mem_heldList.mpr ⟨thread, holds⟩
  cases present : s.shared.readHeap with
  | none => exact absurd present (invariant.created (List.ne_nil_of_mem known))
  | some heap =>
    have contents : heapList s.shared = heap.list := by rw [heapList, present]; rfl
    have room := invariant.heap_room
    have heapLive := invariant.heap_live
    rw [contents] at room heapLive
    have allLive : ∀ rf' ∈ rf :: heap.list, ∃ func, s.shared.functions.deref rf' = some func := by
      intro rf' member
      rcases List.mem_cons.mp member with rfl | inside
      · exact ⟨func, live⟩
      · exact heapLive rf' inside
    obtain ⟨heap', inserted, added⟩ := heapInsert_spec allLive room
    have performed : perform s (.insert thread) =
        some (s.at { s.shared with readHeap := some heap' } thread (if leave then .exited else .top), []) := by
      simp [perform, reinserting, present, inserted]
    refine ⟨_, _, performed, invariant.move .refl rfl (fun _ => nofun) ?_ (fun other due => ?_) .nil⟩
    · have held : (if leave = true then Phase.exited else .top).held.toList = [] := by cases leave <;> rfl
      rw [contents, reinserting, held, List.append_nil]
      exact added.trans (List.perm_append_singleton rf heap.list).symm
    · cases leave <;> cases due

theorem Invariant.destroy (due : s.phase thread = .due rf .remove) :
    ∃ functions', s.shared.functions.free rf = some functions' ∧
      Invariant (s.at { s.shared with functions := functions' } thread .top) (log ++ [.destroyed rf]) := by
  have holds : (s.phase thread).held = some rf := by rw [due]; rfl
  obtain ⟨func, live, _⟩ := invariant.held_live holds
  have marked := invariant.known thread rf due
  obtain ⟨functions', freed⟩ : ∃ functions', s.shared.functions.free rf = some functions' := ⟨_, Heap.free_live live⟩
  have kept : ∀ other, other ≠ rf → functions'.deref other = s.shared.functions.deref other :=
    fun other different => Heap.deref_free freed different
  obtain ⟨others, before, after⟩ := heldList_update s.phase thread .top
  rw [holds] at before
  have places : (insertedOf log).Perm (rf :: (heapList s.shared ++ others ++ destroyedOf log)) := by
    refine invariant.places.trans ?_
    rw [List.append_assoc, List.append_assoc]
    refine ((before.append_right _).append_left _).trans ?_
    exact List.perm_middle
  obtain ⟨outside, _⟩ := List.nodup_cons.mp (places.nodup_iff.mp invariant.distinct)
  have unlisted : rf ∉ entries s.shared := fun listed => ((invariant.listed rf).mp listed).2 marked
  have inserted : insertedOf (log ++ [(.destroyed rf : Event n)]) = insertedOf log := by simp [insertedOf]
  have marks : markedOf (log ++ [(.destroyed rf : Event n)]) = markedOf log := by simp [markedOf]
  have destroyed : destroyedOf (log ++ [(.destroyed rf : Event n)]) = destroyedOf log ++ [rf] := by simp [destroyedOf]
  refine ⟨functions', freed, ?_, ?_, ?_, ?_, ?_, ?_, ?_, ?_, ?_, ?_, ?_, ?_⟩
  all_goals try simp only [System.at, inserted, marks, destroyed]
  · refine places.trans ?_
    have front : (rf :: (heapList s.shared ++ others ++ destroyedOf log)).Perm
        (heapList s.shared ++ others ++ (destroyedOf log ++ [rf])) := by
      rw [← List.append_assoc]
      exact (List.perm_append_singleton rf _).symm
    exact front.trans ((after.symm.append_left _).append_right _)
  · exact invariant.distinct
  · intro other member
    have elsewhere : other ∈ heapList s.shared ++ others := ((after.append_left _).subset member)
    have different : other ≠ rf := by
      rintro rfl
      exact outside (List.mem_append_left _ elsewhere)
    have owned : other ∈ heapList s.shared ++ heldList s.phase := by
      refine (before.append_left _).symm.subset ?_
      rw [List.mem_append] at elsewhere ⊢
      exact elsewhere.imp_right (List.mem_cons_of_mem rf)
    rw [kept other different]
    exact invariant.live other owned
  · intro other member
    rw [Heap.length_free freed]
    exact invariant.bounded other member
  · exact invariant.listed
  · exact invariant.once
  · intro first member second member' func func' live live' equal
    rw [kept first fun same => unlisted (same ▸ member)] at live
    rw [kept second fun same => unlisted (same ▸ member')] at live'
    exact invariant.names first member second member' func func' live live' equal
  · exact invariant.inserted
  · refine invariant.marks.append fun before after other shape => ?_
    obtain ⟨rfl, rest⟩ | ⟨_, impossible⟩ := List.singleton_eq_append_iff.mp shape
    · cases rest
      rw [List.append_nil]
      exact marked
    · cases impossible
  · intro other rf' due'
    by_cases here : other = thread
    · subst other
      rw [Function.update_self] at due'
      cases due'
    · rw [Function.update_of_ne here] at due'
      exact invariant.known other rf' due'
  · exact invariant.created
  · refine le_trans (length_liveBlocks_le _ fun other func live => ?_) invariant.room
    by_cases same : other = rf
    · rw [same, Heap.deref_free_self freed] at live
      cases live
    · rw [kept other same] at live
      exact Heap.mem_liveBlocks.mpr ⟨func, live⟩

theorem Invariant.choose (due : s.phase thread = .due rf type) : Performs s log (.choose thread) := by
  obtain ⟨func, live, _⟩ := invariant.held_live (show (s.phase thread).held = some rf by rw [due]; rfl)
  by_cases stopped : s.shared.readLoop = false
  · refine ⟨s.at s.shared thread (.reinserting rf true), [], by simp only [perform, due, if_pos stopped], ?_⟩
    refine invariant.move .refl rfl id ?_ nofun .nil
    rw [due]
    exact .refl _
  · have runs : ∀ type', type' ≠ .remove → s.phase thread = .due rf type' →
        Performs s log (.choose thread) := by
      intro type' different due'
      refine ⟨s.at s.shared thread (.running rf), [.started thread rf], ?_, ?_⟩
      · cases type' <;> first | exact absurd rfl different | simp [perform, due', if_neg stopped, live]
      · refine invariant.move .refl rfl id ?_ nofun ⟨rfl, rfl, rfl⟩
        rw [due']
        exact .refl _
    cases type with
    | remove =>
      obtain ⟨functions', freed, after⟩ := invariant.destroy due
      exact ⟨_, _, by simp only [perform, due, if_neg stopped, freed, map_some], after⟩
    | simple => exact runs .simple nofun due
    | complex => exact runs .complex nofun due

end

end NCollectd.ReadFuncs
