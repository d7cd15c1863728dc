import NCollectd.Cmds.PutvalOptions

/-! Who owns the meta data of a `PUTVAL` command. -/

namespace NCollectd.Cmds

open Common List

def carries (heap : Heap MetaData) (vl : ValueList) : Option Announced :=
  match vl.metaData with
  | none => some ⟨vl.interval, none⟩
  | some md => (heap.deref md).map fun entries => ⟨vl.interval, some entries⟩

/-- Value lists carry the options in front of them and share no object, and all are freed once. -/
def OptionsApply (daemon : Daemon) (opts : CmdOptions) (argv : List (CString × CdTime)) : Prop :=
  ∃ result, cmdParsePutval daemon opts argv = some result ∧
    (result.status = .ok →
      result.putval.vl.map (carries result.heap) = (carried daemon .nothing (argv.tail.map Prod.fst)).map some ∧
        (result.putval.vl.filterMap (·.metaData)).Nodup) ∧
    ∃ putval heap, cmdDestroyPutval result.putval result.heap = some (putval, heap) ∧ heap.liveBlocks = []

def processed (daemon : Daemon) (opts : CmdOptions) (argv : List (CString × CdTime)) : List CString :=
  match openPutval daemon opts (argv.map Prod.fst) with
  | .error _ => []
  | .ok (_, _, ds) => (argv.tail.takeWhile (passes daemon ds)).map Prod.fst

def accepts (daemon : Daemon) (opts : CmdOptions) (argv : List (CString × CdTime)) : Bool :=
  match openPutval daemon opts (argv.map Prod.fst) with
  | .error _ => false
  | .ok (_, _, ds) => argv.tail.all (passes daemon ds)

def fromMeta (arguments : List CString) : List CString := arguments.dropWhile (!isMeta ·)

/-- No meta option, or exactly one values string after the first and no effect of later ones. -/
def MetaOwnedOnce (daemon : Daemon) (opts : CmdOptions) (argv : List (CString × CdTime)) : Prop :=
  fromMeta (processed daemon opts argv) = [] ∨
    (fromMeta (processed daemon opts argv)).countP isValues = 1 ∧
      (accepts daemon opts argv = true →
        (announce daemon .nothing (fromMeta (processed daemon opts argv))).metaMap =
          (announce daemon .nothing ((fromMeta (processed daemon opts argv)).takeWhile (!isValues ·))).metaMap)

section Announced

variable {options other : Announced}

theorem metaMap_announce_congr (same : options.metaMap = other.metaMap) (arguments : List CString) :
    (announce daemon options arguments).metaMap = (announce daemon other arguments).metaMap := by
  induction arguments generalizing options other with
  | nil => exact same
  | cons argument rest ih =>
    apply ih
    cases parsed : cmdParseOption argument with
    | error status => simpa only [Announced.apply, parsed] using same
    | ok option =>
      simp only [Announced.apply, parsed]
      split
      · exact same
      · split
        · simp only [same]
        · exact same

theorem isSome_apply (present : options.metaMap.isSome = true) (argument : CString) :
    (options.apply daemon argument).metaMap.isSome = true := by
  have touched := metaMap_apply daemon options argument
  split at touched
  · exact touched
  · rw [touched]
    exact present

theorem isSome_announce (present : options.metaMap.isSome = true) (arguments : List CString) :
    (announce daemon options arguments).metaMap.isSome = true := by
  induction arguments generalizing options with
  | nil => exact present
  | cons argument rest ih => exact ih (isSome_apply present argument)

theorem metaMap_announce_unmarked
    (unmarked : ∀ argument ∈ arguments, isMeta argument = false) :
    (announce daemon options arguments).metaMap = options.metaMap := by
  induction arguments generalizing options with
  | nil => rfl
  | cons argument rest ih =>
    have head : (options.apply daemon argument).metaMap = options.metaMap :=
      metaMap_apply_of_not_isMeta (unmarked argument (mem_cons_self ..)) options
    exact (ih fun later member => unmarked later (mem_cons_of_mem _ member)).trans head

theorem length_carried (options : Announced) (arguments : List CString) :
    (carried daemon options arguments).length = arguments.countP isValues := by
  induction arguments generalizing options with
  | nil => rfl
  | cons argument rest ih =>
    by_cases values : isValues argument = true
    all_goals simp [carried, values, ih]

theorem carried_single (one : arguments.countP isValues = 1) (options : Announced) :
    carried daemon options arguments = [announce daemon options (arguments.takeWhile (!isValues ·))] := by
  induction arguments generalizing options with
  | nil => simp at one
  | cons argument rest ih =>
    by_cases values : isValues argument = true
    · have none : rest.countP isValues = 0 := by simpa [values] using one
      have nothing : carried daemon options rest = [] := by
        apply eq_nil_of_length_eq_zero
        rw [length_carried, none]
      simp [carried, values, nothing, announce]
    · have later : rest.countP isValues = 1 := by simpa [values] using one
      simpa [carried, values, announce] using ih later (options.apply daemon argument)

theorem mem_carried_marked (present : options.metaMap.isSome = true)
    (member : given ∈ carried daemon options arguments) : given.metaMap.isSome = true := by
  induction arguments generalizing options with
  | nil => cases member
  | cons argument rest ih =>
    unfold carried at member
    split at member
    · rcases mem_cons.mp member with same | later
      · rw [same]
        exact present
      · exact ih present later
    · exact ih (isSome_apply present argument) member

theorem mem_carried_unmarked
    (unmarked : ∀ argument ∈ arguments, isMeta argument = false) (absent : options.metaMap = none)
    (member : given ∈ carried daemon options arguments) : given.metaMap = none := by
  induction arguments generalizing options with
  | nil => cases member
  | cons argument rest ih =>
    have tail := fun later inside => unmarked later (mem_cons_of_mem argument inside)
    unfold carried at member
    split at member
    · rcases mem_cons.mp member with same | later
      · rw [same]
        exact absent
      · exact ih tail absent later
    · refine ih tail ?_ member
      rw [metaMap_apply_of_not_isMeta (unmarked argument (mem_cons_self ..))]
      exact absent

end Announced

section Owners

variable {arguments : List CString}

theorem unmarked_front (member : argument ∈ arguments.takeWhile (!isMeta ·)) : isMeta argument = false := by
  simpa using mem_takeWhile_imp member

theorem isMeta_first (first : fromMeta arguments = argument :: rest) : isMeta argument = true := by
  have stopped := head?_dropWhile_not (!isMeta ·) arguments
  rw [fromMeta] at first
  simpa [first] using stopped

section

variable (daemon : Daemon) (arguments : List CString)

theorem carried_fromMeta :
    ∃ options front, options.metaMap = none ∧ (∀ given ∈ front, given.metaMap = none) ∧
      announce daemon .nothing arguments = announce daemon options (fromMeta arguments) ∧
      carried daemon .nothing arguments = front ++ carried daemon options (fromMeta arguments) := by
  have split : arguments.takeWhile (!isMeta ·) ++ fromMeta arguments = arguments := takeWhile_append_dropWhile
  refine ⟨announce daemon .nothing (arguments.takeWhile (!isMeta ·)),
    carried daemon .nothing (arguments.takeWhile (!isMeta ·)),
    metaMap_announce_unmarked fun argument => unmarked_front, ?_, ?_, ?_⟩
  · intro given member
    exact mem_carried_unmarked (fun argument => unmarked_front) rfl member
  · rw [announce, announce, announce, ← foldl_append, split]
  · rw [← carried_append, split]

theorem metaMap_announce_fromMeta :
    (announce daemon .nothing arguments).metaMap = (announce daemon .nothing (fromMeta arguments)).metaMap := by
  obtain ⟨options, front, absent, -, announced, -⟩ := carried_fromMeta daemon arguments
  rw [announced]
  exact metaMap_announce_congr absent _

theorem countP_carried :
    (carried daemon .nothing arguments).countP (·.metaMap.isSome) = (fromMeta arguments).countP isValues := by
  obtain ⟨options, front, -, before, -, split⟩ := carried_fromMeta daemon arguments
  have outside : front.countP (·.metaMap.isSome) = 0 := by
    apply countP_eq_zero.mpr
    intro given member
    simp [before given member]
  have total : (carried daemon options (fromMeta arguments)).length = (fromMeta arguments).countP isValues :=
    length_carried options _
  rw [split, countP_append, outside, zero_add, ← total]
  apply countP_eq_length.mpr
  cases marked : fromMeta arguments with
  | nil =>
    intro given member
    cases member
  | cons argument rest =>
    have first := isMeta_first marked
    have touched := metaMap_apply daemon options argument
    rw [if_pos first] at touched
    intro given member
    rw [carried, if_neg (by simp [not_isValues_of_isMeta first])] at member
    exact mem_carried_marked touched member

theorem metaMap_fromMeta :
    (announce daemon .nothing (fromMeta arguments)).metaMap.isSome = true ↔ fromMeta arguments ≠ [] := by
  cases marked : fromMeta arguments with
  | nil => simp [announce, Announced.nothing]
  | cons argument rest =>
    have touched := metaMap_apply daemon .nothing argument
    rw [if_pos (isMeta_first marked)] at touched
    exact iff_of_true (isSome_announce touched rest) (cons_ne_nil _ _)

end

theorem single_owner_iff (daemon : Daemon) (one : (fromMeta arguments).countP isValues = 1)
    (final : Option MetaData) :
    (∀ given ∈ carried daemon .nothing arguments, given.metaMap.isSome = true → given.metaMap = final) ↔
      (announce daemon .nothing ((fromMeta arguments).takeWhile (!isValues ·))).metaMap = final := by
  obtain ⟨options, front, absent, before, -, split⟩ := carried_fromMeta daemon arguments
  have owner : (announce daemon options ((fromMeta arguments).takeWhile (!isValues ·))).metaMap =
      (announce daemon .nothing ((fromMeta arguments).takeWhile (!isValues ·))).metaMap :=
    metaMap_announce_congr absent _
  have present : ∃ given ∈ carried daemon .nothing arguments, given.metaMap.isSome = true := by
    apply countP_pos_iff.mp
    rw [countP_carried, one]
    exact Nat.one_pos
  rw [split, carried_single one] at present ⊢
  constructor
  · intro agree
    obtain ⟨given, member, some⟩ := present
    rw [← owner]
    rcases mem_append.mp member with outside | inside
    · simp [before given outside] at some
    · rw [← mem_singleton.mp inside]
      exact agree given member some
  · intro same given member some
    rcases mem_append.mp member with outside | inside
    · simp [before given outside] at some
    · rw [mem_singleton.mp inside, owner]
      exact same

end Owners

theorem destroyMetaData_eq (heap : Heap MetaData) (vls : List ValueList) :
    destroyMetaData heap vls = (vls.filterMap (·.metaData)).foldlM Heap.free heap := by
  induction vls generalizing heap with
  | nil => rfl
  | cons vl rest ih =>
    unfold destroyMetaData metaDataDestroy
    cases pointer : vl.metaData with
    | none => simpa [pointer] using ih heap
    | some md => simp [pointer, ih]

theorem Follows.pointers (follows : Follows s options given) :
    s.putval.vl.filterMap (·.metaData) = replicate (given.countP (·.metaMap.isSome)) 0 := by
  have pairs : s.putval.vl.filterMap (·.metaData) =
      (s.putval.vl.map fun vl => (vl.interval, vl.metaData)).filterMap Prod.snd := by
    rw [filterMap_map]
    rfl
  rw [pairs, follows.lists, filterMap_map]
  clear pairs follows
  induction given with
  | nil => rfl
  | cons first rest ih =>
    cases marked : first.metaMap with
    | none => simpa [marked] using ih
    | some entries => simpa [marked, replicate_succ] using ih

theorem freed_once_iff (entries : Option MetaData) (count : Nat) :
    (∃ heap, (replicate count 0).foldlM Heap.free ⟨entries.toList.map some⟩ = some heap ∧ heap.liveBlocks = []) ↔
      count = entries.toList.length := by
  cases entries with
  | none =>
    cases count with
    | zero => simp [Heap.liveBlocks]
    | succ count => simp [replicate_succ, Heap.free, Heap.deref]
  | some entries =>
    cases count with
    | zero => simp [Heap.liveBlocks, Heap.deref]
    | succ count =>
      cases count with
      | zero => simp [Heap.free, Heap.deref, Heap.liveBlocks]
      | succ count => simp [replicate_succ, Heap.free, Heap.deref]

theorem Follows.destroyed_iff (follows : Follows s options given) :
    (∃ putval heap, cmdDestroyPutval s.putval s.heap = some (putval, heap) ∧ heap.liveBlocks = []) ↔
      given.countP (·.metaMap.isSome) = options.metaMap.toList.length := by
  rw [← freed_once_iff options.metaMap, ← follows.heap, ← follows.pointers, ← destroyMetaData_eq]
  simp [cmdDestroyPutval]

theorem Follows.carries_iff (follows : Follows s options given) :
    s.putval.vl.map (carries s.heap) = given.map some ↔
      ∀ first ∈ given, first.metaMap.isSome = true → first.metaMap = options.metaMap := by
  have read : s.putval.vl.map (carries s.heap) =
      (s.putval.vl.map fun vl => (vl.interval, vl.metaData)).map fun pair =>
        carries s.heap { ValueList.init with interval := pair.1, metaData := pair.2 } := by
    rw [map_map]
    rfl
  rw [read, follows.lists, map_map, map_inj_left]
  refine forall_congr' fun first => imp_congr_right fun member => ?_
  obtain ⟨interval, metaMap⟩ := first
  cases metaMap with
  | none => simp [carries]
  | some entries =>
    simp only [Function.comp, carries, Option.map_some, follows.deref]
    cases options.metaMap <;> simp [eq_comm]

theorem openPutval_scratch (opened : openPutval daemon opts argv = .ok (identifier, vl, ds)) :
    vl.interval = 0 ∧ vl.metaData = none := by
  have initial : (initialScratch opts).interval = 0 ∧ (initialScratch opts).metaData = none := by
    unfold initialScratch
    split
    all_goals exact ⟨rfl, rfl⟩
  unfold openPutval at opened
  split at opened
  · split at opened
    · cases opened
    · rename_i scratch parsed
      obtain ⟨interval, pointer⟩ := parseIdentifierVl_frame parsed
      split at opened
      · cases opened
      · cases opened
        exact ⟨interval.trans initial.1, pointer.trans initial.2⟩
  · cases opened

/-- The loop of `cmd_parse_putval` starts with nothing announced. -/
theorem follows_start (opened : openPutval daemon opts argv = .ok (identifier, vl, ds)) :
    Follows ⟨.empty, vl, ⟨some identifier, []⟩⟩ .nothing [] := by
  obtain ⟨interval, pointer⟩ := openPutval_scratch opened
  exact ⟨interval, pointer, rfl, rfl⟩

theorem owned_once_iff (daemon : Daemon) (arguments : List CString) :
    (carried daemon .nothing arguments).countP (·.metaMap.isSome) =
        (announce daemon .nothing arguments).metaMap.toList.length ↔
      fromMeta arguments = [] ∨ (fromMeta arguments).countP isValues = 1 := by
  rw [countP_carried, metaMap_announce_fromMeta]
  have present := metaMap_fromMeta daemon arguments
  by_cases unmarked : fromMeta arguments = []
  · simp [unmarked, announce, Announced.nothing]
  · obtain ⟨entries, found⟩ := Option.isSome_iff_exists.mp (present.mpr unmarked)
    simp [unmarked, found]

theorem Follows.destroyed_once_iff
    (follows : Follows s (announce daemon .nothing arguments) (carried daemon .nothing arguments)) :
    (∃ putval heap, cmdDestroyPutval s.putval s.heap = some (putval, heap) ∧ heap.liveBlocks = []) ↔
      fromMeta arguments = [] ∨ (fromMeta arguments).countP isValues = 1 :=
  follows.destroyed_iff.trans (owned_once_iff daemon arguments)

theorem carried_unmarked (unmarked : fromMeta arguments = []) (member : given ∈ carried daemon .nothing arguments) :
    given.metaMap.isSome = false := by
  have none := countP_carried daemon arguments
  rw [unmarked, countP_nil] at none
  simpa using countP_eq_zero.mp none given member

theorem Follows.accepted_iff
    (follows : Follows s (announce daemon .nothing arguments) (carried daemon .nothing arguments)) :
    ((s.putval.vl.map (carries s.heap) = (carried daemon .nothing arguments).map some ∧
        (s.putval.vl.filterMap (·.metaData)).Nodup) ∧
      ∃ putval heap, cmdDestroyPutval s.putval s.heap = some (putval, heap) ∧ heap.liveBlocks = []) ↔
      fromMeta arguments = [] ∨
        (fromMeta arguments).countP isValues = 1 ∧
          (announce daemon .nothing (fromMeta arguments)).metaMap =
            (announce daemon .nothing ((fromMeta arguments).takeWhile (!isValues ·))).metaMap := by
  rw [follows.destroyed_once_iff, follows.carries_iff, follows.pointers, nodup_replicate, countP_carried,
    metaMap_announce_fromMeta]
  by_cases unmarked : fromMeta arguments = []
  · refine iff_of_true ⟨⟨?_, by simp [unmarked]⟩, .inl unmarked⟩ (.inl unmarked)
    intro given member present
    rw [carried_unmarked unmarked member] at present
    cases present
  · constructor
    · rintro ⟨⟨agree, -⟩, once⟩
      have one := once.resolve_left unmarked
      exact .inr ⟨one, ((single_owner_iff daemon one _).mp agree).symm⟩
    · intro owned
      obtain ⟨one, same⟩ := owned.resolve_left unmarked
      exact ⟨⟨(single_owner_iff daemon one _).mpr same.symm, le_of_eq one⟩, .inr one⟩

section Ending

variable {s : PutvalState}

theorem cmdDestroyPutval_zero (destroyed : cmdDestroyPutval putval heap = some (putval', heap')) :
    putval' = .zero := by
  obtain ⟨after, -, same⟩ := Option.map_eq_some_iff.mp destroyed
  exact (congrArg Prod.fst same).symm

/-- A failed command has destroyed its result; destroying it again does nothing. -/
theorem destroyed_again (failed : status ≠ .ok) (carrying : PutvalResult → Prop) :
    (∃ result : PutvalResult,
        ((cmdDestroyPutval s.putval s.heap).map fun ended => ⟨status, message, ended.1, ended.2⟩) = some result ∧
          (result.status = .ok → carrying result) ∧
          ∃ putval heap, cmdDestroyPutval result.putval result.heap = some (putval, heap) ∧ heap.liveBlocks = []) ↔
      ∃ putval heap, cmdDestroyPutval s.putval s.heap = some (putval, heap) ∧ heap.liveBlocks = [] := by
  constructor
  · rintro ⟨result, parsed, -, putval, heap, again, empty⟩
    obtain ⟨ended, destroyed, same⟩ := Option.map_eq_some_iff.mp parsed
    subst same
    rw [cmdDestroyPutval_zero destroyed] at again
    cases again
    exact ⟨ended.1, ended.2, destroyed, empty⟩
  · rintro ⟨putval, heap, destroyed, empty⟩
    rw [destroyed]
    refine ⟨_, rfl, fun succeeded => (failed succeeded).elim, .zero, heap, ?_, empty⟩
    rw [cmdDestroyPutval_zero destroyed]
    rfl

end Ending

/-- Options apply to the values behind them, exactly if one value list owns the meta data. -/
theorem putval_options_apply_iff (daemon : Daemon) (opts : CmdOptions) (argv : List (CString × CdTime)) :
    OptionsApply daemon opts argv ↔ MetaOwnedOnce daemon opts argv := by
  unfold OptionsApply MetaOwnedOnce processed accepts
  cases opened : openPutval daemon opts (argv.map Prod.fst) with
  | error message =>
    have parsed : cmdParsePutval daemon opts argv = some ⟨.parseError, some message, .zero, .empty⟩ := by
      simp only [cmdParsePutval, opened]
    refine iff_of_true ⟨_, parsed, ?_, .zero, .empty, rfl, rfl⟩ (.inl rfl)
    intro succeeded
    cases succeeded
  | ok start =>
    obtain ⟨identifier, vl, ds⟩ := start
    obtain ⟨status, message, s, looped, ended, follows⟩ := (follows_start opened).run daemon ds argv.tail
    rw [nil_append] at follows
    by_cases succeeded : status = .ok
    · subst succeeded
      have all := ended.mp rfl
      have whole := takeWhile_eq_self_iff.mpr (all_eq_true.mp all)
      rw [whole] at follows
      simp only [cmdParsePutval, opened, looped, Option.some.injEq, exists_eq_left', forall_const, all, whole]
      exact follows.accepted_iff
    · have stopped : argv.tail.all (passes daemon ds) = false := by
        simpa using fun all => succeeded (ended.mpr all)
      simp only [cmdParsePutval, opened, looped, stopped, Bool.false_eq_true, false_implies, and_true]
      rw [destroyed_again succeeded]
      exact follows.destroyed_once_iff

def counterDaemon : Daemon :=
  ⟨⟨fun _ => ⟨.fin 0, 0, false⟩, fun _ => 0, fun _ => []⟩, fun _ => some ⟨[DS_TYPE_COUNTER]⟩⟩

def sharedArguments : List (CString × CdTime) :=
  [("h/p/t", 1), ("meta:a=b", 1), ("N:1", 1), ("N:2", 1)]

theorem putval_destroys_twice : ¬ OptionsApply counterDaemon ⟨none⟩ sharedArguments := by
  have twice : ((cmdParsePutval counterDaemon ⟨none⟩ sharedArguments).bind fun result =>
      cmdDestroyPutval result.putval result.heap).isNone = true := by decide +kernel
  rintro ⟨result, parsed, -, putval, heap, destroyed, -⟩
  rw [parsed, Option.bind_some, destroyed] at twice
  cases twice

end NCollectd.Cmds
