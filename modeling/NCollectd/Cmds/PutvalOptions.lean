import NCollectd.Cmds.Putval

/-! What the arguments of a `PUTVAL` command announce. -/

namespace NCollectd.Cmds

open Common List

/-- The options announced so far: the interval and the meta map. -/
structure Announced where
  interval : CdTime
  metaMap : Option MetaData
deriving DecidableEq

def Announced.nothing : Announced := ⟨0, none⟩

def Announced.apply (daemon : Daemon) (options : Announced) (argument : CString) : Announced :=
  match cmdParseOption argument with
  | .error _ => options
  | .ok (key, value) =>
    if isIntervalKey key then { options with interval := (intervalOption daemon value).getD options.interval }
    else if isMetaKey key then
      { options with metaMap := some (mdEntryInsert ⟨key.drop 5, .string value⟩ (options.metaMap.getD [])) }
    else options

def announce (daemon : Daemon) (options : Announced) (arguments : List CString) : Announced :=
  arguments.foldl (Announced.apply daemon) options

def isValues (argument : CString) : Bool :=
  match cmdParseOption argument with
  | .ok _ => false
  | .error _ => true

def isMeta (argument : CString) : Bool :=
  match cmdParseOption argument with
  | .ok (key, _) => !isIntervalKey key && isMetaKey key
  | .error _ => false

def carried (daemon : Daemon) (options : Announced) : List CString → List Announced
  | [] => []
  | argument :: rest =>
    if isValues argument then options :: carried daemon options rest
    else carried daemon (options.apply daemon argument) rest

def passes (daemon : Daemon) (ds : DataSet) (argument : CString × CdTime) : Bool :=
  match cmdParseOption argument.1 with
  | .ok (key, _) => isIntervalKey key || isMetaKey key
  | .error _ => (parseValues daemon.platform argument.2 argument.1 ds).isOk

theorem apply_of_isValues (values : isValues argument = true) (options : Announced) :
    options.apply daemon argument = options := by
  cases parsed : cmdParseOption argument with
  | ok option => simp [isValues, parsed] at values
  | error status => simp only [Announced.apply, parsed]

theorem not_isValues_of_isMeta (marked : isMeta argument = true) : isValues argument = false := by
  cases parsed : cmdParseOption argument with
  | ok option => simp only [isValues, parsed]
  | error status => simp [isMeta, parsed] at marked

theorem metaMap_apply (daemon : Daemon) (options : Announced) (argument : CString) :
    if isMeta argument then ((options.apply daemon argument).metaMap).isSome = true
    else (options.apply daemon argument).metaMap = options.metaMap := by
  cases parsed : cmdParseOption argument with
  | error status => simp [isMeta, Announced.apply, parsed]
  | ok option =>
    simp only [isMeta, Announced.apply, parsed]
    by_cases interval : isIntervalKey option.1 = true
    · simp [interval]
    · by_cases marked : isMetaKey option.1 = true
      all_goals simp [interval, marked]

theorem metaMap_apply_of_not_isMeta (unmarked : isMeta argument = false) (options : Announced) :
    (options.apply daemon argument).metaMap = options.metaMap := by
  simpa [unmarked] using metaMap_apply daemon options argument

theorem carried_append (options : Announced) (front back : List CString) :
    carried daemon options (front ++ back) =
      carried daemon options front ++ carried daemon (announce daemon options front) back := by
  induction front generalizing options with
  | nil => rfl
  | cons argument rest ih =>
    simp only [cons_append, carried, announce, foldl_cons]
    by_cases values : isValues argument = true
    · rw [if_pos values, if_pos values, apply_of_isValues values, cons_append]
      exact congrArg _ (ih options)
    · rw [if_neg values, if_neg values]
      exact ih _

/-- One block holds the announced entries, and the pointers to it are those of the value lists announced with
a meta map. -/
structure Follows (s : PutvalState) (options : Announced) (given : List Announced) : Prop where
  interval : s.scratch.interval = options.interval
  pointer : s.scratch.metaData = options.metaMap.map fun _ => 0
  heap : s.heap = ⟨options.metaMap.toList.map some⟩
  lists : s.putval.vl.map (fun vl => (vl.interval, vl.metaData)) =
    given.map fun options => (options.interval, options.metaMap.map fun _ => 0)

theorem Follows.deref (follows : Follows s options given) : s.heap.deref 0 = options.metaMap := by
  rw [follows.heap]
  cases options.metaMap <;> rfl

theorem Follows.setOption (daemon : Daemon) (follows : Follows s options given)
    (parsed : cmdParseOption argument = .ok (key, value)) (known : (isIntervalKey key || isMetaKey key) = true) :
    ∃ heap vl, setOption daemon s.heap s.scratch key value = some (.ok, heap, vl) ∧
      Follows { s with heap := heap, scratch := vl } (options.apply daemon argument) given := by
  simp only [Announced.apply, parsed]
  unfold Cmds.setOption
  by_cases interval : isIntervalKey key = true
  · simp only [if_pos interval]
    exact ⟨_, _, rfl, by simp only [follows.interval], follows.pointer, follows.heap, follows.lists⟩
  · have marked : isMetaKey key = true := by simpa [interval] using known
    simp only [if_neg interval, if_pos marked]
    have pointer := follows.pointer
    have heap := follows.heap
    cases before : options.metaMap with
    | none =>
      simp only [before, Option.map_none, Option.toList_none, map_nil] at pointer heap
      simp only [pointer, heap]
      exact ⟨_, _, rfl, follows.interval, rfl, rfl, follows.lists⟩
    | some entries =>
      simp only [before, Option.map_some, Option.toList_some, map_cons, map_nil] at pointer heap
      simp only [pointer, heap]
      exact ⟨_, _, rfl, follows.interval, pointer, rfl, follows.lists⟩

theorem Follows.step (follows : Follows s options given) (passed : passes daemon ds argument = true) :
    ∃ s', putvalStep daemon ds s argument = some (.ok, none, s') ∧
      Follows s' (options.apply daemon argument.1)
        (given ++ if isValues argument.1 then [options] else []) := by
  unfold passes at passed
  unfold putvalStep isValues
  cases parsed : cmdParseOption argument.1 with
  | ok option =>
    simp only [parsed] at passed ⊢
    obtain ⟨heap, vl, set, after⟩ := follows.setOption daemon parsed passed
    simp only [set, Bool.false_eq_true, ↓reduceIte, append_nil]
    exact ⟨_, rfl, after⟩
  | error status =>
    obtain rfl := cmdParseOption_error parsed
    simp only [parsed] at passed ⊢
    have kept : options.apply daemon argument.1 = options := by simp only [Announced.apply, parsed]
    cases values : parseValues daemon.platform argument.2 argument.1 ds with
    | error status =>
      rw [values] at passed
      cases passed
    | ok result =>
      rw [kept]
      refine ⟨_, rfl, follows.interval, follows.pointer, follows.heap, ?_⟩
      simp [follows.lists, ↓reduceIte, follows.interval, follows.pointer]

theorem putvalStep_fails (failed : passes daemon ds argument = false) (s : PutvalState) :
    ∃ status message, status ≠ .ok ∧ putvalStep daemon ds s argument = some (status, message, s) := by
  unfold passes at failed
  unfold putvalStep
  cases parsed : cmdParseOption argument.1 with
  | ok option =>
    simp only [parsed, Bool.or_eq_false_iff] at failed ⊢
    refine ⟨.error, none, by decide, ?_⟩
    simp [setOption, failed]
  | error status =>
    obtain rfl := cmdParseOption_error parsed
    simp only [parsed] at failed ⊢
    cases values : parseValues daemon.platform argument.2 argument.1 ds with
    | error status => exact ⟨_, _, by decide, rfl⟩
    | ok result =>
      rw [values] at failed
      cases failed

/-- The whole loop: what it does to the arguments it passes, and how it ends. -/
theorem Follows.run (daemon : Daemon) (ds : DataSet) (follows : Follows s options given)
    (arguments : List (CString × CdTime)) :
    ∃ status message s', putvalLoop daemon ds s arguments = some (status, message, s') ∧
      (status = .ok ↔ arguments.all (passes daemon ds) = true) ∧
      Follows s' (announce daemon options ((arguments.takeWhile (passes daemon ds)).map Prod.fst))
        (given ++ carried daemon options ((arguments.takeWhile (passes daemon ds)).map Prod.fst)) := by
  induction arguments generalizing s options given with
  | nil => exact ⟨.ok, none, s, rfl, by simp, by simpa [announce, carried] using follows⟩
  | cons argument rest ih =>
    cases passed : passes daemon ds argument with
    | false =>
      obtain ⟨status, message, failed, stepped⟩ := putvalStep_fails passed s
      refine ⟨status, message, s, ?_, by simp [passed, failed], by simpa [passed, announce, carried] using follows⟩
      rw [putvalLoop, stepped]
      cases status <;> first | rfl | exact (failed rfl).elim
    | true =>
      obtain ⟨middle, stepped, after⟩ := follows.step passed
      obtain ⟨status, message, s', looped, ended, final⟩ := ih after
      refine ⟨status, message, s', ?_, by simpa [passed] using ended, ?_⟩
      · rw [putvalLoop, stepped]
        exact looped
      · simp only [takeWhile_cons, passed, ↓reduceIte, map_cons, announce, foldl_cons, carried]
        by_cases values : isValues argument.1 = true
        · simpa [values, announce, apply_of_isValues values] using final
        · simpa [values, announce] using final

end NCollectd.Cmds
