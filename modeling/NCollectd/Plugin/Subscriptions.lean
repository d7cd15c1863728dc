import NCollectd.Plugin.CacheEvent

/-! Which callbacks the cache events reach. -/

namespace NCollectd.CacheEvents

open List

variable {log new : List Dispatch} {s s' : State}

theorem shiftOne_ne_zero (small : i < listCacheEventSize) : shiftOne i ≠ 0 := by
  revert small
  revert i
  decide

/-- The callback with the number `i` is registered, where the places count from `k`. -/
private def RegisteredFrom (slots : List Slot) (k i : Nat) : Prop := ∃ j, i = k + j ∧ Registered slots j

theorem registeredFrom_nil : ¬ RegisteredFrom [] k i := by
  rintro ⟨j, _, slot, found, _⟩
  cases found

theorem registeredFrom_cons (slot : Slot) :
    RegisteredFrom (slot :: slots) k i ↔ i = k ∧ slot.active = true ∨ RegisteredFrom slots (k + 1) i := by
  constructor
  · rintro ⟨j, place, found, here, active⟩
    cases j with
    | zero =>
      cases here
      exact .inl ⟨place, active⟩
    | succ j => exact .inr ⟨j, by omega, found, here, active⟩
  · rintro (⟨place, active⟩ | ⟨j, place, found, here, active⟩)
    · exact ⟨0, place, slot, rfl, active⟩
    · exact ⟨j + 1, by omega, found, here, active⟩

theorem registeredFrom_zero : RegisteredFrom slots 0 i ↔ Registered slots i := by
  simp [RegisteredFrom]

theorem mem_laterLoop_from (mask : UInt64) (inside : k + slots.length ≤ listCacheEventSize) :
    (i, reply) ∈ laterLoop mask answers k slots ↔ reply = answers i ∧ RegisteredFrom slots k i := by
  induction slots generalizing k with
  | nil => simp [laterLoop, registeredFrom_nil]
  | cons slot slots ih =>
    rw [length_cons] at inside
    have shifted : (shiftOne k == 0) = false := beq_false_of_ne (shiftOne_ne_zero (by omega))
    rw [laterLoop, registeredFrom_cons, shifted, Bool.and_false, Bool.not_false, Bool.and_true]
    have rest := ih (k := k + 1) (by omega)
    cases active : slot.active with
    | true =>
      rw [if_pos rfl, mem_cons, rest, Prod.mk.injEq]
      grind
    | false =>
      rw [if_neg Bool.false_ne_true, rest]
      grind

theorem mem_laterLoop (mask : UInt64) (inside : slots.length ≤ listCacheEventSize) :
    (i, reply) ∈ laterLoop mask answers 0 slots ↔ reply = answers i ∧ Registered slots i := by
  rw [mem_laterLoop_from mask (by omega), registeredFrom_zero]

theorem mem_newLoop_from (mask : UInt64) :
    (i, reply) ∈ (newLoop answers k mask slots).2 ↔ reply = answers i ∧ RegisteredFrom slots k i := by
  induction slots generalizing k mask with
  | nil => simp [newLoop, registeredFrom_nil]
  | cons slot slots ih =>
    rw [newLoop, registeredFrom_cons]
    cases active : slot.active with
    | true =>
      rw [if_pos rfl, mem_cons, ih, Prod.mk.injEq]
      grind
    | false =>
      rw [if_neg Bool.false_ne_true, ih]
      grind

theorem newLoop_mask_from (mask : UInt64) (inside : k + slots.length ≤ listCacheEventSize) :
    (newLoop answers k mask slots).1 ≠ 0 ↔
      mask ≠ 0 ∨ ∃ i, RegisteredFrom slots k i ∧ (answers i).subscribes = true := by
  induction slots generalizing k mask with
  | nil => simp [newLoop, registeredFrom_nil]
  | cons slot slots ih =>
    rw [length_cons] at inside
    have shifted := shiftOne_ne_zero (show k < listCacheEventSize by omega)
    have rest := fun mask => ih (k := k + 1) mask (by omega)
    rw [newLoop]
    simp only [registeredFrom_cons]
    cases active : slot.active with
    | true =>
      rw [if_pos rfl, rest]
      cases subscribes : (answers k).subscribes with
      | true =>
        rw [if_pos rfl]
        grind
      | false =>
        rw [if_neg Bool.false_ne_true]
        grind
    | false =>
      rw [if_neg Bool.false_ne_true, rest]
      grind

theorem newLoop_mask (answers : Nat → Reply) (inside : slots.length ≤ listCacheEventSize) :
    (newLoop answers 0 0 slots).1 ≠ 0 ↔
      ∃ i reply, (i, reply) ∈ (newLoop answers 0 0 slots).2 ∧ reply.subscribes = true := by
  rw [newLoop_mask_from 0 (by omega)]
  simp only [mem_newLoop_from]
  grind

section

variable (others : ∀ dispatch ∈ new, dispatch.event = .valueNew → dispatch.name ≠ name)
include others

theorem lastNew_append : lastNew (log ++ new) name = lastNew log name := by
  have none : new.reverse.find? (fun dispatch => dispatch.event = .valueNew && dispatch.name = name) = none := by
    refine find?_eq_none.mpr fun dispatch member => ?_
    simpa using others dispatch (mem_reverse.mp member)
  rw [lastNew, reverse_append, find?_append, none, Option.none_or, lastNew]

theorem subscribed_append : Subscribed (log ++ new) name i ↔ Subscribed log name i := by
  rw [Subscribed, Subscribed, lastNew_append others]

end

theorem subscribed_new (calls : List (Nat × Reply)) :
    Subscribed (log ++ [⟨.valueNew, name, calls⟩]) name i ↔ ∃ reply, (i, reply) ∈ calls ∧ reply.subscribes = true := by
  simp [Subscribed, lastNew]

/-- The mask of an entry is nonzero if some callback subscribed to it. -/
def Masked (cache : Cache) (log : List Dispatch) : Prop :=
  ∀ (name : CString) ce, cache[name]? = some ce → (ce.callbacksMask ≠ 0 ↔ ∃ i, Subscribed log name i)

theorem newEntry_callbacksMask (made : newEntry m now = some (.ok entry)) : entry.callbacksMask = 0 := by
  obtain ⟨_, _, _, _, inserted, same⟩ := newEntry_made made
  cases same
  obtain ⟨_, _, rfl⟩ := Option.map_eq_some_iff.mp inserted
  rfl

theorem updateEntry_callbacksMask {next} (stepped : updateEntry ce m now = some (status, next)) :
    next.callbacksMask = ce.callbacksMask := by
  rcases updateEntry_cases stepped with ⟨_, _, rfl⟩ | ⟨_, changed, revalued, outcome⟩
  · rfl
  · have same : changed.callbacksMask = ce.callbacksMask := by cases revalued <;> rfl
    rcases outcome with ⟨_, rfl⟩ | ⟨_, rfl⟩
    all_goals exact same

theorem ucUpdateMetric_known (named : entryKey page m = some (.ok name)) (present : cache[name]? = some ce)
    (updated : ucUpdateMetric page cache m now = some outcome) :
    ∃ next, next.callbacksMask = ce.callbacksMask ∧ outcome.cache = cache.insert name next ∧
      outcome.events = if outcome.status = 0 ∧ ce.callbacksMask ≠ 0 then
        [.cacheEvent .valueUpdate ce.callbacksMask name m] else [] := by
  rw [ucUpdateMetric, named, Option.bind_some] at updated
  simp only [updateAt, present] at updated
  obtain ⟨⟨status, next⟩, stepped, rfl⟩ := Option.map_eq_some_iff.mp updated
  have same := updateEntry_callbacksMask stepped
  exact ⟨next, same, rfl, by rw [← same]⟩

theorem masked_new (masked : Masked s.cache log) (fresh : entry.callbacksMask = 0) (answers : Nat → Reply) :
    Masked (pluginDispatchCacheEvent s.slots answers (s.cache.insert name entry) .valueNew 0 name).1
      (log ++ [(pluginDispatchCacheEvent s.slots answers (s.cache.insert name entry) .valueNew 0 name).2]) := by
  have subscribers := newLoop_mask answers s.bounded
  have stored : (s.cache.insert name entry)[name]? = some entry := by
    rw [AvlTree.getElem?_insert, if_pos rfl]
  intro other ce found
  by_cases same : name = other
  · subst other
    simp only [pluginDispatchCacheEvent] at found ⊢
    simp only [subscribed_new]
    split at found
    · rename_i nonzero
      rw [ucSetCallbacksMask, stored, AvlTree.getElem?_insert, if_pos rfl] at found
      cases found
      exact subscribers
    · rename_i zero
      rw [stored] at found
      cases found
      rw [fresh]
      exact ⟨fun impossible => absurd rfl impossible, fun some => absurd (subscribers.mpr some) zero⟩
  · have kept : s.cache[other]? = some ce := by
      simp only [pluginDispatchCacheEvent] at found
      split at found
      · rwa [ucSetCallbacksMask, stored, AvlTree.getElem?_insert, if_neg same, AvlTree.getElem?_insert,
          if_neg same] at found
      · rwa [AvlTree.getElem?_insert, if_neg same] at found
    rw [masked other ce kept]
    refine exists_congr fun i => (subscribed_append ?_).symm
    intro dispatch member _
    obtain rfl := mem_singleton.mp member
    exact same

theorem masked_append (masked : Masked cache log)
    (later : ∀ dispatch ∈ new, dispatch.event ≠ .valueNew) : Masked cache (log ++ new) := by
  intro name ce found
  rw [masked name ce found]
  refine exists_congr fun i => (subscribed_append ?_).symm
  intro dispatch member event
  exact absurd event (later dispatch member)

theorem received_nil : ¬ Received [] event name i := by
  rintro ⟨dispatch, member, _⟩
  cases member

theorem received_singleton (dispatch : Dispatch) :
    Received [dispatch] event name i ↔
      dispatch.event = event ∧ dispatch.name = name ∧ ∃ reply, (i, reply) ∈ dispatch.calls := by
  simp [Received]

theorem received_cons (dispatch : Dispatch) :
    Received (dispatch :: new) event name i ↔ Received [dispatch] event name i ∨ Received new event name i := by
  simp [Received, or_and_right, exists_or]

theorem dispatchAll_later (answers : CString → Nat → Reply)
    (inside : slots.length ≤ listCacheEventSize)
    (later : ∀ event mask name m, .cacheEvent event mask name m ∈ events → event ≠ .valueNew) (cache : Cache) :
    (dispatchAll slots answers cache events).1 = cache ∧
      (∀ dispatch ∈ (dispatchAll slots answers cache events).2, dispatch.event ≠ .valueNew) ∧
      ∀ event name i, Received (dispatchAll slots answers cache events).2 event name i ↔
        (∃ mask m, .cacheEvent event mask name m ∈ events) ∧ Registered slots i := by
  induction events with
  | nil => simp [dispatchAll, received_nil]
  | cons first rest ih =>
    obtain ⟨same, quiet, received⟩ := ih fun event mask name m member => later event mask name m (.tail _ member)
    cases first with
    | cacheEvent event mask name m =>
      have other := later event mask name m (.head _)
      have one : pluginDispatchCacheEvent slots (answers name) cache event mask name =
          (cache, ⟨event, name, laterLoop mask (answers name) 0 slots⟩) := by
        cases event with
        | valueNew => exact absurd rfl other
        | valueUpdate | valueExpired => rfl
      rw [dispatchAll, one]
      refine ⟨same, forall_mem_cons.mpr ⟨other, quiet⟩, fun event' name' i => ?_⟩
      rw [received_cons, received, received_singleton]
      simp only [mem_laterLoop mask inside, mem_cons, Event.cacheEvent.injEq]
      grind
    | missing key m | removed key =>
      refine ⟨same, quiet, fun event' name' i => ?_⟩
      simpa [dispatchAll] using received event' name' i

/-- After a step the masks are right, and its events have reached the registered callbacks. -/
structure Stepped (page : PageSize) (s : State) (log : List Dispatch) (op : Op) (s' : State) (new : List Dispatch) :
    Prop where
  masked : Masked s'.cache (log ++ new)
  updates : ∀ name i, Received new .valueUpdate name i ↔
    Updates page s.cache op name ∧ (∃ j, Subscribed log name j) ∧ Registered s.slots i
  expirations : ∀ name i, Received new .valueExpired name i ↔
    Expires s.cache op name ∧ (∃ m, metricParseIdentity page name = some (.ok m)) ∧
      (∃ j, Subscribed log name j) ∧ Registered s.slots i

theorem expires_update {answers : CString → Nat → Reply} : ¬ Expires cache (.update m now answers) name := by
  rintro ⟨_, _, _, _, same, _⟩
  cases same

theorem updates_update (answers : CString → Nat → Reply)
    (updated : ucUpdateMetric page cache m now = some outcome) (name : CString) :
    Updates page cache (.update m now answers) name ↔
      entryKey page m = some (.ok name) ∧ name ∈ cache ∧ outcome.status = 0 := by
  constructor
  · rintro ⟨m', now', answers', outcome', same, named, known, again, done⟩
    obtain ⟨rfl, rfl, rfl⟩ := Op.update.inj same
    cases updated.symm.trans again
    exact ⟨named, known, done⟩
  · rintro ⟨named, known, done⟩
    exact ⟨m, now, answers, outcome, rfl, named, known, updated, done⟩

theorem stepped_update {answers : CString → Nat → Reply} (masked : Masked s.cache log)
    (stepped : s.step page (.update m now answers) = some (s', new)) :
    Stepped page s log (.update m now answers) s' new := by
  obtain ⟨outcome, updated, result⟩ := Option.map_eq_some_iff.mp stepped
  cases result
  have about := updates_update answers updated
  cases ucUpdateMetric_updated updated with
  | keyless failed =>
    refine ⟨by simpa [dispatchAll] using masked, fun name i => ?_, fun name i => ?_⟩
    · rw [about, failed]
      simp [dispatchAll, received_nil]
    · simp [dispatchAll, received_nil, expires_update]
  | inserted key entry named absent made =>
    have fresh := newEntry_callbacksMask made
    refine ⟨masked_new masked fresh (answers key), fun name i => ?_, fun name i => ?_⟩
    · have missing : ¬ (entryKey page m = some (.ok name) ∧ name ∈ s.cache ∧ (0 : Status) = 0) := by
        rintro ⟨again, known, _⟩
        cases named.symm.trans again
        rw [Std.ExtTreeMap.mem_iff_isSome_getElem?, absent] at known
        cases known
      rw [about]
      refine iff_of_false ?_ fun both => missing both.1
      simp [dispatchAll, pluginDispatchCacheEvent, received_singleton]
    · refine iff_of_false ?_ fun both => expires_update both.1
      simp [dispatchAll, pluginDispatchCacheEvent, received_singleton]
  | rewritten key ce next status events named present =>
    obtain ⟨next', mask, stored, sent⟩ := ucUpdateMetric_known named present updated
    dsimp only at stored sent ⊢
    have only : ∀ event mask name m', .cacheEvent event mask name m' ∈ events →
        event = .valueUpdate ∧ name = key ∧ status = 0 ∧ ce.callbacksMask ≠ 0 := by
      intro event mask name m' member
      rw [sent] at member
      split at member
      · rename_i both
        obtain ⟨rfl, _, rfl, _⟩ := Event.cacheEvent.inj (mem_singleton.mp member)
        exact ⟨rfl, rfl, both⟩
      · cases member
    obtain ⟨same, quiet, received⟩ := dispatchAll_later answers s.bounded
      (fun event mask name m' member => by rw [(only event mask name m' member).1]; decide) (s.cache.insert key next)
    refine ⟨masked_append ?_ quiet, fun name i => ?_, fun name i => ?_⟩
    · rw [same, stored]
      intro name other found
      rw [AvlTree.getElem?_insert] at found
      split at found
      · rename_i named
        cases found
        rw [mask, masked key ce present, named]
      · exact masked name other found
    · have known : key ∈ s.cache := by
        rw [Std.ExtTreeMap.mem_iff_isSome_getElem?, present]
        rfl
      rw [received, about, named, ← and_assoc]
      refine and_congr_left fun _ => ?_
      constructor
      · rintro ⟨mask', m', member⟩
        obtain ⟨_, rfl, done, nonzero⟩ := only _ _ _ _ member
        exact ⟨⟨rfl, known, done⟩, (masked _ ce present).mp nonzero⟩
      · rintro ⟨⟨again, _, done⟩, subscribed⟩
        cases again
        refine ⟨ce.callbacksMask, m, ?_⟩
        rw [sent, if_pos ⟨done, (masked _ ce present).mpr subscribed⟩]
        exact mem_singleton_self _
    · rw [received]
      refine iff_of_false ?_ fun both => expires_update both.1
      rintro ⟨⟨mask', m', member⟩, _⟩
      cases (only _ _ _ _ member).1

theorem mem_reportAll (reported : reportAll page items = some events) :
    event ∈ events ↔ ∃ item ∈ items, event ∈ reportOf page item := by
  induction items generalizing events with
  | nil =>
    cases reported
    simp
  | cons item rest ih =>
    obtain ⟨first, here, reported⟩ := Option.bind_eq_some_iff.mp reported
    obtain ⟨last, there, rfl⟩ := Option.map_eq_some_iff.mp reported
    rw [mem_append, ih there, exists_mem_cons_iff, reportOf, here, Option.getD_some]

theorem mem_reportOf :
    .cacheEvent event mask name m ∈ reportOf page item ↔ event = .valueExpired ∧ mask = item.2.callbacksMask ∧
      name = item.1 ∧ metricParseIdentity page item.1 = some (.ok m) ∧ item.2.callbacksMask ≠ 0 := by
  unfold reportOf reportExpired
  cases metricParseIdentity page item.1 with
  | none => simp
  | some result =>
    cases result with
    | error status => simp
    | ok read =>
      simp only [Option.map_some, Option.getD_some, mem_cons, reduceCtorEq, false_or]
      split
      · simp only [mem_singleton, Event.cacheEvent.injEq, Option.some.injEq, Except.ok.injEq]
        grind
      · rename_i zero
        simp only [not_mem_nil, false_iff, not_and]
        exact fun _ _ _ _ => zero

theorem ucCheckTimeout_sent (checked : ucCheckTimeout page cache now timeout = some outcome) :
    (∀ event mask name m, .cacheEvent event mask name m ∈ outcome.events ↔ event = .valueExpired ∧
      ∃ ce, (name, ce) ∈ expiredEntries cache now timeout ∧ mask = ce.callbacksMask ∧ ce.callbacksMask ≠ 0 ∧
        metricParseIdentity page name = some (.ok m)) ∧
    ∀ (name : CString) ce, outcome.cache[name]? = some ce → cache[name]? = some ce := by
  have present : ∀ item ∈ expiredEntries cache now timeout, item.1 ∈ cache := by
    intro item member
    rw [Std.ExtTreeMap.mem_iff_isSome_getElem?, (mem_expiredEntries.mp member).1]
    rfl
  obtain ⟨reported, report, rfl⟩ := Option.map_eq_some_iff.mp checked
  dsimp only
  refine ⟨fun event mask name m => ?_, fun name ce found => ?_⟩
  · rw [removeAll_events (expiredEntries_distinct cache now timeout) present, mem_append, mem_reportAll report]
    simp only [mem_reportOf, mem_map, reduceCtorEq, and_false, exists_false, or_false]
    constructor
    · rintro ⟨⟨key, ce⟩, member, rfl, rfl, rfl, parsed, nonzero⟩
      exact ⟨rfl, ce, member, rfl, nonzero, parsed⟩
    · rintro ⟨rfl, ce, member, rfl, nonzero, parsed⟩
      exact ⟨(name, ce), member, rfl, rfl, rfl, parsed, nonzero⟩
  · rw [removeAll_cache] at found
    split at found
    · cases found
    · exact found

theorem stepped_checkTimeout {answers : CString → Nat → Reply} (masked : Masked s.cache log)
    (stepped : s.step page (.checkTimeout now timeout answers) = some (s', new)) :
    Stepped page s log (.checkTimeout now timeout answers) s' new := by
  obtain ⟨outcome, checked, result⟩ := Option.map_eq_some_iff.mp stepped
  cases result
  obtain ⟨sent, kept⟩ := ucCheckTimeout_sent checked
  obtain ⟨same, quiet, received⟩ := dispatchAll_later answers s.bounded
    (fun event mask name m member => by rw [((sent event mask name m).mp member).1]; decide) outcome.cache
  refine ⟨masked_append ?_ quiet, fun name i => ?_, fun name i => ?_⟩
  · rw [same]
    exact fun name ce found => masked name ce (kept name ce found)
  · rw [received]
    refine iff_of_false ?_ ?_
    · rintro ⟨⟨mask, m, member⟩, _⟩
      cases ((sent _ _ _ _).mp member).1
    · rintro ⟨⟨_, _, _, _, same, _⟩, _⟩
      cases same
  · rw [received, ← and_assoc, ← and_assoc]
    refine and_congr_left fun _ => ?_
    simp only [sent, true_and]
    constructor
    · rintro ⟨mask, m, ce, expired, rfl, nonzero, parsed⟩
      have found := (mem_expiredEntries.mp expired).1
      exact ⟨⟨⟨now, timeout, answers, ce, rfl, expired⟩, m, parsed⟩, (masked name ce found).mp nonzero⟩
    · rintro ⟨⟨⟨now', timeout', answers', ce, again, expired⟩, m, parsed⟩, subscribed⟩
      obtain ⟨rfl, rfl, rfl⟩ := Op.checkTimeout.inj again
      have found := (mem_expiredEntries.mp expired).1
      exact ⟨ce.callbacksMask, m, ce, expired, rfl, (masked name ce found).mpr subscribed, parsed⟩

theorem stepped_quiet (masked : Masked s.cache log) (same : s'.cache = s.cache)
    (updates : ∀ name, ¬ Updates page s.cache op name) (expires : ∀ name, ¬ Expires s.cache op name) :
    Stepped page s log op s' [] := by
  refine ⟨?_, fun name i => ?_, fun name i => ?_⟩
  · rwa [same, append_nil]
  · exact iff_of_false received_nil fun both => updates name both.1
  · exact iff_of_false received_nil fun both => expires name both.1

theorem step_stepped (masked : Masked s.cache log) (stepped : s.step page op = some (s', new)) :
    Stepped page s log op s' new := by
  cases op with
  | register name callback =>
    cases stepped
    refine stepped_quiet masked ?_ ?_ ?_
    · unfold pluginRegisterCacheEvent
      split
      · split
        · rfl
        · split
          all_goals rfl
      · rfl
    all_goals
      rintro name ⟨_, _, _, _, same, _⟩
      cases same
  | unregister name =>
    cases stepped
    refine stepped_quiet masked rfl ?_ ?_
    all_goals
      rintro name ⟨_, _, _, _, same, _⟩
      cases same
  | update m now answers => exact stepped_update masked stepped
  | checkTimeout now timeout answers => exact stepped_checkTimeout masked stepped

/-- The events of the operation reach the subscribers alone. -/
def EventsAgree (page : PageSize) (s : State) (log : List Dispatch) (op : Op) : Prop :=
  ∀ name,
    (Updates page s.cache op name ∨
        Expires s.cache op name ∧ (∃ m, metricParseIdentity page name = some (.ok m)) →
      (∃ i, Subscribed log name i) → ∀ i, Registered s.slots i → Subscribed log name i) ∧
    (Expires s.cache op name → (¬ ∃ m, metricParseIdentity page name = some (.ok m)) →
      ∀ i, Registered s.slots i → ¬ Subscribed log name i)

def RunAgree (page : PageSize) : State → List Dispatch → List Op → Prop
  | _, _, [] => True
  | s, log, op :: ops => ∀ s' new, s.step page op = some (s', new) →
    EventsAgree page s log op ∧ RunAgree page s' (log ++ new) ops

theorem reaches_iff_agree (stepped : Stepped page s log op s' new) :
    ReachesSubscribers page s log op new ↔ EventsAgree page s log op := by
  constructor
  · intro reaches name
    refine ⟨?_, fun expires refused i registered subscribed => ?_⟩
    · rintro (updates | ⟨expires, parsed⟩) subscribed i registered
      · have received := (stepped.updates name i).mpr ⟨updates, subscribed, registered⟩
        exact ((reaches name i).1.mp received).2.2
      · have received := (stepped.expirations name i).mpr ⟨expires, parsed, subscribed, registered⟩
        exact ((reaches name i).2.mp received).2.2
    · have received := (reaches name i).2.mpr ⟨expires, registered, subscribed⟩
      exact refused ((stepped.expirations name i).mp received).2.1
  · intro agree name i
    obtain ⟨together, silent⟩ := agree name
    rw [stepped.updates, stepped.expirations]
    refine ⟨⟨?_, ?_⟩, ?_, ?_⟩
    · rintro ⟨updates, subscribed, registered⟩
      exact ⟨updates, registered, together (.inl updates) subscribed i registered⟩
    · rintro ⟨updates, registered, subscribed⟩
      exact ⟨updates, ⟨i, subscribed⟩, registered⟩
    · rintro ⟨expires, parsed, subscribed, registered⟩
      exact ⟨expires, registered, together (.inr ⟨expires, parsed⟩) subscribed i registered⟩
    · rintro ⟨expires, registered, subscribed⟩
      refine ⟨expires, ?_, ⟨i, subscribed⟩, registered⟩
      exact Classical.byContradiction fun refused => silent expires refused i registered subscribed

theorem masked_initial : Masked State.initial.cache [] := by
  intro name ce found
  simp [State.initial] at found

theorem run_reaches_iff (masked : Masked s.cache log) (ops : List Op) :
    RunReachesSubscribers page s log ops ↔ RunAgree page s log ops := by
  induction ops generalizing s log with
  | nil => exact Iff.rfl
  | cons op ops ih =>
    refine forall_congr' fun s' => forall_congr' fun new => forall_congr' fun stepped => ?_
    have step := step_stepped masked stepped
    exact and_congr (reaches_iff_agree step) (ih step.masked)

/-- The registered callbacks have to agree on every metric that has a subscriber. -/
theorem events_reach_subscribers_iff (page : PageSize) (ops : List Op) :
    RunReachesSubscribers page .initial [] ops ↔ RunAgree page .initial [] ops :=
  run_reaches_iff masked_initial ops

def State.run (page : PageSize) : State → List Op → Option (State × List Dispatch)
  | s, [] => some (s, [])
  | s, op :: ops => (s.step page op).bind fun first =>
      (State.run page first.1 ops).map fun rest => (rest.1, first.2 ++ rest.2)

theorem RunReachesSubscribers.after (reaches : RunReachesSubscribers page s log (ops ++ more))
    (ran : s.run page ops = some (s', new)) : RunReachesSubscribers page s' (log ++ new) more := by
  induction ops generalizing s log new with
  | nil =>
    cases ran
    rwa [append_nil]
  | cons op ops ih =>
    obtain ⟨⟨next, first⟩, stepped, remaining⟩ := Option.bind_eq_some_iff.mp ran
    obtain ⟨⟨final, rest⟩, later, result⟩ := Option.map_eq_some_iff.mp remaining
    cases result
    rw [← append_assoc]
    exact ih (reaches next first stepped).2 later

def firstSubscribes (_ : CString) (i : Nat) : Reply := if i = 0 then ⟨0, 1⟩ else ⟨0, 0⟩

def twoCallbacks : List Op :=
  [.register (some "first") true, .register (some "second") true,
    .update { bareMetric with time := 1 } 1 firstSubscribes]

def secondUpdate : Op := .update { bareMetric with time := 2 } 2 firstSubscribes

theorem declined_callback_receives_update :
    ∃ s new, State.run (strbufPagesize 4096) .initial twoCallbacks =
        some (s, [⟨.valueNew, "up", [(0, ⟨0, 1⟩), (1, ⟨0, 0⟩)]⟩]) ∧
      s.step (strbufPagesize 4096) secondUpdate = some new ∧
      new.2 = [⟨.valueUpdate, "up", [(0, ⟨0, 1⟩), (1, ⟨0, 0⟩)]⟩] ∧
      ¬ RunReachesSubscribers (strbufPagesize 4096) .initial [] (twoCallbacks ++ [secondUpdate]) := by
  have evaluated : ((State.run (strbufPagesize 4096) .initial twoCallbacks).bind fun first =>
      (first.1.step (strbufPagesize 4096) secondUpdate).map fun second => (first.2, second.2)) =
      some ([⟨.valueNew, "up", [(0, ⟨0, 1⟩), (1, ⟨0, 0⟩)]⟩],
        [⟨.valueUpdate, "up", [(0, ⟨0, 1⟩), (1, ⟨0, 0⟩)]⟩]) := by
    decide +kernel
  obtain ⟨⟨s, log⟩, ran, rest⟩ := Option.bind_eq_some_iff.mp evaluated
  obtain ⟨⟨s', new⟩, stepped, values⟩ := Option.map_eq_some_iff.mp rest
  cases values
  refine ⟨s, _, ran, stepped, rfl, fun reaches => ?_⟩
  have received : Received [⟨.valueUpdate, "up", [(0, ⟨0, 1⟩), (1, ⟨0, 0⟩)]⟩] .valueUpdate "up" 1 := by
    simp [received_singleton]
  have last := (reaches.after ran _ _ stepped).1 "up" 1
  obtain ⟨dispatch, reply, found, called, subscribes⟩ := (last.1.mp received).2.2
  cases found
  obtain rfl : reply = ⟨0, 0⟩ := by simpa using called
  cases subscribes

end NCollectd.CacheEvents
