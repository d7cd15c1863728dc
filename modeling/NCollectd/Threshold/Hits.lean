import NCollectd.Threshold.Single

/-! The option `Hits`. -/

namespace NCollectd.Thresholds

open List

open CacheLock (STATE_ERROR INT_MIN INT_MAX)

/-- A run of checks against one threshold with `Hits`, without `Persist` and `PersistOK`, that starts in the
state `STATE_OKAY`. -/
structure HitsRun (page : PageSize) (name : CString) (th : Threshold) where
  counted : 1 ≤ th.hits
  once : th.persist = false
  quiet : th.persistOk = false
  cache : Cache
  entry : CacheEntry
  found : cache[name]? = some entry
  scalar : entry.valuesRaw.type ≠ .distribution
  okay : entry.state = STATE_OKAY
  unhit : entry.hits = 0
  rounds : List Round
  watched : ∀ round ∈ rounds, Watched page name th round

/-- A maximal block of consecutive results that are all a warning or all a failure. -/
structure IsBlock (name : CString) (th : Threshold) (calls front block back : List Call) (result : Int) : Prop where
  split : calls = front ++ (block ++ back)
  filled : block ≠ []
  bad : result = STATE_WARNING ∨ result = STATE_ERROR
  inside : ∀ call ∈ block, call.check name th = result
  first : ∀ call, front.getLast? = some call → call.check name th ≠ result
  last : ∀ call, back.head? = some call → call.check name th ≠ result

/-- The notification comes with the `n`-th result of the block or the one after it. -/
structure InTime (n : Int) (block : List Call) : Prop where
  dispatched : n + 1 ≤ block.length → ∃ call ∈ block, call.sent ≠ []
  window : ∀ (i : Nat) (call : Call), block[i]? = some call → call.sent ≠ [] → n ≤ i + 1 ∧ (i : Int) + 1 ≤ n + 1
  short : block.length < n → ∀ call ∈ block, call.sent = []

theorem Standing.next_hits (counted : 1 ≤ th.hits) (step : Standing.next th s result = some (s', notified)) :
    (Held th s result ∧ s' = ⟨s.state, s.hits + 1⟩ ∧ notified = false) ∨
      (¬ Held th s result ∧ (s', notified) = s.reported th result ∧ s'.hits = 0) := by
  have active : th.hits ≠ 0 := by omega
  unfold Standing.next at step
  split at step
  · rename_i held
    split at step
    · cases step
      exact .inl ⟨held, rfl, rfl⟩
    · cases step
  · rename_i free
    cases step
    exact .inr ⟨free, rfl, if_pos active⟩

theorem Trace.bounded (counted : 1 ≤ th.hits) (trace : Trace name th s (front ++ calls))
    (bounds : 0 ≤ s.hits ∧ s.hits ≤ th.hits + 1) :
    ∃ s, Trace name th s calls ∧ 0 ≤ s.hits ∧ s.hits ≤ th.hits + 1 := by
  induction front generalizing s with
  | nil => exact ⟨s, trace, bounds⟩
  | cons call front ih =>
    cases trace with
    | cons before after step sent rest =>
      apply ih rest
      rcases Standing.next_hits counted step with ⟨held, rfl, -⟩ | ⟨-, -, zero⟩
      · have few := held.2.2
        simp only
        omega
      · rw [zero]
        omega

/-- The result `STATE_OKAY` sets the counter to zero. -/
theorem Trace.reset (counted : 1 ≤ th.hits) (quiet : th.persistOk = false) (trace : Trace name th s calls) :
    ∀ call ∈ calls, call.check name th = STATE_OKAY → ucGetHitsByName call.after name = 0 := by
  induction trace with
  | nil => exact forall_mem_nil _
  | cons before after step sent rest ih =>
    intro call member okay
    rcases mem_cons.mp member with rfl | later
    · obtain ⟨ce, found, -, hits⟩ := after
      rw [ucGetHitsByName_found found, hits]
      rcases Standing.next_hits counted step with ⟨held, -⟩ | ⟨-, -, zero⟩
      · exact absurd ⟨okay, quiet⟩ held.2.1
      · exact zero
    · exact ih call later okay

theorem Trace.notified (counted : 1 ≤ th.hits) (once : th.persist = false) (bad : result ≠ STATE_OKAY)
    (trace : Trace name th s (block ++ back)) (inside : ∀ call ∈ block, call.check name th = result)
    (bound : s.hits ≤ th.hits + 1) (i : Nat) (here : block[i]? = some call) :
    call.sent ≠ [] ↔ s.hits + i = th.hits + 1 ∧ result ≠ s.state := by
  induction block generalizing s i with
  | nil => cases here
  | cons first block ih =>
    cases trace with
    | cons before after step sent rest =>
      rw [inside first mem_cons_self] at step
      have later := fun other member => inside other (mem_cons_of_mem first member)
      rcases Standing.next_hits counted step with ⟨held, rfl, rfl⟩ | ⟨free, reported, zero⟩
      · have few : s.hits ≤ th.hits := held.2.2
        cases i with
        | zero =>
          cases here
          rw [sent]
          refine iff_of_false Bool.false_ne_true ?_
          rintro ⟨full, -⟩
          simp only [Nat.cast_zero, add_zero] at full
          omega
        | succ i =>
          rw [ih rest later (by simp only; omega) i here]
          simp only [Nat.cast_add, Nat.cast_one]
          constructor
          all_goals
            rintro ⟨full, other⟩
            exact ⟨by omega, other⟩
      · have full : s.hits = th.hits + 1 := by
          have more : ¬ s.hits ≤ th.hits := fun few => free ⟨by omega, fun okay => bad okay.1, few⟩
          omega
        cases reported
        cases i with
        | zero =>
          cases here
          rw [sent]
          simp [once, full]
        | succ i =>
          rw [ih rest later (by rw [zero]; omega) i here]
          refine iff_of_false (fun again => again.2 rfl) ?_
          rintro ⟨sum, -⟩
          simp only [Nat.cast_add, Nat.cast_one] at sum
          omega

/-- When a block of results can be notified in time. -/
def Timely (n hits : Int) (changed : Prop) (length : Nat) : Prop :=
  (length ≤ n ∧ (changed → hits + length ≤ n + 1)) ∨ (changed ∧ (hits = 1 ∨ hits = 2))

/-- The number of the notification in the block decides. -/
theorem inTime_iff {n hits : Int} (low : 0 ≤ hits) (high : hits ≤ n + 1)
    (notified : ∀ (i : Nat) (call : Call), block[i]? = some call → (call.sent ≠ [] ↔ hits + i = n + 1 ∧ changed)) :
    InTime n block ↔ Timely n hits changed block.length := by
  obtain ⟨k, place⟩ : ∃ k : Nat, hits + k = n + 1 := ⟨(n + 1 - hits).toNat, by omega⟩
  have reached (inside : k < block.length) (different : changed) : block[k].sent ≠ [] :=
    (notified k block[k] (getElem?_eq_getElem inside)).mpr ⟨place, different⟩
  unfold Timely
  constructor
  · intro inTime
    by_cases different : changed
    · by_cases inside : k < block.length
      · have window := inTime.window k block[k] (getElem?_eq_getElem inside) (reached inside different)
        right
        exact ⟨different, by omega⟩
      · left
        refine ⟨?_, fun _ => by omega⟩
        by_contra long
        obtain ⟨call, member, sent⟩ := inTime.dispatched (by omega)
        obtain ⟨i, here⟩ := List.mem_iff_getElem?.mp member
        have bound := (List.getElem?_eq_some_iff.mp here).1
        have sum := ((notified i call here).mp sent).1
        omega
    · left
      refine ⟨?_, fun same => absurd same different⟩
      by_contra long
      obtain ⟨call, member, sent⟩ := inTime.dispatched (by omega)
      obtain ⟨i, here⟩ := mem_iff_getElem?.mp member
      exact different ((notified i call here).mp sent).2
  · intro timely
    have window : ∀ (i : Nat) (call : Call), block[i]? = some call → call.sent ≠ [] →
      n ≤ i + 1 ∧ (i : Int) + 1 ≤ n + 1 := by
      intro i call here sent
      obtain ⟨sum, different⟩ := (notified i call here).mp sent
      have bound := (List.getElem?_eq_some_iff.mp here).1
      rcases timely with ⟨few, limit⟩ | ⟨-, near⟩
      · have sum' := limit different
        omega
      · omega
    refine ⟨?_, window, ?_⟩
    · intro long
      rcases timely with ⟨few, -⟩ | ⟨different, near⟩
      · omega
      · have inside : k < block.length := by omega
        exact ⟨block[k], getElem_mem inside, reached inside different⟩
    · intro short call member
      obtain ⟨i, here⟩ := List.mem_iff_getElem?.mp member
      have bound := (List.getElem?_eq_some_iff.mp here).1
      by_contra sent
      have late := (window i call here sent).1
      omega

/-- A run gets to its end and every `STATE_OKAY` resets the counter. A block is notified in time exactly
if it is too short to be notified at all, or if the counter stood at one or two when it began. -/
theorem hits_notified_iff (page : PageSize) (fmt : NumberFormat) (name : CString) (th : Threshold)
    (run : HitsRun page name th) :
    (th.hits < INT_MAX → ∃ calls, checkRun page fmt [th] name run.cache run.rounds = some calls) ∧
      ∀ calls, checkRun page fmt [th] name run.cache run.rounds = some calls →
        (∀ call ∈ calls, call.check name th = STATE_OKAY → ucGetHitsByName call.after name = 0) ∧
        ∀ front first block back result, IsBlock name th calls front (first :: block) back result →
          (InTime th.hits (first :: block) ↔
            Timely th.hits (ucGetHitsByName first.before name) (result ≠ ucGetStateByName first.before name)
              (first :: block).length) := by
  have scalar : Scalar run.entry := ⟨run.scalar, by rw [run.okay]; decide⟩
  refine ⟨fun small => ?_, fun calls ended => ?_⟩
  · exact checkRun_defined fmt small run.watched run.found scalar (by rw [run.unhit]; decide)
  · have trace := checkRun_trace fmt run.watched run.found scalar ended
    refine ⟨trace.reset run.counted run.quiet, ?_⟩
    intro front first block back result isBlock
    have counted := run.counted
    rw [isBlock.split] at trace
    obtain ⟨s, rest, low, high⟩ := trace.bounded counted (by rw [run.unhit]; simp only; omega)
    have bad : result ≠ STATE_OKAY := by
      rcases isBlock.bad with same | same <;> rw [same] <;> decide
    have notified (i : Nat) (call : Call) (here : (first :: block)[i]? = some call) :=
      rest.notified counted run.once bad isBlock.inside high i here
    obtain ⟨ce, found, state, hits⟩ : ∃ ce, first.before[name]? = some ce ∧ ce.state = s.state ∧ ce.hits = s.hits := by
      cases rest with
      | cons before => exact before
    rw [ucGetHitsByName_found found, ucGetStateByName_found found, state, hits]
    exact inTime_iff low high notified

def loadHits : Threshold := { loadLimit with persist := false, hits := 1 }

def highLoads : List Round :=
  ([.fin 5, .fin 6, .fin 7] : List Double).map fun rate => ⟨storeRate "load" rate, load⟩

theorem watched_highLoads :
    ∀ round ∈ highLoads, Watched (strbufPagesize 4096) "load" loadHits round := by
  intro round member
  obtain ⟨rate, -, rfl⟩ := mem_map.mp member
  exact ⟨entryKey_bare _ rfl, rfl, fun cache ce => storeRate_keeps "load" rate⟩

def highRun : HitsRun (strbufPagesize 4096) "load" loadHits where
  counted := by decide
  once := rfl
  quiet := rfl
  cache := loadOkay
  entry := loadEntry
  found := loadOkay_found
  scalar := by decide
  okay := rfl
  unhit := rfl
  rounds := highLoads
  watched := watched_highLoads

theorem hits_notified_late :
    ∃ calls, checkRun (strbufPagesize 4096) ⟨fun _ => [], fun _ => []⟩ [loadHits] "load" highRun.cache
        highRun.rounds = some calls ∧
      calls.map (fun call => (call.check "load" loadHits, call.sent.map Notification.severity)) =
        [(STATE_ERROR, []), (STATE_ERROR, []), (STATE_ERROR, [.failure])] ∧
      IsBlock "load" loadHits calls [] calls [] STATE_ERROR ∧ ¬ InTime loadHits.hits calls := by
  have evaluated : (checkRun (strbufPagesize 4096) ⟨fun _ => [], fun _ => []⟩ [loadHits] "load" loadOkay
      highLoads).map (fun calls => calls.map fun call => (call.check "load" loadHits,
        call.sent.map Notification.severity)) =
        some [(STATE_ERROR, []), (STATE_ERROR, []), (STATE_ERROR, [.failure])] := by decide +kernel
  obtain ⟨calls, ended, results⟩ := Option.map_eq_some_iff.mp evaluated
  refine ⟨calls, ended, results, ⟨by simp, ?_, .inr rfl, ?_, by simp, by simp⟩, ?_⟩
  · rintro rfl
    cases results
  · intro call member
    have listed := mem_map_of_mem (f := fun call : Call => (call.check "load" loadHits,
      call.sent.map Notification.severity)) member
    rw [results] at listed
    have states : ∀ outcome ∈ [(STATE_ERROR, []), (STATE_ERROR, []), (STATE_ERROR, [Severity.failure])],
        outcome.1 = STATE_ERROR := by decide
    exact states _ listed
  · intro inTime
    have third : (calls.map fun call => (call.check "load" loadHits, call.sent.map Notification.severity))[2]? =
        some (STATE_ERROR, [.failure]) := by
      rw [results]
      rfl
    rw [getElem?_map] at third
    obtain ⟨call, here, outcome⟩ := Option.map_eq_some_iff.mp third
    have sent : call.sent ≠ [] := by
      intro none
      have severity := (Prod.mk.inj outcome).2
      rw [none] at severity
      cases severity
    have late := (inTime.window 2 call here sent).2
    exact absurd late (by decide)

end NCollectd.Thresholds
