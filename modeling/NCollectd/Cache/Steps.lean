import NCollectd.Cache.Model
import NCollectd.Metric.Identity

namespace NCollectd

open LabelSet List Option

theorem entryKey_eq (page : PageSize) (read : readPairs m.label = some pairs) :
    entryKey page m = some (.ok (identityText m.family.name pairs)) := by
  obtain ⟨next, written, _, text⟩ :=
    metricIdentity_appends page read (show Strbuf.create.fixed = false from rfl)
  have content : next.text = identityText m.family.name pairs := by simpa [Strbuf.create] using text
  simp [entryKey, written, content]

theorem entryKey_bare (page : PageSize) (free : m.label = .empty) :
    entryKey page m = some (.ok m.family.name) := by
  have read : readPairs m.label = some [] := by
    rw [free]
    rfl
  rw [entryKey_eq page read]
  rfl

theorem newEntry_made (made : newEntry m now = some result) :
    ∃ type rate increase entry, insertedEntry m now type rate increase = some entry ∧ result = .ok entry := by
  unfold newEntry at made
  dsimp only at made
  have mapped {type : MetricType} {rate : Double} {increase : Option Distribution}
      (made : (insertedEntry m now type rate increase).map .ok = some result) :
      ∃ type rate increase entry, insertedEntry m now type rate increase = some entry ∧ result = .ok entry := by
    obtain ⟨entry, inserted, rfl⟩ := map_eq_some_iff.mp made
    exact ⟨_, _, _, entry, inserted, rfl⟩
  split at made
  · exact mapped made
  split at made
  · obtain ⟨_, _, made⟩ := bind_eq_some_iff.mp made
    exact mapped made
  split at made
  · exact mapped made
  split at made
  · obtain ⟨_, _, made⟩ := bind_eq_some_iff.mp made
    exact mapped made
  · rename_i no_counter no_gauge no_derive no_distribution
    cases type : m.family.type <;>
      simp_all [MetricType.number, DS_TYPE_COUNTER, DS_TYPE_GAUGE, DS_TYPE_DERIVE, DS_TYPE_DISTRIBUTION]

/-- What the switch of `uc_update_metric` can do to an entry. -/
inductive Revalued (ce : CacheEntry) (m : Metric) : Status → CacheEntry → Prop where
  | counter (old new : UInt64) (typed : m.family.type = .counter)
      (raw : ce.valuesRaw.value = .counter old) (value : m.value = .counter new) :
      Revalued ce m 0 { ce with
        valuesGauge := (Double.ofNat (counterDiff old new).toNat).div (cdtimeToDouble (m.time - ce.lastTime))
        valuesRaw := { ce.valuesRaw with value := .counter new } }
  | gauge (gauge : Double) (typed : m.family.type = .untyped ∨ m.family.type = .gauge)
      (value : m.value = .gauge gauge) :
      Revalued ce m 0 { ce with
        valuesRaw := { ce.valuesRaw with value := .gauge gauge }
        valuesGauge := gauge }
  | restarted (dist raw old : Option Distribution) (typed : m.family.type = .distribution)
      (value : m.value = .distribution dist) (held : ce.valuesRaw.value = .distribution raw)
      (smaller : (distributionSub dist raw).1 = ERANGE) (start : ce.startValue.value = .distribution old) :
      Revalued ce m 0 { ce with
        distributionIncrease := dist
        startValue := { ce.startValue with value := .distribution dist }
        startTime := m.time
        valuesRaw := { ce.valuesRaw with value := .distribution dist } }
  | refused (dist raw : Option Distribution) (typed : m.family.type = .distribution)
      (value : m.value = .distribution dist) (held : ce.valuesRaw.value = .distribution raw)
      (reported : (distributionSub dist raw).1 = status) (failed : status ≠ 0) (other : status ≠ ERANGE) :
      Revalued ce m status { ce with distributionIncrease := (distributionSub dist raw).2 }
  | increased (dist raw : Option Distribution) (typed : m.family.type = .distribution)
      (value : m.value = .distribution dist) (held : ce.valuesRaw.value = .distribution raw)
      (success : (distributionSub dist raw).1 = 0) :
      Revalued ce m 0 { ce with
        distributionIncrease := (distributionSub dist raw).2
        valuesRaw := { ce.valuesRaw with value := .distribution dist } }

theorem updateDistribution_revalued {dist next} (typed : m.family.type = .distribution)
    (value : m.value = .distribution dist) (held : ce.valuesRaw.value = .distribution raw)
    (done : updateDistribution ce m dist raw = some (status, next)) : Revalued ce m status next := by
  simp only [updateDistribution, distributionClone_eq] at done
  split at done
  · rename_i smaller
    obtain ⟨old, start, result⟩ := map_eq_some_iff.mp done
    cases result
    exact .restarted dist raw old typed value held smaller (Value.distribution?_eq_some.mp start)
  · rename_i other
    split at done
    · rename_i failed
      cases done
      exact .refused dist raw typed value held rfl failed other
    · rename_i success
      cases done
      exact .increased dist raw typed value held (not_not.mp success)

theorem updateValues_revalued {next} (done : updateValues ce m = some (status, next)) : Revalued ce m status next := by
  unfold updateValues at done
  split at done
  · rename_i typed
    obtain ⟨old, raw, done⟩ := bind_eq_some_iff.mp done
    obtain ⟨new, value, result⟩ := map_eq_some_iff.mp done
    cases result
    exact .counter old new typed (Value.counter?_eq_some.mp raw) (Value.counter?_eq_some.mp value)
  · rename_i typed
    obtain ⟨gauge, value, result⟩ := map_eq_some_iff.mp done
    cases result
    exact .gauge gauge (.inl typed) (Value.gauge?_eq_some.mp value)
  · rename_i typed
    obtain ⟨gauge, value, result⟩ := map_eq_some_iff.mp done
    cases result
    exact .gauge gauge (.inr typed) (Value.gauge?_eq_some.mp value)
  · rename_i typed
    obtain ⟨dist, value, done⟩ := bind_eq_some_iff.mp done
    obtain ⟨raw, held, done⟩ := bind_eq_some_iff.mp done
    exact updateDistribution_revalued typed (Value.distribution?_eq_some.mp value)
      (Value.distribution?_eq_some.mp held) done

def CacheEntry.renewed (ce : CacheEntry) (m : Metric) (now : CdTime) : CacheEntry :=
  { ce with
    history := ce.history.record ce.valuesGauge
    lastTime := m.time
    lastUpdate := now
    interval := m.interval }

theorem updateEntry_cases {next} (stepped : updateEntry ce m now = some (status, next)) :
    (m.time ≤ ce.lastTime ∧ status = -1 ∧ next = ce) ∨
      ce.lastTime < m.time ∧ ∃ changed, Revalued ce m status changed ∧
        (status ≠ 0 ∧ next = changed ∨ status = 0 ∧ next = changed.renewed m now) := by
  unfold updateEntry at stepped
  split at stepped
  · rename_i old
    cases stepped
    exact .inl ⟨old, rfl, rfl⟩
  · rename_i newer
    obtain ⟨⟨status', changed⟩, values, finished⟩ := map_eq_some_iff.mp stepped
    refine .inr ⟨UInt64.not_le.mp newer, changed, ?_⟩
    dsimp only at finished
    split at finished
    · rename_i failed
      cases finished
      exact ⟨updateValues_revalued values, .inl ⟨failed, rfl⟩⟩
    · rename_i success
      cases finished
      rw [not_not.mp success] at values
      exact ⟨updateValues_revalued values, .inr ⟨rfl, rfl⟩⟩

theorem updateEntry_success {next} (stepped : updateEntry ce m now = some (0, next)) :
    ce.lastTime < m.time ∧ ∃ changed, Revalued ce m 0 changed ∧ next = changed.renewed m now := by
  rcases updateEntry_cases stepped with ⟨_, failed, _⟩ | ⟨newer, changed, revalued, outcome⟩
  · cases failed
  · rcases outcome with ⟨failed, _⟩ | ⟨_, renewed⟩
    · exact absurd rfl failed
    · exact ⟨newer, changed, revalued, renewed⟩

/-- The three things an update can do. -/
inductive Updated (page : PageSize) (cache : Cache) (m : Metric) (now : CdTime) : Outcome → Prop where
  | keyless (failed : entryKey page m = some (.error status)) : Updated page cache m now ⟨status, cache, []⟩
  | inserted (key : CString) (entry : CacheEntry) (named : entryKey page m = some (.ok key))
      (absent : cache[key]? = none) (made : newEntry m now = some (.ok entry)) :
      Updated page cache m now ⟨0, cache.insert key entry, [.cacheEvent .valueNew 0 key m]⟩
  | rewritten (key : CString) (ce next : CacheEntry) (status : Status) (events : List Event)
      (named : entryKey page m = some (.ok key)) (present : cache[key]? = some ce)
      (stepped : updateEntry ce m now = some (status, next)) :
      Updated page cache m now ⟨status, cache.insert key next, events⟩

theorem ucUpdateMetric_updated (updated : ucUpdateMetric page cache m now = some outcome) :
    Updated page cache m now outcome := by
  obtain ⟨named, key, step⟩ := bind_eq_some_iff.mp updated
  rcases named with status | key'
  · cases step
    exact .keyless key
  · unfold updateAt at step
    dsimp only at step
    split at step
    · rename_i absent
      obtain ⟨⟨status, next⟩, inserted, rfl⟩ := map_eq_some_iff.mp step
      obtain ⟨result, made, stored⟩ := map_eq_some_iff.mp inserted
      obtain ⟨_, _, _, entry, _, rfl⟩ := newEntry_made made
      have missing : key' ∉ cache := by
        rw [Std.ExtTreeMap.mem_iff_isSome_getElem?, absent]
        simp
      simp only [cAvlInsert, missing, if_false, ne_eq, not_true_eq_false, Prod.mk.injEq] at stored
      obtain ⟨rfl, rfl⟩ := stored
      exact .inserted key' entry key absent made
    · rename_i ce present
      obtain ⟨⟨status, next⟩, stepped, rfl⟩ := map_eq_some_iff.mp step
      exact .rewritten key' ce next status _ key present stepped

theorem ucUpdateMetric_frame (updated : ucUpdateMetric page cache m now = some outcome)
    (other : entryKey page m ≠ some (.ok key)) : outcome.cache[key]? = cache[key]? := by
  cases ucUpdateMetric_updated updated with
  | keyless => rfl
  | inserted found entry named | rewritten found ce next status events named =>
    rw [AvlTree.getElem?_insert, if_neg]
    rintro rfl
    exact other named

theorem ucUpdate_frame (run : ucUpdate page cache updates = some outcome)
    (others : ∀ item ∈ updates, entryKey page item.1 ≠ some (.ok key)) :
    outcome.cache[key]? = cache[key]? := by
  induction updates generalizing cache outcome with
  | nil =>
    cases run
    rfl
  | cons item rest ih =>
    obtain ⟨first, stepped, remaining⟩ := bind_eq_some_iff.mp run
    obtain ⟨last, finished, rfl⟩ := map_eq_some_iff.mp remaining
    have kept := ih finished fun item member => others item (mem_cons_of_mem _ member)
    exact kept.trans (ucUpdateMetric_frame stepped (others item mem_cons_self))

def updateTrace (page : PageSize) (cache : Cache) : List (Metric × CdTime) → Option (List (Metric × Cache))
  | [] => some []
  | (m, now) :: rest =>
    (ucUpdateMetric page cache m now).bind fun outcome =>
      if outcome.status ≠ 0 then none
      else (updateTrace page outcome.cache rest).map fun trace => (m, outcome.cache) :: trace

theorem updateTrace_cons (run : updateTrace page cache ((m, now) :: rest) = some trace) :
    ∃ outcome more, ucUpdateMetric page cache m now = some outcome ∧ outcome.status = 0 ∧
      updateTrace page outcome.cache rest = some more ∧ trace = (m, outcome.cache) :: more := by
  obtain ⟨outcome, updated, remaining⟩ := bind_eq_some_iff.mp run
  split at remaining
  · cases remaining
  · rename_i success
    obtain ⟨more, finished, rfl⟩ := map_eq_some_iff.mp remaining
    exact ⟨outcome, more, updated, not_not.mp success, finished, rfl⟩

section

variable (updated : ucUpdateMetric page cache m now = some outcome) (named : entryKey page m = some (.ok key))
include updated named

theorem ucUpdateMetric_first (absent : cache[key]? = none) :
    ∃ entry, newEntry m now = some (.ok entry) ∧ outcome.cache[key]? = some entry := by
  cases ucUpdateMetric_updated updated with
  | keyless failed => simp [named] at failed
  | inserted found entry same _ made =>
    obtain rfl : key = found := by simpa [named] using same
    exact ⟨entry, made, by rw [AvlTree.getElem?_insert, if_pos rfl]⟩
  | rewritten found ce next status events same present =>
    obtain rfl : key = found := by simpa [named] using same
    simp [absent] at present

theorem ucUpdateMetric_next (present : cache[key]? = some ce) :
    ∃ next, updateEntry ce m now = some (outcome.status, next) ∧ outcome.cache = cache.insert key next := by
  cases ucUpdateMetric_updated updated with
  | keyless failed => simp [named] at failed
  | inserted found entry same absent =>
    obtain rfl : key = found := by simpa [named] using same
    simp [absent] at present
  | rewritten found ce' next status events same present' stepped =>
    obtain rfl : key = found := by simpa [named] using same
    obtain rfl : ce = ce' := by simpa [present] using present'
    exact ⟨next, stepped, rfl⟩

end

/-- Two neighbours of a trace: the entry of the first is updated to that of the second. -/
def Stepped (key : CString) (earlier later : Metric × Cache) : Prop :=
  ∃ before after now, earlier.2[key]? = some before ∧ later.2[key]? = some after ∧
    updateEntry before later.1 now = some (0, after)

/-- The first update of a trace made the entry. -/
def Begun (key : CString) (seen : Metric × Cache) : Prop :=
  ∃ entry now, newEntry seen.1 now = some (.ok entry) ∧ seen.2[key]? = some entry

section

variable (run : updateTrace page cache updates = some trace)
  (named : ∀ item ∈ updates, entryKey page item.1 = some (.ok key))
include run named

theorem updateTrace_stepped (present : cache[key]? = some ce) (previous : Metric)
    : ((previous, cache) :: trace).IsChain (Stepped key) := by
  induction updates generalizing cache ce trace previous with
  | nil =>
    cases run
    exact isChain_singleton _
  | cons item rest ih =>
    obtain ⟨outcome, more, updated, success, finished, rfl⟩ := updateTrace_cons run
    obtain ⟨next, stepped, stored⟩ := ucUpdateMetric_next updated (named item mem_cons_self) present
    have found : outcome.cache[key]? = some next := by rw [stored, AvlTree.getElem?_insert, if_pos rfl]
    have later := ih finished (fun item member => named item (mem_cons_of_mem _ member)) found item.1
    rw [success] at stepped
    exact isChain_cons_cons.mpr ⟨⟨ce, next, item.2, present, found, stepped⟩, later⟩

theorem updateTrace_chain (absent : cache[key]? = none) :
    trace.map Prod.fst = updates.map Prod.fst ∧ (∀ seen ∈ trace.head?, Begun key seen) ∧
      trace.IsChain (Stepped key) := by
  have metrics : trace.map Prod.fst = updates.map Prod.fst := by
    clear named absent
    induction updates generalizing cache trace with
    | nil =>
      cases run
      rfl
    | cons item rest ih =>
      obtain ⟨outcome, more, _, _, finished, rfl⟩ := updateTrace_cons run
      rw [map_cons, map_cons, ih finished]
  refine ⟨metrics, ?_⟩
  cases updates with
  | nil =>
    cases run
    exact ⟨by simp, .nil⟩
  | cons item rest =>
    obtain ⟨outcome, more, updated, _, finished, rfl⟩ := updateTrace_cons run
    obtain ⟨entry, made, found⟩ := ucUpdateMetric_first updated (named item mem_cons_self) absent
    refine ⟨?_, updateTrace_stepped finished (fun item member => named item (mem_cons_of_mem _ member))
      found item.1⟩
    intro seen first
    cases first
    exact ⟨entry, item.2, made, found⟩

end

theorem trace_metrics {Q : Metric → Prop} {trace : List (Metric × Cache)} {updates : List (Metric × CdTime)}
    (same : trace.map Prod.fst = updates.map Prod.fst) (all : ∀ item ∈ updates, Q item.1) :
    ∀ seen ∈ trace, Q seen.1 := by
  intro seen member
  have listed : seen.1 ∈ updates.map Prod.fst := same ▸ mem_map_of_mem member
  obtain ⟨item, inUpdates, equal⟩ := mem_map.mp listed
  exact equal ▸ all item inUpdates

/-- What the first entry has and every update keeps, all the entries of a trace have. -/
theorem trace_invariant {P : Metric → CacheEntry → Prop} {trace : List (Metric × Cache)}
    (begun : ∀ seen ∈ trace.head?, Begun key seen) (chain : trace.IsChain (Stepped key))
    (start : ∀ seen ∈ trace, ∀ now entry, newEntry seen.1 now = some (.ok entry) → P seen.1 entry)
    (step : ∀ seen ∈ trace, ∀ previous before now after, P previous before →
      updateEntry before seen.1 now = some (0, after) → P seen.1 after) :
    ∀ seen ∈ trace, ∃ entry, seen.2[key]? = some entry ∧ P seen.1 entry := by
  cases trace with
  | nil => simp
  | cons first rest =>
    obtain ⟨entry, now, made, found⟩ := begun first rfl
    have held : ∃ entry, first.2[key]? = some entry ∧ P first.1 entry :=
      ⟨entry, found, start first mem_cons_self now entry made⟩
    clear begun start made found
    induction rest generalizing first with
    | nil => simpa using held
    | cons second rest ih =>
      obtain ⟨⟨before, after, now, found, next, stepped⟩, later⟩ := isChain_cons_cons.mp chain
      obtain ⟨entry, found', holds⟩ := held
      obtain rfl : before = entry := some.inj (found.symm.trans found')
      have reached := step second (by simp) first.1 before now after holds stepped
      have others := ih second later (fun seen member => step seen (mem_cons_of_mem _ member))
        ⟨after, next, reached⟩
      intro seen member
      rcases mem_cons.mp member with rfl | member
      · exact ⟨before, found, holds⟩
      · exact others seen member

end NCollectd
