import NCollectd.Cache.Steps
import NCollectd.Distribution.Sub

namespace NCollectd

open Option

def Distribution.buckets (d : Distribution) : List Bucket := (getBuckets d).getD []

theorem Encodes.buckets_eq (encodes : Encodes d tree) : d.buckets = tree.leaves := by
  rw [Distribution.buckets, encodes.getBuckets_eq, getD_some]

/-- An update of the distribution metric with the given key. -/
structure DistributionMetric (page : PageSize) (key : CString) (m : Metric) : Prop where
  named : entryKey page m = some (.ok key)
  typed : m.family.type = .distribution
  carried : ∃ d, d.Reachable ∧ m.value = .distribution (some d)

def distributionValue (d : Distribution) : TypedValue := ⟨.distribution (some d), .distribution⟩

/-- What one update has to do to the entry of the previous distribution. -/
structure IncreaseCorrect (before : CacheEntry) (previous d : Distribution) (time : CdTime)
    (after : CacheEntry) : Prop where
  difference : Dominates d.buckets previous.buckets →
    ∃ increase, after.distributionIncrease = some increase ∧
      increase.buckets.map Bucket.maximum = d.buckets.map Bucket.maximum ∧
      increase.buckets.map (fun bucket => bucket.counter.toNat) =
        List.zipWith (fun a b => a.counter.toNat - b.counter.toNat) d.buckets previous.buckets ∧
      after.startValue = before.startValue ∧ after.startTime = before.startTime
  reset : ¬ Dominates d.buckets previous.buckets →
    after.distributionIncrease = some d ∧ after.startValue = distributionValue d ∧ after.startTime = time
  bounded : ∃ increase, after.distributionIncrease = some increase ∧ Dominates d.buckets increase.buckets

/-- The entry of a distribution metric after an update with the metric. -/
structure Tracks (m : Metric) (ce : CacheEntry) : Prop where
  raw : ce.valuesRaw.value = m.value
  start : ∃ d, ce.startValue = distributionValue d
  ordered : ce.startTime ≤ ce.lastTime

theorem newEntry_distribution (typed : m.family.type = .distribution)
    (value : m.value = .distribution (some d)) (made : newEntry m now = some (.ok entry)) :
    entry.distributionIncrease = some d ∧ entry.valuesRaw = distributionValue d ∧
      entry.startValue = distributionValue d ∧ entry.startTime = m.time ∧ entry.lastTime = m.time := by
  simp only [newEntry, typed, MetricType.number, DS_TYPE_COUNTER, DS_TYPE_GAUGE, DS_TYPE_DERIVE,
    DS_TYPE_DISTRIBUTION, value, Value.distribution?, insertedEntry, typedValueCreate, distributionClone,
    Nat.reduceEqDiff, if_false, if_true, bind_some, map_some, some.injEq,
    Except.ok.injEq] at made
  rw [← made]
  exact ⟨rfl, rfl, rfl, rfl, rfl⟩

theorem updateEntry_distribution (typed : m.family.type = .distribution)
    (value : m.value = .distribution (some d)) (raw : before.valuesRaw.value = .distribution (some previous))
    (start : before.startValue = distributionValue first)
    (stepped : updateEntry before m now = some (0, after)) :
    before.lastTime < m.time ∧ after.lastTime = m.time ∧ after.valuesRaw.value = m.value ∧
      ((¬ Comparable d previous ∧ after.distributionIncrease = some d ∧
          after.startValue = distributionValue d ∧ after.startTime = m.time) ∨
        Comparable d previous ∧ ∃ same, after.distributionIncrease = some (subtractCells d previous same) ∧
          after.startValue = before.startValue ∧ after.startTime = before.startTime) := by
  obtain ⟨newer, changed, revalued, rfl⟩ := updateEntry_success stepped
  refine ⟨newer, rfl, ?_⟩
  have outcome := distributionSub_cases d previous
  cases revalued with
  | counter _ _ other | gauge _ other => simp [typed] at other
  | restarted dist held _ _ value' raw' smaller =>
    obtain rfl : some d = dist := by simpa [value] using value'
    obtain rfl : some previous = held := by simpa [raw] using raw'
    refine ⟨value.symm, .inl ⟨?_, rfl, by simp [CacheEntry.renewed, start, distributionValue], rfl⟩⟩
    rcases outcome with ⟨_, result⟩ | ⟨_, ⟨opposite, _⟩ | ⟨_, _, result⟩⟩
    · simp [result, EINVAL, ERANGE] at smaller
    · exact opposite
    · simp [result, ERANGE] at smaller
  | increased dist held _ value' raw' success =>
    obtain rfl : some d = dist := by simpa [value] using value'
    obtain rfl : some previous = held := by simpa [raw] using raw'
    refine ⟨value.symm, .inr ?_⟩
    rcases outcome with ⟨_, result⟩ | ⟨_, ⟨_, result⟩ | ⟨aligned, same, result⟩⟩
    · simp [result, EINVAL] at success
    · simp [result, ERANGE] at success
    · exact ⟨aligned, same, congrArg Prod.snd result, rfl, rfl⟩
  | refused _ _ _ _ _ _ failed => exact absurd rfl failed

theorem Tracks.begun (metric : DistributionMetric page key m) (made : newEntry m now = some (.ok entry)) :
    Tracks m entry := by
  obtain ⟨d, _, value⟩ := metric.carried
  obtain ⟨_, raw, start, startTime, lastTime⟩ := newEntry_distribution metric.typed value made
  refine ⟨?_, ⟨d, start⟩, UInt64.le_of_eq (startTime.trans lastTime.symm)⟩
  rw [raw, value]
  rfl

theorem Tracks.step (tracks : Tracks m before) (earlier : DistributionMetric page key m)
    (metric : DistributionMetric page key m') (stepped : updateEntry before m' now = some (0, after)) :
    Tracks m' after := by
  obtain ⟨previous, _, value⟩ := earlier.carried
  obtain ⟨d, _, value'⟩ := metric.carried
  obtain ⟨first, start⟩ := tracks.start
  obtain ⟨newer, lastTime, raw, outcome⟩ :=
    updateEntry_distribution metric.typed value' (tracks.raw.trans value) start stepped
  rcases outcome with ⟨_, _, start', startTime⟩ | ⟨_, _, _, start', startTime⟩
  · exact ⟨raw, ⟨d, start'⟩, UInt64.le_of_eq (startTime.trans lastTime.symm)⟩
  · refine ⟨raw, ⟨first, start'.trans start⟩, ?_⟩
    rw [startTime, lastTime]
    exact UInt64.le_of_lt (UInt64.lt_of_le_of_lt tracks.ordered newer)

theorem dominates_subtract (dominates : Dominates first second) :
    Dominates first (List.zipWith subtractCell first second) := by
  induction dominates with
  | nil => exact .nil
  | @cons a b rest rest' atMost _ ih =>
    refine .cons ?_ ih
    rw [subtractCell, UInt64.le_iff_toNat_le, UInt64.toNat_sub_of_le _ _ atMost]
    exact Nat.sub_le _ _

theorem increaseCorrect_iff (encodes : Encodes d tree) (encodes' : Encodes previous other)
    (typed : m.family.type = .distribution) (value : m.value = .distribution (some d))
    (raw : before.valuesRaw.value = .distribution (some previous))
    (start : before.startValue = distributionValue first) (ordered : before.startTime ≤ before.lastTime)
    (stepped : updateEntry before m now = some (0, after)) :
    IncreaseCorrect before previous d m.time after ↔
      (Dominates d.buckets previous.buckets ↔ Comparable d previous) := by
  obtain ⟨newer, _, _, outcome⟩ := updateEntry_distribution typed value raw start stepped
  have later : before.startTime ≠ m.time := UInt64.ne_of_lt (UInt64.lt_of_le_of_lt ordered newer)
  rcases outcome with ⟨opposite, increase, start', startTime⟩ | ⟨aligned, same, increase, start', startTime⟩
  · constructor
    · intro correct
      refine iff_of_false ?_ opposite
      intro dominates
      obtain ⟨_, _, _, _, _, kept⟩ := correct.difference dominates
      exact later (kept.symm.trans startTime)
    · intro compared
      exact ⟨fun dominates => absurd (compared.mp dominates) opposite, fun _ => ⟨increase, start', startTime⟩,
        d, increase, List.forall₂_same.mpr fun bucket _ => UInt64.le_refl bucket.counter⟩
  · constructor
    · intro correct
      refine iff_of_true ?_ aligned
      by_contra smaller
      obtain ⟨_, _, moved⟩ := correct.reset smaller
      exact later (startTime.symm.trans moved)
    · intro compared
      have dominates := compared.mpr aligned
      have difference : (subtractCells d previous same).buckets =
          List.zipWith subtractCell d.buckets previous.buckets := by
        rw [(encodes.subtract encodes' same).buckets_eq, encodes.buckets_eq, encodes'.buckets_eq]
        exact encodes.covers.leaves_zipWith (same ▸ encodes'.covers) _
      refine ⟨fun _ => ⟨_, increase, ?_, ?_, start', startTime⟩, fun smaller => absurd dominates smaller,
        _, increase, ?_⟩
      · rw [difference, maxima_subtract dominates.length_eq]
      · rw [difference, counters_subtract dominates]
      · rw [difference]
        exact dominates_subtract dominates

/-- The first update keeps the distribution itself, and every later one is correct. -/
def IncreasesCorrect (key : CString) (trace : List (Metric × Cache)) : Prop :=
  (∀ seen ∈ trace.head?, ∃ entry d, seen.2[key]? = some entry ∧ seen.1.value = .distribution (some d) ∧
    entry.distributionIncrease = some d ∧ entry.startValue = distributionValue d ∧
    entry.startTime = seen.1.time) ∧
  trace.IsChain fun earlier later => ∃ before after previous d, earlier.2[key]? = some before ∧
    later.2[key]? = some after ∧ earlier.1.value = .distribution (some previous) ∧
    later.1.value = .distribution (some d) ∧ IncreaseCorrect before previous d later.1.time after

/-- Domination by the later distribution is what the comparison of the nodes reports. -/
def Compared (earlier later : Metric) : Prop :=
  ∀ previous d, earlier.value = .distribution (some previous) → later.value = .distribution (some d) →
    (Dominates d.buckets previous.buckets ↔ Comparable d previous)

/-- The later distribution is not smaller throughout: where it is nowhere greater, it is equal. -/
def NotSmaller (earlier later : Metric) : Prop :=
  ∀ previous d, earlier.value = .distribution (some previous) → later.value = .distribution (some d) →
    Dominates previous.buckets d.buckets → Dominates d.buckets previous.buckets

/-- All the counts of the distribution together fit a counter. -/
def CountsFit (m : Metric) : Prop :=
  ∀ d, m.value = .distribution (some d) →
    (d.buckets.map fun bucket => bucket.counter.toNat).sum < 2 ^ 64

theorem forall_carried {P : Distribution → Distribution → Prop}
    (value : earlier = Value.distribution (some previous)) (value' : later = Value.distribution (some d)) :
    (∀ previous d, earlier = .distribution (some previous) → later = .distribution (some d) → P previous d) ↔
      P previous d := by
  subst value value'
  constructor
  · intro all
    exact all previous d rfl rfl
  · intro holds previous' d' same same'
    cases same
    cases same'
    exact holds

theorem compared_iff_notSmaller (first : DistributionMetric page key earlier)
    (second : DistributionMetric page key later) (fits : CountsFit earlier) (fits' : CountsFit later) :
    Compared earlier later ↔ NotSmaller earlier later := by
  obtain ⟨previous, reachable, value⟩ := first.carried
  obtain ⟨d, reachable', value'⟩ := second.carried
  obtain ⟨other, encodes⟩ := reachable.encodes
  obtain ⟨tree, encodes'⟩ := reachable'.encodes
  have fit := fits previous value
  have fit' := fits' d value'
  rw [encodes.buckets_eq] at fit
  rw [encodes'.buckets_eq] at fit'
  rw [Compared, NotSmaller, forall_carried value value', forall_carried value value', encodes.buckets_eq,
    encodes'.buckets_eq]
  exact encodes'.compared_iff encodes fit' fit

theorem step_compared (earlier : DistributionMetric page key seen.1)
    (later : DistributionMetric page key seen'.1) (present : seen.2[key]? = some entry)
    (tracks : Tracks seen.1 entry) (stepped : Stepped key seen seen') :
    (∃ before after previous d, seen.2[key]? = some before ∧ seen'.2[key]? = some after ∧
      seen.1.value = .distribution (some previous) ∧ seen'.1.value = .distribution (some d) ∧
      IncreaseCorrect before previous d seen'.1.time after) ↔ Compared seen.1 seen'.1 := by
  obtain ⟨before, after, now, found, found', updated⟩ := stepped
  obtain rfl : before = entry := some.inj (found.symm.trans present)
  obtain ⟨previous, reachable, value⟩ := earlier.carried
  obtain ⟨d, reachable', value'⟩ := later.carried
  obtain ⟨other, encodes⟩ := reachable.encodes
  obtain ⟨tree, encodes'⟩ := reachable'.encodes
  obtain ⟨first, start⟩ := tracks.start
  rw [Compared, forall_carried value value', ← increaseCorrect_iff encodes' encodes later.typed value'
    (tracks.raw.trans value) start tracks.ordered updated]
  constructor
  · intro correct
    obtain ⟨_, _, _, _, one, two, three, four, holds⟩ := correct
    cases found.symm.trans one
    cases found'.symm.trans two
    cases value.symm.trans three
    cases value'.symm.trans four
    exact holds
  · intro holds
    exact ⟨before, after, previous, d, found, found', value, value', holds⟩

theorem isChain_iff_along {list : List α} (chain : list.IsChain R)
    (same : ∀ a ∈ list, ∀ b ∈ list, R a b → (S a b ↔ T a b)) : list.IsChain S ↔ list.IsChain T := by
  induction chain with
  | nil => exact iff_of_true .nil .nil
  | singleton a => exact iff_of_true (.singleton a) (.singleton a)
  | @cons_cons a b rest related _ ih =>
    rw [List.isChain_cons_cons, List.isChain_cons_cons, same a (by simp) b (by simp) related]
    apply and_congr_right'
    apply ih
    intro x member y member'
    exact same x (List.mem_cons_of_mem _ member) y (List.mem_cons_of_mem _ member')

/-- The increases are right exactly where the growing distributions, and no others, are reported as such. -/
theorem cached_increase_correct_iff (page : PageSize) (cache : Cache) (key : CString)
    (updates : List (Metric × CdTime)) (trace : List (Metric × Cache)) (absent : cache[key]? = none)
    (metrics : ∀ item ∈ updates, DistributionMetric page key item.1)
    (run : updateTrace page cache updates = some trace) :
    (IncreasesCorrect key trace ↔ (updates.map Prod.fst).IsChain Compared) ∧
      ((∀ item ∈ updates, CountsFit item.1) →
        (IncreasesCorrect key trace ↔ (updates.map Prod.fst).IsChain NotSmaller)) := by
  obtain ⟨same, begun, chain⟩ := updateTrace_chain run (fun item member => (metrics item member).named) absent
  have shaped := trace_metrics same metrics
  have tracked := trace_invariant (P := fun m ce => DistributionMetric page key m ∧ Tracks m ce) begun chain
    (fun seen member now entry made => ⟨shaped seen member, .begun (shaped seen member) made⟩)
    (fun seen member _ _ _ _ held stepped =>
      ⟨shaped seen member, held.2.step held.1 (shaped seen member) stepped⟩)
  have first : ∀ seen ∈ trace.head?, ∃ entry d, seen.2[key]? = some entry ∧
      seen.1.value = .distribution (some d) ∧ entry.distributionIncrease = some d ∧
      entry.startValue = distributionValue d ∧ entry.startTime = seen.1.time := by
    intro seen head
    obtain ⟨entry, now, made, found⟩ := begun seen head
    have metric := shaped seen (List.mem_of_mem_head? head)
    obtain ⟨d, _, value⟩ := metric.carried
    obtain ⟨increase, _, start, startTime, _⟩ := newEntry_distribution metric.typed value made
    exact ⟨entry, d, found, value, increase, start, startTime⟩
  have general : IncreasesCorrect key trace ↔ (updates.map Prod.fst).IsChain Compared := by
    rw [IncreasesCorrect, ← same, List.isChain_map, and_iff_right first]
    apply isChain_iff_along chain
    intro seen member seen' member' stepped
    obtain ⟨entry, present, metric, tracks⟩ := tracked seen member
    exact step_compared metric (shaped seen' member') present tracks stepped
  refine ⟨general, ?_⟩
  intro fits
  rw [general]
  apply List.IsChain.iff_of_mem_imp
  intro earlier later member member'
  obtain ⟨item, inUpdates, rfl⟩ := List.mem_map.mp member
  obtain ⟨item', inUpdates', rfl⟩ := List.mem_map.mp member'
  exact compared_iff_notSmaller (metrics item inUpdates) (metrics item' inUpdates') (fits item inUpdates)
    (fits item' inUpdates')

def latency (d : Distribution) (time : CdTime) : Metric :=
  ⟨⟨"latency", .distribution⟩, .empty, .distribution (some d), time, 10⟩

theorem latency_metric (reachable : d.Reachable) (time : CdTime) :
    DistributionMetric (strbufPagesize 4096) "latency" (latency d time) :=
  ⟨entryKey_bare _ rfl, rfl, d, reachable, rfl⟩

theorem latency_run (first : d.Reachable) (second : d'.Reachable) :
    ∀ item ∈ [(latency d 1, (1 : CdTime)), (latency d' 2, 2)],
      DistributionMetric (strbufPagesize 4096) "latency" item.1 := by
  intro item member
  rcases List.mem_cons.mp member with rfl | member
  · exact latency_metric first 1
  · obtain rfl := List.mem_singleton.mp member
    exact latency_metric second 2

theorem cached_increase_correct_growing :
    ∃ trace, updateTrace (strbufPagesize 4096) ∅ [(latency twoBuckets 1, 1), (latency twoBucketsUpdated 2, 2)] =
        some trace ∧
      (IncreasesCorrect "latency".toList trace ↔
        [latency twoBuckets 1, latency twoBucketsUpdated 2].IsChain Compared) := by
  have success : (updateTrace (strbufPagesize 4096) ∅
      [(latency twoBuckets 1, 1), (latency twoBucketsUpdated 2, 2)]).isSome = true := by decide +kernel
  obtain ⟨trace, run⟩ := isSome_iff_exists.mp success
  have absent : (∅ : Cache)["latency".toList]? = none := by simp
  exact ⟨trace, run, (cached_increase_correct_iff _ _ _ _ _ absent
    (latency_run (.constructed twoBuckets_constructed) twoBucketsUpdated_reachable) run).1⟩

def cachedIncrease (key : CString) (seen : Metric × Cache) : Option (List Bucket) :=
  seen.2[key]?.bind fun ce => ce.distributionIncrease.map Distribution.buckets

/-- A restarted source: its counter goes from 1 to 0, and the increase is 2⁶⁴ - 1. -/
theorem cached_increase_reset_missed :
    (∀ item ∈ [(latency twoBucketsUpdated 1, (1 : CdTime)), (latency twoBuckets 2, 2)],
      DistributionMetric (strbufPagesize 4096) "latency" item.1) ∧
    ∃ trace, updateTrace (strbufPagesize 4096) ∅ [(latency twoBucketsUpdated 1, 1), (latency twoBuckets 2, 2)] =
        some trace ∧
      trace.map (cachedIncrease "latency") =
        [some [⟨1, .fin 1⟩, ⟨0, .posInf⟩], some [⟨18446744073709551615, .fin 1⟩, ⟨0, .posInf⟩]] ∧
      ¬ IncreasesCorrect "latency" trace := by
  refine ⟨latency_run twoBucketsUpdated_reachable (.constructed twoBuckets_constructed), ?_⟩
  have evaluated : (updateTrace (strbufPagesize 4096) ∅
      [(latency twoBucketsUpdated 1, 1), (latency twoBuckets 2, 2)]).map (fun trace =>
        trace.map fun seen => (seen.1, cachedIncrease "latency" seen)) =
      some [(latency twoBucketsUpdated 1, some [⟨1, .fin 1⟩, ⟨0, .posInf⟩]),
        (latency twoBuckets 2, some [⟨18446744073709551615, .fin 1⟩, ⟨0, .posInf⟩])] := by
    decide +kernel
  obtain ⟨trace, run, seen⟩ := map_eq_some_iff.mp evaluated
  obtain ⟨first, rest, rfl, one, others⟩ := List.map_eq_cons_iff.mp seen
  obtain ⟨second, none, rfl, two, last⟩ := List.map_eq_cons_iff.mp others
  obtain rfl := List.map_eq_nil_iff.mp last
  obtain ⟨_, firstIncrease⟩ := Prod.mk.inj one
  obtain ⟨metric, increase⟩ := Prod.mk.inj two
  refine ⟨_, run, by rw [List.map_cons, List.map_cons, firstIncrease, increase]; rfl, ?_⟩
  intro correct
  obtain ⟨_, after, _, d, _, found, _, value, step⟩ := List.isChain_pair.mp correct.2
  obtain ⟨cached, held, bounded⟩ := step.bounded
  rw [metric] at value
  obtain rfl : twoBuckets = d := some.inj (Value.distribution.inj value)
  simp only [cachedIncrease, found, held, bind_some, map_some, some.injEq] at increase
  rw [increase] at bounded
  revert bounded
  decide +kernel

end NCollectd
