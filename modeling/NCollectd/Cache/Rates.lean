import NCollectd.Cache.Steps

namespace NCollectd

open Option

/-- The union member a value of the type has. -/
def MetricType.Carries : MetricType → Value → Prop
  | .counter, .counter _ => True
  | .gauge, .gauge _ => True
  | .untyped, .gauge _ => True
  | .distribution, .distribution _ => True
  | _, _ => False

/-- An update of the metric with the given key and type. -/
structure TypedMetric (page : PageSize) (key : CString) (type : MetricType) (m : Metric) : Prop where
  named : entryKey page m = some (.ok key)
  typed : m.family.type = type
  carried : type.Carries m.value

def counterRate (old new : UInt64) (earlier later : CdTime) : Double :=
  .fin ((counterDiff old new).toNat / (((later.toNat : ℚ) - earlier.toNat) / 1073741824))

/-- Every entry of the trace has the type of the family and the rate of its update. -/
structure RatesCorrect (page : PageSize) (key : CString) (type : MetricType)
    (trace : List (Metric × Cache)) : Prop where
  typed : ∀ seen ∈ trace, ∃ ce, seen.2[key]? = some ce ∧ ce.valuesRaw.type = type
  gauge : type = .gauge ∨ type = .untyped → ∀ seen ∈ trace,
    ∃ value, seen.1.value = .gauge value ∧ ucGetRate page seen.2 seen.1 = some (.ok value)
  counter : type = .counter → trace.IsChain fun earlier later =>
    ∃ old new, earlier.1.value = .counter old ∧ later.1.value = .counter new ∧
      ucGetRate page later.2 later.1 = some (.ok (counterRate old new earlier.1.time later.1.time))

/-- The entry of a scalar metric after an update with the metric. -/
structure Holding (type : MetricType) (m : Metric) (ce : CacheEntry) : Prop where
  state : ce.state = STATE_UNKNOWN
  raw : ce.valuesRaw = ⟨m.value, type⟩
  time : ce.lastTime = m.time
  rate : type = .gauge → m.value = .gauge ce.valuesGauge

theorem newEntry_untyped (typed : m.family.type = .untyped) (made : newEntry m now = some (.ok entry)) :
    entry.valuesRaw.type = .counter := by
  simp only [newEntry, typed, MetricType.number, DS_TYPE_COUNTER, DS_TYPE_GAUGE, DS_TYPE_DERIVE,
    insertedEntry, typedValueCreate, reduceCtorEq, Nat.reduceEqDiff, OfNat.ofNat_ne_zero, if_false, if_true,
    map_some, some.injEq, Except.ok.injEq] at made
  rw [← made]

theorem Holding.begun (metric : TypedMetric page key type m) (scalar : type = .counter ∨ type = .gauge)
    (made : newEntry m now = some (.ok entry)) : Holding type m entry := by
  have typed := metric.typed
  rcases scalar with rfl | rfl
  · simp only [newEntry, typed, MetricType.number, DS_TYPE_COUNTER, insertedEntry, typedValueCreate,
      reduceCtorEq, if_false, if_true, map_some, some.injEq, Except.ok.injEq] at made
    rw [← made]
    exact ⟨rfl, rfl, rfl, by simp⟩
  · obtain ⟨value, carried⟩ : ∃ value, m.value = .gauge value := by
      have carries := metric.carried
      cases held : m.value <;> simp_all [MetricType.Carries]
    simp only [newEntry, typed, MetricType.number, DS_TYPE_COUNTER, DS_TYPE_GAUGE, carried, Value.gauge?,
      insertedEntry, typedValueCreate, reduceCtorEq, one_ne_zero, if_false, if_true, bind_some,
      map_some, some.injEq, Except.ok.injEq] at made
    rw [← made]
    exact ⟨rfl, by rw [carried], rfl, fun _ => carried⟩

theorem Holding.step (holding : Holding type earlier before) (metric : TypedMetric page key type later)
    (scalar : type = .counter ∨ type = .gauge) (stepped : updateEntry before later now = some (0, after)) :
    Holding type later after := by
  obtain ⟨_, changed, revalued, rfl⟩ := updateEntry_success stepped
  have typed := metric.typed
  have raw := holding.raw
  cases revalued with
  | counter old new same _ value =>
    refine ⟨holding.state, ?_, rfl, ?_⟩
    · simp [CacheEntry.renewed, raw, value]
    · rintro rfl
      simp [typed] at same
  | gauge gauge _ value =>
    refine ⟨holding.state, ?_, rfl, fun _ => value⟩
    simp [CacheEntry.renewed, raw, value]
  | restarted _ _ _ same | increased _ _ same => rcases scalar with rfl | rfl <;> simp [typed] at same
  | refused _ _ _ _ _ _ failed => exact absurd rfl failed

theorem Holding.ucGetRate_eq (holding : Holding type m ce) (metric : TypedMetric page key type m)
    (scalar : type = .counter ∨ type = .gauge) (present : cache[key]? = some ce) :
    ucGetRate page cache m = some (.ok ce.valuesGauge) := by
  have known : ce.state ≠ STATE_MISSING := by
    rw [holding.state]
    decide
  rcases scalar with rfl | rfl
  all_goals
    simp [ucGetRate, metric.named, metric.typed, ucGetRateByName, present, known, holding.raw]

theorem cdtime_difference {earlier later : CdTime} (newer : earlier < later) :
    ((later - earlier).toNat : ℚ) / 1073741824 = ((later.toNat : ℚ) - earlier.toNat) / 1073741824 := by
  have atMost : earlier.toNat ≤ later.toNat := UInt64.le_iff_toNat_le.mp (UInt64.le_of_lt newer)
  rw [UInt64.toNat_sub_of_le _ _ (UInt64.le_of_lt newer), Nat.cast_sub atMost]

theorem cdtime_difference_ne_zero {earlier later : CdTime} (newer : earlier < later) :
    ((later - earlier).toNat : ℚ) / 1073741824 ≠ 0 := by
  have ordered : (earlier.toNat : ℚ) < later.toNat := Nat.cast_lt.mpr (UInt64.lt_iff_toNat_lt.mp newer)
  rw [cdtime_difference newer]
  exact div_ne_zero (sub_ne_zero.mpr (ne_of_gt ordered)) (by norm_num)

theorem updateEntry_counterRate (holding : Holding .counter earlier before)
    (metric : TypedMetric page key .counter later) (stepped : updateEntry before later now = some (0, after)) :
    ∃ old new, earlier.value = .counter old ∧ later.value = .counter new ∧
      after.valuesGauge = counterRate old new earlier.time later.time := by
  obtain ⟨newer, changed, revalued, rfl⟩ := updateEntry_success stepped
  have typed := metric.typed
  cases revalued with
  | counter old new _ raw value =>
    refine ⟨old, new, ?_, value, ?_⟩
    · rw [← raw, holding.raw]
    · rw [holding.time] at newer
      rw [counterRate, ← cdtime_difference newer]
      simp only [CacheEntry.renewed, holding.time, cdtimeToDouble, Double.ofNat, Double.div,
        if_neg (show (1073741824 : ℚ) ≠ 0 by norm_num), if_neg (cdtime_difference_ne_zero newer)]
  | gauge _ same | restarted _ _ _ same | increased _ _ same | refused _ _ same => simp [typed] at same

theorem rates_of_holding (scalar : type = .counter ∨ type = .gauge)
    (metrics : ∀ seen ∈ trace, TypedMetric page key type seen.1)
    (chain : trace.IsChain (Stepped key))
    (held : ∀ seen ∈ trace, ∃ ce, seen.2[key]? = some ce ∧ Holding type seen.1 ce) :
    RatesCorrect page key type trace := by
  refine ⟨?_, ?_, ?_⟩
  · intro seen member
    obtain ⟨ce, present, holding⟩ := held seen member
    exact ⟨ce, present, by rw [holding.raw]⟩
  · intro gauge seen member
    obtain ⟨ce, present, holding⟩ := held seen member
    have same : type = .gauge := by
      rcases gauge with same | rfl
      · exact same
      · simp at scalar
    exact ⟨ce.valuesGauge, holding.rate same, holding.ucGetRate_eq (metrics seen member) scalar present⟩
  · rintro rfl
    refine chain.imp_of_mem_imp ?_
    intro earlier later member member' stepped
    obtain ⟨before, after, now, found, found', updated⟩ := stepped
    obtain ⟨ce, present, holding⟩ := held earlier member
    obtain ⟨ce', present', holding'⟩ := held later member'
    cases found.symm.trans present
    cases found'.symm.trans present'
    obtain ⟨old, new, value, value', rate⟩ := updateEntry_counterRate holding (metrics later member') updated
    refine ⟨old, new, value, value', ?_⟩
    rw [holding'.ucGetRate_eq (metrics later member') scalar present', rate]

/-- Over every run the rates are right exactly for a typed metric: an untyped one is inserted as a counter. -/
theorem cache_rates_correct_iff (page : PageSize) (cache : Cache) (key : CString) (type : MetricType)
    (updates : List (Metric × CdTime)) (trace : List (Metric × Cache)) (absent : cache[key]? = none)
    (scalar : type ≠ .distribution) (nonempty : updates ≠ [])
    (metrics : ∀ item ∈ updates, TypedMetric page key type item.1)
    (run : updateTrace page cache updates = some trace) :
    RatesCorrect page key type trace ↔ type ≠ .untyped := by
  obtain ⟨same, begun, chain⟩ := updateTrace_chain run (fun item member => (metrics item member).named) absent
  have shaped := trace_metrics same metrics
  constructor
  · rintro correct rfl
    cases trace with
    | nil => exact nonempty (List.map_eq_nil_iff.mp same.symm)
    | cons first rest =>
      obtain ⟨entry, now, made, found⟩ := begun first rfl
      obtain ⟨ce, present, typed⟩ := correct.typed first List.mem_cons_self
      cases found.symm.trans present
      rw [newEntry_untyped (shaped first List.mem_cons_self).typed made] at typed
      cases typed
  · intro typed
    have known : type = .counter ∨ type = .gauge := by cases type <;> simp_all
    apply rates_of_holding known shaped chain
    exact trace_invariant begun chain
      (fun seen member _ _ made => .begun (shaped seen member) known made)
      (fun seen member _ _ _ _ holding stepped => holding.step (shaped seen member) known stepped)

def octets (value : UInt64) (time : CdTime) : Metric :=
  ⟨⟨"octets", .counter⟩, .empty, .counter value, time, 10⟩

theorem cache_rates_correct_counter :
    ∃ trace, updateTrace (strbufPagesize 4096) ∅ [(octets 3 1, 1), (octets 8 2, 2)] = some trace ∧
      (RatesCorrect (strbufPagesize 4096) "octets" .counter trace ↔ MetricType.counter ≠ .untyped) := by
  have success : (updateTrace (strbufPagesize 4096) ∅ [(octets 3 1, 1), (octets 8 2, 2)]).isSome = true := by
    decide +kernel
  obtain ⟨trace, run⟩ := isSome_iff_exists.mp success
  refine ⟨trace, run, cache_rates_correct_iff _ ∅ _ _ _ _ (by simp) (by simp) (by simp) ?_ run⟩
  have metric : ∀ value time,
      TypedMetric (strbufPagesize 4096) "octets" .counter (octets value time) :=
    fun _ _ => ⟨entryKey_bare _ rfl, rfl, trivial⟩
  intro item member
  rcases List.mem_cons.mp member with rfl | member
  · exact metric 3 1
  · obtain rfl := List.mem_singleton.mp member
    exact metric 8 2

def temperature : Metric := ⟨⟨"temperature", .untyped⟩, .empty, .gauge (.fin 21), 1, 10⟩

/-- After its first update the cached type is COUNTER and the rate NaN, not 21. -/
theorem cache_untyped_inserted_as_counter :
    ∃ trace, updateTrace (strbufPagesize 4096) ∅ [(temperature, 1)] = some trace ∧
      trace.map (fun seen => (seen.2["temperature".toList]?.map fun ce => ce.valuesRaw.type,
        ucGetRate (strbufPagesize 4096) seen.2 seen.1)) = [(some .counter, some (.ok .nan))] ∧
      ¬ RatesCorrect (strbufPagesize 4096) "temperature".toList .untyped trace := by
  have evaluated : (updateTrace (strbufPagesize 4096) ∅ [(temperature, 1)]).map (fun trace =>
      trace.map (fun seen => (seen.2["temperature".toList]?.map fun ce => ce.valuesRaw.type,
        ucGetRate (strbufPagesize 4096) seen.2 seen.1))) = some [(some .counter, some (.ok .nan))] := by
    decide +kernel
  obtain ⟨trace, run, values⟩ := map_eq_some_iff.mp evaluated
  refine ⟨trace, run, values, ?_⟩
  intro correct
  obtain ⟨seen, rest, rfl, observed, _⟩ := List.map_eq_cons_iff.mp values
  obtain ⟨ce, present, typed⟩ := correct.typed seen List.mem_cons_self
  have stored := (Prod.mk.inj observed).1
  rw [present, map_some, typed] at stored
  cases stored

end NCollectd
