import NCollectd.Cache.Keys

/-! What `uc_check_timeout` removes and reports, on a cache made by updates. -/

namespace NCollectd

open LabelSet List Option

def reportOf (page : PageSize) (item : CString × CacheEntry) : List Event :=
  (reportExpired page item).getD []

theorem mem_expiredEntries :
    (key, ce) ∈ expiredEntries cache now timeout ↔ cache[key]? = some ce ∧ isExpired now timeout ce = true := by
  rw [expiredEntries, mem_filter, Std.ExtTreeMap.mem_toList_iff_getElem?_eq_some]

theorem expiredEntries_distinct (cache : Cache) (now : CdTime) (timeout : Int) :
    (expiredEntries cache now timeout).Pairwise fun a b => a.1 ≠ b.1 := by
  apply List.Pairwise.filter
  refine Std.ExtTreeMap.distinct_keys_toList.imp ?_
  intro a b different same
  exact different (strcmpOrder_eq_iff.mpr same)

theorem reportAll_eq (readable : ∀ item ∈ items, (reportExpired page item).isSome = true) :
    reportAll page items = some (items.flatMap (reportOf page)) := by
  induction items with
  | nil => rfl
  | cons item rest ih =>
    obtain ⟨events, reported⟩ := isSome_iff_exists.mp (readable item mem_cons_self)
    rw [reportAll, reported, ih fun item member => readable item (mem_cons_of_mem _ member)]
    simp [reportOf, reported]

theorem removeAll_cache (cache : Cache) (items : List (CString × CacheEntry)) (key : CString) :
    (removeAll cache items).1[key]? = if key ∈ items.map Prod.fst then none else cache[key]? := by
  induction items generalizing cache with
  | nil => simp [removeAll]
  | cons item rest ih =>
    have step : (removeAll cache (item :: rest)).1[key]? =
        if key ∈ rest.map Prod.fst then none else if item.1 = key then none else cache[key]? := by
      unfold removeAll
      split
      · rw [ih, AvlTree.getElem?_erase]
      · rename_i absent
        have missing : cache[item.1]? = none := by
          rw [Std.ExtTreeMap.mem_iff_isSome_getElem?] at absent
          simpa using absent
        rw [ih]
        by_cases same : item.1 = key
        · rw [← same, missing, ite_self, ite_self, ite_self]
        · rw [if_neg same]
    rw [step, map_cons]
    by_cases same : item.1 = key
    · simp [same]
    · have others : key ∈ item.1 :: rest.map Prod.fst ↔ key ∈ rest.map Prod.fst := by
        rw [mem_cons, or_iff_right (Ne.symm same)]
      rw [if_neg same]
      simp only [others]

theorem removeAll_events (distinct : items.Pairwise fun a b => a.1 ≠ b.1)
    (present : ∀ item ∈ items, item.1 ∈ cache) :
    (removeAll cache items).2 = items.map fun item => .removed item.1 := by
  induction items generalizing cache with
  | nil => rfl
  | cons item rest ih =>
    obtain ⟨others, later⟩ := pairwise_cons.mp distinct
    have kept : ∀ other ∈ rest, other.1 ∈ cache.erase item.1 := by
      intro other member
      rw [Std.ExtTreeMap.mem_iff_isSome_getElem?, AvlTree.getElem?_erase, if_neg (others other member),
        ← Std.ExtTreeMap.mem_iff_isSome_getElem?]
      exact present other (mem_cons_of_mem _ member)
    unfold removeAll
    rw [if_pos (present item mem_cons_self), map_cons, ← ih later kept]

section

variable (readable : ∀ item ∈ expiredEntries cache now timeout, (reportExpired page item).isSome = true)
include readable

theorem ucCheckTimeout_removes : ∃ after, ucCheckTimeout page cache now timeout = some ⟨0, after,
        (expiredEntries cache now timeout).flatMap (reportOf page) ++
          (expiredEntries cache now timeout).map fun item => .removed item.1⟩ ∧
      ∀ key : CString, after[key]? = cache[key]?.filter fun ce => !isExpired now timeout ce := by
  have present : ∀ item ∈ expiredEntries cache now timeout, item.1 ∈ cache := by
    intro item member
    rw [Std.ExtTreeMap.mem_iff_isSome_getElem?, (mem_expiredEntries.mp member).1]
    rfl
  refine ⟨(removeAll cache (expiredEntries cache now timeout)).1, ?_, ?_⟩
  · simp [ucCheckTimeout, reportAll_eq readable,
      removeAll_events (expiredEntries_distinct cache now timeout) present]
  · intro key
    rw [removeAll_cache]
    split
    · rename_i listed
      obtain ⟨item, member, rfl⟩ := mem_map.mp listed
      obtain ⟨stored, expired⟩ := mem_expiredEntries.mp member
      simp [stored, Option.filter, expired]
    · rename_i unlisted
      cases found : cache[key]? with
      | none => rfl
      | some ce =>
        have fresh : isExpired now timeout ce = false := by
          by_contra expired
          have member := mem_expiredEntries.mpr ⟨found, by simpa using expired⟩
          exact unlisted (mem_map_of_mem member)
        simp [Option.filter, fresh]

theorem ucCheckTimeout_eq : ∃ after, ucCheckTimeout page cache now timeout = some ⟨0, after,
        (expiredEntries cache now timeout).flatMap (reportOf page) ++
          (expiredEntries cache now timeout).map fun item => .removed item.1⟩ ∧
      ∀ (key : CString) ce, cache[key]? = some ce → (after[key]? = none ↔ isExpired now timeout ce = true) := by
  obtain ⟨after, passed, remaining⟩ := ucCheckTimeout_removes readable
  refine ⟨after, passed, fun key ce found => ?_⟩
  rw [remaining, found]
  cases expired : isExpired now timeout ce <;> simp [Option.filter, expired]

end

theorem reportOf_cases (page : PageSize) (item : CString × CacheEntry) :
    ((∀ m, metricParseIdentity page item.1 ≠ some (.ok m)) ∧ reportOf page item = []) ∨
      ∃ m more, metricParseIdentity page item.1 = some (.ok m) ∧
        reportOf page item = .missing item.1 m :: more ∧
        ∀ event ∈ more, event = .cacheEvent .valueExpired item.2.callbacksMask item.1 m := by
  unfold reportOf reportExpired
  cases parsed : metricParseIdentity page item.1 with
  | none => exact .inl ⟨by simp, rfl⟩
  | some result =>
    cases result with
    | error status => exact .inl ⟨by simp, rfl⟩
    | ok m =>
      refine .inr ⟨m, _, rfl, rfl, ?_⟩
      intro event member
      split at member
      · exact mem_singleton.mp member
      · cases member

theorem reportOf_parsed (parsed : metricParseIdentity page key = some (.ok m)) (ce : CacheEntry) :
    ∃ more, reportOf page (key, ce) = .missing key m :: more ∧ ∀ m', .missing key m' ∉ more := by
  rcases reportOf_cases page (key, ce) with ⟨refused, _⟩ | ⟨read, more, again, report, others⟩
  · exact absurd parsed (refused m)
  · obtain rfl : m = read := Except.ok.inj (some.inj (parsed.symm.trans again))
    exact ⟨more, report, fun m' member => by cases others _ member⟩

theorem missing_of_mem_reportOf (found : .missing key m ∈ reportOf page item) :
    item.1 = key ∧ metricParseIdentity page key = some (.ok m) := by
  rcases reportOf_cases page item with ⟨_, silent⟩ | ⟨read, more, parsed, report, others⟩
  · rw [silent] at found
    cases found
  · rw [report] at found
    rcases mem_cons.mp found with same | member
    · obtain ⟨rfl, rfl⟩ := Event.missing.inj same
      exact ⟨rfl, parsed⟩
    · cases others _ member

theorem removed_notMem_reportOf (page : PageSize) (item : CString × CacheEntry) (key : CString) :
    .removed key ∉ reportOf page item := by
  intro found
  rcases reportOf_cases page item with ⟨_, silent⟩ | ⟨read, more, _, report, others⟩
  · rw [silent] at found
    cases found
  · rw [report] at found
    rcases mem_cons.mp found with same | member
    · cases same
    · cases others _ member

/-- The key is reported missing exactly once, with a metric that has the property, and removed after that. -/
def ReportedOnce (events : List Event) (key : CString) (P : Metric → Prop) : Prop :=
  ∃ before m after, events = before ++ .missing key m :: after ∧ P m ∧ (∀ m', .missing key m' ∉ before) ∧
    (∀ m', .missing key m' ∉ after) ∧ .removed key ∉ before ∧ .removed key ∈ after

theorem reportedOnce_of_parsed {items : List (CString × CacheEntry)}
    (member : (key, ce) ∈ items) (distinct : items.Pairwise fun a b => a.1 ≠ b.1)
    (parsed : metricParseIdentity page key = some (.ok m)) (holds : P m) :
    ReportedOnce (items.flatMap (reportOf page) ++ items.map fun item => .removed item.1) key P := by
  obtain ⟨front, rest, rfl⟩ := append_of_mem member
  obtain ⟨more, report, silent⟩ := reportOf_parsed parsed ce
  obtain ⟨_, behind, across⟩ := pairwise_append.mp distinct
  have elsewhere : ∀ others : List (CString × CacheEntry), (∀ item ∈ others, item.1 ≠ key) →
      ∀ m', .missing key m' ∉ others.flatMap (reportOf page) := by
    intro others different m' found
    obtain ⟨item, inside, reported⟩ := mem_flatMap.mp found
    exact different item inside (missing_of_mem_reportOf reported).1
  refine ⟨front.flatMap (reportOf page), m,
    more ++ rest.flatMap (reportOf page) ++ (front ++ (key, ce) :: rest).map (fun item => .removed item.1),
    by simp [report], holds, ?_, ?_, ?_, by simp⟩
  · exact elsewhere front fun item inside => across item inside _ mem_cons_self
  · intro m' found
    rcases mem_append.mp found with reported | removed
    · rcases mem_append.mp reported with own | other
      · exact silent m' own
      · exact elsewhere rest (fun item inside => ((pairwise_cons.mp behind).1 item inside).symm) m' other
    · simp at removed
  · intro found
    obtain ⟨item, _, reported⟩ := mem_flatMap.mp found
    exact removed_notMem_reportOf page item key reported

theorem parsed_of_reportedOnce {items : List (CString × CacheEntry)}
    (reported : ReportedOnce (items.flatMap (reportOf page) ++ items.map fun item => .removed item.1) key P) :
    ∃ m, metricParseIdentity page key = some (.ok m) ∧ P m := by
  obtain ⟨before, m, after, events, holds, _⟩ := reported
  have found : .missing key m ∈ items.flatMap (reportOf page) ++ items.map fun item => .removed item.1 := by
    rw [events]
    simp
  rcases mem_append.mp found with inReports | inRemovals
  · obtain ⟨item, _, own⟩ := mem_flatMap.mp inReports
    exact ⟨m, (missing_of_mem_reportOf own).2, holds⟩
  · simp at inRemovals

/-- An entry that disappears was reported missing exactly once, with its identity, time and interval. -/
def TimeoutCorrect (page : PageSize) (updates : List (Metric × CdTime)) (cache : Cache) (outcome : Outcome) :
    Prop :=
  ∀ (key : CString) ce, cache[key]? = some ce → outcome.cache[key]? = none →
    ReportedOnce outcome.events key fun m =>
      (∀ item ∈ updates, entryKey page item.1 = some (.ok key) → SameIdentity m item.1) ∧
        m.time = ce.lastTime ∧ m.interval = ce.interval

/-- The entry's metrics have a name and no labels, and the entry's time and interval are 0. -/
def Reportable (page : PageSize) (updates : List (Metric × CdTime)) (key : CString) (ce : CacheEntry) : Prop :=
  (∀ item ∈ updates, entryKey page item.1 = some (.ok key) → item.1.family.name ≠ [] ∧ item.1.label.num = 0) ∧
    ce.lastTime = 0 ∧ ce.interval = 0

/-- What the parser makes of the key of a regular metric. -/
theorem Regular.parse (regular : Regular m) (named : entryKey page m = some (.ok key)) :
    metricParseIdentity page key = some
      (if m.family.name ≠ [] ∧ m.label.num = 0 then .ok (parsedMetric m.family.name) else .error EINVAL) := by
  obtain ⟨pairs, stores⟩ := regular.stores
  have same : identityText m.family.name pairs = key := by
    simpa [entryKey_eq page stores.read] using named
  have free : m.label.num = 0 ↔ pairs = [] := by rw [stores.num, length_eq_zero_iff]
  rw [← same, metricParseIdentity_identityText page regular.name stores.wellFormed]
  simp only [free]

/-- Every entry of a cache made by updates has an owner among the metrics. -/
theorem ucUpdate_owner (run : ucUpdate page ∅ updates = some outcome) (present : outcome.cache[key]? = some ce) :
    ∃ item ∈ updates, entryKey page item.1 = some (.ok key) := by
  by_contra orphan
  have kept := ucUpdate_frame run fun item member named => orphan ⟨item, member, named⟩
  rw [present, Std.ExtTreeMap.getElem?_empty] at kept
  cases kept

theorem sameIdentity_parsed (name : m.family.name = text) (free : m.label.num = 0) :
    SameIdentity (parsedMetric text) m := by
  have read : readPairs m.label = some [] := by
    rw [readPairs, free]
    rfl
  have none : readPairs (parsedMetric text).label = some [] := rfl
  refine ⟨name.symm, ?_⟩
  intro pair
  simp [HasLabel, read, none]

/-- What expires has to belong to a metric without labels, with the time and the interval 0 it is reported with. -/
theorem timeout_reports_missing_iff (page : PageSize) (updates : List (Metric × CdTime)) (made : Outcome)
    (now : CdTime) (timeout : Int) (regular : ∀ item ∈ updates, Regular item.1)
    (run : ucUpdate page ∅ updates = some made) :
    ∃ outcome, ucCheckTimeout page made.cache now timeout = some outcome ∧
      (TimeoutCorrect page updates made.cache outcome ↔
        ∀ (key : CString) ce, made.cache[key]? = some ce → isExpired now timeout ce = true →
          Reportable page updates key ce) := by
  have readable : ∀ item ∈ expiredEntries made.cache now timeout, (reportExpired page item).isSome = true := by
    intro item member
    obtain ⟨owner, inUpdates, named⟩ := ucUpdate_owner run (mem_expiredEntries.mp member).1
    simp [reportExpired, (regular owner inUpdates).parse named]
  obtain ⟨after, passed, removed⟩ := ucCheckTimeout_eq readable
  refine ⟨_, passed, ?_⟩
  constructor
  · intro correct key ce present expired
    have reported := correct key ce present ((removed key ce present).mpr expired)
    obtain ⟨m, parsed, same, time, interval⟩ := parsed_of_reportedOnce reported
    have read : ∀ item ∈ updates, entryKey page item.1 = some (.ok key) →
        (item.1.family.name ≠ [] ∧ item.1.label.num = 0) ∧ m = parsedMetric item.1.family.name := by
      intro item member named
      have result := parsed.symm.trans ((regular item member).parse named)
      split at result
      · rename_i bare
        exact ⟨bare, Except.ok.inj (some.inj result)⟩
      · cases result
    obtain ⟨owner, inUpdates, named⟩ := ucUpdate_owner run present
    obtain ⟨_, rfl⟩ := read owner inUpdates named
    exact ⟨fun item member named => (read item member named).1, time.symm, interval.symm⟩
  · intro condition key ce present gone
    have expired := (removed key ce present).mp gone
    obtain ⟨bare, time, interval⟩ := condition key ce present expired
    obtain ⟨owner, inUpdates, named⟩ := ucUpdate_owner run present
    have parsed := (regular owner inUpdates).parse named
    rw [if_pos (bare owner inUpdates named)] at parsed
    apply reportedOnce_of_parsed (mem_expiredEntries.mpr ⟨present, expired⟩)
      (expiredEntries_distinct made.cache now timeout) parsed
    refine ⟨?_, time.symm, interval.symm⟩
    intro item member itsName
    have again := (regular item member).parse itsName
    rw [if_pos (bare item member itsName)] at again
    have names := Except.ok.inj (some.inj (parsed.symm.trans again))
    exact sameIdentity_parsed (congrArg (fun m => m.family.name) names).symm (bare item member itsName).2

theorem timeout_reports_missing_two :
    ∃ made outcome, ucUpdate (strbufPagesize 4096) ∅ twoUpdates = some made ∧
      ucCheckTimeout (strbufPagesize 4096) made.cache 100 2 = some outcome ∧
      (TimeoutCorrect (strbufPagesize 4096) twoUpdates made.cache outcome ↔
        ∀ (key : CString) ce, made.cache[key]? = some ce → isExpired 100 2 ce = true →
          Reportable (strbufPagesize 4096) twoUpdates key ce) := by
  have success : (ucUpdate (strbufPagesize 4096) ∅ twoUpdates).isSome = true := by decide +kernel
  obtain ⟨made, run⟩ := isSome_iff_exists.mp success
  obtain ⟨outcome, passed, correct⟩ :=
    timeout_reports_missing_iff _ twoUpdates made 100 2 twoUpdates_regular run
  exact ⟨made, outcome, run, passed, correct⟩

def timedUpdates : List (Metric × CdTime) :=
  [({ labelledMetric with time := 5, interval := 10 }, 5), ({ bareMetric with time := 5, interval := 10 }, 5)]

/-- The labelled entry disappears without a report, the other one is reported with time 0. -/
theorem timeout_labelled_not_reported :
    ∃ made outcome, ucUpdate (strbufPagesize 4096) ∅ timedUpdates = some made ∧
      ucCheckTimeout (strbufPagesize 4096) made.cache 100 2 = some outcome ∧
      made.cache.toList.map (fun item => (item.1, item.2.lastTime, item.2.interval)) =
        [("up".toList, 5, 10), ("up\x7ba=\"1\"\x7d".toList, 5, 10)] ∧
      outcome.events = [.missing "up" (parsedMetric "up"), .removed "up",
        .removed "up\x7ba=\"1\"\x7d"] ∧
      (parsedMetric "up").time = 0 ∧
      ¬ TimeoutCorrect (strbufPagesize 4096) timedUpdates made.cache outcome := by
  have evaluated : ((ucUpdate (strbufPagesize 4096) ∅ timedUpdates).bind fun made =>
      (ucCheckTimeout (strbufPagesize 4096) made.cache 100 2).map fun outcome =>
        (made.cache.toList.map (fun item => (item.1, item.2.lastTime, item.2.interval)), outcome.events,
          made.cache["up\x7ba=\"1\"\x7d".toList]?.isSome,
          outcome.cache["up\x7ba=\"1\"\x7d".toList]?.isNone)) =
      some ([("up".toList, 5, 10), ("up\x7ba=\"1\"\x7d".toList, 5, 10)],
        [.missing "up".toList (parsedMetric "up".toList), .removed "up".toList,
          .removed "up\x7ba=\"1\"\x7d".toList], true, true) := by
    decide +kernel
  obtain ⟨made, run, passes⟩ := bind_eq_some_iff.mp evaluated
  obtain ⟨outcome, passed, values⟩ := map_eq_some_iff.mp passes
  simp only [Prod.mk.injEq] at values
  obtain ⟨entries, events, present, gone⟩ := values
  refine ⟨made, outcome, run, passed, entries, events, rfl, ?_⟩
  intro correct
  obtain ⟨ce, found⟩ := isSome_iff_exists.mp present
  obtain ⟨before, m, after, reported, _⟩ := correct _ ce found (isNone_iff_eq_none.mp gone)
  have listed : .missing "up\x7ba=\"1\"\x7d" m ∈ outcome.events := by
    rw [reported]
    simp
  rw [events] at listed
  simp at listed

/-- Every key has a result in `metric_parse_identity`. -/
def ReadableKeys (page : PageSize) (cache : Cache) : Prop :=
  ∀ key : CString, key ∈ cache → (metricParseIdentity page key).isSome = true

theorem readableKeys_of_ucUpdate (regular : ∀ item ∈ updates, Regular item.1)
    (run : ucUpdate page ∅ updates = some made) : ReadableKeys page made.cache := by
  intro key present
  rw [Std.ExtTreeMap.mem_iff_isSome_getElem?] at present
  obtain ⟨ce, found⟩ := isSome_iff_exists.mp present
  obtain ⟨owner, inUpdates, named⟩ := ucUpdate_owner run found
  rw [(regular owner inUpdates).parse named]
  rfl

/-- The entry is stale in unbounded integers. -/
def Stale (now : CdTime) (timeout : Int) (ce : CacheEntry) : Prop :=
  (ce.lastUpdate.toNat : Int) + ce.interval.toNat * timeout ≤ now.toNat

instance (now : CdTime) (timeout : Int) (ce : CacheEntry) : Decidable (Stale now timeout ce) :=
  inferInstanceAs (Decidable (_ ≤ _))

/-- The stale entries are gone, and all others are as they were. -/
def RemovesStale (cache : Cache) (now : CdTime) (timeout : Int) (after : Cache) : Prop :=
  ∀ key : CString, after[key]? = cache[key]?.filter fun ce => ¬ Stale now timeout ce

def WrapsBelow (now : CdTime) (timeout : Int) (ce : CacheEntry) : Prop :=
  (now.toNat < ce.lastUpdate.toNat ∨ 2 ^ 64 ≤ ce.interval.toNat * timeout) →
    ((now.toNat : Int) - ce.lastUpdate.toNat) % 2 ^ 64 < (ce.interval.toNat * timeout) % 2 ^ 64

theorem toNat_sub_emod (a b : UInt64) : ((a - b).toNat : Int) = ((a.toNat : Int) - b.toNat) % 2 ^ 64 := by
  have second := b.toNat_lt
  rw [UInt64.toNat_sub]
  omega

theorem toNat_mul_ofInt (a : UInt64) (b : Int) :
    ((a * UInt64.ofInt b).toNat : Int) = (a.toNat * b) % 2 ^ 64 := by
  have low : ((UInt64.ofInt b).toNat : Int) = b % 2 ^ 64 := by
    rw [UInt64.ofInt, UInt64.toNat_ofNat']
    omega
  have size : ((2 ^ 64 : Nat) : Int) = 2 ^ 64 := rfl
  rw [UInt64.toNat_mul, Int.natCast_mod, Int.natCast_mul, low, size, Int.mul_emod, Int.emod_emod, ← Int.mul_emod]

theorem isExpired_iff (now : CdTime) (timeout : Int) (ce : CacheEntry) :
    isExpired now timeout ce = true ↔
      (ce.interval.toNat * timeout) % 2 ^ 64 ≤ ((now.toNat : Int) - ce.lastUpdate.toNat) % 2 ^ 64 := by
  rw [← toNat_sub_emod, ← toNat_mul_ofInt, isExpired, Bool.not_eq_true', decide_eq_false_iff_not,
    UInt64.lt_iff_toNat_lt]
  omega

/-- The test agrees with unbounded integers unless it wraps the wrong way. -/
theorem isExpired_iff_stale_iff (now : CdTime) (positive : 0 ≤ timeout) (ce : CacheEntry) :
    (isExpired now timeout ce = true ↔ Stale now timeout ce) ↔ WrapsBelow now timeout ce := by
  have product : 0 ≤ (ce.interval.toNat : Int) * timeout := Int.mul_nonneg (Int.natCast_nonneg _) positive
  have clock := now.toNat_lt
  rw [isExpired_iff, Stale, WrapsBelow]
  generalize (ce.interval.toNat : Int) * timeout = span at product ⊢
  omega

/-- One pass removes exactly the stale entries if and only if no entry wraps the wrong way. -/
theorem timeout_removes_stale_iff (page : PageSize) (cache : Cache) (now : CdTime) (timeout : Int)
    (readable : ReadableKeys page cache) (positive : 0 ≤ timeout) :
    ∃ outcome, ucCheckTimeout page cache now timeout = some outcome ∧
      (RemovesStale cache now timeout outcome.cache ↔
        ∀ (key : CString) ce, cache[key]? = some ce → WrapsBelow now timeout ce) := by
  have reports : ∀ item ∈ expiredEntries cache now timeout, (reportExpired page item).isSome = true := by
    intro item member
    have present : item.1 ∈ cache := by
      rw [Std.ExtTreeMap.mem_iff_isSome_getElem?, (mem_expiredEntries.mp member).1]
      rfl
    simpa [reportExpired] using readable item.1 present
  obtain ⟨after, passed, remaining⟩ := ucCheckTimeout_removes reports
  refine ⟨_, passed, ?_⟩
  constructor
  · intro removes key ce found
    apply (isExpired_iff_stale_iff now positive ce).mp
    have same := (remaining key).symm.trans (removes key)
    rw [found] at same
    by_cases stale : Stale now timeout ce <;> cases expired : isExpired now timeout ce <;>
      simp [Option.filter, stale, expired] at same ⊢
  · intro condition key
    rw [remaining]
    cases found : cache[key]? with
    | none => rfl
    | some ce =>
      have agree := (isExpired_iff_stale_iff now positive ce).mpr (condition key ce found)
      by_cases stale : Stale now timeout ce
      · simp [Option.filter, stale, agree.mpr stale]
      · have fresh : isExpired now timeout ce = false := by simpa [stale] using agree
        simp [Option.filter, stale, fresh]

theorem timeout_removes_stale_two :
    ∃ made outcome, ucUpdate (strbufPagesize 4096) ∅ twoUpdates = some made ∧
      ucCheckTimeout (strbufPagesize 4096) made.cache 100 2 = some outcome ∧
      (RemovesStale made.cache 100 2 outcome.cache ↔
        ∀ (key : CString) ce, made.cache[key]? = some ce → WrapsBelow 100 2 ce) := by
  have success : (ucUpdate (strbufPagesize 4096) ∅ twoUpdates).isSome = true := by decide +kernel
  obtain ⟨made, run⟩ := isSome_iff_exists.mp success
  obtain ⟨outcome, passed, removes⟩ :=
    timeout_removes_stale_iff _ made.cache 100 2 (readableKeys_of_ucUpdate twoUpdates_regular run) (by decide)
  exact ⟨made, outcome, run, passed, removes⟩

theorem timeout_clock_set_back :
    ∃ made outcome, ucUpdate (strbufPagesize 4096) ∅ timedUpdates = some made ∧
      ucCheckTimeout (strbufPagesize 4096) made.cache 4 2 = some outcome ∧
      made.cache["up".toList]?.map (fun ce => (ce.lastUpdate, ce.interval)) = some (5, 10) ∧
      outcome.cache["up".toList]? = none ∧ ¬ RemovesStale made.cache 4 2 outcome.cache := by
  have evaluated : ((ucUpdate (strbufPagesize 4096) ∅ timedUpdates).bind fun made =>
      (ucCheckTimeout (strbufPagesize 4096) made.cache 4 2).map fun outcome =>
        (made.cache["up".toList]?.map (fun ce => (ce.lastUpdate, ce.interval)),
          outcome.cache["up".toList]?.isNone)) = some (some (5, 10), true) := by
    decide +kernel
  obtain ⟨made, run, passes⟩ := bind_eq_some_iff.mp evaluated
  obtain ⟨outcome, passed, values⟩ := map_eq_some_iff.mp passes
  simp only [Prod.mk.injEq, isNone_iff_eq_none] at values
  refine ⟨made, outcome, run, passed, values.1, values.2, fun removes => ?_⟩
  obtain ⟨ce, found, fields⟩ := map_eq_some_iff.mp values.1
  obtain ⟨update, interval⟩ := Prod.mk.inj fields
  have fresh : ¬ Stale 4 2 ce := by
    rw [Stale, update, interval]
    decide
  have kept := removes "up"
  rw [values.2, found] at kept
  simp [Option.filter, fresh] at kept

end NCollectd
