import NCollectd.Metric.Model
import NCollectd.Utils.Avltree

/-! `utils_cache.c`: the value cache. -/

namespace NCollectd

def STATE_UNKNOWN : Int := 0
def STATE_MISSING : Int := 15

def DS_TYPE_COUNTER : Nat := 0
def DS_TYPE_GAUGE : Nat := 1
def DS_TYPE_DERIVE : Nat := 2
def DS_TYPE_DISTRIBUTION : Nat := 3

def cdtimeToDouble (t : CdTime) : Double := (Double.ofNat t.toNat).div (.fin 1073741824)

/-- The history buffer of an entry, with the index of the next slot. -/
structure History where
  values : List Double
  index : Nat
  inside : index < values.length ∨ (values = [] ∧ index = 0)
deriving DecidableEq

def History.empty : History := ⟨[], 0, .inr ⟨rfl, rfl⟩⟩

/-- `cache_entry_t`. -/
structure CacheEntry where
  distributionIncrease : Option Distribution
  valuesGauge : Double
  valuesRaw : TypedValue
  lastTime : CdTime
  lastUpdate : CdTime
  interval : CdTime
  state : Int
  hits : Int
  history : History
  startValue : TypedValue
  startTime : CdTime
  callbacksMask : UInt64
deriving DecidableEq

/-- `cache_tree`. -/
abbrev Cache := AvlTree CacheEntry

/-- `cache_event_type_t`. -/
inductive CacheEventType where
  | valueNew
  | valueUpdate
  | valueExpired
deriving DecidableEq

/-- A call into the plugin layer, or the removal of an entry. -/
inductive Event where
  | cacheEvent (event : CacheEventType) (mask : UInt64) (name : CString) (m : Metric)
  | missing (key : CString) (m : Metric)
  | removed (key : CString)
deriving DecidableEq

/-- What a cache operation returns, leaves behind and calls. -/
structure Outcome where
  status : Status
  cache : Cache
  events : List Event

def insertedEntry (m : Metric) (now : CdTime) (type : MetricType) (valuesGauge : Double)
    (increase : Option Distribution) : Option CacheEntry :=
  (typedValueCreate m.value type).map fun typed =>
    { distributionIncrease := increase
      valuesGauge
      valuesRaw := typed
      lastTime := m.time
      lastUpdate := now
      interval := m.interval
      state := STATE_UNKNOWN
      hits := 0
      history := .empty
      startValue := typed
      startTime := m.time
      callbacksMask := 0 }

def newEntry (m : Metric) (now : CdTime) : Option (Except Status CacheEntry) :=
  let type := m.family.type.number
  if type = DS_TYPE_COUNTER then (insertedEntry m now .counter .nan none).map .ok
  else if type = DS_TYPE_GAUGE then
    m.value.gauge?.bind fun gauge => (insertedEntry m now .gauge gauge none).map .ok
  else if type = DS_TYPE_DERIVE then (insertedEntry m now .counter .nan none).map .ok
  else if type = DS_TYPE_DISTRIBUTION then
    m.value.distribution?.bind fun dist =>
      (insertedEntry m now .distribution .nan (distributionClone dist)).map .ok
  else some (.error (-1))

def ucInsert (cache : Cache) (m : Metric) (key : CString) (now : CdTime) : Option (Status × Cache) :=
  (newEntry m now).map fun
    | .error status => (status, cache)
    | .ok entry =>
      let (status, cache) := cAvlInsert cache key entry
      (if status ≠ 0 then -1 else 0, cache)

def counterDiff (old new : UInt64) : UInt64 :=
  if new < old then
    if old ≤ 4294967295 then (4294967295 - old) + new + 1
    else (18446744073709551615 - old) + new + 1
  else new - old

def updateDistribution (ce : CacheEntry) (m : Metric) (dist raw : Option Distribution) :
    Option (Status × CacheEntry) :=
  let (status, increase) := distributionSub (distributionClone dist) raw
  if status = ERANGE then
    ce.startValue.value.distribution?.map fun _ => (0,
      { ce with
        distributionIncrease := distributionClone dist
        startValue := { ce.startValue with value := .distribution (distributionClone dist) }
        startTime := m.time
        valuesRaw := { ce.valuesRaw with value := .distribution (distributionClone dist) } })
  else if status ≠ 0 then some (status, { ce with distributionIncrease := increase })
  else some (0,
    { ce with
      distributionIncrease := increase
      valuesRaw := { ce.valuesRaw with value := .distribution (distributionClone dist) } })

def updateValues (ce : CacheEntry) (m : Metric) : Option (Status × CacheEntry) :=
  match m.family.type with
  | .counter =>
    ce.valuesRaw.value.counter?.bind fun old => m.value.counter?.map fun new => (0,
      { ce with
        valuesGauge := (Double.ofNat (counterDiff old new).toNat).div (cdtimeToDouble (m.time - ce.lastTime))
        valuesRaw := { ce.valuesRaw with value := .counter new } })
  | .untyped | .gauge =>
    m.value.gauge?.map fun gauge => (0,
      { ce with
        valuesRaw := { ce.valuesRaw with value := .gauge gauge }
        valuesGauge := gauge })
  | .distribution =>
    m.value.distribution?.bind fun dist => ce.valuesRaw.value.distribution?.bind fun raw =>
      updateDistribution ce m dist raw

def History.record (history : History) (rate : Double) : History :=
  if enabled : history.values = [] then history
  else
    { values := history.values.set 0 rate
      index := (history.index + 1) % history.values.length
      inside := .inl (by
        rw [List.length_set]
        exact Nat.mod_lt _ (List.length_pos_of_ne_nil enabled)) }

def updateEntry (ce : CacheEntry) (m : Metric) (now : CdTime) : Option (Status × CacheEntry) :=
  if m.time ≤ ce.lastTime then some (-1, ce)
  else
    (updateValues ce m).map fun (status, ce) =>
      if status ≠ 0 then (status, ce)
      else (0,
        { ce with
          history := ce.history.record ce.valuesGauge
          lastTime := m.time
          lastUpdate := now
          interval := m.interval })

def entryKey (page : PageSize) (m : Metric) : Option (Except Status CString) :=
  (metricIdentity page .create m).map fun (status, buf) =>
    if status ≠ 0 then .error status else .ok buf.text

def updateAt (cache : Cache) (m : Metric) (key : CString) (now : CdTime) : Option Outcome :=
  match cache[key]? with
  | none =>
    (ucInsert cache m key now).map fun (status, cache) =>
      ⟨status, cache, if status = 0 then [.cacheEvent .valueNew 0 key m] else []⟩
  | some ce =>
    (updateEntry ce m now).map fun (status, next) =>
      ⟨status, cache.insert key next,
        if status = 0 ∧ next.callbacksMask ≠ 0 then [.cacheEvent .valueUpdate next.callbacksMask key m] else []⟩

def ucUpdateMetric (page : PageSize) (cache : Cache) (m : Metric) (now : CdTime) : Option Outcome :=
  (entryKey page m).bind fun
    | .error status => some ⟨status, cache, []⟩
    | .ok key => updateAt cache m key now

def ucUpdate (page : PageSize) (cache : Cache) : List (Metric × CdTime) → Option Outcome
  | [] => some ⟨0, cache, []⟩
  | (m, now) :: rest =>
    (ucUpdateMetric page cache m now).bind fun first =>
      (ucUpdate page first.cache rest).map fun last =>
        ⟨if first.status ≠ 0 then 1 else last.status, last.cache, first.events ++ last.events⟩

def ucSetCallbacksMask (cache : Cache) (name : CString) (mask : UInt64) : Status × Cache :=
  match cache[name]? with
  | none => (-1, cache)
  | some ce => (0, cache.insert name { ce with callbacksMask := mask })

def ucGetPercentileByName (cache : Cache) (name : CString) (percent : Double) :
    Option (Except Status Double) :=
  if percent.less (.fin 0) || (Double.fin 100).less percent then some (.error (-1))
  else
    match cache[name]? with
    | none => some (.error (-1))
    | some ce =>
      if ce.state = STATE_MISSING then some (.error (-1))
      else if ce.valuesRaw.type ≠ .distribution then some (.error (-1))
      else (distributionPercentile ce.distributionIncrease percent).map .ok

def ucGetRateByName (cache : Cache) (name : CString) : Option (Except Status Double) :=
  match cache[name]? with
  | none => some (.error (-1))
  | some ce =>
    if ce.state = STATE_MISSING then some (.error (-1))
    else if ce.valuesRaw.type ≠ .distribution then some (.ok ce.valuesGauge)
    else ucGetPercentileByName cache name (.fin 50)

def ucGetRate (page : PageSize) (cache : Cache) (m : Metric) : Option (Except Status Double) :=
  (entryKey page m).bind fun
    | .error status => some (.error status)
    | .ok key =>
      if m.family.type = .distribution then ucGetPercentileByName cache key (.fin 50)
      else ucGetRateByName cache key

def History.grow (history : History) (numSteps : Nat) : History :=
  { values := history.values ++ List.replicate (numSteps - history.values.length) .nan
    index := history.index
    inside := by
      rcases history.inside with inside | ⟨empty, start⟩
      · left
        rw [List.length_append]
        exact Nat.lt_of_lt_of_le inside (Nat.le_add_right _ _)
      · rcases eq_zero_or_pos numSteps with none | some_steps
        · right
          simp [empty, start, none]
        · left
          simpa [empty, start] using some_steps }

def History.slot (history : History) (i : Nat) : Nat :=
  if i < history.index then history.index - (i + 1)
  else history.values.length + history.index - (i + 1)

def History.read (history : History) (numSteps : Nat) : Option (List Double) :=
  readAll (fun i => history.values[history.slot i]?) numSteps

def ucGetHistoryByName (cache : Cache) (name : CString) (numSteps : Nat) :
    Option (Except Status (List Double) × Cache) :=
  match cache[name]? with
  | none => some (.error (-ENOENT), cache)
  | some ce =>
    let history := ce.history.grow numSteps
    (history.read numSteps).map fun values => (.ok values, cache.insert name { ce with history })

/-- The test of `uc_check_timeout`; the product and the difference are `cdtime_t`. -/
def isExpired (now : CdTime) (timeout : Int) (ce : CacheEntry) : Bool :=
  !(now - ce.lastUpdate < ce.interval * UInt64.ofInt timeout)

def expiredEntries (cache : Cache) (now : CdTime) (timeout : Int) : List (CString × CacheEntry) :=
  cache.toList.filter fun item => isExpired now timeout item.2

def reportExpired (page : PageSize) (item : CString × CacheEntry) : Option (List Event) :=
  (metricParseIdentity page item.1).map fun
    | .error _ => []
    | .ok m =>
      .missing item.1 m ::
        if item.2.callbacksMask ≠ 0 then [.cacheEvent .valueExpired item.2.callbacksMask item.1 m] else []

def reportAll (page : PageSize) : List (CString × CacheEntry) → Option (List Event)
  | [] => some []
  | item :: rest =>
    (reportExpired page item).bind fun first => (reportAll page rest).map fun last => first ++ last

def removeAll (cache : Cache) : List (CString × CacheEntry) → Cache × List Event
  | [] => (cache, [])
  | (key, _) :: rest =>
    if key ∈ cache then
      let (cache, events) := removeAll (cache.erase key) rest
      (cache, .removed key :: events)
    else removeAll cache rest

def ucCheckTimeout (page : PageSize) (cache : Cache) (now : CdTime) (timeout : Int) : Option Outcome :=
  let expired := expiredEntries cache now timeout
  (reportAll page expired).map fun reported =>
    let (cache, removed) := removeAll cache expired
    ⟨0, cache, reported ++ removed⟩

end NCollectd
