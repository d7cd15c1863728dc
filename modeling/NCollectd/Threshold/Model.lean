import NCollectd.Base.FirstMaximum
import NCollectd.Cache.Lock

/-! The plugin `threshold`: the worst result of a list of thresholds becomes the state. -/

namespace NCollectd

open LabelSet
open CacheLock (STATE_ERROR INT_MIN INT_MAX)

def STATE_OKAY : Int := 1
def STATE_WARNING : Int := 2

def ucGetStateByName (cache : Cache) (name : CString) : Int :=
  match cache[name]? with
  | none => STATE_ERROR
  | some ce => ce.state

def ucSetStateByName (cache : Cache) (name : CString) (state : Int) : Cache :=
  match cache[name]? with
  | none => cache
  | some ce => cache.insert name { ce with state }

def ucGetHitsByName (cache : Cache) (name : CString) : Int :=
  match cache[name]? with
  | none => STATE_ERROR
  | some ce => ce.hits

def ucSetHitsByName (cache : Cache) (name : CString) (hits : Int) : Cache :=
  match cache[name]? with
  | none => cache
  | some ce => cache.insert name { ce with hits }

def ucIncHitsByName (cache : Cache) (name : CString) (step : Int) : Option Cache :=
  match cache[name]? with
  | none => some cache
  | some ce =>
    if INT_MIN ≤ ce.hits + step ∧ ce.hits + step ≤ INT_MAX then
      some (cache.insert name { ce with hits := ce.hits + step })
    else none

namespace Thresholds

/-- `threshold_t`: its labels, its bounds and the flags that the checks read. -/
structure Threshold where
  labels : LabelArray
  warningMin : Double
  warningMax : Double
  failureMin : Double
  failureMax : Double
  hysteresis : Double
  invert : Bool
  persist : Bool
  persistOk : Bool
  hits : Int
deriving DecidableEq

/-- `NOTIF_FAILURE`, `NOTIF_WARNING` and `NOTIF_OKAY`. -/
inductive Severity where
  | failure
  | warning
  | okay
deriving DecidableEq

/-- `notification_t`, with its annotations in the order of their names. -/
structure Notification where
  severity : Severity
  time : CdTime
  name : CString
  label : LabelArray
  annotation : List LabelPair
deriving DecidableEq

/-- How numbers are printed: with `GAUGE_FORMAT`, and with `%f`. -/
structure NumberFormat where
  gauge : Double → CString
  fixed : Double → CString

def isnan (value : Double) : Bool := value = .nan

def summaryText (fmt : NumberFormat) (th : Threshold) (value : Double) (state stateOld : Int) : CString :=
  if state = STATE_OKAY then
    if stateOld = STATE_MISSING then ": Value is no longer missing.".toList
    else ": All data sources are within range again. Current value is ".toList ++ fmt.fixed value ++ ['.']
  else
    let region := if state = STATE_ERROR then "failure".toList else "warning".toList
    let min := if state = STATE_ERROR then th.failureMin else th.warningMin
    let max := if state = STATE_ERROR then th.failureMax else th.warningMax
    let current := ": Current value is ".toList ++ fmt.fixed value
    if th.invert then
      if !isnan min && !isnan max then
        current ++ ". That is within the ".toList ++ region ++ " region of ".toList ++ fmt.fixed min ++
          " and ".toList ++ fmt.fixed max ++ ['.']
      else
        current ++ ". That is ".toList ++ (if isnan min then "below".toList else "above".toList) ++ " the ".toList ++
          region ++ " threshold of ".toList ++ fmt.fixed (if isnan min then max else min) ++ ['.']
    else
      current ++ ". That is ".toList ++ (if value.less min then "below".toList else "above".toList) ++
        " the ".toList ++ region ++ " threshold of ".toList ++ fmt.fixed (if value.less min then min else max) ++ ['.']

def severityOf (state : Int) : Severity :=
  if state = STATE_OKAY then .okay else if state = STATE_WARNING then .warning else .failure

/-- The annotations stand in the order of their names, in which `notification_annotation_set` keeps them. -/
def stateNotification (fmt : NumberFormat) (m : Metric) (name : CString) (th : Threshold) (value : Double)
    (state stateOld : Int) : Notification where
  severity := severityOf state
  time := m.time
  name := m.family.name
  label := m.label
  annotation :=
    [⟨"current_value", fmt.gauge value⟩, ⟨"failure_max", fmt.gauge th.failureMax⟩,
      ⟨"failure_min", fmt.gauge th.failureMin⟩, ⟨"summary", name ++ summaryText fmt th value state stateOld⟩,
      ⟨"warning_max", fmt.gauge th.warningMax⟩, ⟨"warning_min", fmt.gauge th.warningMin⟩]

/-- What a call leaves behind and dispatches. -/
structure Report where
  status : Status
  cache : Cache
  sent : List Notification

def reportChange (fmt : NumberFormat) (cache : Cache) (m : Metric) (name : CString) (th : Threshold) (value : Double)
    (state : Int) : Report :=
  let stateOld := ucGetStateByName cache name
  if state = stateOld ∧ (state = STATE_UNKNOWN ∨ !th.persist ∨ (state = STATE_OKAY ∧ !th.persistOk)) then
    ⟨0, cache, []⟩
  else
    let cache := if state ≠ stateOld then ucSetStateByName cache name state else cache
    if state = STATE_UNKNOWN then ⟨0, cache, []⟩
    else ⟨0, cache, [stateNotification fmt m name th value state stateOld]⟩

def utReportState (fmt : NumberFormat) (cache : Cache) (m : Metric) (name : CString) (th : Threshold)
    (value : Double) (state : Int) : Option Report :=
  if th.hits ≠ 0 then
    let hits := ucGetHitsByName cache name
    if (state = STATE_OKAY ∧ !th.persistOk) ∨ hits > th.hits then
      some (reportChange fmt (ucSetHitsByName cache name 0) m name th value state)
    else (ucIncHitsByName cache name 1).map fun cache => ⟨0, cache, []⟩
  else some (reportChange fmt cache m name th value state)

def outside (min max amount value : Double) : Bool :=
  (!isnan min && value.less (min.add amount)) || (!isnan max && (max.sub amount).less value)

def outsidePlain (min max value : Double) : Bool :=
  (!isnan min && value.less min) || (!isnan max && max.less value)

def verdict (isFailure isWarning : Int) : Int :=
  if isFailure ≠ 0 then STATE_ERROR else if isWarning ≠ 0 then STATE_WARNING else STATE_OKAY

def utCheckOneThreshold (cache : Cache) (name : CString) (th : Threshold) (value : Double) : Int :=
  let start : Int := if th.invert then -1 else 0
  if (Double.fin 0).less th.hysteresis then
    let prevState := ucGetStateByName cache name
    let hysteresisForFailure := if prevState = STATE_ERROR then th.hysteresis else .fin 0
    let hysteresisForWarning := if prevState = STATE_WARNING then th.hysteresis else .fin 0
    verdict (if outside th.failureMin th.failureMax hysteresisForFailure value then start + 1 else start)
      (if outside th.warningMin th.warningMax hysteresisForWarning value then start + 1 else start)
  else
    verdict (if outsidePlain th.failureMin th.failureMax value then start + 1 else start)
      (if outsidePlain th.warningMin th.warningMax value then start + 1 else start)

def labelsMatch (m : Metric) (th : Threshold) : Nat → Nat → Option Bool
  | 0, _ => some true
  | turns + 1, i =>
    match pairName th.labels i with
    | none => none
    | some name =>
      match labelSetValue m.label name with
      | none => none
      | some none => some false
      | some (some value) =>
        match pairValue th.labels i with
        | none => none
        | some wanted => if strcmp wanted value ≠ 0 then some false else labelsMatch m th turns (i + 1)

def thresholdMatches (m : Metric) (th : Threshold) : Option Bool := labelsMatch m th th.labels.num 0

/-- What the loop over the thresholds has found. -/
structure Worst where
  state : Int
  threshold : Option Threshold
  nmatches : Nat

def worstLoop (cache : Cache) (m : Metric) (name : CString) (value : Double) (worst : Worst) :
    List Threshold → Option (Except Status Worst)
  | [] => some (.ok worst)
  | th :: rest =>
    match thresholdMatches m th with
    | none => none
    | some false => worstLoop cache m name value worst rest
    | some true =>
      let status := utCheckOneThreshold cache name th value
      if status < 0 then some (.error (-1))
      else
        let worst := if worst.state < status then { worst with state := status, threshold := some th } else worst
        worstLoop cache m name value { worst with nmatches := worst.nmatches + 1 } rest

def utCheckMetricThreshold (page : PageSize) (fmt : NumberFormat) (cache : Cache) (m : Metric)
    (ths : List Threshold) : Option Report :=
  match entryKey page m with
  | none => none
  | some (.error status) => some ⟨status, cache, []⟩
  | some (.ok name) =>
    match ucGetRateByName cache name with
    | none => none
    | some (.error _) => some ⟨0, cache, []⟩
    | some (.ok value) =>
      match worstLoop cache m name value ⟨-1, none, 0⟩ ths with
      | none => none
      | some (.error status) => some ⟨status, cache, []⟩
      | some (.ok worst) =>
        if worst.nmatches > 0 then
          match worst.threshold with
          | none => none
          | some th => utReportState fmt cache m name th value worst.state
        else some ⟨0, cache, []⟩

end Thresholds

end NCollectd
