import NCollectd.Cache.Steps
import NCollectd.Threshold.Model

namespace NCollectd.Thresholds

open LabelSet FirstMaximum List
open CacheLock (STATE_ERROR)

section

variable {m : Metric} {th : Threshold} (labels : Stores m.label pairs) (filter : Stores th.labels wanted)
include labels filter

theorem labelsMatch_stores (turns i : Nat) (all : turns + i = wanted.length) :
    labelsMatch m th turns i = some (decide (∀ pair ∈ wanted.drop i, pair ∈ pairs)) := by
  induction turns generalizing i with
  | zero =>
    rw [drop_of_length_le (by omega)]
    rfl
  | succ turns ih =>
    have inside : i < wanted.length := by omega
    obtain ⟨name, value⟩ := filter.pair_at (getElem?_eq_getElem inside)
    obtain ⟨found, looked, exactly⟩ := labels.lookup wanted[i].name
    have here := exactly wanted[i].value
    have split : (∀ pair ∈ wanted.drop i, pair ∈ pairs) ↔
        wanted[i] ∈ pairs ∧ ∀ pair ∈ wanted.drop (i + 1), pair ∈ pairs := by
      rw [drop_eq_getElem_cons inside, forall_mem_cons]
    rw [labelsMatch]
    cases found with
    | none =>
      have absent : wanted[i] ∉ pairs := fun member => nomatch here.mpr member
      simp [name, looked, split, absent]
    | some actual =>
      by_cases same : wanted[i].value = actual
      · have member : wanted[i] ∈ pairs := here.mp (by rw [same])
        simp [name, looked, value, same, strcmp_self, split, member, ih (i + 1) (by omega)]
      · have absent : wanted[i] ∉ pairs := fun member => same (Option.some.inj (here.mpr member)).symm
        have unequal : strcmp wanted[i].value actual ≠ 0 := mt (strcmp_eq_zero_iff _ _).mp same
        simp [name, looked, value, if_pos unequal, split, absent]

end

def matching (m : Metric) (ths : List Threshold) : List Threshold :=
  ths.filter fun th => thresholdMatches m th = some true

theorem utCheckOneThreshold_cases (cache : Cache) (name : CString) (th : Threshold) (value : Double) :
    utCheckOneThreshold cache name th value = STATE_OKAY ∨ utCheckOneThreshold cache name th value = STATE_WARNING ∨
      utCheckOneThreshold cache name th value = STATE_ERROR := by
  have three : ∀ isFailure isWarning, verdict isFailure isWarning = STATE_OKAY ∨
      verdict isFailure isWarning = STATE_WARNING ∨ verdict isFailure isWarning = STATE_ERROR := by
    intro isFailure isWarning
    unfold verdict
    split
    · exact .inr (.inr rfl)
    · split
      · exact .inr (.inl rfl)
      · exact .inl rfl
  by_cases active : (Double.fin 0).less th.hysteresis = true
  · rw [utCheckOneThreshold, if_pos active]
    exact three _ _
  · rw [utCheckOneThreshold, if_neg active]
    exact three _ _

theorem utCheckOneThreshold_pos (cache : Cache) (name : CString) (th : Threshold) (value : Double) :
    0 < utCheckOneThreshold cache name th value := by
  rcases utCheckOneThreshold_cases cache name th value with same | same | same <;> rw [same] <;> decide

theorem worstLoop_eq (cache : Cache) (name : CString) (value : Double) (ths : List Threshold) (worst : Worst)
    (readable : ∀ th ∈ ths, ∃ answer, thresholdMatches m th = some answer) :
    ∃ final, worstLoop cache m name value worst ths = some (.ok final) ∧
      (final.state, final.threshold) = (matching m ths).foldl
        (keep fun th => utCheckOneThreshold cache name th value) (worst.state, worst.threshold) ∧
      final.nmatches = worst.nmatches + (matching m ths).length := by
  induction ths generalizing worst with
  | nil => exact ⟨worst, rfl, rfl, rfl⟩
  | cons th ths ih =>
    obtain ⟨⟨answer, here⟩, behind⟩ := forall_mem_cons.mp readable
    rw [worstLoop, here]
    cases answer with
    | false =>
      have skipped : matching m (th :: ths) = matching m ths := by simp [matching, here]
      rw [skipped]
      exact ih worst behind
    | true =>
      have taken : matching m (th :: ths) = th :: matching m ths := by simp [matching, here]
      have positive := utCheckOneThreshold_pos cache name th value
      simp only [if_neg (Int.not_lt.mpr positive.le)]
      obtain ⟨final, ended, folded, counted⟩ := ih _ behind
      refine ⟨final, ended, ?_, ?_⟩
      · rw [taken, foldl_cons, folded]
        congr 1
        unfold keep
        split <;> rfl
      · rw [counted, taken, length_cons]
        split <;> simp only [] <;> omega

theorem ucGetStateByName_found (found : cache[name]? = some ce) : ucGetStateByName cache name = ce.state := by
  rw [ucGetStateByName, found]

theorem getElem?_ucSetStateByName (found : cache[name]? = some ce) (state : Int) (other : CString) :
    (ucSetStateByName cache name state)[other]? = if name = other then some { ce with state } else cache[other]? := by
  rw [ucSetStateByName, found]
  exact AvlTree.getElem?_insert cache name other _

/-- The cache returns a rate for a scalar metric. -/
def Readable (cache : Cache) (name : CString) : Prop :=
  ∃ ce rate, cache[name]? = some ce ∧ ce.valuesRaw.type ≠ .distribution ∧
    ucGetRateByName cache name = some (.ok rate)

theorem ucGetRateByName_scalar (found : cache[name]? = some ce) (scalar : ce.valuesRaw.type ≠ .distribution) :
    ucGetRateByName cache name =
      some (if ce.state = STATE_MISSING then .error (-1) else .ok ce.valuesGauge) := by
  rw [ucGetRateByName, found]
  simp only [if_pos scalar]
  split <;> rfl

theorem Readable.set_state (readable : Readable cache name) (present : state ≠ STATE_MISSING) :
    Readable (ucSetStateByName cache name state) name := by
  obtain ⟨ce, rate, found, scalar, read⟩ := readable
  have stored := getElem?_ucSetStateByName found state name
  rw [if_pos rfl] at stored
  refine ⟨_, ce.valuesGauge, stored, scalar, ?_⟩
  rw [ucGetRateByName_scalar stored scalar, if_neg present]

/-- One call of `ut_check_metric_threshold`, with the rate that it reads. -/
structure Call where
  metric : Metric
  before : Cache
  rate : Double
  status : Status
  after : Cache
  sent : List Notification

namespace Call

variable (name : CString) (call : Call)

def oldState : Int := ucGetStateByName call.before name

def newState : Int := ucGetStateByName call.after name

def check (th : Threshold) : Int := utCheckOneThreshold call.before name th call.rate

end Call

/-- A threshold that asks for a notification even if the state stays the same. -/
def Repeats (th : Threshold) (state : Int) : Prop :=
  th.persist = true ∧ (state ≠ STATE_OKAY ∨ th.persistOk = true)

/-- The state becomes the worst that the thresholds for the metric give. -/
structure CallCorrect (name : CString) (ths : List Threshold) (call : Call) : Prop where
  read : ucGetRateByName call.before name = some (.ok call.rate)
  status : call.status = 0
  unmatched : matching call.metric ths = [] → call.after = call.before ∧ call.sent = []
  worst : matching call.metric ths ≠ [] →
    IsGreatest {state | ∃ th ∈ matching call.metric ths, call.check name th = state} (call.newState name)
  notified : matching call.metric ths ≠ [] →
    (call.sent ≠ [] ↔ call.newState name ≠ call.oldState name ∨
      ∃ th, (matching call.metric ths).find? (fun th => call.check name th = call.newState name) = some th ∧
        Repeats th (call.newState name))
  single : call.sent.length ≤ 1
  severity : ∀ n ∈ call.sent,
    call.newState name = STATE_OKAY ∧ n.severity = .okay ∨
      call.newState name = STATE_WARNING ∧ n.severity = .warning ∨
      call.newState name = STATE_ERROR ∧ n.severity = .failure
  elsewhere : ∀ other, other ≠ name → call.after[other]? = call.before[other]?

theorem reportChange_status : (reportChange fmt cache m name th value state).status = 0 := by
  unfold reportChange
  simp only []
  split
  · rfl
  · split <;> rfl

theorem reportChange_cache (found : cache[name]? = some ce) :
    (reportChange fmt cache m name th value state).cache =
      if state = ce.state then cache else ucSetStateByName cache name state := by
  unfold reportChange
  rw [ucGetStateByName_found found]
  grind

theorem reportChange_sent (fmt : NumberFormat) (m : Metric) (th : Threshold) (value : Double)
    (found : cache[name]? = some ce) (known : state ≠ STATE_UNKNOWN) :
    (reportChange fmt cache m name th value state).sent = [] ∧ state = ce.state ∧ ¬Repeats th state ∨
      (reportChange fmt cache m name th value state).sent = [stateNotification fmt m name th value state ce.state] ∧
        (state ≠ ce.state ∨ Repeats th state) := by
  have quiet : (state = STATE_UNKNOWN ∨ !th.persist ∨ (state = STATE_OKAY ∧ !th.persistOk)) ↔
      ¬Repeats th state := by
    unfold Repeats
    cases th.persist <;> cases th.persistOk <;> simp [known]
  unfold reportChange
  rw [ucGetStateByName_found found]
  simp only []
  split
  · rename_i silent
    exact .inl ⟨rfl, silent.1, quiet.mp silent.2⟩
  · rename_i loud
    refine .inr ⟨rfl, ?_⟩
    by_cases same : state = ce.state
    · exact .inr (not_not.mp fun once => loud ⟨same, quiet.mpr once⟩)
    · exact .inl same

theorem getElem?_reportChange (found : cache[name]? = some ce) (other : CString) :
    (reportChange fmt cache m name th value state).cache[other]? =
      if name = other then some { ce with state } else cache[other]? := by
  rw [reportChange_cache found]
  split
  · rename_i same
    subst same
    split
    · rename_i here
      subst here
      exact found
    · rfl
  · exact getElem?_ucSetStateByName found state other

theorem severityOf_cases (known : state = STATE_OKAY ∨ state = STATE_WARNING ∨ state = STATE_ERROR) :
    state = STATE_OKAY ∧ severityOf state = .okay ∨ state = STATE_WARNING ∧ severityOf state = .warning ∨
      state = STATE_ERROR ∧ severityOf state = .failure := by
  rcases known with same | same | same
  · exact .inl ⟨same, by rw [same]; rfl⟩
  · exact .inr (.inl ⟨same, by rw [same]; rfl⟩)
  · exact .inr (.inr ⟨same, by rw [same]; rfl⟩)

theorem utCheckMetricThreshold_eq (key : entryKey page m = some (.ok name))
    (read : ucGetRateByName cache name = some (.ok rate))
    (readable : ∀ th ∈ ths, ∃ answer, thresholdMatches m th = some answer) :
    matching m ths = [] ∧ utCheckMetricThreshold page fmt cache m ths = some ⟨0, cache, []⟩ ∨
      ∃ th ∈ matching m ths,
        IsGreatest {state | ∃ th ∈ matching m ths, utCheckOneThreshold cache name th rate = state}
          (utCheckOneThreshold cache name th rate) ∧
        (matching m ths).find? (fun other =>
          utCheckOneThreshold cache name other rate = utCheckOneThreshold cache name th rate) = some th ∧
        utCheckMetricThreshold page fmt cache m ths =
          utReportState fmt cache m name th rate (utCheckOneThreshold cache name th rate) := by
  obtain ⟨final, ended, folded, counted⟩ := worstLoop_eq cache name rate ths ⟨-1, none, 0⟩ readable
  unfold utCheckMetricThreshold
  simp only [key, read, ended]
  by_cases empty : matching m ths = []
  · rw [empty] at counted
    exact .inl ⟨empty, if_neg (by rw [counted]; decide)⟩
  · have below : ∀ th ∈ matching m ths,
        ((-1, none) : Int × Option Threshold).1 < utCheckOneThreshold cache name th rate :=
      fun th _ => (by decide : (-1 : Int) < 0).trans (utCheckOneThreshold_pos cache name th rate)
    obtain ⟨th, best, greatest, first⟩ :=
      foldl_keep_of_lt (fun th => utCheckOneThreshold cache name th rate) empty below
    obtain ⟨state, threshold⟩ := Prod.ext_iff.mp (folded.trans best)
    have some_match : 0 < final.nmatches := by
      rw [counted]
      simpa using length_pos_iff.mpr empty
    refine .inr ⟨th, mem_of_find?_eq_some first, greatest, first, ?_⟩
    rw [if_pos some_match]
    simp only at state threshold
    rw [threshold, state]

theorem callCorrect_reportChange (read : ucGetRateByName cache name = some (.ok rate))
    (found : cache[name]? = some ce) (member : th ∈ matching m ths)
    (greatest : IsGreatest {state | ∃ th ∈ matching m ths, utCheckOneThreshold cache name th rate = state}
      (utCheckOneThreshold cache name th rate))
    (first : (matching m ths).find? (fun other =>
      utCheckOneThreshold cache name other rate = utCheckOneThreshold cache name th rate) = some th)
    (reported : reportChange fmt cache m name th rate (utCheckOneThreshold cache name th rate) = report) :
    CallCorrect name ths ⟨m, cache, rate, report.status, report.cache, report.sent⟩ := by
  have known := utCheckOneThreshold_cases cache name th rate
  have positive := utCheckOneThreshold_pos cache name th rate
  have filled : matching m ths ≠ [] := ne_nil_of_mem member
  have stored : ∀ other, report.cache[other]? =
      if name = other then some { ce with state := utCheckOneThreshold cache name th rate } else cache[other]? := by
    subst reported
    exact getElem?_reportChange found
  have reached := ucGetStateByName_found ((stored name).trans (if_pos rfl))
  have before : ucGetStateByName cache name = ce.state := ucGetStateByName_found found
  have sent := reportChange_sent fmt m th rate found positive.ne'
  rw [reported] at sent
  refine ⟨read, reported ▸ reportChange_status, fun empty => absurd empty filled, fun _ => ?_, fun _ => ?_, ?_, ?_, ?_⟩
  · simpa only [Call.newState, Call.check, reached] using greatest
  · simp only [Call.newState, Call.oldState, Call.check, reached, before, first, Option.some.injEq,
      exists_eq_left']
    rcases sent with ⟨none, same, once⟩ | ⟨one, changed⟩
    · exact iff_of_false (not_not_intro none) (not_or.mpr ⟨not_not_intro same, once⟩)
    · exact iff_of_true (by simp [one]) changed
  · rcases sent with ⟨none, -⟩ | ⟨one, -⟩
    · simp [none]
    · simp [one]
  · intro n dispatched
    rcases sent with ⟨none, -⟩ | ⟨one, -⟩
    · simp [none] at dispatched
    · simp only [one, mem_singleton] at dispatched
      subst dispatched
      simp only [Call.newState, reached]
      exact severityOf_cases known
  · intro other different
    exact (stored other).trans (if_neg different.symm)

/-- One call is correct, and the rate can be read again afterwards. -/
theorem utCheckMetricThreshold_correct (key : entryKey page m = some (.ok name)) (labels : Stores m.label pairs)
    (filters : ∀ th ∈ ths, ∃ wanted, Stores th.labels wanted) (unset : ∀ th ∈ ths, th.hits = 0)
    (fmt : NumberFormat) (readable : Readable cache name) :
    ∃ report rate, utCheckMetricThreshold page fmt cache m ths = some report ∧
      ucGetRateByName cache name = some (.ok rate) ∧
      CallCorrect name ths ⟨m, cache, rate, report.status, report.cache, report.sent⟩ ∧
      Readable report.cache name := by
  have again := readable
  obtain ⟨ce, rate, found, scalar, read⟩ := readable
  have answers : ∀ th ∈ ths, ∃ answer, thresholdMatches m th = some answer := by
    intro th member
    obtain ⟨wanted, filter⟩ := filters th member
    exact ⟨_, labelsMatch_stores labels filter th.labels.num 0 filter.num⟩
  rcases utCheckMetricThreshold_eq key read answers with ⟨empty, ended⟩ | ⟨th, member, greatest, first, ended⟩
  · refine ⟨_, rate, ended, read, ⟨read, rfl, fun _ => ⟨rfl, rfl⟩, ?_, ?_, Nat.zero_le _, ?_, fun _ _ => rfl⟩, again⟩
    · exact fun filled => absurd empty filled
    · exact fun filled => absurd empty filled
    · exact fun n dispatched => nomatch dispatched
  · have hits : th.hits = 0 := unset th (mem_filter.mp member).1
    rw [utReportState, if_neg (not_not_intro hits)] at ended
    refine ⟨_, rate, ended, read, callCorrect_reportChange read found member greatest first rfl, ?_⟩
    rw [reportChange_cache found]
    split
    · exact again
    · apply again.set_state
      rcases utCheckOneThreshold_cases cache name th rate with same | same | same <;> rw [same] <;> decide

/-- A round of a run: what happens to the cache in the meantime, and the metric that is then checked. -/
structure Round where
  meanwhile : Cache → Cache
  metric : Metric

def checkRun (page : PageSize) (fmt : NumberFormat) (ths : List Threshold) (name : CString) (cache : Cache) :
    List Round → Option (List Call)
  | [] => some []
  | round :: rest =>
    let before := round.meanwhile cache
    match ucGetRateByName before name, utCheckMetricThreshold page fmt before round.metric ths with
    | some (.ok rate), some report =>
      (checkRun page fmt ths name report.cache rest).map fun calls =>
        ⟨round.metric, before, rate, report.status, report.cache, report.sent⟩ :: calls
    | _, _ => none

/-- Rounds about one metric that leave its rate readable. -/
structure Proper (page : PageSize) (name : CString) (rounds : List Round) : Prop where
  key : ∀ round ∈ rounds, entryKey page round.metric = some (.ok name)
  labels : ∀ round ∈ rounds, ∃ pairs, Stores round.metric.label pairs
  readable : ∀ round ∈ rounds, ∀ cache, Readable cache name → Readable (round.meanwhile cache) name

/-- Every call of a run is correct, whatever the cache has been told in between. -/
theorem ut_check_metric_threshold_run (page : PageSize) (fmt : NumberFormat) (ths : List Threshold)
    (filters : ∀ th ∈ ths, ∃ wanted, Stores th.labels wanted) (unset : ∀ th ∈ ths, th.hits = 0)
    (name : CString) (rounds : List Round) (proper : Proper page name rounds) (cache : Cache)
    (readable : Readable cache name) :
    ∃ calls, checkRun page fmt ths name cache rounds = some calls ∧ calls.map Call.metric = rounds.map Round.metric ∧
      ∀ call ∈ calls, CallCorrect name ths call := by
  induction rounds generalizing cache with
  | nil => exact ⟨[], rfl, rfl, fun call member => nomatch member⟩
  | cons round rounds ih =>
    obtain ⟨key, keys⟩ := forall_mem_cons.mp proper.key
    obtain ⟨⟨pairs, labels⟩, others⟩ := forall_mem_cons.mp proper.labels
    obtain ⟨keeps, kept⟩ := forall_mem_cons.mp proper.readable
    obtain ⟨report, rate, ended, read, correct, again⟩ :=
      utCheckMetricThreshold_correct key labels filters unset fmt (keeps cache readable)
    obtain ⟨calls, run, metrics, rest⟩ := ih ⟨keys, others, kept⟩ report.cache again
    refine ⟨_ :: calls, ?_, ?_, forall_mem_cons.mpr ⟨correct, rest⟩⟩
    · simp [checkRun, read, ended, run]
    · rw [map_cons, map_cons, metrics]

def storeRate (name : CString) (rate : Double) (cache : Cache) : Cache :=
  match cache[name]? with
  | none => cache
  | some ce => cache.insert name { ce with valuesGauge := rate }

theorem Readable.storeRate (readable : Readable cache name) (rate : Double) :
    Readable (storeRate name rate cache) name := by
  obtain ⟨ce, old, found, scalar, read⟩ := readable
  have stored : (Thresholds.storeRate name rate cache)[name]? = some { ce with valuesGauge := rate } := by
    rw [Thresholds.storeRate, found]
    exact (AvlTree.getElem?_insert cache name name _).trans (if_pos rfl)
  rw [ucGetRateByName_scalar found scalar] at read
  refine ⟨_, rate, stored, scalar, ?_⟩
  rw [ucGetRateByName_scalar stored scalar]
  split
  · rename_i missing
    rw [if_pos missing] at read
    cases read
  · rfl

def load : Metric := ⟨⟨"load", .gauge⟩, .empty, .gauge (.fin 0), 1, 10⟩

def hostIs (value : CString) : LabelArray := ⟨⟨[some "host", some value]⟩, pairBytes 0 1, 1⟩

theorem hostIs_stores (short : value = ['a'] ∨ value = ['b']) : ∃ pairs, Stores (hostIs value) pairs := by
  have added : runCalls .empty [⟨"host", some value⟩] = some (hostIs value) := by
    rcases short with rfl | rfl <;> decide +kernel
  refine Stores.empty.run ?_ added
  rcases short with rfl | rfl <;> simp [givenValue]

def hostLoad : Metric := { load with label := hostIs ['a'] }

def hostKey : CString := "load\x7bhost=\"a\"\x7d"

def loadCache (key : CString) : Cache :=
  (∅ : Cache).insert key
    ⟨none, .fin 0, ⟨.gauge (.fin 0), .gauge⟩, 1, 1, 10, STATE_UNKNOWN, 0, .empty, ⟨.gauge (.fin 0), .gauge⟩, 1, 0⟩

def loadRounds : List Round :=
  ([.fin 5, .fin 6, .fin 3, .fin 1, .fin 1] : List Double).map fun rate => ⟨storeRate hostKey rate, hostLoad⟩

def loadLimit : Threshold := ⟨.empty, .nan, .nan, .nan, .fin 4, .fin 0, false, true, false, 0⟩

/-- A failure limit for every host, a warning limit for this one and a failure limit for another. -/
def loadLimits : List Threshold :=
  [loadLimit, ⟨hostIs ['a'], .nan, .fin 2, .nan, .nan, .fin 0, false, false, false, 0⟩,
    ⟨hostIs ['b'], .nan, .nan, .nan, .fin 0, .fin 0, false, true, false, 0⟩]

theorem ut_check_metric_threshold_run_load :
    ∃ calls, checkRun (strbufPagesize 4096) ⟨fun _ => [], fun _ => []⟩ loadLimits hostKey (loadCache hostKey)
        loadRounds = some calls ∧
      calls.map (fun call => (call.newState hostKey, call.sent.map Notification.severity)) =
        [(STATE_ERROR, [.failure]), (STATE_ERROR, [.failure]), (STATE_WARNING, [.warning]), (STATE_OKAY, [.okay]),
          (STATE_OKAY, [])] ∧
      ∀ call ∈ calls, CallCorrect hostKey loadLimits call := by
  have proper : Proper (strbufPagesize 4096) hostKey loadRounds := by
    refine ⟨?_, ?_, ?_⟩ <;> intro round member <;> obtain ⟨rate, -, rfl⟩ := mem_map.mp member
    · exact show entryKey (strbufPagesize 4096) hostLoad = some (.ok hostKey) by decide +kernel
    · exact hostIs_stores (.inl rfl)
    · exact fun cache readable => readable.storeRate rate
  have readable : Readable (loadCache hostKey) hostKey :=
    ⟨_, .fin 0, (AvlTree.getElem?_insert _ _ _ _).trans (if_pos rfl), by decide, by decide +kernel⟩
  have filters : ∀ th ∈ loadLimits, ∃ wanted, Stores th.labels wanted :=
    forall_mem_cons.mpr ⟨⟨[], Stores.empty⟩, forall_mem_cons.mpr ⟨hostIs_stores (.inl rfl),
      forall_mem_singleton.mpr (hostIs_stores (.inr rfl))⟩⟩
  obtain ⟨calls, run, -, correct⟩ := ut_check_metric_threshold_run (strbufPagesize 4096) ⟨fun _ => [], fun _ => []⟩
    loadLimits filters (by simp [loadLimits, loadLimit]) hostKey loadRounds proper (loadCache hostKey) readable
  refine ⟨calls, run, ?_, correct⟩
  have evaluated : (checkRun (strbufPagesize 4096) ⟨fun _ => [], fun _ => []⟩ loadLimits hostKey (loadCache hostKey)
      loadRounds).map
      (fun calls => calls.map fun call => (call.newState hostKey, call.sent.map Notification.severity)) =
        some [(STATE_ERROR, [.failure]), (STATE_ERROR, [.failure]), (STATE_WARNING, [.warning]),
          (STATE_OKAY, [.okay]), (STATE_OKAY, [])] := by
    decide +kernel
  rw [run] at evaluated
  exact Option.some.inj evaluated

end NCollectd.Thresholds
