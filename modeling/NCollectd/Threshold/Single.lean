import NCollectd.Threshold.Ranges
import NCollectd.Threshold.Runs

namespace NCollectd.Thresholds

open CacheLock (STATE_ERROR INT_MIN INT_MAX)

/-- What the cache keeps between two checks. -/
structure Standing where
  state : Int
  hits : Int
deriving DecidableEq

/-- The result is only counted, not reported. -/
def Held (th : Threshold) (s : Standing) (result : Int) : Prop :=
  th.hits ≠ 0 ∧ ¬ (result = STATE_OKAY ∧ th.persistOk = false) ∧ s.hits ≤ th.hits

instance : Decidable (Held th s result) := inferInstanceAs (Decidable (_ ∧ _ ∧ _))

def Standing.reported (th : Threshold) (s : Standing) (result : Int) : Standing × Bool :=
  (⟨result, if th.hits ≠ 0 then 0 else s.hits⟩,
    result ≠ s.state || (th.persist && (result ≠ STATE_OKAY || th.persistOk)))

def Standing.next (th : Threshold) (s : Standing) (result : Int) : Option (Standing × Bool) :=
  if Held th s result then
    if INT_MIN ≤ s.hits + 1 ∧ s.hits + 1 ≤ INT_MAX then some (⟨s.state, s.hits + 1⟩, false) else none
  else some (s.reported th result)

def withStanding (ce : CacheEntry) (s : Standing) : CacheEntry := { ce with state := s.state, hits := s.hits }

section Report

variable {cache : Cache} {name : CString}

theorem ucGetHitsByName_found (found : cache[name]? = some ce) : ucGetHitsByName cache name = ce.hits := by
  rw [ucGetHitsByName, found]

theorem getElem?_ucSetHitsByName (found : cache[name]? = some ce) (hits : Int) :
    (ucSetHitsByName cache name hits)[name]? = some { ce with hits } := by
  rw [ucSetHitsByName, found]
  exact (AvlTree.getElem?_insert cache name name _).trans (if_pos rfl)

theorem repeats_iff : Repeats th result ↔ (th.persist && (result ≠ STATE_OKAY || th.persistOk)) = true := by
  simp [Repeats]

section

variable (fmt : NumberFormat) (m : Metric) (th : Threshold) (value : Double) (found : cache[name]? = some ce)
  (known : result ≠ STATE_UNKNOWN)
include found known

theorem reportChange_standing :
    (reportChange fmt cache m name th value result).cache[name]? = some { ce with state := result } ∧
      ((reportChange fmt cache m name th value result).sent ≠ [] ↔
        (result ≠ ce.state || (th.persist && (result ≠ STATE_OKAY || th.persistOk))) = true) := by
  refine ⟨(getElem?_reportChange found name).trans (if_pos rfl), ?_⟩
  have notified : (result ≠ ce.state || (th.persist && (result ≠ STATE_OKAY || th.persistOk))) = true ↔
      result ≠ ce.state ∨ Repeats th result := by
    rw [repeats_iff, Bool.or_eq_true, decide_eq_true_eq]
  rw [notified]
  rcases reportChange_sent fmt m th value found known with ⟨none, same, once⟩ | ⟨one, changed⟩
  · exact iff_of_false (not_not_intro none) (not_or.mpr ⟨not_not_intro same, once⟩)
  · exact iff_of_true (by simp [one]) changed

theorem utReportState_standing : match Standing.next th ⟨ce.state, ce.hits⟩ result with
    | none => utReportState fmt cache m name th value result = none
    | some (s, notified) => ∃ report, utReportState fmt cache m name th value result = some report ∧
        report.cache[name]? = some (withStanding ce s) ∧ (report.sent ≠ [] ↔ notified = true) := by
  unfold utReportState Standing.next Standing.reported Held
  rw [ucGetHitsByName_found found]
  by_cases counted : th.hits = 0
  · obtain ⟨stored, sent⟩ := reportChange_standing fmt m th value found known
    simp only [counted, ne_eq, not_true_eq_false, false_and, if_false]
    exact ⟨_, rfl, stored, sent⟩
  · by_cases released : (result = STATE_OKAY ∧ th.persistOk = false) ∨ ce.hits > th.hits
    · have free : ¬ (¬ (result = STATE_OKAY ∧ th.persistOk = false) ∧ ce.hits ≤ th.hits) := by
        rintro ⟨bad, few⟩
        exact released.elim bad fun more => absurd few (not_le_of_gt more)
      have reset := getElem?_ucSetHitsByName found 0
      obtain ⟨stored, sent⟩ := reportChange_standing fmt m th value reset known
      simp only [ne_eq, counted, not_false_eq_true, true_and, if_true, if_neg free,
        Bool.not_eq_eq_eq_not, Bool.not_true,
        if_pos released]
      exact ⟨_, rfl, stored, sent⟩
    · have held : ¬ (result = STATE_OKAY ∧ th.persistOk = false) ∧ ce.hits ≤ th.hits := by
        obtain ⟨bad, few⟩ := not_or.mp released
        exact ⟨bad, not_lt.mp few⟩
      simp only [ne_eq, counted, not_false_eq_true, true_and, if_true, if_pos held,
        Bool.not_eq_eq_eq_not, Bool.not_true,
        if_neg released, ucIncHitsByName, found]
      by_cases fits : INT_MIN ≤ ce.hits + 1 ∧ ce.hits + 1 ≤ INT_MAX
      · simp only [if_pos fits, Option.map_some]
        refine ⟨_, rfl, ?_, by simp⟩
        exact (AvlTree.getElem?_insert cache name name _).trans (if_pos rfl)
      · simp only [if_neg fits, Option.map_none]

end

end Report

/-- A check of one metric; in the meantime its state and its hits stay as they are. -/
structure Watched (page : PageSize) (name : CString) (th : Threshold) (round : Round) : Prop where
  key : entryKey page round.metric = some (.ok name)
  applies : thresholdMatches round.metric th = some true
  keeps : ∀ cache ce, cache[name]? = some ce → ∃ ce', (round.meanwhile cache)[name]? = some ce' ∧
    ce'.state = ce.state ∧ ce'.hits = ce.hits ∧ ce'.valuesRaw.type = ce.valuesRaw.type

/-- Calls in sequence, with what is kept before each of them. -/
inductive Trace (name : CString) (th : Threshold) : Standing → List Call → Prop where
  | nil : Trace name th s []
  | cons (before : ∃ ce, call.before[name]? = some ce ∧ ce.state = s.state ∧ ce.hits = s.hits)
      (after : ∃ ce, call.after[name]? = some ce ∧ ce.state = s'.state ∧ ce.hits = s'.hits)
      (step : s.next th (call.check name th) = some (s', notified)) (sent : call.sent ≠ [] ↔ notified = true)
      (rest : Trace name th s' calls) : Trace name th s (call :: calls)

section Run

variable {round : Round} {cache : Cache}

/-- A scalar metric in a state that a check can be in. -/
def Scalar (ce : CacheEntry) : Prop := ce.valuesRaw.type ≠ .distribution ∧ ce.state ≠ STATE_MISSING

theorem check_ne_unknown (cache : Cache) (name : CString) (th : Threshold) (value : Double) :
    utCheckOneThreshold cache name th value ≠ STATE_UNKNOWN ∧
      utCheckOneThreshold cache name th value ≠ STATE_MISSING := by
  rcases utCheckOneThreshold_cases cache name th value with same | same | same <;> rw [same] <;> decide

theorem Standing.next_state (step : Standing.next th s result = some (s', notified)) :
    s'.state = s.state ∨ s'.state = result := by
  unfold Standing.next at step
  split at step
  · split at step
    · cases step
      exact .inl rfl
    · cases step
  · cases step
    exact .inr rfl

section

variable (fmt : NumberFormat) (watched : Watched page name th round) (found : cache[name]? = some ce)
  (scalar : Scalar ce)
include watched found scalar

theorem check_single : utCheckMetricThreshold page fmt cache round.metric [th] =
      utReportState fmt cache round.metric name th ce.valuesGauge
        (utCheckOneThreshold cache name th ce.valuesGauge) := by
  have read : ucGetRateByName cache name = some (.ok ce.valuesGauge) := by
    rw [ucGetRateByName_scalar found scalar.1, if_neg scalar.2]
  have only : matching round.metric [th] = [th] := by simp [matching, watched.applies]
  have readable : ∀ other ∈ [th], ∃ answer, thresholdMatches round.metric other = some answer := by
    intro other member
    rw [List.mem_singleton.mp member]
    exact ⟨true, watched.applies⟩
  rcases utCheckMetricThreshold_eq watched.key read readable with ⟨empty, -⟩ | ⟨worst, member, -, -, ended⟩
  · rw [only] at empty
    cases empty
  · rw [only] at member
    rw [List.mem_singleton.mp member] at ended
    exact ended

theorem checkRun_round :
    ∃ entry, (round.meanwhile cache)[name]? = some entry ∧ entry.state = ce.state ∧ entry.hits = ce.hits ∧
      match Standing.next th ⟨ce.state, ce.hits⟩
        (utCheckOneThreshold (round.meanwhile cache) name th entry.valuesGauge) with
      | none => ∀ rounds, checkRun page fmt [th] name cache (round :: rounds) = none
      | some (s, notified) => ∃ report : Report, report.cache[name]? = some (withStanding entry s) ∧
          Scalar (withStanding entry s) ∧ (report.sent ≠ [] ↔ notified = true) ∧
          ∀ rounds, checkRun page fmt [th] name cache (round :: rounds) =
            (checkRun page fmt [th] name report.cache rounds).map fun calls =>
              ⟨round.metric, round.meanwhile cache, entry.valuesGauge, report.status, report.cache, report.sent⟩ ::
                calls := by
  obtain ⟨entry, stored, state, hits, type⟩ := watched.keeps cache ce found
  have proper : Scalar entry := by
    unfold Scalar
    rw [type, state]
    exact scalar
  have read : ucGetRateByName (round.meanwhile cache) name = some (.ok entry.valuesGauge) := by
    rw [ucGetRateByName_scalar stored proper.1, if_neg proper.2]
  have known := check_ne_unknown (round.meanwhile cache) name th entry.valuesGauge
  have standing := utReportState_standing fmt round.metric th entry.valuesGauge stored known.1
  have single := check_single fmt watched stored proper
  refine ⟨entry, stored, state, hits, ?_⟩
  rw [← state, ← hits]
  cases step : Standing.next th ⟨entry.state, entry.hits⟩
      (utCheckOneThreshold (round.meanwhile cache) name th entry.valuesGauge) with
  | none =>
    simp only [step] at standing
    intro rounds
    simp only [checkRun, read, single, standing]
  | some outcome =>
    obtain ⟨s, notified⟩ := outcome
    simp only [step] at standing
    obtain ⟨report, reported, after, sent⟩ := standing
    refine ⟨report, after, ⟨proper.1, ?_⟩, sent, ?_⟩
    · show s.state ≠ STATE_MISSING
      rcases Standing.next_state step with same | same
      · rw [same]
        exact proper.2
      · rw [same]
        exact known.2
    · intro rounds
      simp only [checkRun, read, single, reported]

end

/-- A run that gets to its end is a trace of the machine. -/
theorem checkRun_trace (fmt : NumberFormat) (watched : ∀ round ∈ rounds, Watched page name th round)
    (found : cache[name]? = some ce) (scalar : Scalar ce)
    (run : checkRun page fmt [th] name cache rounds = some calls) :
    Trace name th ⟨ce.state, ce.hits⟩ calls := by
  induction rounds generalizing cache ce calls with
  | nil =>
    cases run
    exact .nil
  | cons round rounds ih =>
    obtain ⟨here, later⟩ := List.forall_mem_cons.mp watched
    obtain ⟨entry, stored, state, hits, first⟩ := checkRun_round fmt here found scalar
    split at first
    · rw [first rounds] at run
      cases run
    · rename_i s notified step
      obtain ⟨report, after, kept, sent, rest⟩ := first
      rw [rest rounds] at run
      obtain ⟨calls, tail, rfl⟩ := Option.map_eq_some_iff.mp run
      exact .cons ⟨entry, stored, state, hits⟩ ⟨_, after, rfl, rfl⟩ step sent (ih later after kept tail)

theorem Standing.next_defined (small : th.hits < INT_MAX) (range : INT_MIN ≤ s.hits) (result : Int) :
    ∃ s' notified, Standing.next th s result = some (s', notified) ∧ INT_MIN ≤ s'.hits := by
  unfold Standing.next
  split
  · rename_i held
    have few : s.hits ≤ th.hits := held.2.2
    have fits : INT_MIN ≤ s.hits + 1 ∧ s.hits + 1 ≤ INT_MAX := by omega
    rw [if_pos fits]
    exact ⟨_, _, rfl, fits.1⟩
  · refine ⟨_, _, rfl, ?_⟩
    dsimp only
    split
    · decide
    · exact range

/-- Such a run gets to its end. -/
theorem checkRun_defined (fmt : NumberFormat) (small : th.hits < INT_MAX)
    (watched : ∀ round ∈ rounds, Watched page name th round) (found : cache[name]? = some ce) (scalar : Scalar ce)
    (range : INT_MIN ≤ ce.hits) : ∃ calls, checkRun page fmt [th] name cache rounds = some calls := by
  induction rounds generalizing cache ce with
  | nil => exact ⟨[], rfl⟩
  | cons round rounds ih =>
    obtain ⟨here, later⟩ := List.forall_mem_cons.mp watched
    obtain ⟨entry, stored, state, hits, first⟩ := checkRun_round fmt here found scalar
    obtain ⟨s, notified, step, low⟩ := Standing.next_defined (s := ⟨ce.state, ce.hits⟩) small range
      (utCheckOneThreshold (round.meanwhile cache) name th entry.valuesGauge)
    simp only [step] at first
    obtain ⟨report, after, kept, -, rest⟩ := first
    obtain ⟨calls, tail⟩ := ih later after kept low
    exact ⟨_, (rest rounds).trans (congrArg _ tail)⟩

end Run

theorem storeRate_keeps (name : CString) (rate : Double) (found : cache[name]? = some ce) :
    ∃ ce', (storeRate name rate cache)[name]? = some ce' ∧ ce'.state = ce.state ∧ ce'.hits = ce.hits ∧
      ce'.valuesRaw.type = ce.valuesRaw.type := by
  refine ⟨{ ce with valuesGauge := rate }, ?_, rfl, rfl, rfl⟩
  rw [storeRate, found]
  exact (AvlTree.getElem?_insert cache name name _).trans (if_pos rfl)

def loadOkay : Cache := ucSetStateByName (loadCache "load") "load" STATE_OKAY

def loadEntry : CacheEntry :=
  ⟨none, .fin 0, ⟨.gauge (.fin 0), .gauge⟩, 1, 1, 10, STATE_OKAY, 0, .empty, ⟨.gauge (.fin 0), .gauge⟩, 1, 0⟩

theorem loadOkay_found : loadOkay["load".toList]? = some loadEntry := by
  have stored : (loadCache "load")["load".toList]? = some _ := (AvlTree.getElem?_insert _ _ _ _).trans (if_pos rfl)
  exact (getElem?_ucSetStateByName stored STATE_OKAY "load").trans (if_pos rfl)

end NCollectd.Thresholds
