import NCollectd.Threshold.Single

/-! The option `Hysteresis` for a value that stays the same. -/

namespace NCollectd.Thresholds

open List

open CacheLock (STATE_ERROR INT_MIN INT_MAX)

def nearBound (min max amount value : Double) : Bool := !outsidePlain min max value && outside min max amount value

section Margins

variable {min max amount value : Double}

theorem add_zero_eq (a : Double) : a.add (.fin 0) = a := by
  cases a with
  | fin value => exact congrArg Double.fin (add_zero value)
  | _ => rfl

theorem sub_zero_eq (a : Double) : a.sub (.fin 0) = a := by
  cases a with
  | fin value => exact congrArg Double.fin (by rw [neg_zero, add_zero])
  | _ => rfl

theorem outside_zero (min max value : Double) : outside min max (.fin 0) value = outsidePlain min max value := by
  rw [outside, outsidePlain, add_zero_eq, sub_zero_eq]

section

variable (positive : (Double.fin 0).less amount = true)
include positive

theorem less_add (below : value.less min = true) : value.less (min.add amount) = true := by
  cases min <;> cases amount <;> cases value <;> simp_all [Double.less, Double.add]
  linarith

theorem sub_less (above : max.less value = true) : (max.sub amount).less value = true := by
  cases max <;> cases amount <;> cases value <;> simp_all [Double.less, Double.sub, Double.add, Double.neg]
  linarith

theorem outside_of_plain (plain : outsidePlain min max value = true) : outside min max amount value = true := by
  simp only [outsidePlain, outside, Bool.or_eq_true, Bool.and_eq_true] at plain ⊢
  exact plain.imp (And.imp_right (less_add positive)) (And.imp_right (sub_less positive))

end

end Margins

/-- What a check makes of its own result. -/
def Settled (th : Threshold) (value : Double) : Prop :=
  th.invert = true → nearBound th.failureMin th.failureMax th.hysteresis value = false ∧
    (outsidePlain th.failureMin th.failureMax value = true →
      nearBound th.warningMin th.warningMax th.hysteresis value = false)

private def transition (invert failure failureDrawn warning warningDrawn : Bool) (prevState : Int) : Int :=
  rank ((if prevState = STATE_ERROR then failureDrawn else failure) != invert)
    ((if prevState = STATE_WARNING then warningDrawn else warning) != invert)

theorem checkAfter_eq (th : Threshold) (value : Double) (prevState : Int) :
    checkAfter th value prevState = transition th.invert (outsidePlain th.failureMin th.failureMax value)
      (outside th.failureMin th.failureMax th.hysteresis value) (outsidePlain th.warningMin th.warningMax value)
      (outside th.warningMin th.warningMax th.hysteresis value) prevState := by
  unfold checkAfter transition margin
  congr 2
  all_goals
    split
    · rfl
    · exact outside_zero _ _ _

theorem transition_cases (invert failure failureDrawn warning warningDrawn : Bool) (prevState : Int) :
    transition invert failure failureDrawn warning warningDrawn prevState =
      transition invert failure failureDrawn warning warningDrawn
        (if prevState = STATE_ERROR then STATE_ERROR else if prevState = STATE_WARNING then STATE_WARNING
          else STATE_OKAY) := by
  unfold transition
  by_cases failed : prevState = STATE_ERROR
  · rw [if_pos failed, if_pos failed, if_pos rfl, failed]
  · by_cases warned : prevState = STATE_WARNING
    · rw [if_neg failed, if_neg failed, if_pos warned, warned]
      rfl
    · rw [if_neg failed, if_neg failed, if_neg warned, if_neg warned]
      rfl

theorem transition_twice {failure failureDrawn warning warningDrawn : Bool} (invert : Bool)
    (failureDraws : failure = true → failureDrawn = true) (warningDraws : warning = true → warningDrawn = true)
    (prevState : Int) :
    let check := transition invert failure failureDrawn warning warningDrawn
    ((invert = true → (!failure && failureDrawn) = false ∧ (failure = true → (!warning && warningDrawn) = false)) →
        check (check prevState) = check prevState) ∧
      (¬ (invert = true → (!failure && failureDrawn) = false ∧ (failure = true → (!warning && warningDrawn) = false)) →
        check (check prevState) ≠ check prevState) := by
  dsimp only
  rw [transition_cases _ _ _ _ _ prevState]
  revert failureDraws warningDraws
  split
  · revert invert failure failureDrawn warning warningDrawn
    decide
  · split
    all_goals
      revert invert failure failureDrawn warning warningDrawn
      decide

theorem checkAfter_twice_iff (active : (Double.fin 0).less th.hysteresis = true) (value : Double) (prevState : Int) :
    checkAfter th value (checkAfter th value prevState) = checkAfter th value prevState ↔ Settled th value := by
  have failureDraws : outsidePlain th.failureMin th.failureMax value = true →
      outside th.failureMin th.failureMax th.hysteresis value = true := outside_of_plain active
  have warningDraws : outsidePlain th.warningMin th.warningMax value = true →
      outside th.warningMin th.warningMax th.hysteresis value = true := outside_of_plain active
  have twice := transition_twice th.invert failureDraws warningDraws prevState
  simp only [checkAfter_eq]
  constructor
  · intro same
    by_contra unsettled
    exact twice.2 unsettled same
  · exact twice.1

/-- A run of checks of a metric that keeps its rate, against one threshold with `Hysteresis`. -/
structure ConstantRun (page : PageSize) (name : CString) (th : Threshold) where
  value : Double
  active : (Double.fin 0).less th.hysteresis = true
  cache : Cache
  entry : CacheEntry
  found : cache[name]? = some entry
  scalar : Scalar entry
  range : INT_MIN ≤ entry.hits
  rounds : List Round
  watched : ∀ round ∈ rounds, Watched page name th round
  constant : ∀ round ∈ rounds, ∀ cache ce, (round.meanwhile cache)[name]? = some ce → ce.valuesGauge = value

/-- All checks give the state that the first one gives. -/
def Steady (name : CString) (th : Threshold) (calls : List Call) : Prop :=
  ∀ first, calls.head? = some first → ∀ call ∈ calls, call.check name th = first.check name th

/-- Only the last check may change the state. -/
def Unchanged (name : CString) (calls : List Call) : Prop :=
  ∀ call ∈ calls.dropLast, call.newState name = call.oldState name

section Run

variable {th : Threshold}

/-- The rates of the calls. -/
theorem checkRun_rates (fmt : NumberFormat) (watched : ∀ round ∈ rounds, Watched page name th round)
    (constant : ∀ round ∈ rounds, ∀ cache ce, (round.meanwhile cache)[name]? = some ce → ce.valuesGauge = value)
    (found : cache[name]? = some ce) (scalar : Scalar ce)
    (run : checkRun page fmt [th] name cache rounds = some calls) :
    ∀ call ∈ calls, call.rate = value := by
  induction rounds generalizing cache ce calls with
  | nil =>
    cases run
    exact forall_mem_nil _
  | cons round rounds ih =>
    obtain ⟨here, later⟩ := forall_mem_cons.mp watched
    obtain ⟨rate, rates⟩ := forall_mem_cons.mp constant
    obtain ⟨entry, stored, -, -, first⟩ := checkRun_round fmt here found scalar
    split at first
    · rw [first rounds] at run
      cases run
    · obtain ⟨report, after, kept, -, rest⟩ := first
      rw [rest rounds] at run
      obtain ⟨calls, tail, rfl⟩ := Option.map_eq_some_iff.mp run
      exact forall_mem_cons.mpr ⟨rate cache entry stored, ih later rates after kept tail⟩

section

variable (active : (Double.fin 0).less th.hysteresis = true)
include active

/-- The first call of a trace: its result, and the state before and after it. -/
theorem Trace.first (trace : Trace name th s (call :: calls)) (rate : call.rate = value) :
    ∃ s', Trace name th s' calls ∧ call.check name th = checkAfter th value s.state ∧ call.oldState name = s.state ∧
      call.newState name = s'.state ∧ (s'.state = s.state ∨ s'.state = checkAfter th value s.state) := by
  cases trace with
  | cons before after step sent rest =>
    obtain ⟨ce, found, state, -⟩ := before
    obtain ⟨ce', found', state', -⟩ := after
    have result : call.check name th = checkAfter th value s.state := by
      rw [Call.check, utCheckOneThreshold_eq active, ucGetStateByName_found found, state, rate]
    refine ⟨_, rest, result, ?_, ?_, ?_⟩
    · rw [Call.oldState, ucGetStateByName_found found, state]
    · rw [Call.newState, ucGetStateByName_found found', state']
    · rw [← result]
      exact Standing.next_state step

section

variable (trace : Trace name th s calls) (rates : ∀ call ∈ calls, call.rate = value)
include trace rates

/-- The results of a settled value. -/
theorem Trace.settled (settled : Settled th value) :
    ∀ call ∈ calls, call.check name th = checkAfter th value s.state := by
  induction calls generalizing s with
  | nil => exact forall_mem_nil _
  | cons call calls ih =>
    obtain ⟨rate, others⟩ := forall_mem_cons.mp rates
    obtain ⟨s', rest, result, -, -, moved⟩ := trace.first active rate
    refine forall_mem_cons.mpr ⟨result, fun later member => ?_⟩
    rw [ih rest others later member]
    rcases moved with same | same
    · rw [same]
    · rw [same]
      exact (checkAfter_twice_iff active value s.state).mpr settled

/-- As long as the state does not change, the results are the same. -/
theorem Trace.unchanged (unchanged : Unchanged name calls) :
    ∀ call ∈ calls, call.check name th = checkAfter th value s.state := by
  induction calls generalizing s with
  | nil => exact forall_mem_nil _
  | cons call calls ih =>
    obtain ⟨rate, others⟩ := forall_mem_cons.mp rates
    obtain ⟨s', rest, result, old, new, -⟩ := trace.first active rate
    refine forall_mem_cons.mpr ⟨result, ?_⟩
    cases calls with
    | nil => exact forall_mem_nil _
    | cons next calls =>
      unfold Unchanged at unchanged
      rw [dropLast_cons_cons] at unchanged
      obtain ⟨here, later⟩ := forall_mem_cons.mp unchanged
      have same : s'.state = s.state := by rw [← new, ← old, here]
      rw [← same]
      exact ih rest others later

/-- A value that is not settled gives other results as soon as the state changes. -/
theorem Trace.unsettled (unsettled : ¬ Settled th value)
    (steady : ∀ call ∈ calls, call.check name th = checkAfter th value s.state) : Unchanged name calls := by
  induction calls generalizing s with
  | nil => exact forall_mem_nil _
  | cons call calls ih =>
    obtain ⟨rate, others⟩ := forall_mem_cons.mp rates
    obtain ⟨-, alike⟩ := forall_mem_cons.mp steady
    obtain ⟨s', rest, -, old, new, moved⟩ := trace.first active rate
    cases calls with
    | nil => exact forall_mem_nil _
    | cons next calls =>
      obtain ⟨-, -, result, -⟩ := rest.first active (others next mem_cons_self)
      have again := result.symm.trans (alike next mem_cons_self)
      have same : s'.state = s.state := by
        refine moved.resolve_right fun changed => ?_
        rw [changed] at again
        exact unsettled ((checkAfter_twice_iff active value s.state).mp again)
      unfold Unchanged
      rw [dropLast_cons_cons]
      refine forall_mem_cons.mpr ⟨by rw [new, old, same], ?_⟩
      exact ih rest others (by rw [same]; exact alike)

end

end

end Run

/-- A constant rate gives the same state with every check exactly if its result is settled, or as long as
no check but the last changes the state. -/
theorem hysteresis_steady_iff (page : PageSize) (fmt : NumberFormat) (name : CString) (th : Threshold)
    (run : ConstantRun page name th) :
    (th.hits < INT_MAX → ∃ calls, checkRun page fmt [th] name run.cache run.rounds = some calls) ∧
      ∀ calls, checkRun page fmt [th] name run.cache run.rounds = some calls →
        (Steady name th calls ↔ Settled th run.value ∨ Unchanged name calls) := by
  refine ⟨fun small => checkRun_defined fmt small run.watched run.found run.scalar run.range, ?_⟩
  intro calls ended
  have trace := checkRun_trace fmt run.watched run.found run.scalar ended
  have rates := checkRun_rates fmt run.watched run.constant run.found run.scalar ended
  have alike : Steady name th calls ↔
      ∀ call ∈ calls, call.check name th = checkAfter th run.value run.entry.state := by
    cases calls with
    | nil => exact iff_of_true (fun _ head => nomatch head) (forall_mem_nil _)
    | cons first calls =>
      obtain ⟨-, -, result, -⟩ := trace.first run.active (rates first mem_cons_self)
      rw [← result]
      constructor
      · exact fun steady => steady first rfl
      · intro same other head
        cases head
        exact same
  rw [alike]
  constructor
  · intro same
    by_cases settled : Settled th run.value
    · exact .inl settled
    · exact .inr (trace.unsettled run.active rates settled same)
  · rintro (settled | unchanged)
    · exact trace.settled run.active rates settled
    · exact trace.unchanged run.active rates unchanged

def loadInverted : Threshold := ⟨.empty, .nan, .nan, .nan, .fin 10, .fin 1, true, false, false, 0⟩

def equalLoads : List Round := replicate 3 ⟨storeRate "load" (.fin (19 / 2)), load⟩

theorem storeRate_entry (name : CString) (rate : Double) (cache : Cache)
    (stored : (storeRate name rate cache)[name]? = some ce) : ce.valuesGauge = rate := by
  unfold storeRate at stored
  grind

def equalRun : ConstantRun (strbufPagesize 4096) "load" loadInverted where
  value := .fin (19 / 2)
  active := rfl
  cache := loadOkay
  entry := loadEntry
  found := loadOkay_found
  scalar := ⟨by decide, by decide⟩
  range := by decide
  rounds := equalLoads
  watched := by
    intro round member
    rw [eq_of_mem_replicate member]
    exact ⟨entryKey_bare _ rfl, rfl, fun cache ce => storeRate_keeps "load" _⟩
  constant := by
    intro round member cache ce stored
    rw [eq_of_mem_replicate member] at stored
    exact storeRate_entry "load" _ cache stored

theorem hysteresis_inverted_flaps :
    ∃ calls, checkRun (strbufPagesize 4096) ⟨fun _ => [], fun _ => []⟩ [loadInverted] "load" equalRun.cache
        equalRun.rounds = some calls ∧
      calls.map (fun call => (call.rate, call.check "load" loadInverted)) =
        [(.fin (19 / 2), STATE_ERROR), (.fin (19 / 2), STATE_WARNING), (.fin (19 / 2), STATE_ERROR)] ∧
      ¬ Steady "load" loadInverted calls := by
  have evaluated : (checkRun (strbufPagesize 4096) ⟨fun _ => [], fun _ => []⟩ [loadInverted] "load" loadOkay
      equalLoads).map (fun calls => calls.map fun call => (call.rate, call.check "load" loadInverted)) =
        some [(.fin (19 / 2), STATE_ERROR), (.fin (19 / 2), STATE_WARNING), (.fin (19 / 2), STATE_ERROR)] := by
    decide +kernel
  obtain ⟨calls, ended, results⟩ := Option.map_eq_some_iff.mp evaluated
  refine ⟨calls, ended, results, fun steady => ?_⟩
  obtain ⟨first, rest, rfl, one, others⟩ := map_eq_cons_iff.mp results
  obtain ⟨second, rest, rfl, two, -⟩ := map_eq_cons_iff.mp others
  have same := steady first rfl second (mem_cons_of_mem first mem_cons_self)
  rw [(Prod.mk.inj one).2, (Prod.mk.inj two).2] at same
  exact absurd same (by decide)

end NCollectd.Thresholds
