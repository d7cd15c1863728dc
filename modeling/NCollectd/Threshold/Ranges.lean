import NCollectd.Threshold.Model

/-! What a single check makes of a value: the documented ranges, with and without `Invert`. -/

namespace NCollectd.Thresholds

open CacheLock (STATE_ERROR)

def rank (failing warned : Bool) : Int :=
  if failing then STATE_ERROR else if warned then STATE_WARNING else STATE_OKAY

theorem rank_error_iff : rank failing warned = STATE_ERROR ↔ failing = true := by
  cases failing <;> cases warned <;> decide

theorem rank_warning_iff : rank failing warned = STATE_WARNING ↔ failing = false ∧ warned = true := by
  cases failing <;> cases warned <;> decide

theorem verdict_eq_rank (invert outsideFailure outsideWarning : Bool) :
    verdict (if outsideFailure then (if invert then -1 else 0) + 1 else if invert then -1 else 0)
      (if outsideWarning then (if invert then -1 else 0) + 1 else if invert then -1 else 0) =
        rank (outsideFailure != invert) (outsideWarning != invert) := by
  cases invert <;> cases outsideFailure <;> cases outsideWarning <;> rfl

/-- A check without hysteresis. -/
theorem utCheckOneThreshold_plain (plain : (Double.fin 0).less th.hysteresis = false) (value : Double) :
    utCheckOneThreshold cache name th value =
      rank (outsidePlain th.failureMin th.failureMax value != th.invert)
        (outsidePlain th.warningMin th.warningMax value != th.invert) := by
  have below : ¬ (Double.fin 0).less th.hysteresis = true := by simp [plain]
  unfold utCheckOneThreshold
  rw [if_neg below]
  exact verdict_eq_rank th.invert _ _

def margin (th : Threshold) (state prevState : Int) : Double := if prevState = state then th.hysteresis else .fin 0

def checkAfter (th : Threshold) (value : Double) (prevState : Int) : Int :=
  rank (outside th.failureMin th.failureMax (margin th STATE_ERROR prevState) value != th.invert)
    (outside th.warningMin th.warningMax (margin th STATE_WARNING prevState) value != th.invert)

theorem utCheckOneThreshold_eq (active : (Double.fin 0).less th.hysteresis = true) (value : Double) :
    utCheckOneThreshold cache name th value = checkAfter th value (ucGetStateByName cache name) := by
  unfold utCheckOneThreshold
  rw [if_pos active]
  exact verdict_eq_rank th.invert _ _

/-- A range has a bound. `ut_config_metric` sets all bounds to NaN before it reads the options. -/
def Configured (min max : Double) : Prop := min ≠ .nan ∨ max ≠ .nan

/-- Less than the lower bound or greater than the upper bound. -/
def Outside (min max value : Double) : Prop :=
  (min ≠ .nan ∧ value.less min = true) ∨ (max ≠ .nan ∧ max.less value = true)

/-- Not less than the lower bound and not greater than the upper bound; a missing bound is infinite. -/
def Inside (min max value : Double) : Prop :=
  (min ≠ .nan → min.lessEq value = true) ∧ (max ≠ .nan → value.lessEq max = true)

section Ranges

variable {min max value : Double}

theorem outsidePlain_iff : outsidePlain min max value = true ↔ Outside min max value := by
  simp [outsidePlain, Outside, isnan]

theorem Outside.configured (outside : Outside min max value) : Configured min max :=
  outside.imp And.left And.left

theorem inside_iff (number : value ≠ .nan) : Inside min max value ↔ ¬ Outside min max value := by
  have lower (set : min ≠ .nan) := Double.lessEq_eq_not_less set number
  have upper (set : max ≠ .nan) := Double.lessEq_eq_not_less number set
  unfold Inside Outside
  rw [not_or, not_and, not_and]
  apply and_congr
  · apply forall_congr'
    intro set
    rw [lower set, Bool.not_eq_true', Bool.not_eq_true]
  · apply forall_congr'
    intro set
    rw [upper set, Bool.not_eq_true', Bool.not_eq_true]

theorem not_inside_nan (configured : Configured min max) : ¬ Inside min max .nan := by
  rintro ⟨lower, upper⟩
  rcases configured with set | set
  · have below := lower set
    cases min <;> cases below
  · have above := upper set
    cases max <;> cases above

theorem not_outside_nan : ¬ Outside min max .nan := by
  rintro (⟨-, below⟩ | ⟨-, above⟩)
  · cases below
  · cases max <;> cases above

end Ranges

/-- What the manual says about the state of a value. -/
structure Classified (th : Threshold) (value : Double) (state : Int) : Prop where
  failureBound : state = STATE_ERROR → Configured th.failureMin th.failureMax
  warningBound : state = STATE_WARNING → Configured th.warningMin th.warningMax
  failure : th.invert = false → (state = STATE_ERROR ↔ Outside th.failureMin th.failureMax value)
  failureInverted : th.invert = true →
    (state = STATE_ERROR ↔ Configured th.failureMin th.failureMax ∧ Inside th.failureMin th.failureMax value)
  warning : th.invert = false → state ≠ STATE_ERROR →
    (state = STATE_WARNING ↔ Outside th.warningMin th.warningMax value)
  warningInverted : th.invert = true → state ≠ STATE_ERROR →
    (state = STATE_WARNING ↔ Configured th.warningMin th.warningMax ∧ Inside th.warningMin th.warningMax value)

theorem classified_plain (straight : th.invert = false)
    (failure : failing = true ↔ Outside th.failureMin th.failureMax value)
    (warning : warned = true ↔ Outside th.warningMin th.warningMax value) :
    Classified th value (rank failing warned) where
  failureBound failed := (failure.mp (rank_error_iff.mp failed)).configured
  warningBound state := (warning.mp (rank_warning_iff.mp state).2).configured
  failure _ := rank_error_iff.trans failure
  failureInverted inverted := by
    rw [straight] at inverted
    cases inverted
  warning _ fine := by
    have passed : failing = false := by simpa using mt rank_error_iff.mpr fine
    rw [rank_warning_iff, ← warning]
    exact and_iff_right passed
  warningInverted inverted := by
    rw [straight] at inverted
    cases inverted

theorem classified_inverted (inverted : th.invert = true)
    (failure : failing = true ↔ ¬ Outside th.failureMin th.failureMax value)
    (warning : warned = true ↔ ¬ Outside th.warningMin th.warningMax value) :
    Classified th value (rank failing warned) ↔ Configured th.failureMin th.failureMax ∧ value ≠ .nan ∧
      (Configured th.warningMin th.warningMax ∨ Inside th.failureMin th.failureMax value) := by
  constructor
  · intro classified
    have set : Configured th.failureMin th.failureMax := by
      by_cases outside : Outside th.failureMin th.failureMax value
      · exact outside.configured
      · exact classified.failureBound (rank_error_iff.mpr (failure.mpr outside))
    have number : value ≠ .nan := by
      rintro rfl
      have failed : rank failing warned = STATE_ERROR := rank_error_iff.mpr (failure.mpr not_outside_nan)
      exact not_inside_nan set ((classified.failureInverted inverted).mp failed).2
    refine ⟨set, number, ?_⟩
    rw [inside_iff number]
    by_cases outside : Outside th.failureMin th.failureMax value
    · left
      have passed : failing = false := by simpa using mt failure.mp (not_not_intro outside)
      by_cases beyond : Outside th.warningMin th.warningMax value
      · exact beyond.configured
      · exact classified.warningBound (rank_warning_iff.mpr ⟨passed, warning.mpr beyond⟩)
    · exact .inr outside
  · rintro ⟨set, number, other⟩
    rw [inside_iff number] at other
    refine ⟨fun _ => set, ?_, ?_, fun _ => ?_, ?_, fun _ fine => ?_⟩
    · intro state
      obtain ⟨passed, -⟩ := rank_warning_iff.mp state
      apply other.resolve_right
      rw [← failure, passed]
      exact Bool.false_ne_true
    · intro straight
      rw [straight] at inverted
      cases inverted
    · rw [rank_error_iff, failure, inside_iff number]
      exact (and_iff_right set).symm
    · intro straight
      rw [straight] at inverted
      cases inverted
    · have passed : failing = false := by simpa using mt rank_error_iff.mpr fine
      have bound : Configured th.warningMin th.warningMax := by
        apply other.resolve_right
        rw [← failure, passed]
        exact Bool.false_ne_true
      rw [rank_warning_iff, warning, inside_iff number, and_iff_right passed, and_iff_right bound]

/-- Without `Invert` every value is classified as documented. With `Invert` a value is exactly if it is a
number, the failure range has a bound, and the warning range has one or the value is inside the failure range. -/
theorem ut_check_one_threshold_classifies_iff (cache : Cache) (name : CString) (th : Threshold) (value : Double) :
    Classified th value (utCheckOneThreshold cache name { th with hysteresis := .fin 0 } value) ↔
      (th.invert = true → Configured th.failureMin th.failureMax ∧ value ≠ .nan ∧
        (Configured th.warningMin th.warningMax ∨ Inside th.failureMin th.failureMax value)) := by
  have check : utCheckOneThreshold cache name { th with hysteresis := .fin 0 } value =
      rank (outsidePlain th.failureMin th.failureMax value != th.invert)
        (outsidePlain th.warningMin th.warningMax value != th.invert) := utCheckOneThreshold_plain rfl value
  rw [check]
  cases inverted : th.invert with
  | false =>
    refine iff_of_true (classified_plain inverted ?_ ?_) nofun
    all_goals simpa using outsidePlain_iff
  | true =>
    rw [classified_inverted inverted]
    · exact ⟨fun holds _ => holds, fun holds => holds rfl⟩
    all_goals
      rw [← outsidePlain_iff]
      simp

def invertedWarning : Threshold := ⟨.empty, .nan, .fin 10, .nan, .nan, .fin 0, true, false, false, 0⟩

theorem ut_check_one_threshold_inverted_error :
    ¬ Configured invertedWarning.failureMin invertedWarning.failureMax ∧
      utCheckOneThreshold ∅ "load" invertedWarning (.fin 20) = STATE_ERROR ∧
      ¬ Classified invertedWarning (.fin 20)
        (utCheckOneThreshold ∅ "load" { invertedWarning with hysteresis := .fin 0 } (.fin 20)) := by
  have unset : ¬ Configured invertedWarning.failureMin invertedWarning.failureMax := by
    rintro (set | set)
    all_goals exact set rfl
  have failed : utCheckOneThreshold ∅ "load" invertedWarning (.fin 20) = STATE_ERROR := by decide +kernel
  exact ⟨unset, failed, fun classified => unset (classified.failureBound failed)⟩

end NCollectd.Thresholds
