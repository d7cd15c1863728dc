import NCollectd.Base.Libc

/-! Dropping of metrics while the write queue is long. -/

namespace NCollectd.Overload

open MeasureTheory Option

def addLong (a b : Int) : Option Int :=
  if -2 ^ 63 ≤ a + b ∧ a + b < 2 ^ 63 then some (a + b) else none

/-- `write_limit_low` and `write_limit_high`. -/
structure Limits where
  low : Int
  high : Int
  ordered : low ≤ high
  lowest : -2 ^ 63 ≤ low
  highest : high < 2 ^ 63

def Limits.init (optionHigh : Int64) (optionLow : Option Int64) : Limits :=
  let high := if optionHigh.toInt < 0 then 0 else optionHigh.toInt
  let low := (optionLow.map Int64.toInt).getD (high / 2)
  have top : optionHigh.toInt < 2 ^ 63 := optionHigh.toInt_lt
  have positive : 0 ≤ high := by
    simp only [high]
    omega
  have bounded : high < 2 ^ 63 := by
    simp only [high]
    omega
  if negative : low < 0 then ⟨high / 2, high, by omega, by omega, bounded⟩
  else if above : low > high then ⟨high, high, Int.le_refl high, by omega, bounded⟩
  else ⟨low, high, by omega, by omega, bounded⟩

def getDropProbability (limits : Limits) (wql : Int) : Option ℚ := do
  if wql < limits.low then return 0
  if wql ≥ limits.high then return 1
  let pos ← (addLong 1 wql).bind fun sum => addLong sum (-limits.low)
  let size ← (addLong 1 limits.high).bind fun sum => addLong sum (-limits.low)
  return (pos : ℚ) / (size : ℚ)

def reportDrops (free : Bool) (now lastMessageTime : UInt64) (p : ℚ) : UInt64 × Option ℚ :=
  if free ∧ now - lastMessageTime > 2 ^ 30 then (now, some (100 * p)) else (lastMessageTime, none)

def checkDropValue [Field K] [LinearOrder K] (limits : Limits) (wql : Int) (free : Bool)
    (now lastMessageTime : UInt64) (q : K) : Option (Bool × UInt64 × Option ℚ) := do
  if limits.high = 0 then return (false, lastMessageTime, none)
  let p ← getDropProbability limits wql
  if p = 0 then return (false, lastMessageTime, none)
  let reported := reportDrops free now lastMessageTime p
  if p = 1 then return (true, reported)
  return (decide (q > (p : K)), reported)

variable {limits : Limits}

/-- The sums of the probability are `long` values. -/
def Limits.Fits (limits : Limits) : Prop := 1 + limits.high < 2 ^ 63 ∧ 1 + limits.high - limits.low < 2 ^ 63

theorem getDropProbability_below (below : wql < limits.low) : getDropProbability limits wql = some 0 := by
  rw [getDropProbability, if_pos below]
  rfl

theorem getDropProbability_above (above : limits.high ≤ wql) : getDropProbability limits wql = some 1 := by
  have low := limits.ordered
  rw [getDropProbability, if_neg (by omega), if_pos above]
  rfl

def Limits.chance (limits : Limits) (wql : Int) : ℚ :=
  ((1 + wql - limits.low : Int) : ℚ) / ((1 + limits.high - limits.low : Int) : ℚ)

theorem getDropProbability_between (least : limits.low ≤ wql) (less : wql < limits.high) (fits : limits.Fits) :
    getDropProbability limits wql = some (limits.chance wql) := by
  obtain ⟨sum, size⟩ := fits
  have lowest := limits.lowest
  have first : ∀ length, limits.low ≤ length → length ≤ limits.high →
      ((addLong 1 length).bind fun sum => addLong sum (-limits.low)) = some (1 + length - limits.low) := by
    intro length least most
    rw [addLong, if_pos (by omega), bind_some, addLong, if_pos (by omega), Int.sub_eq_add_neg]
  rw [getDropProbability, if_neg (by omega), if_neg (by omega), first wql least (by omega),
    first limits.high limits.ordered (Int.le_refl _)]
  rfl

theorem getDropProbability_overflow (least : limits.low ≤ wql) (less : wql < limits.high) (large : ¬ limits.Fits) :
    getDropProbability limits wql = none := by
  have second : ((addLong 1 limits.high).bind fun sum => addLong sum (-limits.low)) = none := by
    unfold Limits.Fits at large
    by_cases sum : 1 + limits.high < 2 ^ 63
    · have lowest := limits.lowest
      rw [addLong, if_pos (by omega), bind_some, addLong, if_neg (by omega)]
    · rw [addLong, if_neg (by omega)]
      rfl
  rw [getDropProbability, if_neg (by omega), if_neg (by omega), second]
  cases (addLong 1 wql).bind fun sum => addLong sum (-limits.low) <;> rfl

def decision [Field K] [LinearOrder K] (p : ℚ) (q : K) : Bool :=
  if p = 0 then false else if p = 1 then true else decide ((p : K) < q)

theorem checkDropValue_decision [Field K] [LinearOrder K] (positive : 0 < limits.high) (q : K) :
    (checkDropValue limits wql free now last q).map Prod.fst =
      (getDropProbability limits wql).map fun p => decision p q := by
  rw [checkDropValue, if_neg (Int.ne_of_gt positive)]
  cases getDropProbability limits wql with
  | none => rfl
  | some p =>
    simp only [decision, bind_eq_bind, bind_some, map_some]
    split
    · rfl
    · split <;> rfl

def dropped (limits : Limits) (wql : Int) (free : Bool) (now last : UInt64) : Set ℝ :=
  { q | q ∈ Set.Ico 0 1 ∧ (checkDropValue limits wql free now last q).map Prod.fst = some true }

/-- At a queue length a decision is made, and the fraction of dropped metrics is the probability. -/
def Proportional (limits : Limits) (wql : Int) : Prop :=
  ∃ p, getDropProbability limits wql = some p ∧
    ∀ free now last, volume (dropped limits wql free now last) = ENNReal.ofReal p

/-- What is dropped at one queue length is dropped at another one with the same random number. -/
def DropsMore (limits : Limits) (first second : Int) : Prop :=
  ∀ free now last free' now' last',
    dropped limits first free now last ⊆ dropped limits second free' now' last'

/-- No metric is dropped by chance at a queue length, or each with probability one half. -/
def Halfway (limits : Limits) (wql : Int) : Prop :=
  wql < limits.low ∨ limits.high ≤ wql ∨ limits.Fits ∧ 2 * (1 + wql - limits.low) = 1 + limits.high - limits.low

section

variable (positive : 0 < limits.high)
include positive

theorem dropped_eq (probability : getDropProbability limits wql = some p) :
    dropped limits wql free now last = { q | q ∈ Set.Ico 0 1 ∧ decision p q = true } := by
  simp [dropped, checkDropValue_decision positive, probability]

theorem dropped_below (below : wql < limits.low) : dropped limits wql free now last = ∅ := by
  rw [dropped_eq positive (getDropProbability_below below)]
  simp [decision]

theorem dropped_above (above : limits.high ≤ wql) : dropped limits wql free now last = Set.Ico 0 1 := by
  rw [dropped_eq positive (getDropProbability_above above)]
  ext q
  simp [decision]

theorem dropped_between (probability : getDropProbability limits wql = some p) (least : 0 < p) (less : p < 1)
    : dropped limits wql free now last = Set.Ioo (p : ℝ) 1 := by
  rw [dropped_eq positive probability]
  ext q
  have inside : (0 : ℝ) < p := Rat.cast_pos.mpr least
  simp only [decision, if_neg (ne_of_gt least), if_neg (ne_of_lt less), decide_eq_true_eq, Set.mem_ofPred_eq,
    Set.mem_Ico, Set.mem_Ioo]
  constructor
  · rintro ⟨⟨_, small⟩, above⟩
    exact ⟨above, small⟩
  · rintro ⟨above, small⟩
    exact ⟨⟨le_of_lt (lt_trans inside above), small⟩, above⟩

end

theorem volume_eq_iff {p : ℚ} (least : 0 < p) (less : p < 1) :
    volume (Set.Ioo (p : ℝ) 1) = ENNReal.ofReal p ↔ p = 1 / 2 := by
  have bound : (0 : ℝ) ≤ 1 - p := sub_nonneg.mpr (by exact_mod_cast le_of_lt less)
  rw [Real.volume_Ioo, ENNReal.ofReal_eq_ofReal_iff bound (by exact_mod_cast le_of_lt least)]
  constructor
  · intro equal
    have equal : 1 - p = p := by exact_mod_cast equal
    linarith
  · rintro rfl
    norm_num

theorem chance_bounds (least : limits.low ≤ wql) (less : wql < limits.high) :
    0 < limits.chance wql ∧ limits.chance wql < 1 := by
  have pos : (0 : ℚ) < (1 + wql - limits.low : Int) := by exact_mod_cast (by omega : 0 < 1 + wql - limits.low)
  have size : (0 : ℚ) < (1 + limits.high - limits.low : Int) := by
    exact_mod_cast (by omega : 0 < 1 + limits.high - limits.low)
  refine ⟨div_pos pos size, (div_lt_one size).mpr ?_⟩
  exact_mod_cast (by omega : 1 + wql - limits.low < 1 + limits.high - limits.low)

theorem chance_half_iff (least : limits.low ≤ wql) (less : wql < limits.high) :
    limits.chance wql = 1 / 2 ↔ 2 * (1 + wql - limits.low) = 1 + limits.high - limits.low := by
  have size : ((1 + limits.high - limits.low : Int) : ℚ) ≠ 0 := by
    exact_mod_cast (by omega : 1 + limits.high - limits.low ≠ 0)
  rw [Limits.chance, div_eq_div_iff size two_ne_zero]
  constructor
  · intro equal
    have equal : (1 + wql - limits.low) * 2 = 1 * (1 + limits.high - limits.low) := by exact_mod_cast equal
    omega
  · intro equal
    rw [← equal]
    push_cast
    ring

theorem proportional_iff (positive : 0 < limits.high) : Proportional limits wql ↔ Halfway limits wql := by
  by_cases below : wql < limits.low
  · refine iff_of_true ⟨0, getDropProbability_below below, fun free now last => ?_⟩ (.inl below)
    rw [dropped_below positive below]
    simp
  by_cases above : limits.high ≤ wql
  · refine iff_of_true ⟨1, getDropProbability_above above, fun free now last => ?_⟩ (.inr (.inl above))
    rw [dropped_above positive above]
    simp
  have least : limits.low ≤ wql := Int.not_lt.mp below
  have less : wql < limits.high := Int.not_le.mp above
  by_cases fits : limits.Fits
  · obtain ⟨inside, small⟩ := chance_bounds least less
    have probability := getDropProbability_between least less fits
    have half := chance_half_iff least less
    constructor
    · rintro ⟨p, found, fraction⟩
      cases probability.symm.trans found
      have volume := fraction false 0 0
      rw [dropped_between positive probability inside small, volume_eq_iff inside small] at volume
      exact .inr (.inr ⟨fits, half.mp volume⟩)
    · rintro (low | high | ⟨_, middle⟩)
      · omega
      · omega
      · refine ⟨_, probability, fun free now last => ?_⟩
        rw [dropped_between positive probability inside small, volume_eq_iff inside small]
        exact half.mpr middle
  · refine iff_of_false ?_ ?_
    · rintro ⟨p, found, _⟩
      rw [getDropProbability_overflow least less fits] at found
      cases found
    · rintro (low | high | ⟨room, _⟩)
      · omega
      · omega
      · exact fits room

theorem dropsMore_of_halfway (positive : 0 < limits.high) {first second : Int} (longer : first ≤ second)
    (here : Halfway limits first) (there : Halfway limits second) : DropsMore limits first second := by
  intro free now last free' now' last'
  by_cases below : first < limits.low
  · rw [dropped_below positive below]
    exact Set.empty_subset _
  by_cases above : limits.high ≤ second
  · rw [dropped_above positive above]
    exact fun q dropped => dropped.1
  have same : first = second := by
    unfold Halfway at here there
    omega
  subst same
  intro q inside
  simpa only [dropped, checkDropValue_decision positive] using inside

/-- The decisions are monotone and proportional only where chance plays no part or half way between the limits. -/
theorem overload_drops_iff (limits : Limits) (positive : 0 < limits.high) (first second : Int)
    (longer : first ≤ second) :
    (DropsMore limits first second ∧ Proportional limits first ∧ Proportional limits second) ↔
      Halfway limits first ∧ Halfway limits second := by
  rw [proportional_iff positive, proportional_iff positive]
  constructor
  · exact fun law => law.2
  · exact fun law => ⟨dropsMore_of_halfway positive longer law.1 law.2, law⟩

theorem overload_drops_half : DropsMore ⟨10, 11, by decide, by decide, by decide⟩ 10 11 ∧
    Proportional ⟨10, 11, by decide, by decide, by decide⟩ 10 ∧
    Proportional ⟨10, 11, by decide, by decide, by decide⟩ 11 :=
  (overload_drops_iff ⟨10, 11, by decide, by decide, by decide⟩ (by decide) 10 11 (by decide)).mpr
    ⟨.inr (.inr ⟨⟨by decide, by decide⟩, by decide⟩), .inr (.inl (by decide))⟩

theorem longer_queue_keeps_metric :
    let limits : Limits := ⟨0, 3, by decide, by decide, by decide⟩
    getDropProbability limits 0 = some (1 / 4) ∧ getDropProbability limits 2 = some (3 / 4) ∧
      checkDropValue limits 0 false 0 0 (1 / 2 : ℚ) = some (true, 0, none) ∧
      checkDropValue limits 2 false 0 0 (1 / 2 : ℚ) = some (false, 0, none) ∧
      ¬ DropsMore limits 0 2 ∧ ¬ Proportional limits 0 := by
  intro limits
  have first : getDropProbability limits 0 = some (1 / 4) := by decide +kernel
  have second : getDropProbability limits 2 = some (3 / 4) := by decide +kernel
  refine ⟨first, second, by decide +kernel, by decide +kernel, fun more => ?_, fun fraction => ?_⟩
  · have inside : (1 / 2 : ℝ) ∈ dropped limits 0 false 0 0 := by
      rw [dropped_between (by decide) first (by norm_num) (by norm_num)]
      constructor <;> norm_num
    have outside := more false 0 0 false 0 0 inside
    rw [dropped_between (by decide) second (by norm_num) (by norm_num)] at outside
    exact absurd outside.1 (by norm_num)
  · rcases (proportional_iff (by decide)).mp fraction with below | above | ⟨_, middle⟩
    · exact absurd below (by decide)
    · exact absurd above (by decide)
    · exact absurd middle (by decide)

end NCollectd.Overload
