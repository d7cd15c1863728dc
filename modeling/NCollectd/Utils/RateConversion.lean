import NCollectd.Cache.Model

/-! `rate_to_value` and `value_to_rate` of `common.c`. -/

namespace NCollectd

open Option

def EAGAIN : Status := 11

namespace Common

open Finset

/-- The numbers of a counter or derive data source. -/
def Representable (dsType : Nat) (n : Int) : Prop :=
  if dsType = DS_TYPE_COUNTER then 0 ≤ n ∧ n < 2 ^ 64 else -2 ^ 63 ≤ n ∧ n < 2 ^ 63

instance : Decidable (Representable dsType n) := by unfold Representable; infer_instance

def asInteger (dsType : Nat) (n : Int) : Option Int := if Representable dsType n then some n else none

def toInteger (dsType : Nat) : Double → Option Int
  | .fin x => asInteger dsType (if 0 ≤ x then ⌊x⌋ else ⌈x⌉)
  | _ => none

def addInteger (dsType : Nat) (a b : Int) : Option Int :=
  if dsType = DS_TYPE_COUNTER then some ((a + b) % 2 ^ 64) else asInteger dsType (a + b)

def integerValue (dsType : Nat) (n : Int) : Value :=
  if dsType = DS_TYPE_COUNTER then .counter (UInt64.ofNat n.toNat) else .derive n

def integer? (dsType : Nat) : Value → Option Int
  | .counter n => if dsType = DS_TYPE_COUNTER then some n.toNat else none
  | .derive n => if dsType = DS_TYPE_DERIVE then some n else none
  | _ => none

structure RateToValueState where
  lastValue : Value
  lastTime : CdTime
  residual : Double

def RateToValueState.zero : RateToValueState := ⟨.counter 0, 0, .fin 0⟩

/-- The branches for counter and derive data sources differ in the integer type only. -/
def rateToValue (rate : Double) (state : RateToValueState) (dsType : Nat) (t : CdTime) :
    Option (Except Status Value × RateToValueState) :=
  if dsType = DS_TYPE_GAUGE then
    some (.ok (.gauge rate), { state with lastValue := .gauge rate, lastTime := t })
  else if rate.less (.fin 0) && dsType = DS_TYPE_COUNTER then some (.error EINVAL, .zero)
  else if t ≤ state.lastTime then some (.error EINVAL, .zero)
  else
    let deltaT := t - state.lastTime
    let deltaGauge := (rate.mul (cdtimeToDouble deltaT)).add state.residual
    if dsType ≠ DS_TYPE_DERIVE ∧ dsType ≠ DS_TYPE_COUNTER then none
    else if state.lastTime = 0 then
      (toInteger dsType rate).map fun value =>
        (.error EAGAIN, ⟨integerValue dsType value, t, rate.sub (.fin value)⟩)
    else
      (toInteger dsType deltaGauge).bind fun delta => (integer? dsType state.lastValue).bind fun last =>
        (addInteger dsType last delta).map fun value =>
          (.ok (integerValue dsType value), ⟨integerValue dsType value, t, deltaGauge.sub (.fin delta)⟩)

structure ValueToRateState where
  lastValue : Value
  lastTime : CdTime
deriving DecidableEq

def ValueToRateState.zero : ValueToRateState := ⟨.counter 0, 0⟩

def valueToRate (value : Value) (dsType : Nat) (t : CdTime) (state : ValueToRateState) :
    Option (Except Status Double × ValueToRateState) :=
  if t ≤ state.lastTime then some (.error EINVAL, .zero)
  else
    let interval := cdtimeToDouble (t - state.lastTime)
    if state.lastTime = 0 then some (.error EAGAIN, ⟨value, t⟩)
    else if dsType = DS_TYPE_DERIVE then
      (integer? dsType value).bind fun new => (integer? dsType state.lastValue).bind fun old =>
        (asInteger dsType (new - old)).map fun (diff : Int) => (.ok ((Double.fin diff).div interval), ⟨value, t⟩)
    else if dsType = DS_TYPE_GAUGE then value.gauge?.map fun gauge => (.ok gauge, ⟨value, t⟩)
    else if dsType = DS_TYPE_COUNTER then
      value.counter?.bind fun new => state.lastValue.counter?.map fun old =>
        (.ok ((Double.ofNat (counterDiff old new).toNat).div interval), ⟨value, t⟩)
    else some (.error EINVAL, state)

def feedRates (dsType : Nat) (r : ℕ → ℚ) (t : ℕ → CdTime) : ℕ → Option (Except Status Value × RateToValueState)
  | 0 => rateToValue (.fin (r 0)) .zero dsType (t 0)
  | k + 1 => (feedRates dsType r t k).bind fun last => rateToValue (.fin (r (k + 1))) last.2 dsType (t (k + 1))

def feedValues (dsType : Nat) (v : ℕ → Int) (t : ℕ → CdTime) : ℕ → Option (Except Status Double × ValueToRateState)
  | 0 => valueToRate (integerValue dsType (v 0)) dsType (t 0) .zero
  | k + 1 => (feedValues dsType v t k).bind fun last =>
      valueToRate (integerValue dsType (v (k + 1))) dsType (t (k + 1)) last.2

/-- The rates after the first come from `value_to_rate`. -/
def RatesOf (dsType : Nat) (v : ℕ → Int) (t : ℕ → CdTime) (r : ℕ → ℚ) (n : ℕ) : Prop :=
  ∀ k < n, ∃ state, feedValues dsType v t (k + 1) = some (.ok (.fin (r (k + 1))), state)

def seconds (t : CdTime) : ℚ := t.toNat / 1073741824

def total (r : ℕ → ℚ) (t : ℕ → CdTime) (k : ℕ) : ℚ :=
  r 0 + ∑ i ∈ range k, r (i + 1) * (seconds (t (i + 1)) - seconds (t i))

/-- Rates for a counter or derive data source, without overflow. -/
structure RateRun (dsType : Nat) (r : ℕ → ℚ) (t : ℕ → CdTime) (n : ℕ) : Prop where
  integral : dsType = DS_TYPE_COUNTER ∨ dsType = DS_TYPE_DERIVE
  rates : ∀ k ≤ n, 0 ≤ r k
  start : 0 < t 0
  increasing : ∀ k < n, t k < t (k + 1)
  fits : Representable dsType ⌊total r t n⌋

def carried (dsType : Nat) (sum : ℚ) (t : CdTime) : RateToValueState :=
  ⟨integerValue dsType ⌊sum⌋, t, .fin (Int.fract sum)⟩

theorem Representable.of_le (fits : Representable dsType n) (nonneg : 0 ≤ m) (below : m ≤ n) :
    Representable dsType m := by
  unfold Representable at *
  split <;> split at fits <;> omega

theorem cdtimeToDouble_sub (later : last ≤ t) :
    cdtimeToDouble (t - last) = .fin (seconds t - seconds last) := by
  rw [cdtimeToDouble, UInt64.toNat_sub_of_le _ _ later]
  have cast := Nat.cast_sub (R := ℚ) (UInt64.le_iff_toNat_le.mp later)
  simp only [Double.ofNat, Double.div, cast, seconds, sub_div]
  rfl

theorem seconds_lt (later : last < t) : seconds last < seconds t := by
  have := UInt64.lt_iff_toNat_lt.mp later
  simp only [seconds]
  gcongr

section
variable {rate sum : ℚ} (integral : dsType = DS_TYPE_COUNTER ∨ dsType = DS_TYPE_DERIVE)
include integral

theorem integer?_integerValue (fits : Representable dsType n) :
    integer? dsType (integerValue dsType n) = some n := by
  rcases integral with rfl | rfl
  · have bounds : 0 ≤ n ∧ n < 2 ^ 64 := fits
    simp [integer?, integerValue]
    omega
  · simp [integer?, integerValue, DS_TYPE_COUNTER, DS_TYPE_DERIVE]

theorem addInteger_eq (fits : Representable dsType (a + b)) : addInteger dsType a b = some (a + b) := by
  rcases integral with rfl | rfl
  · have bounds : 0 ≤ a + b ∧ a + b < 2 ^ 64 := fits
    rw [addInteger, if_pos rfl, Int.emod_eq_of_lt bounds.1 bounds.2]
  · exact if_pos fits

variable (nonneg : 0 ≤ rate)
include nonneg

theorem rateToValue_accepts : dsType ≠ DS_TYPE_GAUGE ∧ (Double.fin rate).less (.fin 0) = false ∧
    ¬(dsType ≠ DS_TYPE_DERIVE ∧ dsType ≠ DS_TYPE_COUNTER) := by
  refine ⟨?_, decide_eq_false nonneg.not_gt, by tauto⟩
  rcases integral with rfl | rfl <;> decide

theorem rateToValue_first (fits : Representable dsType ⌊rate⌋) (later : 0 < t) :
    rateToValue (.fin rate) .zero dsType t = some (.error EAGAIN, carried dsType rate t) := by
  obtain ⟨gauge, sign, typed⟩ := rateToValue_accepts integral nonneg
  simp only [rateToValue, if_neg gauge, sign, Bool.false_and, Bool.false_eq_true, if_false, if_neg typed,
    RateToValueState.zero, if_neg (UInt64.not_le.mpr later), if_true, toInteger, if_pos nonneg, asInteger,
    if_pos fits, map_some, carried, Double.sub, Double.neg, Double.add, Int.fract, sub_eq_add_neg]

theorem rateToValue_next (sum_nonneg : 0 ≤ sum) (started : 0 < last) (later : last < t)
    (fits : Representable dsType ⌊sum + rate * (seconds t - seconds last)⌋) :
    rateToValue (.fin rate) (carried dsType sum last) dsType t =
      some (.ok (integerValue dsType ⌊sum + rate * (seconds t - seconds last)⌋),
        carried dsType (sum + rate * (seconds t - seconds last)) t) := by
  obtain ⟨gauge, sign, typed⟩ := rateToValue_accepts integral nonneg
  have grows := mul_nonneg nonneg (sub_nonneg.mpr (seconds_lt later).le)
  have delta : rate * (seconds t - seconds last) + Int.fract sum =
      sum + rate * (seconds t - seconds last) - ⌊sum⌋ := by
    rw [Int.fract]
    ring
  generalize next_eq : sum + rate * (seconds t - seconds last) = next at *
  have floored := Int.floor_nonneg.mpr sum_nonneg
  have grown : ⌊sum⌋ ≤ ⌊next⌋ := Int.floor_le_floor (by linarith)
  have converted : toInteger dsType (.fin (next - ⌊sum⌋)) = some (⌊next⌋ - ⌊sum⌋) := by
    rw [toInteger, if_pos (by linarith [Int.floor_le sum]), Int.floor_sub_intCast]
    exact if_pos (fits.of_le (by omega) (by omega))
  have stored : addInteger dsType ⌊sum⌋ (⌊next⌋ - ⌊sum⌋) = some ⌊next⌋ := by
    rw [addInteger_eq integral] <;> rw [add_sub_cancel]
    exact fits
  have residual : (Double.fin (next - ⌊sum⌋)).sub (.fin (⌊next⌋ - ⌊sum⌋ : ℤ)) = .fin (Int.fract next) := by
    rw [Double.sub, Double.neg, Double.add, Int.fract, Int.cast_sub]
    congr 1
    ring
  simp only [rateToValue, if_neg gauge, sign, Bool.false_and, Bool.false_eq_true, if_false, if_neg typed, carried,
    if_neg (UInt64.not_le.mpr later), if_neg (UInt64.ne_of_lt started).symm,
    cdtimeToDouble_sub (UInt64.le_of_lt later),
    Double.mul, Double.add, delta, converted, bind_some, integer?_integerValue integral (fits.of_le floored grown),
    stored, map_some, residual]

end

theorem valueToRate_ok (integral : dsType = DS_TYPE_COUNTER ∨ dsType = DS_TYPE_DERIVE)
    (old_fits : Representable dsType old) (new_fits : Representable dsType new) (grown : old ≤ new)
    (started : 0 < last) (later : last < t)
    (called : valueToRate (integerValue dsType new) dsType t ⟨integerValue dsType old, last⟩ =
      some (.ok (.fin rate), state)) :
    rate * (seconds t - seconds last) = (new - old : ℤ) ∧ state = ⟨integerValue dsType new, t⟩ := by
  have apart : seconds t - seconds last ≠ 0 := (sub_pos.mpr (seconds_lt later)).ne'
  simp only [valueToRate, if_neg (UInt64.not_le.mpr later), if_neg (UInt64.ne_of_lt started).symm,
    cdtimeToDouble_sub (UInt64.le_of_lt later)] at called
  rcases integral with rfl | rfl
  · obtain ⟨old_nonneg, old_below⟩ : 0 ≤ old ∧ old < 2 ^ 64 := old_fits
    obtain ⟨new_nonneg, new_below⟩ : 0 ≤ new ∧ new < 2 ^ 64 := new_fits
    have ordered : UInt64.ofNat old.toNat ≤ UInt64.ofNat new.toNat := by
      rw [UInt64.le_iff_toNat_le, UInt64.toNat_ofNat', UInt64.toNat_ofNat']
      omega
    have diff : ((counterDiff (UInt64.ofNat old.toNat) (UInt64.ofNat new.toNat)).toNat : ℤ) = new - old := by
      rw [counterDiff, if_neg (UInt64.not_lt.mpr ordered), UInt64.toNat_sub_of_le _ _ ordered,
        UInt64.toNat_ofNat', UInt64.toNat_ofNat']
      omega
    obtain ⟨rfl, rfl⟩ : _ / (seconds t - seconds last) = rate ∧ _ = state := by
      simpa [-UInt64.toNat_ofNat', integerValue, DS_TYPE_COUNTER, DS_TYPE_DERIVE, DS_TYPE_GAUGE, Value.counter?,
        Double.ofNat, Double.div, apart] using called
    exact ⟨by rw [div_mul_cancel₀ _ apart, ← diff, Int.cast_natCast], rfl⟩
  · rw [if_pos rfl, integer?_integerValue (.inr rfl) new_fits, integer?_integerValue (.inr rfl) old_fits,
      bind_some, bind_some] at called
    obtain ⟨diff, held, same⟩ := map_eq_some_iff.mp called
    obtain ⟨rfl, rfl⟩ : diff / (seconds t - seconds last) = rate ∧ _ = state := by
      simpa [Double.div, apart] using same
    obtain rfl : new - old = diff := some.inj (ite_none_right_eq_some.mp held).2
    exact ⟨div_mul_cancel₀ _ apart, rfl⟩

theorem total_succ (r : ℕ → ℚ) (t : ℕ → CdTime) (k : ℕ) :
    total r t (k + 1) = total r t k + r (k + 1) * (seconds (t (k + 1)) - seconds (t k)) := by
  rw [total, sum_range_succ, total, add_assoc]

section
variable (run : RateRun dsType r t n)
include run

theorem RateRun.started (inside : k ≤ n) : 0 < t k := by
  induction k with
  | zero => exact run.start
  | succ k ih => exact UInt64.lt_trans (ih (by omega)) (run.increasing k inside)

theorem RateRun.total_le (inside : k < n) : total r t k ≤ total r t (k + 1) := by
  have grows := mul_nonneg (run.rates (k + 1) inside) (sub_nonneg.mpr (seconds_lt (run.increasing k inside)).le)
  rw [total_succ]
  linarith

theorem RateRun.total_nonneg (inside : k ≤ n) : 0 ≤ total r t k := by
  induction k with
  | zero => simpa [total] using run.rates 0 inside
  | succ k ih => exact (ih (by omega)).trans (run.total_le inside)

theorem RateRun.total_fits (inside : k ≤ n) : Representable dsType ⌊total r t k⌋ := by
  induction inside using Nat.decreasingInduction with
  | self => exact run.fits
  | of_succ k inside ih =>
    exact ih.of_le (Int.floor_nonneg.mpr (run.total_nonneg (by omega))) (Int.floor_le_floor (run.total_le inside))

theorem RateRun.feedRates_eq (inside : k ≤ n) :
    feedRates dsType r t k = some (if k = 0 then .error EAGAIN else .ok (integerValue dsType ⌊total r t k⌋),
      carried dsType (total r t k) (t k)) := by
  induction k with
  | zero =>
    have start : total r t 0 = r 0 := by simp [total]
    rw [feedRates, start, if_pos rfl]
    exact rateToValue_first run.integral (run.rates 0 inside) (start ▸ run.total_fits inside) run.start
  | succ k ih =>
    rw [feedRates, ih (by omega), bind_some, if_neg k.succ_ne_zero, total_succ]
    exact rateToValue_next run.integral (run.rates (k + 1) inside) (run.total_nonneg (by omega))
      (run.started (by omega)) (run.increasing k inside) (total_succ r t k ▸ run.total_fits inside)

theorem RateRun.difference (fit : ∀ k ≤ n, Representable dsType (v k)) (grown : ∀ k < n, v k ≤ v (k + 1))
    (rates : RatesOf dsType v t r n) (inside : k < n) :
    r (k + 1) * (seconds (t (k + 1)) - seconds (t k)) = (v (k + 1) - v k : ℤ) ∧
      (feedValues dsType v t (k + 1)).map Prod.snd = some ⟨integerValue dsType (v (k + 1)), t (k + 1)⟩ := by
  have last : (feedValues dsType v t k).map Prod.snd = some ⟨integerValue dsType (v k), t k⟩ := by
    cases k with
    | zero => simp [feedValues, valueToRate, ValueToRateState.zero, UInt64.not_le.mpr run.start]
    | succ k => exact (RateRun.difference fit grown rates (Nat.lt_of_succ_lt inside)).2
  obtain ⟨state, called⟩ := rates k inside
  obtain ⟨⟨result, before⟩, previous, rfl⟩ := map_eq_some_iff.mp last
  rw [called]
  rw [feedValues, previous, bind_some] at called
  obtain ⟨product, rfl⟩ := valueToRate_ok run.integral (fit k (by omega)) (fit (k + 1) inside) (grown k inside)
    (run.started (by omega)) (run.increasing k inside) called
  exact ⟨product, rfl⟩

end

/-- Rates turned into values add up without drift, and values turned into rates and back grow as they did. -/
theorem feedRates_exact (run : RateRun dsType r t n) :
    ∃ (value : ℕ → ℤ) (residual : ℕ → ℚ),
      (∀ k ≤ n, feedRates dsType r t k =
          some (if k = 0 then .error EAGAIN else .ok (integerValue dsType (value k)),
            ⟨integerValue dsType (value k), t k, .fin (residual k)⟩) ∧
        Representable dsType (value k) ∧ value k + residual k = total r t k ∧
        0 ≤ residual k ∧ residual k < 1) ∧
      (∀ k < n, value k ≤ value (k + 1)) ∧
      ∀ v : ℕ → ℤ, (∀ k ≤ n, Representable dsType (v k)) → (∀ k < n, v k ≤ v (k + 1)) → RatesOf dsType v t r n →
        ∀ k < n, value (k + 1) - value k = v (k + 1) - v k := by
  refine ⟨fun k => ⌊total r t k⌋, fun k => Int.fract (total r t k), ?_, ?_, ?_⟩
  · exact fun k inside => ⟨run.feedRates_eq inside, run.total_fits inside, Int.floor_add_fract _,
      Int.fract_nonneg _, Int.fract_lt_one _⟩
  · exact fun k inside => Int.floor_le_floor (run.total_le inside)
  · intro v fit grown rates k inside
    simp only [total_succ, (run.difference fit grown rates inside).1, Int.floor_add_intCast]
    omega

theorem feedRates_exact_threes :
    let r : ℕ → ℚ := fun _ => 3 / 2
    let t : ℕ → CdTime := fun k => 2147483648 * UInt64.ofNat (k + 1)
    RatesOf DS_TYPE_DERIVE (fun k => 3 * k) t r 2 ∧
      ∃ (value : ℕ → ℤ) (residual : ℚ), feedRates DS_TYPE_DERIVE r t 2 =
        some (.ok (.derive (value 2)), ⟨.derive (value 2), t 2, .fin residual⟩) ∧
        value 2 + residual = 15 / 2 ∧ value 2 - value 1 = 3 := by
  intro r t
  have sum : total r t 2 = 15 / 2 := by decide +kernel
  have run : RateRun DS_TYPE_DERIVE r t 2 :=
    ⟨.inr rfl, fun _ _ => by norm_num [r], by decide, by decide, by rw [sum]; decide +kernel⟩
  have rates : RatesOf DS_TYPE_DERIVE (fun k => 3 * k) t r 2
    | 0, _ => ⟨⟨.derive 3, t 1⟩, by decide +kernel⟩
    | 1, _ => ⟨⟨.derive 6, t 2⟩, by decide +kernel⟩
  obtain ⟨value, residual, stored, -, differ⟩ := feedRates_exact run
  obtain ⟨fed, -, stored_sum, -⟩ := stored 2 (le_refl 2)
  exact ⟨rates, value, residual 2, fed, stored_sum.trans sum,
    differ (fun k => 3 * k) (by decide) (by decide) rates 1 (by decide)⟩

end Common

end NCollectd
