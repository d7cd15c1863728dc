import NCollectd.Metric.Model

/-! The conversions of `utils_time.h` between `cdtime_t` and other units of time. -/

namespace NCollectd.Time

def secondsHalf (unit n : UInt64) : UInt64 := (n / unit) <<< 30

def fractionHalf (unit n : UInt64) : UInt64 := ((n % unit) <<< 30 + unit / 2) / unit

def toCdtime (unit n : UInt64) : CdTime := secondsHalf unit n ||| fractionHalf unit n

def subseconds (unit : UInt64) (t : CdTime) : UInt64 := ((t &&& (0x3fffffff : UInt64)) * unit + 0x20000000) >>> 30

def fromCdtime (unit : UInt64) (t : CdTime) : UInt64 := (t >>> 30) * unit + subseconds unit t

def msToCdtime : UInt64 → CdTime := toCdtime 1000
def usToCdtime : UInt64 → CdTime := toCdtime 1000000
def nsToCdtime : UInt64 → CdTime := toCdtime 1000000000
def cdtimeToMs : CdTime → UInt64 := fromCdtime 1000
def cdtimeToUs : CdTime → UInt64 := fromCdtime 1000000
def cdtimeToNs : CdTime → UInt64 := fromCdtime 1000000000

section
variable {unit n : UInt64} (known : unit = 1000 ∨ unit = 1000000 ∨ unit = 1000000000)
include known

theorem toNat_fractionHalf : (fractionHalf unit n).toNat =
      (n.toNat % unit.toNat * 2 ^ 30 + unit.toNat / 2) / unit.toNat ∧ (fractionHalf unit n).toNat < 2 ^ 30 := by
  rcases known with rfl | rfl | rfl <;>
    simp [fractionHalf, UInt64.toNat_div, UInt64.toNat_add, UInt64.toNat_shiftLeft,
      UInt64.toNat_mod, Nat.shiftLeft_eq] <;>
    omega

theorem toNat_secondsHalf (early : n.toNat < 2 ^ 34 * unit.toNat) :
    (secondsHalf unit n).toNat = n.toNat / unit.toNat * 2 ^ 30 := by
  rcases known with rfl | rfl | rfl <;>
    simp [secondsHalf, UInt64.toNat_div, UInt64.toNat_shiftLeft, Nat.shiftLeft_eq] at early ⊢ <;>
    omega

theorem toNat_toCdtime (early : n.toNat < 2 ^ 34 * unit.toNat) : (toCdtime unit n).toNat =
    n.toNat / unit.toNat * 2 ^ 30 + (n.toNat % unit.toNat * 2 ^ 30 + unit.toNat / 2) / unit.toNat := by
  obtain ⟨fraction, small⟩ := toNat_fractionHalf (n := n) known
  rw [toCdtime, UInt64.toNat_or, toNat_secondsHalf known early, ← Nat.shiftLeft_eq,
    ← Nat.shiftLeft_add_eq_or_of_lt small,
    Nat.shiftLeft_eq, fraction]

theorem toNat_subseconds (t : CdTime) :
    (subseconds unit t).toNat = (t.toNat % 2 ^ 30 * unit.toNat + 2 ^ 29) / 2 ^ 30 := by
  have mask := Nat.and_two_pow_sub_one_eq_mod t.toNat 30
  rcases known with rfl | rfl | rfl <;>
    simp [subseconds, UInt64.toNat_shiftRight, UInt64.toNat_add, UInt64.toNat_mul, Nat.shiftRight_eq_div_pow, mask] <;>
    omega

theorem toNat_fromCdtime (t : CdTime) : (fromCdtime unit t).toNat =
    t.toNat / 2 ^ 30 * unit.toNat + (t.toNat % 2 ^ 30 * unit.toNat + 2 ^ 29) / 2 ^ 30 := by
  have bound := t.toNat_lt
  have rest := toNat_subseconds known t
  rw [fromCdtime, UInt64.toNat_add, rest]
  rcases known with rfl | rfl | rfl <;>
    simp [UInt64.toNat_shiftRight, UInt64.toNat_mul, Nat.shiftRight_eq_div_pow] <;> omega

end

/-- A pair of conversions for a unit, on the times before 2³⁴ seconds. -/
structure Converts (unit : UInt64) (into : UInt64 → CdTime) (out : CdTime → UInt64) : Prop where
  back : ∀ n, n.toNat < 2 ^ 34 * unit.toNat → out (into n) = n
  disjoint : ∀ n, n.toNat < 2 ^ 34 * unit.toNat →
    secondsHalf unit n ||| fractionHalf unit n = secondsHalf unit n + fractionHalf unit n ∧
      fractionHalf unit n < 2 ^ 30
  into_mono : ∀ m n, m ≤ n → n.toNat < 2 ^ 34 * unit.toNat → into m ≤ into n
  out_mono : ∀ s t, s ≤ t → out s ≤ out t

theorem converts (known : unit = 1000 ∨ unit = 1000000 ∨ unit = 1000000000) :
    Converts unit (toCdtime unit) (fromCdtime unit) := by
  refine ⟨fun n early => ?_, fun n early => ⟨?_, ?_⟩, fun m n below early => ?_, fun s t below => ?_⟩
  · obtain ⟨fraction, small⟩ := toNat_fractionHalf (n := n) known
    rw [fraction] at small
    rw [← UInt64.toNat_inj, toNat_fromCdtime known, toNat_toCdtime known early, mul_comm _ (2 ^ 30),
      Nat.mul_add_div (by decide), Nat.mul_add_mod, Nat.div_eq_of_lt small, Nat.mod_eq_of_lt small]
    rcases known with rfl | rfl | rfl <;> simp <;> omega
  · obtain ⟨fraction, small⟩ := toNat_fractionHalf (n := n) known
    rw [← UInt64.toNat_inj, ← toCdtime, UInt64.toNat_add, toNat_toCdtime known early, toNat_secondsHalf known early,
      fraction]
    rcases known with rfl | rfl | rfl <;> simp at early fraction ⊢ <;> omega
  · rw [UInt64.lt_iff_toNat_lt]
    exact (toNat_fractionHalf known).2
  · rw [UInt64.le_iff_toNat_le] at below ⊢
    rw [toNat_toCdtime known early, toNat_toCdtime known (lt_of_le_of_lt below early)]
    rcases known with rfl | rfl | rfl <;> simp <;> omega
  · rw [UInt64.le_iff_toNat_le] at below ⊢
    rw [toNat_fromCdtime known, toNat_fromCdtime known]
    rcases known with rfl | rfl | rfl <;> simp <;> omega

/-- Milliseconds, microseconds and nanoseconds survive the conversion to `cdtime_t` and back. -/
theorem cdtime_conversions_round_trip : Converts 1000 msToCdtime cdtimeToMs ∧
    Converts 1000000 usToCdtime cdtimeToUs ∧ Converts 1000000000 nsToCdtime cdtimeToNs :=
  ⟨converts (.inl rfl), converts (.inr (.inl rfl)), converts (.inr (.inr rfl))⟩

structure Timeval where
  tvSec : Int
  tvUsec : Int

structure Timespec where
  tvSec : Int
  tvNsec : Int

def cdtimeToTimeval (t : CdTime) : Timeval := ⟨(t >>> 30).toNat, (subseconds 1000000 t).toNat⟩
def timevalToCdtime (tv : Timeval) : CdTime := usToCdtime (.ofInt (1000000 * tv.tvSec + tv.tvUsec))
def cdtimeToTimespec (t : CdTime) : Timespec := ⟨(t >>> 30).toNat, (subseconds 1000000000 t).toNat⟩
def timespecToCdtime (ts : Timespec) : CdTime := nsToCdtime (.ofInt (1000000000 * ts.tvSec + ts.tvNsec))

/-- Two times differ by at most so many units of 2⁻³⁰ seconds. -/
def Within (limit : Nat) (s t : CdTime) : Prop := s.toNat ≤ t.toNat + limit ∧ t.toNat ≤ s.toNat + limit

theorem ofInt_toNat (x : UInt64) : UInt64.ofInt x.toNat = x := by
  apply UInt64.toNat.inj
  have bound := x.toNat_lt
  simp [UInt64.ofInt]
  omega

theorem ofInt_join (unit seconds rest : UInt64) (same : factor = (unit.toNat : Int)) :
    UInt64.ofInt (factor * seconds.toNat + rest.toNat) = seconds * unit + rest := by
  rw [same, UInt64.mul_comm]
  rw [UInt64.ofInt_add, UInt64.ofInt_mul, ofInt_toNat, ofInt_toNat, ofInt_toNat]

theorem toCdtime_fromCdtime (known : unit = 1000 ∨ unit = 1000000 ∨ unit = 1000000000) (t : CdTime)
    (less : (subseconds unit t).toNat < unit.toNat) : (toCdtime unit (fromCdtime unit t)).toNat =
      t.toNat / 2 ^ 30 * 2 ^ 30 + ((subseconds unit t).toNat * 2 ^ 30 + unit.toNat / 2) / unit.toNat := by
  have total := toNat_fromCdtime known t
  rw [← toNat_subseconds known] at total
  have positive : 0 < unit.toNat := Nat.zero_lt_of_lt less
  have seconds : t.toNat / 2 ^ 30 < 2 ^ 34 := Nat.div_lt_of_lt_mul t.toNat_lt
  have early : (fromCdtime unit t).toNat < 2 ^ 34 * unit.toNat := by
    rw [total]
    calc _ < t.toNat / 2 ^ 30 * unit.toNat + unit.toNat := Nat.add_lt_add_left less _
      _ = (t.toNat / 2 ^ 30 + 1) * unit.toNat := (Nat.succ_mul ..).symm
      _ ≤ _ := Nat.mul_le_mul_right _ seconds
  rw [toNat_toCdtime known early, total, mul_comm _ unit.toNat, Nat.mul_add_div positive, Nat.mul_add_mod,
    Nat.div_eq_of_lt less, Nat.mod_eq_of_lt less, add_zero]

/-- Half a nanosecond is rounded to one unit, half a microsecond to 537 units. -/
theorem timeval_normalized_iff (t : CdTime) :
    (0 ≤ (cdtimeToTimespec t).tvNsec ∧ (cdtimeToTimespec t).tvNsec < 1000000000 ∧
      Within 1 (timespecToCdtime (cdtimeToTimespec t)) t) ∧
    (0 ≤ (cdtimeToTimeval t).tvUsec ∧ (cdtimeToTimeval t).tvUsec < 1000000 ∧
      Within 537 (timevalToCdtime (cdtimeToTimeval t)) t ↔ t.toNat % 2 ^ 30 < 2 ^ 30 - 536) := by
  have nanos := toNat_subseconds (.inr (.inr rfl)) t
  have micros := toNat_subseconds (.inr (.inl rfl)) t
  have nanosBack := toCdtime_fromCdtime (.inr (.inr rfl)) t
  have microsBack := toCdtime_fromCdtime (.inr (.inl rfl)) t
  have ns : timespecToCdtime (cdtimeToTimespec t) = toCdtime 1000000000 (fromCdtime 1000000000 t) := by
    rw [timespecToCdtime, nsToCdtime, cdtimeToTimespec, ofInt_join 1000000000 _ _ (by simp), fromCdtime]
  have us : timevalToCdtime (cdtimeToTimeval t) = toCdtime 1000000 (fromCdtime 1000000 t) := by
    rw [timevalToCdtime, usToCdtime, cdtimeToTimeval, ofInt_join 1000000 _ _ (by simp), fromCdtime]
  rw [ns, us, Within, Within, cdtimeToTimespec, cdtimeToTimeval]
  simp only [show (1000000 : UInt64).toNat = 1000000 from rfl, show (1000000000 : UInt64).toNat = 1000000000 from rfl]
    at nanos micros nanosBack microsBack
  dsimp only
  refine ⟨⟨by omega, by omega, ?_⟩, fun ⟨_, less, _⟩ => by omega, fun low => ⟨by omega, by omega, ?_⟩⟩
  · rw [nanosBack (by omega)]
    omega
  · rw [microsBack (by omega)]
    omega

theorem timeval_not_normalized : (cdtimeToTimeval 1073741823).tvUsec = 1000000 := by decide

end NCollectd.Time
