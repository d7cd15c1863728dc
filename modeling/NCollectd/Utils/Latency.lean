import NCollectd.Metric.Model

/-! The latency histogram of `utils/latency/latency.c`. -/

namespace NCollectd.Latency

open Function List Option

def histogramNumBins : Nat := 1000
def defaultBinWidth : Nat := 2 ^ 20

structure LatencyCounter where
  startTime : Nat
  sum : Nat
  num : Nat
  min : Nat
  max : Nat
  binWidth : Nat
  histogram : Nat → Int

def addInt (a b : Int) : Option Int := if a + b < 2 ^ 31 then some (a + b) else none

def moveBin (oldWidth newWidth i : Nat) (histogram : Nat → Int) : Option (Nat → Int) :=
  let newBin := i * oldWidth / newWidth
  if i = newBin then some histogram
  else if newBin < i then
    (addInt (histogram newBin) (histogram i)).map fun count => update (update histogram newBin count) i 0
  else none

def moveBins (oldWidth newWidth : Nat) : Nat → (Nat → Int) → Option (Nat → Int)
  | 0, histogram => some histogram
  | i + 1, histogram => (moveBins oldWidth newWidth i histogram).bind (moveBin oldWidth newWidth i)

def requiredBinWidth (latency : Nat) : Nat := 2 ^ Nat.clog 2 ((latency + histogramNumBins) / histogramNumBins)

def changeBinWidth (lc : LatencyCounter) (latency : Nat) : Option LatencyCounter :=
  let newWidth := requiredBinWidth latency
  if 0 < lc.num then
    (moveBins lc.binWidth newWidth histogramNumBins lc.histogram).map fun histogram =>
      { lc with binWidth := newWidth, histogram := histogram }
  else some { lc with binWidth := newWidth }

def binOf (width latency : Nat) : Nat := (latency - 1) / width

def recordLatency (lc : LatencyCounter) (latency : Nat) : LatencyCounter :=
  let first := lc.min = 0 ∧ lc.max = 0
  let min := if first then latency else lc.min
  let max := if first then latency else lc.max
  { lc with
    sum := (lc.sum + latency) % 2 ^ 64
    num := lc.num + 1
    min := if latency < min then latency else min
    max := if max < latency then latency else max }

def countBin (lc : LatencyCounter) (bin : Nat) : Option LatencyCounter :=
  (addInt (lc.histogram bin) 1).map fun count => { lc with histogram := update lc.histogram bin count }

def latencyCounterAdd (lc : LatencyCounter) (latency : Nat) : Option LatencyCounter :=
  if latency = 0 ∨ 2 ^ 63 - 1 < latency then some lc
  else
    let lc := recordLatency lc latency
    let bin := binOf lc.binWidth latency
    if histogramNumBins ≤ bin then
      (changeBinWidth lc latency).bind fun lc =>
        let bin := binOf lc.binWidth latency
        if histogramNumBins ≤ bin then some lc else countBin lc bin
    else countBin lc bin

def latencyCounterReset (lc : LatencyCounter) (now : Nat) : LatencyCounter :=
  let maxBin := (if lc.max = 0 then 2 ^ 64 - 1 else lc.max - 1) / lc.binWidth
  let binWidth := if 0 < lc.num ∧ 2 * defaultBinWidth ≤ lc.binWidth ∧ maxBin < histogramNumBins / 4 then
    lc.binWidth / 2
    else lc.binWidth
  ⟨now, 0, 0, 0, 0, binWidth, fun _ => 0⟩

def latencyCounterCreate (now : Nat) : LatencyCounter :=
  latencyCounterReset ⟨0, 0, 0, 0, 0, defaultBinWidth, fun _ => 0⟩ now

inductive LatencyCall where
  | add (latency : Nat)
  | reset (now : Nat)

def latencyStep (lc : LatencyCounter) : LatencyCall → Option LatencyCounter
  | .add latency => latencyCounterAdd lc latency
  | .reset now => some (latencyCounterReset lc now)

def accepted : List LatencyCall → List Nat :=
  foldl (fun seen call =>
    match call with
    | .add latency => if latency = 0 ∨ 2 ^ 63 - 1 < latency then seen else latency :: seen
    | .reset _ => []) []

/-- What a counter has of the latencies since the last reset. -/
structure Counts (lc : LatencyCounter) (seen : List Nat) : Prop where
  width : ∃ k ≤ 34, lc.binWidth = defaultBinWidth * 2 ^ k
  bins : ∀ bin, lc.histogram bin = (seen.map (binOf lc.binWidth)).count bin
  inside : ∀ latency ∈ seen, 0 < latency ∧ binOf lc.binWidth latency < histogramNumBins
  num : lc.num = seen.length
  sum : lc.sum = seen.sum % 2 ^ 64
  min : lc.min = seen.min?.getD 0
  max : lc.max = seen.max?.getD 0

variable {latency : Nat}

theorem countP_below_succ (bins : List Nat) (n r j : Nat) :
    bins.countP (fun b => b < n + 1 ∧ b / r = j) =
      bins.countP (fun b => b < n ∧ b / r = j) + if n / r = j then bins.count n else 0 := by
  induction bins with
  | nil => simp
  | cons b bins ih =>
    simp only [countP_cons, count_cons, ih]
    grind

theorem addInt_eq (fits : a + b < 2 ^ 31 ∨ (addInt a b).isSome) : addInt a b = some (a + b) := by
  unfold addInt at *
  split <;> simp_all

theorem moveBins_spec {bins : List Nat} (positive : 0 < width) (wider : 2 ≤ r) {histogram : Nat → Int}
    (counted : ∀ j, histogram j = bins.count j) (n : Nat)
    (fits : bins.length < 2 ^ 31 ∨ (moveBins width (width * r) n histogram).isSome) :
    ∃ merged, moveBins width (width * r) n histogram = some merged ∧
      ∀ j, merged j = if j < n then bins.countP (fun b => b < n ∧ b / r = j) else bins.count j := by
  induction n with
  | zero => exact ⟨histogram, rfl, by simpa using counted⟩
  | succ n ih =>
    obtain ⟨merged, done, at_bin⟩ := ih (fits.imp_right isSome_of_isSome_bind)
    rw [moveBins, done, bind_some, moveBin, mul_comm n, Nat.mul_div_mul_left _ _ positive] at fits ⊢
    by_cases first : n = n / r
    · obtain rfl : n = 0 := by
        by_contra some_bin
        exact absurd first (Nat.div_lt_self (pos_of_ne_zero some_bin) wider).ne'
      refine ⟨merged, if_pos first, fun j => ?_⟩
      rw [at_bin, countP_below_succ]
      rcases j with _ | j <;> simp
    · have below : n / r < n := lt_of_le_of_ne (Nat.div_le_self n r) (Ne.symm first)
      have total := countP_below_succ bins n r (n / r)
      have bound := countP_le_length (p := fun b => decide (b < n + 1 ∧ b / r = n / r)) (l := bins)
      have sum : merged (n / r) + merged n = bins.countP (fun b => b < n + 1 ∧ b / r = n / r) := by
        rw [at_bin, at_bin, if_pos below, if_neg (lt_irrefl n), total, if_pos rfl]
        push_cast
        rfl
      rw [if_neg first, if_pos below, isSome_map] at fits
      rw [if_neg first, if_pos below, addInt_eq (fits.imp_left fun few => by omega)]
      refine ⟨_, rfl, fun j => ?_⟩
      have empty : bins.countP (fun b => b < n ∧ b / r = n) = 0 :=
        countP_eq_zero.mpr fun b _ => by
          have := Nat.div_le_self b r
          simp
          omega
      rcases eq_or_ne j n with rfl | other
      · rw [if_pos j.lt_succ_self, countP_below_succ, empty, if_neg (Ne.symm first)]
        exact update_self ..
      · dsimp only
        rcases eq_or_ne j (n / r) with rfl | apart
        · rw [update_of_ne other, update_self, sum, if_pos (by omega)]
        · rw [update_of_ne other, update_of_ne apart, at_bin, countP_below_succ, if_neg (Ne.symm apart)]
          by_cases before : j < n
          · rw [if_pos before, if_pos (by omega), add_zero]
          · rw [if_neg before, if_neg (by omega)]

theorem moveBins_counts {seen : List Nat} (positive : 0 < width) (wider : 2 ≤ r) {histogram : Nat → Int}
    (counted : ∀ j, histogram j = (seen.map (binOf width)).count j)
    (inside : ∀ latency ∈ seen, binOf width latency < n)
    (fits : seen.length < 2 ^ 31 ∨ (moveBins width (width * r) n histogram).isSome) :
    ∃ merged, moveBins width (width * r) n histogram = some merged ∧
      ∀ j, merged j = (seen.map (binOf (width * r))).count j := by
  obtain ⟨merged, done, at_bin⟩ := moveBins_spec positive wider counted n (by simpa using fits)
  refine ⟨merged, done, fun j => ?_⟩
  have nested : ∀ latency, binOf (width * r) latency = binOf width latency / r :=
    fun latency => (Nat.div_div_eq_div_mul ..).symm
  simp only [at_bin, count_eq_countP, countP_map]
  split
  · congr 1
    apply countP_congr
    intro latency member
    simp [nested, inside latency member]
  · rename_i outside
    congr 1
    apply countP_congr
    intro latency member
    have := inside latency member
    have := Nat.div_le_self (binOf width latency) r
    simp [nested]
    omega

theorem requiredBinWidth_spec (beyond : histogramNumBins ≤ binOf (defaultBinWidth * 2 ^ k) latency)
    (small : latency < 2 ^ 63) :
    ∃ m, k + (m + 1) ≤ 34 ∧ requiredBinWidth latency = defaultBinWidth * 2 ^ k * 2 ^ (m + 1) ∧
      binOf (requiredBinWidth latency) latency < histogramNumBins := by
  have least := Nat.le_pow_clog (b := 2) (by decide) ((latency + histogramNumBins) / histogramNumBins)
  rw [← requiredBinWidth] at least
  simp only [binOf, histogramNumBins, defaultBinWidth, ← Nat.pow_add] at *
  have reached := (Nat.le_div_iff_mul_le (Nat.two_pow_pos _)).mp beyond
  have wider : 2 ^ (20 + k) < requiredBinWidth latency := by omega
  have larger := (Nat.pow_lt_pow_iff_right (by decide)).mp wider
  simp only [histogramNumBins] at larger
  have smaller : Nat.clog 2 ((latency + 1000) / 1000) ≤ 54 := Nat.clog_le_of_le_pow (by omega)
  refine ⟨Nat.clog 2 ((latency + 1000) / 1000) - (20 + k) - 1, by omega, ?_, ?_⟩
  · rw [requiredBinWidth, histogramNumBins]
    congr 1
    omega
  · rw [Nat.div_lt_iff_lt_mul (Nat.lt_of_le_of_lt (Nat.zero_le _) wider)]
    omega

theorem Counts.extremes (counts : Counts lc seen) (latency : Nat) :
    (recordLatency lc latency).min = (latency :: seen).min?.getD 0 ∧
      (recordLatency lc latency).max = (latency :: seen).max?.getD 0 := by
  have known := counts.inside
  simp only [recordLatency, min?_cons, max?_cons, counts.min, counts.max, getD_some]
  cases least : seen.min? with
  | none => simp [min?_eq_none_iff.mp least]
  | some low =>
    cases greatest : seen.max? with
    | none => simp [max?_eq_none_iff.mp greatest] at least
    | some high =>
      have := (known low (min?_mem least)).1
      simp only [Option.getD_some, Option.elim]
      split_ifs <;> omega

theorem Counts.counted (counts : Counts lc seen) (positive : 0 < latency) {histogram : Nat → Int}
    (width : ∃ k ≤ 34, binWidth = defaultBinWidth * 2 ^ k)
    (bins : ∀ bin, histogram bin = (seen.map (binOf binWidth)).count bin)
    (here : binOf binWidth latency < histogramNumBins)
    (inside : ∀ latency ∈ seen, binOf binWidth latency < histogramNumBins)
    (fits : seen.length + 1 < 2 ^ 31 ∨
      (countBin { recordLatency lc latency with binWidth, histogram } (binOf binWidth latency)).isSome) :
    ∃ next, countBin { recordLatency lc latency with binWidth, histogram } (binOf binWidth latency) = some next ∧
      next.startTime = lc.startTime ∧ Counts next (latency :: seen) := by
  obtain ⟨low, high⟩ := counts.extremes latency
  have bound : (seen.map (binOf binWidth)).count (binOf binWidth latency) ≤ _ := count_le_length
  rw [length_map] at bound
  simp only [countBin, isSome_map, bins] at fits ⊢
  rw [addInt_eq (fits.imp_left fun few => by omega)]
  refine ⟨_, rfl, rfl, width, fun bin => ?_, ?_, ?_, ?_, low, high⟩
  · rcases eq_or_ne bin (binOf binWidth latency) with rfl | other
    · simp
    · simp [update_of_ne other, bins, count_cons_of_ne (Ne.symm other)]
  · exact forall_mem_cons.mpr ⟨⟨positive, here⟩,
      fun old member => ⟨(counts.inside old member).1, inside old member⟩⟩
  · simp [recordLatency, counts.num]
  · simp [recordLatency, counts.sum, add_comm]

theorem Counts.add (counts : Counts lc seen) (accepted : ¬(latency = 0 ∨ 2 ^ 63 - 1 < latency))
    (fits : seen.length + 1 < 2 ^ 31 ∨ (latencyCounterAdd lc latency).isSome) :
    ∃ next, latencyCounterAdd lc latency = some next ∧ next.startTime = lc.startTime ∧
      Counts next (latency :: seen) := by
  have positive : 0 < latency := pos_of_ne_zero (not_or.mp accepted).1
  have inside := fun latency member => (counts.inside latency member).2
  rw [latencyCounterAdd, if_neg accepted] at fits ⊢
  by_cases beyond : histogramNumBins ≤ binOf lc.binWidth latency
  · obtain ⟨k, -, old⟩ := counts.width
    obtain ⟨m, limit, new, here⟩ := requiredBinWidth_spec (old ▸ beyond) (by omega)
    rw [← old] at new
    have room : 0 < lc.binWidth := by simp [old, defaultBinWidth]
    have wide : histogramNumBins ≤ binOf (recordLatency lc latency).binWidth latency := beyond
    rw [if_pos wide] at fits ⊢
    have moves : (changeBinWidth (recordLatency lc latency) latency).isSome =
        (moveBins lc.binWidth (lc.binWidth * 2 ^ (m + 1)) histogramNumBins lc.histogram).isSome := by
      simp [changeBinWidth, recordLatency, new]
    obtain ⟨merged, moved, bins⟩ := moveBins_counts room (Nat.le_self_pow (Nat.succ_ne_zero m) 2) counts.bins inside
      (fits.imp Nat.lt_of_succ_lt fun done => moves ▸ isSome_of_isSome_bind done)
    rw [← new] at moved bins
    have changed : changeBinWidth (recordLatency lc latency) latency =
        some { recordLatency lc latency with binWidth := requiredBinWidth latency, histogram := merged } := by
      simp [changeBinWidth, recordLatency, moved]
    simp only [changed, bind_some, if_neg (not_le.mpr here)] at fits ⊢
    refine counts.counted positive ⟨k + (m + 1), limit, ?_⟩ bins here (fun old member => ?_) fits
    · rw [new, old, mul_assoc, ← Nat.pow_add]
    · refine lt_of_le_of_lt (Nat.div_le_div_left ?_ room) (inside old member)
      exact new ▸ Nat.le_mul_of_pos_right _ (Nat.two_pow_pos _)
  · have narrow : ¬histogramNumBins ≤ binOf (recordLatency lc latency).binWidth latency := beyond
    rw [if_neg narrow] at fits ⊢
    exact counts.counted positive counts.width counts.bins (lt_of_not_ge beyond) inside fits

theorem Counts.reset (counts : Counts lc seen) (now : Nat) : Counts (latencyCounterReset lc now) [] := by
  obtain ⟨k, limit, width⟩ := counts.width
  refine ⟨?_, by simp [latencyCounterReset], by simp, rfl, by simp [latencyCounterReset], rfl, rfl⟩
  have next : (latencyCounterReset lc now).binWidth = lc.binWidth ∨
      2 * defaultBinWidth ≤ lc.binWidth ∧ (latencyCounterReset lc now).binWidth = lc.binWidth / 2 := by
    simp only [latencyCounterReset]
    split_ifs <;> simp_all
  rcases next with same | ⟨wide, half⟩
  · exact ⟨k, limit, same.trans width⟩
  · rcases k with _ | k
    · simp [width, defaultBinWidth] at wide
    · exact ⟨k, Nat.le_of_succ_le limit,
        by rw [half, width, Nat.pow_succ, ← mul_assoc, Nat.mul_div_cancel _ (by decide)]⟩

theorem latencyCounterCreate_counts (now : Nat) : Counts (latencyCounterCreate now) [] :=
  ⟨⟨0, by decide, by simp [latencyCounterCreate, latencyCounterReset]⟩,
    by simp [latencyCounterCreate, latencyCounterReset],
    by simp, rfl, by simp [latencyCounterCreate, latencyCounterReset], rfl, rfl⟩

theorem sum_count (bins : List Nat) (inside : ∀ bin ∈ bins, bin < n) :
    ∑ bin ∈ Finset.range n, (bins.count bin : ℤ) = bins.length := by
  induction bins with
  | nil => simp
  | cons first bins ih =>
    obtain ⟨here, rest⟩ := forall_mem_cons.mp inside
    simp [count_cons, Finset.sum_add_distrib, ih rest, here]

theorem Counts.total (counts : Counts lc seen) : ∑ bin ∈ Finset.range histogramNumBins, lc.histogram bin = lc.num := by
  have sum := sum_count (n := histogramNumBins) (seen.map (binOf lc.binWidth))
    (by simpa using fun latency member => (counts.inside latency member).2)
  simp only [counts.bins, sum, length_map, counts.num]

theorem latencyStep_counts (counts : Counts lc (accepted calls))
    (fits : (accepted (calls ++ [call])).length < 2 ^ 31 ∨ (latencyStep lc call).isSome) :
    ∃ next, latencyStep lc call = some next ∧ Counts next (accepted (calls ++ [call])) := by
  rw [accepted, foldl_append, ← accepted] at *
  cases call with
  | add latency =>
    by_cases refused : latency = 0 ∨ 2 ^ 63 - 1 < latency
    · exact ⟨lc, if_pos refused, by simpa only [foldl_cons, foldl_nil, if_pos refused] using counts⟩
    · simp only [foldl_cons, foldl_nil, if_neg refused, length_cons] at fits ⊢
      obtain ⟨next, added, -, counted⟩ := counts.add refused fits
      exact ⟨next, added, counted⟩
  | reset now => exact ⟨_, rfl, counts.reset now⟩

theorem latencyRun_counts (start : Nat) (calls : List LatencyCall)
    (fits : (∀ front ∈ calls.inits, (accepted front).length < 2 ^ 31) ∨
      (calls.foldlM latencyStep (latencyCounterCreate start)).isSome) :
    ∃ lc, calls.foldlM latencyStep (latencyCounterCreate start) = some lc ∧ Counts lc (accepted calls) := by
  induction calls using reverseRecOn with
  | nil => exact ⟨_, rfl, latencyCounterCreate_counts start⟩
  | append_singleton calls call ih =>
    simp only [foldlM_append, foldlM_cons, foldlM_nil, bind_pure] at fits ⊢
    obtain ⟨lc, ran, counts⟩ := ih (fits.imp (fun few front before =>
      few front ((mem_inits ..).mpr (((mem_inits ..).mp before).trans (prefix_append ..)))) isSome_of_isSome_bind)
    rw [ran] at fits ⊢
    exact latencyStep_counts counts (fits.imp_left fun few => few _ ((mem_inits ..).mpr prefix_rfl))

/-- After every call of a run the bins have the latencies since the last reset, and no assertion fails. -/
theorem latency_histogram_counts (start : Nat) (calls : List LatencyCall)
    (few : ∀ front ∈ calls.inits, (accepted front).length < 2 ^ 31) :
    ∃ lc, calls.foldlM latencyStep (latencyCounterCreate start) = some lc ∧ Counts lc (accepted calls) ∧
      ∑ bin ∈ Finset.range histogramNumBins, lc.histogram bin = lc.num := by
  obtain ⟨lc, ran, counts⟩ := latencyRun_counts start calls (.inl few)
  exact ⟨lc, ran, counts, counts.total⟩

theorem latency_histogram_counts_wider :
    let calls := [LatencyCall.add 5, .add (2 ^ 31)]
    ∃ lc, calls.foldlM latencyStep (latencyCounterCreate 1) = some lc ∧ Counts lc [2 ^ 31, 5] ∧
      ∑ bin ∈ Finset.range histogramNumBins, lc.histogram bin = lc.num :=
  latency_histogram_counts 1 [.add 5, .add (2 ^ 31)] (by decide)

def lastBin (lc : LatencyCounter) (upper : Nat) : Nat × Nat :=
  let upperBin := if upper ≠ 0 then (upper - 1) / lc.binWidth else histogramNumBins - 1
  if histogramNumBins ≤ upperBin then (histogramNumBins - 1, 0) else (upperBin, upper)

def latencyCounterGetRate (lc : LatencyCounter) (lower upper now : Nat) : Option Double :=
  if lc.num = 0 then some .nan
  else if upper ≠ 0 ∧ upper < lower then some .nan
  else if lower = upper then some (.fin 0)
  else
    let lowerBin := if lower ≠ 0 then lower / lc.binWidth else 0
    if histogramNumBins ≤ lowerBin then some (.fin 0)
    else
      let (upperBin, upper) := lastBin lc upper
      let sum : ℚ := ∑ i ∈ Finset.Ico lowerBin (upperBin + 1), (lc.histogram i : ℚ)
      let lowerBoundary := lowerBin * lc.binWidth
      let upperBoundary := (upperBin + 1) * lc.binWidth % 2 ^ 64
      if lower ≠ 0 ∧ lower < lowerBoundary ∨ upper ≠ 0 ∧ upperBoundary < upper then none
      else
        let sum := if lower ≠ 0 then sum - (lower - lowerBoundary : ℕ) / lc.binWidth * lc.histogram lowerBin else sum
        let sum := if upper ≠ 0 then sum - (upperBoundary - upper : ℕ) / lc.binWidth * lc.histogram upperBin else sum
        some ((Double.fin sum).div (.fin ((now - lc.startTime : ℕ) / 1073741824)))

def cumulative (lc : LatencyCounter) (bound : Nat) : ℚ :=
  ∑ latency ∈ Finset.range bound, (lc.histogram (latency / lc.binWidth) : ℚ) / lc.binWidth

def upTo (lc : LatencyCounter) (upper : Nat) : ℚ := if upper = 0 then lc.num else cumulative lc upper

theorem cumulative_within (within : r ≤ lc.binWidth) :
    cumulative lc (bin * lc.binWidth + r) =
      cumulative lc (bin * lc.binWidth) + r / lc.binWidth * lc.histogram bin := by
  induction r with
  | zero => simp
  | succ r ih =>
    have here : (bin * lc.binWidth + r) / lc.binWidth = bin :=
      Nat.div_eq_of_lt_le (Nat.le_add_right ..) (by rw [Nat.succ_mul]; omega)
    rw [← add_assoc, cumulative, Finset.sum_range_succ, ← cumulative, ih (by omega), here]
    push_cast
    ring

section
variable (counts : Counts lc seen)
include counts

theorem Counts.positive : 0 < lc.binWidth := by
  obtain ⟨k, -, width⟩ := counts.width
  simp [width, defaultBinWidth]

theorem Counts.cumulative_bins (bins : Nat) :
    cumulative lc (bins * lc.binWidth) = ∑ i ∈ Finset.range bins, (lc.histogram i : ℚ) := by
  have width : (lc.binWidth : ℚ) ≠ 0 := by exact_mod_cast counts.positive.ne'
  induction bins with
  | zero => simp [cumulative]
  | succ bins ih =>
    rw [Nat.succ_mul, cumulative_within (le_refl _), ih, Finset.sum_range_succ, div_self width, one_mul]

theorem Counts.cumulative_outside (outside : histogramNumBins * lc.binWidth ≤ bound) :
    cumulative lc bound = lc.num := by
  have empty : ∀ latency ≥ histogramNumBins * lc.binWidth,
      (lc.histogram (latency / lc.binWidth) : ℚ) / lc.binWidth = 0 := by
    intro latency beyond
    have missing : latency / lc.binWidth ∉ seen.map (binOf lc.binWidth) := by
      intro member
      obtain ⟨old, known, same⟩ := mem_map.mp member
      have inside := (counts.inside old known).2
      rw [same, Nat.div_lt_iff_lt_mul counts.positive] at inside
      omega
    simp [counts.bins, count_eq_zero.mpr missing]
  rw [cumulative, Finset.eventually_constant_sum empty outside, ← cumulative, counts.cumulative_bins]
  exact_mod_cast counts.total

theorem Counts.cumulative_mono (below : a ≤ b) : cumulative lc a ≤ cumulative lc b := by
  refine Finset.sum_le_sum_of_subset_of_nonneg (by simpa using below) fun latency _ _ => ?_
  simp only [counts.bins]
  positivity

theorem Counts.cumulative_at (low : bin * lc.binWidth ≤ bound) (high : bound ≤ (bin + 1) * lc.binWidth) :
    cumulative lc bound =
      ∑ i ∈ Finset.range bin, (lc.histogram i : ℚ) +
        (bound - bin * lc.binWidth : ℕ) / lc.binWidth * lc.histogram bin := by
  obtain ⟨r, rfl⟩ := Nat.exists_eq_add_of_le low
  rw [cumulative_within (by rw [Nat.succ_mul] at high; omega), counts.cumulative_bins, Nat.add_sub_cancel_left]

theorem Counts.boundary (inside : bin < histogramNumBins) :
    (bin + 1) * lc.binWidth % 2 ^ 64 = (bin + 1) * lc.binWidth := by
  obtain ⟨k, limit, width⟩ := counts.width
  have power : 2 ^ k ≤ 2 ^ 34 := Nat.pow_le_pow_right (by decide) limit
  have product : (bin + 1) * lc.binWidth ≤ 1000 * (2 ^ 20 * 2 ^ 34) := by
    rw [width]
    exact Nat.mul_le_mul inside (Nat.mul_le_mul_left _ power)
  exact Nat.mod_eq_of_lt (lt_of_le_of_lt product (by decide))

theorem Counts.getRate_eq (some_latency : 0 < lc.num) (later : lc.startTime < now)
    (ordered : lower < upper ∨ upper = 0 ∧ lower ≠ 0) :
    latencyCounterGetRate lc lower upper now =
      some (.fin ((upTo lc upper - cumulative lc lower) / ((now - lc.startTime : ℕ) / 1073741824))) := by
  have room := counts.positive
  have elapsed : ((now - lc.startTime : ℕ) : ℚ) / 1073741824 ≠ 0 := by
    have := Nat.sub_pos_of_lt later
    positivity
  have low : (if lower ≠ 0 then lower / lc.binWidth else 0) = lower / lc.binWidth := by
    split <;> simp_all
  have begins : lower / lc.binWidth * lc.binWidth ≤ lower := Nat.div_mul_le_self ..
  rw [latencyCounterGetRate, if_neg (by omega), if_neg (by omega), if_neg (by omega)]
  simp only [low]
  by_cases outside : histogramNumBins ≤ lower / lc.binWidth
  · have beyond := (Nat.le_div_iff_mul_le room).mp outside
    have all : upTo lc upper = lc.num := by
      unfold upTo
      split
      · rfl
      · exact counts.cumulative_outside (by omega)
    rw [if_pos outside, all, counts.cumulative_outside beyond, sub_self, zero_div]
  · have ends : lower ≤ (lower / lc.binWidth + 1) * lc.binWidth :=
      (Nat.lt_div_mul_add room).le.trans (by rw [Nat.succ_mul])
    have share := counts.cumulative_at begins ends
    have corrected : ∀ sum : ℚ, (if lower ≠ 0 then
          sum - (lower - lower / lc.binWidth * lc.binWidth : ℕ) / lc.binWidth * lc.histogram (lower / lc.binWidth)
        else sum) = ∑ i ∈ Finset.range (lower / lc.binWidth), (lc.histogram i : ℚ) + sum - cumulative lc lower := by
      intro sum
      rw [share]
      rcases eq_or_ne lower 0 with rfl | inside
      · simp
      · rw [if_pos inside]
        ring
    rw [if_neg outside]
    simp only [corrected, not_lt.mpr begins, and_false, false_or]
    by_cases far : upper = 0 ∨ histogramNumBins ≤ (upper - 1) / lc.binWidth
    · have last : lastBin lc upper = (histogramNumBins - 1, 0) := by
        rcases far with rfl | far
        · rfl
        · simp only [lastBin, if_pos (show upper ≠ 0 by rintro rfl; simp [histogramNumBins] at far), if_pos far]
      have all : upTo lc upper = lc.num := by
        rcases far with rfl | far
        · rfl
        · have beyond := (Nat.le_div_iff_mul_le room).mp far
          rw [upTo, if_neg (by rintro rfl; simp [histogramNumBins] at far)]
          exact counts.cumulative_outside (by omega)
      have total : ∑ i ∈ Finset.range histogramNumBins, (lc.histogram i : ℚ) = lc.num := by
        exact_mod_cast counts.total
      have whole := Finset.sum_range_add_sum_Ico (fun i => (lc.histogram i : ℚ)) (Nat.le_of_not_le outside)
      simp only [last, ne_eq, not_true, false_and, if_false, Nat.sub_add_cancel (show 1 ≤ histogramNumBins by decide),
        whole, total, all, Double.div, if_neg elapsed]
    · obtain ⟨bounded, near⟩ := not_or.mp far
      have last : lastBin lc upper = ((upper - 1) / lc.binWidth, upper) := by
        simp [lastBin, bounded, near]
      have first : lower / lc.binWidth ≤ (upper - 1) / lc.binWidth + 1 :=
        Nat.le_succ_of_le (Nat.div_le_div_right (by omega))
      have below : (upper - 1) / lc.binWidth * lc.binWidth ≤ upper :=
        (Nat.div_mul_le_self ..).trans (Nat.sub_le ..)
      have above : upper ≤ ((upper - 1) / lc.binWidth + 1) * lc.binWidth := by
        have := Nat.lt_div_mul_add (a := upper - 1) room
        rw [Nat.succ_mul]
        omega
      have whole := Finset.sum_range_add_sum_Ico (fun i => (lc.histogram i : ℚ)) first
      rw [Finset.sum_range_succ] at whole
      have rest : (((upper - 1) / lc.binWidth + 1) * lc.binWidth - upper : ℕ) / (lc.binWidth : ℚ) =
          1 - (upper - (upper - 1) / lc.binWidth * lc.binWidth : ℕ) / lc.binWidth := by
        rw [Nat.cast_sub above, Nat.cast_sub below]
        field_simp
        push_cast
        ring
      simp only [last, counts.boundary (lt_of_not_ge near), whole, not_lt.mpr above, and_false, if_false, ne_eq,
        bounded, not_false_eq_true, if_true, rest, Double.div, if_neg elapsed, upTo, counts.cumulative_at below above]
      congr 3
      ring

theorem Counts.cumulative_le_upTo (ordered : lower < upper ∨ upper = 0) : cumulative lc lower ≤ upTo lc upper := by
  unfold upTo
  split
  · rw [← counts.cumulative_outside (le_max_left _ lower)]
    exact counts.cumulative_mono (le_max_right ..)
  · exact counts.cumulative_mono (by omega)

end

/-- The rates of adjacent intervals add up, but for the interval from zero to infinity. -/
theorem latency_rates_additive_iff (start : Nat) (calls : List LatencyCall)
    (ran : calls.foldlM latencyStep (latencyCounterCreate start) = some lc) (some_latency : 0 < lc.num)
    (later : lc.startTime < now) (first : a < b) (second : b < c ∨ c = 0) :
    latencyCounterGetRate lc 0 0 now = some (.fin 0) ∧
      ∃ ab bc ac : ℚ, latencyCounterGetRate lc a b now = some (.fin ab) ∧
        latencyCounterGetRate lc b c now = some (.fin bc) ∧ latencyCounterGetRate lc a c now = some (.fin ac) ∧
        0 ≤ ab ∧ 0 ≤ bc ∧ 0 ≤ ac ∧ (ab + bc = ac ↔ ¬(a = 0 ∧ c = 0)) := by
  obtain ⟨reached, ran', counts⟩ := latencyRun_counts start calls (.inr (ran ▸ rfl))
  obtain rfl : lc = reached := some.inj (ran.symm.trans ran')
  have whole : latencyCounterGetRate lc 0 0 now = some (.fin 0) := by
    simp [latencyCounterGetRate, some_latency.ne']
  have elapsed : (0 : ℚ) < (now - lc.startTime : ℕ) / 1073741824 := by
    have := Nat.sub_pos_of_lt later
    positivity
  have bounded : upTo lc b = cumulative lc b := if_neg (by omega)
  have ab := counts.getRate_eq some_latency later (.inl first)
  have bc := counts.getRate_eq some_latency later (second.imp_right fun last => ⟨last, by omega⟩)
  have ab_nonneg := sub_nonneg.mpr (counts.cumulative_le_upTo (.inl first))
  have bc_nonneg := sub_nonneg.mpr (counts.cumulative_le_upTo second)
  refine ⟨whole, ?_⟩
  by_cases everything : a = 0 ∧ c = 0
  · obtain ⟨rfl, rfl⟩ := everything
    refine ⟨_, _, _, ab, bc, whole, div_nonneg ab_nonneg elapsed.le, div_nonneg bc_nonneg elapsed.le, le_rfl, ?_⟩
    have num : upTo lc 0 = lc.num := if_pos rfl
    have none_below : cumulative lc 0 = 0 := by simp [cumulative]
    rw [bounded, num, none_below, ← add_div, div_eq_zero_iff]
    simp [elapsed.ne', some_latency.ne']
  · have ac := counts.getRate_eq some_latency later (show a < c ∨ c = 0 ∧ a ≠ 0 by omega)
    have ac_nonneg := sub_nonneg.mpr (counts.cumulative_le_upTo (show a < c ∨ c = 0 by omega))
    refine ⟨_, _, _, ab, bc, ac, div_nonneg ab_nonneg elapsed.le, div_nonneg bc_nonneg elapsed.le,
      div_nonneg ac_nonneg elapsed.le, ?_⟩
    rw [bounded, ← add_div]
    simp [everything]

theorem latency_rates_additive_one : ∃ lc, [LatencyCall.add 5].foldlM latencyStep (latencyCounterCreate 1) = some lc ∧
    latencyCounterGetRate lc 0 0 2 = some (.fin 0) ∧
      ∃ ab bc ac : ℚ, latencyCounterGetRate lc 1 3 2 = some (.fin ab) ∧
        latencyCounterGetRate lc 3 0 2 = some (.fin bc) ∧ latencyCounterGetRate lc 1 0 2 = some (.fin ac) ∧
        0 ≤ ab ∧ 0 ≤ bc ∧ 0 ≤ ac ∧ (ab + bc = ac ↔ ¬((1 : ℕ) = 0 ∧ (0 : ℕ) = 0)) :=
  ⟨_, rfl, latency_rates_additive_iff 1 [.add 5] rfl (by decide) (by decide) (by decide) (by decide)⟩

theorem getRate_everything_zero : ∃ lc, [LatencyCall.add 5].foldlM latencyStep (latencyCounterCreate 1) = some lc ∧
    lc.num = 1 ∧ latencyCounterGetRate lc 0 0 (1 + 2 ^ 30) = some (.fin 0) ∧
      ∃ ab bc : ℚ, latencyCounterGetRate lc 0 3 (1 + 2 ^ 30) = some (.fin ab) ∧
        latencyCounterGetRate lc 3 0 (1 + 2 ^ 30) = some (.fin bc) ∧ ab + bc = 1 := by
  obtain ⟨lc, ran, counts⟩ := latencyRun_counts 1 [.add 5] (.inl (by decide))
  have one : lc.num = 1 := counts.num
  have started : lc.startTime = 1 := by
    rw [← some.inj ran]
    rfl
  refine ⟨lc, ran, one, by simp [latencyCounterGetRate, one], _, _,
    counts.getRate_eq (by omega) (by omega) (by omega), counts.getRate_eq (by omega) (by omega) (by omega), ?_⟩
  have none_below : cumulative lc 0 = 0 := by simp [cumulative]
  simp [upTo, none_below, one, started]

end NCollectd.Latency
