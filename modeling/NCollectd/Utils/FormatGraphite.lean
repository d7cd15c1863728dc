import NCollectd.Cmds.PutmetricRoundTrip

namespace NCollectd.FormatGraphite

open List LabelSet Cmds

/-- `GAUGE_FORMAT` of `printf`. -/
structure GaugePrintf where
  gaugeFormat : Double → CString
  zero : gaugeFormat (.fin 0) = "0"
  one : gaugeFormat (.fin 1) = "1"

structure Style where
  prefixText : Option CString
  postfixText : Option CString
  escapeChar : Char
  separateInstances : Bool

def graphiteForbidden : CString := " \t\"\\:!,/()\n\r"

def grFormatValues (page : PageSize) (printf : GaugePrintf) (buf : Strbuf) (m : Metric) (rate : Double)
    (storeRate : Bool) : Option (Status × Strbuf) := do
  let (rate, storeRate) ←
    if storeRate = false ∧ (m.family.type = .gauge ∨ m.family.type = .untyped) then
      (gaugeBits .ofBits m.value).map (·, true)
    else some (rate, storeRate)
  if storeRate then
    if rate = .nan then some (strbufPrint page buf "nan")
    else (gaugeBits .ofBits m.value).map fun gauge => strbufPrint page buf (printf.gaugeFormat gauge)
  else if m.family.type = .counter then
    m.value.counter?.map fun counter => strbufPrint page buf (printUnsigned counter.toNat)
  else some (EINVAL, buf)

def graphitePrintEscaped (page : PageSize) (buf : Strbuf) (s : CString) (escapeChar : Char) : Status × Strbuf :=
  match s with
  | [] => (0, buf)
  | c :: rest =>
    let valid := strcspn (c :: rest) graphiteForbidden
    if valid = (c :: rest).length then strbufPrint page buf (c :: rest)
    else if valid ≠ 0 then
      let (status, buf) := strbufPrint page buf ((c :: rest).take valid)
      if status ≠ 0 then (status, buf) else graphitePrintEscaped page buf ((c :: rest).drop valid) escapeChar
    else
      let (status, buf) := strbufPrint page buf [escapeChar]
      if status ≠ 0 then (status, buf) else graphitePrintEscaped page buf rest escapeChar
termination_by s.length
decreasing_by
  · simp only [length_drop, length_cons]
    omega
  · simp

def grFormatLabel (page : PageSize) (style : Style) (buf : Strbuf) (pair : LabelPair) : Strbuf :=
  let buf := (strbufPrint page buf ['.']).2
  let buf := (graphitePrintEscaped page buf pair.name style.escapeChar).2
  let buf := (strbufPrint page buf [if style.separateInstances then '.' else '=']).2
  (graphitePrintEscaped page buf pair.value style.escapeChar).2

def grFormatName (page : PageSize) (style : Style) (buf : Strbuf) (m : Metric) : Option Strbuf :=
  let buf := style.prefixText.elim buf fun text => (strbufPrint page buf text).2
  let buf := (graphitePrintEscaped page buf m.family.name style.escapeChar).2
  let buf := style.postfixText.elim buf fun text => (strbufPrint page buf text).2
  (readPairs m.label).map fun pairs => pairs.foldl (grFormatLabel page style) buf

def timeField (time : CdTime) : CString :=
  ' ' :: (printUnsigned ((time + 0x20000000 : UInt64) >>> 30).toNat ++ ['\r', '\n'])

def formatGraphite (page : PageSize) (printf : GaugePrintf) (cache : Cache) (style : Style) (storeRates : Bool)
    (buf : Strbuf) (m : Metric) : Option (Status × Strbuf) :=
  let line (rate : Double) (storeRate : Bool) : Option (Status × Strbuf) := do
    let buf ← grFormatName page style buf m
    let buf := (strbufPrint page buf [' ']).2
    let (status, buf) ← grFormatValues page printf buf m rate storeRate
    if status ≠ 0 then some (status, buf) else some (strbufPrint page buf (timeField m.time))
  if storeRates then
    match ucGetRate page cache m with
    | none => none
    | some (.error _) => some (-1, buf)
    | some (.ok rate) => line rate true
  else line .nan false

def Writes (page : PageSize) (printf : GaugePrintf) (cache : Cache) (style : Style) (storeRates : Bool)
    (buf : Strbuf) (m : Metric) (value : CString) : Prop :=
  ∃ name next, grFormatName page style buf m = some name ∧
    formatGraphite page printf cache style storeRates buf m = some (0, next) ∧
    next.text = name.text ++ ' ' :: value ++ timeField m.time

def gaugeText (printf : GaugePrintf) (value : Double) : CString :=
  if value = .nan then "nan" else printf.gaugeFormat value

inductive RawText (printf : GaugePrintf) (m : Metric) : CString → Prop where
  | counter (type : m.family.type = .counter) (value : m.value = .counter number) :
    RawText printf m (printUnsigned number.toNat)
  | gauge (type : m.family.type = .gauge ∨ m.family.type = .untyped) (value : m.value = .gauge number) :
    RawText printf m (gaugeText printf number)

/-- With `GRAPHITE_STORE_RATES` the line has the cached rate as its value and does not change with the raw value;
without it, the line has the raw value. -/
structure StoresRates (page : PageSize) (printf : GaugePrintf) (cache : Cache) (style : Style) (buf : Strbuf)
    (m : Metric) (rate : Double) : Prop where
  rate : Writes page printf cache style true buf m (gaugeText printf rate)
  through : ∀ value text, RawText printf { m with value } text →
    formatGraphite page printf cache style true buf { m with value } =
      formatGraphite page printf cache style true buf m
  raw : ∀ text, RawText printf m text → Writes page printf cache style false buf m text

theorem strbufPrint_fixed (page : PageSize) (buf : Strbuf) (s : CString) :
    (strbufPrint page buf s).2.fixed = buf.fixed := by
  have resized : (strbufResize page buf s.length).fixed = buf.fixed := by
    unfold strbufResize
    split
    · rfl
    · split <;> rfl
  rw [strbufPrint, strbufWrite]
  split <;> exact resized

theorem graphitePrintEscaped_fixed (page : PageSize) (buf : Strbuf) (s : CString) (escapeChar : Char) :
    (graphitePrintEscaped page buf s escapeChar).2.fixed = buf.fixed := by
  fun_induction graphitePrintEscaped page buf s escapeChar with
  | case1 => rfl
  | case2 => exact strbufPrint_fixed ..
  | case3 buf c rest valid part some status next written failed =>
    exact (congrArg (·.2.fixed) written).symm.trans (strbufPrint_fixed ..)
  | case4 buf c rest valid part some status next written done ih =>
    exact ih.trans ((congrArg (·.2.fixed) written).symm.trans (strbufPrint_fixed ..))
  | case5 buf c rest valid part none status next written failed =>
    exact (congrArg (·.2.fixed) written).symm.trans (strbufPrint_fixed ..)
  | case6 buf c rest valid part none status next written done ih =>
    exact ih.trans ((congrArg (·.2.fixed) written).symm.trans (strbufPrint_fixed ..))

theorem grFormatName_fixed (named : grFormatName page style buf m = some name) : name.fixed = buf.fixed := by
  obtain ⟨pairs, _, rfl⟩ := Option.map_eq_some_iff.mp named
  have labels (pairs : List LabelPair) (start : Strbuf) :
      (pairs.foldl (grFormatLabel page style) start).fixed = start.fixed := by
    induction pairs generalizing start with
    | nil => rfl
    | cons pair pairs ih =>
      rw [foldl_cons, ih]
      simp only [grFormatLabel, graphitePrintEscaped_fixed, strbufPrint_fixed]
  rw [labels]
  cases style.prefixText <;> cases style.postfixText <;>
    simp only [Option.elim, graphitePrintEscaped_fixed, strbufPrint_fixed]

theorem grFormatValues_eq (page : PageSize) (buf : Strbuf) (rate : Double) (raw : RawText printf m text)
    (read : gaugeBits .ofBits m.value = some number) :
    grFormatValues page printf buf m .nan false = some (strbufPrint page buf text) ∧
      grFormatValues page printf buf m rate true =
        some (strbufPrint page buf (if rate = .nan then "nan" else printf.gaugeFormat number)) := by
  constructor
  · cases raw with
    | counter type value => simp [grFormatValues, type, value, Value.counter?]
    | gauge type value =>
      simp [grFormatValues, type, value, gaugeBits, gaugeText]
      split <;> rfl
  · simp only [grFormatValues, Bool.true_eq_false, false_and, if_false, read, Option.bind_eq_bind, Option.bind_some,
      if_true, Option.map_some]
    split <;> rfl

theorem line_written (growing : buf.fixed = false) (page : PageSize) (value : CString) (time : CdTime) :
    ∃ middle next, strbufPrint page (strbufPrint page buf [' ']).2 value = (0, middle) ∧
      strbufPrint page middle (timeField time) = (0, next) ∧
        next.text = buf.text ++ ' ' :: value ++ timeField time := by
  obtain ⟨first, written₁, flag₁, text₁⟩ := strbufPrint_appends page [' '] buf growing
  obtain ⟨second, written₂, flag₂, text₂⟩ := strbufPrint_appends page value first flag₁
  obtain ⟨third, written₃, _, text₃⟩ := strbufPrint_appends page (timeField time) second flag₂
  dsimp only at written₁
  exact ⟨second, third, by rw [written₁]; exact written₂, written₃, by simp [text₃, text₂, text₁]⟩

theorem RawText.gaugeBits (raw : RawText printf m text) : ∃ number, gaugeBits .ofBits m.value = some number := by
  cases raw with
  | counter type value | gauge type value => exact ⟨_, by rw [value]; rfl⟩

theorem Writes.value_eq (first : Writes page printf cache style storeRates buf m text)
    (second : Writes page printf cache style storeRates buf m other) : text = other := by
  obtain ⟨name, next, named, ran, line⟩ := first
  obtain ⟨name', next', named', ran', line'⟩ := second
  cases named.symm.trans named'
  cases ran.symm.trans ran'
  exact (cons.inj (append_cancel_left (append_cancel_right (line.symm.trans line')))).2

theorem Writes.of_same {value : Value} (written : Writes page printf cache style storeRates buf { m with value } text)
    (same : formatGraphite page printf cache style storeRates buf { m with value } =
      formatGraphite page printf cache style storeRates buf m) :
    Writes page printf cache style storeRates buf m text := by
  obtain ⟨name, next, named, ran, line⟩ := written
  exact ⟨name, next, named, same.symm.trans ran, line⟩

/-- Each type has a value that is printed as `0` and one that is printed as `1`. -/
theorem RawText.digits (raw : RawText printf m text) : ∃ first second zero one,
    RawText printf { m with value := first } zero ∧ Cmds.gaugeBits .ofBits first = some (.fin 0) ∧
      RawText printf { m with value := second } one ∧ Cmds.gaugeBits .ofBits second = some (.fin 1) := by
  cases raw with
  | counter type =>
    have zero : Double.ofBits 0 = .fin 0 := by decide +kernel
    have one : Double.ofBits 0x3ff0000000000000 = .fin 1 := by decide +kernel
    exact ⟨.counter 0, .counter 0x3ff0000000000000, _, _, .counter type rfl, congrArg some zero,
      .counter type rfl, congrArg some one⟩
  | gauge type => exact ⟨.gauge (.fin 0), .gauge (.fin 1), _, _, .gauge type rfl, rfl, .gauge type rfl, rfl⟩

/-- The name, the time and the rate of a metric do not depend on its value. -/
theorem formatGraphite_nan (page : PageSize) (cache : Cache) (style : Style) (buf : Strbuf)
    (raw : RawText printf m text) (rated : ucGetRate page cache m = some (.ok .nan))
    (other : RawText printf { m with value } text') :
    formatGraphite page printf cache style true buf { m with value } =
      formatGraphite page printf cache style true buf m := by
  obtain ⟨number, read⟩ := raw.gaugeBits
  obtain ⟨number', read'⟩ := other.gaugeBits
  have rated' : ucGetRate page cache { m with value } = some (.ok .nan) := rated
  have named : grFormatName page style buf { m with value } = grFormatName page style buf m := rfl
  simp only [formatGraphite, if_true, rated, rated', named, (grFormatValues_eq page _ .nan raw read).2,
    (grFormatValues_eq page _ .nan other read').2]

section

variable (page : PageSize) (printf : GaugePrintf) (cache : Cache) (style : Style) {buf : Strbuf} {m : Metric}
variable (growing : buf.fixed = false) (labels : readPairs m.label = some pairs)
include growing labels

/-- The value is printed from the bytes of the raw value, except for the rate NaN. -/
theorem writes_stored (raw : RawText printf m text) (rated : ucGetRate page cache m = some (.ok rate))
    (read : gaugeBits .ofBits m.value = some number) :
    Writes page printf cache style true buf m (if rate = .nan then "nan" else printf.gaugeFormat number) := by
  obtain ⟨name, named⟩ : ∃ name, grFormatName page style buf m = some name := by simp [grFormatName, labels]
  obtain ⟨_, printed⟩ := grFormatValues_eq page (strbufPrint page name [' ']).2 rate raw read
  obtain ⟨middle, next, value, time, line⟩ := line_written ((grFormatName_fixed named).trans growing) page
    (if rate = .nan then "nan" else printf.gaugeFormat number) m.time
  rw [value] at printed
  exact ⟨name, next, named, by simp [formatGraphite, rated, named, printed, time], line⟩

theorem writes_raw (raw : RawText printf m text) : Writes page printf cache style false buf m text := by
  obtain ⟨number, read⟩ := raw.gaugeBits
  obtain ⟨name, named⟩ : ∃ name, grFormatName page style buf m = some name := by simp [grFormatName, labels]
  obtain ⟨printed, _⟩ := grFormatValues_eq page (strbufPrint page name [' ']).2 .nan raw read
  obtain ⟨middle, next, value, time, line⟩ :=
    line_written ((grFormatName_fixed named).trans growing) page text m.time
  rw [value] at printed
  exact ⟨name, next, named, by simp [formatGraphite, named, printed, time], line⟩

/-- Instead of the rate the bytes of the raw value are printed, unless the rate is NaN. -/
theorem graphite_store_rates_iff (raw : RawText printf m text) (rated : ucGetRate page cache m = some (.ok rate)) :
    StoresRates page printf cache style buf m rate ↔ rate = .nan := by
  constructor
  · intro stores
    by_contra known
    obtain ⟨first, second, zero, one, raw₀, read₀, raw₁, read₁⟩ := raw.digits
    have written₀ := writes_stored (m := { m with value := first }) page printf cache style growing labels raw₀
      rated read₀
    have written₁ := writes_stored (m := { m with value := second }) page printf cache style growing labels raw₁
      rated read₁
    rw [if_neg known] at written₀ written₁
    -- Both lines are the line of the metric, which has one value only.
    have equal := (written₀.of_same (stores.through first zero raw₀)).value_eq
      (written₁.of_same (stores.through second one raw₁))
    rw [printf.zero, printf.one] at equal
    cases equal
  · rintro rfl
    obtain ⟨number, read⟩ := raw.gaugeBits
    refine ⟨?_, fun value text' other => formatGraphite_nan page cache style buf raw rated other,
      fun text' raw' => writes_raw page printf cache style growing labels raw'⟩
    simpa [gaugeText] using writes_stored page printf cache style growing labels raw rated read

end

/-- The digits of `%.15g` and the exponent of the first one, for `num / den` greater than zero. -/
def significant (num den : Nat) : Nat × Int :=
  let guess : Int := (printUnsigned num).length - (printUnsigned den).length
  let exponent := if den * 10 ^ guess.toNat ≤ num * 10 ^ (-guess).toNat then guess else guess - 1
  let scale := 14 - exponent
  let (num, den) := (num * 10 ^ scale.toNat, den * 10 ^ (-scale).toNat)
  let (digits, rest) := (num / den, num % den)
  let digits := if den < 2 * rest ∨ 2 * rest = den ∧ digits % 2 = 1 then digits + 1 else digits
  if digits = 10 ^ 15 then (10 ^ 14, exponent + 1) else (digits, exponent)

/-- `printf` with `%.15g`. -/
def formatG15 : Double → CString
  | .nan => "nan"
  | .negInf => "-inf"
  | .posInf => "inf"
  | .fin value =>
    let sign : CString := if value < 0 then "-" else ""
    if value = 0 then "0"
    else
      let (digits, exponent) := significant value.num.natAbs value.den
      let shown := (printUnsigned digits).rdropWhile (· = '0')
      let point (whole : CString) (rest : CString) : CString := if rest = [] then whole else whole ++ '.' :: rest
      if exponent < -4 ∨ 15 ≤ exponent then
        let power := printUnsigned exponent.natAbs
        sign ++ point (shown.take 1) (shown.drop 1) ++ 'e' :: (if exponent < 0 then '-' else '+') ::
          ((if power.length < 2 then ['0'] else []) ++ power)
      else if exponent < 0 then sign ++ point "0" (replicate (exponent.natAbs - 1) '0' ++ shown)
      else
        let whole := exponent.toNat + 1
        sign ++ point ((shown ++ replicate (whole - shown.length) '0').take whole) (shown.drop whole)

def printfG15 : GaugePrintf := ⟨formatG15, by decide +kernel, by decide +kernel⟩

def countMetric : Metric := ⟨⟨['c'], .counter⟩, .empty, .counter 5, 0, 0⟩

/-- The cache of one counter, at the rate 2 or without a rate. -/
def rateCache (rate : Double) : Cache := Std.ExtTreeMap.insert ∅ ['c']
  ⟨none, rate, ⟨.counter 5, .counter⟩, 1, 1, 10, 0, 0, .empty, ⟨.counter 5, .counter⟩, 1, 0⟩

theorem ucGetRate_rateCache (rate : Double) :
    ucGetRate (strbufPagesize 0) (rateCache rate) countMetric = some (.ok rate) := by
  have stored : (rateCache rate)[['c']]? = some _ := (AvlTree.getElem?_insert _ _ _ _).trans (if_pos rfl)
  have key : entryKey (strbufPagesize 0) countMetric = some (.ok ['c']) := by decide
  rw [ucGetRate, key, Option.bind_some]
  dsimp only
  rw [if_neg (by decide), ucGetRateByName, stored]
  rfl

theorem graphite_store_rates_counter :
    StoresRates (strbufPagesize 0) printfG15 (rateCache .nan) ⟨none, none, '_', false⟩ .create countMetric .nan :=
  (graphite_store_rates_iff (strbufPagesize 0) printfG15 (rateCache .nan) ⟨none, none, '_', false⟩ rfl rfl
    (.counter rfl rfl) (ucGetRate_rateCache .nan)).mpr rfl

/-- A counter 5 with the rate 2: its bits are those of a denormal number. -/
theorem counter_rate_not_written :
    Writes (strbufPagesize 0) printfG15 (rateCache (.fin 2)) ⟨none, none, '_', false⟩ true .create countMetric
        "2.47032822920623e-323" ∧ gaugeText printfG15 (.fin 2) = "2" ∧
      ¬ StoresRates (strbufPagesize 0) printfG15 (rateCache (.fin 2)) ⟨none, none, '_', false⟩ .create countMetric
        (.fin 2) := by
  have written : Writes (strbufPagesize 0) printfG15 (rateCache (.fin 2)) ⟨none, none, '_', false⟩ true .create
      countMetric _ := writes_stored (strbufPagesize 0) printfG15 (rateCache (.fin 2)) ⟨none, none, '_', false⟩ rfl rfl
    (.counter rfl rfl) (ucGetRate_rateCache (.fin 2)) rfl
  have text : (if Double.fin 2 = .nan then "nan".toList else printfG15.gaugeFormat (.ofBits 5)) =
      "2.47032822920623e-323" := by decide +kernel
  have rate : gaugeText printfG15 (.fin 2) = "2" := by decide +kernel
  rw [text] at written
  refine ⟨written, rate, fun stores => ?_⟩
  have equal := written.value_eq stores.rate
  rw [rate] at equal
  cases equal

end NCollectd.FormatGraphite
