import NCollectd.Base.Terminated
import NCollectd.Metric.Identity
import NCollectd.Base.Numerals
import NCollectd.Utils.Time

namespace NCollectd.FormatOpenmetrics

open List LabelSet Terminated

structure GaugePrintf where
  gaugeFormat : Double → CString
  oneLine : '\n' ∉ gaugeFormat value

/-- `metric_family_t` with its metrics. -/
structure HelpFamily where
  family : MetricFamily
  help : Option CString
  metrics : List Metric

/-- A family of scalar type with metrics of its own, whose label names are those `label_set_add` accepts. -/
structure Exposition extends HelpFamily where
  named : ∀ c ∈ family.name, c ∈ validNameChars
  occupied : metrics ≠ []
  own : ∀ m ∈ metrics, m.family = family
  labelled : ∀ m ∈ metrics, ∃ pairs, readPairs m.label = some pairs ∧
    ∀ pair ∈ pairs, ∀ c ∈ pair.name, c ∈ validLabelChars
  valued : ∀ m ∈ metrics, match family.type with
    | .counter => ∃ value, m.value = .counter value
    | .gauge | .untyped => ∃ value, m.value = .gauge value
    | .distribution => False

def typeName : MetricType → Option CString
  | .gauge => some "gauge"
  | .counter => some "counter"
  | .untyped => some "untyped"
  | .distribution => none

def valueText (printf : GaugePrintf) (type : MetricType) (value : Value) : Option CString :=
  if type = .counter then value.counter?.map (printUnsigned ·.toNat) else value.gauge?.map printf.gaugeFormat

def timeText (time : CdTime) : CString := if 0 < time then ' ' :: printUnsigned (Time.cdtimeToMs time).toNat else []

def statusOr (first second : Status) : Status := .ofNat (first.toNat ||| second.toNat)

def formatMetric (page : PageSize) (printf : GaugePrintf) (type : MetricType) (buf : Strbuf) (m : Metric) :
    Option (Status × Strbuf) := do
  let (first, buf) ← metricIdentity page buf m
  let value ← valueText printf type m.value
  let (second, buf) := strbufPrint page buf (' ' :: value)
  let (third, buf) := strbufPrint page buf (timeText m.time ++ ['\n'])
  some (statusOr (statusOr first second) third, buf)

def formatMetrics (page : PageSize) (printf : GaugePrintf) (type : MetricType) :
    Status → Strbuf → List Metric → Option (Status × Strbuf)
  | status, buf, [] => some (status, buf)
  | status, buf, m :: metrics => do
    let (next, buf) ← formatMetric page printf type buf m
    formatMetrics page printf type (statusOr status next) buf metrics

def helpText (family : MetricFamily) (help : Option CString) : CString :=
  "# HELP " ++ family.name ++ help.elim [] (' ' :: ·)

def typeText (family : MetricFamily) (type : CString) : CString :=
  "# TYPE " ++ family.name ++ ' ' :: type

def formatOpenmetricsMetricFamily (page : PageSize) (printf : GaugePrintf) (buf : Strbuf) (fam : HelpFamily) :
    Option (Status × Strbuf) :=
  if fam.metrics.length = 0 then some (0, buf)
  else
    match typeName fam.family.type with
    | none => some (EINVAL, buf)
    | some type =>
      let (first, buf) := strbufPrint page buf (helpText fam.family fam.help ++ ['\n'])
      let (second, buf) := strbufPrint page buf (typeText fam.family type ++ ['\n'])
      formatMetrics page printf fam.family.type (statusOr first second) buf fam.metrics

/-- The line of a metric: its identity, its value and its time. -/
def IsSample (printf : GaugePrintf) (m : Metric) (line : CString) : Prop :=
  ∃ pairs value, readPairs m.label = some pairs ∧ valueText printf m.family.type m.value = some value ∧
    line = identityText m.family.name pairs ++ ' ' :: value ++ timeText m.time

/-- A help line, a type line and one line for each metric, all of them ended. -/
def LineStructured (printf : GaugePrintf) (fam : HelpFamily) (text : CString) : Prop :=
  ∃ type samples, typeName fam.family.type = some type ∧ Forall₂ (IsSample printf) fam.metrics samples ∧
    finished '\n' text = helpText fam.family fam.help :: typeText fam.family type :: samples ∧
    unfinished '\n' text = []

theorem newline_notMem_identityText (chars : '\n' ∉ name)
    (labels : ∀ pair ∈ pairs, ∀ c ∈ pair.name, c ∈ validLabelChars) : '\n' ∉ identityText name pairs := by
  have escaped (value : CString) : '\n' ∉ escapeText needEscape '\\' value := by
    intro member
    obtain ⟨c, _, inside⟩ := mem_flatMap.mp member
    split at inside
    · simp only [mem_cons, not_mem_nil, or_false, escapedChar, if_true] at inside
      grind
    · rename_i plain
      rw [← mem_singleton.mp inside] at plain
      exact plain (by decide)
  have entries (i : Nat) (pair : LabelPair) (member : pair ∈ pairs) : '\n' ∉ entryText i pair := by
    have plain : '\n' ∉ pair.name := fun inside => absurd (labels pair member _ inside) (by decide)
    simp only [entryText, pairText]
    split <;> simp [plain, escaped]
  unfold identityText labelText
  split
  · exact chars
  · simp only [mem_append, mem_cons, mem_flatten, mem_mapIdx]
    rintro (inside | inside | ⟨_, ⟨i, bound, rfl⟩, inside⟩ | inside | inside)
    · exact chars inside
    · cases inside
    · exact entries i _ (getElem_mem bound) inside
    all_goals cases inside

theorem newline_notMem_printUnsigned : '\n' ∉ printUnsigned n := fun member =>
  absurd (isDigit_printUnsigned member) (by decide)

theorem newline_notMem_valueText (printed : valueText printf type value = some text) : '\n' ∉ text := by
  unfold valueText at printed
  split at printed
  · obtain ⟨_, _, rfl⟩ := Option.map_eq_some_iff.mp printed
    exact newline_notMem_printUnsigned
  · obtain ⟨_, _, rfl⟩ := Option.map_eq_some_iff.mp printed
    exact printf.oneLine

theorem Exposition.sample (fam : Exposition) (printf : GaugePrintf) (member : m ∈ fam.metrics) :
    ∃ line, IsSample printf m line ∧ '\n' ∉ line := by
  obtain ⟨pairs, read, labels⟩ := fam.labelled m member
  have valued := fam.valued m member
  have own := fam.own m member
  have printed : ∃ value, valueText printf m.family.type m.value = Option.some value := by
    rw [own]
    cases type : fam.family.type <;> rw [type] at valued
    case distribution => exact valued.elim
    all_goals
      obtain ⟨value, written⟩ := valued
      simp [valueText, written, Value.counter?, Value.gauge?]
  obtain ⟨value, printed⟩ := printed
  refine ⟨_, ⟨pairs, value, read, printed, rfl⟩, ?_⟩
  have name : '\n' ∉ m.family.name := fun inside => absurd (fam.named _ (own ▸ inside)) (by decide)
  have time : '\n' ∉ timeText m.time := by
    unfold timeText
    split <;> simp [newline_notMem_printUnsigned]
  simp [newline_notMem_identityText name labels, newline_notMem_valueText printed, time]

theorem formatMetric_appends (page : PageSize) (sample : IsSample printf m line) (growing : buf.fixed = false) :
    ∃ next, formatMetric page printf m.family.type buf m = some (0, next) ∧ next.fixed = false ∧
      next.text = buf.text ++ (line ++ ['\n']) := by
  obtain ⟨pairs, value, read, printed, rfl⟩ := sample
  obtain ⟨first, identity, flag₁, text₁⟩ := metricIdentity_appends page read growing
  obtain ⟨second, written₂, flag₂, text₂⟩ := strbufPrint_appends page (' ' :: value) first flag₁
  obtain ⟨third, written₃, flag₃, text₃⟩ := strbufPrint_appends page (timeText m.time ++ ['\n']) second flag₂
  refine ⟨third, ?_, flag₃, ?_⟩
  · dsimp only at written₂ written₃
    simp only [formatMetric, identity, printed, written₂, written₃, Option.bind_eq_bind, Option.bind_some]
    rfl
  · simp [text₃, text₂, text₁]

theorem formatMetrics_appends (page : PageSize) (printed : Forall₂ (IsSample printf) metrics samples)
    (own : ∀ m ∈ metrics, m.family.type = type) (growing : buf.fixed = false) :
    ∃ next, formatMetrics page printf type 0 buf metrics = some (0, next) ∧
      next.text = buf.text ++ samples.flatMap (· ++ ['\n']) := by
  induction printed generalizing buf with
  | nil => exact ⟨buf, rfl, by simp⟩
  | cons sample later ih =>
    obtain ⟨middle, first, flag, text⟩ := formatMetric_appends page sample growing
    rw [own _ (mem_cons_self ..)] at first
    obtain ⟨next, rest, text'⟩ := ih (fun m member => own m (mem_cons_of_mem _ member)) flag
    exact ⟨next, by rw [formatMetrics, first]; exact rest, by simp [text', text]⟩

theorem finished_lines (clean : ∀ line ∈ lines, '\n' ∉ line) :
    finished '\n' (lines.flatMap (· ++ ['\n'])) = lines ∧ unfinished '\n' (lines.flatMap (· ++ ['\n'])) = [] := by
  induction lines with
  | nil => exact ⟨rfl, rfl⟩
  | cons line lines ih =>
    obtain ⟨first, later⟩ := forall_mem_cons.mp clean
    rw [flatMap_cons, append_assoc, singleton_append, finished_append first, unfinished_append, (ih later).1]
    exact ⟨rfl, (ih later).2⟩

theorem Exposition.printed (fam : Exposition) (printf : GaugePrintf) :
    ∃ samples, Forall₂ (IsSample printf) fam.metrics samples ∧ ∀ line ∈ samples, '\n' ∉ line := by
  have each (m : Metric) (member : m ∈ fam.metrics) := fam.sample printf member
  generalize fam.metrics = metrics at each
  induction metrics with
  | nil => exact ⟨[], .nil, by simp⟩
  | cons m metrics ih =>
    obtain ⟨line, sample, oneLine⟩ := each m (mem_cons_self ..)
    obtain ⟨lines, printed, clean⟩ := ih fun m member => each m (mem_cons_of_mem _ member)
    exact ⟨line :: lines, .cons sample printed, forall_mem_cons.mpr ⟨oneLine, clean⟩⟩

theorem Exposition.typed (fam : Exposition) : ∃ type, typeName fam.family.type = some type ∧ '\n' ∉ type := by
  obtain ⟨m, member⟩ := exists_mem_of_ne_nil _ fam.occupied
  have valued := fam.valued m member
  cases type : fam.family.type <;> rw [type] at valued
  case distribution => exact valued.elim
  all_goals exact ⟨_, rfl, by decide⟩

theorem format_text (page : PageSize) (printed : Forall₂ (IsSample printf) fam.metrics samples)
    (own : ∀ m ∈ fam.metrics, m.family = fam.family) (occupied : fam.metrics ≠ [])
    (known : typeName fam.family.type = some type) :
    ∃ buf, formatOpenmetricsMetricFamily page printf .create fam = some (0, buf) ∧
      buf.text =
        helpText fam.family fam.help ++ '\n' :: (typeText fam.family type :: samples).flatMap (· ++ ['\n']) := by
  obtain ⟨first, written₁, flag₁, text₁⟩ :=
    strbufPrint_appends page (helpText fam.family fam.help ++ ['\n']) .create rfl
  obtain ⟨second, written₂, flag₂, text₂⟩ := strbufPrint_appends page (typeText fam.family type ++ ['\n']) first flag₁
  obtain ⟨last, written₃, text₃⟩ :=
    formatMetrics_appends page printed (fun m member => congrArg _ (own m member)) flag₂
  refine ⟨last, ?_, by simp [text₃, text₂, text₁, Strbuf.create]⟩
  have zero : statusOr 0 0 = 0 := by decide
  simp only [formatOpenmetricsMetricFamily, length_eq_zero_iff, if_neg occupied, known, written₁, written₂, zero,
    written₃]

theorem Exposition.newline_notMem_name (fam : Exposition) : '\n' ∉ fam.family.name :=
  fun inside => absurd (fam.named _ inside) (by decide)

theorem newline_notMem_typeText (name : '\n' ∉ family.name) (plain : '\n' ∉ type) : '\n' ∉ typeText family type := by
  have mark : '\n' ∉ "# TYPE ".toList := by simp
  exact not_mem_append (not_mem_append mark name) (not_mem_cons_of_ne_of_not_mem (by decide) plain)

theorem newline_notMem_helpText (name : '\n' ∉ family.name) (oneLine : ∀ text, help = some text → '\n' ∉ text) :
    '\n' ∉ helpText family help := by
  have mark : '\n' ∉ "# HELP ".toList := by simp
  refine not_mem_append (not_mem_append mark name) ?_
  cases help with
  | none => exact not_mem_nil
  | some text => exact not_mem_cons_of_ne_of_not_mem (by decide) (oneLine text rfl)

theorem count_helpText (family : MetricFamily) (text : CString) :
    text.count '\n' ≤ (helpText family (some text)).count '\n' :=
  ((sublist_cons_self ' ' text).trans (sublist_append_right _ _)).count_le '\n'

theorem structured_iff (fam : Exposition) (printed : Forall₂ (IsSample printf) fam.metrics samples)
    (clean : ∀ line ∈ samples, '\n' ∉ line) (known : typeName fam.family.type = some type) (plain : '\n' ∉ type)
    (whole : text =
      helpText fam.family fam.help ++ '\n' :: (typeText fam.family type :: samples).flatMap (· ++ ['\n'])) :
    LineStructured printf fam.toHelpFamily text ↔ ∀ help, fam.help = some help → '\n' ∉ help := by
  have typeClean := newline_notMem_typeText fam.newline_notMem_name plain
  have rest := finished_lines (forall_mem_cons.mpr ⟨typeClean, clean⟩)
  refine ⟨fun ⟨type', samples', _, printed', lines, _⟩ help given inside => ?_, fun oneLine => ?_⟩
  · have length := congrArg List.length lines
    have more := count_pos_iff.mpr inside
    have within := count_helpText fam.family help
    have each : ((typeText fam.family type :: samples).flatMap (· ++ ['\n'])).count '\n' = samples.length + 1 := by
      rw [← length_finished, rest.1, length_cons]
    rw [length_finished, whole, count_append, count_cons_self, each, length_cons, length_cons, ← printed'.length_eq,
      printed.length_eq, given] at length
    omega
  · have helpClean := newline_notMem_helpText fam.newline_notMem_name oneLine
    exact ⟨type, samples, known, printed, by rw [whole, finished_append helpClean, rest.1],
      by rw [whole, unfinished_append, rest.2]⟩

/-- The text is one line for each thing that is said, exactly if the help text has no newline. -/
theorem exposition_lines_iff (page : PageSize) (printf : GaugePrintf) (fam : Exposition) :
    ∃ buf, formatOpenmetricsMetricFamily page printf .create fam.toHelpFamily = some (0, buf) ∧
      (LineStructured printf fam.toHelpFamily buf.text ↔ ∀ help, fam.help = some help → '\n' ∉ help) := by
  obtain ⟨samples, printed, clean⟩ := fam.printed printf
  obtain ⟨type, known, plain⟩ := fam.typed
  obtain ⟨last, formatted, whole⟩ := format_text page printed fam.own fam.occupied known
  exact ⟨last, formatted, structured_iff fam printed clean known plain whole⟩

def zeroPrintf : GaugePrintf := ⟨fun _ => ['0'], by simp⟩

/-- A metric whose label `l` has the value `x`, newline, `y`. -/
def twoLineLabel : Exposition where
  family := ⟨['a'], .gauge⟩
  help := none
  metrics := [⟨⟨['a'], .gauge⟩, ⟨⟨[some ['l'], some ['x', '\n', 'y']]⟩, pairBytes 0 1, 1⟩, .gauge (.fin 0), 0, 0⟩]
  named c member := by
    rw [mem_singleton.mp member]
    decide
  occupied := cons_ne_nil _ _
  own m member := by rw [mem_singleton.mp member]
  labelled m member := by
    rw [mem_singleton.mp member]
    refine ⟨[⟨['l'], ['x', '\n', 'y']⟩], by decide +kernel, fun pair only c inside => ?_⟩
    obtain rfl := mem_singleton.mp only
    rw [mem_singleton.mp inside]
    decide
  valued m member := ⟨.fin 0, by rw [mem_singleton.mp member]⟩

theorem exposition_lines_label :
    ∃ buf, formatOpenmetricsMetricFamily (strbufPagesize 0) zeroPrintf .create twoLineLabel.toHelpFamily =
        some (0, buf) ∧
      buf.text = "# HELP a\n# TYPE a gauge\na\x7bl=\"x\\ny\"\x7d 0\n" ∧
      LineStructured zeroPrintf twoLineLabel.toHelpFamily buf.text := by
  obtain ⟨buf, formatted, lines⟩ := exposition_lines_iff (strbufPagesize 0) zeroPrintf twoLineLabel
  have text : (formatOpenmetricsMetricFamily (strbufPagesize 0) zeroPrintf .create twoLineLabel.toHelpFamily).map
      (fun result => result.2.text) = some "# HELP a\n# TYPE a gauge\na\x7bl=\"x\\ny\"\x7d 0\n".toList := by
    decide +kernel
  rw [formatted, Option.map_some, Option.some.injEq] at text
  refine ⟨buf, formatted, text, lines.mpr fun help given => ?_⟩
  cases given

def twoLineHelp : Exposition where
  family := ⟨['a'], .gauge⟩
  help := some ['h', '\n', 'b', ' ', '1']
  metrics := [⟨⟨['a'], .gauge⟩, .empty, .gauge (.fin 0), 0, 0⟩]
  named c member := by
    rw [mem_singleton.mp member]
    decide
  occupied := cons_ne_nil _ _
  own m member := by rw [mem_singleton.mp member]
  labelled m member := by
    rw [mem_singleton.mp member]
    exact ⟨[], rfl, by simp⟩
  valued m member := ⟨.fin 0, by rw [mem_singleton.mp member]⟩

theorem twoLineHelp_not_structured :
    ∃ buf, formatOpenmetricsMetricFamily (strbufPagesize 0) zeroPrintf .create
      twoLineHelp.toHelpFamily = some (0, buf) ∧
      ¬ LineStructured zeroPrintf twoLineHelp.toHelpFamily buf.text := by
  obtain ⟨samples, printed, clean⟩ := twoLineHelp.printed zeroPrintf
  obtain ⟨type, known, plain⟩ := twoLineHelp.typed
  obtain ⟨last, formatted, whole⟩ := format_text (strbufPagesize 0) printed twoLineHelp.own twoLineHelp.occupied known
  refine ⟨last, formatted, fun lines => ?_⟩
  exact (structured_iff twoLineHelp printed clean known plain whole).mp lines _ rfl (by decide)

end NCollectd.FormatOpenmetrics
