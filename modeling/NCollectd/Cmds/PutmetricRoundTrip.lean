import NCollectd.Cmds.PutmetricLine
import NCollectd.LabelSet.Slots

/-! A metric written by `cmd_format_putmetric` and read back by `cmd_parse`. -/

namespace NCollectd.Cmds

open Common LabelSet List

theorem putmetricLoop_append (done : putmetricLoop platform s front = some (.ok, s')) :
    putmetricLoop platform s (front ++ back) = putmetricLoop platform s' back := by
  induction front generalizing s with
  | nil =>
    cases done
    rfl
  | cons argument front ih =>
    simp only [cons_append, putmetricLoop] at done ⊢
    cases step : putmetricStep platform s argument with
    | none =>
      rw [step] at done
      cases done
    | some result =>
      obtain ⟨status, next⟩ := result
      rw [step] at done
      cases status with
      | ok => exact ih done
      | _ => cases done

theorem putmetricLoop_single (step : putmetricStep platform s argument = some (.ok, s')) :
    putmetricLoop platform s [argument] = some (.ok, s') := by
  simp only [putmetricLoop, step]

theorem cmdParseOption_free (free : '=' ∉ field) : cmdParseOption field = .error .noOption := by
  unfold cmdParseOption
  split
  · rename_i value shape
    have inside : '=' ∈ field.dropWhile isKeyChar := shape ▸ mem_cons_self
    exact absurd ((dropWhile_sublist isKeyChar).mem inside) free
  · rfl

theorem step_name (chars : ∀ c ∈ name, c ∈ validNameChars) :
    putmetricStep platform .initial name =
      some (.ok, ⟨{ PutmetricState.initial.metric with family.name := name }, 1⟩) := by
  have word := cmdParseOption_word fun c member => (validNameChars_plain (chars c member)).2
  simp only [putmetricStep, word, PutmetricState.initial, ↓reduceIte]

theorem loop_type (type : MetricType) (scalar : type ≠ .distribution) (untyped : s.metric.family.type = .untyped) :
    putmetricLoop platform s (typeFields type) = some (.ok, { s with metric.family.type := type }) := by
  have counter : cmdParseOption "type=COUNTER" = .ok ("type", "COUNTER") := by decide
  have gauge : cmdParseOption "type=GAUGE" = .ok ("type", "GAUGE") := by decide
  have key : strcasecmp "type" "type" = 0 := strcmp_self _
  cases type with
  | distribution => exact (scalar rfl).elim
  | untyped =>
    obtain ⟨⟨⟨name, type⟩, label, value, time, interval⟩, nextPos⟩ := s
    cases untyped
    rfl
  | counter =>
    apply putmetricLoop_single
    have named : typeNamed "COUNTER" = some .counter := by decide
    simp only [putmetricStep, counter, setMetricOption, key, ↓reduceIte, named, Option.map_some]
  | gauge =>
    apply putmetricLoop_single
    have named : typeNamed "GAUGE" = some .gauge := by decide
    simp only [putmetricStep, gauge, setMetricOption, key, ↓reduceIte, named, Option.map_some]

theorem timeOption_fixed (library : MetricLibrary platform printf) (time : CdTime) :
    ∃ read, timeOption platform (printf.fixed3 (cdtimeToDouble time)) = .ok read := by
  obtain ⟨succeeded, whole, positive⟩ := library.fixedRead time
  refine ⟨platform.doubleToCdtime (platform.strtod (printf.fixed3 (cdtimeToDouble time))).value, ?_⟩
  simp [timeOption, succeeded, whole, positive]

theorem loop_timeFields (library : MetricLibrary platform printf) (time : CdTime) (key : CString)
    (set : CdTime → Metric) (plain : key.all isKeyChar = true) (filled : key ≠ []) (kept : ∃ read, set read = s.metric)
    (option : ∀ value, setMetricOption platform s.metric key value =
      match timeOption platform value with
      | .error status => some (status, s.metric)
      | .ok read => some (.ok, set read)) :
    ∃ read, putmetricLoop platform s (timeFields printf (key ++ ['=']) time) =
      some (.ok, { s with metric := set read }) := by
  unfold timeFields
  split
  · obtain ⟨read, accepted⟩ := timeOption_fixed library time
    refine ⟨read, putmetricLoop_single ?_⟩
    have parsed := cmdParseOption_option (all_eq_true.mp plain) filled (printf.fixed3 (cdtimeToDouble time))
    rw [append_assoc, singleton_append]
    simp only [putmetricStep, parsed, option, accepted, Option.map_some]
  · obtain ⟨read, same⟩ := kept
    exact ⟨read, by rw [same]; rfl⟩

def readBack (pair : LabelPair) : LabelPair := ⟨pair.name, pair.value.map (escapedChar '\\')⟩

theorem strcasecmp_head {s t : CString} (different : first.toLower ≠ other.toLower) :
    strcasecmp (first :: s) (other :: t) ≠ 0 := by
  intro same
  have lists := (strcmp_eq_zero_iff _ _).mp same
  rw [map_cons, map_cons] at lists
  exact different (cons.inj lists).1

theorem setMetricOption_label (m : Metric) (name value : CString) :
    setMetricOption platform m ("label:" ++ name) value =
      (metricLabelSet m name (some value)).map fun (status, m) => (if status ≠ 0 then .error else .ok, m) := by
  have type : strcasecmp "type" ("label:" ++ name) ≠ 0 := strcasecmp_head (by decide)
  have interval : strcasecmp "interval" ("label:" ++ name) ≠ 0 := strcasecmp_head (by decide)
  have time : strcasecmp "time" ("label:" ++ name) ≠ 0 := strcasecmp_head (by decide)
  have label : strncasecmp "label:" ("label:" ++ name) 5 = 0 := strcmp_self _
  have rest : labelName ("label:" ++ name) value = name := by
    unfold labelName
    rw [if_neg]
    · rfl
    · intro short
      have length : ("label:" ++ name).length = 6 + name.length := by rw [length_append]; rfl
      omega
  simp only [setMetricOption, type, interval, time, label, rest, ↓reduceIte]

theorem isKeyChar_label (valid : validLabelName name = true) :
    ∀ c ∈ "label:" ++ name, isKeyChar c = true := by
  intro c member
  rcases mem_append.mp member with front | back
  · exact all_eq_true.mp (show "label:".toList.all isKeyChar = true by decide) c front
  · exact (validNameChars_plain (validLabelChars_name (validLabel_chars valid c back))).2

theorem loop_labels (platform : Platform) {pairs stored : List LabelPair}
    (valid : ∀ pair ∈ pairs, pair.value ≠ [] ∧ validLabelName pair.name = true)
    (stores : Stores s.metric.label stored) :
    ∃ labels after, putmetricLoop platform s (pairs.map labelField) = some (.ok, { s with metric.label := labels }) ∧
      Stores labels after ∧
      (((stored ++ pairs.map readBack).map LabelPair.name).Pairwise (· < ·) →
        after = stored ++ pairs.map readBack) := by
  induction pairs generalizing s stored with
  | nil =>
    refine ⟨s.metric.label, stored, rfl, stores, fun _ => ?_⟩
    rw [map_nil, append_nil]
  | cons pair pairs ih =>
    obtain ⟨given, name⟩ := valid pair mem_cons_self
    have some : pair.value.map (escapedChar '\\') ≠ [] := mt map_eq_nil_iff.mp given
    obtain ⟨labels, middle, added, kept, atEnd⟩ := stores.set name some
    have option := cmdParseOption_option (isKeyChar_label name) (by simp) (pair.value.map (escapedChar '\\'))
    have step : putmetricStep platform s (labelField pair) = .some (.ok, { s with metric.label := labels }) := by
      unfold labelField putmetricStep
      rw [option]
      simp only [setMetricOption_label, metricLabelSet, added, Option.map_some, ne_eq, not_true_eq_false, ↓reduceIte]
    obtain ⟨last, after, rest, result, sorted⟩ :=
      ih (s := { s with metric.label := labels }) (fun other member => valid other (mem_cons_of_mem pair member)) kept
    refine ⟨last, after, ?_, result, ?_⟩
    · simp only [map_cons, putmetricLoop, step]
      exact rest
    · intro ascending
      have shape : stored ++ (pair :: pairs).map readBack = stored ++ [readBack pair] ++ pairs.map readBack := by simp
      rw [shape] at ascending ⊢
      have front : middle = stored ++ [readBack pair] := by
        apply atEnd
        intro earlier member
        rw [map_append, map_append, append_assoc, pairwise_append] at ascending
        exact ascending.2.2 earlier.name (mem_map_of_mem member) pair.name (by simp [readBack])
      rw [front] at sorted
      exact sorted ascending

theorem loop_fields (library : MetricLibrary platform printf) (scalar : m.family.type ≠ .distribution)
    (chars : ∀ c ∈ m.family.name, c ∈ validNameChars) (text : valueText printf m = some value)
    (valid : ∀ pair ∈ pairs, pair.value ≠ [] ∧ validLabelName pair.name = true) :
    ∃ labels after time interval, Stores labels after ∧
      ((pairs.map LabelPair.name).Pairwise (· < ·) → after = pairs.map readBack) ∧
      putmetricLoop platform .initial (m.family.name :: optionFields printf m pairs value) =
        match parseValue platform value m.family.type.number with
        | .error _ => some (.error, ⟨⟨m.family, labels, .gauge (.fin 0), time, interval⟩, 1⟩)
        | .ok read => some (.ok, ⟨⟨m.family, labels, read, time, interval⟩, 2⟩) := by
  obtain ⟨time, timed⟩ := loop_timeFields library m.time "time"
    (fun time => ⟨m.family, .empty, .gauge (.fin 0), time, 0⟩) (s := ⟨⟨m.family, .empty, .gauge (.fin 0), 0, 0⟩, 1⟩)
    (by decide) (by decide) ⟨0, rfl⟩ fun _ => rfl
  obtain ⟨interval, repeated⟩ := loop_timeFields library m.interval "interval"
    (fun interval => ⟨m.family, .empty, .gauge (.fin 0), time, interval⟩)
    (s := ⟨⟨m.family, .empty, .gauge (.fin 0), time, 0⟩, 1⟩) (by decide) (by decide) ⟨0, rfl⟩ fun _ => rfl
  obtain ⟨labels, after, labelled, stores, sorted⟩ := loop_labels platform
    (s := ⟨⟨m.family, .empty, .gauge (.fin 0), time, interval⟩, 1⟩) valid Stores.empty
  have first : putmetricLoop platform .initial [m.family.name] =
      some (.ok, ⟨⟨⟨m.family.name, .untyped⟩, .empty, .gauge (.fin 0), 0, 0⟩, 1⟩) :=
    putmetricLoop_single (step_name chars)
  have typed : putmetricLoop platform ⟨⟨⟨m.family.name, .untyped⟩, .empty, .gauge (.fin 0), 0, 0⟩, 1⟩
      (typeFields m.family.type) = some (.ok, ⟨⟨m.family, .empty, .gauge (.fin 0), 0, 0⟩, 1⟩) :=
    loop_type m.family.type scalar rfl
  refine ⟨labels, after, time, interval, stores, ?_, ?_⟩
  · intro ascending
    apply sorted
    rw [nil_append, map_map]
    exact ascending
  · have word := cmdParseOption_free fun member => ((valueText_plain library text).2 '=' member).2 rfl
    have shape : m.family.name :: optionFields printf m pairs value = [m.family.name] ++ (typeFields m.family.type ++
        (timeFields printf ("time" ++ ['=']) m.time ++ (timeFields printf ("interval" ++ ['=']) m.interval ++
          (pairs.map labelField ++ [value])))) := by
      simp only [optionFields, append_assoc, cons_append, nil_append]
      rfl
    rw [shape, putmetricLoop_append first, putmetricLoop_append typed, putmetricLoop_append timed,
      putmetricLoop_append repeated, putmetricLoop_append labelled]
    simp only [putmetricLoop, putmetricStep, word]
    cases parseValue platform value m.family.type.number <;> rfl

theorem line_shape (split : start = word ++ [' ']) :
    start ++ name ++ rest = word ++ (' ' :: name ++ rest) := by
  subst split
  simp

/-- The metric `cmd_parse` makes of a line with a name. -/
theorem cmdParseMetric_line (library : MetricLibrary platform printf) (scalar : m.family.type ≠ .distribution)
    (chars : ∀ c ∈ m.family.name, c ∈ validNameChars) (named : m.family.name ≠ [])
    (text : valueText printf m = some value)
    (valid : ∀ pair ∈ pairs, pair.value ≠ [] ∧ validLabelName pair.name = true)
    (clean : ∀ pair ∈ pairs, NUL ∉ pair.value) :
    ∃ labels after time interval, Stores labels after ∧
      ((pairs.map LabelPair.name).Pairwise (· < ·) → after = pairs.map readBack) ∧
      cmdParseMetric platform ("PUTMETRIC " ++ m.family.name ++ optionsText printf m pairs value) =
        match parseValue platform value m.family.type.number with
        | .error _ => some (.error .error)
        | .ok read => some (.ok ⟨m.family, labels, read, time, interval⟩) := by
  obtain ⟨labels, after, time, interval, stores, sorted, loop⟩ := loop_fields library scalar chars text valid
  refine ⟨labels, after, time, interval, stores, sorted, ?_⟩
  have name := Spells.word named fun c member => (validNameChars_plain (chars c member)).1
  have spells := name.append (spells_options library text (fun pair member => (valid pair member).2) clean)
  have fields : cmdSplit ("PUTMETRIC" ++ _) = _ :=
    spells.cmdSplit (by decide) (all_eq_true.mp (by decide))
  have line : "PUTMETRIC " ++ m.family.name ++ optionsText printf m pairs value =
      "PUTMETRIC" ++ (' ' :: m.family.name ++ optionsText printf m pairs value) :=
    line_shape (by decide)
  have command (argv : List CString) : cmdParsev ("PUTMETRIC".toList :: argv) = .ok (.putmetric, argv) := by
    have found : (commandNames.find? fun named => strcasecmp named.1 "PUTMETRIC".toList = 0) =
        some ("PUTMETRIC".toList, .putmetric) := by decide
    simp only [cmdParsev, found]
  have several : ¬ (m.family.name :: optionFields printf m pairs value).length < 2 := by
    have last : 1 ≤ (optionFields printf m pairs value).length := by
      rw [optionFields, length_append]
      exact Nat.le_add_left 1 _
    rw [length_cons]
    omega
  rw [line]
  unfold cmdParseMetric
  simp only [fields, command]
  show cmdParsePutmetric platform (m.family.name :: optionFields printf m pairs value) = _
  unfold cmdParsePutmetric
  rw [if_neg several, loop]
  cases parseValue platform value m.family.type.number <;> rfl

theorem scan_filled (current : Option CString) (inQuotes : Bool) (rest : List Char) (started : current ≠ some []) :
    ∀ field ∈ (scan current inQuotes rest).fields, field ≠ [] := by
  have opened : ∀ field ∈ current.toList, field ≠ [] := by
    rintro field member rfl
    exact started (Option.mem_toList.mp member)
  have after {texts : List CString} {later : Scan} (front : ∀ field ∈ texts, field ≠ [])
      (back : ∀ field ∈ later.fields, field ≠ []) : ∀ field ∈ (later.after texts).fields, field ≠ [] := by
    intro field member
    exact (mem_append.mp member).elim (front field) (back field)
  fun_induction scan current inQuotes rest with
  | case1 => exact opened
  | case2 current inQuotes c rest blank ih => exact after opened (ih (by simp) (by simp))
  | case3 => simp
  | case4 rest blank text ih => exact after opened (ih (by simp) (by simp))
  | case5 current inQuotes rest blank closed ih => exact ih started opened
  | case6 => exact opened
  | case7 current inQuotes c blank other escape next rest ih
  | case8 current inQuotes c rest blank other plain ih => exact ih (by simp) (by simp)

theorem cmdSplit_filled (clean : NUL ∉ line) (split : cmdSplit line = .ok fields) :
    ∀ field ∈ fields, field ≠ [] := by
  rw [cmdSplit_eq clean] at split
  split at split
  · cases split
  · split at split
    · cases split
      exact scan_filled none false line nofun
    all_goals cases split

theorem setMetricOption_name (set : setMetricOption platform m key value = some (status, m')) :
    m'.family.name = m.family.name := by
  unfold setMetricOption at set
  split at set
  · split at set <;> cases set <;> rfl
  · split at set
    · split at set <;> cases set <;> rfl
    · split at set
      · split at set <;> cases set <;> rfl
      · split at set
        · obtain ⟨⟨code, labelled⟩, changed, same⟩ := Option.map_eq_some_iff.mp set
          obtain ⟨⟨inner, label⟩, -, rest⟩ := Option.map_eq_some_iff.mp changed
          cases rest
          cases same
          rfl
        · cases set
          rfl

theorem step_named (filled : argument ≠ []) (step : putmetricStep platform s argument = some (status, s'))
    (before : s.nextPos = 0 ∨ s.metric.family.name ≠ []) : s'.nextPos = 0 ∨ s'.metric.family.name ≠ [] := by
  unfold putmetricStep at step
  split at step
  · obtain ⟨⟨code, changed⟩, set, same⟩ := Option.map_eq_some_iff.mp step
    cases same
    rw [← setMetricOption_name set] at before
    exact before
  · split at step
    · cases step
      exact .inr filled
    · rename_i later
      have named := before.resolve_left later
      split at step
      · split at step
        all_goals
          cases step
          exact .inr named
      · cases step
        exact .inr named
  · cases step
    exact before

theorem loop_named (filled : ∀ field ∈ fields, field ≠ [])
    (loop : putmetricLoop platform s fields = some (status, s'))
    (before : s.nextPos = 0 ∨ s.metric.family.name ≠ []) : s'.nextPos = 0 ∨ s'.metric.family.name ≠ [] := by
  induction fields generalizing s with
  | nil =>
    cases loop
    exact before
  | cons field fields ih =>
    have first := filled field mem_cons_self
    unfold putmetricLoop at loop
    split at loop
    · cases loop
    · rename_i step
      exact ih (fun other member => filled other (mem_cons_of_mem field member)) loop (step_named first step before)
    · rename_i step
      cases loop
      exact step_named first step before

/-- A command that was parsed has a name. -/
theorem cmdParseMetric_named (clean : NUL ∉ line) (parsed : cmdParseMetric platform line = some (.ok m)) :
    m.family.name ≠ [] := by
  unfold cmdParseMetric at parsed
  split at parsed
  · cases parsed
  · cases parsed
  · rename_i fields split
    have filled := cmdSplit_filled clean split
    split at parsed
    · cases parsed
    · rename_i argv command
      have inner : ∀ field ∈ argv, field ≠ [] := by
        unfold cmdParsev at command
        split at command
        · cases command
        · split at command
          · cases command
          · cases command
            exact fun field member => filled field (mem_cons_of_mem _ member)
      unfold cmdParsePutmetric at parsed
      split at parsed
      · cases parsed
      · obtain ⟨⟨result, final⟩, loop, same⟩ := Option.map_eq_some_iff.mp parsed
        have named := loop_named inner loop (.inl rfl)
        dsimp only at same
        split at same
        · split at same
          · cases same
          · rename_i two
            cases same
            apply named.resolve_left
            omega
        · cases same
    · cases parsed

def gaugeBits (ofBits : UInt64 → Double) : Value → Option Double
  | .gauge value => some value
  | .counter value => some (ofBits value)
  | .derive value => some (ofBits (UInt64.ofInt value))
  | .distribution _ => none

/-- The member that belongs to the type is the same. -/
def SameValue (ofBits : UInt64 → Double) (type : MetricType) (value read : Value) : Prop :=
  match type with
  | .counter => read.counter? = value.counter?
  | _ => gaugeBits ofBits read = value.gauge?

/-- The line is read back as a family with one metric, with the same type, labels and value. -/
def PutmetricRoundTrips (page : PageSize) (platform : Platform) (printf : MetricPrintf) (ofBits : UInt64 → Double)
    (m : Metric) : Prop :=
  ∀ buf, cmdFormatPutmetric page printf .create m = some (0, buf) →
    ∃ parsed pairs, cmdParseMetric platform buf.text = some (.ok parsed) ∧ parsed.family = m.family ∧
      readPairs m.label = some pairs ∧ readPairs parsed.label = some pairs ∧
      SameValue ofBits m.family.type m.value parsed.value

/-- A metric with labels from `metric_label_set` whose gauge, if it has one, is read back by `strtod`. -/
structure PutmetricInput (platform : Platform) (printf : MetricPrintf) where
  metric : Metric
  calls : List LabelCall
  built : runCalls .empty calls = some metric.label
  chars : ∀ c ∈ metric.family.name, c ∈ validNameChars
  scalar : metric.family.type ≠ .distribution
  clean : ∀ pairs, readPairs metric.label = some pairs → ∀ pair ∈ pairs, NUL ∉ pair.value
  gaugeRead : ∀ gauge, metric.value.gauge? = some gauge →
    (platform.strtod (printf.gaugeFormat gauge)).consumed ≠ 0 ∧
      (platform.strtod (printf.gaugeFormat gauge)).value = gauge

/-- What a line can transport. -/
structure Transcribed (ofBits : UInt64 → Double) (m : Metric) (pairs : List LabelPair) (text : CString) : Prop where
  named : m.family.name ≠ []
  sorted : (pairs.map LabelPair.name).Pairwise (· < ·)
  visible : ∀ pair ∈ pairs, ∀ c ∈ pair.value, c ≠ '\n' ∧ c ≠ '\r' ∧ c ≠ '\t'
  untyped : m.family.type = .untyped →
    (strtoll text).consumed ≠ 0 ∧ m.value.gauge? = some (ofBits (UInt64.ofInt (strtoll text).value))

section RoundTrip

variable {pairs : List LabelPair}

theorem escapedChar_eq_iff : escapedChar '\\' c = c ↔ c ≠ '\n' ∧ c ≠ '\r' ∧ c ≠ '\t' := by
  unfold escapedChar
  rw [if_pos rfl]
  by_cases newline : c = '\n'
  · subst newline
    decide
  · by_cases carriage : c = '\r'
    · subst carriage
      decide
    · by_cases tab : c = '\t'
      · subst tab
        decide
      · simp [newline, carriage, tab]

theorem map_eq_self_iff {items : List α} : items.map f = items ↔ ∀ item ∈ items, f item = item := by
  induction items with
  | nil => simp
  | cons item items ih => simp [ih]

theorem readBack_eq_iff : pairs.map readBack = pairs ↔
    ∀ pair ∈ pairs, ∀ c ∈ pair.value, c ≠ '\n' ∧ c ≠ '\r' ∧ c ≠ '\t' := by
  rw [map_eq_self_iff]
  apply forall₂_congr
  intro pair _
  have value : readBack pair = pair ↔ pair.value.map (escapedChar '\\') = pair.value := by
    constructor
    · exact congrArg LabelPair.value
    · intro same
      rw [readBack, same]
  rw [value, map_eq_self_iff]
  exact forall₂_congr fun c _ => escapedChar_eq_iff

theorem parseValue_text (ofBits : UInt64 → Double) (library : MetricLibrary platform printf)
    (input : PutmetricInput platform printf) (written : valueText printf input.metric = some text) :
    (∃ read, parseValue platform text input.metric.family.type.number = .ok read ∧
      SameValue ofBits input.metric.family.type input.metric.value read) ↔
    (input.metric.family.type = .untyped → (strtoll text).consumed ≠ 0 ∧
      input.metric.value.gauge? = some (ofBits (UInt64.ofInt (strtoll text).value))) := by
  have visible := (valueText_plain library written).2
  have trimmed : trimEnd text = text := trimEnd_eq fun c member => (isPlain_iff.mp (visible c member).1).1
  unfold valueText at written
  cases type : input.metric.family.type with
  | distribution => exact (input.scalar type).elim
  | counter =>
    rw [type] at written
    obtain ⟨counter, stored, rfl⟩ := Option.map_eq_some_iff.mp written
    have number := readNumeral_printUnsigned counter.toNat
    have digits : ∀ c ∈ printUnsigned counter.toNat, c.isDigit = true := fun c => isDigit_printUnsigned
    have parsed := parseValue_digits digits platform
      (by rw [number]; exact mt length_eq_zero_iff.mp printUnsigned_ne_nil)
      (by rw [number]; exact counter.toNat_lt) (.inl rfl)
    rw [number] at parsed
    refine iff_of_true ⟨_, parsed, ?_⟩ (by rintro ⟨⟩)
    rw [SameValue, stored]
    simp [storedInteger, Value.counter?]
  | gauge =>
    rw [type] at written
    obtain ⟨gauge, stored, rfl⟩ := Option.map_eq_some_iff.mp written
    obtain ⟨some, same⟩ := input.gaugeRead gauge stored
    refine iff_of_true ⟨.gauge gauge, ?_, ?_⟩ (by rintro ⟨⟩)
    · have other : MetricType.gauge.number ≠ DS_TYPE_COUNTER ∧ MetricType.gauge.number = DS_TYPE_GAUGE := by decide
      simp only [parseValue, if_neg other.1, if_pos other.2, trimmed, Conversion.accept, if_neg some, same]
    · exact stored.symm
  | untyped =>
    rw [type] at written
    obtain ⟨gauge, stored, rfl⟩ := Option.map_eq_some_iff.mp written
    have other : MetricType.untyped.number ≠ DS_TYPE_COUNTER ∧ MetricType.untyped.number ≠ DS_TYPE_GAUGE ∧
        MetricType.untyped.number = DS_TYPE_DERIVE := by decide
    simp only [parseValue, if_neg other.1, if_neg other.2.1, if_pos other.2.2, trimmed, Conversion.accept]
    constructor
    · rintro ⟨read, parsed, same⟩ -
      split at parsed
      · cases parsed
      · rename_i some
        cases parsed
        exact ⟨some, same.symm⟩
    · intro kept
      obtain ⟨some, same⟩ := kept trivial
      exact ⟨_, if_neg some, same.symm⟩

theorem nul_notMem_line (library : MetricLibrary platform printf) (written : valueText printf m = some text)
    (chars : ∀ c ∈ m.family.name, c ∈ validNameChars)
    (valid : ∀ pair ∈ pairs, pair.value ≠ [] ∧ validLabelName pair.name = true)
    (clean : ∀ pair ∈ pairs, NUL ∉ pair.value) :
    NUL ∉ "PUTMETRIC " ++ m.family.name ++ optionsText printf m pairs text := by
  have options := (spells_options library written (fun pair member => (valid pair member).2) clean).clean
  have command : NUL ∉ "PUTMETRIC ".toList := by decide
  have name : NUL ∉ m.family.name := fun member =>
    (isPlain_iff.mp (validNameChars_plain (chars NUL member)).1).2.2 rfl
  intro member
  rcases mem_append.mp member with front | back
  · exact (mem_append.mp front).elim command name
  · exact options back

end RoundTrip

/-- Labels in order, no line ends and tabs; the number of an untyped metric is read as an integer. -/
theorem putmetric_round_trip_iff (page : PageSize) {platform : Platform} {printf : MetricPrintf}
    (library : MetricLibrary platform printf) (ofBits : UInt64 → Double) (input : PutmetricInput platform printf) :
    PutmetricRoundTrips page platform printf ofBits input.metric ↔
      ∀ pairs text, readPairs input.metric.label = some pairs → valueText printf input.metric = some text →
        Transcribed ofBits input.metric pairs text := by
  have format := cmdFormatPutmetric_eq page printf input.scalar
  constructor
  · intro roundTrips pairs text labels written
    have valid := runCalls_valid input.built labels
    have clean := input.clean pairs labels
    simp only [labels, written] at format
    obtain ⟨buf, formatted, line⟩ := format
    obtain ⟨parsed, others, accepted, family, own, read, same⟩ := roundTrips buf formatted
    obtain rfl : others = pairs := Option.some.inj (own.symm.trans labels)
    rw [line] at accepted
    have named : input.metric.family.name ≠ [] := by
      rw [← family]
      exact cmdParseMetric_named (nul_notMem_line library written input.chars valid clean) accepted
    obtain ⟨array, after, time, interval, stores, sorted, parse⟩ :=
      cmdParseMetric_line library input.scalar input.chars named written valid clean
    rw [accepted] at parse
    split at parse
    · cases parse
    · rename_i value converted
      cases parse
      obtain rfl : after = others := Option.some.inj (stores.read.symm.trans read)
      have ascending := stores.wellFormed.sorted
      refine ⟨named, ascending, readBack_eq_iff.mp (sorted ascending).symm, ?_⟩
      exact (parseValue_text ofBits library input written).mp ⟨value, converted, same⟩
  · intro transcribed buf formatted
    cases labels : readPairs input.metric.label with
    | none =>
      simp only [labels] at format
      rw [format] at formatted
      cases formatted
    | some pairs =>
      cases written : valueText printf input.metric with
      | none =>
        simp only [labels, written] at format
        rw [format] at formatted
        cases formatted
      | some text =>
        obtain ⟨named, ascending, visible, untyped⟩ := transcribed pairs text labels written
        simp only [labels, written] at format
        obtain ⟨same, formatted', line⟩ := format
        rw [formatted] at formatted'
        cases formatted'
        obtain ⟨array, after, time, interval, stores, sorted, parse⟩ :=
          cmdParseMetric_line library input.scalar input.chars named written (runCalls_valid input.built labels)
            (input.clean pairs labels)
        obtain ⟨value, converted, same⟩ := (parseValue_text ofBits library input written).mpr untyped
        simp only [converted] at parse
        have content : after = pairs := (sorted ascending).trans (readBack_eq_iff.mpr visible)
        rw [line]
        exact ⟨_, pairs, parse, rfl, rfl, content ▸ stores.read, same⟩

def zeroPlatform : Platform := ⟨fun text => ⟨.fin 0, text.length, false⟩, fun _ => 0, fun _ => []⟩

def zeroPrintf : MetricPrintf := ⟨fun _ => "0.000", fun _ => ['0']⟩

theorem zeroLibrary : MetricLibrary zeroPlatform zeroPrintf where
  gaugeFilled := fun _ => cons_ne_nil _ _
  gaugePlain := by
    intro _ c member
    rw [mem_singleton.mp member]
    decide
  fixedPlain := fun _ => all_eq_true.mp (show "0.000".toList.all isPlain = true by decide)
  fixedRead := fun _ => ⟨rfl, rfl, rfl⟩

def labelledCounter (value : CString) : Metric :=
  ⟨⟨"up", .counter⟩, ((labelSetAdd .empty "a" (some value)).map Prod.snd).getD .empty, .counter 7, 0, 0⟩

theorem labelledCounter_built (filled : value ≠ []) :
    runCalls .empty [⟨"a", some value⟩] = some (labelledCounter value).label ∧
      readPairs (labelledCounter value).label = some [⟨"a", value⟩] := by
  obtain ⟨labels, pairs, added, stores, last⟩ :=
    Stores.empty.set (show validLabelName "a" = true by decide) filled
  obtain rfl := last nofun
  have label : (labelledCounter value).label = labels := by
    unfold labelledCounter
    rw [added]
    rfl
  refine ⟨?_, label ▸ stores.read⟩
  unfold runCalls
  rw [added, label]
  rfl

def labelledInput (value : CString) (filled : value ≠ []) (clean : NUL ∉ value) :
    PutmetricInput zeroPlatform zeroPrintf where
  metric := labelledCounter value
  calls := [⟨"a", some value⟩]
  built := (labelledCounter_built filled).1
  chars := fun c member => of_decide_eq_true
    (all_eq_true.mp (show "up".toList.all (· ∈ validNameChars) = true by decide +kernel) c member)
  scalar := show MetricType.counter ≠ .distribution by decide
  clean := by
    intro pairs read pair member
    obtain rfl : [⟨"a", value⟩] = pairs := Option.some.inj ((labelledCounter_built filled).2.symm.trans read)
    rw [mem_singleton.mp member]
    exact clean
  gaugeRead := nofun

theorem putmetric_round_trip_labelled :
    MetricLibrary zeroPlatform zeroPrintf ∧
      PutmetricRoundTrips (strbufPagesize 4096) zeroPlatform zeroPrintf (fun _ => .fin 0)
        (labelledInput "1" (by decide) (by decide)).metric := by
  refine ⟨zeroLibrary, (putmetric_round_trip_iff (strbufPagesize 4096) zeroLibrary (fun _ => .fin 0)
    (labelledInput "1" (by decide) (by decide))).mpr ?_⟩
  intro pairs text read _
  obtain rfl : [⟨"a".toList, "1".toList⟩] = pairs :=
    Option.some.inj ((labelledCounter_built (by decide)).2.symm.trans read)
  refine ⟨by decide, by decide, ?_, nofun⟩
  intro pair member
  obtain rfl := mem_singleton.mp member
  intro c digit
  obtain rfl : c = '1' := mem_singleton.mp digit
  decide

/-- A line end inside of a label comes back as the letter of its escape sequence. -/
theorem putmetric_newline_lost :
    (cmdFormatPutmetric (strbufPagesize 4096) zeroPrintf .create (labelledCounter "x\ny")).map
        (fun result => (result.1, result.2.text)) = some (0, "PUTMETRIC up type=COUNTER label:a=\"x\\ny\" 7".toList) ∧
      ((cmdParseMetric zeroPlatform "PUTMETRIC up type=COUNTER label:a=\"x\\ny\" 7").bind
        fun result => result.toOption.bind fun m => readPairs m.label) = some [⟨"a", "xny"⟩] ∧
      ¬ PutmetricRoundTrips (strbufPagesize 4096) zeroPlatform zeroPrintf (fun _ => .fin 0)
        (labelledInput "x\ny" (by decide) (by decide)).metric := by
  have line : (cmdFormatPutmetric (strbufPagesize 4096) zeroPrintf .create (labelledCounter "x\ny")).map
      (fun result => (result.1, result.2.text)) =
        some (0, "PUTMETRIC up type=COUNTER label:a=\"x\\ny\" 7".toList) := by decide +kernel
  have labels : ((cmdParseMetric zeroPlatform "PUTMETRIC up type=COUNTER label:a=\"x\\ny\" 7").bind
      fun result => result.toOption.bind fun m => readPairs m.label) = some [⟨"a", "xny"⟩] := by
    decide +kernel
  refine ⟨line, labels, fun roundTrips => ?_⟩
  obtain ⟨⟨status, buf⟩, formatted, same⟩ := Option.map_eq_some_iff.mp line
  obtain ⟨rfl, text⟩ := Prod.mk.inj same
  obtain ⟨parsed, pairs, accepted, -, own, read, -⟩ := roundTrips buf formatted
  have written : pairs = [⟨"a", "x\ny"⟩] :=
    Option.some.inj (own.symm.trans (labelledCounter_built (by decide)).2)
  rw [show buf.text = _ from text] at accepted
  rw [accepted] at labels
  have got : readPairs parsed.label = some [⟨"a", "xny"⟩] := labels
  rw [read, written] at got
  exact absurd got (by decide)

end NCollectd.Cmds
