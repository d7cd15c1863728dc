import NCollectd.Cmds.Lines
import NCollectd.Cmds.Putmetric

namespace NCollectd.Cmds

open Common LabelSet List

def labelOption (pair : LabelPair) : CString :=
  " label:" ++ pair.name ++ ['=', '"'] ++ NCollectd.escapeText putmetricEscape '\\' pair.value ++ ['"']

def valueText (printf : MetricPrintf) (m : Metric) : Option CString :=
  match m.family.type with
  | .gauge | .untyped => m.value.gauge?.map printf.gaugeFormat
  | .counter => m.value.counter?.map fun counter => printUnsigned counter.toNat
  | .distribution => none

def timeText (printf : MetricPrintf) (option : CString) (time : CdTime) : CString :=
  if time ≠ 0 then option ++ printf.fixed3 (cdtimeToDouble time) else []

def optionsText (printf : MetricPrintf) (m : Metric) (pairs : List LabelPair) (value : CString) : CString :=
  (typeOption m.family.type).getD [] ++ timeText printf " time=" m.time ++
    timeText printf " interval=" m.interval ++ pairs.flatMap labelOption ++ ' ' :: value

section Format

variable (page : PageSize) (printf : MetricPrintf) {m : Metric}

/-- A buffer that grows, with its text. -/
def Grown (buf : Strbuf) (text : CString) : Prop := buf.fixed = false ∧ buf.text = text

theorem Grown.append (grown : Grown buf text) (appends : Appends output more) :
    (output buf).1 = 0 ∧ Grown (output buf).2 (text ++ more) := by
  obtain ⟨next, written, flag, content⟩ := appends buf grown.1
  rw [written]
  exact ⟨rfl, flag, by rw [content, grown.2]⟩

theorem Grown.print (grown : Grown buf text) (s : CString) : Grown (strbufPrint page buf s).2 (text ++ s) :=
  (grown.append (strbufPrint_appends page s)).2

theorem grown_label (grown : Grown buf text) (mark name value : CString) :
    Grown (strbufPrint page (strbufPrintEscaped page (strbufPrint page buf (mark ++ name ++ ['=', '"'])).2 value
        putmetricEscape '\\').2 ['"']).2
      (text ++ (mark ++ name ++ ['=', '"'] ++ NCollectd.escapeText putmetricEscape '\\' value ++ ['"'])) := by
  have first := grown.print page (mark ++ name ++ ['=', '"'])
  have second := (first.append (strbufPrintEscaped_appends page value putmetricEscape '\\')).2
  have third := second.print page ['"']
  simpa only [append_assoc] using third

theorem formatLabel_eq (grown : Grown buf text) (labels : LabelArray) (i : Nat) :
    match readPair labels i with
    | none => formatLabel page labels i buf = none
    | some pair => ∃ next, formatLabel page labels i buf = some next ∧ Grown next (text ++ labelOption pair) := by
  unfold readPair formatLabel
  cases pairName labels i with
  | none => rfl
  | some name =>
    cases pairValue labels i with
    | none => rfl
    | some value => exact ⟨_, rfl, grown_label page grown " label:" name value⟩

theorem formatLabels_eq (grown : Grown buf text) (labels : LabelArray) (count : Nat) :
    match readAll (readPair labels) count with
    | none => formatLabels page labels buf count = none
    | some pairs => ∃ next, formatLabels page labels buf count = some next ∧
        Grown next (text ++ pairs.flatMap labelOption) := by
  induction count with
  | zero => exact ⟨buf, rfl, by simpa using grown⟩
  | succ count ih =>
    unfold readAll formatLabels
    cases front : readAll (readPair labels) count with
    | none =>
      simp only [front] at ih
      simp [ih]
    | some pairs =>
      simp only [front] at ih
      obtain ⟨middle, formatted, written⟩ := ih
      have last := formatLabel_eq page written labels count
      cases read : readPair labels count with
      | none =>
        simp only [read] at last
        simp [formatted, last]
      | some pair =>
        simp only [read] at last
        obtain ⟨next, done, text⟩ := last
        refine ⟨next, ?_, ?_⟩
        · simp [formatted, done]
        · simpa using text

theorem valueMarshalText_eq (scalar : m.family.type ≠ .distribution) (grown : Grown buf text) :
    match valueText printf m with
    | none => valueMarshalText page printf buf m.value m.family.type = none
    | some value => ∃ next, valueMarshalText page printf buf m.value m.family.type = some (0, next) ∧
        Grown next (text ++ value) := by
  have printed (value : CString) : ∃ next, some (strbufPrint page buf value) = some (0, next) ∧
      Grown next (text ++ value) := by
    obtain ⟨status, written⟩ := grown.append (strbufPrint_appends page value)
    exact ⟨(strbufPrint page buf value).2, by rw [← status], written⟩
  unfold valueText valueMarshalText
  cases type : m.family.type with
  | distribution => exact (scalar type).elim
  | counter =>
    cases m.value.counter? with
    | none => rfl
    | some counter => exact printed _
  | gauge | untyped =>
    cases m.value.gauge? with
    | none => rfl
    | some gauge => exact printed _

theorem typeOption_some (scalar : m.family.type ≠ .distribution) :
    typeOption m.family.type = some ((typeOption m.family.type).getD []) := by
  cases type : m.family.type with
  | distribution => exact (scalar type).elim
  | _ => rfl

theorem Grown.option (grown : Grown buf text) (option : CString) :
    Grown (if option = [] then buf else (strbufPrint page buf option).2) (text ++ option) := by
  split
  · rename_i empty
    rw [empty, append_nil]
    exact grown
  · exact grown.print page option

theorem Grown.time (grown : Grown buf text) (option : CString) (time : CdTime) :
    Grown (if time ≠ 0 then (strbufPrint page buf (option ++ printf.fixed3 (cdtimeToDouble time))).2 else buf)
      (text ++ timeText printf option time) := by
  unfold timeText
  split
  · exact grown.print page _
  · rw [append_nil]
    exact grown

/-- The line of a metric, or nothing if a label or the value cannot be read. -/
theorem cmdFormatPutmetric_eq (scalar : m.family.type ≠ .distribution) :
    match readPairs m.label, valueText printf m with
    | some pairs, some value => ∃ buf, cmdFormatPutmetric page printf .create m = some (0, buf) ∧
        buf.text = "PUTMETRIC " ++ m.family.name ++ optionsText printf m pairs value
    | _, _ => cmdFormatPutmetric page printf .create m = none := by
  have start : Grown .create [] := ⟨rfl, rfl⟩
  have command := start.print page "PUTMETRIC "
  have name := command.print page m.family.name
  have option := name.option page ((typeOption m.family.type).getD [])
  have time := option.time page printf " time=" m.time
  have interval := time.time page printf " interval=" m.interval
  have labels := formatLabels_eq page interval m.label m.label.num
  unfold cmdFormatPutmetric
  rw [typeOption_some scalar]
  unfold readPairs
  cases read : readAll (readPair m.label) m.label.num with
  | none =>
    simp only [read] at labels
    simp only [labels, Option.bind_none]
  | some pairs =>
    simp only [read] at labels
    obtain ⟨middle, formatted, written⟩ := labels
    have blank := written.print page [' ']
    have value := valueMarshalText_eq page printf scalar blank
    simp only [formatted, Option.bind_some]
    cases text : valueText printf m with
    | none =>
      simp only [text] at value
      exact value
    | some valueString =>
      simp only [text] at value
      obtain ⟨next, done, content⟩ := value
      refine ⟨next, done, content.2.trans ?_⟩
      simp [optionsText]

end Format

/-- Numbers are printed without blanks, quotation marks and equals signs; times are read as no less than zero. -/
structure MetricLibrary (platform : Platform) (printf : MetricPrintf) : Prop where
  gaugeFilled : ∀ gauge, printf.gaugeFormat gauge ≠ []
  gaugePlain : ∀ gauge, ∀ c ∈ printf.gaugeFormat gauge, isPlain c = true ∧ c ≠ '='
  fixedPlain : ∀ time, ∀ c ∈ printf.fixed3 (cdtimeToDouble time), isPlain c = true
  fixedRead : ∀ time, (platform.strtod (printf.fixed3 (cdtimeToDouble time))).failed = false ∧
    (platform.strtod (printf.fixed3 (cdtimeToDouble time))).consumed = (printf.fixed3 (cdtimeToDouble time)).length ∧
    Double.less (platform.strtod (printf.fixed3 (cdtimeToDouble time))).value (.fin 0) = false

def labelField (pair : LabelPair) : CString :=
  "label:" ++ pair.name ++ '=' :: pair.value.map (escapedChar '\\')

def typeFields : MetricType → List CString
  | .counter => ["type=COUNTER"]
  | .gauge => ["type=GAUGE"]
  | _ => []

def timeFields (printf : MetricPrintf) (option : CString) (time : CdTime) : List CString :=
  if time ≠ 0 then [option ++ printf.fixed3 (cdtimeToDouble time)] else []

def optionFields (printf : MetricPrintf) (m : Metric) (pairs : List LabelPair) (value : CString) : List CString :=
  typeFields m.family.type ++ timeFields printf "time=" m.time ++
    timeFields printf "interval=" m.interval ++ pairs.map labelField ++ [value]

theorem quoted_putmetric (s : CString) :
    Quoted (NCollectd.escapeText putmetricEscape '\\' s) (s.map (escapedChar '\\')) := by
  induction s with
  | nil => exact .nil
  | cons c s ih =>
    rw [NCollectd.escapeText, flatMap_cons, map_cons]
    by_cases special : c ∈ putmetricEscape
    · rw [if_pos special]
      exact .escaped ih
    · rw [if_neg special]
      have ordinary : c ≠ '\\' ∧ c ≠ '"' ∧ c ≠ '\n' ∧ c ≠ '\r' ∧ c ≠ '\t' := by
        simpa [putmetricEscape] using special
      have same : escapedChar '\\' c = c := by simp [escapedChar, ordinary]
      rw [same]
      exact .plain ordinary.2.1 ordinary.1 ih

theorem nul_notMem_escaped (clean : NUL ∉ s) :
    NUL ∉ NCollectd.escapeText putmetricEscape '\\' s := by
  intro member
  obtain ⟨c, inside, found⟩ := mem_flatMap.mp member
  have backslash : NUL ≠ '\\' := by decide
  have letters : NUL ≠ 'n' ∧ NUL ≠ 'r' ∧ NUL ≠ 't' := by decide
  have different : NUL ≠ c := fun same => clean (same ▸ inside)
  split at found
  · simp only [mem_cons, not_mem_nil, or_false, backslash, false_or, escapedChar, ↓reduceIte] at found
    split at found
    · exact letters.1 found
    · split at found
      · exact letters.2.1 found
      · split at found
        · exact letters.2.2 found
        · exact different found
  · exact different (mem_singleton.mp found)

theorem validLabel_chars (valid : validLabelName name = true) : ∀ c ∈ name, c ∈ validLabelChars := by
  simp only [validLabelName, Bool.and_eq_true, beq_iff_eq] at valid
  exact (strspn_eq_length_iff _ _).mp valid.1.2

theorem validNameChars_plain (member : c ∈ validNameChars) : isPlain c = true ∧ isKeyChar c = true := by
  have all : validNameChars.all (fun c => isPlain c && isKeyChar c) = true := by decide +kernel
  simpa using all_eq_true.mp all c member

theorem validLabelChars_name (member : c ∈ validLabelChars) : c ∈ validNameChars :=
  mem_append_left _ member

theorem label_shape {mark spaced name escaped : CString} (split : spaced = ' ' :: mark) :
    spaced ++ name ++ ['=', '"'] ++ escaped ++ ['"'] =
      ' ' :: (mark ++ name ++ ['='] ++ ('"' :: escaped ++ ['"'])) := by
  subst split
  simp

theorem spells_label (valid : validLabelName pair.name = true) (clean : NUL ∉ pair.value) :
    Spells (labelOption pair) [labelField pair] := by
  have mark : "label:".toList.all isPlain = true := by decide
  have plain : ∀ c ∈ "label:".toList ++ pair.name ++ ['='], isPlain c = true := by
    intro c member
    rcases mem_append.mp member with front | last
    · rcases mem_append.mp front with first | name
      · exact all_eq_true.mp mark c first
      · exact (validNameChars_plain (validLabelChars_name (validLabel_chars valid c name))).1
    · rw [mem_singleton.mp last]
      decide
  have piece := Spells.piece (.marked ("label:".toList ++ pair.name ++ ['=']) _ _ (by simp) plain
    (quoted_putmetric pair.value) (nul_notMem_escaped clean))
  have text : labelOption pair = ' ' :: ("label:".toList ++ pair.name ++ ['='] ++
      ('"' :: NCollectd.escapeText putmetricEscape '\\' pair.value ++ ['"'])) := label_shape (by decide)
  have field : labelField pair = "label:".toList ++ pair.name ++ ['='] ++ pair.value.map (escapedChar '\\') :=
    append_cons ..
  rw [text, field]
  exact piece

theorem spells_type (type : MetricType) : Spells ((typeOption type).getD []) (typeFields type) := by
  have counter : " type=COUNTER" = ' ' :: "type=COUNTER" := by decide
  have gauge : " type=GAUGE" = ' ' :: "type=GAUGE" := by decide
  cases type with
  | untyped | distribution => exact .nil
  | counter =>
    show Spells " type=COUNTER" ["type=COUNTER"]
    rw [counter]
    exact .word (by decide) (all_eq_true.mp (by decide))
  | gauge =>
    show Spells " type=GAUGE" ["type=GAUGE"]
    rw [gauge]
    exact .word (by decide) (all_eq_true.mp (by decide))

theorem spells_time (library : MetricLibrary platform printf)
    (split : behind = ' ' :: option) (filled : option ≠ []) (plain : option.all isPlain = true) (time : CdTime) :
    Spells (timeText printf behind time) (timeFields printf option time) := by
  subst split
  unfold timeText timeFields
  split
  · apply Spells.word
    · exact append_ne_nil_of_left_ne_nil filled _
    · intro c member
      rcases mem_append.mp member with front | back
      · exact all_eq_true.mp plain c front
      · exact library.fixedPlain time c back
  · exact .nil

theorem valueText_plain (library : MetricLibrary platform printf) (text : valueText printf m = some value) :
    value ≠ [] ∧ ∀ c ∈ value, isPlain c = true ∧ c ≠ '=' := by
  unfold valueText at text
  split at text
  · obtain ⟨gauge, -, rfl⟩ := Option.map_eq_some_iff.mp text
    exact ⟨library.gaugeFilled gauge, library.gaugePlain gauge⟩
  · obtain ⟨gauge, -, rfl⟩ := Option.map_eq_some_iff.mp text
    exact ⟨library.gaugeFilled gauge, library.gaugePlain gauge⟩
  · obtain ⟨counter, -, rfl⟩ := Option.map_eq_some_iff.mp text
    refine ⟨printUnsigned_ne_nil, fun c member => ?_⟩
    have digit := isDigit_printUnsigned member
    refine ⟨isPlain_digit digit, ?_⟩
    rintro rfl
    exact absurd digit (by decide)
  · cases text

theorem spells_options (library : MetricLibrary platform printf) (text : valueText printf m = some value)
    (valid : ∀ pair ∈ pairs, validLabelName pair.name = true) (clean : ∀ pair ∈ pairs, NUL ∉ pair.value) :
    Spells (optionsText printf m pairs value) (optionFields printf m pairs value) := by
  obtain ⟨filled, plain⟩ := valueText_plain library text
  have labels : Spells (pairs.flatMap labelOption) (pairs.map labelField) := by
    clear text
    induction pairs with
    | nil => exact .nil
    | cons pair pairs ih =>
      have first := spells_label (valid pair mem_cons_self) (clean pair mem_cons_self)
      exact first.append (ih (fun other member => valid other (mem_cons_of_mem pair member))
        fun other member => clean other (mem_cons_of_mem pair member))
  have time := spells_time library (show " time=" = ' ' :: "time=" by decide) (by decide) (by decide) m.time
  have interval := spells_time library (show " interval=" = ' ' :: "interval=" by decide) (by decide)
    (by decide) m.interval
  have last := Spells.word filled fun c member => (plain c member).1
  exact ((((spells_type m.family.type).append time).append interval).append labels).append last

end NCollectd.Cmds
