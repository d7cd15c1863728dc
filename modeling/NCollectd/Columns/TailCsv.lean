import NCollectd.Columns.Metric

/-! The `tail_csv` plugin. -/

namespace NCollectd.Columns

open Common List
open NCollectd.Filter (ConfigItem ConfigValue)

def tcsvConfigGetIndex (ci : ConfigItem) : Option (Except Status Signed) :=
  match ci.values with
  | [.number n] => if n.less (.fin 0) then some (.error (-1)) else (toSigned (2 ^ 63) n).map .ok
  | _ => some (.error (-1))

def tcsvConfigAddMetric (ci : ConfigItem) : Option (Except Status (CString × ColumnMetric)) :=
  match cfUtilGetString ci with
  | .error _ => some (.error (-1))
  | .ok name =>
    (optionLoop (columnOption tcsvConfigGetIndex) (.setup .untyped) ci.children).map fun
      | .error _ => .error (-1)
      | .ok md => md.check.map fun md => (name, md)

/-- `instance_definition_t`, with the metrics it collects. -/
structure Instance extends Source where
  fieldSeparator : Char
  metricList : List ColumnMetric
  timeFrom : Signed

def csvTime (platform : Platform) (now : CdTime) (text : CString) : CdTime :=
  let t := platform.strtod text
  if t.failed ∨ t.consumed ≠ text.length then now else platform.doubleToCdtime t.value

def tcsvReadMetric (platform : Platform) (now : CdTime) (id : Instance) (fields : List CString) (md : ColumnMetric) :
    Option (Except Status Dispatched) :=
  if md.valueFrom.1 < 0 then none
  else
    match fields[md.valueFrom.size]? with
    | none => some (.error EINVAL)
    | some text =>
      match parseValue platform text md.type.number with
      | .error status => some (.error status)
      | .ok value =>
        if id.timeFrom.1 < 0 then (buildMetric id.toSource md fields value 0).map .ok
        else
          match fields[id.timeFrom.size]? with
          | none => some (.error EINVAL)
          | some text => (buildMetric id.toSource md fields value (csvTime platform now text)).map .ok

def tcsvCheckIndex (index : Signed) (fieldsNum : Nat) : Bool := index.1 < 0 || index.size < fieldsNum

def cutFields (separator : Char) : List Char → List CString
  | [] => [[]]
  | c :: rest =>
    if c = '\x00' then [[]]
    else if c = separator then [] :: cutFields separator rest
    else (cutFields separator rest).modifyHead (c :: ·)

def stripNewlines (buffer : CString) : CString := (buffer.reverse.dropWhile fun c => c = '\n' ∨ c = '\r').reverse

def registerValue (platform : Platform) (now : CdTime) (id : Instance) (metrics : List CString) (md : ColumnMetric) :
    Option (Option Dispatched) :=
  if tcsvCheckIndex md.valueFrom metrics.length && tcsvCheckIndex id.timeFrom metrics.length then
    (tcsvReadMetric platform now id metrics md).map Except.toOption
  else some none

def tcsvReadBuffer (platform : Platform) (now : CdTime) (id : Instance) (buffer : CString) :
    Option (Status × List Dispatched) :=
  let buffer := stripNewlines buffer
  let metricsNum := 1 + buffer.count id.fieldSeparator
  if buffer = [] ∨ buffer.head? = some '#' then some (0, [])
  else if metricsNum = 1 then some (-1, [])
  else
    let metrics := cutFields id.fieldSeparator buffer
    if metrics.length ≠ metricsNum then none
    else (id.metricList.mapM (registerValue platform now id metrics)).map fun made => (0, made.reduceOption)

def tcsvReadLine (platform : Platform) (now : CdTime) (id : Instance) (raw : List Char) :
    Option (Status × List Dispatched) :=
  tcsvReadBuffer platform now id (raw.takeWhile (· ≠ '\x00'))

def Instance.fields (id : Instance) (raw : List Char) : List CString :=
  cutFields id.fieldSeparator (stripNewlines (raw.takeWhile (· ≠ '\x00')))

def Instance.time (id : Instance) (platform : Platform) (now : CdTime) (fields : List CString) : CdTime :=
  if id.timeFrom.1 < 0 then 0 else csvTime platform now (fields.getD id.timeFrom.size [])

def Instance.checked (id : Instance) (md : ColumnMetric) : List Signed :=
  md.valueFrom :: if id.timeFrom.1 < 0 then [] else [id.timeFrom]

def Instance.dispatches (id : Instance) (platform : Platform) (now : CdTime) (fields : List CString)
    (md : ColumnMetric) :
    Option Dispatched :=
  if ∀ index ∈ id.checked md ++ md.texts, index.size < fields.length then
    md.given platform id.toSource fields (id.time platform now fields)
  else none

/-- A line that is not looked at: empty, a comment or of one field. -/
def Instance.Ignores (id : Instance) (raw : List Char) : Prop :=
  let line := stripNewlines (raw.takeWhile (· ≠ '\x00'))
  line = [] ∨ line.head? = some '#' ∨ id.fieldSeparator ∉ line

/-- A metric with a value has the fields of its name and labels. -/
def Instance.Covers (id : Instance) (platform : Platform) (fields : List CString) (md : ColumnMetric) : Prop :=
  (∀ index ∈ id.checked md, index.size < fields.length) →
    (parseValue platform (fields.getD md.valueFrom.size []) md.type.number).toOption ≠ none →
      ∀ index ∈ md.texts, index.size < fields.length

section Law

variable {id : Instance} {fields : List CString}

theorem length_cutFields (clean : '\x00' ∉ text) (separator : Char) :
    (cutFields separator text).length = 1 + text.count separator := by
  induction text with
  | nil => rfl
  | cons c rest ih =>
    obtain ⟨ordinary, clean⟩ := ne_and_not_mem_of_not_mem_cons clean
    rw [cutFields, if_neg ordinary.symm, count_cons]
    by_cases cut : c = separator <;> simp [cut, ih clean, Nat.add_comm, Nat.add_left_comm]

theorem checkIndex_iff (md : ColumnMetric) :
    (tcsvCheckIndex md.valueFrom fields.length && tcsvCheckIndex id.timeFrom fields.length) = true ↔
      ∀ index ∈ id.checked md, index.size < fields.length := by
  have valued := Int.not_lt.mpr md.valued
  by_cases timed : id.timeFrom.1 < 0 <;> simp [tcsvCheckIndex, Instance.checked, valued, timed]

theorem tcsvReadMetric_eq (checked : ∀ index ∈ id.checked md, index.size < fields.length) :
    tcsvReadMetric platform now id fields md =
      match parseValue platform (fields.getD md.valueFrom.size []) md.type.number with
      | .error status => some (.error status)
      | .ok value => (buildMetric id.toSource md fields value (id.time platform now fields)).map .ok := by
  obtain ⟨value, time⟩ := forall_mem_cons.mp checked
  have text : fields[md.valueFrom.size]? = some (fields.getD md.valueFrom.size []) := by simp [value]
  rw [tcsvReadMetric, if_neg (Int.not_lt.mpr md.valued), text, Instance.time]
  dsimp only
  generalize parseValue platform (fields.getD md.valueFrom.size []) md.type.number = parsed
  cases parsed with
  | error status => rfl
  | ok value =>
    by_cases timed : id.timeFrom.1 < 0
    · simp [timed]
    · have inside : id.timeFrom.size < fields.length := time _ (by simp [timed])
      simp [timed, inside]

theorem registerValue_eq_some (covers : id.Covers platform fields md) :
    registerValue platform now id fields md = some (id.dispatches platform now fields md) := by
  unfold registerValue Instance.dispatches
  by_cases checked : ∀ index ∈ id.checked md, index.size < fields.length
  · rw [if_pos ((checkIndex_iff md).mpr checked), tcsvReadMetric_eq checked, ColumnMetric.given]
    have texts := covers checked
    generalize parseValue platform (fields.getD md.valueFrom.size []) md.type.number = parsed at texts
    cases parsed with
    | error status => exact (congrArg some (ite_self none)).symm
    | ok value =>
      have texts := texts (Option.some_ne_none value)
      have all := forall_mem_append.mpr ⟨checked, texts⟩
      dsimp only
      rw [buildMetric_eq_some _ _ _ texts, if_pos all]
      rfl
  · rw [if_neg fun passed => checked ((checkIndex_iff md).mp passed),
      if_neg fun all => checked (forall_mem_append.mp all).1]

theorem registerValue_eq_none (uncovered : ¬ id.Covers platform fields md) :
    registerValue platform now id fields md = none := by
  simp only [Instance.Covers, not_forall] at uncovered
  obtain ⟨checked, parsed, index, member, outside⟩ := uncovered
  rw [registerValue, if_pos ((checkIndex_iff md).mpr checked), tcsvReadMetric_eq checked]
  cases found : parseValue platform (fields.getD md.valueFrom.size []) md.type.number with
  | error status => exact absurd (by rw [found]; rfl) parsed
  | ok value =>
    dsimp only
    rw [buildMetric_eq_none _ _ _ member outside]
    rfl

theorem tcsvReadLine_eq (looked : ¬ id.Ignores raw) : tcsvReadLine platform now id raw =
    (id.metricList.mapM (registerValue platform now id (id.fields raw))).map fun made => (0, made.reduceOption) := by
  obtain ⟨filled, comment, separated⟩ : _ ∧ _ ∧ _ := by simpa only [Instance.Ignores, not_or] using looked
  have clean : '\x00' ∉ stripNewlines (raw.takeWhile (· ≠ '\x00')) := by
    intro member
    have inside := (dropWhile_sublist _).mem (mem_reverse.mp member)
    simpa using mem_takeWhile_imp (mem_reverse.mp inside)
  have several := count_pos_iff.mpr (not_not.mp separated)
  rw [tcsvReadLine, tcsvReadBuffer, if_neg (not_or.mpr ⟨filled, comment⟩), if_neg (by omega),
    if_neg (not_not.mpr (length_cutFields clean _))]
  rfl

end Law

/-- A line that is looked at has to cover its metrics, and one that is ignored to have none. -/
theorem csv_dispatches_iff (platform : Platform) (now : CdTime) (id : Instance) (raw : List Char) :
    (tcsvReadLine platform now id raw).map Prod.snd =
        some (id.metricList.filterMap (id.dispatches platform now (id.fields raw))) ↔
      (id.Ignores raw → ∀ md ∈ id.metricList, id.dispatches platform now (id.fields raw) md = none) ∧
        (¬ id.Ignores raw → ∀ md ∈ id.metricList, id.Covers platform (id.fields raw) md) := by
  by_cases ignored : id.Ignores raw
  · have nothing : (tcsvReadLine platform now id raw).map Prod.snd = some [] := by
      rw [tcsvReadLine, tcsvReadBuffer]
      by_cases early : stripNewlines (raw.takeWhile (· ≠ '\x00')) = [] ∨
          (stripNewlines (raw.takeWhile (· ≠ '\x00'))).head? = some '#'
      · rw [if_pos early]
        rfl
      · obtain ⟨filled, comment⟩ := not_or.mp early
        have single := count_eq_zero.mpr ((ignored.resolve_left filled).resolve_left comment)
        rw [if_neg early, if_pos (by omega)]
        rfl
    rw [nothing, Option.some.injEq, eq_comm, filterMap_eq_nil_iff]
    simp [ignored]
  · rw [tcsvReadLine_eq ignored]
    simp only [ignored, IsEmpty.forall_iff, not_false_eq_true, forall_const, true_and]
    constructor
    · intro law md member
      by_contra uncovered
      rw [mapM_eq_none member (registerValue_eq_none uncovered)] at law
      cases law
    · intro covered
      rw [mapM_eq_some fun md member => registerValue_eq_some (covered md member)]
      simp [reduceOption, filterMap_map]

theorem csv_short_line_aborts : ∃ md, tcsvConfigAddMetric ⟨"Metric", [.string "m"],
      [⟨"Metric", [.string "m"], []⟩, ⟨"ValueFrom", [.number (.fin 0)], []⟩,
        ⟨"LabelFrom", [.string "l", .number (.fin 2)], []⟩]⟩ = some (.ok ("m", md)) ∧
    ∀ platform : Platform, let id : Instance := ⟨⟨none, .empty⟩, ',', [md], ⟨-1, by decide⟩⟩
      tcsvReadLine platform 0 id "1,2" = none ∧
        id.metricList.filterMap (id.dispatches platform 0 (id.fields "1,2")) = [] :=
  ⟨_, rfl, fun _ => ⟨rfl, rfl⟩⟩

end NCollectd.Columns
