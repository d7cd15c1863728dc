import NCollectd.Columns.Metric
import NCollectd.Utils.Strunescape

/-! The `table` plugin. -/

namespace NCollectd.Columns

open Common List
open NCollectd.Filter (ConfigItem ConfigValue)

/-- A table while its options are read. -/
structure TblOptions extends Source where
  file : CString
  sep : Option CString
  skipLines : Signed
  interval : CdTime
  results : List ColumnMetric

/-- `tbl_t`. -/
structure Tbl extends Source where
  file : CString
  sep : CString
  skipLines : Signed
  interval : CdTime
  results : List ColumnMetric
  filled : results ≠ []

def tblConfigResult (ci : ConfigItem) : Option (Except Status ColumnMetric) :=
  if !ci.values.isEmpty then some (.error (-1))
  else (optionLoop (columnOption cfUtilGetInt) (.setup .counter) ci.children).map (·.bind ColumnOptions.check)

def tblOption (platform : Platform) (tbl : TblOptions) (c : ConfigItem) : Option (Except Status TblOptions) :=
  if strcasecmp c.key "Separator" = 0 then some ((cfUtilGetString c).map fun sep => { tbl with sep })
  else if strcasecmp c.key "SkipLines" = 0 then
    (cfUtilGetInt c).map (·.map fun skipLines => { tbl with skipLines })
  else if strcasecmp c.key "MetricPrefix" = 0 then
    some ((cfUtilGetString c).map fun metricPrefix => { tbl with metricPrefix })
  else if strcasecmp c.key "Label" = 0 then
    (cfUtilGetLabel c tbl.labels).map (·.map fun labels => { tbl with labels })
  else if strcasecmp c.key "Interval" = 0 then
    match c.values with
    | [.number n] =>
      some (if n.less (.fin 0) then .error (-1) else .ok { tbl with interval := platform.doubleToCdtime n })
    | _ => some (.error (-1))
  else if strcasecmp c.key "Result" = 0 then
    (tblConfigResult c).map (·.map fun res => { tbl with results := tbl.results ++ [res] })
  else some (.error (-1))

def tblConfigTable (platform : Platform) (ci : ConfigItem) : Option (Except Status Tbl) :=
  match ci.values with
  | [.string file] =>
    (optionLoop (tblOption platform) ⟨⟨none, .empty⟩, file, none, ⟨0, by decide⟩, 0, []⟩ ci.children).map
      (·.bind fun tbl =>
        match tbl.sep with
        | none => .error (-1)
        | some sep =>
          if filled : tbl.results.length ≠ 0 then
            .ok ⟨tbl.toSource, tbl.file, strunescape sep, tbl.skipLines, tbl.interval, tbl.results, by
              rintro empty
              exact filled (congrArg length empty)⟩
          else .error (-1))
  | _ => some (.error 1)

def ColumnMetric.compared (res : ColumnMetric) : List Signed :=
  res.labelsFrom.map Prod.snd ++ [res.metricFrom, res.valueFrom]

def Tbl.maxColnum (tbl : Tbl) : Nat :=
  (tbl.results.flatMap ColumnMetric.compared).foldl
    (fun maxColnum index => if index.size > maxColnum then index.size else maxColnum) 0

def tblResultDispatch (platform : Platform) (tbl : Tbl) (fields : List CString) (res : ColumnMetric) :
    Option (Option Dispatched) :=
  fields[res.valueFrom.size]?.bind fun text =>
    match parseValue platform text res.type.number with
    | .error _ => some none
    | .ok value => (buildMetric tbl.toSource res fields value 0).map some

def tblParseLine (platform : Platform) (tbl : Tbl) (line : CString) : Option (Status × List Dispatched) :=
  let size := (tbl.maxColnum + 1) % 2 ^ 64
  if size = 0 ∨ 2 ^ 63 < size then none
  else
    let fields := (strtokR tbl.sep line).take size
    if fields.length ≤ tbl.maxColnum then some (-1, [])
    else (tbl.results.mapM (tblResultDispatch platform tbl fields)).map fun made => (0, made.filterMap id)

def ColumnMetric.columns (res : ColumnMetric) : List Signed := res.valueFrom :: res.texts

/-- A line with more columns than `max_colnum` gives every metric that can be parsed, other lines none. -/
def ColumnLaw (platform : Platform) (tbl : Tbl) : Prop :=
  IsGreatest { index : Int | ∃ res ∈ tbl.results, ∃ column ∈ res.columns, column.1 = index } tbl.maxColnum ∧
    ∀ line, let columns := strtokR tbl.sep line
      tblParseLine platform tbl line = some (if tbl.maxColnum < columns.length then
        (0, tbl.results.filterMap (ColumnMetric.given platform tbl.toSource columns 0)) else (-1, []))

theorem foldl_size_spec (start : Nat) (indices : List Signed) :
    let largest := indices.foldl (fun most index => if index.size > most then index.size else most) start
    start ≤ largest ∧ (∀ index ∈ indices, index.size ≤ largest) ∧
      (largest = start ∨ ∃ index ∈ indices, index.size = largest) := by
  induction indices generalizing start with
  | nil => exact ⟨Nat.le_refl start, forall_mem_nil _, .inl rfl⟩
  | cons index indices ih =>
    rw [foldl_cons]
    obtain ⟨least, all, reached⟩ := ih (if index.size > start then index.size else start)
    have above : start ≤ (if index.size > start then index.size else start) ∧
        index.size ≤ if index.size > start then index.size else start := by
      split <;> omega
    refine ⟨above.1.trans least, forall_mem_cons.mpr ⟨above.2.trans least, all⟩, ?_⟩
    rcases reached with same | ⟨other, member, equal⟩
    · rw [same]
      split
      · exact .inr ⟨index, mem_cons_self, rfl⟩
      · exact .inl rfl
    · exact .inr ⟨other, mem_cons_of_mem index member, equal⟩

section Law

variable {tbl : Tbl} {res : ColumnMetric}

theorem maxColnum_spec (tbl : Tbl) :
    (∀ res ∈ tbl.results, ∀ index ∈ res.compared, index.size ≤ tbl.maxColnum) ∧
      ∃ res ∈ tbl.results, ∃ index ∈ res.compared, index.size = tbl.maxColnum := by
  obtain ⟨_, all, reached⟩ := foldl_size_spec 0 (tbl.results.flatMap ColumnMetric.compared)
  have below : ∀ res ∈ tbl.results, ∀ index ∈ res.compared, index.size ≤ tbl.maxColnum :=
    fun res member index inside => all index (mem_flatMap_of_mem member inside)
  refine ⟨below, ?_⟩
  rcases reached with zero | ⟨index, member, same⟩
  · obtain ⟨res, member⟩ := exists_mem_of_ne_nil _ tbl.filled
    have inside : res.valueFrom ∈ res.compared := by simp [ColumnMetric.compared]
    have zero : tbl.maxColnum = 0 := zero
    have least := below res member _ inside
    exact ⟨res, member, _, inside, by omega⟩
  · obtain ⟨res, listed, inside⟩ := mem_flatMap.mp member
    exact ⟨res, listed, index, inside, same⟩

theorem mem_compared_iff (column : 0 ≤ res.metricFrom.1) : index ∈ res.compared ↔ index ∈ res.columns := by
  simp only [ColumnMetric.columns, ColumnMetric.texts, ColumnMetric.compared, if_pos column, mem_cons,
    mem_append, not_mem_nil, or_false]
  tauto

theorem tblResultDispatch_eq (covered : ∀ index ∈ res.columns, index.size < fields.length) :
    tblResultDispatch platform tbl fields res = some (res.given platform tbl.toSource fields 0) := by
  obtain ⟨value, texts⟩ := forall_mem_cons.mp covered
  rw [tblResultDispatch, ColumnMetric.given, getD_eq_getElem?_getD, getElem?_eq_getElem value,
    Option.bind_some, Option.getD_some]
  cases parseValue platform fields[res.valueFrom.size] res.type.number with
  | error status => rfl
  | ok value =>
    dsimp only
    rw [buildMetric_eq_some tbl.toSource value 0 texts]
    rfl

theorem given_take (covered : ∀ index ∈ res.columns, index.size < n) :
    res.given platform tbl.toSource (columns.take n) 0 = res.given platform tbl.toSource columns 0 := by
  have field : ∀ index ∈ res.columns, (columns.take n)[index.size]? = columns[index.size]? :=
    fun index member => getElem?_take_of_lt (covered index member)
  obtain ⟨value, texts⟩ := forall_mem_cons.mp field
  have labels : res.labelsFrom.map (fun label => (label.1, (columns.take n)[label.2.size]?.getD [])) =
      res.labelsFrom.map fun label => (label.1, columns[label.2.size]?.getD []) := by
    apply map_congr_left
    intro label member
    rw [texts label.2 (mem_append_right _ (mem_map_of_mem member))]
  have name : 0 ≤ res.metricFrom.1 → (columns.take n)[res.metricFrom.size]? = columns[res.metricFrom.size]? :=
    fun column => texts _ (by simp [ColumnMetric.texts, column])
  unfold ColumnMetric.given ColumnMetric.described
  simp only [getD_eq_getElem?_getD, value, labels]
  by_cases column : 0 ≤ res.metricFrom.1 <;> simp [column, name]

/-- A result without `MetricFrom` leaves no array for the columns. -/
theorem tblParseLine_eq_none (member : res ∈ tbl.results) (negative : res.metricFrom.1 < 0) (line : CString) :
    tblParseLine platform tbl line = none := by
  obtain ⟨below, _, _, index, _, same⟩ := maxColnum_spec tbl
  have large := below res member res.metricFrom (by simp [ColumnMetric.compared])
  have bounds := res.metricFrom.2
  unfold Signed.size at large same
  rw [tblParseLine]
  exact if_pos (by omega)

theorem columnLaw_of_nonneg (column : ∀ res ∈ tbl.results, 0 ≤ res.metricFrom.1)
    (labels : ∀ res ∈ tbl.results, ∀ label ∈ res.labelsFrom, 0 ≤ label.2.1) : ColumnLaw platform tbl := by
  obtain ⟨below, widest, listed, last, inside, same⟩ := maxColnum_spec tbl
  have nonneg : ∀ res ∈ tbl.results, ∀ index ∈ res.compared, 0 ≤ index.1 := by
    intro res member index compared
    rcases mem_append.mp compared with label | own
    · obtain ⟨own, found, rfl⟩ := mem_map.mp label
      exact labels res member own found
    · rcases mem_pair.mp own with rfl | rfl
      · exact column res member
      · exact res.valued
  have size : ∀ res ∈ tbl.results, ∀ index ∈ res.columns,
      (index.size : Int) = index.1 ∧ index.size ≤ tbl.maxColnum := by
    intro res member index inside
    have compared := (mem_compared_iff (column res member)).mpr inside
    exact ⟨size_of_nonneg (nonneg res member index compared), below res member index compared⟩
  have own := (mem_compared_iff (column widest listed)).mp inside
  have exact' := size widest listed last own
  refine ⟨⟨⟨widest, listed, last, own, by omega⟩, ?_⟩, fun line => ?_⟩
  · rintro _ ⟨res, member, index, inside, rfl⟩
    have index := size res member index inside
    omega
  · have whole : (tbl.maxColnum + 1) % 2 ^ 64 = tbl.maxColnum + 1 := Nat.mod_eq_of_lt (by omega)
    simp only [tblParseLine, whole]
    rw [if_neg (by omega)]
    generalize strtokR tbl.sep line = columns
    by_cases more : tbl.maxColnum < columns.length
    · have length : (columns.take (tbl.maxColnum + 1)).length = tbl.maxColnum + 1 := length_take_of_le more
      have covered : ∀ res ∈ tbl.results, ∀ index ∈ res.columns, index.size < tbl.maxColnum + 1 :=
        fun res member index inside => Nat.lt_succ_of_le (size res member index inside).2
      have made : tbl.results.mapM (tblResultDispatch platform tbl (columns.take (tbl.maxColnum + 1))) =
          some (tbl.results.map (ColumnMetric.given platform tbl.toSource columns 0)) := by
        refine mapM_eq_some fun res member => ?_
        rw [tblResultDispatch_eq (by rw [length]; exact covered res member), given_take (covered res member)]
      rw [if_neg (by omega), made, if_pos more, Option.map_some, filterMap_map]
      rfl
    · rw [if_pos (by rw [length_take]; omega), if_neg more]

/-- With nonnegative label columns, the law holds exactly if every result takes its name from a column. -/
theorem table_columns_iff (platform : Platform) (tbl : Tbl)
    (labels : ∀ res ∈ tbl.results, ∀ label ∈ res.labelsFrom, 0 ≤ label.2.1) :
    ColumnLaw platform tbl ↔ ∀ res ∈ tbl.results, 0 ≤ res.metricFrom.1 := by
  refine ⟨fun law res member => ?_, fun column => columnLaw_of_nonneg column labels⟩
  by_contra negative
  have parsed := law.2 []
  rw [tblParseLine_eq_none member (Int.not_le.mp negative)] at parsed
  cases parsed

def zeroNumbers : Platform := ⟨fun text => ⟨.fin 0, text.length, false⟩, fun _ => 0, fun _ => []⟩

def tableBlock (results : List (List ConfigItem)) : ConfigItem :=
  ⟨"Table", [.string "t"],
    ⟨"Separator", [.string " "], []⟩ :: results.map fun options => ⟨"Result", [], options⟩⟩

theorem table_columns_named : ∃ tbl, tblConfigTable zeroNumbers (tableBlock
      [[⟨"MetricFrom", [.number (.fin 0)], []⟩, ⟨"ValueFrom", [.number (.fin 1)], []⟩],
        [⟨"MetricFrom", [.number (.fin 0)], []⟩, ⟨"LabelFrom", [.string "host", .number (.fin 3)], []⟩,
          ⟨"ValueFrom", [.number (.fin 2)], []⟩]]) = some (.ok tbl) ∧
    tbl.maxColnum = 3 ∧ ColumnLaw zeroNumbers tbl :=
  ⟨_, rfl, by decide +kernel, (table_columns_iff zeroNumbers _ (by decide +kernel)).mpr (by decide +kernel)⟩

theorem table_named_metric_undefined : ∃ tbl, tblConfigTable zeroNumbers (tableBlock
      [[⟨"Metric", [.string "m"], []⟩, ⟨"ValueFrom", [.number (.fin 0)], []⟩]]) = some (.ok tbl) ∧
    tbl.maxColnum = 2 ^ 64 - 1 ∧ (∀ line, tblParseLine zeroNumbers tbl line = none) ∧ ¬ ColumnLaw zeroNumbers tbl := by
  refine ⟨_, rfl, by decide +kernel, tblParseLine_eq_none mem_cons_self (by decide), fun law => ?_⟩
  have parsed := law.2 []
  rw [tblParseLine_eq_none mem_cons_self (by decide)] at parsed
  cases parsed

end Law

end NCollectd.Columns
