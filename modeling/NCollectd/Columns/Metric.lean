import NCollectd.Filter.Config
import NCollectd.Utils.ParseValues

/-! Metrics made of the columns of a line. -/

namespace NCollectd.Columns

open Common LabelSet List
open NCollectd.Filter (ConfigItem ConfigValue)

/-- A value of type `ssize_t`, or of a narrower signed type. -/
abbrev Signed := { value : Int // -2 ^ 63 ≤ value ∧ value < 2 ^ 63 }

def Signed.size (index : Signed) : Nat := (index.1 % 2 ^ 64).toNat

def toSigned (limit : Int) : Double → Option Signed
  | .fin q =>
    let n := if 0 ≤ q then q.floor else q.ceil
    if inside : -2 ^ 63 ≤ n ∧ n < 2 ^ 63 then if -limit ≤ n ∧ n < limit then some ⟨n, inside⟩ else none else none
  | _ => none

def cfUtilGetString (ci : ConfigItem) : Except Status CString :=
  match ci.values with
  | [.string text] => .ok text
  | _ => .error (-1)

def cfUtilGetInt (ci : ConfigItem) : Option (Except Status Signed) :=
  match ci.values with
  | [.number n] => (toSigned (2 ^ 31) n).map .ok
  | _ => some (.error (-1))

def cfUtilGetMetricType (ci : ConfigItem) : Except Status MetricType := do
  let text ← cfUtilGetString ci
  if strcasecmp text "gauge" = 0 then .ok .gauge
  else if strcasecmp text "untyped" = 0 then .ok .untyped
  else if strcasecmp text "counter" = 0 then .ok .counter
  else .error (-1)

def cfUtilGetLabel (ci : ConfigItem) (labels : LabelArray) : Option (Except Status LabelArray) :=
  match ci.values with
  | [.string name, .string value] =>
    (labelSetCreate labels name value).map fun (status, labels) => if status ≠ 0 then .error status else .ok labels
  | _ => some (.error (-1))

/-- The options of a `<Result>` of a table, and of a `<Metric>` of a CSV file. -/
structure ColumnOptions where
  metricPrefix : Option CString
  metric : Option CString
  metricFrom : Signed
  type : MetricType
  help : Option CString
  labels : LabelArray
  labelsFrom : List (CString × Signed)
  valueFrom : Signed

def ColumnOptions.setup (type : MetricType) : ColumnOptions :=
  ⟨none, none, ⟨-1, by decide⟩, type, none, .empty, [], ⟨-1, by decide⟩⟩

def appendLabel (ci : ConfigItem) (labelsFrom : List (CString × Signed)) :
    Option (Except Status (List (CString × Signed))) :=
  match ci.values with
  | [.string key, .number n] => (toSigned (2 ^ 31) n).map fun index => .ok (labelsFrom ++ [(key, index)])
  | _ => some (.error (-1))

def columnOption (getIndex : ConfigItem → Option (Except Status Signed)) (res : ColumnOptions) (c : ConfigItem) :
    Option (Except Status ColumnOptions) :=
  if strcasecmp c.key "Type" = 0 then some ((cfUtilGetMetricType c).map fun type => { res with type })
  else if strcasecmp c.key "Help" = 0 then some ((cfUtilGetString c).map fun help => { res with help })
  else if strcasecmp c.key "Metric" = 0 then some ((cfUtilGetString c).map fun metric => { res with metric })
  else if strcasecmp c.key "MetricFrom" = 0 then
    (getIndex c).map (·.map fun metricFrom => { res with metricFrom })
  else if strcasecmp c.key "MetricPrefix" = 0 then
    some ((cfUtilGetString c).map fun metricPrefix => { res with metricPrefix })
  else if strcasecmp c.key "Label" = 0 then
    (cfUtilGetLabel c res.labels).map (·.map fun labels => { res with labels })
  else if strcasecmp c.key "LabelFrom" = 0 then
    (appendLabel c res.labelsFrom).map (·.map fun labelsFrom => { res with labelsFrom })
  else if strcasecmp c.key "ValueFrom" = 0 then
    (getIndex c).map (·.map fun valueFrom => { res with valueFrom })
  else some (.error (-1))

def optionLoop (set : σ → ConfigItem → Option (Except Status σ)) : σ → List ConfigItem → Option (Except Status σ)
  | s, [] => some (.ok s)
  | s, c :: rest =>
    match set s c with
    | some (.ok s) => optionLoop set s rest
    | stop => stop

/-- Options that pass the checks at the end of a block. -/
structure ColumnMetric extends ColumnOptions where
  named : metric.isSome ∨ 0 ≤ metricFrom.1
  single : metric.isSome → metricFrom.1 ≤ 0
  valued : 0 ≤ valueFrom.1

def ColumnOptions.check (res : ColumnOptions) : Except Status ColumnMetric :=
  if checked : (res.metric.isSome ∨ 0 ≤ res.metricFrom.1) ∧ (res.metric.isSome → res.metricFrom.1 ≤ 0) ∧
      0 ≤ res.valueFrom.1 then .ok ⟨res, checked.1, checked.2.1, checked.2.2⟩
  else .error (-1)

/-- What a `<Table>` and a `<File>` give to all of their metrics. -/
structure Source where
  metricPrefix : Option CString
  labels : LabelArray

/-- A family with one metric that is given to `plugin_dispatch_metric_family`. -/
structure Dispatched where
  name : CString
  type : MetricType
  help : Option CString
  labels : List LabelArray
  columnLabels : List (CString × CString)
  value : Value
  time : CdTime

def buildMetric (source : Source) (md : ColumnMetric) (fields : List CString) (value : Value) (time : CdTime) :
    Option Dispatched := do
  let name ← (if 0 ≤ md.metricFrom.1 then fields[md.metricFrom.size]? else md.metric)
  let columnLabels ← md.labelsFrom.mapM fun label => fields[label.2.size]?.map fun field => (label.1, field)
  return ⟨source.metricPrefix.getD [] ++ md.metricPrefix.getD [] ++ name, md.type, md.help,
    [source.labels, md.labels], columnLabels, value, time⟩

def ColumnMetric.texts (md : ColumnMetric) : List Signed :=
  (if 0 ≤ md.metricFrom.1 then [md.metricFrom] else []) ++ md.labelsFrom.map Prod.snd

def ColumnMetric.described (source : Source) (md : ColumnMetric) (fields : List CString) (time : CdTime)
    (value : Value) :
    Dispatched :=
  let field (index : Signed) := fields.getD index.size []
  ⟨source.metricPrefix.getD [] ++ md.metricPrefix.getD [] ++
      (if 0 ≤ md.metricFrom.1 then field md.metricFrom else md.metric.getD []), md.type, md.help,
    [source.labels, md.labels], md.labelsFrom.map fun label => (label.1, field label.2), value, time⟩

def ColumnMetric.given (platform : Platform) (source : Source) (fields : List CString) (time : CdTime)
    (md : ColumnMetric) : Option Dispatched :=
  (parseValue platform (fields.getD md.valueFrom.size []) md.type.number).toOption.map
    (md.described source fields time)

theorem size_of_nonneg {index : Signed} (nonneg : 0 ≤ index.1) : (index.size : Int) = index.1 := by
  unfold Signed.size
  omega

theorem mapM_eq_some {items : List α} (each : ∀ x ∈ items, f x = some (g x)) :
    items.mapM f = some (items.map g) := by
  induction items with
  | nil => rfl
  | cons x items ih =>
    obtain ⟨first, others⟩ := forall_mem_cons.mp each
    rw [mapM_cons, first, ih others]
    rfl

theorem mapM_eq_none {items : List α} (member : x ∈ items) (aborts : f x = none) :
    items.mapM f = none := by
  induction items with
  | nil => cases member
  | cons y items ih =>
    rw [mapM_cons]
    rcases mem_cons.mp member with rfl | later
    · rw [aborts]
      rfl
    · rw [ih later]
      cases f y <;> rfl

section

variable (source : Source) (value : Value) (time : CdTime)

theorem buildMetric_eq_some (covered : ∀ index ∈ md.texts, index.size < fields.length) :
    buildMetric source md fields value time = some (md.described source fields time value) := by
  have field : ∀ index ∈ md.texts, fields[index.size]? = some (fields.getD index.size []) := by
    intro index member
    simp [covered index member]
  have labels : md.labelsFrom.mapM (fun label => fields[label.2.size]?.map fun field => (label.1, field)) = some _ :=
    mapM_eq_some fun label member => by
      rw [field label.2 (mem_append_right _ (mem_map_of_mem member)), Option.map_some]
  simp only [buildMetric, labels, ColumnMetric.described]
  by_cases column : 0 ≤ md.metricFrom.1
  · rw [if_pos column, field md.metricFrom (by simp [ColumnMetric.texts, column])]
    simp [column]
  · obtain ⟨metric, set⟩ := Option.isSome_iff_exists.mp (md.named.resolve_right column)
    simp [column, set]

theorem buildMetric_eq_none (member : index ∈ md.texts) (outside : ¬ index.size < fields.length) :
    buildMetric source md fields value time = none := by
  have missing : fields[index.size]? = none := getElem?_eq_none (Nat.not_lt.mp outside)
  unfold buildMetric
  rcases mem_append.mp member with name | label
  · split at name
    · rename_i column
      rw [if_pos column, ← mem_singleton.mp name, missing]
      rfl
    · cases name
  · obtain ⟨label, listed, rfl⟩ := mem_map.mp label
    have aborts : md.labelsFrom.mapM (fun label => fields[label.2.size]?.map fun field => (label.1, field)) = none :=
      mapM_eq_none listed (by rw [missing]; rfl)
    rw [aborts]
    cases (if 0 ≤ md.metricFrom.1 then fields[md.metricFrom.size]? else md.metric) <;> rfl

end

end NCollectd.Columns
