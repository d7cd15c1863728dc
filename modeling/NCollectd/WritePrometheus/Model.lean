import NCollectd.Base.Mutex
import NCollectd.Base.SortedTable
import NCollectd.Metric.Family
import NCollectd.Metric.Identity
import NCollectd.Utils.Avltree

/-! `write_prometheus.c`: the families that were written last, for the exporter. -/

namespace NCollectd.Prometheus

open LabelSet Locked

/-- The labels of a metric as they are read, without the array that holds them. -/
structure Labels where
  pairs : List LabelPair
  formed : WellFormed pairs
deriving DecidableEq

/-- `metric_t` inside a family; the reference back to the family is left out. -/
structure FamilyMetric where
  labels : Labels
  value : Value
  time : CdTime
  interval : CdTime
deriving DecidableEq

/-- `metric_family_t`. -/
structure Family where
  name : CString
  help : Option CString
  type : MetricType
  metrics : List FamilyMetric
deriving DecidableEq

def compareValues : List LabelPair → List LabelPair → Int
  | first :: rest, second :: rest' =>
    let status := strcmp first.value second.value
    if status ≠ 0 then status else compareValues rest rest'
  | _, _ => 0

/-- The names of the labels are not compared. -/
def promMetricCmp (first second : FamilyMetric) : Int :=
  if first.labels.pairs.length < second.labels.pairs.length then -1
  else if second.labels.pairs.length < first.labels.pairs.length then 1
  else compareValues first.labels.pairs second.labels.pairs

/-- How `format_text` prints: a union read as a counter or as a gauge, and a time in milliseconds. -/
structure ExportFormat where
  counter : Value → CString
  gauge : Value → CString
  milliseconds : CdTime → CString
  version : CString
  hostname : CString

/-- What the plugin finds around it: the C library, the option `StalenessDelta` and `printf`. -/
structure Environment where
  table : TableFunctions promMetricCmp
  stalenessDelta : CdTime
  format : ExportFormat

/-- `prom_metrics`, with the families it leads to. -/
structure Prom where
  tree : AvlTree Block
  families : Heap Family

def Prom.empty : Prom := ⟨∅, .empty⟩

abbrev PromCode (α : Type) := Locked Prom α

def load (promFam : Block) : PromCode Family := do
  let prom ← read
  ofOption (prom.families.deref promFam)

def assign (promFam : Block) (fam : Family) : PromCode Unit := do
  let prom ← read
  let families ← ofOption (prom.families.store promFam fam)
  write { prom with families }

def metricFamilyFree (promFam : Block) : PromCode Unit := do
  let prom ← read
  let families ← ofOption (prom.families.free promFam)
  write { prom with families }

def metricFamilyClone (fam : Family) : Family where
  name := fam.name
  help := fam.help
  type := fam.type
  metrics := fam.metrics.map fun m => { labels := m.labels, value := m.value, time := m.time, interval := m.interval }

/-- The stored metric has the labels, the value and the times of the other. -/
structure MetricDenotes (stored : Families.FamilyMetric) (m : FamilyMetric) : Prop where
  label : readPairs stored.label = some m.labels.pairs
  value : stored.value = m.value
  time : stored.time = m.time
  interval : stored.interval = m.interval

structure Denotes (stored : Families.Family) (fam : Family) : Prop where
  name : stored.name = fam.name
  help : stored.help = fam.help
  type : stored.type = fam.type
  metrics : List.Forall₂ MetricDenotes stored.metrics fam.metrics

theorem MetricDenotes.of_stripped (denotes : MetricDenotes m metric) (stripped : Families.Stripped ret id id m copy) :
    MetricDenotes copy metric where
  label := by
    obtain ⟨pairs, read, same⟩ := stripped.label
    rw [same, ← read, denotes.label]
  value := stripped.value.trans denotes.value
  time := stripped.time.trans denotes.time
  interval := stripped.interval.trans denotes.interval

theorem denotes_of_stripped (denotes : List.Forall₂ MetricDenotes stored metrics)
    (stripped : List.Forall₂ (Families.Stripped ret id id) stored copies) :
    List.Forall₂ MetricDenotes copies metrics := by
  induction stripped generalizing metrics with
  | nil => exact denotes
  | cons copy _ ih =>
    cases denotes with
    | cons first rest => exact .cons (first.of_stripped copy) (ih rest)

/-- The copy on the heap stands for the copy that `prom_write` is modelled with. -/
theorem metricFamilyClone_denotes (input : Families.FamilyInput) (denotes : Denotes input.family fam) :
    ∃ families ret copy, Families.metricFamilyClone input.families input.fam = some (families, some ret) ∧
      families.deref ret = some copy ∧ Denotes copy (metricFamilyClone fam) := by
  rcases Families.metricFamilyClone_eq input with
    ⟨families, ret, copies, cloned, found, -, stripped⟩ | ⟨-, m, member, unreadable⟩
  · refine ⟨families, ret, _, cloned, found, denotes.name, denotes.help, denotes.type, ?_⟩
    have copied := denotes_of_stripped denotes.metrics stripped
    rwa [← List.map_id' fam.metrics] at copied
  · have readable : ∀ m ∈ input.family.metrics, (readPairs m.label).isSome = true := by
      refine ((List.forall₂_and_left ..).mp (denotes.metrics.imp fun m metric stands => ⟨?_, stands⟩)).1
      rw [stands.label]
      rfl
    have read := readable m member
    rw [unreadable] at read
    cases read

def metricFamilyMetricAppend (metrics : List FamilyMetric) (m : FamilyMetric) : List FamilyMetric :=
  metrics ++ [{ labels := m.labels, value := m.value, time := m.time, interval := m.interval }]

def promMetricFamilyMetricDelete (metrics : List FamilyMetric) (m : FamilyMetric) :
    Status × List FamilyMetric :=
  match metrics.findIdx? fun stored => promMetricCmp m stored = 0 with
  | none => (ENOENT, metrics)
  | some i => (0, metrics.eraseIdx i)

section Calls

variable (env : Environment)

def exportedTime (m : FamilyMetric) : CdTime := if m.interval > env.stalenessDelta then 0 else m.time

def putMetric (metrics : List FamilyMetric) (m : FamilyMetric) : List FamilyMetric :=
  match env.table.bsearch m metrics with
  | none => env.table.qsort (metricFamilyMetricAppend metrics m)
  | some i => metrics.modify i fun stored => { stored with value := m.value, time := exportedTime env m }

def writeMetrics (promFam : Block) : List FamilyMetric → PromCode Unit
  | [] => pure ()
  | m :: rest => do
    let fam ← load promFam
    assign promFam { fam with metrics := putMetric env fam.metrics m }
    writeMetrics promFam rest

def promWrite (fam : Family) : PromCode Status := do
  lock
  let prom ← read
  match prom.tree[fam.name]? with
  | none =>
    let clone := metricFamilyClone fam
    let sorted := { clone with metrics := env.table.qsort clone.metrics }
    let (families, promFam) := prom.families.alloc sorted
    let (status, tree) := cAvlInsert prom.tree sorted.name promFam
    write ⟨tree, families⟩
    if status ≠ 0 then
      metricFamilyFree promFam
      unlock
      pure (-1)
    else
      unlock
      pure 0
  | some promFam =>
    writeMetrics env promFam fam.metrics
    unlock
    pure 0

def dropEmpty (promFam : Block) (fam : Family) : PromCode Unit := do
  if fam.metrics.length = 0 then
    let prom ← read
    match prom.tree[fam.name]? with
    | none => pure ()
    | some _ =>
      write { prom with tree := prom.tree.erase fam.name }
      metricFamilyFree promFam
  else pure ()

def missingMetric (promFam : Block) (m : FamilyMetric) : PromCode Unit := do
  let fam ← load promFam
  match env.table.bsearch m fam.metrics with
  | none => pure ()
  | some _ =>
    let (status, metrics) := promMetricFamilyMetricDelete fam.metrics m
    if status ≠ 0 then pure ()
    else
      assign promFam { fam with metrics }
      dropEmpty promFam { fam with metrics }

def missingMetrics (promFam : Block) : List FamilyMetric → PromCode Unit
  | [] => pure ()
  | m :: rest => do
    missingMetric env promFam m
    missingMetrics promFam rest

def promMissing (fam : Family) : PromCode Status := do
  lock
  let prom ← read
  match prom.tree[fam.name]? with
  | none => pure 0
  | some promFam =>
    missingMetrics env promFam fam.metrics
    unlock
    pure 0

def typeName : MetricType → Option CString
  | .gauge => some "gauge"
  | .counter => some "counter"
  | .untyped => some "untyped"
  | .distribution => none

def metricText (fam : Family) (m : FamilyMetric) : CString :=
  let value := if fam.type = .counter then env.format.counter m.value else env.format.gauge m.value
  let time := if m.time > 0 then ' ' :: env.format.milliseconds m.time else []
  identityText fam.name m.labels.pairs ++ ' ' :: value ++ time ++ ['\n']

def familyText (fam : Family) : CString :=
  if fam.metrics.length = 0 then []
  else
    match typeName fam.type with
    | none => []
    | some type =>
      let help := match fam.help with
        | none => []
        | some help => ' ' :: help
      "# HELP " ++ fam.name ++ help ++ "\n# TYPE " ++ fam.name ++ ' ' :: type ++ ['\n'] ++
        fam.metrics.flatMap (metricText env fam)

def familyTexts : List Block → PromCode CString
  | [] => pure []
  | promFam :: rest => do
    let fam ← load promFam
    let texts ← familyTexts rest
    pure (familyText env fam ++ texts)

def formatText : PromCode CString := do
  lock
  let prom ← read
  let texts ← familyTexts env (prom.tree.toList.map Prod.snd)
  unlock
  pure (texts ++ "\n# ncollectd/write_prometheus " ++ env.format.version ++ " at " ++
    env.format.hostname ++ ['\n'])

/-- The calls that the daemon and the exporter make. -/
inductive Call where
  | write (fam : Family)
  | missing (fam : Family)
  | format

def Call.code : Call → PromCode Unit
  | .write fam => do
    let _ ← promWrite env fam
    pure ()
  | .missing fam => do
    let _ ← promMissing env fam
    pure ()
  | .format => do
    let _ ← formatText env
    pure ()

def runCalls (state : Prom × MutexState) : List Call → Option (Prom × MutexState)
  | [] => some state
  | call :: rest =>
    match (call.code env state.1).ended, state.2.run (call.code env state.1).calls with
    | some ((), prom), some mutex => runCalls (prom, mutex) rest
    | _, _ => none

end Calls

end NCollectd.Prometheus
