import NCollectd.LabelSet.Clone
import NCollectd.Metric.Model
import NCollectd.Plugin.WriteQueueRuns
import NCollectd.Utils.MetaData

/-! Metric families, and their copies in the write queue. -/

namespace NCollectd.Families

open LabelSet List Option

/-- `metric_t`, with the pointer to its family. -/
structure FamilyMetric where
  family : Block
  label : LabelArray
  value : Value
  time : CdTime
  interval : CdTime
  metaData : Option (List MetaEntry)
deriving DecidableEq

/-- `metric_family_t`. -/
structure Family where
  name : CString
  help : Option CString
  type : MetricType
  metrics : List FamilyMetric
deriving DecidableEq

def Family.withMetrics (family : Family) (metrics : List FamilyMetric) : Family :=
  ⟨family.name, family.help, family.type, metrics⟩

def copyValue (families : Heap Family) (m : FamilyMetric) : Option Value :=
  (families.deref m.family).bind fun family =>
    if family.type = .distribution then m.value.distribution?.map fun dist => .distribution (distributionClone dist)
    else some m.value

/-- The body of the loop of `metric_list_clone`; the meta data are not copied. -/
def cloneMetric (families : Heap Family) (fam : Block) (m : FamilyMetric) : Option (Status × FamilyMetric) :=
  (copyValue families m).bind fun value =>
    (labelSetClone .empty m.label).map fun (status, label) => (status, ⟨fam, label, value, m.time, m.interval, none⟩)

def metricListClone (families : Heap Family) (fam : Block) :
    List FamilyMetric → Option (Except Status (List FamilyMetric))
  | [] => some (.ok [])
  | m :: src =>
    (cloneMetric families fam m).bind fun (status, copy) =>
      if status ≠ 0 then some (.error status)
      else (metricListClone families fam src).map fun result => result.map (copy :: ·)

def metricFamilyClone (families : Heap Family) (fam : Block) : Option (Heap Family × Option Block) :=
  (families.deref fam).bind fun family =>
    let (families, ret) := families.alloc (family.withMetrics [])
    (metricListClone families ret family.metrics).bind fun
      | .error _ => (families.free ret).map fun families => (families, none)
      | .ok metrics => (families.store ret (family.withMetrics metrics)).map fun families => (families, some ret)

def fillTimes (time interval : CdTime) (m : FamilyMetric) : FamilyMetric :=
  { m with
    time := if m.time = 0 then time else m.time
    interval := if m.interval = 0 then interval else m.interval }

def enqueueMetricFamily (families : Heap Family) (fam : Block) (time interval : CdTime) :
    Option (Heap Family × Option Block) :=
  (metricFamilyClone families fam).bind fun
    | (families, none) => some (families, none)
    | (families, some copy) =>
      (families.deref copy).bind fun family =>
        (families.store copy (family.withMetrics (family.metrics.map (fillTimes time interval)))).map fun families =>
          (families, some copy)

/-- A metric with the same content; `time` and `interval` say what becomes of those fields. -/
structure SameMetric (fam : Block) (time interval : CdTime → CdTime) (m copy : FamilyMetric) : Prop where
  family : copy.family = fam
  label : ∃ pairs, readPairs m.label = some pairs ∧ readPairs copy.label = some pairs
  value : copy.value = m.value
  time : copy.time = time m.time
  interval : copy.interval = interval m.interval
  metaData : metaEntries copy.metaData = metaEntries m.metaData

/-- A copy in which only the meta data are missing. -/
structure Stripped (fam : Block) (time interval : CdTime → CdTime) (m copy : FamilyMetric) : Prop where
  family : copy.family = fam
  label : ∃ pairs, readPairs m.label = some pairs ∧ readPairs copy.label = some pairs
  value : copy.value = m.value
  time : copy.time = time m.time
  interval : copy.interval = interval m.interval
  metaData : copy.metaData = none

structure SameFamily (fam : Block) (time interval : CdTime → CdTime) (family copy : Family) : Prop where
  name : copy.name = family.name
  help : copy.help = family.help
  type : copy.type = family.type
  metrics : List.Forall₂ (SameMetric fam time interval) family.metrics copy.metrics

theorem copyValue_eq (found : families.deref m.family = some family)
    (typed : family.type = .distribution → m.value.distribution?.isSome) : copyValue families m = some m.value := by
  unfold copyValue
  rw [found, bind_some]
  split
  · rename_i distribution
    obtain ⟨dist, stored⟩ := isSome_iff_exists.mp (typed distribution)
    rw [stored, map_some, distributionClone_eq, Value.distribution?_eq_some.mp stored]
  · rfl

theorem metricListClone_eq (found : families.deref fam = some family) (metrics : List FamilyMetric)
    (owned : ∀ m ∈ metrics, m.family = fam)
    (typed : family.type = .distribution → ∀ m ∈ metrics, m.value.distribution?.isSome) :
    (∃ copies, metricListClone families ret metrics = some (.ok copies) ∧
        List.Forall₂ (Stripped ret id id) metrics copies) ∨
      metricListClone families ret metrics = none ∧ ∃ m ∈ metrics, readPairs m.label = none := by
  induction metrics with
  | nil => exact .inl ⟨[], rfl, .nil⟩
  | cons m metrics ih =>
    obtain ⟨own, others⟩ := forall_mem_cons.mp owned
    have value : copyValue families m = some m.value :=
      copyValue_eq (own ▸ found) fun distribution => typed distribution m mem_cons_self
    have label := labelSetClone_eq m.label
    have rest := ih others fun distribution other member => typed distribution other (mem_cons_of_mem m member)
    unfold metricListClone cloneMetric
    rw [value, bind_some]
    cases read : readPairs m.label with
    | none =>
      simp only [read] at label
      rw [label]
      exact .inr ⟨rfl, m, mem_cons_self, read⟩
    | some pairs =>
      simp only [read] at label
      obtain ⟨array, cloned, same⟩ := label
      simp only [cloned, map_some, bind_some, ne_eq, not_true_eq_false, if_false]
      rcases rest with ⟨copies, looped, alike⟩ | ⟨undefined, other, member, unreadable⟩
      · rw [looped]
        exact .inl ⟨_, rfl, .cons ⟨rfl, ⟨pairs, read, same⟩, rfl, rfl, rfl, rfl⟩ alike⟩
      · rw [undefined]
        exact .inr ⟨rfl, other, mem_cons_of_mem m member, unreadable⟩

/-- A family whose metrics point to it, with values of its type. -/
structure FamilyInput where
  families : Heap Family
  fam : Block
  family : Family
  found : families.deref fam = some family
  owned : ∀ m ∈ family.metrics, m.family = fam
  typed : family.type = .distribution → ∀ m ∈ family.metrics, m.value.distribution?.isSome

/-- The clone has the content of the family, which is still there. -/
def CloneFaithful (input : FamilyInput) : Prop :=
  ∃ families ret copy, metricFamilyClone input.families input.fam = some (families, some ret) ∧
    families.deref ret = some copy ∧ families.deref input.fam = some input.family ∧
    SameFamily ret id id input.family copy

def EnqueueFaithful (input : FamilyInput) (time interval : CdTime) : Prop :=
  ∃ families ret copy, enqueueMetricFamily input.families input.fam time interval = some (families, some ret) ∧
    families.deref ret = some copy ∧
    SameFamily ret (fun t => if t = 0 then time else t) (fun i => if i = 0 then interval else i) input.family copy

section Clone

variable (input : FamilyInput)

theorem metricFamilyClone_eq :
    (∃ families ret copies, metricFamilyClone input.families input.fam = some (families, some ret) ∧
      families.deref ret = some (input.family.withMetrics copies) ∧ families.deref input.fam = some input.family ∧
      List.Forall₂ (Stripped ret id id) input.family.metrics copies) ∨
      metricFamilyClone input.families input.fam = none ∧ ∃ m ∈ input.family.metrics, readPairs m.label = none := by
  have live : (input.families.alloc (input.family.withMetrics [])).1.deref _ = some _ := Heap.deref_alloc_self
  have kept := Heap.deref_alloc input.found (input.family.withMetrics [])
  have different := Heap.ne_alloc input.found (input.family.withMetrics [])
  unfold metricFamilyClone
  rw [input.found, bind_some]
  dsimp only
  rcases metricListClone_eq kept input.family.metrics input.owned input.typed with
    ⟨copies, looped, alike⟩ | ⟨undefined, unreadable⟩
  · obtain ⟨families, stored, here, others⟩ := Heap.exists_store live (input.family.withMetrics copies)
    refine .inl ⟨families, _, copies, ?_, here, (others _ different).trans kept, alike⟩
    rw [looped, bind_some]
    dsimp only
    rw [stored, map_some]
  · rw [undefined]
    exact .inr ⟨rfl, unreadable⟩

end Clone

theorem sameMetric_iff (stripped : Stripped ret time interval m copy) :
    SameMetric ret time interval m copy ↔ metaEntries m.metaData = [] := by
  constructor
  · intro same
    rw [← same.metaData, stripped.metaData]
    rfl
  · intro none
    exact ⟨stripped.family, stripped.label, stripped.value, stripped.time, stripped.interval,
      by rw [none, stripped.metaData]; rfl⟩

theorem forall₂_sameMetric_iff
    (stripped : List.Forall₂ (Stripped ret time interval) metrics copies) :
    List.Forall₂ (SameMetric ret time interval) metrics copies ↔
      ∀ m ∈ metrics, metaEntries m.metaData = [] ∧ (readPairs m.label).isSome := by
  induction stripped with
  | nil => exact iff_of_true .nil (forall_mem_nil _)
  | cons first rest ih =>
    obtain ⟨pairs, read, -⟩ := first.label
    rw [forall₂_cons, forall_mem_cons, ih, sameMetric_iff first, read]
    simp

theorem Stripped.fill (now pluginInterval : CdTime) (stripped : Stripped ret id id m copy) :
    Stripped ret (fun t => if t = 0 then now else t) (fun i => if i = 0 then pluginInterval else i) m
      (fillTimes now pluginInterval copy) where
  family := stripped.family
  label := stripped.label
  value := stripped.value
  time := by
    have same : copy.time = m.time := stripped.time
    simp only [fillTimes, same]
  interval := by
    have same : copy.interval = m.interval := stripped.interval
    simp only [fillTimes, same]
  metaData := stripped.metaData

theorem sameFamily_iff
    (stripped : List.Forall₂ (Stripped ret time interval) family.metrics copies) :
    SameFamily ret time interval family (family.withMetrics copies) ↔
      ∀ m ∈ family.metrics, metaEntries m.metaData = [] ∧ (readPairs m.label).isSome := by
  rw [← forall₂_sameMetric_iff stripped]
  exact ⟨SameFamily.metrics, fun metrics => ⟨rfl, rfl, rfl, metrics⟩⟩

theorem returned_queued
    {log : List (WriteQueue.Event Block Unit n)} (run : WriteQueue.Execution s log) (thread : Fin n)
    (returned : item ∈ WriteQueue.returnedTo thread log) : item ∈ WriteQueue.queuedItems log := by
  obtain ⟨cells, own, invariant⟩ := WriteQueue.invariant_of_execution run
  have own := invariant.returns thread
  have taken : item ∈ WriteQueue.takenBy thread log := by
    rw [own]
    exact mem_append_left _ returned
  have some : item ∈ WriteQueue.takenItems log := by
    obtain ⟨event, member, found⟩ := mem_flatMap.mp taken
    refine mem_flatMap.mpr ⟨event, member, ?_⟩
    cases event with
    | taken other family =>
      have listed : item ∈ if other = thread then [family] else [] := found
      by_cases same : other = thread
      · rw [if_pos same] at listed
        exact listed
      · rw [if_neg same] at listed
        cases listed
    | _ => cases found
  rw [invariant.flow]
  exact mem_append_left _ (mem_append_left _ some)

theorem cloneFaithful_iff (input : FamilyInput) :
    CloneFaithful input ↔
      ∀ m ∈ input.family.metrics, metaEntries m.metaData = [] ∧ (readPairs m.label).isSome := by
  rcases metricFamilyClone_eq input with
    ⟨families, ret, copies, cloned, found, kept, stripped⟩ | ⟨undefined, m, member, unreadable⟩
  · rw [← sameFamily_iff stripped]
    constructor
    · rintro ⟨families', ret', copy, cloned', found', -, same⟩
      rw [cloned] at cloned'
      cases cloned'
      cases found.symm.trans found'
      exact same
    · intro same
      exact ⟨families, ret, _, cloned, found, kept, same⟩
  · refine iff_of_false ?_ fun readable => ?_
    · rintro ⟨families', ret', copy, cloned', -⟩
      rw [undefined] at cloned'
      cases cloned'
    · have read := (readable m member).2
      rw [unreadable] at read
      cases read

theorem enqueueFaithful_iff (input : FamilyInput) (time interval : CdTime) :
    EnqueueFaithful input time interval ↔
      ∀ m ∈ input.family.metrics, metaEntries m.metaData = [] ∧ (readPairs m.label).isSome := by
  unfold EnqueueFaithful enqueueMetricFamily
  rcases metricFamilyClone_eq input with
    ⟨families, ret, copies, cloned, found, -, stripped⟩ | ⟨undefined, m, member, unreadable⟩
  · have filled : List.Forall₂ (Stripped ret (fun t => if t = 0 then time else t)
        (fun i => if i = 0 then interval else i)) input.family.metrics (copies.map (fillTimes time interval)) := by
      rw [forall₂_map_right_iff]
      exact stripped.imp fun m copy => Stripped.fill time interval
    obtain ⟨after, stored, here, -⟩ :=
      Heap.exists_store found (input.family.withMetrics (copies.map (fillTimes time interval)))
    rw [← sameFamily_iff filled, cloned, bind_some]
    dsimp only
    rw [found, bind_some]
    constructor
    · rintro ⟨families', ret', copy, done, found', same⟩
      obtain ⟨middle, written, rest⟩ := map_eq_some_iff.mp done
      cases stored.symm.trans written
      cases rest
      cases here.symm.trans found'
      exact same
    · intro same
      exact ⟨after, ret, _, congrArg (Option.map _) stored, here, same⟩
  · rw [undefined]
    refine iff_of_false ?_ fun readable => ?_
    · rintro ⟨families', ret', copy, done, -⟩
      cases done
    · have read := (readable m member).2
      rw [unreadable] at read
      cases read

/-- A family is copied faithfully exactly without meta data and with readable labels. -/
theorem metric_family_clone_faithful_iff (input : FamilyInput) :
    (CloneFaithful input ↔ ∀ m ∈ input.family.metrics, metaEntries m.metaData = [] ∧ (readPairs m.label).isSome) ∧
      (∀ time interval, EnqueueFaithful input time interval ↔
        ∀ m ∈ input.family.metrics, metaEntries m.metaData = [] ∧ (readPairs m.label).isSome) ∧
      ∀ (n : Nat) (s : WriteQueue.System Block Unit n) (log : List (WriteQueue.Event Block Unit n)),
        WriteQueue.Execution s log → ∀ thread, ∀ item ∈ WriteQueue.returnedTo thread log,
          item ∈ WriteQueue.queuedItems log :=
  ⟨cloneFaithful_iff input, enqueueFaithful_iff input, fun _ _ _ run thread _ => returned_queued run thread⟩

def taggedFamily : Family :=
  ⟨"up", none, .gauge, [⟨0, .empty, .gauge (.fin 1), 1, 10, some [⟨"seen", .boolean true⟩]⟩]⟩

def taggedInput : FamilyInput where
  families := ⟨[some taggedFamily]⟩
  fam := 0
  family := taggedFamily
  found := rfl
  owned := by decide
  typed := nofun

theorem metric_family_clone_loses_meta :
    ((metricFamilyClone taggedInput.families 0).bind fun result => result.2.bind fun ret =>
        (result.1.deref ret).map fun copy => copy.metrics.map FamilyMetric.metaData) = some [none] ∧
      ¬ CloneFaithful taggedInput := by
  have lost : ((metricFamilyClone taggedInput.families 0).bind fun result => result.2.bind fun ret =>
      (result.1.deref ret).map fun copy => copy.metrics.map FamilyMetric.metaData) = some [none] := by decide +kernel
  refine ⟨lost, ?_⟩
  rintro ⟨families, ret, copy, cloned, found, -, same⟩
  have cloned' : metricFamilyClone taggedInput.families 0 = some (families, some ret) := cloned
  rw [cloned', bind_some, bind_some, found, map_some] at lost
  have entries := some.inj lost
  have metrics := same.metrics
  cases shape : copy.metrics with
  | nil =>
    rw [shape] at entries
    cases entries
  | cons first rest =>
    rw [shape] at entries metrics
    obtain ⟨alike, -⟩ := forall₂_cons.mp metrics
    have kept := alike.metaData
    rw [(cons.inj entries).1] at kept
    cases kept

end NCollectd.Families
