import NCollectd.Base.Association
import NCollectd.Base.Runs
import NCollectd.WritePrometheus.Lifetime

namespace NCollectd.Prometheus

open LabelSet Locked Prom Function Option

/-- What the exporter shows of a metric. -/
structure Sample where
  type : MetricType
  value : Value
  time : CdTime
deriving DecidableEq

/-- The samples by the name of the family and the label set. -/
abbrev Samples := CString → Labels → Option Sample

section Specification

variable (env : Environment)

def written (type : MetricType) (m : FamilyMetric) : Sample where
  type := type
  value := m.value
  time := if m.interval > env.stalenessDelta then 0 else m.time

def writeRow (type : MetricType) (row : Labels → Option Sample) (m : FamilyMetric) : Labels → Option Sample :=
  update row m.labels (some (written env type m))

def removeRow (row : Labels → Option Sample) (m : FamilyMetric) : Labels → Option Sample :=
  update row m.labels none

def Call.apply (map : Samples) : Call → Samples
  | .write fam =>
    fam.metrics.foldl (fun map m => update map fam.name (writeRow env fam.type (map fam.name) m)) map
  | .missing fam => fam.metrics.foldl (fun map m => update map fam.name (removeRow (map fam.name) m)) map
  | .format => map

def lastWritten (calls : List Call) : Samples := calls.foldl (Call.apply env) fun _ _ => none

end Specification

def sampleOf (type : MetricType) (m : FamilyMetric) : Sample := ⟨type, m.value, m.time⟩

def entriesOf (type : MetricType) (metrics : List FamilyMetric) : List (Labels × Sample) :=
  metrics.map fun m => (m.labels, sampleOf type m)

def Prom.entries (prom : Prom) (name : CString) : List (Labels × Sample) :=
  match prom.family name with
  | none => []
  | some fam => entriesOf fam.type fam.metrics

/-- The store has exactly one sample for each label set with one, and it is that of the map. -/
def Holds (prom : Prom) (map : Samples) : Prop := ∀ name, Represents (prom.entries name) (map name)

def Call.take (count : Nat) : Call → Call
  | .write fam => .write { fam with metrics := fam.metrics.take count }
  | .missing fam => .missing { fam with metrics := fam.metrics.take count }
  | .format => .format

/-- After a sequence of calls that all come to an end the store holds the samples written last. -/
def Refines (env : Environment) (calls : List Call) : Prop :=
  ∃ prom mutex, runCalls env (.empty, .free) calls = some (prom, mutex) ∧ Holds prom (lastWritten env calls)

/-- A sequence with which another one begins; its last call may be cut short. -/
def Beginning (part calls : List Call) : Prop :=
  part = [] ∨ ∃ before call rest count, calls = before ++ call :: rest ∧ part = before ++ [call.take count]

section Conditions

variable (env : Environment)

/-- A metric whose time is stored as it is. -/
def Timely (m : FamilyMetric) : Prop := m.interval > env.stalenessDelta → m.time = 0

/-- The metric is new and timely, or `bsearch` leads to its sample, or nothing would change. -/
def PutFits (metrics : List FamilyMetric) (m : FamilyMetric) : Prop :=
  match env.table.bsearch m metrics with
  | none => Timely env m
  | some i => ∃ found, metrics[i]? = some found ∧
    (found.labels = m.labels ∨
      (found.value, found.time) = (m.value, exportedTime env m) ∧
        ∃ own ∈ metrics, own.labels = m.labels ∧ (own.value, own.time) = (m.value, exportedTime env m))

/-- The first metric with as many labels and the same values, if any, has its label set. -/
def DropFits (metrics : List FamilyMetric) (m : FamilyMetric) : Prop :=
  ∀ found, metrics.find? (fun stored => promMetricCmp m stored = 0) = some found → found.labels = m.labels

/-- What a call has to meet on a store that holds what it should. -/
def Call.Fits (call : Call) (prom : Prom) : Prop :=
  match call with
  | .write fam =>
    match prom.family fam.name with
    | none => (fam.metrics.map FamilyMetric.labels).Nodup ∧ ∀ m ∈ fam.metrics, Timely env m
    | some known => ∀ front m back, fam.metrics = front ++ m :: back →
      fam.type = known.type ∧ PutFits env (front.foldl (putMetric env) known.metrics) m
  | .missing fam =>
    ∀ known, prom.family fam.name = some known →
      ¬EmptiedBy known.metrics fam.metrics.dropLast ∧
        ∀ front m back, fam.metrics = front ++ m :: back → DropFits (front.foldl dropMetric known.metrics) m
  | .format => True

end Conditions

theorem exportedTime_eq_iff : exportedTime env m = m.time ↔ Timely env m := by
  unfold exportedTime Timely
  grind

theorem written_eq_sampleOf_iff : written env type m = sampleOf type m ↔ Timely env m := by
  rw [← exportedTime_eq_iff, written, sampleOf, Sample.mk.injEq]
  simp [exportedTime]

theorem entriesOf_keys : (entriesOf type metrics).map Prod.fst = metrics.map FamilyMetric.labels := by
  simp [entriesOf]

theorem entriesOf_split (type : MetricType) (front back : List FamilyMetric) (stored : FamilyMetric) :
    (entriesOf type (front ++ stored :: back)).Perm
      ((stored.labels, sampleOf type stored) :: entriesOf type (front ++ back)) := by
  simp only [entriesOf]
  exact (List.perm_middle.map _)

theorem row_eq_none (represented : Represents (entriesOf type metrics) row)
    (unequal : ∀ stored ∈ metrics, promMetricCmp m stored ≠ 0) : row m.labels = none := by
  rw [represented.eq_none_iff, entriesOf_keys, List.mem_map]
  rintro ⟨stored, member, equal⟩
  apply unequal stored member
  rw [promMetricCmp_orders.same, metricKey, metricKey, equal]

theorem sampleOf_eq_written_iff :
    sampleOf type stored = written env type m ↔ (stored.value, stored.time) = (m.value, exportedTime env m) := by
  rw [sampleOf, written, Sample.mk.injEq, Prod.mk.injEq]
  exact and_iff_right rfl

theorem row_eq_written_iff (represented : Represents (entriesOf type metrics) row) :
    row m.labels = some (written env type m) ↔
      ∃ own ∈ metrics, own.labels = m.labels ∧ (own.value, own.time) = (m.value, exportedTime env m) := by
  rw [represented.holds, entriesOf, List.mem_map]
  simp [sampleOf_eq_written_iff]

theorem update_written_iff (represented : Represents (entriesOf type metrics) row) (labels : Labels) :
    update row labels (some (written env type m)) = writeRow env type' row m ↔
      type' = type ∧ (labels = m.labels ∨
        row labels = some (written env type m) ∧ row m.labels = some (written env type m)) := by
  unfold writeRow
  constructor
  · intro same
    have typed : type' = type := by
      have here := congrFun same m.labels
      rw [update_self] at here
      by_cases equal : m.labels = labels
      · rw [equal, update_self] at here
        exact (congrArg Sample.type (some.inj here)).symm
      · rw [update_of_ne equal] at here
        obtain ⟨stored, -, entry⟩ := List.mem_map.mp ((represented.holds _ _).mp here)
        exact (congrArg Sample.type (Prod.mk.inj entry).2).symm
    subst typed
    exact ⟨rfl, update_some_eq_iff.mp same⟩
  · rintro ⟨rfl, either⟩
    exact update_some_eq_iff.mpr either

theorem putMetric_represents_iff (sorted : Sorted metrics) (represented : Represents (entriesOf type metrics) row) :
    Represents (entriesOf type (putMetric env metrics m)) (writeRow env type' row m) ↔
      type' = type ∧ PutFits env metrics m := by
  unfold putMetric PutFits
  cases found : env.table.bsearch m metrics with
  | none =>
    have absent := row_eq_none represented (env.table.bsearch_miss m metrics sorted found)
    have shuffled : (entriesOf type (env.table.qsort (metrics ++ [m]))).Perm
        ((m.labels, sampleOf type m) :: entriesOf type metrics) :=
      ((env.table.qsort_perm _).trans (List.perm_append_singleton m metrics)).map _
    have stored := represented.cons_new (b := sampleOf type m) absent
    refine (Represents.perm_iff shuffled).trans (stored.iff_eq.trans ?_)
    rw [writeRow, (update_injective row m.labels).eq_iff, some.injEq]
    constructor
    · intro same
      obtain rfl : type' = type := (congrArg Sample.type same).symm
      exact ⟨rfl, written_eq_sampleOf_iff.mp same.symm⟩
    · rintro ⟨rfl, timely⟩
      exact (written_eq_sampleOf_iff.mpr timely).symm
  | some i =>
    obtain ⟨stored, inside, -⟩ := env.table.bsearch_hit m metrics i found
    obtain ⟨bound, rfl⟩ := List.getElem?_eq_some_iff.mp inside
    have split : metrics = metrics.take i ++ metrics[i] :: metrics.drop (i + 1) := by
      rw [← List.drop_eq_getElem_cons bound, List.take_append_drop]
    have old : Represents ((metrics[i].labels, sampleOf type metrics[i]) ::
        entriesOf type (metrics.take i ++ metrics.drop (i + 1))) row := by
      rw [← Represents.perm_iff (entriesOf_split type _ _ _), ← split]
      exact represented
    have new := old.cons_change (written env type m)
    have here : row metrics[i].labels = some (sampleOf type metrics[i]) := (Represents.cons_iff.mp old).1
    simp only []
    rw [List.modify_eq_take_cons_drop bound]
    refine (Represents.perm_iff (entriesOf_split type _ _ _)).trans (new.iff_eq.trans ?_)
    rw [update_written_iff represented, row_eq_written_iff represented, here, some.injEq,
      sampleOf_eq_written_iff]
    simp [inside]

theorem dropMetric_represents_iff (represented : Represents (entriesOf type metrics) row) :
    Represents (entriesOf type (dropMetric metrics m)) (removeRow row m) ↔ DropFits metrics m := by
  unfold DropFits removeRow
  cases found : metrics.find? fun stored => promMetricCmp m stored = 0 with
  | none =>
    have unequal : ∀ stored ∈ metrics, promMetricCmp m stored ≠ 0 := by
      simpa using List.find?_eq_none.mp found
    have same : dropMetric metrics m = metrics := by
      apply List.eraseP_of_forall_not
      simpa using unequal
    rw [same, ← row_eq_none represented unequal, update_eq_self]
    exact iff_of_true represented nofun
  | some stored =>
    obtain ⟨equal, front, back, rfl, before⟩ := List.find?_eq_some_iff_append.mp found
    have head : (stored :: back).eraseP (fun stored => promMetricCmp m stored = 0) = back :=
      List.eraseP_cons_of_pos equal
    have dropped : dropMetric (front ++ stored :: back) m = front ++ back := by
      rw [dropMetric, List.eraseP_append_right, head]
      simpa using before
    rw [Represents.perm_iff (entriesOf_split type front back stored), Represents.cons_iff] at represented
    rw [dropped, represented.2.iff_eq]
    constructor
    · rintro same _ ⟨⟩
      by_contra different
      have here := congrFun same stored.labels
      rw [update_self, update_of_ne different, represented.1] at here
      cases here
    · intro own
      rw [own stored rfl]

theorem foldl_writeRow (env : Environment) (type : MetricType)
    (base : Represents stored row) (ms : List FamilyMetric) (new : ∀ m ∈ ms, row m.labels = none)
    (distinct : (ms.map FamilyMetric.labels).Nodup) :
    Represents (ms.map (fun m => (m.labels, written env type m)) ++ stored) (ms.foldl (writeRow env type) row) := by
  induction ms generalizing stored row with
  | nil => exact base
  | cons m rest ih =>
    obtain ⟨first, others⟩ := List.forall_mem_cons.mp new
    obtain ⟨differs, distinct⟩ := List.nodup_cons.mp distinct
    have later : ∀ m' ∈ rest, writeRow env type row m m'.labels = none := by
      intro m' member
      rw [writeRow, update_of_ne, others m' member]
      exact fun same => differs (same ▸ List.mem_map_of_mem member)
    exact (Represents.perm_iff List.perm_middle).mp (ih (base.cons_new first) later distinct)

theorem first_write_iff (ms : List FamilyMetric) :
    Represents (entriesOf type (env.table.qsort ms)) (ms.foldl (writeRow env type) fun _ => none) ↔
      (ms.map FamilyMetric.labels).Nodup ∧ ∀ m ∈ ms, Timely env m := by
  have shuffled : (entriesOf type (env.table.qsort ms)).Perm (entriesOf type ms) := (env.table.qsort_perm ms).map _
  rw [Represents.perm_iff shuffled]
  constructor
  · intro represented
    have distinct : (ms.map FamilyMetric.labels).Nodup := by
      rw [← entriesOf_keys]
      exact represented.nodup
    have meant := foldl_writeRow env type Represents.nil ms (fun _ _ => rfl) distinct
    refine ⟨distinct, ?_⟩
    intro m member
    have stored := (represented.holds m.labels (sampleOf type m)).mpr (List.mem_map.mpr ⟨m, member, rfl⟩)
    have wanted := (meant.holds m.labels (written env type m)).mpr
      (List.mem_append_left _ (List.mem_map.mpr ⟨m, member, rfl⟩))
    exact written_eq_sampleOf_iff.mp (some.inj (wanted.symm.trans stored))
  · rintro ⟨distinct, timely⟩
    have meant := foldl_writeRow env type Represents.nil ms (fun _ _ => rfl) distinct
    rw [List.append_nil] at meant
    have same : ms.map (fun m => (m.labels, written env type m)) = ms.map fun m => (m.labels, sampleOf type m) := by
      apply List.map_congr_left
      intro m member
      rw [written_eq_sampleOf_iff.mpr (timely m member)]
    rwa [same] at meant

section Calls

variable {prom after : Prom}

theorem entries_unknown (unknown : prom.family name = none) : prom.entries name = [] := by
  rw [Prom.entries, unknown]

theorem entries_known (found : prom.family name = some known) :
    prom.entries name = entriesOf known.type known.metrics := by
  rw [Prom.entries, found]

theorem entries_congr (same : prom.family name = after.family name) : prom.entries name = after.entries name := by
  rw [Prom.entries, Prom.entries, same]

theorem runCalls_ended (whole : call.code env prom = ⟨calls, some ((), after)⟩)
    (last : MutexState.free.run calls = some mutex) :
    runCalls env (prom, .free) [call] = some (after, mutex) := by
  simp only [runCalls, whole, last]

theorem runCalls_write_unknown (env : Environment) (sound : prom.Sound) (unknown : prom.family fam.name = none) :
    ∃ after, runCalls env (prom, .free) [.write fam] = some (after, .free) ∧
      after.entries fam.name = entriesOf fam.type (env.table.qsort fam.metrics) ∧
      ∀ other, other ≠ fam.name → after.entries other = prom.entries other := by
  obtain ⟨after, ended, -, here, elsewhere⟩ := promWrite_unknown env sound unknown
  exact ⟨after, runCalls_ended (Call.code_of_ended ended) rfl, entries_known here,
    fun other different => entries_congr (elsewhere other different)⟩

theorem runCalls_write_known (env : Environment) (sound : prom.Sound) (found : prom.family fam.name = some known) :
    ∃ after, runCalls env (prom, .free) [.write fam] = some (after, .free) ∧
      after.entries fam.name = entriesOf known.type (fam.metrics.foldl (putMetric env) known.metrics) ∧
      ∀ other, other ≠ fam.name → after.entries other = prom.entries other := by
  obtain ⟨promFam, stored, named, sorted⟩ := sound.stored_of_family found
  obtain ⟨after, ended, updated⟩ := promWrite_known env sound stored named sorted
  exact ⟨after, runCalls_ended (Call.code_of_ended ended) rfl, entries_known updated.stored.family_eq,
    fun other different => entries_congr (updated.elsewhere other different)⟩

theorem keysOf_foldl_dropMetric (metrics ms : List FamilyMetric) :
    keysOf (ms.foldl dropMetric metrics) = keysOf metrics - keysOf ms := by
  induction ms generalizing metrics with
  | nil => exact (Multiset.sub_zero _).symm
  | cons m rest ih => rw [List.foldl_cons, ih, keysOf_dropMetric, keysOf_cons, Multiset.sub_cons]

theorem runCalls_missing_known (env : Environment) (sound : prom.Sound) (found : prom.family fam.name = some known)
    (late : ¬EmptiedBy known.metrics fam.metrics.dropLast) :
    ∃ after, runCalls env (prom, .free) [.missing fam] = some (after, .free) ∧
      after.entries fam.name = entriesOf known.type (fam.metrics.foldl dropMetric known.metrics) ∧
      ∀ other, other ≠ fam.name → after.entries other = prom.entries other := by
  obtain ⟨promFam, stored, named, sorted⟩ := sound.stored_of_family found
  by_cases emptied : EmptiedBy known.metrics fam.metrics
  · obtain ⟨after, looped, removed⟩ := missingMetrics_removes env sound stored named sorted emptied late
    have nothing : fam.metrics.foldl dropMetric known.metrics = [] := by
      rw [← keysOf_eq_zero_iff, keysOf_foldl_dropMetric]
      apply Multiset.le_zero.mp
      rw [Multiset.sub_le_iff_le_add, Multiset.zero_add]
      exact emptied.2
    refine ⟨after, runCalls_ended (Call.code_of_ended (promMissing_ended stored.located looped)) rfl, ?_,
      fun other different => entries_congr (removed.elsewhere other different)⟩
    rw [nothing]
    exact entries_unknown (family_eq_none removed.absent)
  · obtain ⟨after, looped, updated⟩ := missingMetrics_stored env sound stored named sorted emptied
    exact ⟨after, runCalls_ended (Call.code_of_ended (promMissing_ended stored.located looped)) rfl,
      entries_known updated.stored.family_eq, fun other different => entries_congr (updated.elsewhere other different)⟩

theorem runCalls_missing_early (env : Environment) (sound : prom.Sound) (found : prom.family fam.name = some known)
    (early : EmptiedBy known.metrics fam.metrics.dropLast) : runCalls env (prom, .free) [.missing fam] = none := by
  obtain ⟨promFam, stored, named, sorted⟩ := sound.stored_of_family found
  have aborted := promMissing_aborted stored.located (missingMetrics_aborts env sound stored named sorted early)
  have whole : (Call.missing fam).code env prom = ⟨[.lock], none⟩ := bind_aborted aborted
  simp only [runCalls, whole]

theorem holds_changed_iff (holds : Holds prom map)
    (elsewhere : ∀ other, other ≠ name → after.entries other = prom.entries other)
    (row : Labels → Option Sample) :
    Holds after (update map name row) ↔ Represents (after.entries name) row := by
  constructor
  · intro every
    have here := every name
    rwa [update_self] at here
  · intro here other
    by_cases same : other = name
    · subst same
      rwa [update_self]
    · rw [update_of_ne same, elsewhere other same]
      exact holds other

theorem Call.apply_write (map : Samples) :
    (Call.write fam).apply env map =
      update map fam.name (fam.metrics.foldl (writeRow env fam.type) (map fam.name)) :=
  foldl_update fam.name (writeRow env fam.type) fam.metrics map

theorem Call.apply_missing (map : Samples) :
    (Call.missing fam).apply env map =
      update map fam.name (fam.metrics.foldl removeRow (map fam.name)) :=
  foldl_update fam.name removeRow fam.metrics map

/-- One more call ends, and the store holds what it should afterwards. -/
def CallRefines (env : Environment) (prom : Prom) (mutex : MutexState) (map : Samples) (call : Call) : Prop :=
  ∃ after last, runCalls env (prom, mutex) [call] = some (after, last) ∧ Holds after (call.apply env map)

theorem callRefines_iff (run : runCalls env (prom, mutex) [call] = some (after, last)) :
    CallRefines env prom mutex map call ↔ Holds after (call.apply env map) := by
  constructor
  · rintro ⟨after', last', run', holds⟩
    obtain ⟨rfl, -⟩ := Prod.mk.inj (some.inj (run.symm.trans run'))
    exact holds
  · exact fun holds => ⟨after, last, run, holds⟩

theorem row_unknown (holds : Holds prom map) (unknown : prom.family name = none) : map name = fun _ => none := by
  have empty := holds name
  rw [entries_unknown unknown] at empty
  exact empty.unique .nil

theorem row_known (holds : Holds prom map) (found : prom.family name = some known) :
    Represents (entriesOf known.type known.metrics) (map name) := by
  rw [← entries_known found]
  exact holds name

theorem write_unknown_refines_iff (fam : Family) (sound : prom.Sound) (holds : Holds prom map)
    (unknown : prom.family fam.name = none) :
    CallRefines env prom .free map (.write fam) ↔
      (fam.metrics.map FamilyMetric.labels).Nodup ∧ ∀ m ∈ fam.metrics, Timely env m := by
  obtain ⟨after, run, here, elsewhere⟩ := runCalls_write_unknown env sound unknown
  rw [callRefines_iff run, Call.apply_write, holds_changed_iff holds elsewhere, here, row_unknown holds unknown]
  exact first_write_iff fam.metrics

theorem write_known_refines_iff (fam : Family) (sound : prom.Sound) (holds : Holds prom map)
    (found : prom.family fam.name = some known) :
    CallRefines env prom .free map (.write fam) ↔
      Represents (entriesOf known.type (fam.metrics.foldl (putMetric env) known.metrics))
        (fam.metrics.foldl (writeRow env fam.type) (map fam.name)) := by
  obtain ⟨after, run, here, elsewhere⟩ := runCalls_write_known env sound found
  rw [callRefines_iff run, Call.apply_write, holds_changed_iff holds elsewhere, here]

theorem write_fits_iff (fam : Family) (sound : prom.Sound) (holds : Holds prom map) :
    (∀ count, CallRefines env prom .free map ((Call.write fam).take count)) ↔ (Call.write fam).Fits env prom := by
  cases found : prom.family fam.name with
  | none =>
    simp only [Call.Fits, found]
    have part : ∀ count, CallRefines env prom .free map ((Call.write fam).take count) ↔
        ((fam.metrics.take count).map FamilyMetric.labels).Nodup ∧ ∀ m ∈ fam.metrics.take count, Timely env m :=
      fun count => write_unknown_refines_iff { fam with metrics := fam.metrics.take count } sound holds found
    simp only [part]
    constructor
    · intro every
      have whole := every fam.metrics.length
      rwa [List.take_length] at whole
    · rintro ⟨distinct, timely⟩ count
      refine ⟨distinct.sublist ((List.take_sublist count _).map _), ?_⟩
      exact fun m member => timely m (List.mem_of_mem_take member)
  | some known =>
    simp only [Call.Fits, found]
    obtain ⟨promFam, stored, named, sorted⟩ := sound.stored_of_family found
    have part : ∀ count, CallRefines env prom .free map ((Call.write fam).take count) ↔
        Represents (entriesOf known.type ((fam.metrics.take count).foldl (putMetric env) known.metrics))
          ((fam.metrics.take count).foldl (writeRow env fam.type) (map fam.name)) :=
      fun count => write_known_refines_iff { fam with metrics := fam.metrics.take count } sound holds found
    simp only [part]
    exact foldl_lockstep_iff (putMetric env) (writeRow env fam.type)
      (fun metrics row => Represents (entriesOf known.type metrics) row) Sorted (fun _ _ kept => putMetric_sorted kept)
      (fun _ _ _ kept represented => putMetric_represents_iff kept represented)
      fam.metrics sorted (row_known holds found)

theorem EmptiedBy.of_take {metrics ms : List FamilyMetric} (early : EmptiedBy metrics (ms.take count).dropLast) :
    EmptiedBy metrics ms.dropLast := by
  refine ⟨early.1, early.2.trans ?_⟩
  rw [List.dropLast_take_eq_take_dropLast]
  exact Multiset.coe_le.mpr ((List.take_sublist _ _).map metricKey).subperm

theorem foldl_removeRow_none (ms : List FamilyMetric) : (ms.foldl removeRow fun _ => none) = fun _ => none := by
  induction ms with
  | nil => rfl
  | cons m rest ih =>
    have same : removeRow (fun _ => none) m = fun _ => none := update_eq_self m.labels _
    rw [List.foldl_cons, same, ih]

theorem missing_known_refines_iff (fam : Family) (sound : prom.Sound) (holds : Holds prom map)
    (found : prom.family fam.name = some known) (late : ¬EmptiedBy known.metrics fam.metrics.dropLast) :
    CallRefines env prom .free map (.missing fam) ↔
      Represents (entriesOf known.type (fam.metrics.foldl dropMetric known.metrics))
        (fam.metrics.foldl removeRow (map fam.name)) := by
  obtain ⟨after, run, here, elsewhere⟩ := runCalls_missing_known env sound found late
  rw [callRefines_iff run, Call.apply_missing, holds_changed_iff holds elsewhere, here]

theorem missing_fits_iff (fam : Family) (sound : prom.Sound) (holds : Holds prom map) :
    (∀ count, CallRefines env prom .free map ((Call.missing fam).take count)) ↔
      (Call.missing fam).Fits env prom := by
  cases found : prom.family fam.name with
  | none =>
    refine iff_of_true (fun count => ?_) (fun known other => nomatch found.symm.trans other)
    have run : runCalls env (prom, .free) [(Call.missing fam).take count] = some (prom, .held) :=
      runCalls_ended (Call.code_of_ended (promMissing_unknown sound found)) rfl
    rw [callRefines_iff run, Call.take, Call.apply_missing, holds_changed_iff holds (fun _ _ => rfl),
      row_unknown holds found, foldl_removeRow_none, entries_unknown found]
    exact .nil
  | some known =>
    simp only [Call.Fits, found, some.injEq, forall_eq']
    by_cases early : EmptiedBy known.metrics fam.metrics.dropLast
    · refine iff_of_false (fun every => ?_) (fun fits => fits.1 early)
      obtain ⟨after, last, run, -⟩ := every fam.metrics.length
      rw [Call.take, List.take_length, runCalls_missing_early env sound found early] at run
      cases run
    · rw [and_iff_right early]
      have part : ∀ count, CallRefines env prom .free map ((Call.missing fam).take count) ↔
          Represents (entriesOf known.type ((fam.metrics.take count).foldl dropMetric known.metrics))
            ((fam.metrics.take count).foldl removeRow (map fam.name)) :=
        fun count => missing_known_refines_iff { fam with metrics := fam.metrics.take count } sound holds found
          fun again => early again.of_take
      simp only [part]
      exact foldl_lockstep_iff dropMetric removeRow
        (fun metrics row => Represents (entriesOf known.type metrics) row) (fun _ => True) (fun _ _ _ => trivial)
        (fun _ _ _ _ represented => dropMetric_represents_iff represented)
        fam.metrics trivial (row_known holds found)

theorem Call.exists_take (call : Call) : ∃ count, call.take count = call := by
  cases call with
  | write fam | missing fam => exact ⟨fam.metrics.length, by rw [Call.take, List.take_length]⟩
  | format => exact ⟨0, rfl⟩

theorem runCalls_held (env : Environment) (call : Call) (sound : prom.Sound) :
    runCalls env (prom, .held) [call] = none := by
  rw [runCalls]
  cases call.outcome env sound with
  | complete after whole _ _ | unreleased whole _ => rw [whole]; rfl
  | aborted whole _ => rw [whole]

theorem Call.fits_iff (env : Environment) (call : Call) (mutex : MutexState) (sound : prom.Sound)
    (holds : Holds prom map) :
    (∀ count, CallRefines env prom mutex map (call.take count)) ↔ mutex = .free ∧ call.Fits env prom := by
  cases mutex with
  | held =>
    refine iff_of_false (fun every => ?_) (fun fits => nomatch fits.1)
    obtain ⟨after, last, run, -⟩ := every 0
    rw [runCalls_held env _ sound] at run
    cases run
  | free =>
    rw [and_iff_right rfl]
    cases call with
    | write fam => exact write_fits_iff fam sound holds
    | missing fam => exact missing_fits_iff fam sound holds
    | format =>
      obtain ⟨text, ended⟩ := formatText_sound env sound
      have run : runCalls env (prom, .free) [.format] = some (prom, .free) :=
        runCalls_ended (Call.code_of_ended ended) rfl
      exact iff_of_true (fun _ => ⟨prom, .free, run, holds⟩) trivial

end Calls

/-- `Refines` from a later point on. -/
def RefinesFrom (env : Environment) (prom : Prom) (mutex : MutexState) (map : Samples) (calls : List Call) : Prop :=
  ∃ after last, runCalls env (prom, mutex) calls = some (after, last) ∧
    Holds after (calls.foldl (Call.apply env) map)

section

variable (first : runCalls env (prom, mutex) [call] = some (after, last)) (calls : List Call)
include first

theorem runCalls_cons : runCalls env (prom, mutex) (call :: calls) = runCalls env (after, last) calls := by
  have joined := runCalls_append env (prom, mutex) [call] calls
  rwa [first, bind_some, List.singleton_append] at joined

theorem refinesFrom_cons_iff :
    RefinesFrom env prom mutex map (call :: calls) ↔ RefinesFrom env after last (call.apply env map) calls := by
  unfold RefinesFrom
  rw [runCalls_cons first, List.foldl_cons]

end

theorem refinesFrom_iff (calls : List Call) (sound : prom.Sound) (holds : Holds prom map) :
    (∀ before call rest, calls = before ++ call :: rest →
        ∀ count, RefinesFrom env prom mutex map (before ++ [call.take count])) ↔
      ∀ before call rest, calls = before ++ call :: rest →
        ∀ after last, runCalls env (prom, mutex) before = some (after, last) →
          last = .free ∧ call.Fits env after := by
  induction calls generalizing prom mutex map with
  | nil =>
    refine iff_of_true ?_ ?_
    all_goals
      intro before call rest split
      simp at split
  | cons call calls ih =>
    rw [forall_split_cons fun (before : List Call) (call : Call) =>
        ∀ count, RefinesFrom env prom mutex map (before ++ [call.take count]),
      forall_split_cons fun (before : List Call) (call : Call) =>
        ∀ after last, runCalls env (prom, mutex) before = some (after, last) → last = .free ∧ call.Fits env after]
    have here : (∀ count, RefinesFrom env prom mutex map ([] ++ [call.take count])) ↔
        ∀ after last, runCalls env (prom, mutex) [] = some (after, last) → last = .free ∧ call.Fits env after := by
      refine (call.fits_iff env mutex sound holds).trans ⟨?_, fun every => every prom mutex rfl⟩
      rintro fits after last same
      cases same
      exact fits
    rw [here]
    refine and_congr_right fun fits => ?_
    obtain ⟨count, whole⟩ := call.exists_take
    obtain ⟨after, last, run, kept⟩ := here.mpr fits count
    rw [List.nil_append, whole] at run kept
    simp only [List.cons_append, refinesFrom_cons_iff run, runCalls_cons run]
    exact ih (runCalls_sound [call] sound run) kept

theorem holds_empty : Holds .empty fun _ _ => none := by
  intro name
  have unknown : Prom.empty.family name = none := family_eq_none (by simp [Prom.empty])
  rw [entries_unknown unknown]
  exact .nil

/-- The store has what was last written exactly if every call finds the lock free and fits. -/
theorem prom_last_written_iff (env : Environment) (calls : List Call) :
    (∀ part, Beginning part calls → Refines env part) ↔
      ∀ before call rest, calls = before ++ call :: rest →
        ∀ prom mutex, runCalls env (.empty, .free) before = some (prom, mutex) →
          mutex = .free ∧ call.Fits env prom := by
  rw [← refinesFrom_iff calls sound_empty holds_empty]
  constructor
  · intro every before call rest split count
    exact every _ (.inr ⟨before, call, rest, count, split, rfl⟩)
  · rintro every part (rfl | ⟨before, call, rest, count, split, rfl⟩)
    · exact ⟨.empty, .free, rfl, holds_empty⟩
    · exact every before call rest split count

theorem not_refines (calls : List Call) (name : CString) (labels : Labels) (sample : Sample)
    (stored : List (Labels × Sample))
    (run : (runCalls env (.empty, .free) calls).map (·.1.entries name) = some stored)
    (wanted : lastWritten env calls name labels = some sample) (lost : (labels, sample) ∉ stored) :
    ¬Refines env calls := by
  rintro ⟨prom, mutex, ended, holds⟩
  rw [ended] at run
  cases run
  exact lost (((holds name).holds labels sample).mp wanted)

def singleLabel (name : CString) (valid : validLabelName name = true) : Labels :=
  ⟨[⟨name, ['0']⟩], ⟨List.pairwise_singleton _ _, by
    intro pair member
    obtain rfl := List.mem_singleton.mp member
    exact ⟨nofun, valid⟩⟩⟩

def cpu : Labels := singleLabel "cpu" (by decide)

def disk : Labels := singleLabel "disk" (by decide)

def usage (type : MetricType) (labels : Labels) (value : Double) (interval : CdTime) : Family :=
  ⟨"usage", none, type, [⟨labels, .gauge value, 1, interval⟩]⟩

/-- A sample of another label name is overwritten, and the time and the type of a first write are kept. -/
theorem prom_write_diverges :
    ¬Refines plainEnvironment [.write (usage .gauge cpu (.fin 1) 10), .write (usage .gauge disk (.fin 2) 10)] ∧
      ¬Refines plainEnvironment [.write (usage .gauge cpu (.fin 1) 322122547201)] ∧
      ¬Refines plainEnvironment [.write (usage .gauge cpu (.fin 1) 10), .write (usage .untyped cpu (.fin 1) 10)] := by
  refine ⟨?_, ?_, ?_⟩
  · exact not_refines _ "usage" disk ⟨.gauge, .gauge (.fin 2), 1⟩ [(cpu, ⟨.gauge, .gauge (.fin 2), 1⟩)]
      (by decide +kernel) (by decide +kernel) (by decide +kernel)
  · exact not_refines _ "usage" cpu ⟨.gauge, .gauge (.fin 1), 0⟩ [(cpu, ⟨.gauge, .gauge (.fin 1), 1⟩)]
      (by decide +kernel) (by decide +kernel) (by decide +kernel)
  · exact not_refines _ "usage" cpu ⟨.untyped, .gauge (.fin 1), 1⟩ [(cpu, ⟨.gauge, .gauge (.fin 1), 1⟩)]
      (by decide +kernel) (by decide +kernel) (by decide +kernel)

end NCollectd.Prometheus
