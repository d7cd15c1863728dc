import NCollectd.Cache.Steps

namespace NCollectd

open LabelSet

def metricLabelRun (m : Metric) : List LabelCall → Option Metric
  | [] => some m
  | call :: rest => (metricLabelSet m call.name call.value).bind fun (_, m) => metricLabelRun m rest

/-- A name of `VALID_NAME_CHARS`, and labels set on an empty label set with non-empty values. -/
structure Regular (m : Metric) : Prop where
  name : ∀ c ∈ m.family.name, c ∈ validNameChars
  labels : ∃ calls : List LabelCall, (∀ call ∈ calls, givenValue call.value ≠ none) ∧
    metricLabelRun { m with label := .empty } calls = some m

def HasLabel (m : Metric) (pair : LabelPair) : Prop :=
  ∃ pairs, readPairs m.label = some pairs ∧ pair ∈ pairs

/-- The same family name and the same set of labels. -/
def SameIdentity (first second : Metric) : Prop :=
  first.family.name = second.family.name ∧ ∀ pair, HasLabel first pair ↔ HasLabel second pair

def entryOf (page : PageSize) (cache : Cache) (m : Metric) : Option CacheEntry :=
  match entryKey page m with
  | some (.ok key) => cache[key]?
  | _ => none

theorem metricLabelRun_calls (run : metricLabelRun m calls = some next) :
    runCalls m.label calls = some next.label := by
  induction calls generalizing m with
  | nil =>
    cases run
    rfl
  | cons call rest ih =>
    obtain ⟨⟨status, middle⟩, set, remaining⟩ := Option.bind_eq_some_iff.mp run
    obtain ⟨⟨status', label⟩, added, same⟩ := Option.map_eq_some_iff.mp set
    obtain rfl : { m with label } = middle := congrArg Prod.snd same
    rw [runCalls, added]
    exact ih remaining

theorem Regular.stores (regular : Regular m) : ∃ pairs, Stores m.label pairs := by
  obtain ⟨calls, given, run⟩ := regular.labels
  exact Stores.empty.run given (metricLabelRun_calls run)

theorem sameIdentity_iff (first : Stores m.label pairs) (second : Stores m'.label pairs') :
    SameIdentity m m' ↔ m.family.name = m'.family.name ∧ pairs = pairs' := by
  have labels : ∀ {m : Metric} {pairs : List LabelPair}, Stores m.label pairs →
      ∀ pair, HasLabel m pair ↔ pair ∈ pairs := by
    intro m pairs stores pair
    simp [HasLabel, stores.read]
  unfold SameIdentity
  simp only [labels first, labels second]
  constructor
  · rintro ⟨names, same⟩
    exact ⟨names, first.wellFormed.ext second.wellFormed same⟩
  · rintro ⟨names, rfl⟩
    exact ⟨names, fun _ => Iff.rfl⟩

theorem entryKey_eq_iff (page : PageSize) (first : Regular m) (second : Regular m') :
    ∃ key key', entryKey page m = some (.ok key) ∧ entryKey page m' = some (.ok key') ∧
      (key = key' ↔ SameIdentity m m') := by
  obtain ⟨pairs, stores⟩ := first.stores
  obtain ⟨pairs', stores'⟩ := second.stores
  refine ⟨_, _, entryKey_eq page stores.read, entryKey_eq page stores'.read, ?_⟩
  rw [sameIdentity_iff stores stores']
  exact identityText_inj first.name second.name stores.wellFormed stores'.wellFormed

/-- An update of one metric. A COUNTER update of an entry whose union holds something else reads its bits, which
can be any counter. -/
inductive CacheUpdate (page : PageSize) (cache : Cache) (m : Metric) (now : CdTime) (outcome : Outcome) : Prop where
  | typed (updated : ucUpdateMetric page cache m now = some outcome)
  | punned (key : CString) (ce : CacheEntry) (bits : UInt64) (named : entryKey page m = some (.ok key))
      (present : cache[key]? = some ce) (counter : m.family.type = .counter) (newer : ce.lastTime < m.time)
      (other : ce.valuesRaw.value.counter? = none)
      (updated : ucUpdateMetric page (cache.insert key
        { ce with valuesRaw := { ce.valuesRaw with value := .counter bits } }) m now = some outcome)

/-- A sequence of updates, whatever their statuses. -/
inductive CacheRun (page : PageSize) : Cache → List (Metric × CdTime) → Cache → Prop where
  | nil : CacheRun page cache [] cache
  | cons (first : CacheUpdate page cache m now outcome) (rest : CacheRun page outcome.cache updates last) :
      CacheRun page cache ((m, now) :: updates) last

theorem CacheRun.of_ucUpdate (run : ucUpdate page cache updates = some outcome) :
    CacheRun page cache updates outcome.cache := by
  induction updates generalizing cache outcome with
  | nil =>
    cases run
    exact .nil
  | cons item rest ih =>
    obtain ⟨first, stepped, remaining⟩ := Option.bind_eq_some_iff.mp run
    obtain ⟨last, finished, rfl⟩ := Option.map_eq_some_iff.mp remaining
    have later := ih finished
    exact .cons (.typed stepped) later

/-- The entry holds the value and the times of an update. -/
structure CacheEntry.Holds (entry : CacheEntry) (m : Metric) (now : CdTime) : Prop where
  value : entry.valuesRaw.value = m.value
  lastTime : entry.lastTime = m.time
  lastUpdate : entry.lastUpdate = now
  interval : entry.interval = m.interval

theorem newEntry_holds {entry} (made : newEntry m now = some (.ok entry)) : entry.Holds m now := by
  obtain ⟨type, rate, increase, made', inserted, same⟩ := newEntry_made made
  cases same
  obtain ⟨typed, created, rfl⟩ := Option.map_eq_some_iff.mp inserted
  refine ⟨?_, rfl, rfl, rfl⟩
  unfold typedValueCreate at created
  split at created
  · obtain ⟨dist, value, rfl⟩ := Option.map_eq_some_iff.mp created
    rw [Value.distribution?_eq_some.mp value, distributionClone_eq]
  · cases created
    rfl

theorem updateEntry_holds {next} (stepped : updateEntry ce m now = some (0, next)) : next.Holds m now := by
  obtain ⟨_, changed, revalued, rfl⟩ := updateEntry_success stepped
  refine ⟨?_, rfl, rfl, rfl⟩
  cases revalued with
  | counter old new typed raw value => exact value.symm
  | gauge gauge typed value => exact value.symm
  | restarted dist raw old typed value => exact value.symm
  | refused dist raw typed value held reported failed => exact absurd rfl failed
  | increased dist raw typed value => exact value.symm

/-- An update stores the metric in the entry of its identity and leaves all others alone. -/
structure StoresOwn (page : PageSize) (before : Cache) (m : Metric) (now : CdTime) (after : Outcome) : Prop where
  stored : ∃ entry, entryOf page after.cache m = some entry ∧ (after.status = 0 → entry.Holds m now)
  shared : ∀ other, Regular other → (entryKey page other = entryKey page m ↔ SameIdentity m other)
  frame : ∀ other, Regular other → ¬ SameIdentity m other →
    entryOf page after.cache other = entryOf page before other

theorem ucUpdateMetric_stored (updated : ucUpdateMetric page cache m now = some outcome)
    (named : entryKey page m = some (.ok key)) :
    ∃ entry, outcome.cache[key]? = some entry ∧ (outcome.status = 0 → entry.Holds m now) := by
  cases ucUpdateMetric_updated updated with
  | keyless failed => simp [named] at failed
  | inserted found entry same absent made =>
    obtain rfl : key = found := by simpa [named] using same
    exact ⟨entry, by rw [AvlTree.getElem?_insert, if_pos rfl], fun _ => newEntry_holds made⟩
  | rewritten found ce next status events same present stepped =>
    obtain rfl : key = found := by simpa [named] using same
    refine ⟨next, by rw [AvlTree.getElem?_insert, if_pos rfl], ?_⟩
    rintro rfl
    exact updateEntry_holds stepped

theorem CacheUpdate.stores (update : CacheUpdate page cache m now outcome) (named : entryKey page m = some (.ok key)) :
    (∃ entry, outcome.cache[key]? = some entry ∧ (outcome.status = 0 → entry.Holds m now)) ∧
      ∀ other, other ≠ key → outcome.cache[other]? = cache[other]? := by
  have apart {other} (different : other ≠ key) : entryKey page m ≠ some (.ok other) := by
    rw [named]
    simpa using different.symm
  cases update with
  | typed updated =>
    exact ⟨ucUpdateMetric_stored updated named, fun other different => ucUpdateMetric_frame updated (apart different)⟩
  | punned found ce bits same present counter newer held updated =>
    obtain rfl : key = found := by simpa [named] using same
    refine ⟨ucUpdateMetric_stored updated named, fun other different => ?_⟩
    rw [ucUpdateMetric_frame updated (apart different), AvlTree.getElem?_insert, if_neg different.symm]

theorem CacheUpdate.storesOwn (regular : Regular m) (update : CacheUpdate page cache m now outcome) :
    StoresOwn page cache m now outcome := by
  obtain ⟨key, _, named, _, _⟩ := entryKey_eq_iff page regular regular
  obtain ⟨stored, kept⟩ := update.stores named
  have others (other : Metric) (sound : Regular other) : ∃ key', entryKey page other = some (.ok key') ∧
      (key' = key ↔ SameIdentity m other) := by
    obtain ⟨first, key', named', other_named, agree⟩ := entryKey_eq_iff page regular sound
    obtain rfl : key = first := by simpa [named] using named'
    exact ⟨key', other_named, eq_comm.trans agree⟩
  refine ⟨by simpa only [entryOf, named] using stored, fun other sound => ?_, fun other sound different => ?_⟩
  · obtain ⟨key', other_named, agree⟩ := others other sound
    rw [other_named, named]
    simpa using agree
  · obtain ⟨key', other_named, agree⟩ := others other sound
    simp only [entryOf, other_named]
    exact kept key' fun same => different (agree.mp same)

/-- Every update of the run is stored in the entry of its identity, and stays there until the next one of it. -/
structure CollisionFree (page : PageSize) (cache : Cache) (updates : List (Metric × CdTime)) (last : Cache) :
    Prop where
  stored : ∀ earlier m now later, updates = earlier ++ (m, now) :: later → ∃ before after,
    CacheRun page cache earlier before ∧ CacheUpdate page before m now after ∧ StoresOwn page before m now after ∧
      CacheRun page after.cache later last ∧
      ((∀ item ∈ later, ¬ SameIdentity item.1 m) → entryOf page last m = entryOf page after.cache m)
  frame : ∀ other, Regular other → (∀ item ∈ updates, ¬ SameIdentity item.1 other) →
    entryOf page last other = entryOf page cache other

section

variable (run : CacheRun page cache updates last) (regular : ∀ item ∈ updates, Regular item.1)
include run regular

theorem CacheRun.frame {other} (sound : Regular other) (distinct : ∀ item ∈ updates, ¬ SameIdentity item.1 other) :
    entryOf page last other = entryOf page cache other := by
  induction run with
  | nil => rfl
  | cons first rest ih =>
    have kept := (first.storesOwn (regular _ List.mem_cons_self)).frame other sound (distinct _ List.mem_cons_self)
    rw [← kept]
    exact ih (fun item member => regular item (List.mem_cons_of_mem _ member))
      fun item member => distinct item (List.mem_cons_of_mem _ member)

theorem CacheRun.stored (split : updates = earlier ++ (m, now) :: later) :
    ∃ before after, CacheRun page cache earlier before ∧ CacheUpdate page before m now after ∧
      StoresOwn page before m now after ∧ CacheRun page after.cache later last := by
  induction run generalizing earlier with
  | nil => simp at split
  | cons first rest ih =>
    cases earlier with
    | nil =>
      cases split
      exact ⟨_, _, .nil, first, first.storesOwn (regular _ List.mem_cons_self), rest⟩
    | cons item earlier =>
      cases split
      obtain ⟨before, after, front, update, own, back⟩ :=
        ih (fun item member => regular item (List.mem_cons_of_mem _ member)) rfl
      exact ⟨before, after, .cons first front, update, own, back⟩

end

def twoUpdates : List (Metric × CdTime) := [(labelledMetric, 1), (bareMetric, 2)]

theorem twoUpdates_regular : ∀ item ∈ twoUpdates, Regular item.1 := by
  intro item member
  have name : ∀ c ∈ bareMetric.family.name, c ∈ validNameChars :=
    (strspn_eq_length_iff _ _).mp (by decide)
  rcases List.mem_cons.mp member with rfl | member
  · exact ⟨name, [⟨"a", some "1"⟩], by simp [givenValue], by decide +kernel⟩
  · rcases List.mem_cons.mp member with rfl | absent
    · exact ⟨name, [], by simp, rfl⟩
    · cases absent

end NCollectd
