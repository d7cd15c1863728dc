import NCollectd.WritePrometheus.Store

namespace NCollectd.Prometheus

open Locked Prom

/-- The metrics of an event delete every metric of a stored family, which then is freed. -/
def EmptiedBy (metrics ms : List FamilyMetric) : Prop := metrics ≠ [] ∧ keysOf metrics ≤ keysOf ms

theorem not_emptiedBy_nil : ¬EmptiedBy metrics [] := by
  rintro ⟨filled, below⟩
  exact filled (keysOf_eq_zero_iff.mp (Multiset.le_zero.mp below))

theorem emptiedBy_cons (filled : metrics ≠ []) :
    EmptiedBy metrics (m :: ms) ↔ dropMetric metrics m = [] ∨ EmptiedBy (dropMetric metrics m) ms := by
  have first : EmptiedBy metrics (m :: ms) ↔ keysOf (dropMetric metrics m) ≤ keysOf ms := by
    rw [keysOf_dropMetric, Multiset.erase_le_iff_le_cons, ← keysOf_cons]
    exact and_iff_right filled
  rw [first]
  by_cases emptied : dropMetric metrics m = []
  · refine iff_of_true ?_ (.inl emptied)
    rw [emptied]
    exact Multiset.zero_le _
  · exact ⟨fun below => .inr ⟨emptied, below⟩, fun either => (either.resolve_left emptied).2⟩

theorem emptiedBy_dropLast_cons (more : ms ≠ []) (filled : metrics ≠ []) :
    EmptiedBy metrics (m :: ms).dropLast ↔
      dropMetric metrics m = [] ∨ EmptiedBy (dropMetric metrics m) ms.dropLast := by
  rw [List.dropLast_cons_of_ne_nil more]
  exact emptiedBy_cons filled

section Loop

variable {prom : Prom}

section

variable (env : Environment) (sound : prom.Sound) (stored : prom.Stored name promFam fam)
  (named : fam.name = name) (sorted : Sorted fam.metrics)
include sound stored named sorted

theorem missingMetrics_stored (kept : ¬EmptiedBy fam.metrics ms) :
    ∃ after, missingMetrics env promFam ms prom = ⟨[], some ((), after)⟩ ∧
      Prom.Updated prom after name promFam { fam with metrics := ms.foldl dropMetric fam.metrics } := by
  induction ms generalizing prom fam with
  | nil => exact ⟨prom, rfl, .refl sound stored⟩
  | cons m rest ih =>
    have first : fam.metrics = [] ∨ dropMetric fam.metrics m ≠ [] := by
      by_contra neither
      obtain ⟨filled, emptied⟩ := not_or.mp neither
      exact kept ((emptiedBy_cons filled).mpr (.inl (not_not.mp emptied)))
    have others : ¬EmptiedBy (dropMetric fam.metrics m) rest := by
      intro emptied
      have filled : fam.metrics ≠ [] := by
        intro empty
        apply emptied.1
        rw [empty]
        rfl
      exact kept ((emptiedBy_cons filled).mpr (.inr emptied))
    obtain ⟨middle, ended, updated⟩ := missingMetric_stored sound stored named sorted first
    obtain ⟨after, looped, last⟩ := ih updated.sound updated.stored named (dropMetric_sorted sorted) others
    refine ⟨after, ?_, updated.trans last⟩
    rw [missingMetrics, bind_ended ended, looped]
    rfl

theorem missingMetrics_removes (emptied : EmptiedBy fam.metrics ms) (late : ¬EmptiedBy fam.metrics ms.dropLast) :
    ∃ after, missingMetrics env promFam ms prom = ⟨[], some ((), after)⟩ ∧ Prom.Removed prom after name promFam := by
  induction ms generalizing prom fam with
  | nil => exact absurd emptied not_emptiedBy_nil
  | cons m rest ih =>
    rcases (emptiedBy_cons emptied.1).mp emptied with now | later
    · have last : rest = [] := by
        by_contra more
        exact late ((emptiedBy_dropLast_cons more emptied.1).mpr (.inl now))
      obtain ⟨after, ended, removed⟩ := missingMetric_removes sound stored named sorted emptied.1 now
      refine ⟨after, ?_, removed⟩
      rw [last, missingMetrics, bind_ended ended]
      rfl
    · have more : rest ≠ [] := by
        rintro rfl
        exact not_emptiedBy_nil later
      have still := mt (fun early => (emptiedBy_dropLast_cons more emptied.1).mpr (.inr early)) late
      obtain ⟨middle, ended, updated⟩ := missingMetric_stored sound stored named sorted (.inr later.1)
      obtain ⟨after, looped, removed⟩ := ih updated.sound updated.stored named (dropMetric_sorted sorted) later still
      refine ⟨after, ?_, updated.removed removed⟩
      rw [missingMetrics, bind_ended ended, looped]
      rfl

theorem missingMetrics_aborts (early : EmptiedBy fam.metrics ms.dropLast) :
    missingMetrics env promFam ms prom = ⟨[], none⟩ := by
  induction ms generalizing prom fam with
  | nil => exact absurd early not_emptiedBy_nil
  | cons m rest ih =>
    have more : rest ≠ [] := by
      rintro rfl
      exact not_emptiedBy_nil early
    rw [missingMetrics]
    rcases (emptiedBy_dropLast_cons more early.1).mp early with now | later
    · obtain ⟨after, ended, removed⟩ := missingMetric_removes sound stored named sorted early.1 now
      obtain ⟨next, rest, rfl⟩ := List.exists_cons_of_ne_nil more
      have dead : missingMetric env promFam next after = ⟨[], none⟩ := bind_aborted (load_dead removed.dead)
      rw [bind_ended ended, missingMetrics, bind_aborted dead]
      rfl
    · obtain ⟨middle, ended, updated⟩ := missingMetric_stored sound stored named sorted (.inr later.1)
      rw [bind_ended ended, ih updated.sound updated.stored named (dropMetric_sorted sorted) later]
      rfl

end

end Loop

theorem promWrite_unknown (env : Environment) (sound : prom.Sound) (unknown : prom.family fam.name = none) :
    ∃ after, promWrite env fam prom = ⟨[.lock, .unlock], some (0, after)⟩ ∧ after.Sound ∧
      after.family fam.name = some { fam with metrics := env.table.qsort fam.metrics } ∧
      ∀ other, other ≠ fam.name → after.family other = prom.family other := by
  have absent := sound.family_none_iff.mp unknown
  let copy : Family := { fam with metrics := env.table.qsort fam.metrics }
  let after : Prom := ⟨prom.tree.insert fam.name (prom.families.alloc copy).2, (prom.families.alloc copy).1⟩
  have located : ∀ other : CString, after.tree[other]? =
      if fam.name = other then some (prom.families.alloc copy).2 else prom.tree[other]? :=
    fun other => AvlTree.getElem?_insert prom.tree fam.name other _
  have elsewhere : ∀ (other : CString) promFam, prom.tree[other]? = some promFam →
      after.families.deref promFam = prom.families.deref promFam := by
    intro other promFam found
    obtain ⟨stored, held, -⟩ := sound other promFam found
    exact (Heap.deref_alloc held copy).trans held.symm
  refine ⟨after, ?_, ?_, ?_, ?_⟩
  · have inserted : cAvlInsert prom.tree fam.name (prom.families.alloc copy).2 = (0, after.tree) := by
      have missing : fam.name ∉ prom.tree := by
        rw [Std.ExtTreeMap.mem_iff_isSome_getElem?, absent]
        exact Bool.false_ne_true
      rw [cAvlInsert, if_neg missing]
    have cloned : metricFamilyClone fam = fam := by
      simp [metricFamilyClone]
    unfold promWrite
    rw [bind_ended lock_eq, bind_ended read_eq, absent]
    simp only [cloned]
    rw [inserted]
    rfl
  · intro other promFam found
    rw [located] at found
    split at found
    · rename_i same
      cases found
      exact ⟨copy, Heap.deref_alloc_self, same, env.table.qsort_sorted _⟩
    · rw [elsewhere other promFam found]
      exact sound other promFam found
  · rw [Prom.family, located, if_pos rfl]
    exact Heap.deref_alloc_self
  · intro other different
    rw [Prom.family, located, if_neg (Ne.symm different), Prom.family]
    cases found : prom.tree[other]? with
    | none => rfl
    | some promFam => exact elsewhere other promFam found

theorem promWrite_known (env : Environment) (sound : prom.Sound) (stored : prom.Stored fam.name promFam known)
    (named : known.name = fam.name) (sorted : Sorted known.metrics) :
    ∃ after, promWrite env fam prom = ⟨[.lock, .unlock], some (0, after)⟩ ∧
      Prom.Updated prom after fam.name promFam
        { known with metrics := fam.metrics.foldl (putMetric env) known.metrics } := by
  obtain ⟨after, looped, updated, -⟩ := writeMetrics_stored sound stored named sorted fam.metrics
  refine ⟨after, ?_, updated⟩
  unfold promWrite
  rw [bind_ended lock_eq, bind_ended read_eq, stored.located]
  simp only []
  rw [bind_ended looped]
  rfl

theorem promMissing_unknown (sound : prom.Sound) (unknown : prom.family fam.name = none) :
    promMissing env fam prom = ⟨[.lock], some (0, prom)⟩ := by
  unfold promMissing
  rw [bind_ended lock_eq, bind_ended read_eq, sound.family_none_iff.mp unknown]
  rfl

theorem promMissing_ended (located : prom.tree[fam.name]? = some promFam)
    (looped : missingMetrics env promFam fam.metrics prom = ⟨[], some ((), after)⟩) :
    promMissing env fam prom = ⟨[.lock, .unlock], some (0, after)⟩ := by
  unfold promMissing
  rw [bind_ended lock_eq, bind_ended read_eq, located]
  simp only []
  rw [bind_ended looped]
  rfl

theorem promMissing_aborted (located : prom.tree[fam.name]? = some promFam)
    (looped : missingMetrics env promFam fam.metrics prom = ⟨[], none⟩) :
    promMissing env fam prom = ⟨[.lock], none⟩ := by
  unfold promMissing
  rw [bind_ended lock_eq, bind_ended read_eq, located]
  simp only []
  rw [bind_aborted looped]
  rfl

theorem familyTexts_sound (env : Environment) (blocks : List Block)
    (live : ∀ promFam ∈ blocks, ∃ fam, prom.families.deref promFam = some fam) :
    ∃ texts, familyTexts env blocks prom = ⟨[], some (texts, prom)⟩ := by
  induction blocks with
  | nil => exact ⟨[], rfl⟩
  | cons promFam rest ih =>
    obtain ⟨⟨fam, held⟩, others⟩ := List.forall_mem_cons.mp live
    obtain ⟨texts, ended⟩ := ih others
    refine ⟨familyText env fam ++ texts, ?_⟩
    rw [familyTexts, bind_ended (load_held held), bind_ended ended]
    rfl

theorem formatText_sound (env : Environment) (sound : prom.Sound) :
    ∃ text, formatText env prom = ⟨[.lock, .unlock], some (text, prom)⟩ := by
  have live : ∀ promFam ∈ prom.tree.toList.map Prod.snd, ∃ fam, prom.families.deref promFam = some fam := by
    intro promFam member
    obtain ⟨⟨name, block⟩, listed, rfl⟩ := List.mem_map.mp member
    obtain ⟨fam, held, -⟩ := sound name block (Std.ExtTreeMap.mem_toList_iff_getElem?_eq_some.mp listed)
    exact ⟨fam, held⟩
  obtain ⟨texts, ended⟩ := familyTexts_sound env _ live
  unfold formatText
  rw [bind_ended lock_eq, bind_ended read_eq, bind_ended ended]
  exact ⟨_, rfl⟩

def Call.Safe (env : Environment) (call : Call) (prom : Prom) : Prop :=
  (call.code env prom).ended ≠ none ∧ MutexState.free.run (call.code env prom).calls = some .free

/-- The family is known, and the metrics before the last one do not already empty it. -/
def Call.Harmless (call : Call) (prom : Prom) : Prop :=
  match call with
  | .missing fam => ∃ known, prom.family fam.name = some known ∧ ¬EmptiedBy known.metrics fam.metrics.dropLast
  | _ => True

theorem Call.code_of_ended {code : PromCode α} (ended : code prom = ⟨calls, some (value, after)⟩) :
    (do let _ ← code; pure () : PromCode Unit) prom = ⟨calls, some ((), after)⟩ := by
  rw [bind_ended ended]
  simp [pure, Locked.pure]

/-- What a call does on a sound tree. -/
inductive Call.Outcome (env : Environment) (call : Call) (prom : Prom) : Prop where
  | complete (after : Prom) (whole : call.code env prom = ⟨[.lock, .unlock], some ((), after)⟩) (sound : after.Sound)
      (harmless : call.Harmless prom)
  | unreleased (whole : call.code env prom = ⟨[.lock], some ((), prom)⟩) (harmful : ¬call.Harmless prom)
  | aborted (whole : call.code env prom = ⟨[.lock], none⟩) (harmful : ¬call.Harmless prom)

section

variable (env : Environment)

theorem Call.outcome_write (fam : Family) (sound : prom.Sound) : (Call.write fam).Outcome env prom := by
  cases known : prom.family fam.name with
  | none =>
    obtain ⟨after, ended, kept, -⟩ := promWrite_unknown env sound known
    exact .complete after (code_of_ended ended) kept trivial
  | some stored =>
    obtain ⟨promFam, located, named, sorted⟩ := sound.stored_of_family known
    obtain ⟨after, ended, updated⟩ := promWrite_known env sound located named sorted
    exact .complete after (code_of_ended ended) updated.sound trivial

theorem Call.outcome_missing (fam : Family) (sound : prom.Sound) : (Call.missing fam).Outcome env prom := by
  cases known : prom.family fam.name with
  | none =>
    refine .unreleased (code_of_ended (promMissing_unknown sound known)) ?_
    rintro ⟨stored, found, -⟩
    rw [known] at found
    cases found
  | some stored =>
    obtain ⟨promFam, located, named, sorted⟩ := sound.stored_of_family known
    have harmless : (Call.missing fam).Harmless prom ↔ ¬EmptiedBy stored.metrics fam.metrics.dropLast := by
      simp [Call.Harmless, known]
    by_cases early : EmptiedBy stored.metrics fam.metrics.dropLast
    · have aborted := promMissing_aborted located.located (missingMetrics_aborts env sound located named sorted early)
      exact .aborted (bind_aborted aborted) (mt harmless.mp (not_not_intro early))
    · by_cases emptied : EmptiedBy stored.metrics fam.metrics
      · obtain ⟨after, ended, removed⟩ := missingMetrics_removes env sound located named sorted emptied early
        exact .complete after (code_of_ended (promMissing_ended located.located ended)) removed.sound
          (harmless.mpr early)
      · obtain ⟨after, ended, updated⟩ := missingMetrics_stored env sound located named sorted emptied
        exact .complete after (code_of_ended (promMissing_ended located.located ended)) updated.sound
          (harmless.mpr early)

theorem Call.outcome (call : Call) (sound : prom.Sound) : call.Outcome env prom := by
  cases call with
  | write fam => exact outcome_write env fam sound
  | missing fam => exact outcome_missing env fam sound
  | format =>
    obtain ⟨text, ended⟩ := formatText_sound env sound
    exact .complete prom (code_of_ended ended) sound trivial

theorem Call.safe_iff (call : Call) (sound : prom.Sound) : call.Safe env prom ↔ call.Harmless prom := by
  unfold Call.Safe
  cases call.outcome env sound with
  | complete after whole _ harmless =>
    rw [whole]
    exact iff_of_true ⟨nofun, rfl⟩ harmless
  | unreleased whole harmful =>
    rw [whole]
    exact iff_of_false (fun safe => nomatch safe.2) harmful
  | aborted whole harmful =>
    rw [whole]
    exact iff_of_false (fun safe => safe.1 rfl) harmful

theorem Call.sound_of_ended (call : Call) (sound : prom.Sound)
    (ended : (call.code env prom).ended = some ((), after)) : after.Sound := by
  cases call.outcome env sound with
  | complete last whole kept _ =>
    rw [whole] at ended
    cases ended
    exact kept
  | unreleased whole _ =>
    rw [whole] at ended
    cases ended
    exact sound
  | aborted whole _ =>
    rw [whole] at ended
    cases ended

theorem runCalls_append (state : Prom × MutexState) (calls others : List Call) :
    runCalls env state (calls ++ others) =
      (runCalls env state calls).bind fun middle => runCalls env middle others := by
  induction calls generalizing state with
  | nil => rfl
  | cons call rest ih =>
    rw [List.cons_append, runCalls, runCalls]
    split
    · exact ih _
    · rfl

end

theorem Call.Safe.result (safe : call.Safe env prom) :
    ∃ after, runCalls env (prom, .free) [call] = some (after, .free) := by
  obtain ⟨⟨_, after⟩, ended⟩ := Option.ne_none_iff_exists'.mp safe.1
  exact ⟨after, by simp only [runCalls, ended, safe.2]⟩

/-- Whatever the calls were, the tree stays sound. -/
theorem runCalls_sound (calls : List Call) (sound : prom.Sound)
    (run : runCalls env (prom, mutex) calls = some (after, mutex')) : after.Sound := by
  induction calls generalizing prom mutex with
  | nil =>
    cases run
    exact sound
  | cons call rest ih =>
    rw [runCalls] at run
    split at run
    · rename_i next unlocked ended _
      exact ih (call.sound_of_ended env sound ended) run
    · cases run

/-- Every call of a sequence that starts with the lock free is safe. -/
def SafeRun (env : Environment) (calls : List Call) : Prop :=
  ∀ before call rest prom, calls = before ++ call :: rest →
    runCalls env (.empty, .free) before = some (prom, .free) → call.Safe env prom

/-- Only a `prom_missing` of an unknown family, or of one emptied too early, is unsafe. -/
theorem prom_lock_and_families_safe_iff (env : Environment) (calls : List Call) :
    SafeRun env calls ↔
      ∀ before fam rest prom, calls = before ++ .missing fam :: rest →
        runCalls env (.empty, .free) before = some (prom, .free) →
        ∃ known, prom.family fam.name = some known ∧ ¬EmptiedBy known.metrics fam.metrics.dropLast := by
  constructor
  · intro safe before fam rest prom split reached
    have sound := runCalls_sound before sound_empty reached
    exact ((Call.missing fam).safe_iff env sound).mp (safe before (.missing fam) rest prom split reached)
  · intro harmless before call rest prom split reached
    have sound := runCalls_sound before sound_empty reached
    apply (call.safe_iff env sound).mpr
    cases call with
    | missing fam => exact harmless before fam rest prom split reached
    | write fam | format => trivial

def plainEnvironment : Environment :=
  ⟨promMetricCmp_orders.tableFunctions, 322122547200, ⟨fun _ => [], fun _ => [], fun _ => [], [], []⟩⟩

def loadFamily (count : Nat) : Family :=
  ⟨"load".toList, none, .gauge, List.replicate count ⟨⟨[], ⟨List.Pairwise.nil, nofun⟩⟩, .gauge (.fin 0), 1, 10⟩⟩

/-- An unknown family leaves the lock held; a family freed with its first metric is used for the second. -/
theorem prom_missing_unsafe :
    ((runCalls plainEnvironment (.empty, .free) [.missing (loadFamily 1)]).map Prod.snd = some .held ∧
      ¬SafeRun plainEnvironment [.missing (loadFamily 1)]) ∧
    (runCalls plainEnvironment (.empty, .free) [.write (loadFamily 1), .missing (loadFamily 2)] = none ∧
      ¬SafeRun plainEnvironment [.write (loadFamily 1), .missing (loadFamily 2)]) := by
  have unreleased : (runCalls plainEnvironment (.empty, .free) [.missing (loadFamily 1)]).map Prod.snd =
      some .held := by
    decide +kernel
  have aborted : (runCalls plainEnvironment (.empty, .free)
      [.write (loadFamily 1), .missing (loadFamily 2)]).isNone = true := by
    decide +kernel
  have written : (runCalls plainEnvironment (.empty, .free) [.write (loadFamily 1)]).any (·.2 = .free) = true := by
    decide +kernel
  refine ⟨⟨unreleased, ?_⟩, Option.isNone_iff_eq_none.mp aborted, ?_⟩
  · intro safe
    obtain ⟨after, result⟩ := (safe [] (.missing (loadFamily 1)) [] .empty rfl rfl).result
    rw [result] at unreleased
    cases unreleased
  · intro safe
    obtain ⟨⟨prom, mutex⟩, reached, free⟩ := (Option.any_eq_true _ _).mp written
    obtain rfl : mutex = .free := of_decide_eq_true free
    obtain ⟨after, result⟩ := (safe [.write (loadFamily 1)] (.missing (loadFamily 2)) [] prom rfl reached).result
    have whole := runCalls_append plainEnvironment (.empty, .free) [.write (loadFamily 1)]
      [.missing (loadFamily 2)]
    rw [reached, Option.bind_some, result] at whole
    rw [List.singleton_append] at whole
    rw [whole] at aborted
    cases aborted

end NCollectd.Prometheus
