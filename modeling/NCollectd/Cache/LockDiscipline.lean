import NCollectd.Cache.Increase
import NCollectd.Cache.Lock

namespace NCollectd.CacheLock

open Locked

@[simp] theorem ensures_cAvlGet :
    Ensures (cAvlGet name) tree mutex post ↔ ∀ cache, tree = some cache → post cache[name]? tree mutex := by
  unfold cAvlGet
  cases tree <;> simp

@[simp] theorem ensures_store :
    Ensures (store name ce) tree mutex post ↔
      ∀ cache, tree = some cache → post () (some (cache.insert name ce)) mutex := by
  unfold store
  cases tree <;> simp

/-- Code that starts and ends with the lock free. -/
def Balanced (code : CacheCode α) (tree : Option Cache) : Prop :=
  code.Ensures tree .free fun _ _ last => last = .free

theorem Balanced.bind (first : Balanced code tree)
    (rest : ∀ value changed, (code tree).ended = some (value, changed) → Balanced (next value) changed) :
    Balanced (code >>= next) tree := by
  unfold Balanced
  rw [ensures_bind]
  apply first.imp
  intro value changed last ended free
  rw [free]
  exact rest value changed ended

theorem balanced_pure (value : α) : Balanced (pure value) tree := by
  simp [Balanced]

theorem balanced_lookup {found : Option CacheEntry → CacheCode α}
    (inside : ∀ cache, tree = some cache →
      (found cache[name]?).Ensures tree .held fun _ _ last => last = .free) :
    Balanced (do lock; found (← cAvlGet name)) tree := by
  simpa [Balanced] using inside

theorem ucSetCallbacksMask_balanced : Balanced (ucSetCallbacksMask name mask) tree := by
  apply balanced_lookup
  intro cache created
  cases cache[name]? <;> simp [created]

theorem storeSubscribers_balanced : Balanced (storeSubscribers name mask) tree := by
  unfold storeSubscribers
  split
  · exact ucSetCallbacksMask_balanced.bind fun _ _ _ => balanced_pure _
  · exact balanced_pure _

theorem ucUpdateMetric_balanced : Balanced (ucUpdateMetric page answers m now) tree := by
  unfold Balanced ucUpdateMetric
  simp only [ensures_bind, ensures_ofOption]
  intro key named
  cases key with
  | error status => simp
  | ok key =>
    apply balanced_lookup
    intro cache created
    cases cache[key]? with
    | none =>
      simp only [ucInsert, created, ensures_bind, ensures_read, ensures_ofOption, ensures_write, ensures_pure,
        ensures_unlock, true_and]
      intro result inserted
      split
      · exact storeSubscribers_balanced.bind fun _ _ _ => balanced_pure _
      · exact balanced_pure _
    | some ce =>
      dsimp only
      split
      · simp
      · simp only [ensures_bind, ensures_ofOption]
        intro result updated
        split <;> simp

theorem ucUpdate_balanced : Balanced (ucUpdate page answers fam) tree := by
  induction fam generalizing tree with
  | nil => exact balanced_pure _
  | cons item rest ih =>
    exact ucUpdateMetric_balanced.bind fun _ _ _ => ih.bind fun _ _ _ => balanced_pure _

theorem ucCheckTimeout_balanced : Balanced (ucCheckTimeout page now timeout) tree := by
  unfold Balanced ucCheckTimeout
  simp only [ensures_bind, ensures_lock, ensures_read, ensures_unlock, true_and]
  split
  · exact balanced_pure _
  · cases tree <;> simp

theorem ucGetPercentileByName_balanced : Balanced (ucGetPercentileByName name percent) tree := by
  unfold ucGetPercentileByName
  split
  · exact balanced_pure _
  · apply balanced_lookup
    intro cache created
    cases cache[name]? with
    | none => simp
    | some ce =>
      dsimp only
      split
      · simp
      · split <;> simp

theorem ucGetHistoryByName_balanced : Balanced (ucGetHistoryByName name numSteps) tree := by
  apply balanced_lookup
  intro cache created
  cases cache[name]? <;> simp

theorem getByName_balanced : Balanced (getByName field name) tree := by
  apply balanced_lookup
  intro cache created
  cases cache[name]? <;> simp

theorem changeByName_balanced : Balanced (changeByName field change name) tree := by
  apply balanced_lookup
  intro cache created
  cases cache[name]? <;> simp

theorem timeByName_balanced : Balanced (timeByName field name) tree := by
  apply balanced_lookup
  intro cache created
  cases cache[name]? with
  | none => simp
  | some ce =>
    dsimp only
    split <;> simp

/-- The name of an entry that `uc_get_rate_by_name` takes for a distribution. -/
def NamesDistribution (tree : Option Cache) (name : CString) : Prop :=
  ∃ cache ce, tree = some cache ∧ cache[name]? = some ce ∧ ce.state ≠ STATE_MISSING ∧
    ce.valuesRaw.type = .distribution ∧ (distributionPercentile ce.distributionIncrease (.fin 50)).isSome = true

theorem percentile_range : ((Double.fin 50).less (.fin 0) || (Double.fin 100).less (.fin 50)) = false := by
  decide +kernel

theorem ucGetRateByName_balanced_iff : Balanced (ucGetRateByName name) tree ↔ ¬ NamesDistribution tree name := by
  cases tree with
  | none => simp [Balanced, ucGetRateByName, NamesDistribution]
  | some cache =>
    simp only [Balanced, ucGetRateByName, ensures_bind, ensures_lock, ensures_cAvlGet, true_and, Option.some.injEq,
      forall_eq']
    cases found : cache[name]? with
    | none => simp [NamesDistribution, found]
    | some ce =>
      dsimp only
      split
      · rename_i missing
        simp [NamesDistribution, found, missing]
      · rename_i present
        split
        · rename_i scalar
          simp [NamesDistribution, found, scalar]
        · rename_i distribution
          simp [NamesDistribution, found, present, not_not.mp distribution, ucGetPercentileByName, percentile_range,
            Option.isSome_iff_exists]

/-- What a client of the cache calls; an iteration is one operation. -/
inductive CacheOp where
  | update (fam : List (Metric × CdTime))
  | checkTimeout (now : CdTime) (timeout : Int)
  | getRate (m : Metric)
  | getRateByName (name : CString)
  | getPercentileByName (name : CString) (percent : Double)
  | getHistoryByName (name : CString) (numSteps : Nat)
  | getHitsByName (name : CString)
  | setHitsByName (name : CString) (hits : Int)
  | incHitsByName (name : CString) (step : Int)
  | getStateByName (name : CString)
  | setStateByName (name : CString) (state : Int)
  | getLastTime (name : CString)
  | getLastUpdate (name : CString)
  | setCallbacksMask (name : CString) (mask : UInt64)
  | iterate (steps : Nat)

private def discard (code : CacheCode α) : CacheCode Unit := do
  let _ ← code
  pure ()

section Operations

variable (page : PageSize) (answers : CString → Metric → UInt64)

def CacheOp.code : CacheOp → CacheCode Unit
  | .update fam => discard (ucUpdate page answers fam)
  | .checkTimeout now timeout => discard (ucCheckTimeout page now timeout)
  | .getRate m => discard (ucGetRate page m)
  | .getRateByName name => discard (ucGetRateByName name)
  | .getPercentileByName name percent => discard (ucGetPercentileByName name percent)
  | .getHistoryByName name numSteps => discard (ucGetHistoryByName name numSteps)
  | .getHitsByName name => discard (ucGetHitsByName name)
  | .setHitsByName name hits => discard (ucSetHitsByName name hits)
  | .incHitsByName name step => discard (ucIncHitsByName name step)
  | .getStateByName name => discard (ucGetStateByName name)
  | .setStateByName name state => discard (ucSetStateByName name state)
  | .getLastTime name => discard (ucGetLastTime name)
  | .getLastUpdate name => discard (ucGetLastUpdate name)
  | .setCallbacksMask name mask => discard (ucSetCallbacksMask name mask)
  | .iterate steps => discard (iteratorSection steps)

/-- After `uc_get_iterator` the lock is held if there is an iterator, and free otherwise. -/
def IteratorHolds (tree : Option Cache) : Prop :=
  ucGetIterator.Ensures tree .free fun iter _ last => last = if iter.isSome then .held else .free

/-- The discipline of one operation that starts with the lock free. -/
def CacheOp.Disciplined (op : CacheOp) (tree : Option Cache) : Prop :=
  Balanced (op.code page answers) tree ∧ (∀ steps, op = .iterate steps → IteratorHolds tree)

def CacheOp.Breaks (op : CacheOp) (tree : Option Cache) : Prop :=
  match op with
  | .getRate m =>
    m.family.type ≠ .distribution ∧ ∃ key, entryKey page m = some (.ok key) ∧ NamesDistribution tree key
  | .getRateByName name => NamesDistribution tree name
  | .iterate _ => tree = none
  | _ => False

def RunDisciplined : List CacheOp → Option Cache → Prop
  | [], _ => True
  | op :: rest, tree =>
    op.Disciplined page answers tree ∧
      ∀ changed, (op.code page answers tree).ended = some ((), changed) → RunDisciplined rest changed

/-- No operation of a sequence is one of those that break the discipline. -/
def RunAvoids : List CacheOp → Option Cache → Prop
  | [], _ => True
  | op :: rest, tree =>
    ¬ op.Breaks page tree ∧
      ∀ changed, (op.code page answers tree).ended = some ((), changed) → RunAvoids rest changed

def runCode : List CacheOp → CacheCode Unit
  | [] => pure ()
  | op :: rest => do
    op.code page answers
    runCode rest

end Operations

theorem balanced_discard_iff : Balanced (discard code) tree ↔ Balanced code tree := by
  simp [Balanced, discard]

theorem ucGetRate_balanced_iff :
    Balanced (ucGetRate page m) tree ↔ ¬ (CacheOp.getRate m).Breaks page tree := by
  unfold ucGetRate Balanced
  simp only [ensures_bind, ensures_ofOption, CacheOp.Breaks]
  cases named : entryKey page m with
  | none => simp
  | some result =>
    simp only [Option.some.injEq, forall_eq']
    cases result with
    | error status => simp
    | ok key =>
      dsimp only
      split
      · rename_i distribution
        exact iff_of_true ucGetPercentileByName_balanced fun broken => broken.1 distribution
      · rename_i other
        simpa [other, Balanced] using ucGetRateByName_balanced_iff

theorem iterate_disciplined_iff :
    Balanced (iteratorSection steps) tree ∧ IteratorHolds tree ↔ tree ≠ none := by
  cases tree with
  | none => simp [Balanced, iteratorSection, ucGetIterator, IteratorHolds]
  | some cache => simp [Balanced, iteratorSection, ucGetIterator, ucIteratorDestroy, IteratorHolds]

theorem disciplined_plain {op : CacheOp} (balanced : Balanced code tree)
    (same : op.code page answers = discard code) (single : ∀ steps, op ≠ .iterate steps)
    (harmless : ¬ op.Breaks page tree) : op.Disciplined page answers tree ↔ ¬ op.Breaks page tree := by
  refine iff_of_true ⟨?_, fun steps loop => absurd loop (single steps)⟩ harmless
  rw [same]
  exact balanced_discard_iff.mpr balanced

theorem CacheOp.disciplined_iff (op : CacheOp) (tree : Option Cache) :
    op.Disciplined page answers tree ↔ ¬ op.Breaks page tree := by
  cases op with
  | iterate steps =>
    have one : (∀ other, CacheOp.iterate steps = .iterate other → IteratorHolds tree) ↔ IteratorHolds tree :=
      ⟨fun holds => holds steps rfl, fun holds _ _ => holds⟩
    rw [CacheOp.Disciplined, one, CacheOp.code, balanced_discard_iff, iterate_disciplined_iff]
    rfl
  | getRate m => simpa [CacheOp.Disciplined, CacheOp.code, balanced_discard_iff] using ucGetRate_balanced_iff
  | getRateByName name =>
    simpa [CacheOp.Disciplined, CacheOp.code, balanced_discard_iff, CacheOp.Breaks] using
      ucGetRateByName_balanced_iff
  | update fam => exact disciplined_plain ucUpdate_balanced rfl nofun not_false
  | checkTimeout now timeout => exact disciplined_plain ucCheckTimeout_balanced rfl nofun not_false
  | getPercentileByName name percent => exact disciplined_plain ucGetPercentileByName_balanced rfl nofun not_false
  | getHistoryByName name numSteps => exact disciplined_plain ucGetHistoryByName_balanced rfl nofun not_false
  | getHitsByName name => exact disciplined_plain getByName_balanced rfl nofun not_false
  | setHitsByName name hits
  | incHitsByName name step => exact disciplined_plain changeByName_balanced rfl nofun not_false
  | getStateByName name => exact disciplined_plain getByName_balanced rfl nofun not_false
  | setStateByName name state => exact disciplined_plain changeByName_balanced rfl nofun not_false
  | getLastTime name | getLastUpdate name => exact disciplined_plain timeByName_balanced rfl nofun not_false
  | setCallbacksMask name mask => exact disciplined_plain ucSetCallbacksMask_balanced rfl nofun not_false

theorem RunDisciplined.balanced (run : RunDisciplined page answers ops tree) :
    Balanced (runCode page answers ops) tree := by
  induction ops generalizing tree with
  | nil => exact balanced_pure ()
  | cons op rest ih =>
    obtain ⟨⟨first, _⟩, later⟩ := run
    exact first.bind fun _ changed ended => ih (later changed ended)

/-- No rate of a distribution is taken by name, and nothing iterates before the tree is created. -/
theorem cache_lock_disciplined_iff (page : PageSize) (answers : CString → Metric → UInt64) (ops : List CacheOp)
    (tree : Option Cache) :
    RunDisciplined page answers ops tree ↔ RunAvoids page answers ops tree := by
  induction ops generalizing tree with
  | nil => exact Iff.rfl
  | cons op rest ih =>
    unfold RunDisciplined RunAvoids
    rw [CacheOp.disciplined_iff]
    refine and_congr_right fun _ => forall_congr' fun changed => ?_
    exact imp_congr_right fun _ => ih changed

/-- A free mutex is unlocked; an iterator that could not be made leaves the mutex held. -/
theorem cache_lock_broken :
    (runCode (strbufPagesize 4096) (fun _ _ => 0)
        [.update [(latency twoBuckets 1, 1)], .getRateByName "latency"] (some ∅)).calls =
      [.lock, .unlock, .lock, .unlock, .lock, .unlock, .unlock] ∧
    ¬ RunDisciplined (strbufPagesize 4096) (fun _ _ => 0)
        [.update [(latency twoBuckets 1, 1)], .getRateByName "latency"] (some ∅) ∧
    (ucGetIterator none).calls = [.lock] ∧ (ucGetIterator none).ended.isSome = true ∧
    ¬ RunDisciplined (strbufPagesize 4096) (fun _ _ => 0) [.iterate 1] none := by
  have calls : (runCode (strbufPagesize 4096) (fun _ _ => 0)
      [.update [(latency twoBuckets 1, 1)], .getRateByName "latency"] (some ∅)).calls =
      [.lock, .unlock, .lock, .unlock, .lock, .unlock, .unlock] := by
    decide +kernel
  refine ⟨calls, ?_, rfl, rfl, ?_⟩
  · intro run
    obtain ⟨last, legal, _⟩ := run.balanced
    rw [calls] at legal
    cases legal
  · intro run
    exact (CacheOp.disciplined_iff _ _).mp run.1 rfl

end NCollectd.CacheLock
