import NCollectd.Cache.Steps
import NCollectd.Distribution.Sub

/-! What a failed `uc_update_metric` leaves behind. -/

namespace NCollectd

theorem distributionSub_refused (failed : (distributionSub d1 d2).1 ≠ 0)
    (incomparable : (distributionSub d1 d2).1 ≠ ERANGE) :
    distributionCmp d1 d2 = .error EINVAL ∧ distributionSub d1 d2 = (EINVAL, d1) := by
  rcases d1 with _ | d1
  · exact ⟨rfl, rfl⟩
  rcases d2 with _ | d2
  · exact ⟨rfl, rfl⟩
  rcases distributionCmp_cases d1 d2 with ⟨_, compared⟩ | ⟨bounds, ⟨_, compared⟩ | ⟨_, _, compared⟩⟩
  · exact ⟨compared, by simp [distributionSub, compared, EINVAL]⟩
  · simp [distributionSub, compared, ERANGE] at incomparable
  · have count := numBuckets_eq_of_tree_length d1 d2 bounds.length_eq
    simp [distributionSub, compared, count] at failed

theorem distributionSub_mismatch (compared : distributionCmp d1 d2 = .error EINVAL) :
    distributionSub d1 d2 = (EINVAL, d1) := by
  simp [distributionSub, compared, EINVAL]

/-- The metric is newer and its distribution has another structure, and is not the cached increase. -/
def OverwritesIncrease (page : PageSize) (cache : Cache) (m : Metric) : Prop :=
  ∃ key ce dist raw, entryKey page m = some (.ok key) ∧ cache[key]? = some ce ∧ ce.lastTime < m.time ∧
    m.family.type = .distribution ∧ m.value = .distribution dist ∧
    ce.valuesRaw.value = .distribution raw ∧ distributionCmp dist raw = .error EINVAL ∧
    ce.distributionIncrease ≠ dist

theorem updateEntry_mismatch {dist} (newer : ce.lastTime < m.time)
    (typed : m.family.type = .distribution)
    (value : m.value = .distribution dist) (raw : ce.valuesRaw.value = .distribution held)
    (compared : distributionCmp dist held = .error EINVAL) (now : CdTime) :
    updateEntry ce m now = some (EINVAL, { ce with distributionIncrease := dist }) := by
  rw [updateEntry, if_neg (UInt64.not_le.mpr newer)]
  simp only [updateValues, typed, value, raw, Value.distribution?, Option.bind_some, updateDistribution,
    distributionClone_eq, distributionSub_mismatch compared]
  rfl

/-- The two ways in which an update of an entry fails. -/
theorem updateEntry_failed (stepped : updateEntry ce m now = some (status, next)) (failed : status ≠ 0) :
    (m.time ≤ ce.lastTime ∧ next = ce) ∨
      ce.lastTime < m.time ∧ m.family.type = .distribution ∧ ∃ dist raw, m.value = .distribution dist ∧
        ce.valuesRaw.value = .distribution raw ∧ distributionCmp dist raw = .error EINVAL := by
  rcases updateEntry_cases stepped with ⟨old, _, same⟩ | ⟨newer, changed, revalued, _⟩
  · exact .inl ⟨old, same⟩
  · cases revalued with
    | refused dist raw typed value held reported _ other =>
      refine .inr ⟨newer, typed, dist, raw, value, held, ?_⟩
      subst reported
      exact (distributionSub_refused failed other).1
    | _ => exact absurd rfl failed

/-- A failed update leaves the cache as it was, unless it has already overwritten the increase. -/
theorem failed_update_unchanged_iff (page : PageSize) (cache : Cache) (m : Metric) (now : CdTime)
    (outcome : Outcome) (updated : ucUpdateMetric page cache m now = some outcome) :
    (outcome.status ≠ 0 → outcome.cache = cache) ↔ ¬ OverwritesIncrease page cache m := by
  cases ucUpdateMetric_updated updated with
  | keyless failed =>
    refine iff_of_true (fun _ => rfl) ?_
    rintro ⟨key, _, _, _, named, _⟩
    simp [failed] at named
  | inserted key entry named absent =>
    refine iff_of_true (fun failed => absurd rfl failed) ?_
    rintro ⟨key', ce, _, _, named', present, _⟩
    obtain rfl : key = key' := by simpa [named] using named'
    simp [absent] at present
  | rewritten key ce next status events named present stepped =>
    dsimp only
    rw [AvlTree.insert_eq_self_iff cache present]
    constructor
    · rintro unchanged ⟨key', ce', dist, raw, named', present', newer, typed, value, held, mismatch, differs⟩
      obtain rfl : key = key' := by simpa [named] using named'
      obtain rfl : ce = ce' := by simpa [present] using present'
      have result := updateEntry_mismatch newer typed value held mismatch now
      cases stepped.symm.trans result
      exact differs (congrArg CacheEntry.distributionIncrease (unchanged (by decide))).symm
    · intro kept failed
      rcases updateEntry_failed stepped failed with ⟨_, same⟩ | ⟨newer, typed, dist, raw, value, held, mismatch⟩
      · exact same
      · have result := updateEntry_mismatch newer typed value held mismatch now
        cases stepped.symm.trans result
        have equal : ce.distributionIncrease = dist := by
          by_contra differs
          exact kept ⟨key, ce, dist, raw, named, present, newer, typed, value, held, mismatch, differs⟩
        rw [← equal]

def oneBucket : Distribution where
  tree := [⟨0, .posInf⟩]
  numBuckets := 1
  totalSum := .fin 0
  totalSquareSum := .fin 0
  positive := by decide
  sized := rfl

def sizeMetric (d : Distribution) (time : CdTime) : Metric :=
  ⟨⟨"size", .distribution⟩, .empty, .distribution (some d), time, 10⟩

theorem failed_update_unchanged_old :
    ∃ first outcome, ucUpdateMetric (strbufPagesize 4096) ∅ (sizeMetric twoBuckets 2) 1 = some first ∧
      ucUpdateMetric (strbufPagesize 4096) first.cache (sizeMetric oneBucket 1) 2 = some outcome ∧
      ((outcome.status ≠ 0 → outcome.cache = first.cache) ↔
        ¬ OverwritesIncrease (strbufPagesize 4096) first.cache (sizeMetric oneBucket 1)) := by
  have success : ((ucUpdateMetric (strbufPagesize 4096) ∅ (sizeMetric twoBuckets 2) 1).bind fun first =>
      ucUpdateMetric (strbufPagesize 4096) first.cache (sizeMetric oneBucket 1) 2).isSome = true := by
    decide +kernel
  obtain ⟨outcome, run⟩ := Option.isSome_iff_exists.mp success
  obtain ⟨first, inserted, updated⟩ := Option.bind_eq_some_iff.mp run
  exact ⟨first, outcome, inserted, updated, failed_update_unchanged_iff _ _ _ _ _ updated⟩

/-- One bucket after two: the update is refused, and the cached increase has one bucket. -/
theorem failed_update_replaces_increase :
    Constructed twoBuckets ∧ distributionNewLinear 1 (.fin 1) = some (.ok oneBucket) ∧
    ((ucUpdateMetric (strbufPagesize 4096) ∅ (sizeMetric twoBuckets 1) 1).bind fun first =>
      (ucUpdateMetric (strbufPagesize 4096) first.cache (sizeMetric oneBucket 2) 2).map fun outcome =>
        (first.status, outcome.status,
          first.cache["size".toList]?.bind CacheEntry.distributionIncrease,
          outcome.cache["size".toList]?.bind CacheEntry.distributionIncrease)) =
      some (0, EINVAL, some twoBuckets, some oneBucket) := by
  refine ⟨twoBuckets_constructed, ?_⟩
  decide +kernel

end NCollectd
