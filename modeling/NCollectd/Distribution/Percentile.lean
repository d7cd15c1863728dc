import NCollectd.Distribution.Runs

namespace NCollectd

open EulerTour
open scoped UInt64.CommRing

def Bucket.count (bucket : Bucket) : Nat := bucket.counter.toNat

theorem le_counter_iff {bucket : Bucket} : counter ≤ bucket.counter ↔ counter.toNat ≤ bucket.count :=
  UInt64.le_iff_toNat_le

def recordedCount (count : Nat) : List DistributionOp → Nat
  | [] => count
  | .update gauge :: rest => recordedCount (if gauge.less (.fin 0) then count else count + 1) rest
  | .reset :: rest => recordedCount 0 rest
  | .clone :: rest => recordedCount count rest

theorem treeGetCounter_spec {tree : BucketTree} (covers : Covers left right tree) (before after : List Bucket)
    (counter : UInt64) :
    treeGetCounter (before ++ tree.tour ++ after) before.length left right counter =
      some (tree.descend Bucket.count counter.toNat).maximum := by
  induction covers generalizing before after counter with
  | leaf position bucket =>
    unfold treeGetCounter
    rw [if_neg (lt_irrefl _), if_pos rfl, getElem?_root]
    rfl
  | @node first last left right bucket proper first_covers second_covers on_left on_right =>
    obtain ⟨left_index, right_index⟩ := childIndices first_covers before bucket
    unfold treeGetCounter
    rw [if_neg (Nat.not_lt_of_lt proper), if_neg (ne_of_lt proper)]
    dsimp only
    rw [left_index, right_index, tour_node, getElem?_root, Option.bind_some, SegTree.descend]
    by_cases inside : counter ≤ left.root.counter
    · rw [if_pos inside, on_left, if_pos (le_counter_iff.mp inside)]
    · rw [if_neg inside, ← List.append_assoc _ right.tour, on_right,
        if_neg (fun least => inside (le_counter_iff.mpr least)),
        UInt64.toNat_sub_of_le _ _ (UInt64.le_of_lt (UInt64.not_le.mp inside))]
      rfl

/-- Where the counters of the leaves fit together, no inner counter has wrapped. -/
theorem weighed_of_small {tree : BucketTree} (summed : tree.Summed mergeBuckets)
    (small : (tree.leaves.map Bucket.count).sum < 2 ^ 64) :
    (tree.map Bucket.count).Summed (· + ·) ∧ tree.root.count = (tree.leaves.map Bucket.count).sum := by
  induction tree with
  | leaf bucket => exact ⟨trivial, by simp [SegTree.leaves, SegTree.root]⟩
  | node bucket left right onLeft onRight =>
    obtain ⟨top, first, second⟩ := summed
    rw [SegTree.leaves, List.map_append, List.sum_append] at small ⊢
    obtain ⟨inner, before⟩ := onLeft first (by omega)
    obtain ⟨inner', after⟩ := onRight second (by omega)
    have root : bucket.count = left.root.count + right.root.count := by
      rw [before, after, ← Nat.mod_eq_of_lt small, ← before, ← after, top]
      exact UInt64.toNat_add _ _
    refine ⟨⟨?_, inner, inner'⟩, by rw [SegTree.root, root, before, after]⟩
    rw [root_map, root_map, root]

theorem count_countOne (room : bucket.count + 1 < 2 ^ 64) :
    (countOne bucket).count = bucket.count + 1 := by
  rw [Bucket.count, countOne, UInt64.toNat_add]
  exact Nat.mod_eq_of_lt room

theorem leaves_countPath_split (gauge : Double) (tree : BucketTree) :
    ∃ earlier bucket later, tree.leaves = earlier ++ bucket :: later ∧
      (countPath gauge tree).leaves = earlier ++ countOne bucket :: later := by
  induction tree with
  | leaf bucket => exact ⟨[], bucket, [], rfl, rfl⟩
  | node bucket left right onLeft onRight =>
    unfold countPath
    split
    · obtain ⟨earlier, bucket, later, split, counted⟩ := onLeft
      exact ⟨earlier, bucket, later ++ right.leaves, by simp [SegTree.leaves, split], by
        simp [SegTree.leaves, counted]⟩
    · obtain ⟨earlier, bucket, later, split, counted⟩ := onRight
      exact ⟨left.leaves ++ earlier, bucket, later, by simp [SegTree.leaves, split], by
        simp [SegTree.leaves, counted]⟩

/-- What the tree of a distribution holds after a number of recorded values, of any kind. -/
structure Records (d : Distribution) (bounds : List Double) (count : Nat) (tree : BucketTree) : Prop where
  encodes : Encodes d tree
  maxima : tree.leaves.map Bucket.maximum = bounds
  total : count < 2 ^ 64 → (tree.leaves.map Bucket.count).sum = count

theorem Records.update {gauge} (records : Records d bounds count tree)
    (accepted : gauge.less (.fin 0) = false) :
    ∃ next tree', distributionUpdate d gauge = some (0, next) ∧ Records next bounds (count + 1) tree' := by
  obtain ⟨next, updated, _, encodes⟩ := records.encodes.update accepted
  obtain ⟨earlier, bucket, later, split, counted⟩ := leaves_countPath_split gauge tree
  refine ⟨next, countPath gauge tree, updated, encodes, ?_, fun few => ?_⟩
  · rw [← records.maxima, split, counted]
    simp [countOne]
  · have total := records.total (by omega)
    rw [split, List.map_append, List.map_cons, List.sum_append, List.sum_cons] at total
    rw [counted, List.map_append, List.map_cons, List.sum_append, List.sum_cons, count_countOne (by omega)]
    omega

theorem Records.reset (records : Records d bounds count tree) :
    Records (distributionReset d) bounds 0 (tree.map clearCounter) where
  encodes := records.encodes.reset
  maxima := by
    rw [leaves_map, List.map_map, ← records.maxima]
    rfl
  total _ := by
    rw [leaves_map, List.map_map]
    exact List.sum_eq_zero fun count member => by
      obtain ⟨bucket, _, rfl⟩ := List.mem_map.mp member
      rfl

/-- A run never leaves the array, and the counters are those of the recorded values. -/
theorem Records.run (records : Records d bounds count tree) (ops : List DistributionOp) :
    ∃ next tree', runOps d ops = some next ∧ Records next bounds (recordedCount count ops) tree' := by
  induction ops generalizing d count tree with
  | nil => exact ⟨d, tree, rfl, records⟩
  | cons op rest ih =>
    cases op with
    | update gauge =>
      cases refused : gauge.less (.fin 0) with
      | true =>
        obtain ⟨next, tree', run, final⟩ := ih records
        refine ⟨next, tree', ?_, by simpa [recordedCount, refused] using final⟩
        simpa [runOps, DistributionOp.apply, distributionUpdate, refused] using run
      | false =>
        obtain ⟨middle, tree₁, updated, counted⟩ := records.update refused
        obtain ⟨next, tree', run, final⟩ := ih counted
        refine ⟨next, tree', ?_, by simpa [recordedCount, refused] using final⟩
        simpa [runOps, DistributionOp.apply, updated] using run
    | reset => exact ih records.reset
    | clone => exact ih records

theorem Constructed.records (constructed : Constructed d) :
    ∃ tree, Records d (tree.leaves.map Bucket.maximum) 0 tree := by
  obtain ⟨tree, counts⟩ := constructed.counts
  refine ⟨tree, counts.encodes, rfl, fun _ => List.sum_eq_zero fun count member => ?_⟩
  obtain ⟨bucket, present, rfl⟩ := List.mem_map.mp member
  obtain ⟨i, found⟩ := List.mem_iff_getElem?.mp present
  rw [Bucket.count, counts.counters i bucket found]
  rfl

def rank (total : Nat) (percent : ℚ) : Nat := ⌈(total : ℚ) * percent / 100⌉₊

theorem rank_le (most : percent ≤ 100) : rank total percent ≤ total := by
  have scaled : (total : ℚ) * percent ≤ total * 100 := mul_le_mul_of_nonneg_left most (Nat.cast_nonneg total)
  refine Nat.ceil_le.mpr ((div_le_iff₀ (by norm_num)).mpr scaled)

theorem rank_mono (below : percent ≤ percent') : rank total percent ≤ rank total percent' := by
  have scaled := mul_le_mul_of_nonneg_left below (Nat.cast_nonneg total)
  exact Nat.ceil_le_ceil ((div_le_div_iff_of_pos_right (by norm_num)).mpr scaled)

/-- `distribution_percentile` where no counter has wrapped. -/
theorem percentile_eq (encodes : Encodes d tree) (total : (tree.leaves.map Bucket.count).sum = count)
    (positive : 0 < count) (few : count < 2 ^ 64) {percent : ℚ} (least : 0 ≤ percent) (most : percent ≤ 100) :
    distributionPercentile (some d) (.fin percent) =
      some (tree.descend Bucket.count (rank count percent)).maximum := by
  obtain ⟨_, root⟩ := weighed_of_small encodes.summed (total ▸ few)
  have counter : d.root.counter.toNat = count := by
    rw [encodes.root, ← total, ← root]
    rfl
  have nonzero : d.root.counter ≠ 0 := by
    intro zero
    rw [zero] at counter
    exact ne_of_lt positive counter
  have inside : ((Double.fin percent).less (.fin 0) || (Double.fin 100).less (.fin percent)) = false := by
    simp [Double.less, least, most]
  have small : rank count percent < 2 ^ 64 := lt_of_le_of_lt (rank_le most) few
  have found := treeGetCounter_spec encodes.covers [] [] (UInt64.ofNat (rank count percent))
  rw [UInt64.toNat_ofNat', Nat.mod_eq_of_lt small] at found
  simp only [List.nil_append, List.append_nil, List.length_nil, ← encodes.cells] at found
  rw [distributionPercentile, if_neg (by simp [inside])]
  rw [if_neg nonzero, counter, ← found]
  simp [Double.ofNat, Double.mul, Double.div, ceilCounter, rank]

theorem lessEq_of_sorted {buckets : List Bucket} {i j : Nat}
    (sorted : (buckets.map Bucket.maximum).Pairwise fun a b => a.lessEq b = true)
    (numbers : ∀ bucket ∈ buckets, bucket.maximum ≠ .nan) (first : buckets[i]? = some low)
    (second : buckets[j]? = some high) (below : i ≤ j) : low.maximum.lessEq high.maximum = true := by
  rcases Nat.lt_or_eq_of_le below with less | rfl
  · obtain ⟨inside, rfl⟩ := List.getElem?_eq_some_iff.mp first
    obtain ⟨inside', rfl⟩ := List.getElem?_eq_some_iff.mp second
    exact List.pairwise_iff_getElem.mp (List.pairwise_map.mp sorted) i j inside inside' less
  · cases first.symm.trans second
    simp [Double.lessEq, Double.same, numbers low (List.mem_of_getElem? first)]

/-- The descent in the tree finds the bucket of a linear scan, which grows with the percentage. -/
theorem percentile_is_linear_scan (d₀ : Distribution) (initial : List Bucket) (ops : List DistributionOp)
    (constructed : Constructed d₀) (made : getBuckets d₀ = some initial) (positive : 0 < recordedCount 0 ops)
    (few : recordedCount 0 ops < 2 ^ 64) :
    ∃ d buckets, runOps d₀ ops = some d ∧ getBuckets d = some buckets ∧
      buckets.map Bucket.maximum = initial.map Bucket.maximum ∧
      (distributionTotalCounter d).toNat = recordedCount 0 ops ∧
      ∃ index : ℚ → Nat,
        (∀ percent, 0 ≤ percent → percent ≤ 100 → ∃ bucket, buckets[index percent]? = some bucket ∧
          FirstReaching Bucket.count buckets (rank (recordedCount 0 ops) percent) (index percent) ∧
          distributionPercentile (some d) (.fin percent) = some bucket.maximum) ∧
        (∀ percent percent', 0 ≤ percent → percent ≤ percent' → percent' ≤ 100 → index percent ≤ index percent') ∧
        ((buckets.map Bucket.maximum).Pairwise (fun a b => a.lessEq b = true) →
          (∀ bucket ∈ buckets, bucket.maximum ≠ .nan) →
          ∀ percent percent' bound bound', 0 ≤ percent → percent ≤ percent' → percent' ≤ 100 →
            distributionPercentile (some d) (.fin percent) = some bound →
            distributionPercentile (some d) (.fin percent') = some bound' → bound.lessEq bound' = true) := by
  obtain ⟨tree₀, start⟩ := constructed.records
  obtain rfl : tree₀.leaves = initial := Option.some.inj (start.encodes.getBuckets_eq.symm.trans made)
  obtain ⟨d, tree, run, records⟩ := start.run ops
  have total := records.total few
  obtain ⟨weighed, root⟩ := weighed_of_small records.encodes.summed (total ▸ few)
  have scan : ∀ percent, percent ≤ 100 → ∃ i,
      tree.leaves[i]? = some (tree.descend Bucket.count (rank (recordedCount 0 ops) percent)) ∧
        FirstReaching Bucket.count tree.leaves (rank (recordedCount 0 ops) percent) i :=
    fun percent most => SegTree.descend_first weighed (total ▸ rank_le most)
  choose! index found reached using scan
  have value : ∀ percent, 0 ≤ percent → percent ≤ 100 → distributionPercentile (some d) (.fin percent) =
      some (tree.descend Bucket.count (rank (recordedCount 0 ops) percent)).maximum :=
    fun percent least most => percentile_eq records.encodes total positive few least most
  have ordered : ∀ percent percent', percent ≤ percent' → percent' ≤ 100 → index percent ≤ index percent' :=
    fun percent percent' below most =>
      (reached percent (le_trans below most)).mono (reached percent' most) (rank_mono below)
  refine ⟨d, tree.leaves, run, records.encodes.getBuckets_eq, records.maxima, ?_, index, fun percent least most => ?_,
    fun percent percent' _ => ordered percent percent', ?_⟩
  · rw [distributionTotalCounter, records.encodes.root, ← total, ← root]
    rfl
  · exact ⟨_, found percent most, reached percent most, value percent least most⟩
  · intro sorted numbers percent percent' bound bound' least below most first second
    have low := found percent (le_trans below most)
    have high := found percent' most
    cases (value percent least (le_trans below most)).symm.trans first
    cases (value percent' (le_trans least below) most).symm.trans second
    exact lessEq_of_sorted sorted numbers low high (ordered percent percent' below most)

theorem percentile_is_linear_scan_two :
    ∃ d buckets, runOps twoBuckets [.update (.fin 0), .update (.fin 3), .update (.fin 0)] = some d ∧
      getBuckets d = some buckets ∧ ∃ index : ℚ → Nat, ∀ percent, 0 ≤ percent → percent ≤ 100 →
        ∃ bucket, buckets[index percent]? = some bucket ∧
          FirstReaching Bucket.count buckets (rank 3 percent) (index percent) ∧
          distributionPercentile (some d) (.fin percent) = some bucket.maximum := by
  have count : recordedCount 0 [.update (.fin 0), .update (.fin 3), .update (.fin 0)] = 3 := by decide +kernel
  obtain ⟨d, buckets, run, listed, _, _, index, scan, _⟩ := percentile_is_linear_scan twoBuckets
    [⟨0, .fin 1⟩, ⟨0, .posInf⟩] [.update (.fin 0), .update (.fin 3), .update (.fin 0)] twoBuckets_constructed
    (by decide +kernel) (by rw [count]; decide) (by rw [count]; decide)
  rw [count] at scan
  exact ⟨d, buckets, run, listed, index, scan⟩

theorem recordedCount_steadyUpdates (count before : Nat) :
    recordedCount before (steadyUpdates count) = before + count := by
  induction count generalizing before with
  | zero => rfl
  | succ count ih =>
    have accepted : (Double.fin 0).less (.fin 0) = false := by simp [Double.less]
    rw [steadyUpdates, List.replicate_succ, recordedCount, ← steadyUpdates, ih, accepted]
    simp only [Bool.false_eq_true, if_false]
    omega

/-- After 2⁶⁴ values the total is zero; and with a NaN as bucket size the percentiles are not monotone. -/
theorem percentile_wraps :
    (recordedCount 0 (steadyUpdates (2 ^ 64)) = 2 ^ 64 ∧ ∃ d, runOps twoBuckets (steadyUpdates (2 ^ 64)) = some d ∧
      distributionPercentile (some d) (.fin 50) = some .nan) ∧
    ∃ d d', distributionNewLinear 2 .nan = some (.ok d) ∧ distributionUpdate d (.fin 3) = some (0, d') ∧
      distributionPercentile (some d') (.fin 0) = some .nan ∧
      distributionPercentile (some d') (.fin 100) = some .posInf ∧ Double.nan.lessEq .posInf = false := by
  refine ⟨⟨by rw [recordedCount_steadyUpdates, zero_add], ?_⟩, ?_⟩
  · obtain ⟨d, tree, run, counts⟩ := steadyUpdates_counts (2 ^ 64)
    have total : d.root.counter = 0 := by
      rw [counts.encodes.root, counts.total, List.length_replicate]
      rfl
    refine ⟨d, run, ?_⟩
    rw [distributionPercentile, if_neg (by simp [Double.less]; norm_num), if_pos total]
  · refine ⟨⟨[⟨0, .posInf⟩, ⟨0, .nan⟩, ⟨0, .posInf⟩], 2, .fin 0, .fin 0, by decide, rfl⟩,
      ⟨[⟨1, .posInf⟩, ⟨0, .nan⟩, ⟨1, .posInf⟩], 2, .fin 3, .fin 9, by decide, rfl⟩, ?_, ?_, ?_, ?_, rfl⟩
    all_goals decide +kernel

end NCollectd
