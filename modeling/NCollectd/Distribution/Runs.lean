import NCollectd.Distribution.Counting

namespace NCollectd

open EulerTour Option
open scoped UInt64.CommRing

/-- One call on a distribution; a clone goes on in place of its original. -/
inductive DistributionOp where
  | update (gauge : Double)
  | reset
  | clone
deriving DecidableEq

def DistributionOp.apply (d : Distribution) : DistributionOp → Option Distribution
  | update gauge => (distributionUpdate d gauge).map Prod.snd
  | reset => some (distributionReset d)
  | clone => distributionClone (some d)

/-- The value of an update is ordered and not negative. -/
def DistributionOp.Accepted : DistributionOp → Prop
  | update gauge => gauge ≠ .nan ∧ gauge.less (.fin 0) = false
  | _ => True

def runOps (d : Distribution) : List DistributionOp → Option Distribution
  | [] => some d
  | op :: rest => (op.apply d).bind fun d => runOps d rest

def valuesSinceReset (values : List Double) : List DistributionOp → List Double
  | [] => values
  | .update gauge :: rest => valuesSinceReset (gauge :: values) rest
  | .reset :: rest => valuesSinceReset [] rest
  | .clone :: rest => valuesSinceReset values rest

def tally (bounds values : List Double) (i : Nat) : Nat := values.countP (inBucket (.fin 0) bounds i)

/-- What the tree of a distribution holds after updates with the given values. -/
structure Counts (d : Distribution) (bounds values : List Double) (tree : BucketTree) : Prop where
  encodes : Encodes d tree
  maxima : tree.leaves.map Bucket.maximum = bounds
  counters : ∀ i bucket, tree.leaves[i]? = some bucket →
    bucket.counter = UInt64.ofNat (tally bounds values i)
  total : tree.root.counter = UInt64.ofNat values.length

theorem nonneg_of_accepted {gauge} (ordered : gauge ≠ .nan)
    (accepted : gauge.less (.fin 0) = false) : (Double.fin 0).lessEq gauge = true := by
  rw [Double.lessEq_eq_not_less (by simp) ordered, accepted]
  rfl

theorem Counts.update {gauge} (counts : Counts d bounds values tree) (increasing : Increasing bounds)
    (ordered : gauge ≠ .nan) (accepted : gauge.less (.fin 0) = false) :
    ∃ next, distributionUpdate d gauge = some (0, next) ∧ next.numBuckets = d.numBuckets ∧
      Counts next bounds (gauge :: values) (countPath gauge tree) := by
  obtain ⟨next, updated, size, encodes⟩ := counts.encodes.update accepted
  have leaves := leaves_countPath gauge counts.encodes.summed (counts.maxima ▸ increasing)
  refine ⟨next, updated, size, encodes, ?_, ?_, ?_⟩
  · rw [← counts.maxima, leaves]
    apply List.ext_getElem?
    intro i
    simp only [List.getElem?_map, getElem?_countLeaf, map_map]
    congr 1
    funext bucket
    dsimp
    split <;> rfl
  · intro i bucket found
    rw [leaves, getElem?_countLeaf, counts.maxima] at found
    obtain ⟨before, stored, rfl⟩ := map_eq_some_iff.mp found
    have inside : i < bounds.length := by
      rw [← counts.maxima, List.length_map]
      exact (List.getElem?_eq_some_iff.mp stored).1
    have range := inBucket_iff ordered increasing (nonneg_of_accepted ordered accepted) inside
    have previous := counts.counters i before stored
    by_cases reached : bucketIndex gauge bounds = i
    · rw [if_pos reached, tally, List.countP_cons, if_pos (range.mpr reached), UInt64.ofNat_add, countOne,
        previous]
      rfl
    · rw [if_neg reached, tally, List.countP_cons, if_neg (fun within => reached (range.mp within)), previous]
      rfl
  · rw [root_countPath, List.length_cons, UInt64.ofNat_add, countOne, counts.total]
    rfl

theorem Counts.reset (counts : Counts d bounds values tree) :
    Counts (distributionReset d) bounds [] (tree.map clearCounter) where
  encodes := counts.encodes.reset
  maxima := by
    rw [leaves_map, List.map_map, ← counts.maxima]
    rfl
  counters := by
    intro i bucket found
    rw [leaves_map, List.getElem?_map] at found
    obtain ⟨before, _, rfl⟩ := map_eq_some_iff.mp found
    rfl
  total := by
    rw [root_map]
    rfl

/-- A run counts the values since the last reset, and never leaves the array. -/
theorem Counts.run (counts : Counts d bounds values tree) (increasing : Increasing bounds)
    (accepted : ∀ op ∈ ops, DistributionOp.Accepted op) :
    ∃ next tree', runOps d ops = some next ∧ next.numBuckets = d.numBuckets ∧
      Counts next bounds (valuesSinceReset values ops) tree' := by
  induction ops generalizing d values tree with
  | nil => exact ⟨d, tree, rfl, rfl, counts⟩
  | cons op rest ih =>
    have later : ∀ op ∈ rest, DistributionOp.Accepted op := fun op member =>
      accepted op (List.mem_cons_of_mem _ member)
    cases op with
    | update gauge =>
      obtain ⟨ordered, nonneg⟩ := accepted _ List.mem_cons_self
      obtain ⟨middle, updated, size, counted⟩ := counts.update increasing ordered nonneg
      obtain ⟨next, tree', run, same, final⟩ := ih counted later
      exact ⟨next, tree', by simpa [runOps, DistributionOp.apply, updated] using run, same.trans size, final⟩
    | reset =>
      obtain ⟨next, tree', run, same, final⟩ := ih counts.reset later
      exact ⟨next, tree', run, same, final⟩
    | clone =>
      obtain ⟨next, tree', run, same, final⟩ := ih counts later
      exact ⟨next, tree', run, same, final⟩

/-- Made by one of the three constructors. -/
def Constructed (d : Distribution) : Prop :=
  (∃ numBuckets size, distributionNewLinear numBuckets size = some (.ok d)) ∨
    (∃ numBuckets base factor, distributionNewExponential numBuckets base factor = some (.ok d)) ∨
      ∃ boundaries, distributionNewCustom boundaries = some (.ok d)

theorem built_counts
    (built : (buildDistributionFromBucketArray numBuckets positive (emptyBuckets numBuckets maximum)).map
      (Except.ok : Distribution → Except Status Distribution) = some (.ok d)) :
    ∃ tree, tree.leaves = emptyBuckets numBuckets maximum ∧ d.numBuckets = numBuckets ∧
      Counts d (tree.leaves.map Bucket.maximum) [] tree := by
  obtain ⟨made, tree, done, size, encodes, leaves⟩ := buildDistribution_encodes positive
    (emptyBuckets numBuckets maximum) (by simp [emptyBuckets])
  rw [done] at built
  cases built
  have zero : ∀ bucket ∈ tree.leaves, bucket.counter = 0 := by
    intro bucket member
    rw [leaves] at member
    obtain ⟨i, _, rfl⟩ := List.mem_map.mp member
    rfl
  refine ⟨tree, leaves, size, encodes, rfl, ?_, ?_⟩
  · intro i bucket found
    exact zero bucket (List.mem_of_getElem? found)
  · rw [Summed.root_sum encodes.summed Bucket.counter fun _ _ => rfl]
    apply List.sum_eq_zero
    intro counter member
    obtain ⟨bucket, present, rfl⟩ := List.mem_map.mp member
    exact zero bucket present

theorem Constructed.counts (constructed : Constructed d) :
    ∃ tree, Counts d (tree.leaves.map Bucket.maximum) [] tree := by
  rcases constructed with ⟨numBuckets, size, made⟩ | ⟨numBuckets, base, factor, made⟩ | ⟨boundaries, made⟩
  · unfold distributionNewLinear at made
    split at made
    · cases made
    · obtain ⟨tree, _, _, counts⟩ := built_counts made
      exact ⟨tree, counts⟩
  · unfold distributionNewExponential at made
    split at made
    · cases made
    · obtain ⟨tree, _, _, counts⟩ := built_counts made
      exact ⟨tree, counts⟩
  · unfold distributionNewCustom at made
    split at made
    · cases made
    · split at made
      · cases made
      · obtain ⟨tree, _, _, counts⟩ := built_counts made
        exact ⟨tree, counts⟩

theorem unorderedBoundaries_eq_false (increasing : Increasing (previous :: boundaries)) :
    unorderedBoundaries previous boundaries = false := by
  induction boundaries generalizing previous with
  | nil => rfl
  | cons boundary rest ih =>
    obtain ⟨above, rest_increasing⟩ := List.pairwise_cons.mp increasing
    rw [unorderedBoundaries, Double.not_lessEq_of_less (above boundary List.mem_cons_self), ih rest_increasing]
    rfl

theorem emptyBuckets_maxima (boundaries : List Double) :
    (emptyBuckets (boundaries.length + 1) fun i => boundaries.getD i .nan).map Bucket.maximum =
      boundaries ++ [.posInf] := by
  apply List.ext_getElem?
  intro i
  rw [emptyBuckets, List.map_map, List.getElem?_map]
  rcases Nat.lt_trichotomy i boundaries.length with inside | last | outside
  · rw [List.getElem?_range (by omega), List.getElem?_append_left inside, List.getElem?_eq_getElem inside]
    simp [emptyBucket, ne_of_lt inside, inside]
  · rw [List.getElem?_range (by omega), last]
    simp [emptyBucket]
  · rw [List.getElem?_eq_none (by rwa [List.length_range]),
      List.getElem?_eq_none (by rwa [List.length_append])]
    rfl

theorem distributionNewCustom_accepts (increasing : Increasing (.fin 0 :: (boundaries ++ [.posInf]))) :
    ∃ d initial, distributionNewCustom boundaries = some (.ok d) ∧ getBuckets d = some initial ∧
      d.numBuckets = boundaries.length + 1 ∧ initial.map Bucket.maximum = boundaries ++ [.posInf] := by
  have ordered : Increasing (.fin 0 :: boundaries) := List.Pairwise.sublist (by simp) increasing
  have below : ∀ boundary ∈ boundaries, boundary.less .posInf = true := fun boundary member =>
    (List.pairwise_append.mp (List.pairwise_cons.mp increasing).2).2.2 boundary member .posInf (by simp)
  have finite : (boundaries.getLast?.any fun last => last.same .posInf) = false := by
    cases top : boundaries.getLast? with
    | none => rfl
    | some last =>
      have less := below last (List.mem_of_getLast? top)
      cases last <;> simp_all [Double.same, Double.less]
  obtain ⟨d, tree, built, size, encodes, leaves⟩ := buildDistribution_encodes (Nat.succ_pos boundaries.length)
    (emptyBuckets (boundaries.length + 1) fun i => boundaries.getD i .nan) (by simp [emptyBuckets])
  refine ⟨d, tree.leaves, ?_, encodes.getBuckets_eq, size, ?_⟩
  · rw [distributionNewCustom, unorderedBoundaries_eq_false ordered, finite, built]
    rfl
  · rw [leaves, emptyBuckets_maxima]

theorem sum_indicator (chosen count : Nat) (inside : chosen < count) :
    ((List.range count).map fun i => if chosen = i then 1 else 0).sum = 1 := by
  induction count with
  | zero => cases inside
  | succ count ih =>
    rw [List.range_succ, List.map_append, List.sum_append]
    by_cases last : chosen = count
    · subst last
      have others : ((List.range chosen).map fun i => if chosen = i then 1 else 0).sum = 0 := by
        apply List.sum_eq_zero
        intro term member
        obtain ⟨i, inRange, rfl⟩ := List.mem_map.mp member
        rw [if_neg (ne_of_gt (List.mem_range.mp inRange))]
      simp [others]
    · rw [ih (lt_of_le_of_ne (Nat.le_of_lt_succ inside) last)]
      simp [last]

theorem sum_tally (increasing : Increasing bounds) (nonempty : bounds ≠ [])
    (accepted : ∀ value ∈ values, value ≠ .nan ∧ Double.less value (.fin 0) = false) :
    ((List.range bounds.length).map (tally bounds values)).sum = values.length := by
  induction values with
  | nil =>
    apply List.sum_eq_zero
    intro term member
    obtain ⟨i, _, rfl⟩ := List.mem_map.mp member
    rfl
  | cons value rest ih =>
    obtain ⟨ordered, nonneg⟩ := accepted value List.mem_cons_self
    have remaining := ih fun value member => accepted value (List.mem_cons_of_mem _ member)
    have split : (List.range bounds.length).map (tally bounds (value :: rest)) =
        (List.range bounds.length).map fun i =>
          tally bounds rest i + if bucketIndex value bounds = i then 1 else 0 := by
      apply List.map_congr_left
      intro i member
      have range := inBucket_iff ordered increasing (nonneg_of_accepted ordered nonneg)
        (List.mem_range.mp member)
      rw [tally, List.countP_cons]
      congr 1
      simp only [range]
    rw [split, List.sum_map_add, remaining, sum_indicator _ _ (bucketIndex_lt value nonempty), List.length_cons]

theorem valuesSinceReset_accepted
    (earlier : ∀ value ∈ values, value ≠ .nan ∧ Double.less value (.fin 0) = false)
    (accepted : ∀ op ∈ ops, DistributionOp.Accepted op) :
    ∀ value ∈ valuesSinceReset values ops, value ≠ .nan ∧ Double.less value (.fin 0) = false := by
  induction ops generalizing values with
  | nil => exact earlier
  | cons op rest ih =>
    have later : ∀ op ∈ rest, DistributionOp.Accepted op := fun op member =>
      accepted op (List.mem_cons_of_mem _ member)
    cases op with
    | update gauge =>
      apply ih _ later
      intro value member
      rcases List.mem_cons.mp member with rfl | old
      · exact accepted _ List.mem_cons_self
      · exact earlier value old
    | reset => exact ih (by simp) later
    | clone => exact ih earlier later

/-- The counters are the numbers of values in the buckets' ranges, and their sum is the total counter. -/
def CountsExactly (d : Distribution) (buckets : List Bucket) (values : List Double) : Prop :=
  (∀ i bucket, buckets[i]? = some bucket →
    bucket.counter.toNat = tally (buckets.map Bucket.maximum) values i) ∧
  (buckets.map fun bucket => bucket.counter.toNat).sum = (distributionTotalCounter d).toNat

/-- The same in the arithmetic of the counters, modulo 2⁶⁴. -/
def CountsModulo (d : Distribution) (buckets : List Bucket) (values : List Double) : Prop :=
  (∀ i bucket, buckets[i]? = some bucket →
    bucket.counter.toNat = tally (buckets.map Bucket.maximum) values i % 2 ^ 64) ∧
  (buckets.map Bucket.counter).sum = distributionTotalCounter d

theorem Counts.modulo (counts : Counts d bounds values tree) :
    CountsModulo d tree.leaves values := by
  refine ⟨?_, ?_⟩
  · intro i bucket found
    rw [counts.counters i bucket found, counts.maxima, UInt64.toNat_ofNat']
  · rw [distributionTotalCounter, counts.encodes.root,
      Summed.root_sum counts.encodes.summed Bucket.counter fun _ _ => rfl]

theorem Counts.exactly (counts : Counts d bounds values tree) (increasing : Increasing bounds)
    (accepted : ∀ value ∈ values, value ≠ .nan ∧ Double.less value (.fin 0) = false)
    (few : values.length < 2 ^ 64) : CountsExactly d tree.leaves values := by
  have counters : ∀ i bucket, tree.leaves[i]? = some bucket →
      bucket.counter.toNat = tally bounds values i := by
    intro i bucket found
    rw [counts.counters i bucket found, UInt64.toNat_ofNat']
    exact Nat.mod_eq_of_lt (lt_of_le_of_lt List.countP_le_length few)
  have length : tree.leaves.length = bounds.length := by rw [← counts.maxima, List.length_map]
  refine ⟨by rwa [counts.maxima], ?_⟩
  have listed : (tree.leaves.map fun bucket => bucket.counter.toNat) =
      (List.range bounds.length).map (tally bounds values) := by
    apply List.ext_getElem?
    intro i
    rw [List.getElem?_map, List.getElem?_map]
    by_cases inside : i < tree.leaves.length
    · rw [List.getElem?_eq_getElem inside, List.getElem?_range (length ▸ inside), map_some,
        map_some, counters i _ (List.getElem?_eq_getElem inside)]
    · rw [List.getElem?_eq_none (le_of_not_gt inside), List.getElem?_eq_none]
      · rfl
      · rw [List.length_range, ← length]
        exact le_of_not_gt inside
  have nonempty : bounds ≠ [] := by
    rw [← counts.maxima]
    simpa using leaves_ne_nil tree
  rw [listed, sum_tally increasing nonempty accepted, distributionTotalCounter, counts.encodes.root,
    counts.total, UInt64.toNat_ofNat', Nat.mod_eq_of_lt few]

/-- Every run stays in the array, keeps the segment tree and counts the values since the last reset modulo 2⁶⁴. -/
theorem distribution_counts_updates (d₀ : Distribution) (initial : List Bucket) (ops : List DistributionOp)
    (constructed : Constructed d₀) (made : getBuckets d₀ = some initial)
    (increasing : Increasing (initial.map Bucket.maximum)) (accepted : ∀ op ∈ ops, op.Accepted) :
    ∃ d buckets, runOps d₀ ops = some d ∧ SegmentTree d ∧ getBuckets d = some buckets ∧
      buckets.length = d₀.numBuckets ∧ buckets.map Bucket.maximum = initial.map Bucket.maximum ∧
      CountsModulo d buckets (valuesSinceReset [] ops) ∧
      ((valuesSinceReset [] ops).length < 2 ^ 64 → CountsExactly d buckets (valuesSinceReset [] ops)) := by
  obtain ⟨tree₀, start⟩ := constructed.counts
  obtain rfl : tree₀.leaves = initial := some.inj (start.encodes.getBuckets_eq.symm.trans made)
  obtain ⟨d, tree, run, size, counts⟩ := start.run increasing accepted
  have values := valuesSinceReset_accepted (List.forall_mem_nil _) accepted
  refine ⟨d, tree.leaves, run, counts.encodes.segmentTree, counts.encodes.getBuckets_eq, ?_, counts.maxima,
    counts.modulo, counts.exactly increasing values⟩
  rw [counts.encodes.leaves_length, size]

def twoBuckets : Distribution where
  tree := [⟨0, .posInf⟩, ⟨0, .fin 1⟩, ⟨0, .posInf⟩]
  numBuckets := 2
  totalSum := .fin 0
  totalSquareSum := .fin 0
  positive := by decide
  sized := rfl

theorem twoBuckets_constructed : Constructed twoBuckets :=
  .inr (.inr ⟨[.fin 1], by decide +kernel⟩)

theorem twoBuckets_initial : getBuckets twoBuckets = some [⟨0, .fin 1⟩, ⟨0, .posInf⟩] := by
  decide +kernel

theorem twoBuckets_increasing : Increasing [.fin 1, .posInf] := by
  simp [Increasing, Double.less]

theorem distribution_counts_updates_two :
    ∃ d buckets, runOps twoBuckets [.update (.fin 3), .reset, .update (.fin 0), .clone, .update (.fin 1)] = some d ∧
      SegmentTree d ∧ getBuckets d = some buckets ∧ buckets.length = 2 ∧
      buckets.map Bucket.maximum = [.fin 1, .posInf] ∧ CountsModulo d buckets [.fin 1, .fin 0] ∧
      (2 < 2 ^ 64 → CountsExactly d buckets [.fin 1, .fin 0]) := by
  apply distribution_counts_updates twoBuckets _ _ twoBuckets_constructed twoBuckets_initial twoBuckets_increasing
  simp [DistributionOp.Accepted, Double.less]

def steadyUpdates (count : Nat) : List DistributionOp := List.replicate count (.update (.fin 0))

theorem valuesSinceReset_steadyUpdates (count : Nat) (values : List Double) :
    valuesSinceReset values (steadyUpdates count) = List.replicate count (.fin 0) ++ values := by
  induction count generalizing values with
  | zero => rfl
  | succ count ih =>
    rw [steadyUpdates, List.replicate_succ, valuesSinceReset, ← steadyUpdates, ih, List.replicate_succ',
      List.append_assoc]
    rfl

theorem steadyUpdates_accepted (count : Nat) : ∀ op ∈ steadyUpdates count, op.Accepted := by
  intro op member
  rw [List.eq_of_mem_replicate member]
  simp [DistributionOp.Accepted, Double.less]

theorem steadyUpdates_counts (count : Nat) :
    ∃ d tree, runOps twoBuckets (steadyUpdates count) = some d ∧
      Counts d [.fin 1, .posInf] (List.replicate count (.fin 0)) tree := by
  obtain ⟨tree₀, start⟩ := twoBuckets_constructed.counts
  have bounds : tree₀.leaves.map Bucket.maximum = [.fin 1, .posInf] := by
    rw [some.inj (start.encodes.getBuckets_eq.symm.trans twoBuckets_initial)]
    rfl
  rw [bounds] at start
  obtain ⟨d, tree, run, _, counts⟩ := start.run twoBuckets_increasing (steadyUpdates_accepted count)
  rw [valuesSinceReset_steadyUpdates, List.append_nil] at counts
  exact ⟨d, tree, run, counts⟩

theorem steadyUpdates_inexact (many : 2 ^ 64 ≤ count) :
    ∃ d buckets, runOps twoBuckets (steadyUpdates count) = some d ∧ getBuckets d = some buckets ∧
      ¬ CountsExactly d buckets (valuesSinceReset [] (steadyUpdates count)) := by
  obtain ⟨d, tree, run, counts⟩ := steadyUpdates_counts count
  refine ⟨d, tree.leaves, run, counts.encodes.getBuckets_eq, ?_⟩
  intro exactly
  obtain ⟨bucket, rest, leaves⟩ := List.exists_cons_of_ne_nil (leaves_ne_nil tree)
  have counter := exactly.1 0 bucket (by rw [leaves]; rfl)
  have first : inBucket (.fin 0) [.fin 1, .posInf] 0 (.fin 0) = true := by decide +kernel
  rw [counts.maxima, valuesSinceReset_steadyUpdates, List.append_nil, tally, List.countP_replicate,
    if_pos first] at counter
  exact absurd bucket.counter.toNat_lt (by rw [counter]; exact not_lt.mpr many)

theorem distribution_counter_wraps :
    Constructed twoBuckets ∧ (∀ op ∈ steadyUpdates (2 ^ 64), op.Accepted) ∧
      ∃ d buckets, runOps twoBuckets (steadyUpdates (2 ^ 64)) = some d ∧ getBuckets d = some buckets ∧
        ¬ CountsExactly d buckets (valuesSinceReset [] (steadyUpdates (2 ^ 64))) :=
  ⟨twoBuckets_constructed, steadyUpdates_accepted _, steadyUpdates_inexact (le_refl _)⟩

end NCollectd
