import NCollectd.Distribution.Runs

/-! `distribution_sub` on reachable distributions. -/

namespace NCollectd

open EulerTour List
open scoped UInt64.CommRing

/-- What the calls on distributions make from the constructors. -/
inductive Distribution.Reachable : Distribution → Prop where
  | constructed (made : Constructed d) : Reachable d
  | update {next} (gauge : Double) (before : Reachable d) (done : distributionUpdate d gauge = some (status, next)) :
      Reachable next
  | reset (before : Reachable d) : Reachable (distributionReset d)
  | clone (before : Reachable d) (copied : distributionClone (some d) = some copy) : Reachable copy
  | sub {next} (before : Reachable d) (other : Reachable e)
      (done : distributionSub (some d) (some e) = (status, some next)) : Reachable next

/-- The bounds agree: as many buckets, and equal maxima in the sense of the C operator `==`. -/
def SameBounds (first second : List Bucket) : Prop :=
  List.Forall₂ (fun a b => a.maximum.same b.maximum = true) first second

/-- Every counter of the first is at least the counter of the second. -/
def Dominates (first second : List Bucket) : Prop :=
  List.Forall₂ (fun a b => b.counter ≤ a.counter) first second

instance : Decidable (SameBounds first second) := inferInstanceAs (Decidable (List.Forall₂ _ _ _))

instance : Decidable (Dominates first second) := inferInstanceAs (Decidable (List.Forall₂ _ _ _))

/-- No node of the trees compares in the direction opposite to the roots. -/
def Comparable (d1 d2 : Distribution) : Prop :=
  List.Forall₂ (fun a b => compareCells (a, b) = 0 ∨
    compareCells (a, b) = compareUint64 d1.root.counter d2.root.counter) d1.tree d2.tree

theorem numBuckets_eq_of_tree_length (d1 d2 : Distribution) (same : d1.tree.length = d2.tree.length) :
    d1.numBuckets = d2.numBuckets := by
  rw [d1.sized, d2.sized, treeSize, treeSize] at same
  omega

theorem any_zip_eq_false (length : first.length = second.length)
    (p : Bucket × Bucket → Bool) :
    (first.zip second).any p = false ↔ List.Forall₂ (fun a b => p (a, b) = false) first second := by
  rw [forall₂_iff_zip, any_eq_false]
  simp [length]

theorem any_zip_tail (d1 d2 : Distribution) (p : Bucket × Bucket → Bool)
    (top : p (d1.root, d2.root) = false) :
    (d1.tree.zip d2.tree).tail.any p = (d1.tree.zip d2.tree).any p := by
  obtain ⟨root, rest, cells⟩ := exists_cons_of_ne_nil d1.tree_ne_nil
  obtain ⟨root', rest', cells'⟩ := exists_cons_of_ne_nil d2.tree_ne_nil
  have same : d1.root = root := by simp [Distribution.root, cells]
  have same' : d2.root = root' := by simp [Distribution.root, cells']
  rw [same, same'] at top
  rw [cells, cells', zip_cons_cons, tail_cons, any_cons, top, Bool.false_or]

theorem distributionCmp_cases (d1 d2 : Distribution) :
    (¬ SameBounds d1.tree d2.tree ∧ distributionCmp (some d1) (some d2) = .error EINVAL) ∨
      SameBounds d1.tree d2.tree ∧
        (¬ Comparable d1 d2 ∧ distributionCmp (some d1) (some d2) = .error ERANGE ∨
          Comparable d1 d2 ∧ ∃ result, distributionCmp (some d1) (some d2) = .ok result) := by
  by_cases count : d1.numBuckets = d2.numBuckets
  · have length : d1.tree.length = d2.tree.length := by rw [d1.sized, d2.sized, count]
    have bounds := any_zip_eq_false length fun cells => !cells.1.maximum.same cells.2.maximum
    simp only [Bool.not_eq_false'] at bounds
    have order := any_zip_eq_false length fun cells => decide (compareCells cells ≠ 0) &&
      decide (compareCells cells ≠ compareUint64 d1.root.counter d2.root.counter)
    simp only [Bool.and_eq_false_imp, decide_eq_true_eq, decide_eq_false_iff_not, not_not,
      ← or_iff_not_imp_left] at order
    rw [← any_zip_tail d1 d2 _ (by simp [compareCells])] at order
    simp only [distributionCmp, if_neg (not_not.mpr count)]
    split
    · rename_i differ
      exact .inl ⟨fun same => Bool.false_ne_true ((bounds.mpr same).symm.trans differ), rfl⟩
    · rename_i agree
      refine .inr ⟨bounds.mp ((Bool.not_eq_true _).mp agree), ?_⟩
      split
      · rename_i opposite
        exact .inl ⟨fun comparable => Bool.false_ne_true ((order.mpr comparable).symm.trans opposite), rfl⟩
      · rename_i aligned
        exact .inr ⟨order.mp ((Bool.not_eq_true _).mp aligned), _, rfl⟩
  · left
    refine ⟨?_, by simp [distributionCmp, count]⟩
    intro same
    exact count (numBuckets_eq_of_tree_length d1 d2 same.length_eq)

theorem distributionSub_cases (d1 d2 : Distribution) :
    (¬ SameBounds d1.tree d2.tree ∧ distributionSub (some d1) (some d2) = (EINVAL, some d1)) ∨
      SameBounds d1.tree d2.tree ∧
        (¬ Comparable d1 d2 ∧ distributionSub (some d1) (some d2) = (ERANGE, some d1) ∨
          Comparable d1 d2 ∧
            ∃ same, distributionSub (some d1) (some d2) = (0, some (subtractCells d1 d2 same))) := by
  rcases distributionCmp_cases d1 d2 with ⟨differ, compared⟩ | ⟨bounds, ⟨opposite, compared⟩ | ⟨aligned, _, compared⟩⟩
  · exact .inl ⟨differ, by simp [distributionSub, compared, EINVAL]⟩
  · exact .inr ⟨bounds, .inl ⟨opposite, by simp [distributionSub, compared, ERANGE]⟩⟩
  · have count := numBuckets_eq_of_tree_length d1 d2 bounds.length_eq
    exact .inr ⟨bounds, .inr ⟨aligned, count, by simp [distributionSub, compared, count]⟩⟩

theorem subtract_merge (a b c d : Bucket) :
    subtractCell (mergeBuckets a b) (mergeBuckets c d) = mergeBuckets (subtractCell a c) (subtractCell b d) := by
  simp only [subtractCell, mergeBuckets, Bucket.mk.injEq, and_true]
  ring

theorem Encodes.subtract (encodes : Encodes d1 tree) (second : Encodes d2 other)
    (same : d1.numBuckets = d2.numBuckets) :
    Encodes (subtractCells d1 d2 same) (tree.zipWith subtractCell other) := by
  have covers := same ▸ second.covers
  refine ⟨?_, encodes.covers.zipWith covers _, ?_⟩
  · rw [encodes.covers.tour_zipWith covers, ← encodes.cells, ← second.cells]
    rfl
  · exact encodes.covers.zipWith_summed covers _ subtract_merge encodes.summed second.summed

theorem Distribution.Reachable.encodes (reachable : Distribution.Reachable d) : ∃ tree, Encodes d tree := by
  induction reachable with
  | constructed made =>
    obtain ⟨tree, counts⟩ := made.counts
    exact ⟨tree, counts.encodes⟩
  | @update d status next gauge before done encoded =>
    obtain ⟨tree, encodes⟩ := encoded
    cases refused : gauge.less (.fin 0) with
    | true =>
      simp only [distributionUpdate, refused, if_true, Option.some.injEq, Prod.mk.injEq] at done
      exact ⟨tree, done.2 ▸ encodes⟩
    | false =>
      obtain ⟨updated, result, _, encodes⟩ := encodes.update refused
      rw [result] at done
      cases done
      exact ⟨_, encodes⟩
  | reset before encoded =>
    obtain ⟨tree, encodes⟩ := encoded
    exact ⟨_, encodes.reset⟩
  | clone before copied encoded =>
    cases copied
    exact encoded
  | @sub d e status next before other done encoded encoded' =>
    obtain ⟨tree, encodes⟩ := encoded
    obtain ⟨tree', encodes'⟩ := encoded'
    rcases distributionSub_cases d e with ⟨_, result⟩ | ⟨_, ⟨_, result⟩ | ⟨_, same, result⟩⟩
    all_goals
      rw [result] at done
      cases done
    · exact ⟨tree, encodes⟩
    · exact ⟨tree, encodes⟩
    · exact ⟨_, encodes.subtract encodes' same⟩

theorem Encodes.same_numBuckets (encodes : Encodes d1 tree) (second : Encodes d2 other)
    (length : tree.leaves.length = other.leaves.length) : d1.numBuckets = d2.numBuckets := by
  rw [← encodes.leaves_length, ← second.leaves_length, length]

theorem Encodes.sameBounds_iff (encodes : Encodes d1 tree) (second : Encodes d2 other) :
    SameBounds d1.tree d2.tree ↔ SameBounds tree.leaves other.leaves := by
  constructor
  · intro same
    have covers := numBuckets_eq_of_tree_length d1 d2 same.length_eq ▸ second.covers
    rw [encodes.cells, second.cells] at same
    exact encodes.covers.leaves_related covers same
  · intro same
    have covers := encodes.same_numBuckets second same.length_eq ▸ second.covers
    rw [encodes.cells, second.cells]
    refine encodes.covers.tour_related covers ?_ encodes.summed second.summed same
    intro a b c d _ right
    exact right

theorem compareUint64_eq_zero : compareUint64 a b = 0 ↔ a = b := by
  unfold compareUint64
  split <;> simp_all
  split <;> simp

theorem compareUint64_eq_one : compareUint64 a b = 1 ↔ b < a := by
  unfold compareUint64
  grind

theorem compareUint64_eq_neg_one : compareUint64 a b = -1 ↔ a < b := by
  unfold compareUint64
  grind

theorem compareUint64_swap (a b : UInt64) : compareUint64 b a = -compareUint64 a b := by
  unfold compareUint64
  grind

theorem Comparable.symm (comparable : Comparable d1 d2) : Comparable d2 d1 := by
  refine List.Forall₂.flip (comparable.imp ?_)
  intro a b aligned
  simp only [flip, compareCells] at aligned ⊢
  rw [compareUint64_swap a.counter, compareUint64_swap d1.root.counter, neg_eq_zero, neg_inj]
  exact aligned

theorem exact_sums {tree : BucketTree} (summed : tree.Summed mergeBuckets)
    (fits : (tree.leaves.map fun bucket => bucket.counter.toNat).sum < 2 ^ 64) :
    (tree.map fun bucket => bucket.counter.toNat).Summed (· + ·) := by
  induction tree with
  | leaf => trivial
  | node bucket left right left_sums right_sums =>
    obtain ⟨top, left_summed, right_summed⟩ := summed
    rw [SegTree.leaves, map_append, sum_append] at fits
    have lefts := left_sums left_summed (by omega)
    have rights := right_sums right_summed (by omega)
    have left_total := Summed.root_sum lefts id fun _ _ => rfl
    have right_total := Summed.root_sum rights id fun _ _ => rfl
    simp only [root_map, leaves_map, map_id, id_eq] at left_total right_total
    refine ⟨?_, lefts, rights⟩
    rw [root_map, root_map, top]
    dsimp only [mergeBuckets]
    rw [UInt64.toNat_add, left_total, right_total]
    exact Nat.mod_eq_of_lt fits

section

variable (encodes : Encodes d1 tree) (second : Encodes d2 other)
include encodes second

theorem Encodes.comparable (fits : (tree.leaves.map fun bucket => bucket.counter.toNat).sum < 2 ^ 64)
    (fits' : (other.leaves.map fun bucket => bucket.counter.toNat).sum < 2 ^ 64)
    (dominates : Dominates tree.leaves other.leaves) : Comparable d1 d2 := by
  have covers := encodes.same_numBuckets second dominates.length_eq ▸ second.covers
  have sums := exact_sums encodes.summed fits
  have sums' := exact_sums second.summed fits'
  have below : List.Forall₂ (· ≤ ·) (other.map fun bucket => bucket.counter.toNat).leaves
      (tree.map fun bucket => bucket.counter.toNat).leaves := by
    rw [leaves_map, leaves_map, forall₂_map_left_iff, forall₂_map_right_iff]
    exact dominates.flip
  have cells := (covers.map _).tour_related (encodes.covers.map _) (fun _ _ _ _ => add_le_add) sums' sums below
  have roots := root_related cells
  rw [root_map, root_map] at roots
  unfold Comparable
  rw [encodes.root, second.root, encodes.cells, second.cells]
  by_cases equal : other.root.counter.toNat = tree.root.counter.toNat
  · have tours := (covers.map _).tour_eq_of_root_eq (encodes.covers.map _) sums' sums below
      (by rw [root_map, root_map, equal])
    rw [tour_map, tour_map, ← forall₂_eq_eq_eq, forall₂_map_left_iff, forall₂_map_right_iff] at tours
    refine List.Forall₂.flip (tours.imp ?_)
    intro b a same
    exact .inl (compareUint64_eq_zero.mpr (UInt64.toNat_inj.mp same.symm))
  · rw [tour_map, tour_map, forall₂_map_left_iff, forall₂_map_right_iff] at cells
    refine List.Forall₂.flip (cells.imp ?_)
    intro b a atMost
    have greater : other.root.counter < tree.root.counter :=
      UInt64.lt_iff_toNat_lt.mpr (Nat.lt_of_le_of_ne roots equal)
    rw [flip, compareUint64_eq_one.mpr greater]
    rcases Nat.eq_or_lt_of_le atMost with same | less
    · exact .inl (compareUint64_eq_zero.mpr (UInt64.toNat_inj.mp same.symm))
    · exact .inr (compareUint64_eq_one.mpr (UInt64.lt_iff_toNat_lt.mpr less))

theorem Encodes.dominated (comparable : Comparable d1 d2) (smaller : ¬ Dominates tree.leaves other.leaves) :
    Dominates other.leaves tree.leaves := by
  have covers := numBuckets_eq_of_tree_length d1 d2 comparable.length_eq ▸ second.covers
  have cells := comparable
  unfold Comparable at cells
  rw [encodes.cells, second.cells] at cells
  have leaves := encodes.covers.leaves_related covers cells
  have found : ∃ a b, (a, b) ∈ tree.leaves.zip other.leaves ∧ a.counter < b.counter := by
    by_contra none
    apply smaller
    rw [Dominates, forall₂_iff_zip]
    refine ⟨leaves.length_eq, ?_⟩
    intro a b member
    by_contra less
    exact none ⟨a, b, member, UInt64.not_le.mp less⟩
  obtain ⟨a, b, member, less⟩ := found
  have direction : compareUint64 d1.root.counter d2.root.counter = -1 := by
    rw [← compareUint64_eq_neg_one] at less
    rcases forall₂_zip leaves member with zero | same
    · rw [compareCells, less] at zero
      cases zero
    · rw [← same, compareCells, less]
  refine List.Forall₂.flip (leaves.imp ?_)
  intro a b aligned
  rw [direction] at aligned
  rcases aligned with zero | negative
  · exact UInt64.le_of_eq (compareUint64_eq_zero.mp zero)
  · exact UInt64.le_of_lt (compareUint64_eq_neg_one.mp negative)

theorem Encodes.compared_iff (fits : (tree.leaves.map fun bucket => bucket.counter.toNat).sum < 2 ^ 64)
    (fits' : (other.leaves.map fun bucket => bucket.counter.toNat).sum < 2 ^ 64) :
    (Dominates tree.leaves other.leaves ↔ Comparable d1 d2) ↔
      (Dominates other.leaves tree.leaves → Dominates tree.leaves other.leaves) := by
  constructor
  · intro compared below
    exact compared.mpr (second.comparable encodes fits' fits below).symm
  · intro condition
    refine ⟨encodes.comparable second fits fits', ?_⟩
    intro comparable
    by_contra smaller
    exact smaller (condition (encodes.dominated second comparable smaller))

end

/-- `distribution_sub` is exact or has no effect, for the given buckets of its operands. -/
structure SubExact (d1 d2 : Distribution) (first second : List Bucket) : Prop where
  exact : SameBounds first second → Dominates first second →
    ∃ d buckets, distributionSub (some d1) (some d2) = (0, some d) ∧ getBuckets d = some buckets ∧
      SegmentTree d ∧ buckets.map Bucket.maximum = first.map Bucket.maximum ∧
      buckets.map (fun bucket => bucket.counter.toNat) =
        zipWith (fun a b => a.counter.toNat - b.counter.toNat) first second
  smaller : SameBounds first second → ¬ Dominates first second →
    distributionSub (some d1) (some d2) = (ERANGE, some d1)
  mismatch : ¬ SameBounds first second → distributionSub (some d1) (some d2) = (EINVAL, some d1)

theorem maxima_subtract (length : first.length = second.length) :
    (zipWith subtractCell first second).map Bucket.maximum = first.map Bucket.maximum := by
  induction first generalizing second with
  | nil => rfl
  | cons bucket rest ih =>
    obtain ⟨other, others, rfl⟩ := exists_cons_of_length_eq_add_one length.symm
    rw [zipWith_cons_cons, map_cons, map_cons, ih (Nat.succ.inj length)]
    rfl

theorem counters_subtract (dominates : Dominates first second) :
    (zipWith subtractCell first second).map (fun bucket => bucket.counter.toNat) =
      zipWith (fun a b => a.counter.toNat - b.counter.toNat) first second := by
  induction dominates with
  | nil => rfl
  | @cons a b rest rest' atMost _ ih =>
    rw [zipWith_cons_cons, map_cons, ih, zipWith_cons_cons]
    exact congrArg (· :: _) (UInt64.toNat_sub_of_le _ _ atMost)

theorem Encodes.subExact_iff (encodes : Encodes d1 tree) (second : Encodes d2 other) :
    SubExact d1 d2 tree.leaves other.leaves ↔
      (SameBounds tree.leaves other.leaves → (Dominates tree.leaves other.leaves ↔ Comparable d1 d2)) := by
  rw [← encodes.sameBounds_iff second]
  have outcome := distributionSub_cases d1 d2
  constructor
  · intro correct same
    rcases outcome with ⟨differ, _⟩ | ⟨_, ⟨opposite, result⟩ | ⟨aligned, _, result⟩⟩
    · exact absurd same differ
    · refine iff_of_false ?_ opposite
      intro dominates
      obtain ⟨d, _, success, _⟩ := correct.exact ((encodes.sameBounds_iff second).mp same) dominates
      rw [result] at success
      cases congrArg Prod.fst success
    · refine iff_of_true ?_ aligned
      by_contra smaller
      have refused := correct.smaller ((encodes.sameBounds_iff second).mp same) smaller
      rw [result] at refused
      cases congrArg Prod.fst refused
  · intro condition
    rcases outcome with ⟨differ, result⟩ | ⟨same, ⟨opposite, result⟩ | ⟨aligned, count, result⟩⟩
    · exact ⟨fun same => absurd ((encodes.sameBounds_iff second).mpr same) differ,
        fun same => absurd ((encodes.sameBounds_iff second).mpr same) differ, fun _ => result⟩
    · exact ⟨fun _ dominates => absurd ((condition same).mp dominates) opposite, fun _ _ => result,
        fun differ => absurd ((encodes.sameBounds_iff second).mp same) differ⟩
    · have dominates := (condition same).mpr aligned
      have difference := encodes.subtract second count
      have covers := count ▸ second.covers
      refine ⟨fun _ _ => ?_, fun _ smaller => absurd dominates smaller,
        fun differ => absurd ((encodes.sameBounds_iff second).mp same) differ⟩
      refine ⟨_, _, result, difference.getBuckets_eq, difference.segmentTree, ?_, ?_⟩
      · rw [encodes.covers.leaves_zipWith covers, maxima_subtract dominates.length_eq]
      · rw [encodes.covers.leaves_zipWith covers, counters_subtract dominates]

/-- Domination of the buckets has to be what the comparison of the nodes reports. -/
theorem distribution_sub_exact_iff (d1 d2 : Distribution) (reachable : d1.Reachable)
    (reachable' : d2.Reachable) :
    ∃ first second, getBuckets d1 = some first ∧ getBuckets d2 = some second ∧
      (SubExact d1 d2 first second ↔
        (SameBounds first second → (Dominates first second ↔ Comparable d1 d2))) ∧
      ((first.map fun bucket => bucket.counter.toNat).sum < 2 ^ 64 →
        (second.map fun bucket => bucket.counter.toNat).sum < 2 ^ 64 →
        (SubExact d1 d2 first second ↔
          (SameBounds first second → Dominates second first → Dominates first second))) := by
  obtain ⟨tree, encodes⟩ := reachable.encodes
  obtain ⟨other, encodes'⟩ := reachable'.encodes
  have general := encodes.subExact_iff encodes'
  refine ⟨tree.leaves, other.leaves, encodes.getBuckets_eq, encodes'.getBuckets_eq, general, ?_⟩
  intro fits fits'
  rw [general, encodes.compared_iff encodes' fits fits']

def twoBucketsUpdated : Distribution where
  tree := [⟨1, .posInf⟩, ⟨1, .fin 1⟩, ⟨0, .posInf⟩]
  numBuckets := 2
  totalSum := .fin 0
  totalSquareSum := .fin 0
  positive := twoBuckets.positive
  sized := rfl

theorem twoBucketsUpdated_reachable : twoBucketsUpdated.Reachable :=
  .update (.fin 0) (.constructed twoBuckets_constructed)
    (show distributionUpdate twoBuckets (.fin 0) = some (0, twoBucketsUpdated) by decide +kernel)

theorem distribution_sub_exact_two :
    ∃ first second, getBuckets twoBucketsUpdated = some first ∧ getBuckets twoBuckets = some second ∧
      (SubExact twoBucketsUpdated twoBuckets first second ↔
        (SameBounds first second → (Dominates first second ↔ Comparable twoBucketsUpdated twoBuckets))) ∧
      ((first.map fun bucket => bucket.counter.toNat).sum < 2 ^ 64 →
        (second.map fun bucket => bucket.counter.toNat).sum < 2 ^ 64 →
        (SubExact twoBucketsUpdated twoBuckets first second ↔
          (SameBounds first second → Dominates second first → Dominates first second))) :=
  distribution_sub_exact_iff _ _ twoBucketsUpdated_reachable (.constructed twoBuckets_constructed)

theorem distribution_sub_smaller_wraps :
    twoBuckets.Reachable ∧ twoBucketsUpdated.Reachable ∧
      SameBounds [⟨0, .fin 1⟩, ⟨0, .posInf⟩] [⟨1, .fin 1⟩, ⟨0, .posInf⟩] ∧
      ¬ Dominates [⟨0, .fin 1⟩, ⟨0, .posInf⟩] [⟨1, .fin 1⟩, ⟨0, .posInf⟩] ∧
      getBuckets twoBuckets = some [⟨0, .fin 1⟩, ⟨0, .posInf⟩] ∧
      getBuckets twoBucketsUpdated = some [⟨1, .fin 1⟩, ⟨0, .posInf⟩] ∧
      (distributionSub (some twoBuckets) (some twoBucketsUpdated)).1 = 0 ∧
      (distributionSub (some twoBuckets) (some twoBucketsUpdated)).2.bind getBuckets =
        some [⟨18446744073709551615, .fin 1⟩, ⟨0, .posInf⟩] := by
  refine ⟨.constructed twoBuckets_constructed, twoBucketsUpdated_reachable, ?_⟩
  decide +kernel

end NCollectd
