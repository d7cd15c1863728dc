import NCollectd.Distribution.Model
import NCollectd.Base.EulerTour

/-! The array of a distribution is the Euler tour of a summed tree over its buckets. -/

namespace NCollectd

open EulerTour List Option
open scoped UInt64.CommRing

abbrev BucketTree := SegTree Bucket

/-- The array holds the tour of a summed tree over all the buckets. -/
structure Encodes (d : Distribution) (tree : BucketTree) : Prop where
  cells : d.tree = tree.tour
  covers : Covers 0 (d.numBuckets - 1) tree
  summed : tree.Summed mergeBuckets

theorem Encodes.root (encodes : Encodes d tree) : d.root = tree.root := by
  rw [← head_tour tree]
  simp only [Distribution.root, encodes.cells]

theorem Encodes.leaves_length (encodes : Encodes d tree) : tree.leaves.length = d.numBuckets := by
  have positive := d.positive
  rw [encodes.covers.leaves_length]
  omega

theorem childIndices (covers : Covers first ((first + last) / 2) left)
    (before : List Bucket) (top : Bucket) :
    leftChildIndex before.length first last = (before ++ [top]).length ∧
      rightChildIndex before.length first last = (before ++ [top] ++ left.tour).length := by
  have cells := covers.tour_length
  simp only [leftChildIndex, rightChildIndex, length_append, length_singleton, true_and]
  omega

theorem store_root (before cells after : List Bucket) (old bucket : Bucket) :
    store (before ++ (old :: cells) ++ after) before.length bucket =
      some (before ++ (bucket :: cells) ++ after) := by
  rw [store, if_pos (by simp)]
  simp

theorem cell_root (tree : BucketTree) (before after : List Bucket) (same : index = before.length) :
    (before ++ tree.tour ++ after)[index]? = some tree.root :=
  same ▸ getElem?_root tree before after

theorem child_slices (buckets : List α) (lower : first ≤ middle) (upper : middle < last) :
    (buckets.drop first).take (middle - first + 1) ++ (buckets.drop (middle + 1)).take (last - (middle + 1) + 1) =
      (buckets.drop first).take (last - first + 1) := by
  have rest : buckets.drop (middle + 1) = (buckets.drop first).drop (middle - first + 1) := by
    rw [drop_drop]
    congr 1
    omega
  have total : last - first + 1 = (middle - first + 1) + (last - (middle + 1) + 1) := by omega
  rw [rest, total]
  exact take_add.symm

theorem buildTree_node {buckets before cells more after : List Bucket}
    (proper : left < right) (covers : Covers left ((left + right) / 2) first)
    (first_built : buildTree (before ++ [top] ++ cells ++ (more ++ after)) buckets (before ++ [top]).length
      left ((left + right) / 2) = some (before ++ [top] ++ first.tour ++ (more ++ after)))
    (second_built : buildTree (before ++ [top] ++ first.tour ++ more ++ after) buckets
      (before ++ [top] ++ first.tour).length ((left + right) / 2 + 1) right =
        some (before ++ [top] ++ first.tour ++ second.tour ++ after)) :
    buildTree (before ++ top :: (cells ++ more) ++ after) buckets before.length left right =
      some (before ++ (SegTree.node (mergeBuckets first.root second.root) first second).tour ++ after) := by
  obtain ⟨left_index, right_index⟩ := childIndices covers before top
  have whole : before ++ top :: (cells ++ more) ++ after = before ++ [top] ++ cells ++ (more ++ after) := by
    simp
  have left_cell : (before ++ [top] ++ first.tour ++ second.tour ++ after)[(before ++ [top]).length]? =
      some first.root := by
    rw [append_assoc _ second.tour]
    exact cell_root first (before ++ [top]) (second.tour ++ after) rfl
  have right_cell := cell_root second (before ++ [top] ++ first.tour) after rfl
  have last_store := store_root before (first.tour ++ second.tour) after top
    (mergeBuckets first.root second.root)
  unfold buildTree
  rw [if_neg (Nat.not_lt_of_lt proper), if_neg (ne_of_lt proper)]
  dsimp only
  rw [left_index, right_index, whole, first_built, bind_some, ← append_assoc _ more,
    second_built, bind_some, left_cell, bind_some, right_cell, bind_some]
  simpa [SegTree.tour] using last_store

theorem buildTree_spec (buckets : List Bucket) (count : Nat) :
    ∀ (before cells after : List Bucket) (left right : Nat), right - left = count → left ≤ right →
      right < buckets.length → cells.length = 2 * (right - left + 1) - 1 →
      ∃ tree, Covers left right tree ∧ tree.Summed mergeBuckets ∧
        tree.leaves = (buckets.drop left).take (right - left + 1) ∧
        buildTree (before ++ cells ++ after) buckets before.length left right =
          some (before ++ tree.tour ++ after) := by
  induction count using Nat.strong_induction_on with
  | _ count ih =>
    intro before cells after left right size ordered inside length
    obtain ⟨top, below, rfl⟩ := exists_cons_of_length_pos (show 0 < cells.length by omega)
    rcases Nat.eq_or_lt_of_le ordered with same | proper
    · subst right
      have empty : below = [] := length_eq_zero_iff.mp (by simpa using length)
      refine ⟨.leaf buckets[left], .leaf left _, trivial, ?_, ?_⟩
      · simp [SegTree.leaves, take_one_drop_eq_of_lt_length inside]
      · unfold buildTree
        rw [if_neg (lt_irrefl _), if_pos rfl, getElem?_eq_getElem inside, bind_some,
          store_root, empty]
        rfl
    · have middle_lower : left ≤ (left + right) / 2 := by omega
      have middle_upper : (left + right) / 2 < right := by omega
      obtain ⟨cells, more, split, left_size, right_size⟩ : ∃ cells more, below = cells ++ more ∧
          cells.length = 2 * ((left + right) / 2 - left + 1) - 1 ∧
          more.length = 2 * (right - ((left + right) / 2 + 1) + 1) - 1 := by
        simp only [length_cons] at length
        refine ⟨below.take (2 * ((left + right) / 2 - left + 1) - 1), _, (take_append_drop _ _).symm, ?_, ?_⟩
        · rw [length_take]
          omega
        · rw [length_drop]
          omega
      obtain ⟨first, first_covers, first_summed, first_leaves, first_built⟩ :=
        ih _ (by omega) (before ++ [top]) cells (more ++ after) left ((left + right) / 2) rfl
          middle_lower (by omega) left_size
      obtain ⟨second, second_covers, second_summed, second_leaves, second_built⟩ :=
        ih _ (by omega) (before ++ [top] ++ first.tour) more after ((left + right) / 2 + 1) right rfl
          (by omega) inside right_size
      refine ⟨.node (mergeBuckets first.root second.root) first second,
        .node _ proper first_covers second_covers, ⟨rfl, first_summed, second_summed⟩, ?_, ?_⟩
      · rw [SegTree.leaves, first_leaves, second_leaves]
        exact child_slices buckets middle_lower middle_upper
      · rw [split]
        exact buildTree_node proper first_covers first_built second_built

theorem buildDistribution_encodes (positive : 0 < numBuckets) (buckets : List Bucket)
    (length : buckets.length = numBuckets) :
    ∃ d tree, buildDistributionFromBucketArray numBuckets positive buckets = some d ∧
      d.numBuckets = numBuckets ∧ Encodes d tree ∧ tree.leaves = buckets := by
  obtain ⟨tree, covers, summed, leaves, built⟩ := buildTree_spec buckets (numBuckets - 1) []
    (zeroed (treeSize numBuckets)) [] 0 (numBuckets - 1) (by omega) (by omega) (by omega)
    (by simp only [zeroed, length_replicate, treeSize]; omega)
  simp only [nil_append, append_nil, length_nil] at built
  unfold buildDistributionFromBucketArray
  split
  · rename_i failed
    rw [built] at failed
    cases failed
  · rename_i cells done
    obtain rfl : tree.tour = cells := some.inj (built.symm.trans done)
    refine ⟨_, tree, rfl, rfl, ⟨rfl, covers, summed⟩, ?_⟩
    rw [leaves, drop_zero]
    exact take_of_length_le (by omega)

def countPath (gauge : Double) : BucketTree → BucketTree
  | .leaf bucket => .leaf (countOne bucket)
  | .node bucket left right =>
    if gauge.less left.root.maximum then .node (countOne bucket) (countPath gauge left) right
    else .node (countOne bucket) left (countPath gauge right)

theorem updateTree_spec (gauge : Double) (covers : Covers left right tree)
    (before after : List Bucket) :
    updateTree (before ++ tree.tour ++ after) before.length left right gauge =
      some (before ++ (countPath gauge tree).tour ++ after) := by
  induction covers generalizing before after with
  | leaf position bucket =>
    unfold updateTree
    rw [if_neg (lt_irrefl _), getElem?_root, bind_some, SegTree.tour, store_root, bind_some,
      if_pos rfl]
    rfl
  | @node first last left right bucket proper first_covers second_covers left_update right_update =>
    obtain ⟨left_index, right_index⟩ := childIndices first_covers before (countOne bucket)
    have whole : before ++ countOne bucket :: (left.tour ++ right.tour) ++ after =
        before ++ [countOne bucket] ++ left.tour ++ (right.tour ++ after) := by simp
    unfold updateTree
    rw [if_neg (Nat.not_lt_of_lt proper), getElem?_root, bind_some, SegTree.tour, store_root,
      bind_some, if_neg (ne_of_lt proper)]
    dsimp only [SegTree.root]
    rw [left_index, whole, cell_root left _ _ rfl, bind_some, countPath]
    split
    · rw [left_update]
      simp [SegTree.tour]
    · have shifted : before ++ [countOne bucket] ++ left.tour ++ (right.tour ++ after) =
          before ++ [countOne bucket] ++ left.tour ++ right.tour ++ after := by simp
      rw [right_index, shifted, right_update]
      simp [SegTree.tour]

theorem root_countPath (gauge : Double) (tree : BucketTree) :
    (countPath gauge tree).root = countOne tree.root := by
  cases tree with
  | leaf => rfl
  | node bucket left right =>
    unfold countPath
    split <;> rfl

theorem covers_countPath (gauge : Double) (covers : Covers first last tree) :
    Covers first last (countPath gauge tree) := by
  induction covers with
  | leaf position bucket => exact .leaf position _
  | node bucket proper before after left_covers right_covers =>
    unfold countPath
    split
    · exact .node _ proper left_covers after
    · exact .node _ proper before right_covers

theorem merge_countOne_left (a b : Bucket) :
    mergeBuckets (countOne a) b = countOne (mergeBuckets a b) := by
  simp only [mergeBuckets, countOne, Bucket.mk.injEq, and_true]
  ring

theorem merge_countOne_right (a b : Bucket) :
    mergeBuckets a (countOne b) = countOne (mergeBuckets a b) := by
  simp only [mergeBuckets, countOne, Bucket.mk.injEq, and_true]
  ring

theorem summed_countPath (gauge : Double) (summed : tree.Summed mergeBuckets) :
    (countPath gauge tree).Summed mergeBuckets := by
  induction tree with
  | leaf => trivial
  | node bucket left right left_summed right_summed =>
    obtain ⟨top, first, second⟩ := summed
    unfold countPath
    split
    · exact ⟨by rw [root_countPath, merge_countOne_left, ← top], left_summed first, second⟩
    · exact ⟨by rw [root_countPath, merge_countOne_right, ← top], first, right_summed second⟩

theorem Encodes.update {gauge} (encodes : Encodes d tree) (accepted : gauge.less (.fin 0) = false) :
    ∃ next, distributionUpdate d gauge = some (0, next) ∧ next.numBuckets = d.numBuckets ∧
      Encodes next (countPath gauge tree) := by
  have updated := updateTree_spec gauge encodes.covers [] []
  simp only [nil_append, append_nil, length_nil] at updated
  unfold distributionUpdate
  rw [if_neg (by simp [accepted])]
  split
  · rename_i failed
    rw [encodes.cells, updated] at failed
    cases failed
  · rename_i cells done
    rw [encodes.cells, updated] at done
    cases done
    exact ⟨_, rfl, rfl, rfl, covers_countPath gauge encodes.covers, summed_countPath gauge encodes.summed⟩

theorem Encodes.reset (encodes : Encodes d tree) : Encodes (distributionReset d) (tree.map clearCounter) where
  cells := by rw [tour_map, ← encodes.cells]; rfl
  covers := encodes.covers.map clearCounter
  summed := Summed.map encodes.summed clearCounter fun _ _ => by simp [clearCounter, mergeBuckets]

theorem treeWriteLeaveBuckets_spec (covers : Covers left right tree)
    (before after out : List Bucket) (room : right < out.length) :
    treeWriteLeaveBuckets (before ++ tree.tour ++ after) out before.length left right =
      some (out.take left ++ tree.leaves ++ out.drop (right + 1)) := by
  induction covers generalizing before after out with
  | leaf position bucket =>
    unfold treeWriteLeaveBuckets
    rw [if_neg (lt_irrefl _), if_pos rfl, getElem?_root, bind_some, store, if_pos room]
    simp [SegTree.root, SegTree.leaves, set_eq_take_append_cons_drop, room]
  | @node first last left right bucket proper first_covers second_covers left_written right_written =>
    obtain ⟨left_index, right_index⟩ := childIndices first_covers before bucket
    have count := first_covers.leaves_length
    have prefix_length : (out.take first ++ left.leaves).length = (first + last) / 2 + 1 := by
      rw [length_append, length_take, count]
      omega
    unfold treeWriteLeaveBuckets
    rw [if_neg (Nat.not_lt_of_lt proper), if_neg (ne_of_lt proper)]
    dsimp only
    rw [left_index, right_index, tour_node, left_written _ _ _ (by omega), bind_some, ← append_assoc _ right.tour]
    rw [right_written]
    · have beyond : (out.take first ++ left.leaves ++ out.drop ((first + last) / 2 + 1)).drop (last + 1) =
          out.drop (last + 1) := by
        rw [drop_append, prefix_length, drop_of_length_le (by omega), nil_append,
          drop_drop]
        congr 1
        omega
      rw [take_left' prefix_length, beyond, SegTree.leaves]
      simp
    · rw [length_append, prefix_length, length_drop]
      omega

theorem Encodes.getBuckets_eq (encodes : Encodes d tree) : getBuckets d = some tree.leaves := by
  have positive := d.positive
  have written := treeWriteLeaveBuckets_spec encodes.covers [] [] (zeroed d.numBuckets)
    (by simp only [zeroed, length_replicate]; omega)
  simp only [nil_append, append_nil, length_nil, take_zero] at written
  rw [getBuckets, encodes.cells, written, drop_of_length_le, append_nil]
  simp only [zeroed, length_replicate]
  omega

end NCollectd
