import NCollectd.Distribution.Tree

namespace NCollectd

open EulerTour List
open scoped UInt64.CommRing

def treeNodes (node left right : Nat) : List (Nat × Nat × Nat) :=
  if left < right then
    let mid := (left + right) / 2
    (node, left, right) :: (treeNodes (leftChildIndex node left right) left mid ++
      treeNodes (rightChildIndex node left right) (mid + 1) right)
  else [(node, left, right)]
termination_by right - left

/-- The nodes use every cell once; an inner node has its children's sum and its right child's maximum. -/
structure SegmentTree (d : Distribution) : Prop where
  cells : (treeNodes 0 0 (d.numBuckets - 1)).map Prod.fst = range (treeSize d.numBuckets)
  sums : ∀ node left right, (node, left, right) ∈ treeNodes 0 0 (d.numBuckets - 1) → left < right →
    ∃ parent first second, d.tree[node]? = some parent ∧
      d.tree[leftChildIndex node left right]? = some first ∧
      d.tree[rightChildIndex node left right]? = some second ∧
      parent.counter = first.counter + second.counter ∧ parent.maximum = second.maximum

theorem treeNodes_cells (node : Nat) (ordered : left ≤ right) :
    (treeNodes node left right).map Prod.fst = range' node (2 * (right - left + 1) - 1) := by
  fun_induction treeNodes node left right with
  | case1 node left right proper mid left_cells right_cells =>
    have parts : 2 * (right - left + 1) - 1 =
        ((2 * ((left + right) / 2 - left + 1) - 1) + (2 * (right - ((left + right) / 2 + 1) + 1) - 1)) + 1 := by
      omega
    have next : rightChildIndex node left right = node + 1 + (2 * ((left + right) / 2 - left + 1) - 1) := by
      simp only [rightChildIndex]
      omega
    rw [map_cons, map_append, left_cells (by omega), right_cells (by omega), parts,
      range'_succ, next, leftChildIndex]
    exact congrArg _ range'_append_1
  | case2 node left right leaf =>
    obtain rfl : left = right := by omega
    simp

theorem node_sums (covers : Covers left right tree)
    (summed : tree.Summed mergeBuckets) (before after : List Bucket) :
    ∀ node first last, (node, first, last) ∈ treeNodes before.length left right → first < last →
      ∃ parent one two, (before ++ tree.tour ++ after)[node]? = some parent ∧
        (before ++ tree.tour ++ after)[leftChildIndex node first last]? = some one ∧
        (before ++ tree.tour ++ after)[rightChildIndex node first last]? = some two ∧
        parent.counter = one.counter + two.counter ∧ parent.maximum = two.maximum := by
  induction covers generalizing before after with
  | leaf position bucket =>
    intro node first last member proper
    unfold treeNodes at member
    rw [if_neg (lt_irrefl _), mem_singleton] at member
    obtain ⟨rfl, rfl, rfl⟩ := member
    exact absurd proper (lt_irrefl _)
  | @node low high left right bucket proper first_covers second_covers left_sums right_sums =>
    intro node first last member inner
    obtain ⟨top, left_summed, right_summed⟩ := summed
    obtain ⟨left_index, right_index⟩ := childIndices first_covers before bucket
    unfold treeNodes at member
    rw [if_pos proper] at member
    rcases mem_cons.mp member with root | below
    · obtain ⟨rfl, rfl, rfl⟩ : node = before.length ∧ first = low ∧ last = high := by simpa using root
      refine ⟨bucket, left.root, right.root, getElem?_root _ _ _, ?_, ?_, ?_⟩
      · rw [left_index, tour_node, getElem?_root]
      · rw [right_index, tour_node, ← append_assoc _ right.tour, getElem?_root]
      · rw [top]
        exact ⟨rfl, rfl⟩
    · rcases mem_append.mp below with inLeft | inRight
      · rw [left_index] at inLeft
        rw [tour_node]
        exact left_sums left_summed _ _ node first last inLeft inner
      · rw [right_index] at inRight
        rw [tour_node, ← append_assoc _ right.tour]
        exact right_sums right_summed _ _ node first last inRight inner

theorem Encodes.segmentTree (encodes : Encodes d tree) : SegmentTree d where
  cells := by
    have positive := d.positive
    rw [treeNodes_cells 0 (Nat.zero_le _), range_eq_range', treeSize]
    congr 1
    omega
  sums := by
    have sums := node_sums encodes.covers encodes.summed [] []
    simpa only [nil_append, append_nil, length_nil, ← encodes.cells] using sums

def countLeaf (gauge : Double) : List Bucket → List Bucket
  | [] => []
  | bucket :: rest =>
    if rest.isEmpty || gauge.less bucket.maximum then countOne bucket :: rest
    else bucket :: countLeaf gauge rest

theorem countLeaf_append_left {gauge}
    (reached : ∃ bucket ∈ first, gauge.less bucket.maximum = true) (second : List Bucket) :
    countLeaf gauge (first ++ second) = countLeaf gauge first ++ second := by
  induction first with
  | nil => simp at reached
  | cons bucket rest ih =>
    by_cases below : gauge.less bucket.maximum = true
    · simp [countLeaf, below]
    · obtain ⟨other, member, above⟩ := reached
      have inRest : other ∈ rest := by
        rcases mem_cons.mp member with same | inRest
        · exact absurd (same ▸ above) below
        · exact inRest
      have nonempty : rest ≠ [] := ne_nil_of_mem inRest
      simp [countLeaf, below, nonempty, ih ⟨other, inRest, above⟩]

theorem countLeaf_append_right {gauge}
    (passed : ∀ bucket ∈ first, gauge.less bucket.maximum = false) (nonempty : second ≠ []) :
    countLeaf gauge (first ++ second) = first ++ countLeaf gauge second := by
  induction first with
  | nil => rfl
  | cons bucket rest ih =>
    have here := passed bucket mem_cons_self
    have later := ih fun other member => passed other (mem_cons_of_mem _ member)
    simp [countLeaf, here, nonempty, later]

def Increasing (bounds : List Double) : Prop := bounds.Pairwise fun a b => a.less b = true

theorem less_last {gauge : Double} (increasing : Increasing bounds) (top : bounds.getLast? = some last)
    (member : bound ∈ bounds) (below : gauge.less bound = true) : gauge.less last = true := by
  obtain ⟨front, rfl⟩ := getLast?_eq_some_iff.mp top
  rcases mem_append.mp member with inFront | same
  · have greater := (pairwise_append.mp increasing).2.2 bound inFront last (by simp)
    exact Double.less_trans below greater
  · rwa [← mem_singleton.mp same]

theorem leaves_countPath (gauge : Double) (summed : tree.Summed mergeBuckets)
    (increasing : Increasing (tree.leaves.map Bucket.maximum)) :
    (countPath gauge tree).leaves = countLeaf gauge tree.leaves := by
  induction tree with
  | leaf bucket => rfl
  | node bucket left right left_leaves right_leaves =>
    obtain ⟨_, left_summed, right_summed⟩ := summed
    rw [SegTree.leaves, map_append, Increasing, pairwise_append] at increasing
    have top := Summed.root_last left_summed Bucket.maximum fun _ _ => rfl
    obtain ⟨last, last_member, last_maximum⟩ := mem_map.mp (mem_of_getLast? top)
    unfold countPath
    split
    · rename_i below
      rw [SegTree.leaves, SegTree.leaves, left_leaves left_summed increasing.1]
      exact (countLeaf_append_left ⟨last, last_member, last_maximum ▸ below⟩ _).symm
    · rename_i above
      rw [SegTree.leaves, SegTree.leaves, right_leaves right_summed increasing.2.1]
      symm
      apply countLeaf_append_right
      · intro other member
        by_contra reached
        apply above
        exact less_last increasing.1 top (mem_map_of_mem member) (by simpa using reached)
      · exact leaves_ne_nil right

def lowerBound (low : Double) (bounds : List Double) : Nat → Double
  | 0 => low
  | i + 1 => bounds[i]?.getD .nan

def inBucket (low : Double) (bounds : List Double) (i : Nat) (value : Double) : Bool :=
  (lowerBound low bounds i).lessEq value && (i + 1 = bounds.length || value.less (bounds[i]?.getD .nan))

def bucketIndex (value : Double) : List Double → Nat
  | [] => 0
  | bound :: rest => if rest.isEmpty || value.less bound then 0 else bucketIndex value rest + 1

theorem bucketIndex_lt (value : Double) (nonempty : bounds ≠ []) : bucketIndex value bounds < bounds.length := by
  induction bounds with
  | nil => exact absurd rfl nonempty
  | cons bound rest ih =>
    unfold bucketIndex
    split
    · simp
    · rename_i further
      have more : rest ≠ [] := by
        intro empty
        simp [empty] at further
      simpa using ih more

theorem inBucket_iff (ordered : value ≠ .nan) (increasing : Increasing bounds)
    (above : low.lessEq value = true) (inside : i < bounds.length) :
    inBucket low bounds i value = true ↔ bucketIndex value bounds = i := by
  induction bounds generalizing low i with
  | nil => cases inside
  | cons bound rest ih =>
    obtain ⟨first_below, rest_increasing⟩ := pairwise_cons.mp increasing
    unfold bucketIndex
    by_cases stop : (rest.isEmpty || value.less bound) = true
    · rw [if_pos stop]
      cases i with
      | zero =>
        simp only [Bool.or_eq_true, List.isEmpty_iff] at stop
        rcases stop with empty | below
        · simp [inBucket, lowerBound, above, empty]
        · simp [inBucket, lowerBound, above, below]
      | succ i =>
        have some_rest : rest ≠ [] := by
          intro empty
          simp [empty] at inside
        have below : value.less bound = true := by simpa [some_rest] using stop
        have lower : value.less ((bound :: rest)[i]?.getD .nan) = true := by
          cases i with
          | zero => simpa using below
          | succ i =>
            have within : i < rest.length := by simp only [length_cons] at inside; omega
            rw [getElem?_cons_succ, getElem?_eq_getElem within]
            exact Double.less_trans below (first_below _ (getElem_mem within))
        simp [inBucket, lowerBound, Double.not_lessEq_of_less lower]
    · rw [if_neg stop]
      simp only [Bool.or_eq_true, List.isEmpty_iff, not_or, Bool.not_eq_true] at stop
      cases i with
      | zero =>
        simp [inBucket, stop.1, stop.2]
      | succ i =>
        obtain ⟨next, more, rfl⟩ := List.exists_cons_of_ne_nil stop.1
        have bounded : bound ≠ .nan := by
          rintro rfl
          have less := first_below next (by simp)
          simp [Double.less] at less
        have beyond : bound.lessEq value = true := by
          rw [Double.lessEq_eq_not_less bounded ordered, stop.2]
          rfl
        have shifted : inBucket low (bound :: next :: more) (i + 1) value =
            inBucket bound (next :: more) i value := by
          cases i <;> simp [inBucket, lowerBound]
        rw [shifted, ih rest_increasing beyond (by simpa using inside)]
        simp

theorem getElem?_countLeaf (gauge : Double) (buckets : List Bucket) (i : Nat) :
    (countLeaf gauge buckets)[i]? = buckets[i]?.map fun bucket =>
      if bucketIndex gauge (buckets.map Bucket.maximum) = i then countOne bucket else bucket := by
  induction buckets generalizing i with
  | nil => simp [countLeaf]
  | cons bucket rest ih =>
    have empty : (rest.map Bucket.maximum).isEmpty = rest.isEmpty := by cases rest <;> rfl
    unfold countLeaf
    rw [map_cons, bucketIndex, empty]
    by_cases stop : (rest.isEmpty || gauge.less bucket.maximum) = true
    · rw [if_pos stop, if_pos stop]
      cases i with
      | zero | succ i => simp
    · rw [if_neg stop, if_neg stop]
      cases i with
      | zero => simp
      | succ i => simpa using ih i

end NCollectd
