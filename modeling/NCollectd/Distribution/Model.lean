import NCollectd.Base.Libc
import NCollectd.Base.Double

/-! `distribution.c`: a histogram whose buckets are the leaves of a segment tree in one array. -/

namespace NCollectd

open Option List

/-- `bucket_t`. -/
structure Bucket where
  counter : UInt64
  maximum : Double
deriving DecidableEq

def leftChildIndex (node _left _right : Nat) : Nat := node + 1

def rightChildIndex (node left right : Nat) : Nat :=
  let mid := (left + right) / 2
  node + 2 * (mid - left + 1)

def treeSize (numBuckets : Nat) : Nat := 2 * numBuckets - 1

/-- `distribution_t`: the array always has the size for the number of buckets. -/
structure Distribution where
  tree : List Bucket
  numBuckets : Nat
  totalSum : Double
  totalSquareSum : Double
  positive : 0 < numBuckets
  sized : tree.length = treeSize numBuckets
deriving DecidableEq

theorem Distribution.tree_ne_nil (d : Distribution) : d.tree ≠ [] := by
  intro empty
  have size := d.sized
  have positive := d.positive
  rw [empty, treeSize, length_nil] at size
  omega

/-- `d->tree[0]`. -/
def Distribution.root (d : Distribution) : Bucket := d.tree.head d.tree_ne_nil

def mergeBuckets (left right : Bucket) : Bucket := ⟨left.counter + right.counter, right.maximum⟩

def store (cells : List Bucket) (index : Nat) (bucket : Bucket) : Option (List Bucket) :=
  if index < cells.length then some (cells.set index bucket) else none

def buildTree (tree buckets : List Bucket) (node left right : Nat) : Option (List Bucket) :=
  if right < left then some tree
  else if left = right then buckets[left]?.bind (store tree node)
  else
    let mid := (left + right) / 2
    let leftChild := leftChildIndex node left right
    let rightChild := rightChildIndex node left right
    (buildTree tree buckets leftChild left mid).bind fun tree =>
      (buildTree tree buckets rightChild (mid + 1) right).bind fun tree =>
        tree[leftChild]?.bind fun first =>
          tree[rightChild]?.bind fun second => store tree node (mergeBuckets first second)
termination_by right - left

theorem store_length {next} (stored : store cells index bucket = some next) : next.length = cells.length := by
  unfold store at stored
  split at stored
  · cases stored
    exact length_set
  · cases stored

theorem buildTree_length {next} (built : buildTree tree buckets node left right = some next) :
    next.length = tree.length := by
  fun_induction buildTree tree buckets node left right generalizing next with
  | case1 => rw [some.inj built]
  | case2 tree node left right =>
    obtain ⟨bucket, _, stored⟩ := bind_eq_some_iff.mp built
    exact store_length stored
  | case3 =>
    rename_i first_length second_length
    obtain ⟨middle, first, built⟩ := bind_eq_some_iff.mp built
    obtain ⟨last, second, built⟩ := bind_eq_some_iff.mp built
    obtain ⟨_, _, built⟩ := bind_eq_some_iff.mp built
    obtain ⟨_, _, stored⟩ := bind_eq_some_iff.mp built
    rw [store_length stored, second_length middle second, first_length first]

def zeroed (count : Nat) : List Bucket := replicate count ⟨0, .fin 0⟩

def buildDistributionFromBucketArray (numBuckets : Nat) (positive : 0 < numBuckets)
    (buckets : List Bucket) : Option Distribution :=
  match built : buildTree (zeroed (treeSize numBuckets)) buckets 0 0 (numBuckets - 1) with
  | none => none
  | some tree =>
    some ⟨tree, numBuckets, .fin 0, .fin 0, positive, by simp [buildTree_length built, zeroed]⟩

def emptyBucket (numBuckets : Nat) (maximum : Nat → Double) (i : Nat) : Bucket :=
  ⟨0, if i = numBuckets - 1 then .posInf else maximum i⟩

def emptyBuckets (numBuckets : Nat) (maximum : Nat → Double) : List Bucket :=
  (range numBuckets).map (emptyBucket numBuckets maximum)

def distributionNewLinear (numBuckets : Nat) (size : Double) : Option (Except Status Distribution) :=
  if invalid : numBuckets = 0 ∨ size.lessEq (.fin 0) then some (.error EINVAL)
  else
    (buildDistributionFromBucketArray numBuckets (by omega)
      (emptyBuckets numBuckets fun i => (Double.ofNat (i + 1)).mul size)).map .ok

def distributionNewExponential (numBuckets : Nat) (base factor : Double) :
    Option (Except Status Distribution) :=
  if invalid : numBuckets = 0 ∨ base.lessEq (.fin 1) ∨ factor.lessEq (.fin 0) then some (.error EINVAL)
  else
    (buildDistributionFromBucketArray numBuckets (by omega)
      (emptyBuckets numBuckets fun i => factor.mul (base.pow i))).map .ok

def unorderedBoundaries (previous : Double) : List Double → Bool
  | [] => false
  | boundary :: rest => boundary.lessEq previous || unorderedBoundaries boundary rest

def distributionNewCustom (boundaries : List Double) : Option (Except Status Distribution) :=
  if unorderedBoundaries (.fin 0) boundaries then some (.error EINVAL)
  else if boundaries.getLast?.any fun last => last.same .posInf then some (.error EINVAL)
  else
    (buildDistributionFromBucketArray (boundaries.length + 1) (Nat.succ_pos _)
      (emptyBuckets (boundaries.length + 1) fun i => boundaries.getD i .nan)).map .ok

def distributionClone (dist : Option Distribution) : Option Distribution :=
  dist.map fun dist => { dist with }

@[simp]
theorem distributionClone_eq (dist : Option Distribution) : distributionClone dist = dist := by
  cases dist <;> rfl

def countOne (bucket : Bucket) : Bucket := { bucket with counter := bucket.counter + 1 }

def updateTree (tree : List Bucket) (node left right : Nat) (gauge : Double) : Option (List Bucket) :=
  if right < left then some tree
  else
    (tree[node]?.bind fun bucket => store tree node (countOne bucket)).bind fun tree =>
      if left = right then some tree
      else
        let mid := (left + right) / 2
        let leftChild := leftChildIndex node left right
        let rightChild := rightChildIndex node left right
        tree[leftChild]?.bind fun child =>
          if gauge.less child.maximum then updateTree tree leftChild left mid gauge
          else updateTree tree rightChild (mid + 1) right gauge
termination_by right - left

theorem updateTree_length {gauge next} (updated : updateTree tree node left right gauge = some next) :
    next.length = tree.length := by
  fun_induction updateTree tree node left right gauge generalizing next with
  | case1 => rw [some.inj updated]
  | case2 tree node left right =>
    rename_i left_length right_length
    obtain ⟨counted, stored, updated⟩ := bind_eq_some_iff.mp updated
    obtain ⟨bucket, _, stored⟩ := bind_eq_some_iff.mp stored
    rw [← store_length stored]
    split at updated
    · rw [some.inj updated]
    · rename_i inner
      obtain ⟨child, _, updated⟩ := bind_eq_some_iff.mp updated
      split at updated
      · exact left_length _ inner updated
      · exact right_length _ inner updated

def distributionUpdate (dist : Distribution) (gauge : Double) : Option (Status × Distribution) :=
  if gauge.less (.fin 0) then some (EINVAL, dist)
  else
    match updated : updateTree dist.tree 0 0 (dist.numBuckets - 1) gauge with
    | none => none
    | some tree =>
      some (0, ⟨tree, dist.numBuckets, dist.totalSum.add gauge, dist.totalSquareSum.add (gauge.mul gauge),
        dist.positive, (updateTree_length updated).trans dist.sized⟩)

def treeGetCounter (tree : List Bucket) (node left right : Nat) (counter : UInt64) : Option Double :=
  if right < left then some .nan
  else if left = right then tree[node]?.map Bucket.maximum
  else
    let mid := (left + right) / 2
    let leftChild := leftChildIndex node left right
    let rightChild := rightChildIndex node left right
    tree[leftChild]?.bind fun child =>
      if counter ≤ child.counter then treeGetCounter tree leftChild left mid counter
      else treeGetCounter tree rightChild (mid + 1) right (counter - child.counter)
termination_by right - left

def ceilCounter : Double → Option UInt64
  | .fin value => some (UInt64.ofNat ⌈value⌉₊)
  | _ => none

def distributionPercentile (dist : Option Distribution) (percent : Double) : Option Double :=
  if percent.less (.fin 0) || (Double.fin 100).less percent then some .nan
  else
    match dist with
    | none => some .nan
    | some dist =>
      if dist.root.counter = 0 then some .nan
      else
        (ceilCounter (((Double.ofNat dist.root.counter.toNat).mul percent).div (.fin 100))).bind
          (treeGetCounter dist.tree 0 0 (dist.numBuckets - 1))

def treeWriteLeaveBuckets (tree out : List Bucket) (node left right : Nat) : Option (List Bucket) :=
  if right < left then some out
  else if left = right then tree[node]?.bind (store out left)
  else
    let mid := (left + right) / 2
    (treeWriteLeaveBuckets tree out (leftChildIndex node left right) left mid).bind fun out =>
      treeWriteLeaveBuckets tree out (rightChildIndex node left right) (mid + 1) right
termination_by right - left

def getBuckets (dist : Distribution) : Option (List Bucket) :=
  treeWriteLeaveBuckets dist.tree (zeroed dist.numBuckets) 0 0 (dist.numBuckets - 1)

def distributionTotalCounter (dist : Distribution) : UInt64 := dist.root.counter

def clearCounter (bucket : Bucket) : Bucket := { bucket with counter := 0 }

def distributionReset (dist : Distribution) : Distribution :=
  { dist with
    tree := dist.tree.map clearCounter
    totalSum := .fin 0
    totalSquareSum := .fin 0
    sized := by rw [length_map, dist.sized] }

def compareUint64 (a b : UInt64) : Int := if a = b then 0 else if a < b then -1 else 1

def compareCells (cells : Bucket × Bucket) : Int := compareUint64 cells.1.counter cells.2.counter

def distributionCmp (d1 d2 : Option Distribution) : Except Status Int :=
  match d1, d2 with
  | some d1, some d2 =>
    if d1.numBuckets ≠ d2.numBuckets then .error EINVAL
    else if (d1.tree.zip d2.tree).any fun cells => !cells.1.maximum.same cells.2.maximum then .error EINVAL
    else
      let result := compareUint64 d1.root.counter d2.root.counter
      if (d1.tree.zip d2.tree).tail.any fun cells => compareCells cells ≠ 0 && compareCells cells ≠ result then
        .error ERANGE
      else .ok result
  | _, _ => .error EINVAL

def subtractCell (a b : Bucket) : Bucket := { a with counter := a.counter - b.counter }

def subtractCells (d1 d2 : Distribution) (same : d1.numBuckets = d2.numBuckets) : Distribution :=
  { d1 with
    tree := zipWith subtractCell d1.tree d2.tree
    totalSum := d1.totalSum.sub d2.totalSum
    totalSquareSum := d1.totalSquareSum.sub d2.totalSquareSum
    sized := by rw [length_zipWith, d1.sized, d2.sized, same, Nat.min_self] }

def distributionSub (d1 d2 : Option Distribution) : Status × Option Distribution :=
  let cmpResult : Int := 0
  let cmpStatus : Status :=
    match distributionCmp d1 d2 with
    | .error status => status
    | .ok _ => 0
  if cmpStatus ≠ 0 ∨ cmpResult = -1 then (if cmpResult = -1 then ERANGE else cmpStatus, d1)
  else
    match d1, d2 with
    | some d1, some d2 =>
      if same : d1.numBuckets = d2.numBuckets then (0, some (subtractCells d1 d2 same)) else (EINVAL, some d1)
    | d1, _ => (EINVAL, d1)

end NCollectd
