import NCollectd.LabelSet.ArrayInvariant

namespace NCollectd.LabelSet

open List

def storeRecord (bytes : List MemVal) (index : Nat) (record : List MemVal) : List MemVal :=
  bytes.take (sizeofPair * index) ++ record ++ bytes.drop (sizeofPair * (index + 1))

def clonePair (src : LabelArray) (i : Nat) (ret : LabelArray) : Option LabelArray :=
  match pairName src i, pairValue src i with
  | some name, some value =>
    let (heap, nameAt) := ret.heap.alloc name
    let (heap, valueAt) := heap.alloc value
    some ⟨heap, storeRecord ret.ptr i (pairBytes nameAt valueAt), ret.num⟩
  | _, _ => none

def cloneLoop (src : LabelArray) : Nat → Option LabelArray
  | 0 => some ⟨.empty, replicate (sizeofPair * src.num) .undef, src.num⟩
  | i + 1 => (cloneLoop src i).bind (clonePair src i)

def labelSetClone (dest src : LabelArray) : Option (Status × LabelArray) :=
  if src.num = 0 then some (0, dest) else (cloneLoop src src.num).map fun ret => (0, ret)

/-- The first records of an array that is still being filled. -/
structure Filled (labels : LabelArray) (total : Nat) (cells : List Cell) : Prop where
  num : labels.num = total
  length : labels.ptr.length = sizeofPair * total
  bytes : labels.ptr.take (sizeofPair * cells.length) = cells.flatMap Cell.bytes
  live : ∀ cell ∈ cells, cell.Live labels.heap
  fresh : ∀ block ∈ cells.flatMap Cell.blocks, block < labels.heap.blocks.length
  distinct : (cells.flatMap Cell.blocks).Nodup

theorem pairBytes_length (nameAt valueAt : Block) : (pairBytes nameAt valueAt).length = sizeofPair := by
  simp [pairBytes, ptrBytes_length, sizeofPair, Nat.two_mul]

theorem Filled.pair (filled : Filled ret total cells) (room : cells.length < total)
    (name : pairName src cells.length = some cellName) (value : pairValue src cells.length = some cellValue) :
    ∃ next nameAt valueAt, clonePair src cells.length ret = some next ∧
      Filled next total (cells ++ [⟨nameAt, valueAt, cellName, cellValue⟩]) := by
  have enough : sizeofPair * (cells.length + 1) ≤ ret.ptr.length := by
    rw [filled.length]
    exact Nat.mul_le_mul_left sizeofPair room
  have grows : sizeofPair * (cells.length + 1) = sizeofPair * cells.length + sizeofPair := Nat.mul_succ _ _
  have front : (ret.ptr.take (sizeofPair * cells.length)).length = sizeofPair * cells.length :=
    length_take_of_le (by omega)
  have record := pairBytes_length ret.heap.blocks.length (ret.heap.alloc cellName).1.blocks.length
  have longer : (ret.heap.alloc cellName).1.blocks.length = ret.heap.blocks.length + 1 := by simp [Heap.alloc]
  have same : clonePair src cells.length ret = some ⟨((ret.heap.alloc cellName).1.alloc cellValue).1,
      storeRecord ret.ptr cells.length
        (pairBytes ret.heap.blocks.length (ret.heap.alloc cellName).1.blocks.length), ret.num⟩ := by
    simp only [clonePair, name, value]
    rfl
  refine ⟨_, ret.heap.blocks.length, (ret.heap.alloc cellName).1.blocks.length, same,
    ⟨filled.num, ?_, ?_, ?_, ?_, ?_⟩⟩
  · simp only [storeRecord, length_append, front, length_drop, record]
    rw [← filled.length]
    omega
  · rw [length_append, length_singleton, flatMap_append, ← filled.bytes]
    have cut : (ret.ptr.take (sizeofPair * cells.length) ++
        pairBytes ret.heap.blocks.length (ret.heap.alloc cellName).1.blocks.length).length =
          sizeofPair * (cells.length + 1) := by
      rw [length_append, front, record, grows]
    rw [storeRecord, take_left' cut]
    simp [Cell.bytes]
  · intro cell member
    rcases mem_append.mp member with old | new
    · obtain ⟨first, second⟩ := filled.live cell old
      exact ⟨Heap.deref_alloc (Heap.deref_alloc first _) _, Heap.deref_alloc (Heap.deref_alloc second _) _⟩
    · rw [mem_singleton.mp new]
      exact ⟨Heap.deref_alloc Heap.deref_alloc_self _, Heap.deref_alloc_self⟩
  · intro block member
    rw [flatMap_append, mem_append] at member
    have size : ((ret.heap.alloc cellName).1.alloc cellValue).1.blocks.length = ret.heap.blocks.length + 2 := by
      simp [Heap.alloc]
    rw [size]
    rcases member with old | new
    · exact Nat.lt_add_right 2 (filled.fresh block old)
    · simp only [flatMap_singleton, Cell.blocks, mem_cons, not_mem_nil, or_false, longer] at new
      rcases new with rfl | rfl
      · exact Nat.lt_add_of_pos_right Nat.two_pos
      · exact Nat.lt_succ_self _
  · rw [flatMap_append, nodup_append]
    refine ⟨filled.distinct, ?_, ?_⟩
    · simp [Cell.blocks, longer]
    · intro block old other new
      have bound := filled.fresh block old
      simp only [flatMap_singleton, Cell.blocks, mem_cons, not_mem_nil, or_false, longer] at new
      rcases new with rfl | rfl
      · exact ne_of_lt bound
      · exact ne_of_lt (Nat.lt_succ_of_lt bound)

theorem cloneLoop_eq (src : LabelArray) (count : Nat) (bound : count ≤ src.num) :
    match readAll (readPair src) count with
    | none => cloneLoop src count = none
    | some pairs => ∃ ret cells, cloneLoop src count = some ret ∧ Filled ret src.num cells ∧
        cells.map Cell.pair = pairs := by
  induction count with
  | zero =>
    refine ⟨_, [], rfl, ⟨rfl, ?_, ?_, nofun, nofun, nodup_nil⟩, rfl⟩
    · exact length_replicate
    · rfl
  | succ count ih =>
    have before := ih (Nat.le_of_succ_le bound)
    unfold readAll cloneLoop
    cases front : readAll (readPair src) count with
    | none =>
      simp only [front] at before
      simp [before]
    | some pairs =>
      simp only [front] at before
      obtain ⟨ret, cells, looped, filled, same⟩ := before
      have length : cells.length = count := by
        rw [← length_map Cell.pair, same]
        exact (readAll_eq_some_iff.mp front).1
      subst length
      simp only [looped, Option.bind_some]
      unfold readPair
      cases name : pairName src cells.length with
      | none => simp only [clonePair, name]
      | some cellName =>
        cases value : pairValue src cells.length with
        | none => simp only [clonePair, name, value]
        | some cellValue =>
          obtain ⟨next, nameAt, valueAt, cloned, after⟩ := filled.pair bound name value
          refine ⟨next, _, cloned, after, ?_⟩
          rw [map_append, same]
          rfl

theorem labelSetClone_eq (src : LabelArray) :
    match readPairs src with
    | none => labelSetClone .empty src = none
    | some pairs => ∃ copy, labelSetClone .empty src = some (0, copy) ∧ readPairs copy = some pairs := by
  have loop := cloneLoop_eq src src.num (le_refl _)
  unfold readPairs labelSetClone
  by_cases none : src.num = 0
  · rw [none, if_pos rfl]
    exact ⟨.empty, rfl, rfl⟩
  · rw [if_neg none]
    cases read : readAll (readPair src) src.num with
    | none =>
      simp only [read] at loop
      rw [loop]
      rfl
    | some pairs =>
      simp only [read] at loop
      obtain ⟨ret, cells, looped, filled, rfl⟩ := loop
      have length : cells.length = src.num := by
        rw [← length_map Cell.pair]
        exact (readAll_eq_some_iff.mp read).1
      refine ⟨ret, by rw [looped]; rfl, ?_⟩
      exact (Holds.mk (filled.num.trans length.symm) filled.bytes filled.live filled.distinct).readPairs_eq

end NCollectd.LabelSet
