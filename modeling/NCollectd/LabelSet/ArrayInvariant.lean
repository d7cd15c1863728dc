import NCollectd.LabelSet.Array

namespace NCollectd.LabelSet

open List

/-- One intact record: where its two strings are, and the strings. -/
structure Cell where
  nameAt : Block
  valueAt : Block
  name : CString
  value : CString

def Cell.bytes (cell : Cell) : List MemVal := pairBytes cell.nameAt cell.valueAt

def Cell.blocks (cell : Cell) : List Block := [cell.nameAt, cell.valueAt]

def Cell.pair (cell : Cell) : LabelPair := ⟨cell.name, cell.value⟩

def Cell.Live (heap : Heap CString) (cell : Cell) : Prop :=
  heap.deref cell.nameAt = some cell.name ∧ heap.deref cell.valueAt = some cell.value

/-- The array consists of exactly these records, each owning its two strings. -/
structure Holds (labels : LabelArray) (cells : List Cell) : Prop where
  num : labels.num = cells.length
  bytes : labels.ptr.take (sizeofPair * cells.length) = cells.flatMap Cell.bytes
  live : ∀ cell ∈ cells, cell.Live labels.heap
  distinct : (cells.flatMap Cell.blocks).Nodup

theorem Cell.bytes_length (cell : Cell) : cell.bytes.length = sizeofPair := by
  simp [Cell.bytes, pairBytes, ptrBytes_length, sizeofPair, Nat.two_mul]

theorem cellsBytes_length (cells : List Cell) :
    (cells.flatMap Cell.bytes).length = sizeofPair * cells.length := by
  induction cells with
  | nil => rfl
  | cons cell cells ih =>
    rw [flatMap_cons, length_append, ih, Cell.bytes_length, length_cons, Nat.mul_succ,
      Nat.add_comm]

theorem cellsBytes_drop (cells : List Cell) (index : Nat) :
    (cells.flatMap Cell.bytes).drop (sizeofPair * index) = (cells.drop index).flatMap Cell.bytes := by
  induction cells generalizing index with
  | nil => simp
  | cons cell cells ih =>
    cases index with
    | zero => rfl
    | succ index =>
      rw [flatMap_cons, Nat.mul_succ, Nat.add_comm, ← drop_drop,
        drop_left' cell.bytes_length, ih]
      rfl

section

variable (held : Holds labels cells)
include held

theorem Holds.length_le : sizeofPair * cells.length ≤ labels.ptr.length := by
  rw [← cellsBytes_length, ← held.bytes]
  exact length_take_le' ..

section

variable {index : Nat} (here : cells[index]? = some cell)
include here

theorem Holds.drop_eq :
    ∃ after, labels.ptr.drop (sizeofPair * index) = cell.bytes ++ after := by
  have bound := (List.getElem?_eq_some_iff.mp here).1
  have split := List.take_append_drop (sizeofPair * cells.length) labels.ptr
  rw [held.bytes] at split
  refine ⟨(cells.drop (index + 1)).flatMap Cell.bytes ++ labels.ptr.drop (sizeofPair * cells.length), ?_⟩
  have short : sizeofPair * index ≤ (cells.flatMap Cell.bytes).length := by
    rw [cellsBytes_length]
    exact Nat.mul_le_mul_left _ (Nat.le_of_lt bound)
  rw [← split, drop_append_of_le_length short, cellsBytes_drop, drop_eq_getElem_cons bound,
    flatMap_cons, append_assoc]
  rw [getElem?_eq_getElem bound] at here
  rw [Option.some.inj here, split]

theorem Holds.nameBlock_eq : nameBlock labels index = some cell.nameAt := by
  obtain ⟨after, begins⟩ := held.drop_eq here
  rw [nameBlock, loadPtr_eq_some_iff, begins, Cell.bytes, pairBytes, append_assoc,
    take_left' (ptrBytes_length _)]

theorem Holds.nameByte_eq (inside : offset < sizeofPtr) :
    labels.ptr[sizeofPair * index + offset]? = some (.fragment cell.nameAt offset) := by
  obtain ⟨after, begins⟩ := held.drop_eq here
  rw [← getElem?_drop, begins, Cell.bytes, pairBytes, append_assoc,
    getElem?_append_left (by rwa [ptrBytes_length])]
  simp [ptrBytes, inside]

theorem Holds.valueBlock_eq : valueBlock labels index = some cell.valueAt := by
  obtain ⟨after, begins⟩ := held.drop_eq here
  rw [valueBlock, loadPtr_eq_some_iff, ← drop_drop, begins, Cell.bytes, pairBytes, append_assoc,
    drop_left' (ptrBytes_length _), take_left' (ptrBytes_length _)]

theorem Holds.pairName_eq : pairName labels index = some cell.name := by
  rw [pairName, held.nameBlock_eq here]
  exact (held.live cell (mem_of_getElem? here)).1

theorem Holds.pairValue_eq : pairValue labels index = some cell.value := by
  rw [pairValue, held.valueBlock_eq here]
  exact (held.live cell (mem_of_getElem? here)).2

theorem Holds.recordBytes_eq : recordBytes labels index = cell.bytes := by
  obtain ⟨after, begins⟩ := held.drop_eq here
  rw [recordBytes, begins, take_left' cell.bytes_length]

end

theorem Holds.readPairs_eq : readPairs labels = some (cells.map Cell.pair) := by
  rw [readPairs, readAll_eq_some_iff]
  refine ⟨by simp [held.num], fun index bound => ?_⟩
  have here := getElem?_eq_getElem (held.num ▸ bound)
  rw [readPair, held.pairName_eq here, held.pairValue_eq here, getElem?_map, here]
  rfl

theorem Holds.compare_eq (name : CString) :
    bsearch (fun i => (pairName labels i).map (strcmp name)) labels.num =
      bsearch (fun i => ((cells.map Cell.name)[i]?).map (strcmp name)) (cells.map Cell.name).length := by
  rw [held.num, length_map]
  apply bsearch_congr
  intro i bound
  have here := getElem?_eq_getElem bound
  rw [held.pairName_eq here, getElem?_map, here]
  rfl

theorem Holds.read_found (sorted : (cells.map Cell.name).Pairwise (· < ·)) (here : cells[index]? = some cell) :
    labelSetRead labels cell.name = some (.ok index) := by
  have found : (cells.map Cell.name)[index]? = some cell.name := by rw [getElem?_map, here]; rfl
  rw [labelSetRead, held.compare_eq, bsearch_found sorted found]

theorem Holds.read_absent (absent : name ∉ cells.map Cell.name) :
    labelSetRead labels name = some (.error ENOENT) := by
  rw [labelSetRead, held.compare_eq, bsearch_absent absent]

end

def sortCells (cells : List Cell) : List Cell :=
  cells.insertionSort fun first second => strcmp first.name second.name ≤ 0

theorem sortCells_perm (cells : List Cell) : (sortCells cells).Perm cells :=
  perm_insertionSort _ _

theorem sortCells_sorted (nodup : (cells.map Cell.name).Nodup) :
    ((sortCells cells).map Cell.name).Pairwise (· < ·) := by
  have total : Std.Total fun first second : Cell => strcmp first.name second.name ≤ 0 :=
    ⟨fun first second => by simpa only [strcmp_nonpos_iff] using le_total first.name second.name⟩
  have transitive : IsTrans Cell fun first second => strcmp first.name second.name ≤ 0 :=
    ⟨fun first second third => by simpa only [strcmp_nonpos_iff] using le_trans⟩
  have ordered : (sortCells cells).Pairwise fun first second => strcmp first.name second.name ≤ 0 :=
    pairwise_insertionSort _ _
  have distinct : ((sortCells cells).map Cell.name).Nodup :=
    ((sortCells_perm cells).map Cell.name).nodup_iff.mpr nodup
  rw [pairwise_map]
  apply (ordered.and (pairwise_map.mp distinct)).imp
  rintro first second ⟨order, different⟩
  exact lt_of_le_of_ne ((strcmp_nonpos_iff _ _).mp order) different

section

variable (held : Holds labels cells)
include held

theorem Holds.sortPairs_eq :
    sortPairs labels = some { labels with ptr := (sortCells cells).flatMap Cell.bytes } := by
  have records : readAll (fun i => (pairName labels i).map fun name => (name, recordBytes labels i))
      labels.num = some (cells.map fun cell => (cell.name, cell.bytes)) := by
    rw [readAll_eq_some_iff]
    refine ⟨by simp [held.num], fun index bound => ?_⟩
    have here := getElem?_eq_getElem (held.num ▸ bound)
    rw [held.pairName_eq here, held.recordBytes_eq here, getElem?_map, here]
    rfl
  have moved : qsortByName (cells.map fun cell => (cell.name, cell.bytes)) =
      (sortCells cells).map fun cell => (cell.name, cell.bytes) := by
    unfold qsortByName sortCells
    exact (map_insertionSort (fun first second : Cell => strcmp first.name second.name ≤ 0)
      (fun first second : CString × List MemVal => strcmp first.1 second.1 ≤ 0) _ _
      fun _ _ _ _ => Iff.rfl).symm
  rw [sortPairs, records]
  simp only [moved, flatMap_map]

theorem Holds.reorder (order : other.Perm cells) : Holds { labels with ptr := other.flatMap Cell.bytes } other where
  num := held.num.trans order.length_eq.symm
  bytes := take_of_length_le (le_of_eq (cellsBytes_length other))
  live cell member := held.live cell (order.mem_iff.mp member)
  distinct := (order.flatMap_right Cell.blocks).nodup_iff.mpr held.distinct

theorem Holds.split : ∃ slack, labels.ptr = cells.flatMap Cell.bytes ++ slack := by
  refine ⟨labels.ptr.drop (sizeofPair * cells.length), ?_⟩
  rw [← held.bytes, take_append_drop]

theorem Holds.block_fresh (member : block ∈ cells.flatMap Cell.blocks) :
    block < labels.heap.blocks.length := by
  obtain ⟨cell, present, own⟩ := mem_flatMap.mp member
  have live := held.live cell present
  rcases mem_cons.mp own with same | same
  · exact same ▸ Heap.lt_of_deref live.1
  · rw [mem_singleton.mp same]
    exact Heap.lt_of_deref live.2

end

def appendPair (labels : LabelArray) (name value : CString) : LabelArray :=
  let nameAlloc := labels.heap.alloc name
  let valueAlloc := nameAlloc.1.alloc value
  ⟨valueAlloc.1, (realloc labels.ptr (sizeofPair * (labels.num + 1))).take (sizeofPair * labels.num) ++
    pairBytes nameAlloc.2 valueAlloc.2, labels.num + 1⟩

def newCell (labels : LabelArray) (name value : CString) : Cell :=
  ⟨(labels.heap.alloc name).2, ((labels.heap.alloc name).1.alloc value).2, name, value⟩

theorem Holds.appendPair (held : Holds labels cells) (name value : CString) :
    Holds (appendPair labels name value) (cells ++ [newCell labels name value]) where
  num := by simp [LabelSet.appendPair, held.num]
  bytes := by
    obtain ⟨slack, split⟩ := held.split
    have kept : (realloc labels.ptr (sizeofPair * (cells.length + 1))).take (sizeofPair * cells.length) =
        cells.flatMap Cell.bytes := by
      rw [realloc, split, take_append_of_le_length, take_take, min_eq_left,
        take_left' (cellsBytes_length cells)]
      · exact Nat.mul_le_mul_left _ (Nat.le_succ _)
      · rw [length_take, length_append, cellsBytes_length, Nat.mul_succ]
        omega
    have total : (cells.flatMap Cell.bytes ++ (newCell labels name value).bytes).length =
        sizeofPair * (cells ++ [newCell labels name value]).length := by
      rw [length_append, cellsBytes_length, Cell.bytes_length, length_append]
      rfl
    simp only [LabelSet.appendPair, held.num]
    rw [kept, flatMap_append, flatMap_singleton]
    exact take_of_length_le (le_of_eq total)
  live := by
    intro cell member
    rcases mem_append.mp member with old | new
    · have live := held.live cell old
      exact ⟨Heap.deref_alloc (Heap.deref_alloc live.1 _) _, Heap.deref_alloc (Heap.deref_alloc live.2 _) _⟩
    · rw [mem_singleton.mp new]
      exact ⟨Heap.deref_alloc Heap.deref_alloc_self _, Heap.deref_alloc_self⟩
  distinct := by
    rw [flatMap_append, flatMap_singleton, nodup_append]
    refine ⟨held.distinct, ?_, ?_⟩
    · simp [Cell.blocks, newCell, Heap.alloc]
    · intro block old fresh new same
      have bound := held.block_fresh old
      subst same
      simp only [Cell.blocks, newCell, Heap.alloc, length_append, length_singleton,
        mem_cons, not_mem_nil, or_false] at new
      rcases new with new | new
      · exact ne_of_lt bound new
      · exact ne_of_lt (Nat.lt_succ_of_lt bound) new

theorem Holds.create (held : Holds labels cells) (absent : name ∉ cells.map Cell.name)
    (valid : validLabelName name = true) (given : value ≠ []) :
    ∃ next, labelSetCreate labels name value = some (0, next) ∧
      Holds next (sortCells (cells ++ [newCell labels name value])) := by
  have appended := held.appendPair name value
  refine ⟨_, ?_, appended.reorder (sortCells_perm _)⟩
  have sorted := appended.sortPairs_eq
  simp only [LabelSet.appendPair] at sorted
  simp [labelSetCreate, valid, held.read_absent absent, given, sorted, LabelSet.appendPair]

section

variable (held : Holds labels (front ++ cell :: back))
include held

theorem Holds.apart : cell.valueAt ≠ cell.nameAt ∧ ∀ other ∈ front ++ back, ∀ block ∈ other.blocks,
      block ≠ cell.nameAt ∧ block ≠ cell.valueAt := by
  have spread := held.distinct
  rw [flatMap_append, flatMap_cons, nodup_append'] at spread
  obtain ⟨_, restDistinct, frontApart⟩ := spread
  rw [nodup_append'] at restDistinct
  obtain ⟨own, _, backApart⟩ := restDistinct
  constructor
  · intro same
    simp [Cell.blocks, same] at own
  · intro other member block owned
    have outside : block ∉ cell.blocks := by
      intro mine
      rcases mem_append.mp member with inFront | inBack
      · exact frontApart (mem_flatMap.mpr ⟨other, inFront, owned⟩) (mem_append_left _ mine)
      · exact backApart mine (mem_flatMap.mpr ⟨other, inBack, owned⟩)
    simpa [Cell.blocks] using outside

theorem Holds.other_live (member : other ∈ front ++ back) : other.Live labels.heap := by
  apply held.live other
  rcases mem_append.mp member with inFront | inBack
  · exact mem_append_left _ inFront
  · exact mem_append_right _ (mem_cons_of_mem _ inBack)

theorem Holds.free_cell : ∃ afterName heap, labels.heap.free cell.nameAt = some afterName ∧
      afterName.free cell.valueAt = some heap ∧ ∀ other ∈ front ++ back, other.Live heap := by
  obtain ⟨own, apart⟩ := held.apart
  have live := held.live cell (by simp)
  obtain ⟨afterName, freedName⟩ : ∃ heap, labels.heap.free cell.nameAt = some heap :=
    ⟨_, Heap.free_live live.1⟩
  have valueLive : afterName.deref cell.valueAt = some cell.value :=
    (Heap.deref_free freedName own).trans live.2
  obtain ⟨heap, freedValue⟩ : ∃ heap, afterName.free cell.valueAt = some heap :=
    ⟨_, Heap.free_live valueLive⟩
  refine ⟨afterName, heap, freedName, freedValue, fun other member => ?_⟩
  have keeps : ∀ block ∈ other.blocks, heap.deref block = labels.heap.deref block := by
    intro block owned
    obtain ⟨notName, notValue⟩ := apart other member block owned
    rw [Heap.deref_free freedValue notValue, Heap.deref_free freedName notName]
  have before := held.other_live member
  exact ⟨(keeps _ (by simp [Cell.blocks])).trans before.1, (keeps _ (by simp [Cell.blocks])).trans before.2⟩

theorem Holds.delete_eq : ∃ heap, (∀ other ∈ front ++ back, other.Live heap) ∧
      labelSetDelete labels front.length = some (0, ⟨heap,
        if front.length + back.length = 0 then []
        else if back.length ≠ 0 then
          memmove labels.ptr (sizeofPair * front.length) (sizeofPair * (front.length + 1)) back.length
        else labels.ptr,
        front.length + back.length⟩) := by
  obtain ⟨afterName, heap, freedName, freedValue, live⟩ := held.free_cell
  have here : (front ++ cell :: back)[front.length]? = some cell := by simp
  have num : labels.num = front.length + back.length + 1 := by
    rw [held.num, length_append, length_cons]
    rfl
  have inside : ¬ front.length + back.length + 1 ≤ front.length := by omega
  have after : front.length + back.length + 1 - (front.length + 1) = back.length := by omega
  have middle : front.length ≠ front.length + back.length ↔ back.length ≠ 0 := by omega
  refine ⟨heap, live, ?_⟩
  simp [labelSetDelete, num, held.nameBlock_eq here, held.valueBlock_eq here, freedName, freedValue, inside,
    ↓reduceIte, after, middle]

end

theorem Holds.delete_last (held : Holds labels (front ++ [cell])) :
    ∃ next, labelSetDelete labels front.length = some (0, next) ∧ Holds next front := by
  obtain ⟨heap, live, deleted⟩ := held.delete_eq
  simp only [length_nil, Nat.add_zero, ne_eq, not_true_eq_false, ↓reduceIte] at deleted
  refine ⟨_, deleted, ?_⟩
  constructor
  · rfl
  · obtain ⟨slack, split⟩ := held.split
    rw [flatMap_append, append_assoc] at split
    split
    · rename_i empty
      simp [length_eq_zero_iff.mp empty]
    · rw [split, take_left' (cellsBytes_length front)]
  · intro other member
    exact live other (by simpa using member)
  · have spread := held.distinct
    rw [flatMap_append] at spread
    exact (nodup_append'.mp spread).1

theorem Holds.overwrite (held : Holds labels (front ++ cell :: back)) (value : CString) :
    ∃ next fresh, overwriteValue labels front.length value = some (0, next) ∧
      Holds next (front ++ { cell with valueAt := fresh, value := value } :: back) := by
  have here : (front ++ cell :: back)[front.length]? = some cell := by simp
  obtain ⟨own, apart⟩ := held.apart
  have live := held.live cell (by simp)
  have fresh := Heap.ne_alloc live.2 value
  obtain ⟨heap, freed⟩ : ∃ heap, (labels.heap.alloc value).1.free cell.valueAt = some heap :=
    ⟨_, Heap.free_live (Heap.deref_alloc live.2 value)⟩
  refine ⟨⟨heap, _, _⟩, (labels.heap.alloc value).2, by
    simp only [overwriteValue, held.valueBlock_eq here, freed]; rfl, ?_⟩
  constructor
  · simpa using held.num
  · obtain ⟨slack, split⟩ := held.split
    have place : (front.flatMap Cell.bytes ++ ptrBytes cell.nameAt).length =
        sizeofPair * front.length + sizeofPtr := by
      rw [length_append, cellsBytes_length, ptrBytes_length]
    have layout : labels.ptr = (front.flatMap Cell.bytes ++ ptrBytes cell.nameAt) ++
        (ptrBytes cell.valueAt ++ (back.flatMap Cell.bytes ++ slack)) := by
      rw [split, flatMap_append, flatMap_cons, Cell.bytes, pairBytes]
      simp
    rw [layout, take_left' place, ← drop_drop, drop_left' place,
      drop_left' (ptrBytes_length _)]
    have total := cellsBytes_length (front ++ { cell with
      valueAt := (labels.heap.alloc value).2, value := value } :: back)
    refine Eq.trans ?_ (show (_ ++ slack).take _ = _ from take_left' total)
    simp [Cell.bytes, pairBytes]
  · intro other member
    have keeps : ∀ block string, labels.heap.deref block = some string → block ≠ cell.valueAt →
        heap.deref block = some string := by
      intro block string before different
      rw [Heap.deref_free freed different]
      exact Heap.deref_alloc before value
    rcases mem_append.mp member with inFront | inBack
    · have kept := mem_append_left back inFront
      have before := held.other_live kept
      exact ⟨keeps _ _ before.1 (apart other kept _ (by simp [Cell.blocks])).2,
        keeps _ _ before.2 (apart other kept _ (by simp [Cell.blocks])).2⟩
    · rcases mem_cons.mp inBack with same | inBack
      · subst other
        refine ⟨keeps _ _ live.1 (Ne.symm own), ?_⟩
        exact (Heap.deref_free freed (Ne.symm fresh)).trans Heap.deref_alloc_self
      · have kept := mem_append_right front inBack
        have before := held.other_live kept
        exact ⟨keeps _ _ before.1 (apart other kept _ (by simp [Cell.blocks])).2,
          keeps _ _ before.2 (apart other kept _ (by simp [Cell.blocks])).2⟩
  · have blocks : ∀ valueAt value', (front ++ ⟨cell.nameAt, valueAt, cell.name, value'⟩ :: back).flatMap
        Cell.blocks = (front.flatMap Cell.blocks ++ [cell.nameAt]) ++ valueAt :: back.flatMap Cell.blocks := by
      intro valueAt value'
      simp [Cell.blocks]
    have before : ((front.flatMap Cell.blocks ++ [cell.nameAt]) ++
        cell.valueAt :: back.flatMap Cell.blocks).Nodup := by
      rw [← blocks cell.valueAt cell.value]
      exact held.distinct
    have unused : (labels.heap.alloc value).2 ∉ (front ++ cell :: back).flatMap Cell.blocks := by
      intro used
      exact lt_irrefl _ (held.block_fresh used)
    rw [blocks, nodup_middle]
    refine nodup_cons.mpr ⟨fun used => unused ?_, (nodup_cons.mp (nodup_middle.mp before)).2⟩
    have wider := blocks cell.valueAt cell.value
    rw [show cell = ⟨cell.nameAt, cell.valueAt, cell.name, cell.value⟩ from rfl, wider]
    rcases mem_append.mp used with left | right
    · exact mem_append_left _ left
    · exact mem_append_right _ (mem_cons_of_mem _ right)

end NCollectd.LabelSet
