import Mathlib

/-! A symbolic memory for C code that moves pointers bytewise. -/

namespace NCollectd

open Option

universe u

abbrev Block := Nat

/-- Blocks in order of allocation. A freed block keeps its number. -/
structure Heap (α : Type u) where
  blocks : List (Option α)
deriving DecidableEq

namespace Heap

variable {α : Type u} {heap rest : Heap α}

def empty : Heap α := ⟨[]⟩

def alloc (heap : Heap α) (value : α) : Heap α × Block :=
  (⟨heap.blocks ++ [some value]⟩, heap.blocks.length)

/-- The object a pointer leads to; `none` is undefined behaviour. -/
def deref (heap : Heap α) (block : Block) : Option α := (heap.blocks[block]?).join

def free (heap : Heap α) (block : Block) : Option (Heap α) :=
  match heap.deref block with
  | none => none
  | some _ => some ⟨heap.blocks.set block none⟩

theorem deref_alloc_self : (heap.alloc value).1.deref (heap.alloc value).2 = some value := by
  simp [alloc, deref]

theorem lt_of_deref (live : heap.deref block = some value) : block < heap.blocks.length := by
  by_contra outside
  simp [deref, List.getElem?_eq_none (Nat.le_of_not_lt outside)] at live

theorem deref_alloc (live : heap.deref block = some value) (fresh : α) :
    (heap.alloc fresh).1.deref block = some value := by
  simpa [alloc, deref, List.getElem?_append_left (lt_of_deref live)] using live

theorem deref_alloc_ne (fresh : α) (different : other ≠ (heap.alloc fresh).2) :
    (heap.alloc fresh).1.deref other = heap.deref other := by
  have outside : other ≠ heap.blocks.length := different
  rcases Nat.lt_or_gt_of_ne outside with inside | past
  · simp [alloc, deref, List.getElem?_append_left inside]
  · simp [alloc, deref, past, List.getElem?_eq_none (Nat.le_of_lt past)]

theorem deref_fresh (heap : Heap α) (fresh : α) : heap.deref (heap.alloc fresh).2 = none := by
  simp [alloc, deref]

theorem ne_alloc (live : heap.deref block = some value) (fresh : α) :
    block ≠ (heap.alloc fresh).2 := by
  exact Nat.ne_of_lt (lt_of_deref live)

theorem free_live (live : heap.deref block = some value) :
    heap.free block = some ⟨heap.blocks.set block none⟩ := by
  simp [free, live]

theorem deref_free (freed : heap.free block = some rest) (different : other ≠ block) :
    rest.deref other = heap.deref other := by
  cases live : heap.deref block with
  | none => simp [free, live] at freed
  | some object =>
    simp only [free, live, some.injEq] at freed
    subst rest
    simp [deref, List.getElem?_set_ne (Ne.symm different)]

theorem deref_free_self (freed : heap.free block = some rest) : rest.deref block = none := by
  cases live : heap.deref block with
  | none => simp [free, live] at freed
  | some object =>
    simp only [free, live, some.injEq] at freed
    subst rest
    simp [deref, lt_of_deref live]

theorem length_free (freed : heap.free block = some rest) : rest.blocks.length = heap.blocks.length := by
  cases live : heap.deref block with
  | none => simp [free, live] at freed
  | some object =>
    simp only [free, live, some.injEq] at freed
    simp [← freed]

def store (heap : Heap α) (block : Block) (value : α) : Option (Heap α) :=
  match heap.deref block with
  | none => none
  | some _ => some ⟨heap.blocks.set block (some value)⟩

theorem store_live (live : heap.deref block = some old) :
    heap.store block value = some ⟨heap.blocks.set block (some value)⟩ := by
  simp [store, live]

theorem length_store (stored : heap.store block value = some rest) : rest.blocks.length = heap.blocks.length := by
  cases live : heap.deref block with
  | none => simp [store, live] at stored
  | some object =>
    simp only [store, live, some.injEq] at stored
    simp [← stored]

theorem deref_store (stored : heap.store block value = some rest) (other : Block) :
    rest.deref other = if other = block then some value else heap.deref other := by
  cases live : heap.deref block with
  | none => simp [store, live] at stored
  | some object =>
    simp only [store, live, some.injEq] at stored
    subst rest
    by_cases same : other = block
    · subst other
      simp [deref, lt_of_deref live]
    · simp [deref, same, List.getElem?_set_ne (Ne.symm same)]

theorem exists_store (live : heap.deref block = some old) (value : α) :
    ∃ rest, heap.store block value = some rest ∧ rest.deref block = some value ∧
      ∀ other, other ≠ block → rest.deref other = heap.deref other := by
  have stored : heap.store block value = some _ := store_live live
  refine ⟨_, stored, ?_, fun other different => ?_⟩
  · rw [deref_store stored, if_pos rfl]
  · rw [deref_store stored, if_neg different]

def liveBlocks (heap : Heap α) : List Block :=
  (List.range heap.blocks.length).filter fun block => (heap.deref block).isSome

theorem mem_liveBlocks : block ∈ heap.liveBlocks ↔ ∃ value, heap.deref block = some value := by
  rw [liveBlocks, List.mem_filter, List.mem_range, isSome_iff_exists]
  constructor
  · exact And.right
  · intro live
    obtain ⟨value, found⟩ := live
    exact ⟨lt_of_deref found, value, found⟩

theorem nodup_liveBlocks : heap.liveBlocks.Nodup := List.nodup_range.filter _

/-- Blocks can be freed one after the other iff they are live and no block comes twice. -/
theorem foldlM_free_isSome_iff (heap : Heap α) (blocks : List Block) :
    (blocks.foldlM free heap).isSome = true ↔ blocks.Nodup ∧ ∀ block ∈ blocks, (heap.deref block).isSome = true := by
  induction blocks generalizing heap with
  | nil => simp
  | cons block blocks ih =>
    rw [List.foldlM_cons]
    cases freed : heap.free block with
    | none =>
      have dead : heap.deref block = none := by
        by_contra live
        obtain ⟨value, found⟩ := ne_none_iff_exists'.mp live
        simp [free_live found] at freed
      simp [dead]
    | some rest =>
      have live : (heap.deref block).isSome = true := by
        cases found : heap.deref block with
        | none => simp [free, found] at freed
        | some value => rfl
      have later (other : Block) : (rest.deref other).isSome = true ↔
          other ≠ block ∧ (heap.deref other).isSome = true := by
        by_cases same : other = block
        · simp [same, deref_free_self freed]
        · simp [same, deref_free freed same]
      simp only [bind_eq_bind, bind_some, ih, later, List.nodup_cons, List.forall_mem_cons, live, true_and]
      constructor
      · rintro ⟨distinct, rest⟩
        exact ⟨⟨fun again => (rest block again).1 rfl, distinct⟩, fun other member => (rest other member).2⟩
      · rintro ⟨⟨absent, distinct⟩, rest⟩
        refine ⟨distinct, fun other member => ⟨?_, rest other member⟩⟩
        rintro rfl
        exact absent member

end Heap

/-- One byte of memory. -/
inductive MemVal where
  | undef
  | fragment (block : Block) (index : Nat)
deriving DecidableEq

def sizeofPtr : Nat := 8

def ptrBytes (block : Block) : List MemVal := (List.range sizeofPtr).map (MemVal.fragment block)

theorem ptrBytes_length (block : Block) : (ptrBytes block).length = sizeofPtr := by
  simp [ptrBytes]

def loadPtr (bytes : List MemVal) (offset : Nat) : Option Block :=
  match bytes[offset]? with
  | some (.fragment block _) =>
    if (bytes.drop offset).take sizeofPtr = ptrBytes block then some block else none
  | _ => none

theorem loadPtr_eq_some_iff :
    loadPtr bytes offset = some block ↔ (bytes.drop offset).take sizeofPtr = ptrBytes block := by
  constructor
  · intro loaded
    unfold loadPtr at loaded
    split at loaded
    · split at loaded
      · rename_i same
        rw [← some.inj loaded]
        exact same
      · cases loaded
    · cases loaded
  · intro same
    have head : bytes[offset]? = some (.fragment block 0) := by
      have first := congrArg (·[0]?) same
      simpa [ptrBytes, sizeofPtr, List.getElem?_take, List.range_succ] using first
    simp [loadPtr, head, same]

def memmove (bytes : List MemVal) (dst src count : Nat) : List MemVal :=
  bytes.take dst ++ (bytes.drop src).take count ++ bytes.drop (dst + count)

theorem getElem?_memmove_after (source : src + count ≤ bytes.length)
    (forward : dst ≤ src) (past : dst + count ≤ index) :
    (memmove bytes dst src count)[index]? = bytes[index]? := by
  have copied : (bytes.take dst ++ (bytes.drop src).take count).length = dst + count := by
    simp only [List.length_append, List.length_take, List.length_drop]
    omega
  rw [memmove, List.getElem?_append_right (by omega), copied, List.getElem?_drop]
  congr 1
  omega

theorem getElem?_memmove_within (source : src + count ≤ bytes.length)
    (forward : dst ≤ src) (low : dst ≤ index) (high : index < dst + count) :
    (memmove bytes dst src count)[index]? = bytes[index - dst + src]? := by
  have kept : (bytes.take dst).length = dst := by
    rw [List.length_take]
    omega
  have copied : (bytes.take dst ++ (bytes.drop src).take count).length = dst + count := by
    simp only [List.length_append, List.length_take, List.length_drop]
    omega
  rw [memmove, List.getElem?_append_left (by omega), List.getElem?_append_right (by omega), kept,
    List.getElem?_take_of_lt (by omega), List.getElem?_drop]
  congr 1
  omega

def realloc (bytes : List MemVal) (size : Nat) : List MemVal :=
  bytes.take size ++ List.replicate (size - bytes.length) .undef

end NCollectd
