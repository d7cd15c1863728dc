import NCollectd.Base.Memory

/-! Singly linked lists in memory. -/

namespace NCollectd

open List

universe u v

variable {α : Type u} {β : Type v}

/-- The cells that are reached from a pointer, up to `NULL`. -/
inductive Linked (heap : Heap α) (view : α → β × Option Block) : Option Block → List (Block × β) → Prop where
  | nil : Linked heap view none []
  | cons (live : heap.deref block = some cell) (content : (view cell).1 = value)
      (tail : Linked heap view (view cell).2 rest) : Linked heap view (some block) ((block, value) :: rest)

variable {heap heap' : Heap α} {view : α → β × Option Block} {cells rest : List (Block × β)}

def blocksOf (cells : List (Block × β)) : List Block := cells.map Prod.fst

def lastBlock (cells : List (Block × β)) : Option Block := cells.getLast?.map Prod.fst

@[simp] theorem blocksOf_nil : blocksOf ([] : List (Block × β)) = [] := rfl

@[simp] theorem blocksOf_cons (cell : Block × β) : blocksOf (cell :: rest) = cell.1 :: blocksOf rest := rfl

@[simp] theorem blocksOf_append : blocksOf (cells ++ rest) = blocksOf cells ++ blocksOf rest :=
  map_append

@[simp] theorem lastBlock_nil : lastBlock ([] : List (Block × β)) = none := rfl

@[simp] theorem lastBlock_cons (cell : Block × β) : lastBlock (cell :: rest) = (lastBlock rest).or (some cell.1) := by
  cases rest with
  | nil => rfl
  | cons following rest => simp [lastBlock, getLast?_cons]

theorem lastBlock_eq_none (empty : lastBlock cells = none) : cells = [] := by
  cases cells with
  | nil => rfl
  | cons cell rest => simp at empty

theorem mem_of_lastBlock (last : lastBlock cells = some block) : block ∈ blocksOf cells := by
  obtain ⟨final, found, equal⟩ := Option.map_eq_some_iff.mp last
  exact equal ▸ mem_map_of_mem (mem_of_getLast? found)

namespace Linked

theorem unique (first : Linked heap view pointer cells) (second : Linked heap view pointer cells') :
    cells = cells' := by
  induction first generalizing cells' with
  | nil =>
    cases second
    rfl
  | cons live content _ ih =>
    cases second with
    | cons live' content' tail' =>
      cases live.symm.trans live'
      rw [ih tail', ← content, content']

section

variable (linked : Linked heap view pointer cells)
include linked

theorem live_of_mem (member : block ∈ blocksOf cells) : ∃ cell, heap.deref block = some cell := by
  induction linked with
  | nil => cases member
  | cons live _ _ ih =>
    rcases mem_cons.mp member with rfl | later
    · exact ⟨_, live⟩
    · exact ih later

theorem live_of_entry (member : (block, value) ∈ cells) :
    ∃ cell, heap.deref block = some cell ∧ (view cell).1 = value := by
  induction linked with
  | nil => cases member
  | cons live content _ ih =>
    rcases mem_cons.mp member with same | later
    · cases same
      exact ⟨_, live, content⟩
    · exact ih later

theorem suffix (member : block ∈ blocksOf cells) :
    ∃ later, Linked heap view (some block) later ∧ later.length ≤ cells.length := by
  induction linked with
  | nil => cases member
  | cons live content tail ih =>
    rcases mem_cons.mp member with rfl | inside
    · exact ⟨_, .cons live content tail, Nat.le_refl _⟩
    · obtain ⟨later, found, shorter⟩ := ih inside
      exact ⟨later, found, Nat.le_succ_of_le shorter⟩

/-- A list that ends does not come back to a block. -/
theorem nodup : (blocksOf cells).Nodup := by
  induction linked with
  | nil => exact nodup_nil
  | cons live content tail ih =>
    refine nodup_cons.mpr ⟨fun again => ?_, ih⟩
    obtain ⟨later, found, shorter⟩ := tail.suffix again
    have same := found.unique (.cons live content tail)
    rw [same, length_cons] at shorter
    exact Nat.not_succ_le_self _ shorter

theorem length_le : cells.length ≤ heap.blocks.length := by
  have inside : blocksOf cells ⊆ range heap.blocks.length := by
    intro block member
    obtain ⟨cell, live⟩ := linked.live_of_mem member
    exact mem_range.mpr (Heap.lt_of_deref live)
  have bound := (subperm_of_subset linked.nodup inside).length_le
  simpa [blocksOf] using bound

theorem frame
    (same : ∀ block ∈ blocksOf cells, heap'.deref block = heap.deref block) : Linked heap' view pointer cells := by
  induction linked with
  | nil => exact .nil
  | cons live content _ ih =>
    refine .cons ((same _ mem_cons_self).trans live) content (ih fun block member => ?_)
    exact same block (mem_cons_of_mem _ member)

theorem append (end' : lastBlock cells = some last) (live : heap.deref last = some cell)
    (stored : heap.store last cell' = some heap')
    (content : (view cell').1 = (view cell).1) (other : Linked heap view (view cell').2 cells')
    (apart : last ∉ blocksOf cells') : Linked heap' view pointer (cells ++ cells') := by
  have same : ∀ block, block ≠ last → heap'.deref block = heap.deref block := by
    intro block different
    rw [Heap.deref_store stored, if_neg different]
  have here : heap'.deref last = some cell' := by
    rw [Heap.deref_store stored, if_pos rfl]
  have other' := other.frame fun block member => same block fun equal => apart (equal ▸ member)
  have distinct := linked.nodup
  induction linked with
  | nil => cases end'
  | @cons block inner value rest alive here' tail ih =>
    cases rest with
    | nil =>
      cases end'
      cases alive.symm.trans live
      exact .cons here (content.trans here') other'
    | cons following rest =>
      have later : lastBlock (following :: rest) = some last := by
        rw [lastBlock, getLast?_cons_cons] at end'
        exact end'
      obtain ⟨outside, distinct'⟩ := nodup_cons.mp distinct
      have different : block ≠ last := fun equal => outside (equal ▸ mem_of_lastBlock later)
      exact .cons ((same block different).trans alive) here' (ih later distinct')

theorem store (live : heap.deref block = some cell) (stored : heap.store block cell' = some heap')
    (same : (view cell').2 = (view cell).2) :
    Linked heap' view pointer
      (cells.map fun entry => if entry.1 = block then (block, (view cell').1) else entry) := by
  induction linked with
  | nil => exact .nil
  | @cons first inner value rest alive content tail ih =>
    rw [map_cons]
    by_cases here : first = block
    · subst here
      cases alive.symm.trans live
      rw [if_pos rfl]
      refine .cons ?_ rfl (same ▸ ih)
      rw [Heap.deref_store stored, if_pos rfl]
    · rw [if_neg here]
      refine .cons ?_ content ih
      rw [Heap.deref_store stored, if_neg here, alive]

theorem not_of_dead (member : block ∈ blocksOf cells)
    (same : ∀ other ∈ blocksOf cells, heap'.deref other = none ∨ heap'.deref other = heap.deref other)
    (dead : heap'.deref block = none) : ¬ Linked heap' view pointer cells' := by
  induction linked generalizing cells' with
  | nil => cases member
  | cons live content tail ih =>
    intro remains
    cases remains with
    | cons live' content' tail' =>
      rcases mem_cons.mp member with rfl | inside
      · rw [dead] at live'
        cases live'
      · rcases same _ mem_cons_self with gone | kept
        · rw [gone] at live'
          cases live'
        · cases live'.symm.trans (kept.trans live)
          exact ih inside (fun other later => same other (mem_cons_of_mem _ later)) tail'

end

end Linked

end NCollectd
