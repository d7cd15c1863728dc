import NCollectd.Utils.Heap

namespace NCollectd

open HeapOrder List

universe u

variable {α : Type u} {compare : α → α → Int} {h h' : CHeap α}

theorem reserve_none (full : h.reserve = none) : objectMax < (h.list.length + 16) * 8 := by
  unfold CHeap.reserve at full
  grind

theorem reheap_first (single : h.list.length = 1) : reheap compare h (parentIndex 0) .up = some h := by
  have left : childIndex h (2 * parentIndex 0 + 1) = 0 := by
    rw [childIndex, single]
    decide
  have right : childIndex h (2 * parentIndex 0 + 2) = 0 := by
    rw [childIndex, single]
    decide
  have step : reheapStep compare h (parentIndex 0) = some (h, none) := by
    unfold reheapStep
    exact if_pos ⟨left, right⟩
  rw [reheap]
  split
  all_goals simp_all

theorem reheap_append (compare : α → α → Int) (ptr : α) (room : h.list.length < h.listSize) :
    ∃ h', reheap compare (h.append ptr room) (parentIndex h.list.length) .up = some h' ∧
      h'.list.Perm (ptr :: h.list) ∧
      (TotalPreorder compare → Ordered (Precedes compare) h.list → Ordered (Precedes compare) h'.list) := by
  rcases Nat.eq_zero_or_pos h.list.length with empty | positive
  · have single : (h.append ptr room).list.length = 1 := by simp [CHeap.append, empty]
    rw [empty, reheap_first single]
    refine ⟨_, rfl, perm_append_singleton ptr h.list, fun _ ordered => ?_⟩
    exact (ordered.append ptr).finish fun positive => absurd empty (ne_of_gt positive)
  · have last : h.list.length < (h.append ptr room).list.length := by simp [CHeap.append]
    have small : h.list.length < sizeMod := (h.append ptr room).small_of_inside last
    rw [parentIndex_eq positive small]
    obtain ⟨h', returned, same, _⟩ := reheap_defined compare .up
      (lt_trans (parent_lt positive) last)
    refine ⟨h', returned, same.trans (perm_append_singleton ptr h.list), fun preorder ordered => ?_⟩
    exact reheap_up preorder (ordered.append ptr) positive last returned

theorem cHeapInsert_spec (compare : α → α → Int) (h : CHeap α) (ptr : α) :
    ∃ status h', cHeapInsert compare h ptr = some (status, h') ∧
      (status = 0 ∧ h'.list.Perm (ptr :: h.list) ∨
        status = -ENOMEM ∧ h' = h ∧ objectMax < (h.list.length + 16) * 8) ∧
      (TotalPreorder compare → Ordered (Precedes compare) h.list → Ordered (Precedes compare) h'.list) := by
  unfold cHeapInsert
  split
  · rename_i full
    exact ⟨_, _, rfl, .inr ⟨rfl, rfl, reserve_none full⟩, fun _ ordered => ordered⟩
  · rename_i grown reserved
    obtain ⟨same, room⟩ := CHeap.reserve_spec reserved
    obtain ⟨h', returned, pointers, order⟩ := reheap_append compare ptr room
    rw [same] at pointers order
    exact ⟨0, h', by rw [returned]; rfl, .inl ⟨rfl, pointers⟩, order⟩

theorem list_shrink : h.shrink.list = h.list := by
  unfold CHeap.shrink
  split <;> rfl

theorem list_replaceRoot (shape : h.list = (first :: middle) ++ [last]) :
    (h.replaceRoot last).list = last :: middle := by
  show (h.list.set 0 last).dropLast = last :: middle
  rw [shape, cons_append, set_cons_zero, ← cons_append, dropLast_concat]

theorem two_entries (list : List α) (many : 1 < list.length) :
    ∃ first middle last, list = (first :: middle) ++ [last] := by
  cases list with
  | nil => cases many
  | cons first rest =>
    rcases eq_nil_or_concat rest with rfl | ⟨middle, last, rfl⟩
    · exact absurd many (lt_irrefl 1)
    · exact ⟨first, middle, last, by rw [concat_eq_append, cons_append]⟩

theorem reheap_replaceRoot (compare : α → α → Int) (shape : h.list = (first :: middle) ++ [last]) :
    ∃ h', reheap compare (h.replaceRoot last) 0 .down = some h' ∧ h.list.Perm (first :: h'.list) ∧
      (TotalPreorder compare → Ordered (Precedes compare) h.list → Ordered (Precedes compare) h'.list) := by
  have replaced := list_replaceRoot shape
  have inside : 0 < (h.replaceRoot last).list.length := by simp [replaced]
  obtain ⟨h', returned, same, _⟩ := reheap_defined compare .down inside
  refine ⟨h', returned, ?_, fun preorder ordered => ?_⟩
  · rw [shape, cons_append]
    refine (List.Perm.trans ?_ same.symm).cons first
    rw [replaced]
    exact perm_append_singleton last middle
  · rw [shape] at ordered
    refine reheap_down preorder ?_ inside returned
    rw [replaced]
    exact ordered.dropLast.replaceRoot last

theorem root_precedes (preorder : TotalPreorder compare) (ordered : Ordered (Precedes compare) h.list)
    (top : h.list[0]? = some x) (same : h.list.Perm (x :: rest)) : ∀ y ∈ rest, Precedes compare x y := by
  intro y member
  obtain ⟨i, found⟩ := mem_iff_getElem?.mp (same.symm.subset (mem_cons_of_mem x member))
  exact ordered.root_le preorder.precedes_trans preorder.refl top found

theorem cHeapGetRoot_spec (compare : α → α → Int) (h : CHeap α) :
    ∃ ret h', cHeapGetRoot compare h = some (ret, h') ∧
      (ret = none ∧ h.list = [] ∧ h' = h ∨ ∃ x, ret = some x ∧ h.list.Perm (x :: h'.list)) ∧
      (TotalPreorder compare → Ordered (Precedes compare) h.list →
        Ordered (Precedes compare) h'.list ∧ ∀ x ∈ ret, ∀ y ∈ h'.list, Precedes compare x y) := by
  unfold cHeapGetRoot
  split
  · rename_i empty
    exact ⟨none, h, rfl, .inl ⟨rfl, eq_nil_of_length_eq_zero empty, rfl⟩, fun _ ordered => ⟨ordered, by simp⟩⟩
  · split
    · rename_i single
      obtain ⟨x, shape⟩ := length_eq_one_iff.mp single
      refine ⟨some x, _, by rw [shape]; rfl, .inr ⟨x, rfl, ?_⟩, fun _ _ => ?_⟩
      · rw [shape, list_shrink]
      · rw [list_shrink]
        exact ⟨fun i _ a b found => (by cases found), by simp⟩
    · obtain ⟨first, middle, last, shape⟩ := two_entries h.list (by omega)
      obtain ⟨h', returned, same, order⟩ := reheap_replaceRoot compare shape
      have top : h.list[0]? = some first := by rw [shape]; rfl
      have bottom : h.list[h.list.length - 1]? = some last := by simp [shape]
      refine ⟨some first, h'.shrink, by rw [top, bottom, Option.bind_some, Option.bind_some, returned]; rfl, ?_, ?_⟩
      · rw [list_shrink]
        exact .inr ⟨first, rfl, same⟩
      · intro preorder ordered
        rw [list_shrink]
        refine ⟨order preorder ordered, ?_⟩
        rintro _ ⟨⟩
        exact root_precedes preorder ordered top same

inductive HeapCall (α : Type u) where
  | insert (ptr : α)
  | getRoot

/-- What a call returns: a status, or a pointer or `NULL`. -/
inductive HeapAnswer (α : Type u) where
  | status (status : Status)
  | pointer (ret : Option α)
deriving DecidableEq

def heapCall (compare : α → α → Int) (h : CHeap α) : HeapCall α → Option (HeapAnswer α × CHeap α)
  | .insert ptr => (cHeapInsert compare h ptr).map fun result => (.status result.1, result.2)
  | .getRoot => (cHeapGetRoot compare h).map fun result => (.pointer result.1, result.2)

def heapRun (compare : α → α → Int) (h : CHeap α) : List (HeapCall α) → Option (List (HeapAnswer α) × CHeap α)
  | [] => some ([], h)
  | call :: calls =>
    (heapCall compare h call).bind fun result =>
      (heapRun compare result.2 calls).map fun results => (result.1 :: results.1, results.2)

/-- An insertion fails only for want of room; the root is `NULL` or precedes all that remain. -/
inductive BagCall (compare : α → α → Int) : Multiset α → HeapCall α → HeapAnswer α → Multiset α → Prop where
  | inserted : BagCall compare bag (.insert ptr) (.status 0) (ptr ::ₘ bag)
  | full : objectMax < (bag.card + 16) * 8 → BagCall compare bag (.insert ptr) (.status (-ENOMEM)) bag
  | empty : BagCall compare 0 .getRoot (.pointer none) 0
  | root : (∀ y ∈ rest, compare x y ≤ 0) → BagCall compare (x ::ₘ rest) .getRoot (.pointer (some x)) rest

inductive BagRun (compare : α → α → Int) :
    Multiset α → List (HeapCall α) → List (HeapAnswer α) → Multiset α → Prop where
  | nil : BagRun compare bag [] [] bag
  | cons : BagCall compare bag call answer bag' → BagRun compare bag' calls answers bag'' →
      BagRun compare bag (call :: calls) (answer :: answers) bag''

theorem heapCall_refines (preorder : TotalPreorder compare) (ordered : Ordered (Precedes compare) h.list)
    (call : HeapCall α) :
    ∃ answer h', heapCall compare h call = some (answer, h') ∧ Ordered (Precedes compare) h'.list ∧
      BagCall compare (h.list : Multiset α) call answer (h'.list : Multiset α) := by
  cases call with
  | insert ptr =>
    obtain ⟨status, h', returned, result, order⟩ := cHeapInsert_spec compare h ptr
    refine ⟨.status status, h', by rw [heapCall, returned]; rfl, order preorder ordered, ?_⟩
    rcases result with ⟨rfl, same⟩ | ⟨rfl, rfl, large⟩
    · rw [Multiset.coe_eq_coe.mpr same]
      exact .inserted
    · exact .full large
  | getRoot =>
    obtain ⟨ret, h', returned, result, order⟩ := cHeapGetRoot_spec compare h
    obtain ⟨ordered', least⟩ := order preorder ordered
    refine ⟨.pointer ret, h', by rw [heapCall, returned]; rfl, ordered', ?_⟩
    rcases result with ⟨rfl, none, rfl⟩ | ⟨x, rfl, same⟩
    · rw [none]
      exact .empty
    · rw [Multiset.coe_eq_coe.mpr same]
      exact .root fun y member => least x rfl y (Multiset.mem_coe.mp member)

theorem heapRun_refines (preorder : TotalPreorder compare) (ordered : Ordered (Precedes compare) h.list)
    (calls : List (HeapCall α)) :
    ∃ answers h', heapRun compare h calls = some (answers, h') ∧ Ordered (Precedes compare) h'.list ∧
      BagRun compare (h.list : Multiset α) calls answers (h'.list : Multiset α) := by
  induction calls generalizing h with
  | nil => exact ⟨[], h, rfl, ordered, .nil⟩
  | cons call calls ih =>
    obtain ⟨answer, next, returned, order, step⟩ := heapCall_refines preorder ordered call
    obtain ⟨answers, last, rest, order', run⟩ := ih order
    exact ⟨answer :: answers, last, by rw [heapRun, returned, Option.bind_some, rest]; rfl, order', .cons step run⟩

/-- Every sequence of calls answers as the priority multiset does and keeps the heap order. -/
theorem c_heap_refines_priority_multiset (preorder : TotalPreorder compare) (calls : List (HeapCall α)) :
    ∃ answers h, heapRun compare cHeapCreate calls = some (answers, h) ∧
      (∃ bag, BagRun compare 0 calls answers bag ∧ (h.list : Multiset α) = bag) ∧
      (∀ i, 0 < i → ∀ x y, h.list[(i - 1) / 2]? = some x → h.list[i]? = some y → compare x y ≤ 0) ∧
      h.list.length ≤ h.listSize := by
  have start : Ordered (Precedes compare) (cHeapCreate : CHeap α).list := by
    intro i _ x y atParent
    cases atParent
  obtain ⟨answers, h, returned, ordered, run⟩ := heapRun_refines preorder start calls
  exact ⟨answers, h, returned, ⟨_, run, rfl⟩, ordered, h.used⟩

def compareNat (a b : Nat) : Int := if a < b then -1 else if b < a then 1 else 0

theorem compareNat_preorder : TotalPreorder compareNat where
  total a b := by
    unfold compareNat
    grind
  trans first second := by
    unfold compareNat at *
    grind

theorem c_heap_refines_priority_multiset_ties : ∃ answers h,
    heapRun compareNat cHeapCreate [.insert 2, .insert 1, .insert 1, .getRoot, .getRoot] = some (answers, h) ∧
      (∃ bag, BagRun compareNat 0 [.insert 2, .insert 1, .insert 1, .getRoot, .getRoot] answers bag ∧
        (h.list : Multiset Nat) = bag) ∧
      (∀ i, 0 < i → ∀ x y, h.list[(i - 1) / 2]? = some x → h.list[i]? = some y → compareNat x y ≤ 0) ∧
      h.list.length ≤ h.listSize :=
  c_heap_refines_priority_multiset compareNat_preorder _

end NCollectd
