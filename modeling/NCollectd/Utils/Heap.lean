import NCollectd.Base.HeapOrder
import NCollectd.Base.Libc

/-! `heap.c`: a binary heap of pointers. -/

namespace NCollectd

open HeapOrder Option

universe u

def sizeMod : Nat := 18446744073709551616

def objectMax : Nat := 9223372036854775807

/-- `c_heap_t`: the entries `list[0]` to `list[list_len - 1]`, and `list_size`. -/
structure CHeap (α : Type u) where
  list : List α
  listSize : Nat
  used : list.length ≤ listSize
  addressable : listSize * 8 ≤ objectMax
deriving DecidableEq

inductive ReheapDirection where
  | up
  | down
deriving DecidableEq

section Operations

variable {α : Type u} (compare : α → α → Int)

theorem CHeap.small_of_inside (h : CHeap α) (inside : i < h.list.length) : i < sizeMod := by
  have bound := h.used
  have limit := h.addressable
  unfold objectMax at limit
  unfold sizeMod
  omega

def childIndex (h : CHeap α) (i : Nat) : Nat := if h.list.length ≤ i % sizeMod then 0 else i % sizeMod

def minChild (h : CHeap α) (left right : Nat) : Option Nat :=
  if left = 0 then some right
  else if right = 0 then some left
  else
    h.list[left]?.bind fun a => h.list[right]?.map fun b => if 0 < compare a b then right else left

def parentIndex (i : Nat) : Nat := ((i + (sizeMod - 1)) % sizeMod) / 2

def CHeap.exchange (h : CHeap α) (i j : Nat) (x y : α) : CHeap α :=
  { h with
    list := HeapOrder.exchange h.list i j x y
    used := by
      rw [length_exchange]
      exact h.used }

theorem childIndex_eq (inside : root < h.list.length) (small : k ≤ 2) :
    childIndex h (2 * root + k) = if h.list.length ≤ 2 * root + k then 0 else 2 * root + k := by
  have bound := h.used
  have limit := h.addressable
  have whole : (2 * root + k) % sizeMod = 2 * root + k := by
    apply Nat.mod_eq_of_lt
    unfold sizeMod
    unfold objectMax at limit
    omega
  rw [childIndex, whole]

theorem childIndex_parent (inside : root < h.list.length) (child : parent i = root) (positive : 0 < i)
    (lower : i < h.list.length) :
    childIndex h (2 * root + 1) = i ∨ childIndex h (2 * root + 2) = i := by
  rw [childIndex_eq inside (by decide), childIndex_eq inside (by decide)]
  rcases (parent_eq_iff positive).mp child with rfl | rfl
  · exact .inl (if_neg (by omega))
  · exact .inr (if_neg (by omega))

theorem parentIndex_eq (positive : 0 < i) (small : i < sizeMod) : parentIndex i = parent i := by
  have wrapped : i + (sizeMod - 1) = i - 1 + sizeMod := by
    unfold sizeMod
    omega
  rw [parentIndex, wrapped, Nat.add_mod_right, Nat.mod_eq_of_lt (by omega), parent]

theorem minChild_eq (children : ¬ (left = 0 ∧ right = 0))
    (found : minChild compare h left right = some least) : least ≠ 0 ∧ (least = left ∨ least = right) := by
  unfold minChild at found
  grind

def reheapStep (h : CHeap α) (root : Nat) : Option (CHeap α × Option Nat) :=
  let left := childIndex h (2 * root + 1)
  let right := childIndex h (2 * root + 2)
  if left = 0 ∧ right = 0 then some (h, none)
  else
    (minChild compare h left right).bind fun least =>
      h.list[root]?.bind fun x => h.list[least]?.map fun y =>
        if compare x y ≤ 0 then (h, none) else (h.exchange root least x y, some least)

theorem reheapStep_cases (step : reheapStep compare h root = some (h', moved)) :
    (childIndex h (2 * root + 1) = 0 ∧ childIndex h (2 * root + 2) = 0 ∧ h' = h ∧ moved = none) ∨
      ∃ least x y, minChild compare h (childIndex h (2 * root + 1)) (childIndex h (2 * root + 2)) = some least ∧
        h.list[root]? = some x ∧ h.list[least]? = some y ∧ 0 < least ∧ parent least = root ∧
        (compare x y ≤ 0 ∧ h' = h ∧ moved = none ∨
          ¬ compare x y ≤ 0 ∧ h' = h.exchange root least x y ∧ moved = some least) := by
  unfold reheapStep at step
  dsimp only at step
  split at step
  · rename_i missing
    cases step
    exact .inl ⟨missing.1, missing.2, rfl, rfl⟩
  · rename_i child
    obtain ⟨least, smaller, rest⟩ := bind_eq_some_iff.mp step
    obtain ⟨x, upper, rest⟩ := bind_eq_some_iff.mp rest
    obtain ⟨y, lower, result⟩ := map_eq_some_iff.mp rest
    have inside := (List.getElem?_eq_some_iff.mp upper).1
    obtain ⟨present, side⟩ := minChild_eq compare child smaller
    have positive := Nat.pos_of_ne_zero present
    rw [childIndex_eq inside (by decide), childIndex_eq inside (by decide)] at side
    refine .inr ⟨least, x, y, smaller, upper, lower, positive, (parent_eq_iff positive).mpr (by grind), ?_⟩
    split at result
    · rename_i settled
      cases result
      exact .inl ⟨settled, rfl, rfl⟩
    · rename_i greater
      cases result
      exact .inr ⟨greater, rfl, rfl⟩

theorem reheapStep_exchange (step : reheapStep compare h root = some (h', some least)) :
    ∃ x y, h' = h.exchange root least x y ∧ h.list[root]? = some x ∧ h.list[least]? = some y ∧
      ¬ compare x y ≤ 0 ∧ 0 < least ∧ parent least = root := by
  obtain ⟨_, _, _, impossible⟩ | ⟨_, x, y, _, upper, lower, positive, child, result⟩ := reheapStep_cases compare step
  · cases impossible
  · obtain ⟨_, _, impossible⟩ | ⟨greater, same, moved⟩ := result
    · cases impossible
    · cases moved
      exact ⟨x, y, same, upper, lower, greater, positive, child⟩

theorem reheapStep_stop (step : reheapStep compare h root = some (h', none)) : h' = h := by
  obtain ⟨_, _, same, _⟩ | ⟨_, _, _, _, _, _, _, _, result⟩ := reheapStep_cases compare step
  · exact same
  · obtain ⟨_, same, _⟩ | ⟨_, _, impossible⟩ := result
    · exact same
    · cases impossible

def reheap (h : CHeap α) (root : Nat) (dir : ReheapDirection) : Option (CHeap α) :=
  match step : reheapStep compare h root with
  | none => none
  | some (h', none) => some h'
  | some (h', some least) =>
    have := reheapStep_exchange compare step
    match dir with
    | .up => if root = 0 then some h' else reheap h' (parentIndex root) .up
    | .down => reheap h' least .down
termination_by match dir with
  | .up => root
  | .down => h.list.length - root
decreasing_by
  · rename_i different
    obtain ⟨_, _, _, upper, _⟩ := this
    have inside := (List.getElem?_eq_some_iff.mp upper).1
    rw [parentIndex_eq (Nat.pos_of_ne_zero different) (h.small_of_inside inside)]
    exact parent_lt (Nat.pos_of_ne_zero different)
  · obtain ⟨x, y, same, upper, _, _, positive, child⟩ := this
    have inside := (List.getElem?_eq_some_iff.mp upper).1
    have lower := parent_lt positive
    simp only [same, CHeap.exchange, length_exchange]
    omega

def cHeapCreate : CHeap α := ⟨[], 0, le_refl 0, by decide⟩

def CHeap.reserve (h : CHeap α) : Option (CHeap α) :=
  if h.list.length = h.listSize then
    if fits : (h.listSize + 16) * 8 ≤ objectMax then
      some ⟨h.list, h.listSize + 16, Nat.le_trans h.used (Nat.le_add_right ..), fits⟩
    else none
  else some h

def CHeap.append (h : CHeap α) (ptr : α) (room : h.list.length < h.listSize) : CHeap α :=
  ⟨h.list ++ [ptr], h.listSize, by simpa [Nat.add_one_le_iff] using room, h.addressable⟩

theorem CHeap.reserve_spec {h h' : CHeap α} (reserved : h.reserve = some h') :
    h'.list = h.list ∧ h'.list.length < h'.listSize := by
  have bound := h.used
  unfold CHeap.reserve at reserved
  split at reserved
  · split at reserved
    · cases reserved
      exact ⟨rfl, by dsimp only; omega⟩
    · cases reserved
  · cases reserved
    exact ⟨rfl, by omega⟩

def cHeapInsert (h : CHeap α) (ptr : α) : Option (Status × CHeap α) :=
  match reserved : h.reserve with
  | none => some (-ENOMEM, h)
  | some h' =>
    (reheap compare (h'.append ptr (CHeap.reserve_spec reserved).2) (parentIndex h'.list.length) .up).map
      fun h'' => (0, h'')

def CHeap.shrink (h : CHeap α) : CHeap α :=
  if smaller : h.list.length + 32 < h.listSize then
    ⟨h.list, h.list.length + 16, Nat.le_add_right .., by have := h.addressable; omega⟩
  else h

def CHeap.replaceRoot (h : CHeap α) (last : α) : CHeap α :=
  ⟨(h.list.set 0 last).dropLast, h.listSize,
    le_trans (by simp) h.used, h.addressable⟩

def cHeapGetRoot (h : CHeap α) : Option (Option α × CHeap α) :=
  if h.list.length = 0 then some (none, h)
  else if h.list.length = 1 then
    h.list[0]?.map fun ret => (some ret, CHeap.shrink ⟨[], h.listSize, Nat.zero_le _, h.addressable⟩)
  else
    h.list[0]?.bind fun ret => h.list[h.list.length - 1]?.bind fun last =>
      (reheap compare (h.replaceRoot last) 0 .down).map fun h' => (some ret, h'.shrink)

end Operations

section Reheap

variable {α : Type u}

theorem childIndex_lt (inside : root < h.list.length) (i : Nat) : childIndex h i < h.list.length := by
  unfold childIndex
  split
  · omega
  · rename_i lower
    omega

theorem minChild_defined (compare : α → α → Int) (first : left < h.list.length) (second : right < h.list.length) :
    ∃ least, minChild compare h left right = some least ∧ least < h.list.length := by
  unfold minChild
  rw [List.getElem?_eq_getElem first, List.getElem?_eq_getElem second]
  split
  · exact ⟨right, rfl, second⟩
  · split
    · exact ⟨left, rfl, first⟩
    · refine ⟨_, rfl, ?_⟩
      dsimp only
      split
      · exact second
      · exact first

theorem reheapStep_defined (compare : α → α → Int) (inside : root < h.list.length) :
    ∃ result, reheapStep compare h root = some result := by
  unfold reheapStep
  dsimp only
  split
  · exact ⟨_, rfl⟩
  · obtain ⟨least, smaller, lower⟩ := minChild_defined compare
      (childIndex_lt inside (2 * root + 1)) (childIndex_lt inside (2 * root + 2))
    rw [smaller, List.getElem?_eq_getElem inside, bind_some, bind_some,
      List.getElem?_eq_getElem lower]
    exact ⟨_, rfl⟩

theorem reheap_defined (compare : α → α → Int) (dir : ReheapDirection) (inside : root < h.list.length) :
    ∃ h', reheap compare h root dir = some h' ∧ h'.list.Perm h.list ∧ h'.listSize = h.listSize := by
  fun_induction reheap compare h root dir with
  | case1 h root dir step =>
    obtain ⟨_, defined⟩ := reheapStep_defined compare inside
    rw [step] at defined
    cases defined
  | case2 h root dir h' step =>
    obtain rfl := reheapStep_stop compare step
    exact ⟨_, rfl, .refl _, rfl⟩
  | case3 h h' least step =>
    obtain ⟨x, y, rfl, upper, lower, _⟩ := reheapStep_exchange compare step
    exact ⟨_, rfl, exchange_perm upper lower, rfl⟩
  | case4 h root h' least step _ above ih =>
    obtain ⟨x, y, rfl, upper, lower, _⟩ := reheapStep_exchange compare step
    have shorter : parentIndex root < (h.exchange root least x y).list.length := by
      rw [parentIndex_eq (Nat.pos_of_ne_zero above) (h.small_of_inside inside)]
      simp only [CHeap.exchange, length_exchange]
      exact Nat.lt_trans (parent_lt (Nat.pos_of_ne_zero above)) inside
    obtain ⟨result, returned, same, size⟩ := ih shorter
    exact ⟨result, returned, same.trans (exchange_perm upper lower), size⟩
  | case5 h root h' least step _ ih =>
    obtain ⟨x, y, rfl, upper, lower, _⟩ := reheapStep_exchange compare step
    have shorter : least < (h.exchange root least x y).list.length := by
      simp only [CHeap.exchange, length_exchange]
      exact (List.getElem?_eq_some_iff.mp lower).1
    obtain ⟨result, returned, same, size⟩ := ih shorter
    exact ⟨result, returned, same.trans (exchange_perm upper lower), size⟩

end Reheap

/-- A comparison whose result `≤ 0` is a total preorder. -/
structure TotalPreorder {α : Type u} (compare : α → α → Int) : Prop where
  total : ∀ a b, compare a b ≤ 0 ∨ compare b a ≤ 0
  trans : ∀ {a b c}, compare a b ≤ 0 → compare b c ≤ 0 → compare a c ≤ 0

section Order

variable {α : Type u} {compare : α → α → Int}

/-- The order of a heap's entries. -/
def Precedes (compare : α → α → Int) (a b : α) : Prop := compare a b ≤ 0

section

variable (preorder : TotalPreorder compare)
include preorder

theorem TotalPreorder.refl (a : α) : Precedes compare a a :=
  (preorder.total a a).elim id id

theorem TotalPreorder.precedes_trans (first : Precedes compare a b)
    (second : Precedes compare b c) : Precedes compare a c :=
  preorder.trans first second

theorem TotalPreorder.of_greater (greater : ¬ compare a b ≤ 0) : Precedes compare b a :=
  (preorder.total a b).resolve_left greater

theorem minChild_precedes (inside : root < h.list.length)
    (found : minChild compare h (childIndex h (2 * root + 1)) (childIndex h (2 * root + 2)) = some least)
    (positive : 0 < i) (child : parent i = root) : InOrder (Precedes compare) h.list least i := by
  intro a b atLeast atChild
  have lower := (List.getElem?_eq_some_iff.mp atChild).1
  have self : least = i → Precedes compare a b := by
    intro chosen
    subst chosen
    cases atLeast.symm.trans atChild
    exact preorder.refl a
  have side := childIndex_parent inside child positive lower
  generalize childIndex h (2 * root + 1) = left at found side
  generalize childIndex h (2 * root + 2) = right at found side
  unfold minChild at found
  split at found
  · cases found
    exact self (side.resolve_left (by omega))
  · split at found
    · cases found
      exact self (side.resolve_right (by omega))
    · obtain ⟨c, atLeft, rest⟩ := bind_eq_some_iff.mp found
      obtain ⟨d, atRight, chosen⟩ := map_eq_some_iff.mp rest
      split at chosen
      · rename_i greater
        rcases side with rfl | rfl
        · subst chosen
          cases atLeft.symm.trans atChild
          cases atRight.symm.trans atLeast
          exact preorder.of_greater (by omega)
        · exact self chosen.symm
      · rename_i smaller
        rcases side with rfl | rfl
        · exact self chosen.symm
        · subst chosen
          cases atLeft.symm.trans atLeast
          cases atRight.symm.trans atChild
          exact Int.not_lt.mp smaller

theorem reheapStep_settled (inside : root < h.list.length)
    (step : reheapStep compare h root = some (h', none)) (positive : 0 < i) (child : parent i = root) :
    InOrder (Precedes compare) h.list root i := by
  intro a b atRoot atChild
  have lower := (List.getElem?_eq_some_iff.mp atChild).1
  obtain ⟨noLeft, noRight, _⟩ | ⟨least, x, y, found, upper, chosen, _, _, result⟩ := reheapStep_cases compare step
  · have side := childIndex_parent inside child positive lower
    omega
  · obtain ⟨settled, _⟩ | ⟨_, _, impossible⟩ := result
    · cases upper.symm.trans atRoot
      exact preorder.trans settled (minChild_precedes preorder inside found positive child y b chosen atChild)
    · cases impossible

theorem reheapStep_smallest (inside : root < h.list.length)
    (step : reheapStep compare h root = some (h', some least)) (positive : 0 < i) (child : parent i = root) :
    InOrder (Precedes compare) h.list least i := by
  obtain ⟨_, _, _, impossible⟩ | ⟨_, x, y, found, _, _, _, _, result⟩ := reheapStep_cases compare step
  · cases impossible
  · obtain ⟨_, _, impossible⟩ | ⟨_, _, moved⟩ := result
    · cases impossible
    · cases moved
      exact minChild_precedes preorder inside found positive child

theorem reheap_up (small : SmallAt (Precedes compare) h.list i) (positive : 0 < i)
    (inside : i < h.list.length) (returned : reheap compare h (parent i) .up = some h') :
    Ordered (Precedes compare) h'.list := by
  induction i using Nat.strongRecOn generalizing h with
  | ind i ih =>
    have above : parent i < h.list.length := lt_trans (parent_lt positive) inside
    rw [reheap] at returned
    split at returned
    · cases returned
    · rename_i step
      cases returned
      rw [reheapStep_stop compare step]
      exact small.finish fun _ => reheapStep_settled preorder above step positive rfl
    · rename_i least step
      obtain ⟨x, y, same, upper, lower, greater, present, child⟩ := reheapStep_exchange compare step
      have hole : least = i := by
        by_contra different
        exact greater (small.others least present different x y (child ▸ upper) lower)
      subst same
      subst hole
      have smaller := preorder.of_greater greater
      have moved := small.move preorder.precedes_trans present upper lower smaller
      dsimp only at returned
      split at returned
      · rename_i top
        cases returned
        exact moved.finish fun positive => absurd top (ne_of_gt positive)
      · rename_i higher
        have higher := Nat.pos_of_ne_zero higher
        rw [parentIndex_eq higher (h.small_of_inside above)] at returned
        refine ih (parent least) (parent_lt positive) moved higher ?_ returned
        simpa only [CHeap.exchange, length_exchange] using above

theorem reheap_down (large : LargeAt (Precedes compare) h.list root) (inside : root < h.list.length)
    (returned : reheap compare h root .down = some h') :
    Ordered (Precedes compare) h'.list := by
  induction gap : h.list.length - root using Nat.strongRecOn generalizing h root with
  | ind n ih =>
    rw [reheap] at returned
    split at returned
    · cases returned
    · rename_i step
      cases returned
      rw [reheapStep_stop compare step]
      exact large.finish fun j positive child => reheapStep_settled preorder inside step positive child
    · rename_i least step
      obtain ⟨x, y, same, upper, lower, greater, positive, child⟩ := reheapStep_exchange compare step
      subst same
      have down := parent_lt positive
      have within := (List.getElem?_eq_some_iff.mp lower).1
      have moved := large.move positive child upper lower (preorder.of_greater greater)
        fun k above sibling => reheapStep_smallest preorder inside step above sibling
      refine ih _ ?_ moved ?_ returned rfl
      · simp only [CHeap.exchange, length_exchange]
        omega
      · simpa only [CHeap.exchange, length_exchange] using within

end

end Order

end NCollectd
