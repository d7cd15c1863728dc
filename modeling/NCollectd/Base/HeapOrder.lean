import Mathlib

/-! Binary heaps in a list: position `i` has the children `2 * i + 1` and `2 * i + 2`. -/

namespace NCollectd.HeapOrder

universe u

variable {α : Type u} {i j : Nat}

def parent (i : Nat) : Nat := (i - 1) / 2

theorem parent_lt (positive : 0 < i) : parent i < i := by
  unfold parent
  omega

theorem parent_eq_iff (positive : 0 < i) : parent i = j ↔ i = 2 * j + 1 ∨ i = 2 * j + 2 := by
  unfold parent
  omega

/-- The values at two positions are in order, if there are two. -/
def InOrder (le : α → α → Prop) (list : List α) (i j : Nat) : Prop :=
  ∀ x y, list[i]? = some x → list[j]? = some y → le x y

def Ordered (le : α → α → Prop) (list : List α) : Prop :=
  ∀ i, 0 < i → InOrder le list (parent i) i

/-- In order, but for a value that may be too small for its parent. -/
structure SmallAt (le : α → α → Prop) (list : List α) (hole : Nat) : Prop where
  others : ∀ i, 0 < i → i ≠ hole → InOrder le list (parent i) i
  below : 0 < hole → ∀ i, 0 < i → parent i = hole → InOrder le list (parent hole) i

/-- In order, but for a value that may be too large for its children. -/
structure LargeAt (le : α → α → Prop) (list : List α) (hole : Nat) : Prop where
  others : ∀ i, 0 < i → parent i ≠ hole → InOrder le list (parent i) i
  below : 0 < hole → ∀ i, 0 < i → parent i = hole → InOrder le list (parent hole) i

def exchange (list : List α) (i j : Nat) (x y : α) : List α := (list.set i y).set j x

@[simp] theorem length_exchange : (exchange list i j x y).length = list.length := by
  simp [exchange]

theorem exchange_perm (first : list[i]? = some x) (second : list[j]? = some y) :
    (exchange list i j x y).Perm list := by
  obtain ⟨inside, rfl⟩ := List.getElem?_eq_some_iff.mp first
  obtain ⟨inside', rfl⟩ := List.getElem?_eq_some_iff.mp second
  exact List.set_set_perm inside inside'

theorem getElem?_exchange (first : list[i]? = some x) (second : list[j]? = some y) (k : Nat) :
    (exchange list i j x y)[k]? = if k = j then some x else if k = i then some y else list[k]? := by
  obtain ⟨inside, _⟩ := List.getElem?_eq_some_iff.mp first
  obtain ⟨inside', _⟩ := List.getElem?_eq_some_iff.mp second
  unfold exchange
  by_cases last : k = j
  · subst k
    simp [inside']
  · rw [List.getElem?_set_ne (Ne.symm last), if_neg last]
    by_cases early : k = i
    · subst k
      simp [inside]
    · rw [List.getElem?_set_ne (Ne.symm early), if_neg early]

theorem SmallAt.finish (small : SmallAt le list i) (settled : 0 < i → InOrder le list (parent i) i) :
    Ordered le list := by
  intro j positive
  by_cases same : j = i
  · subst j
    exact settled positive
  · exact small.others j positive same

theorem LargeAt.finish (large : LargeAt le list i)
    (settled : ∀ j, 0 < j → parent j = i → InOrder le list i j) : Ordered le list := by
  intro j positive
  by_cases child : parent j = i
  · rw [child]
    exact settled j positive child
  · exact large.others j positive child

theorem SmallAt.move (small : SmallAt le list i) (trans : ∀ {a b c}, le a b → le b c → le a c)
    (positive : 0 < i) (upper : list[parent i]? = some x) (lower : list[i]? = some y) (smaller : le y x) :
    SmallAt le (exchange list (parent i) i x y) (parent i) := by
  have up := parent_lt positive
  constructor
  · intro j inside different a b atParent atChild
    rw [getElem?_exchange upper lower] at atParent atChild
    by_cases self : j = i
    · subst j
      rw [if_neg (Nat.ne_of_lt up), if_pos rfl] at atParent
      rw [if_pos rfl] at atChild
      cases atParent
      cases atChild
      exact smaller
    · rw [if_neg self, if_neg different] at atChild
      by_cases grandchild : parent j = i
      · rw [if_pos grandchild] at atParent
        cases atParent
        exact small.below positive j inside grandchild x b upper atChild
      · rw [if_neg grandchild] at atParent
        by_cases sibling : parent j = parent i
        · rw [if_pos sibling] at atParent
          cases atParent
          exact trans smaller (small.others j inside self x b (sibling ▸ upper) atChild)
        · rw [if_neg sibling] at atParent
          exact small.others j inside self a b atParent atChild
  · intro higher j inside sibling a b atParent atChild
    have top := parent_lt higher
    rw [getElem?_exchange upper lower, if_neg (by omega), if_neg (by omega)] at atParent
    rw [getElem?_exchange upper lower] at atChild
    have above := small.others (parent i) higher (Nat.ne_of_lt up) a x atParent upper
    by_cases self : j = i
    · rw [if_pos self] at atChild
      cases atChild
      exact above
    · have lowerThan := parent_lt inside
      rw [if_neg self, if_neg (by omega)] at atChild
      exact trans above (small.others j inside self x b (sibling ▸ upper) atChild)

theorem LargeAt.move (large : LargeAt le list i) (positive : 0 < j) (child : parent j = i)
    (upper : list[i]? = some x) (lower : list[j]? = some y) (smaller : le y x)
    (smallest : ∀ k, 0 < k → parent k = i → InOrder le list j k) :
    LargeAt le (exchange list i j x y) j := by
  have down := parent_lt positive
  rw [child] at down
  constructor
  · intro k inside apart a b atParent atChild
    have high := parent_lt inside
    rw [getElem?_exchange upper lower] at atParent atChild
    rw [if_neg apart] at atParent
    by_cases self : k = j
    · subst k
      rw [if_pos child] at atParent
      rw [if_pos rfl] at atChild
      cases atParent
      cases atChild
      exact smaller
    · rw [if_neg self] at atChild
      by_cases sibling : parent k = i
      · rw [if_pos sibling] at atParent
        rw [if_neg (by omega)] at atChild
        cases atParent
        exact smallest k inside sibling y b lower atChild
      · rw [if_neg sibling] at atParent
        by_cases hole : k = i
        · subst k
          rw [if_pos rfl] at atChild
          cases atChild
          exact large.below inside j positive child a y atParent lower
        · rw [if_neg hole] at atChild
          exact large.others k inside sibling a b atParent atChild
  · intro _ k inside grandchild a b atParent atChild
    have high := parent_lt inside
    rw [getElem?_exchange upper lower, child, if_neg (by omega), if_pos rfl] at atParent
    rw [getElem?_exchange upper lower, if_neg (by omega), if_neg (by omega)] at atChild
    cases atParent
    exact large.others k inside (by omega) y b (grandchild ▸ lower) atChild

theorem Ordered.root_le (ordered : Ordered le list) (trans : ∀ {a b c}, le a b → le b c → le a c)
    (refl : ∀ a, le a a) (top : list[0]? = some x) (found : list[i]? = some y) : le x y := by
  induction i using Nat.strongRecOn generalizing y with
  | ind i ih =>
    rcases Nat.eq_zero_or_pos i with rfl | positive
    · cases top.symm.trans found
      exact refl x
    · obtain ⟨inside, _⟩ := List.getElem?_eq_some_iff.mp found
      have up := parent_lt positive
      obtain ⟨z, above⟩ : ∃ z, list[parent i]? = some z :=
        ⟨_, List.getElem?_eq_getElem (Nat.lt_trans up inside)⟩
      exact trans (ih (parent i) up above) (ordered i positive z y above found)

theorem Ordered.append (ordered : Ordered le list) (x : α) : SmallAt le (list ++ [x]) list.length := by
  constructor
  · intro i positive different a b atParent atChild
    have inside : i < list.length := by
      have bound := (List.getElem?_eq_some_iff.mp atChild).1
      simp only [List.length_append, List.length_singleton] at bound
      omega
    rw [List.getElem?_append_left inside] at atChild
    rw [List.getElem?_append_left (Nat.lt_trans (parent_lt positive) inside)] at atParent
    exact ordered i positive a b atParent atChild
  · intro _ i positive child a b _ atChild
    have bound := (List.getElem?_eq_some_iff.mp atChild).1
    have lower := parent_lt positive
    simp only [List.length_append, List.length_singleton] at bound
    omega

theorem Ordered.replaceRoot (ordered : Ordered le (x :: list)) (y : α) : LargeAt le (y :: list) 0 := by
  constructor
  · intro i positive apart a b atParent atChild
    have inner : ∀ k, 0 < k → (y :: list)[k]? = (x :: list)[k]? := by
      intro k above
      cases k with
      | zero => cases above
      | succ k => rfl
    rw [inner _ (Nat.pos_of_ne_zero apart)] at atParent
    rw [inner i positive] at atChild
    exact ordered i positive a b atParent atChild
  · intro impossible
    cases impossible

theorem Ordered.dropLast (ordered : Ordered le (list ++ [x])) : Ordered le list := by
  intro i positive a b atParent atChild
  have inside := (List.getElem?_eq_some_iff.mp atChild).1
  refine ordered i positive a b ?_ ?_
  · rw [List.getElem?_append_left (Nat.lt_trans (parent_lt positive) inside)]
    exact atParent
  · rw [List.getElem?_append_left inside]
    exact atChild

end NCollectd.HeapOrder
