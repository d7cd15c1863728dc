import NCollectd.Base.Libc

/-! `avltree.c` with string keys, as the ordered finite map its operations act on. -/

namespace NCollectd

def strcmpOrder (a b : CString) : Ordering :=
  if strcmp a b < 0 then .lt else if strcmp a b = 0 then .eq else .gt

theorem strcmpOrder_eq_iff : strcmpOrder a b = .eq ↔ a = b := by
  unfold strcmpOrder
  rw [← strcmp_eq_zero_iff]
  split
  · rename_i negative
    simp [ne_of_lt negative]
  · split <;> simp_all

theorem strcmpOrder_lt_iff : strcmpOrder a b = .lt ↔ a < b := by
  unfold strcmpOrder
  rw [← strcmp_neg_iff]
  split
  · simp_all
  · rename_i other
    split <;> simp [other]

theorem strcmpOrder_gt_iff : strcmpOrder a b = .gt ↔ b < a := by
  rw [← strcmp_pos_iff]
  unfold strcmpOrder
  split
  · simp only [reduceCtorEq, false_iff]
    omega
  · split
    · simp_all
    · simp only [true_iff]
      omega

instance : Std.TransCmp strcmpOrder where
  eq_swap := by
    intro a b
    rcases lt_trichotomy a b with less | same | greater
    · rw [strcmpOrder_lt_iff.mpr less, strcmpOrder_gt_iff.mpr less]
      rfl
    · rw [strcmpOrder_eq_iff.mpr same, strcmpOrder_eq_iff.mpr same.symm]
      rfl
    · rw [strcmpOrder_gt_iff.mpr greater, strcmpOrder_lt_iff.mpr greater]
      rfl
  isLE_trans := by
    intro a b c first second
    simp only [← Ordering.ne_gt_iff_isLE, strcmpOrder_gt_iff, not_lt] at first second ⊢
    exact first.trans second

instance : Std.LawfulEqCmp strcmpOrder where
  compare_self := strcmpOrder_eq_iff.mpr rfl
  eq_of_compare := strcmpOrder_eq_iff.mp

/-- `c_avl_tree_t` with strings as keys. -/
abbrev AvlTree (α : Type u) := Std.ExtTreeMap CString α strcmpOrder

def cAvlInsert (tree : AvlTree α) (key : CString) (value : α) : Status × AvlTree α :=
  if key ∈ tree then (EEXIST, tree) else (0, tree.insert key value)

theorem AvlTree.getElem?_insert (tree : AvlTree α) (key other : CString) (value : α) :
    (tree.insert key value)[other]? = if key = other then some value else tree[other]? := by
  rw [Std.ExtTreeMap.getElem?_insert]
  simp only [strcmpOrder_eq_iff]

theorem AvlTree.getElem?_erase (tree : AvlTree α) (key other : CString) :
    (tree.erase key)[other]? = if key = other then none else tree[other]? := by
  rw [Std.ExtTreeMap.getElem?_erase]
  simp only [strcmpOrder_eq_iff]

theorem AvlTree.insert_same (tree : AvlTree α) (found : tree[key]? = some value) :
    tree.insert key value = tree := by
  apply Std.ExtTreeMap.ext_getElem?
  intro other
  rw [AvlTree.getElem?_insert]
  split
  · rename_i same
    rw [← same, found]
  · rfl

theorem AvlTree.insert_eq_self_iff (tree : AvlTree α) (found : tree[key]? = some value) (next : α) :
    tree.insert key next = tree ↔ next = value := by
  constructor
  · intro same
    have stored := AvlTree.getElem?_insert tree key key next
    rw [same, found, if_pos rfl] at stored
    exact (Option.some.inj stored).symm
  · rintro rfl
    exact AvlTree.insert_same tree found

end NCollectd
