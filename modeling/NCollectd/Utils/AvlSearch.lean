import NCollectd.Base.KeyOrder
import NCollectd.Utils.AvlRebalance

namespace NCollectd.Avl

open HeightTree HTree KeyOrder

variable {κ ν : Type} {compare : κ → κ → Int}

def entriesOf (tree : HTree (Block × κ × ν)) : List (κ × ν) := tree.toList.map Prod.snd

@[simp] theorem entriesOf_nil : entriesOf (nil : HTree (Block × κ × ν)) = [] := rfl

@[simp] theorem entriesOf_node (x : Block × κ × ν) (height : Int) (left right : HTree (Block × κ × ν)) :
    entriesOf (node x height left right) = entriesOf left ++ x.2 :: entriesOf right := by
  simp [entriesOf, toList]

theorem ascending_node
    (increasing : Ascending compare (entriesOf (node x height left right))) :
    Ascending compare (entriesOf left) ∧ Ascending compare (entriesOf right) ∧
      (∀ entry ∈ entriesOf left, compare entry.1 x.2.1 < 0) ∧
        ∀ entry ∈ entriesOf right, compare x.2.1 entry.1 < 0 := by
  rw [entriesOf_node] at increasing
  obtain ⟨both, below, above⟩ := ascending_insert_iff.mp increasing
  obtain ⟨first, second, _⟩ := List.pairwise_append.mp both
  exact ⟨first, second, below, above⟩

theorem searchLoop_spec (order : Comparison compare) (stored : Stored t.heap.deref parent tree)
    (increasing : Ascending compare (entriesOf tree)) (enough : tree.depth ≤ turns) :
    (searchLoop compare t key turns (rootOf tree) = some none ∧ ∀ entry ∈ entriesOf tree, compare key entry.1 ≠ 0) ∨
      ∃ path x height left right, tree = plug path (node x height left right) ∧
        searchLoop compare t key turns (rootOf tree) = some (some x.1) ∧ compare key x.2.1 = 0 := by
  induction tree generalizing parent turns with
  | nil => exact .inl ⟨by rw [rootOf, searchLoop], nofun⟩
  | node x height left right first second =>
    obtain ⟨here, onLeft, onRight⟩ := stored
    obtain ⟨inLeft, inRight, below, above⟩ := ascending_node increasing
    cases turns with
    | zero => cases enough
    | succ turns =>
      rw [depth, Nat.add_le_add_iff_right, Nat.max_le] at enough
      have step : searchLoop compare t key (turns + 1) (rootOf (node x height left right)) =
          if compare key x.2.1 = 0 then some (some x.1)
          else if compare key x.2.1 < 0 then searchLoop compare t key turns (rootOf left)
          else searchLoop compare t key turns (rootOf right) := by
        simp [rootOf, searchLoop, here, nodeOf]
      by_cases same : compare key x.2.1 = 0
      · exact .inr ⟨[], x, height, left, right, rfl, by rw [step, if_pos same], same⟩
      by_cases less : compare key x.2.1 < 0
      · rw [step, if_neg same, if_pos less]
        rcases first onLeft inLeft enough.1 with ⟨none, absent⟩ | ⟨path, y, high, l, r, place, found, equal⟩
        · refine .inl ⟨none, fun entry member => ?_⟩
          rw [entriesOf_node, List.mem_append, List.mem_cons] at member
          rcases member with member | rfl | member
          · exact absent entry member
          · exact same
          · exact Int.ne_of_lt (order.lt_trans less (above entry member))
        · refine .inr ⟨path ++ [⟨.left, x, height, right⟩], y, high, l, r, ?_, found, equal⟩
          rw [plug_append, ← place]
          rfl
      · rw [step, if_neg same, if_neg less]
        have greater : compare x.2.1 key < 0 := (order.swap x.2.1 key).mpr (by omega)
        rcases second onRight inRight enough.2 with ⟨none, absent⟩ | ⟨path, y, high, l, r, place, found, equal⟩
        · refine .inl ⟨none, fun entry member equal => ?_⟩
          rw [entriesOf_node, List.mem_append, List.mem_cons] at member
          rcases member with member | rfl | member
          · have lower := order.lt_trans (below entry member) greater
            rw [order.eq_comm.mp equal] at lower
            exact Int.lt_irrefl 0 lower
          · exact same equal
          · exact absent entry member equal
        · refine .inr ⟨path ++ [⟨.right, x, height, left⟩], y, high, l, r, ?_, found, equal⟩
          rw [plug_append, ← place]
          rfl

theorem search_spec (order : Comparison compare) (layout : At t [] tree)
    (increasing : Ascending compare (entriesOf tree)) (key : κ) :
    (search compare t key = some none ∧ ∀ entry ∈ entriesOf tree, compare key entry.1 ≠ 0) ∨
      ∃ path x height left right, tree = plug path (node x height left right) ∧
        search compare t key = some (some x.1) ∧ compare key x.2.1 = 0 := by
  have root : t.root = rootOf tree := layout.around
  have enough : tree.depth ≤ t.turns := by
    have bound := layout.depth_add_length_le
    exact Nat.le_succ_of_le bound
  rw [search, root]
  exact searchLoop_spec order layout.stored increasing enough

theorem insertLoop_spec (new : Block) (order : Comparison compare) (stored : Stored t.heap.deref parent tree)
    (increasing : Ascending compare (entriesOf tree)) (root : rootOf tree = some nptr) (enough : tree.depth ≤ turns) :
    (insertLoop compare t key new turns nptr = (freeNode t.turns t (some new)).map (fun t => (EEXIST, t)) ∧
        ∃ entry ∈ entriesOf tree, compare entry.1 key = 0) ∨
      ∃ frame path, tree = plug (frame :: path) nil ∧
        insertLoop compare t key new turns nptr = attachNode t frame.label.1 new frame.side ∧
        (∀ x ∈ before (frame :: path), compare x.2.1 key < 0) ∧
        ∀ x ∈ after (frame :: path), compare key x.2.1 < 0 := by
  induction tree generalizing parent turns nptr with
  | nil => cases root
  | node x height left right first second =>
    cases root
    obtain ⟨here, onLeft, onRight⟩ := stored
    obtain ⟨inLeft, inRight, below, above⟩ := ascending_node increasing
    cases turns with
    | zero => cases enough
    | succ turns =>
      rw [depth, Nat.add_le_add_iff_right, Nat.max_le] at enough
      by_cases same : compare x.2.1 key = 0
      · refine .inl ⟨by simp [insertLoop, here, nodeOf, same], x.2, ?_, same⟩
        simp
      by_cases less : compare x.2.1 key < 0
      · have lower : ∀ y ∈ left.toList ++ [x], compare y.2.1 key < 0 := by
          intro y member
          rcases List.mem_append.mp member with inside | last
          · exact order.lt_trans (below y.2 (List.mem_map_of_mem inside)) less
          · rw [List.mem_singleton.mp last]
            exact less
        cases child : rootOf right with
        | none =>
          obtain rfl : right = nil := by
            cases right with
            | nil => rfl
            | node => cases child
          refine .inr ⟨⟨.right, x, height, left⟩, [], rfl, ?_, ?_, List.forall_mem_nil _⟩
          · simp [insertLoop, here, nodeOf, same, less, AvlNode.child, rootOf]
          · exact lower
        | some next =>
          have step : insertLoop compare t key new (turns + 1) x.1 = insertLoop compare t key new turns next := by
            simp [insertLoop, here, nodeOf, same, less, AvlNode.child, child]
          rw [step]
          rcases second onRight inRight child enough.2 with ⟨ended, entry, member, equal⟩ |
            ⟨frame, path, place, ended, smaller, larger⟩
          · exact .inl ⟨ended, entry, by simp [member], equal⟩
          · refine .inr ⟨frame, path ++ [⟨.right, x, height, left⟩], ?_, ended, ?_, ?_⟩
            · rw [← List.cons_append, plug_append, ← place]
              rfl
            · rw [← List.cons_append, before_append]
              intro y member
              rcases List.mem_append.mp member with outside | inside
              · exact lower y outside
              · exact smaller y inside
            · rw [← List.cons_append, after_append]
              simpa [after] using larger
      · have greater : compare key x.2.1 < 0 := (order.swap key x.2.1).mpr (by omega)
        have upper : ∀ y ∈ x :: right.toList, compare key y.2.1 < 0 := by
          intro y member
          rcases List.mem_cons.mp member with rfl | inside
          · exact greater
          · exact order.lt_trans greater (above y.2 (List.mem_map_of_mem inside))
        cases child : rootOf left with
        | none =>
          obtain rfl : left = nil := by
            cases left with
            | nil => rfl
            | node => cases child
          refine .inr ⟨⟨.left, x, height, right⟩, [], rfl, ?_, List.forall_mem_nil _, ?_⟩
          · simp [insertLoop, here, nodeOf, same, less, AvlNode.child, rootOf]
          · simpa [after] using upper
        | some next =>
          have step : insertLoop compare t key new (turns + 1) x.1 = insertLoop compare t key new turns next := by
            simp [insertLoop, here, nodeOf, same, less, AvlNode.child, child]
          rw [step]
          rcases first onLeft inLeft child enough.1 with ⟨ended, entry, member, equal⟩ |
            ⟨frame, path, place, ended, smaller, larger⟩
          · exact .inl ⟨ended, entry, by simp [member], equal⟩
          · refine .inr ⟨frame, path ++ [⟨.left, x, height, right⟩], ?_, ended, ?_, ?_⟩
            · rw [← List.cons_append, plug_append, ← place]
              rfl
            · rw [← List.cons_append, before_append]
              simpa [before] using smaller
            · rw [← List.cons_append, after_append]
              intro y member
              rcases List.mem_append.mp member with inside | outside
              · exact larger y inside
              · exact upper y (by simpa [after] using outside)

theorem eq_nil_of_rootOf (none : rootOf tree = none) : tree = nil := by
  cases tree with
  | nil => rfl
  | node => cases none

theorem descendLoop_spec (side : Side) (stored : Stored t.heap.deref parent tree) (root : rootOf tree = some n)
    (enough : tree.depth ≤ turns) :
    ∃ path y height rest, tree = plug path (orient side y height nil rest) ∧
      descendLoop side t turns n = some y.1 ∧ ∀ frame ∈ path, frame.side = side := by
  induction turns generalizing parent tree n with
  | zero =>
    cases tree with
    | nil => cases root
    | node => cases enough
  | succ turns ih =>
    obtain ⟨x, height, near, far, rfl⟩ := exists_orient side tree (by
      rintro rfl
      cases root)
    rw [rootOf_orient] at root
    cases root
    obtain ⟨here, onNear, _⟩ := stored_orient_iff.mp stored
    have shallow : near.depth ≤ turns := by
      cases side <;> simp only [orient, depth] at enough <;> omega
    cases child : rootOf near with
    | none =>
      obtain rfl := eq_nil_of_rootOf child
      refine ⟨[], x, height, far, rfl, ?_, List.forall_mem_nil _⟩
      simp [descendLoop, here, child_nodeOf, child]
    | some next =>
      obtain ⟨path, y, high, rest, place, ended, sides⟩ := ih onNear child shallow
      refine ⟨path ++ [⟨side, x, height, far⟩], y, high, rest, ?_, ?_, ?_⟩
      · rw [plug_append, ← place]
        rfl
      · simpa [descendLoop, here, child_nodeOf, child] using ended
      · intro frame member
        rcases List.mem_append.mp member with inside | last
        · exact sides frame inside
        · rw [List.mem_singleton.mp last]

theorem leafLoop_spec (stored : Stored t.heap.deref parent tree) (root : rootOf tree = some n)
    (enough : tree.depth ≤ turns) :
    ∃ path x height, tree = plug path (node x height nil nil) ∧ leafLoop t turns n = some x.1 := by
  induction tree generalizing parent turns n with
  | nil => cases root
  | node x height left right first second =>
    cases root
    obtain ⟨here, onLeft, onRight⟩ := stored
    cases turns with
    | zero => cases enough
    | succ turns =>
      rw [depth, Nat.add_le_add_iff_right, Nat.max_le] at enough
      have goLeft : ∀ next, rootOf left = some next → ∃ path y high,
          node x height left right = plug path (node y high nil nil) ∧ leafLoop t turns next = some y.1 := by
        intro next child
        obtain ⟨path, y, high, place, ended⟩ := first onLeft child enough.1
        refine ⟨path ++ [⟨.left, x, height, right⟩], y, high, ?_, ended⟩
        rw [plug_append, ← place]
        rfl
      have goRight : ∀ next, rootOf right = some next → ∃ path y high,
          node x height left right = plug path (node y high nil nil) ∧ leafLoop t turns next = some y.1 := by
        intro next child
        obtain ⟨path, y, high, place, ended⟩ := second onRight child enough.2
        refine ⟨path ++ [⟨.right, x, height, left⟩], y, high, ?_, ended⟩
        rw [plug_append, ← place]
        rfl
      cases onTheLeft : rootOf left with
      | none =>
        obtain rfl := eq_nil_of_rootOf onTheLeft
        cases onTheRight : rootOf right with
        | none =>
          obtain rfl := eq_nil_of_rootOf onTheRight
          exact ⟨[], x, height, rfl, by simp [leafLoop, here, nodeOf, onTheLeft]⟩
        | some next => simpa [leafLoop, here, nodeOf, onTheLeft, onTheRight] using goRight next onTheRight
      | some lower =>
        cases onTheRight : rootOf right with
        | none => simpa [leafLoop, here, nodeOf, onTheLeft, onTheRight] using goLeft lower onTheLeft
        | some upper =>
          have leftHeight := heightOf_stored onLeft
          have rightHeight := heightOf_stored onRight
          rw [onTheLeft, CAvl.heightOf] at leftHeight
          rw [onTheRight, CAvl.heightOf] at rightHeight
          have step : leafLoop t (turns + 1) x.1 =
              if left.stored > right.stored then leafLoop t turns lower else leafLoop t turns upper := by
            simp [leafLoop, here, nodeOf, onTheLeft, onTheRight, leftHeight, rightHeight]
          rw [step]
          split
          · exact goLeft lower onTheLeft
          · exact goRight upper onTheRight

end NCollectd.Avl
