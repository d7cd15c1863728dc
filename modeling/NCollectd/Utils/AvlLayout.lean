import NCollectd.Utils.AvlNodes

/-! How a tree lies in memory: every node in a block of its own. -/

namespace NCollectd.Avl

open HeightTree HTree Multiset

variable {κ ν : Type} {t : CAvl κ ν}

def rootOf : HTree (Block × κ × ν) → Option Block
  | .nil => none
  | .node x _ _ _ => some x.1

def nodeOf (side : Side) (x : Block × κ × ν) (height : Int) (near far parent : Option Block) : AvlNode κ ν :=
  match side with
  | .left => ⟨x.2.1, x.2.2, height, near, far, parent⟩
  | .right => ⟨x.2.1, x.2.2, height, far, near, parent⟩

/-- The tree lies in memory below a parent. -/
def Stored (m : Block → Option (AvlNode κ ν)) : Option Block → HTree (Block × κ × ν) → Prop
  | _, .nil => True
  | parent, .node x height left right =>
    m x.1 = some (nodeOf .left x height (rootOf left) (rootOf right) parent) ∧
      Stored m (some x.1) left ∧ Stored m (some x.1) right

def lowest : List (Frame (Block × κ × ν)) → Option Block
  | [] => none
  | frame :: _ => some frame.label.1

/-- The path lies in memory, around a child. -/
def Around (m : Block → Option (AvlNode κ ν)) (root : Option Block) :
    List (Frame (Block × κ × ν)) → Option Block → Prop
  | [], child => root = child
  | frame :: path, child =>
    m frame.label.1 =
        some (nodeOf frame.side frame.label frame.height child (rootOf frame.sibling) (lowest path)) ∧
      Stored m (some frame.label.1) frame.sibling ∧ Around m root path (some frame.label.1)

def blocks : HTree (Block × κ × ν) → Multiset Block
  | .nil => 0
  | .node x _ left right => x.1 ::ₘ (blocks left + blocks right)

def pathBlocks : List (Frame (Block × κ × ν)) → Multiset Block
  | [] => 0
  | frame :: path => frame.label.1 ::ₘ (blocks frame.sibling + pathBlocks path)

/-- The memory of a tree holds a path and the subtree in its hole, each node in its own block. -/
structure At (t : CAvl κ ν) (path : List (Frame (Block × κ × ν))) (tree : HTree (Block × κ × ν)) : Prop where
  stored : Stored t.heap.deref (lowest path) tree
  around : Around t.heap.deref t.root path (rootOf tree)
  distinct : (blocks tree + pathBlocks path).Nodup

/-- Nothing else in memory has changed. -/
structure Kept (t t' : CAvl κ ν) (used : Multiset Block) : Prop where
  others : ∀ block, block ∉ used → t'.heap.deref block = t.heap.deref block
  size : t'.size = t.size

section

variable (side : Side) (x : Block × κ × ν)

@[simp] theorem rootOf_orient (height : Int) (near far : HTree (Block × κ × ν)) :
    rootOf (orient side x height near far) = some x.1 := by
  cases side <;> rfl

@[simp] theorem rootOf_join (near far : HTree (Block × κ × ν)) :
    rootOf (join side x near far) = some x.1 := rootOf_orient ..

@[simp] theorem blocks_orient (height : Int) (near far : HTree (Block × κ × ν)) :
    blocks (orient side x height near far) = x.1 ::ₘ (blocks near + blocks far) := by
  cases side with
  | left => rfl
  | right => rw [orient, blocks, add_comm]

@[simp] theorem blocks_join (near far : HTree (Block × κ × ν)) :
    blocks (join side x near far) = x.1 ::ₘ (blocks near + blocks far) := blocks_orient ..

end

theorem blocks_eq_toList (tree : HTree (Block × κ × ν)) : blocks tree = tree.toList.map Prod.fst := by
  induction tree with
  | nil => rfl
  | node x height left right first second =>
    rw [blocks, first, second, HTree.toList, List.map_append, List.map_cons, ← coe_add, ← cons_coe,
      add_cons]

theorem blocks_congr (same : tree.toList = other.toList) :
    blocks tree = blocks other := by
  rw [blocks_eq_toList, blocks_eq_toList, same]

theorem stored_orient_iff :
    Stored m parent (orient side x height near far) ↔
      m x.1 = some (nodeOf side x height (rootOf near) (rootOf far) parent) ∧
        Stored m (some x.1) near ∧ Stored m (some x.1) far := by
  cases side with
  | left => exact Iff.rfl
  | right =>
    change (_ ∧ Stored m (some x.1) far ∧ Stored m (some x.1) near) ↔ _
    rw [and_comm (a := Stored m (some x.1) far)]
    rfl

theorem rootOf_mem (root : rootOf tree = some block) : block ∈ blocks tree := by
  cases tree with
  | nil => cases root
  | node x height left right =>
    cases root
    exact mem_cons_self _ _

theorem lowest_mem (low : lowest path = some block) :
    block ∈ pathBlocks path := by
  cases path with
  | nil => cases low
  | cons frame path =>
    cases low
    exact mem_cons_self _ _

theorem Stored.congr (stored : Stored m parent tree)
    (same : ∀ block ∈ blocks tree, m' block = m block) : Stored m' parent tree := by
  induction tree generalizing parent with
  | nil => trivial
  | node x height left right first second =>
    obtain ⟨here, onLeft, onRight⟩ := stored
    refine ⟨?_, first onLeft fun block member => ?_, second onRight fun block member => ?_⟩
    · rw [same _ (mem_cons_self _ _), here]
    · exact same block (mem_cons_of_mem (mem_add.mpr (.inl member)))
    · exact same block (mem_cons_of_mem (mem_add.mpr (.inr member)))

theorem Stored.reparent (stored : Stored m parent tree) (distinct : (blocks tree).Nodup)
    (same : ∀ block ∈ blocks tree, m' block =
      if rootOf tree = some block then (m block).map (AvlNode.setParent other) else m block) :
    Stored m' other tree := by
  cases tree with
  | nil => trivial
  | node x height left right =>
    obtain ⟨here, onLeft, onRight⟩ := stored
    obtain ⟨absent, _⟩ := nodup_cons.mp distinct
    have below : ∀ block ∈ blocks left + blocks right, m' block = m block := by
      intro block member
      rw [same block (mem_cons_of_mem member), if_neg]
      rintro root
      cases root
      exact absent member
    refine ⟨?_, onLeft.congr fun block member => ?_, onRight.congr fun block member => ?_⟩
    · rw [same _ (mem_cons_self _ _), rootOf, if_pos rfl, here]
      rfl
    · exact below block (mem_add.mpr (.inl member))
    · exact below block (mem_add.mpr (.inr member))

theorem Around.congr (around : Around m root path child)
    (same : ∀ block ∈ pathBlocks path, m' block = m block) : Around m' root path child := by
  induction path generalizing child with
  | nil => exact around
  | cons frame path ih =>
    obtain ⟨here, sibling, outer⟩ := around
    refine ⟨?_, sibling.congr fun block member => ?_, ih outer fun block member => ?_⟩
    · rw [same _ (mem_cons_self _ _), here]
    · exact same block (mem_cons_of_mem (mem_add.mpr (.inl member)))
    · exact same block (mem_cons_of_mem (mem_add.mpr (.inr member)))

theorem exchange_nodeOf (other : far ≠ some old) :
    (nodeOf side x height (some old) far parent).exchange old child = nodeOf side x height child far parent := by
  cases side with
  | left => exact if_pos rfl
  | right => exact if_neg other

theorem Around.replace (around : Around m root path (some old))
    (distinct : (pathBlocks path).Nodup) (apart : old ∉ pathBlocks path)
    (same : ∀ block ∈ pathBlocks path, m' block =
      if lowest path = some block then (m block).map (AvlNode.exchange old child) else m block) :
    Around m' (if lowest path = none then child else root) path child := by
  cases path with
  | nil => rfl
  | cons frame path =>
    obtain ⟨here, sibling, outer⟩ := around
    obtain ⟨absent, _⟩ := nodup_cons.mp distinct
    have beyond : ∀ block ∈ blocks frame.sibling + pathBlocks path, m' block = m block := by
      intro block member
      rw [same block (mem_cons_of_mem member), if_neg]
      rintro low
      cases low
      exact absent member
    have other : rootOf frame.sibling ≠ some old := fun root =>
      apart (mem_cons_of_mem (mem_add.mpr (.inl (rootOf_mem root))))
    refine ⟨?_, sibling.congr fun block member => ?_, outer.congr fun block member => ?_⟩
    · rw [same _ (mem_cons_self _ _), lowest, if_pos rfl, here, Option.map_some, exchange_nodeOf other]
    · exact beyond block (mem_add.mpr (.inl member))
    · exact beyond block (mem_add.mpr (.inr member))

theorem blocks_fill (frame : Frame (Block × κ × ν)) (path : List (Frame (Block × κ × ν)))
    (tree : HTree (Block × κ × ν)) :
    blocks (frame.fill tree) + pathBlocks path = blocks tree + pathBlocks (frame :: path) := by
  rw [Frame.fill, blocks_orient, pathBlocks, cons_add, add_cons, add_assoc]

theorem blocks_plug (path : List (Frame (Block × κ × ν))) (tree : HTree (Block × κ × ν)) :
    blocks (plug path tree) = blocks tree + pathBlocks path := by
  induction path generalizing tree with
  | nil => exact (add_zero _).symm
  | cons frame path ih => rw [plug, ih, blocks_fill]

theorem at_cons_iff :
    At t (frame :: path) tree ↔ At t path (frame.fill tree) := by
  have same := blocks_fill frame path tree
  constructor
  · rintro ⟨stored, ⟨here, sibling, outer⟩, distinct⟩
    refine ⟨stored_orient_iff.mpr ⟨here, stored, sibling⟩, ?_, same ▸ distinct⟩
    rwa [Frame.fill, rootOf_orient]
  · rintro ⟨stored, outer, distinct⟩
    obtain ⟨here, inside, sibling⟩ := stored_orient_iff.mp stored
    rw [Frame.fill, rootOf_orient] at outer
    exact ⟨inside, ⟨here, sibling, outer⟩, same ▸ distinct⟩

theorem at_append_iff :
    At t (lower ++ path) tree ↔ At t path (plug lower tree) := by
  induction lower generalizing tree with
  | nil => exact Iff.rfl
  | cons frame lower ih => exact at_cons_iff.trans ih

theorem at_root_iff : At t path tree ↔ At t [] (plug path tree) := by
  rw [← at_append_iff, List.append_nil]

theorem At.congr (layout : At t path tree) (root : t'.root = t.root)
    (same : ∀ block ∈ blocks tree + pathBlocks path, t'.heap.deref block = t.heap.deref block) : At t' path tree := by
  refine ⟨layout.stored.congr fun block member => ?_, ?_, layout.distinct⟩
  · exact same block (mem_add.mpr (.inl member))
  · rw [root]
    exact layout.around.congr fun block member => same block (mem_add.mpr (.inr member))

theorem Stored.live (stored : Stored m parent tree) (member : block ∈ blocks tree) :
    ∃ node, m block = some node := by
  induction tree generalizing parent with
  | nil => cases notMem_zero _ member
  | node x height left right first second =>
    obtain ⟨here, onLeft, onRight⟩ := stored
    rcases mem_cons.mp member with rfl | below
    · exact ⟨_, here⟩
    · rcases mem_add.mp below with onSide | onSide
      · exact first onLeft onSide
      · exact second onRight onSide

theorem Around.live (around : Around m root path child)
    (member : block ∈ pathBlocks path) : ∃ node, m block = some node := by
  induction path generalizing child with
  | nil => cases notMem_zero _ member
  | cons frame path ih =>
    obtain ⟨here, sibling, outer⟩ := around
    rcases mem_cons.mp member with rfl | beyond
    · exact ⟨_, here⟩
    · rcases mem_add.mp beyond with beside | above
      · exact sibling.live beside
      · exact ih outer above

theorem At.live (layout : At t path tree) (member : block ∈ blocks tree + pathBlocks path) :
    ∃ entry, t.heap.deref block = some entry := by
  rcases mem_add.mp member with inside | outside
  · exact layout.stored.live inside
  · exact layout.around.live outside

theorem depth_le_card (tree : HTree (Block × κ × ν)) : tree.depth ≤ (blocks tree).card := by
  induction tree with
  | nil => exact Nat.zero_le _
  | node x height left right first second =>
    rw [depth, blocks, card_cons, card_add]
    omega

theorem length_le_card (path : List (Frame (Block × κ × ν))) : path.length ≤ (pathBlocks path).card := by
  induction path with
  | nil => exact Nat.zero_le _
  | cons frame path ih =>
    rw [List.length_cons, pathBlocks, card_cons, card_add]
    omega

theorem At.depth_add_length_le (layout : At t path tree) : tree.depth + path.length ≤ t.heap.blocks.length := by
  have inside : blocks tree + pathBlocks path ≤ range t.heap.blocks.length := by
    apply (le_iff_subset layout.distinct).mpr
    intro block member
    obtain ⟨entry, live⟩ := layout.live member
    exact mem_range.mpr (Heap.lt_of_deref live)
  have count := card_le_card inside
  rw [card_add, card_range] at count
  have deep := depth_le_card tree
  have long := length_le_card path
  omega

theorem heightOf_stored (stored : Stored t.heap.deref parent tree) :
    t.heightOf (rootOf tree) = some tree.stored := by
  cases tree with
  | nil => rfl
  | node x height left right =>
    rw [rootOf, CAvl.heightOf, stored.1]
    rfl

theorem calcHeight_nodeOf (side : Side)
    (here : t.heap.deref block = some (nodeOf side x height (rootOf near) (rootOf far) parent))
    (onNear : Stored t.heap.deref first near) (onFar : Stored t.heap.deref second far) :
    calcHeight t (some block) = some (max near.stored far.stored + 1) := by
  have higher : ∀ a b : Int, (if a > b then a else b) = max a b := by
    intro a b
    split <;> omega
  cases side with
  | left => simp [calcHeight, here, nodeOf, heightOf_stored onNear, heightOf_stored onFar, higher]
  | right => simp [calcHeight, here, nodeOf, heightOf_stored onNear, heightOf_stored onFar, higher, max_comm]

theorem modify_spec (live : t.deref n = some entry) (f : AvlNode κ ν → AvlNode κ ν) :
    ∃ t', t.modify n f = some t' ∧ t'.root = t.root ∧ t'.size = t.size ∧ ∀ block, t'.heap.deref block =
      if n = some block then (t.heap.deref block).map f else t.heap.deref block := by
  obtain ⟨block, rfl, found⟩ := Option.bind_eq_some_iff.mp live
  have stored : t.heap.store block (f entry) = some ⟨t.heap.blocks.set block (some (f entry))⟩ := Heap.store_live found
  refine ⟨{ t with heap := ⟨t.heap.blocks.set block (some (f entry))⟩ }, ?_, rfl, rfl, fun other => ?_⟩
  · simp [CAvl.modify, found, stored]
  · rw [Heap.deref_store stored other]
    by_cases same : other = block
    · subst same
      rw [if_pos rfl, if_pos rfl, found, Option.map_some]
    · rw [if_neg same, if_neg fun equal => same (Option.some.inj equal).symm]

theorem modifyIf_spec (live : ∀ block, n = some block → ∃ entry, t.heap.deref block = some entry)
    (f : AvlNode κ ν → AvlNode κ ν) :
    ∃ t', t.modifyIf n f = some t' ∧ t'.root = t.root ∧ t'.size = t.size ∧ ∀ block, t'.heap.deref block =
      if n = some block then (t.heap.deref block).map f else t.heap.deref block := by
  cases n with
  | none => exact ⟨t, rfl, rfl, rfl, fun block => rfl⟩
  | some block =>
    obtain ⟨entry, found⟩ := live block rfl
    exact modify_spec (n := some block) found f

theorem replaceChild_spec (live : ∀ block, p = some block → ∃ entry, t.heap.deref block = some entry) (x : Block)
    (child : Option Block) :
    ∃ t', replaceChild t p x child = some t' ∧ t'.root = (if p = none then child else t.root) ∧ t'.size = t.size ∧
      ∀ block, t'.heap.deref block =
        if p = some block then (t.heap.deref block).map (AvlNode.exchange x child) else t.heap.deref block := by
  cases p with
  | none => exact ⟨{ t with root := child }, rfl, rfl, rfl, fun block => rfl⟩
  | some block =>
    obtain ⟨entry, found⟩ := live block rfl
    exact modify_spec (n := some block) found _

end NCollectd.Avl
