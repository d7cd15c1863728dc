import NCollectd.Utils.AvlSearch

namespace NCollectd.Avl

open HeightTree HTree Multiset

variable {κ ν : Type} {t : CAvl κ ν}

theorem freeNode_leaf (live : t.heap.deref n = some entry) (left : entry.left = none) (right : entry.right = none) :
    ∃ t', freeNode t.turns t (some n) = some t' ∧ t'.root = t.root ∧ t'.size = t.size ∧ t'.heap.deref n = none ∧
      ∀ block, block ≠ n → t'.heap.deref block = t.heap.deref block := by
  have freed := Heap.free_live live
  refine ⟨{ t with heap := ⟨t.heap.blocks.set n none⟩ }, ?_, rfl, rfl, ?_, ?_⟩
  · simp [CAvl.turns, freeNode, live, left, right, freed]
  · exact Heap.deref_free_self freed
  · intro block different
    exact Heap.deref_free freed different

theorem isChild_spec (around : Around t.heap.deref t.root path (some child)) :
    isChild t (lowest path) child = some true := by
  cases low : lowest path with
  | none => rfl
  | some block =>
    obtain ⟨entry, found, known⟩ := around.childOf low
    simp [isChild, found, known]

theorem unlink_spec (layout : At t path (orient side y height nil rest)) :
    y.1 ∉ blocks rest + pathBlocks path ∧ ∃ t₁ t₂, replaceChild t (lowest path) y.1 (rootOf rest) = some t₁ ∧
      t₁.modifyIf (rootOf rest) (AvlNode.setParent (lowest path)) = some t₂ ∧ At t₂ path rest ∧ t₂.size = t.size ∧
      t₂.heap.deref y.1 = t.heap.deref y.1 := by
  obtain ⟨stored, around, distinct⟩ := layout
  obtain ⟨_, _, onRest⟩ := stored_orient_iff.mp stored
  rw [rootOf_orient] at around
  rw [blocks_orient, blocks, zero_add, cons_add] at distinct
  obtain ⟨absent, others⟩ := nodup_cons.mp distinct
  obtain ⟨inside, outside, apart⟩ := nodup_add.mp others
  have apart : ∀ block, block ∈ blocks rest → block ∉ pathBlocks path := fun block => disjoint_left.mp apart
  have away := absent
  rw [mem_add, not_or] at away
  obtain ⟨t₁, step₁, root₁, size₁, mem₁⟩ := replaceChild_spec (t := t) (p := lowest path)
    (fun block low => around.live (lowest_mem low)) y.1 (rootOf rest)
  have below₁ : ∀ block ∈ blocks rest, t₁.heap.deref block = t.heap.deref block := by
    intro block member
    rw [mem₁, if_neg fun low => apart block member (lowest_mem low)]
  obtain ⟨t₂, step₂, root₂, size₂, mem₂⟩ := modifyIf_spec (t := t₁) (n := rootOf rest) (by
    intro block root
    obtain ⟨entry, live⟩ := onRest.live (rootOf_mem root)
    exact ⟨entry, (below₁ block (rootOf_mem root)).trans live⟩) (AvlNode.setParent (lowest path))
  refine ⟨absent, t₁, t₂, step₁, step₂, ⟨?_, ?_, others⟩, size₂.trans size₁, ?_⟩
  · apply onRest.reparent inside
    intro block member
    rw [mem₂, below₁ block member]
  · rw [root₂, root₁]
    apply around.replace outside away.2
    intro block member
    rw [mem₂, if_neg fun root => apart block (rootOf_mem root) member, mem₁]
  · rw [mem₂, if_neg fun root => away.1 (rootOf_mem root), mem₁, if_neg fun low => away.2 (lowest_mem low)]

theorem rebalance_place (layout : At t path rest) (balanced : rest.Balanced) (fits : Fits path height)
    (less : rest.stored ≤ height + 1) (more : height ≤ rest.stored + 1) :
    ∃ t' tree', rebalance t.turns t (lowest path) = some t' ∧ At t' [] tree' ∧ tree'.Balanced ∧
      tree'.toList = (plug path rest).toList ∧ Kept t t' (blocks rest + pathBlocks path) := by
  have enough : path.length ≤ t.turns := by
    have bound := layout.depth_add_length_le
    unfold CAvl.turns
    omega
  obtain ⟨t', returned, layout', kept⟩ := rebalance_spec layout balanced fits less more enough
  exact ⟨t', climb path rest, returned, layout', climb_balanced fits balanced less more,
    toList_climb fits balanced less more, kept⟩

theorem root_of_alone (around : Around t.heap.deref t.root path (some child)) (alone : lowest path = none) :
    t.root = some child := by
  cases path with
  | nil => exact around
  | cons => cases alone

theorem children_nodeOf (side : Side) (y : Block × κ × ν) (height : Int) (parent : Option Block) :
    (nodeOf side y height none none parent).left = none ∧ (nodeOf side y height none none parent).right = none := by
  cases side <;> exact ⟨rfl, rfl⟩

theorem dropLeaf_spec (layout : At t path (orient side y height nil nil)) (fits : Fits path height)
    (low : height = 1) :
    ∃ t' tree', dropLeaf t y.1 = some t' ∧ At t' [] tree' ∧ tree'.Balanced ∧
      tree'.toList = (plug path nil).toList ∧ t'.size = t.size := by
  obtain ⟨absent, t₁, t₂, step₁, step₂, layout₂, size₂, same₂⟩ := unlink_spec layout
  have here := (stored_orient_iff.mp layout.stored).1
  have around := layout.around
  rw [rootOf_orient] at around
  obtain rfl : t₁ = t₂ := Option.some.inj step₂
  obtain ⟨t₃, tree', step₃, layout₃, balanced₃, list₃, kept₃⟩ :=
    rebalance_place layout₂ trivial fits (by change 0 ≤ height + 1; omega) (by change height ≤ 0 + 1; omega)
  obtain ⟨left, right⟩ := children_nodeOf side y height (lowest path)
  obtain ⟨t₄, step₄, root₄, size₄, _, mem₄⟩ :=
    freeNode_leaf (((kept₃.others y.1 absent).trans same₂).trans here) left right
  refine ⟨t₄, tree', ?_, layout₃.congr root₄ ?_, balanced₃, list₃, size₄.trans (kept₃.size.trans size₂)⟩
  · simp only [rootOf] at step₁
    simpa [dropLeaf, here, parent_nodeOf, isChild_spec around, step₁, step₃, step₄] using root_of_alone around
  · intro block member
    apply mem₄
    rintro rfl
    rw [blocks_congr list₃, blocks_plug, pathBlocks, add_zero] at member
    exact absent member

theorem spliceNode_spec (layout : At t path (orient side y height nil rest)) (fits : Fits path height)
    (balanced : rest.Balanced) (low : height = 2) (single : rest.stored = 1) :
    ∃ t' tree', spliceNode side.opposite t y.1 = some t' ∧ At t' [] tree' ∧ tree'.Balanced ∧
      tree'.toList = (plug path rest).toList ∧ t'.size = t.size := by
  obtain ⟨absent, t₁, t₂, step₁, step₂, layout₂, size₂, same₂⟩ := unlink_spec layout
  have here := (stored_orient_iff.mp layout.stored).1
  have around := layout.around
  rw [rootOf_orient] at around
  obtain ⟨b, child⟩ : ∃ b, rootOf rest = some b := by
    cases rest with
    | nil => cases single
    | node x => exact ⟨x.1, rfl⟩
  rw [child] at here step₁ step₂
  have top : balance t (some y.1) = some (tilt side.opposite) := by
    cases side with
    | left | right => rw [balance_spec layout, single]; rfl
  obtain ⟨t₃, tree', step₃, layout₃, balanced₃, list₃, kept₃⟩ :=
    rebalance_place layout₂ balanced fits (by omega) (by omega)
  have here₃ := ((kept₃.others y.1 absent).trans same₂).trans here
  obtain ⟨t₄, step₄, root₄, size₄, mem₄⟩ :=
    modify_spec (t := t₃) (n := some y.1) here₃ (AvlNode.setChild side.opposite none)
  have here₄ : t₄.heap.deref y.1 = some (nodeOf side y height none none (lowest path)) := by
    rw [mem₄, if_pos rfl, here₃, Option.map_some, setChild_opposite_nodeOf]
    rfl
  obtain ⟨left, right⟩ := children_nodeOf side y height (lowest path)
  obtain ⟨t₅, step₅, root₅, size₅, _, mem₅⟩ := freeNode_leaf here₄ left right
  refine ⟨t₅, tree', ?_, layout₃.congr (root₅.trans root₄) ?_, balanced₃, list₃, ?_⟩
  · rw [CAvl.modifyIf, if_neg (by simp)] at step₂
    simpa [spliceNode, here, top, parent_nodeOf, child_opposite_nodeOf, isChild_spec around, step₁, step₂, step₃,
      step₄, step₅] using root_of_alone around
  · intro block member
    have different : block ≠ y.1 := by
      rintro rfl
      rw [blocks_congr list₃, blocks_plug, pathBlocks, add_zero] at member
      exact absent member
    rw [mem₅ block different, mem₄, if_neg fun same => different (Option.some.inj same).symm]
  · rw [size₅, size₄, kept₃.size, size₂]

theorem removeLower_spec (side : Side) (layout : At t path (orient side y height nil rest))
    (balanced : (plug path (orient side y height nil rest)).Balanced) :
    ∃ t' tree', removeLower t y.1 = some t' ∧ At t' [] tree' ∧ tree'.Balanced ∧
      tree'.toList = (plug path rest).toList ∧ t'.size = t.size := by
  obtain ⟨sub, fits⟩ := plug_balanced_iff.mp balanced
  rw [stored_orient] at fits
  obtain ⟨_, onRest, same, _, more⟩ := balanced_orient.mp sub
  have here := (stored_orient_iff.mp layout.stored).1
  change height = max 0 rest.stored + 1 at same
  change rest.stored ≤ 0 + 1 at more
  cases child : rootOf rest with
  | none =>
    obtain rfl := eq_nil_of_rootOf child
    have step : removeLower t y.1 = dropLeaf t y.1 := by
      cases side <;> simp [removeLower, here, nodeOf, rootOf]
    rw [step]
    exact dropLeaf_spec layout fits same
  | some b =>
    rw [child] at here
    have step : removeLower t y.1 = spliceNode side.opposite t y.1 := by
      cases side <;> simp [removeLower, here, nodeOf, rootOf, Side.opposite]
    have pos := onRest.pos (by
      rintro rfl
      cases child)
    rw [step]
    exact spliceNode_spec layout fits onRest (by omega) (by omega)

private def inOrder {α : Type} (side : Side) (near far : List α) : List α :=
  match side with
  | .left => near ++ far
  | .right => far ++ near

theorem replace_neighbour (side : Side)
    (layout : At t path (orient side x height near far))
    (balanced : (plug path (orient side x height near far)).Balanced)
    (child : rootOf near = some n) :
    ∃ block r t₁ t' tree', neighbour side t (some x.1) = some (some block) ∧ t.heap.deref block = some r ∧
      (r.left = none ∨ r.right = none) ∧
      t.modify (some x.1) (fun entry => { entry with key := r.key, value := r.value }) = some t₁ ∧
      removeLower t₁ block = some t' ∧ At t' [] tree' ∧ tree'.Balanced ∧ t'.size = t.size ∧
      entriesOf tree' = (before path).map Prod.snd ++ inOrder side (entriesOf near) (entriesOf far) ++
        (after path).map Prod.snd := by
  obtain ⟨here, onNear, _⟩ := stored_orient_iff.mp layout.stored
  have inside : At t (⟨side, x, height, far⟩ :: path) near := at_cons_iff.mpr layout
  have enough : near.depth ≤ t.turns := by
    have bound := inside.depth_add_length_le
    unfold CAvl.turns
    omega
  obtain ⟨lower, y, high, rest, place, ended, sides⟩ := descendLoop_spec side.opposite onNear child enough
  subst place
  have atY := (stored_orient_iff.mp (at_append_iff.mpr inside).stored).1
  obtain ⟨t₁, written, layout₁, kept₁⟩ := rewrite_spec layout (x.1, y.2) height
    (f := fun entry => { entry with key := y.2.1, value := y.2.2 }) rfl (by cases side <;> exact fun a b p => rfl)
  have inside₁ : At t₁ (⟨side, (x.1, y.2), height, far⟩ :: path) _ := at_cons_iff.mpr layout₁
  have balanced₁ : (plug path (orient side (x.1, y.2) height
      (plug lower (orient side.opposite y high nil rest)) far)).Balanced := by
    obtain ⟨sub, fits⟩ := plug_balanced_iff.mp balanced
    refine plug_balanced_iff.mpr ⟨balanced_orient.mpr (balanced_orient.mp sub), ?_⟩
    rwa [stored_orient] at fits ⊢
  obtain ⟨t', tree', removed, layout', balanced', list', size'⟩ := removeLower_spec _
    (at_append_iff.mpr inside₁) (by rwa [plug_append])
  refine ⟨y.1, _, t₁, t', tree', ?_, atY, ?_, ?_, removed, layout', balanced', size'.trans kept₁.size, ?_⟩
  · simp [neighbour, here, child_nodeOf, child, ended]
  · cases side with
    | left => exact .inr rfl
    | right => exact .inl rfl
  · rw [← written]
    cases side <;> rfl
  · rw [entriesOf, list', plug_append, plug, toList_plug]
    cases side with
    | left => simp [Frame.fill, orient, Side.opposite, HTree.toList, toList_plug, entriesOf, inOrder,
        after_of_right sides]
    | right => simp [Frame.fill, orient, Side.opposite, HTree.toList, toList_plug, entriesOf, inOrder,
        before_of_left sides]

theorem removeNode_spec
    (layout : At t path (node x height left right)) (balanced : (plug path (node x height left right)).Balanced) :
    ∃ t' tree', removeNode t x.1 = some t' ∧ At t' [] tree' ∧ tree'.Balanced ∧ t'.size = t.size ∧
      entriesOf tree' = (before path).map Prod.snd ++ (entriesOf left ++ entriesOf right) ++
        (after path).map Prod.snd := by
  have here := layout.stored.1
  cases onTheLeft : rootOf left with
  | none =>
    obtain rfl := eq_nil_of_rootOf onTheLeft
    obtain ⟨t', tree', removed, layout', balanced', list', size'⟩ := removeLower_spec .left layout balanced
    refine ⟨t', tree', ?_, layout', balanced', size', ?_⟩
    · simp [removeNode, here, nodeOf, onTheLeft, removed]
    · simp [entriesOf, list', toList_plug, HTree.toList]
  | some lower =>
    cases onTheRight : rootOf right with
    | none =>
      obtain rfl := eq_nil_of_rootOf onTheRight
      obtain ⟨t', tree', removed, layout', balanced', list', size'⟩ := removeLower_spec .right layout balanced
      refine ⟨t', tree', ?_, layout', balanced', size', ?_⟩
      · simp [removeNode, here, nodeOf, onTheRight, removed]
      · simp [entriesOf, list', toList_plug, HTree.toList]
    | some upper =>
      have top := balance_spec layout
      by_cases higher : 0 < left.stored - right.stored
      · obtain ⟨block, r, t₁, t', tree', found, read, lacks, written, removed, result⟩ :=
          replace_neighbour .left layout balanced onTheLeft
        refine ⟨t', tree', ?_, result⟩
        simp only [removeNode, here, nodeOf, onTheLeft, onTheRight, top, cAvlNodePrev, found, read, written, removed,
          Option.bind_eq_bind, Option.bind_some, if_pos higher, if_pos lacks]
        simp
      · obtain ⟨block, r, t₁, t', tree', found, read, lacks, written, removed, result⟩ :=
          replace_neighbour .right layout balanced onTheRight
        refine ⟨t', tree', ?_, result⟩
        simp only [removeNode, here, nodeOf, onTheLeft, onTheRight, top, cAvlNodeNext, found, read, written, removed,
          Option.bind_eq_bind, Option.bind_some, if_neg higher, if_pos lacks]
        simp

theorem attachNode_spec (layout : At t (frame :: path) nil) (balanced : (plug (frame :: path) nil).Balanced)
    (atNew : t.heap.deref new = some (newNode key value)) (fresh : new ∉ pathBlocks (frame :: path)) :
    ∃ t' tree', attachNode t frame.label.1 new frame.side = (t'.resize 1).map (fun t => (0, t)) ∧ At t' [] tree' ∧
      tree'.Balanced ∧ t'.size = t.size ∧
      tree'.toList = before (frame :: path) ++ (new, key, value) :: after (frame :: path) := by
  obtain ⟨here, sibling, outer⟩ := layout.around
  have distinct := layout.distinct
  rw [blocks, zero_add] at distinct
  obtain ⟨absent, _⟩ := nodup_cons.mp distinct
  have notFrame : new ≠ frame.label.1 := fun same => fresh (same ▸ mem_cons_self _ _)
  obtain ⟨t₁, step₁, root₁, size₁, mem₁⟩ :=
    modify_spec (t := t) (n := some frame.label.1) here (AvlNode.setChild frame.side (some new))
  have new₁ : t₁.heap.deref new = some (newNode key value) := by
    rw [mem₁, if_neg fun same => notFrame (Option.some.inj same).symm, atNew]
  obtain ⟨t₂, step₂, root₂, size₂, mem₂⟩ :=
    modify_spec (t := t₁) (n := some new) new₁ (AvlNode.setParent (some frame.label.1))
  have others : ∀ block ∈ blocks frame.sibling + pathBlocks path, t₂.heap.deref block = t.heap.deref block := by
    intro block member
    rw [mem₂, if_neg, mem₁, if_neg]
    · intro same
      exact absent (Option.some.inj same ▸ member)
    · intro same
      exact fresh (Option.some.inj same ▸ mem_cons_of_mem member)
  have layout₂ : At t₂ (frame :: path) (node (new, key, value) 1 nil nil) := by
    refine ⟨⟨?_, trivial, trivial⟩, ⟨?_, ?_, ?_⟩, ?_⟩
    · rw [mem₂, if_pos rfl, new₁]
      rfl
    · rw [mem₂, if_neg fun same => notFrame (Option.some.inj same), mem₁, if_pos rfl, here, Option.map_some,
        setChild_nodeOf]
      rfl
    · exact sibling.congr fun block member => others block (mem_add.mpr (.inl member))
    · rw [root₂, root₁]
      exact outer.congr fun block member => others block (mem_add.mpr (.inr member))
    · change (new ::ₘ (0 + 0) + pathBlocks (frame :: path)).Nodup
      rw [zero_add, cons_add, zero_add]
      exact nodup_cons.mpr ⟨fresh, distinct⟩
  obtain ⟨_, fits⟩ := plug_balanced_iff.mp balanced
  obtain ⟨t₃, tree', step₃, layout₃, balanced₃, list₃, kept₃⟩ := rebalance_place layout₂
    (by simp [HTree.Balanced, stored]) fits (by simp [stored]) (by simp [stored])
  refine ⟨t₃, tree', ?_, layout₃, balanced₃, ?_, ?_⟩
  · rw [lowest] at step₃
    simp [attachNode, step₁, step₂, step₃]
  · rw [kept₃.size, size₂, size₁]
  · rw [list₃, toList_plug]
    simp [HTree.toList]

end NCollectd.Avl
