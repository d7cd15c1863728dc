import NCollectd.Utils.AvlLayout

namespace NCollectd.Avl

open HeightTree HTree Option Multiset

variable {κ ν : Type} {t : CAvl κ ν}

/-- The blocks that a rotation moves are different from all others. -/
private structure Apart (x y : Block) (outer inner far above : Multiset Block) : Prop where
  different : x ≠ y
  upper : x ∉ outer ∧ x ∉ inner ∧ x ∉ far ∧ x ∉ above
  lower : y ∉ outer ∧ y ∉ inner ∧ y ∉ far ∧ y ∉ above
  inside : inner.Nodup ∧ above.Nodup
  outerApart : ∀ block ∈ outer, block ∉ inner ∧ block ∉ above
  innerApart : ∀ block ∈ inner, block ∉ far ∧ block ∉ above
  farApart : ∀ block ∈ far, block ∉ above

theorem apart_of_nodup {outer inner far above : Multiset Block}
    (distinct : (a ::ₘ ((b ::ₘ (outer + inner)) + far) + above).Nodup) : Apart a b outer inner far above := by
  simp only [cons_add, nodup_cons, mem_cons, mem_add, nodup_add,
    disjoint_left, not_or] at distinct
  obtain ⟨⟨different, ⟨⟨xOuter, xInner⟩, xFar⟩, xAbove⟩, ⟨⟨⟨yOuter, yInner⟩, yFar⟩, yAbove⟩,
    ⟨⟨_, onInner, outerInner⟩, _, pairFar⟩, onAbove, allAbove⟩ := distinct
  refine ⟨different, ⟨xOuter, xInner, xFar, xAbove⟩, ⟨yOuter, yInner, yFar, yAbove⟩, ⟨onInner, onAbove⟩, ?_, ?_, ?_⟩
  · exact fun block member => ⟨outerInner member, allAbove (.inl (.inl member))⟩
  · exact fun block member => ⟨pairFar (.inr member), allAbove (.inl (.inr member))⟩
  · exact fun block member => allAbove (.inr member)

theorem setChild_nodeOf :
    (nodeOf side x height near far' parent).setChild side other = nodeOf side x height other far' parent := by
  cases side <;> rfl

theorem setChild_opposite_nodeOf :
    (nodeOf side x height near far' parent).setChild side.opposite other = nodeOf side x height near other parent := by
  cases side <;> rfl

theorem setParent_nodeOf :
    (nodeOf side x height near far' parent).setParent other = nodeOf side x height near far' other := by
  cases side <;> rfl

theorem rotateLinks_spec
    (atX : t.heap.deref x.1 = some (nodeOf side x high (some y.1) c p))
    (atY : t.heap.deref y.1 = some (nodeOf side y middle a b (some x.1)))
    (atB : ∀ block, b = some block → block ≠ x.1 ∧ block ≠ y.1 ∧ p ≠ some block ∧
      ∃ entry, t.heap.deref block = some entry)
    (atP : ∀ block, p = some block → block ≠ x.1 ∧ block ≠ y.1 ∧
      ∃ entry, t.heap.deref block = some entry ∧ (entry.left = some x.1 ∨ entry.right = some x.1))
    (different : x.1 ≠ y.1) :
    ∃ t', rotateLinks side t x.1 (some y.1) b p = some t' ∧ t'.size = t.size ∧
      t'.root = (if p = none then some y.1 else t.root) ∧
      t'.heap.deref x.1 = some (nodeOf side x high b c (some y.1)) ∧
      t'.heap.deref y.1 = some (nodeOf side y middle a (some x.1) p) ∧
      ∀ block, block ≠ x.1 → block ≠ y.1 → t'.heap.deref block =
        if p = some block then (t.heap.deref block).map (AvlNode.exchange x.1 (some y.1))
        else if b = some block then (t.heap.deref block).map (AvlNode.setParent (some x.1))
        else t.heap.deref block := by
  have bx : b ≠ some x.1 := fun same => (atB _ same).1 rfl
  have byy : b ≠ some y.1 := fun same => (atB _ same).2.1 rfl
  have px : p ≠ some x.1 := fun same => (atP _ same).1 rfl
  have py : p ≠ some y.1 := fun same => (atP _ same).2.1 rfl
  have xy : (some x.1 : Option Block) ≠ some y.1 := fun same => different (some.inj same)
  obtain ⟨t₁, step₁, root₁, size₁, mem₁⟩ := modify_spec (t := t) (n := some x.1) atX (AvlNode.setChild side b)
  obtain ⟨t₂, step₂, root₂, size₂, mem₂⟩ := modifyIf_spec (t := t₁) (n := b) (by
    intro block same
    obtain ⟨notX, _, _, live⟩ := atB block same
    rw [mem₁, if_neg fun equal => notX (some.inj equal).symm]
    exact live) (AvlNode.setParent (some x.1))
  have x₂ : t₂.heap.deref x.1 = some (nodeOf side x high b c p) := by
    rw [mem₂, if_neg bx, mem₁, if_pos rfl, atX, map_some, setChild_nodeOf]
  have y₂ : t₂.heap.deref y.1 = some (nodeOf side y middle a b (some x.1)) := by
    rw [mem₂, if_neg byy, mem₁, if_neg xy, atY]
  obtain ⟨t₃, step₃, root₃, size₃, mem₃⟩ := modify_spec (t := t₂) (n := some x.1) x₂ (AvlNode.setParent (some y.1))
  have y₃ : t₃.heap.deref y.1 = some (nodeOf side y middle a b (some x.1)) := by rw [mem₃, if_neg xy, y₂]
  obtain ⟨t₄, step₄, root₄, size₄, mem₄⟩ :=
    modify_spec (t := t₃) (n := some y.1) y₃ (AvlNode.setChild side.opposite (some x.1))
  have y₄ : t₄.heap.deref y.1 = some (nodeOf side y middle a (some x.1) (some x.1)) := by
    rw [mem₄, if_pos rfl, y₃, map_some, setChild_opposite_nodeOf]
  obtain ⟨t₅, step₅, root₅, size₅, mem₅⟩ := modify_spec (t := t₄) (n := some y.1) y₄ (AvlNode.setParent p)
  have others₅ : ∀ block, block ≠ x.1 → block ≠ y.1 → t₅.heap.deref block =
      if b = some block then (t.heap.deref block).map (AvlNode.setParent (some x.1)) else t.heap.deref block := by
    intro block notX notY
    have toX : (some x.1 : Option Block) ≠ some block := fun same => notX (some.inj same).symm
    have toY : (some y.1 : Option Block) ≠ some block := fun same => notY (some.inj same).symm
    rw [mem₅, if_neg toY, mem₄, if_neg toY, mem₃, if_neg toX, mem₂, mem₁, if_neg toX]
  have p₅ : ∀ block, p = some block → t₅.heap.deref block = t.heap.deref block := by
    intro block same
    obtain ⟨notX, notY, _⟩ := atP block same
    rw [others₅ block notX notY, if_neg fun equal => (atB block equal).2.2.1 same]
  have known : isChild t₅ p x.1 = some true := by
    cases p with
    | none => rfl
    | some block =>
      obtain ⟨_, _, entry, found, child⟩ := atP block rfl
      simp [isChild, p₅ block rfl, found, child]
  obtain ⟨t₆, step₆, root₆, size₆, mem₆⟩ := replaceChild_spec (t := t₅) (p := p) (by
    intro block same
    obtain ⟨_, _, entry, found, _⟩ := atP block same
    exact ⟨entry, (p₅ block same).trans found⟩) x.1 (some y.1)
  refine ⟨t₆, ?_, ?_, ?_, ?_, ?_, ?_⟩
  · simp [rotateLinks, step₁, step₂, step₃, step₄, step₅, known, step₆]
  · rw [size₆, size₅, size₄, size₃, size₂, size₁]
  · rw [root₆, root₅, root₄, root₃, root₂, root₁]
  · rw [mem₆, if_neg px, mem₅, if_neg xy.symm, mem₄, if_neg xy.symm, mem₃, if_pos rfl, x₂, map_some,
      setParent_nodeOf]
  · rw [mem₆, if_neg py, mem₅, if_pos rfl, y₄, map_some, setParent_nodeOf]
  · intro block notX notY
    rw [mem₆]
    split
    · rename_i same
      rw [p₅ block same]
    · exact others₅ block notX notY

theorem child_nodeOf : (nodeOf side x height near other parent).child side = near := by
  cases side <;> rfl

theorem child_opposite_nodeOf : (nodeOf side x height near other parent).child side.opposite = other := by
  cases side <;> rfl

theorem parent_nodeOf : (nodeOf side x height near other parent).parent = parent := by
  cases side <;> rfl

theorem Around.childOf (around : Around m root path (some child))
    (low : lowest path = some block) :
    ∃ entry, m block = some entry ∧ (entry.left = some child ∨ entry.right = some child) := by
  cases path with
  | nil => cases low
  | cons frame path =>
    cases low
    refine ⟨_, around.1, ?_⟩
    cases frame.side with
    | left => exact .inl rfl
    | right => exact .inr rfl

theorem rewrite_spec (layout : At t path (orient side x high near far)) (x' : Block × κ × ν) (high' : Int)
    (block : x'.1 = x.1) (write : ∀ a b p, f (nodeOf side x high a b p) = nodeOf side x' high' a b p) :
    ∃ t', t.modify (some x.1) f = some t' ∧ At t' path (orient side x' high' near far) ∧ Kept t t' {x.1} := by
  obtain ⟨stored, around, distinct⟩ := layout
  obtain ⟨here, onNear, onFar⟩ := stored_orient_iff.mp stored
  rw [rootOf_orient] at around
  rw [blocks_orient] at distinct
  obtain ⟨absent, _⟩ := nodup_cons.mp (cons_add .. ▸ distinct)
  simp only [mem_add, not_or] at absent
  obtain ⟨t', written, root, size, memory⟩ := modify_spec (t := t) (n := some x.1) here f
  have others : ∀ block, block ≠ x.1 → t'.heap.deref block = t.heap.deref block := by
    intro block different
    rw [memory, if_neg fun same => different (some.inj same).symm]
  refine ⟨t', written, ⟨stored_orient_iff.mpr ⟨?_, ?_, ?_⟩, ?_, ?_⟩, ?_, size⟩
  · rw [block, memory, if_pos rfl, here, map_some, write]
  · rw [block]
    exact onNear.congr fun block member => others block fun same => absent.1.1 (same ▸ member)
  · rw [block]
    exact onFar.congr fun block member => others block fun same => absent.1.2 (same ▸ member)
  · rw [root, rootOf_orient, block]
    exact around.congr fun block member => others block fun same => absent.2 (same ▸ member)
  · rwa [blocks_orient, block]
  · exact fun block outside => others block (by simpa using outside)

theorem setHeight_spec (side : Side) (layout : At t path (orient side x high near far)) :
    calcHeight t (some x.1) = some (max near.stored far.stored + 1) ∧
      ∃ t', t.modify (some x.1) (AvlNode.setHeight (max near.stored far.stored + 1)) = some t' ∧
        At t' path (join side x near far) ∧ Kept t t' {x.1} := by
  obtain ⟨here, onNear, onFar⟩ := stored_orient_iff.mp layout.stored
  exact ⟨calcHeight_nodeOf side here onNear onFar, rewrite_spec layout x _ rfl fun a b p => by cases side <;> rfl⟩

theorem rotate_spec {inner} (layout : At t path (orient side x high (orient side y middle outer inner) far)) :
    ∃ t', rotate side t (some x.1) = some (t', some y.1) ∧
      At t' path (join side y outer (join side x inner far)) ∧
      Kept t t' (blocks (orient side x high (orient side y middle outer inner) far) + pathBlocks path) := by
  obtain ⟨stored, around, distinct⟩ := layout
  obtain ⟨atX, below, onFar⟩ := stored_orient_iff.mp stored
  obtain ⟨atY, onOuter, onInner⟩ := stored_orient_iff.mp below
  rw [rootOf_orient] at around atX
  simp only [blocks_orient] at distinct ⊢
  have apart := apart_of_nodup distinct
  obtain ⟨t₁, linked, size₁, root₁, x₁, y₁, others₁⟩ := rotateLinks_spec atX atY
    (by
      intro block root
      have member := rootOf_mem root
      refine ⟨?_, ?_, fun low => (apart.innerApart block member).2 (lowest_mem low), onInner.live member⟩
      · rintro rfl
        exact apart.upper.2.1 member
      · rintro rfl
        exact apart.lower.2.1 member)
    (by
      intro block low
      have member := lowest_mem low
      refine ⟨?_, ?_, around.childOf low⟩
      · rintro rfl
        exact apart.upper.2.2.2 member
      · rintro rfl
        exact apart.lower.2.2.2 member) apart.different
  have same₁ : ∀ block, block ≠ x.1 → block ≠ y.1 → block ∉ blocks inner → block ∉ pathBlocks path →
      t₁.heap.deref block = t.heap.deref block := by
    intro block notX notY notInner notAbove
    rw [others₁ block notX notY, if_neg fun low => notAbove (lowest_mem low),
      if_neg fun root => notInner (rootOf_mem root)]
  have outer₁ : Stored t₁.heap.deref (some y.1) outer := onOuter.congr fun block member => by
    refine same₁ block ?_ ?_ (apart.outerApart block member).1 (apart.outerApart block member).2
    · rintro rfl
      exact apart.upper.1 member
    · rintro rfl
      exact apart.lower.1 member
  have far₁ : Stored t₁.heap.deref (some x.1) far := onFar.congr fun block member => by
    refine same₁ block ?_ ?_ (fun inside => (apart.innerApart block inside).1 member) (apart.farApart block member)
    · rintro rfl
      exact apart.upper.2.2.1 member
    · rintro rfl
      exact apart.lower.2.2.1 member
  have inner₁ : Stored t₁.heap.deref (some x.1) inner := onInner.reparent apart.inside.1 fun block member => by
    rw [others₁ block, if_neg fun low => (apart.innerApart block member).2 (lowest_mem low)]
    · rintro rfl
      exact apart.upper.2.1 member
    · rintro rfl
      exact apart.lower.2.1 member
  have around₁ : Around t₁.heap.deref t₁.root path (some y.1) := by
    rw [root₁]
    refine around.replace apart.inside.2 apart.upper.2.2.2 fun block member => ?_
    rw [others₁ block]
    · split
      · rfl
      · rw [if_neg fun root => (apart.innerApart block (rootOf_mem root)).2 member]
    · rintro rfl
      exact apart.upper.2.2.2 member
    · rintro rfl
      exact apart.lower.2.2.2 member
  have layout₁ : At t₁ path (orient side y middle outer (orient side x high inner far)) := by
    refine ⟨stored_orient_iff.mpr ⟨?_, outer₁, stored_orient_iff.mpr ⟨x₁, inner₁, far₁⟩⟩, ?_, ?_⟩
    · rwa [rootOf_orient]
    · rwa [rootOf_orient]
    · simp only [blocks_orient]
      rwa [add_cons, cons_swap, ← add_assoc, ← cons_add]
  have inside₁ : At t₁ (⟨side.opposite, y, middle, outer⟩ :: path) (orient side x high inner far) :=
    at_cons_iff.mpr (by rwa [Frame.fill, orient_opposite])
  obtain ⟨height₁, t₂, write₂, inside₂, kept₂⟩ := setHeight_spec side inside₁
  have layout₂ : At t₂ path (orient side y middle outer (join side x inner far)) := by
    rw [← orient_opposite]
    exact at_cons_iff.mp inside₂
  obtain ⟨height₂, t₃, write₃, layout₃, kept₃⟩ := setHeight_spec side layout₂
  refine ⟨t₃, ?_, layout₃, ?_, ?_⟩
  · simp [rotate, CAvl.deref, atX, child_nodeOf, child_opposite_nodeOf, parent_nodeOf, atY, linked, height₁, write₂,
      height₂, write₃, -stored_join]
  · intro block outside
    simp only [mem_cons, mem_add, not_or] at outside
    obtain ⟨⟨notX, ⟨notY, _, notInner⟩, _⟩, notAbove⟩ := outside
    rw [kept₃.others block (by simpa using notY), kept₂.others block (by simpa using notX),
      same₁ block notX notY notInner notAbove]
  · rw [kept₃.size, kept₂.size, size₁]

theorem rotateTwice_spec
    (layout : At t path (orient side x high (orient side y middle outer (orient side z peak first second)) far)) :
    ∃ t', rotateTwice side t (some x.1) = some (t', some z.1) ∧
      At t' path (join side z (join side y outer first) (join side x second far)) ∧
      Kept t t' (blocks (orient side x high (orient side y middle outer (orient side z peak first second)) far) +
        pathBlocks path) := by
  have atX := (stored_orient_iff.mp layout.stored).1
  rw [rootOf_orient] at atX
  have inside : At t (⟨side, x, high, far⟩ :: path)
      (orient side.opposite y middle (orient side.opposite z peak second first) outer) := by
    rw [orient_opposite, orient_opposite]
    exact at_cons_iff.mpr layout
  obtain ⟨t₁, turned₁, layout₁, kept₁⟩ := rotate_spec inside
  rw [join_opposite, join_opposite] at layout₁
  obtain ⟨t₂, turned₂, layout₂, kept₂⟩ := rotate_spec (at_cons_iff.mp layout₁)
  refine ⟨t₂, ?_, layout₂, ?_, ?_⟩
  · simp [rotateTwice, CAvl.deref, atX, child_nodeOf, turned₁, turned₂]
  · intro block outside
    simp only [blocks_orient, mem_cons, mem_add, not_or] at outside
    rw [kept₂.others block, kept₁.others block]
    · simp only [blocks_orient, pathBlocks, mem_cons, mem_add, not_or]
      tauto
    · simp only [blocks_orient, blocks_join, mem_cons, mem_add, not_or]
      tauto
  · rw [kept₂.size, kept₁.size]

theorem balance_spec (layout : At t path (node x high left right)) :
    balance t (some x.1) = some (left.stored - right.stored) := by
  obtain ⟨here, onLeft, onRight⟩ := layout.stored
  simp [balance, CAvl.deref, here, nodeOf, heightOf_stored onLeft, heightOf_stored onRight]

theorem finishTurn_spec (layout : At t path tree) (balanced : tree.Balanced) (root : rootOf tree = some n) :
    finishTurn (t, some n) = some (t, some (lowest path)) := by
  cases tree with
  | nil => cases root
  | node x height left right =>
    cases root
    obtain ⟨here, onLeft, onRight⟩ := layout.stored
    obtain ⟨_, _, same, _⟩ := balanced
    have height := calcHeight_nodeOf .left here onLeft onRight
    simp [finishTurn, CAvl.deref, here, height, nodeOf, same]

theorem lift_spec {inner}
    (layout : At t path (orient side x high (orient side y middle outer inner) far)) (balanced : inner.Balanced)
    (nonneg : 0 ≤ outer.stored) :
    ∃ t' n, (if inner.stored = outer.stored + 1 then rotateTwice side t (some x.1) else rotate side t (some x.1)) =
        some (t', some n) ∧ rootOf (lift side x (orient side y middle outer inner) far) = some n ∧
      At t' path (lift side x (orient side y middle outer inner) far) ∧
      Kept t t' (blocks (orient side x high (orient side y middle outer inner) far) + pathBlocks path) := by
  by_cases deep : inner.stored = outer.stored + 1
  · have inside : inner ≠ nil := by
      rintro rfl
      change 0 = _ at deep
      omega
    obtain ⟨z, peak, first, second, rfl⟩ := exists_orient side _ inside
    obtain ⟨t', turned, layout', kept⟩ := rotateTwice_spec layout
    rw [if_pos deep]
    rw [stored_orient] at deep
    rw [lift_double deep]
    exact ⟨t', z.1, turned, rootOf_join .., layout', kept⟩
  · obtain ⟨t', turned, layout', kept⟩ := rotate_spec layout
    rw [if_neg deep, lift_single deep]
    exact ⟨t', y.1, turned, rootOf_join .., layout', kept⟩

theorem rebalanceTurn_lift (side : Side) (layout : At t path (orient side x high near far)) (first : near.Balanced)
    (second : far.Balanced) (tall : near.stored = far.stored + 2) :
    ∃ t', rebalanceTurn t x.1 = some (t', some (lowest path)) ∧ At t' path (lift side x near far) ∧
      Kept t t' (blocks (orient side x high near far) + pathBlocks path) := by
  have nonneg := second.nonneg
  obtain ⟨balanced, _⟩ := lift_balanced side x first second tall
  obtain ⟨y, middle, outer, inner, rfl⟩ := exists_orient side near (by
    rintro rfl
    change 0 = _ at tall
    omega)
  obtain ⟨onOuter, onInner, _, less, more⟩ := balanced_orient.mp first
  obtain ⟨t', n, turned, root, layout', kept⟩ := lift_spec layout onInner onOuter.nonneg
  have finished := finishTurn_spec layout' balanced root
  have here := (stored_orient_iff.mp layout.stored).1
  rw [rootOf_orient] at here
  refine ⟨t', ?_, layout', kept⟩
  cases side with
  | left =>
    have top : balance t (some x.1) = some 2 := by
      rw [balance_spec layout, tall]
      congr 1
      omega
    have inside : At t (⟨.left, x, high, far⟩ :: path) (node y middle outer inner) := at_cons_iff.mpr layout
    have bottom : balance t (some y.1) = some (outer.stored - inner.stored) := balance_spec inside
    simp only [rebalanceTurn, top, here, nodeOf, bottom, bind_eq_bind, bind_some]
    rw [if_neg (by decide), if_neg (by decide), if_pos trivial, if_neg (by omega), ← finished]
    split at turned
    · rw [if_pos (by omega), rotateLeftRight, turned, bind_some]
    · rw [if_neg (by omega), rotateRight, turned, bind_some]
  | right =>
    have top : balance t (some x.1) = some (-2) := by
      rw [balance_spec layout, tall]
      congr 1
      omega
    have inside : At t (⟨.right, x, high, far⟩ :: path) (node y middle inner outer) := at_cons_iff.mpr layout
    have bottom : balance t (some y.1) = some (inner.stored - outer.stored) := balance_spec inside
    simp only [rebalanceTurn, top, here, nodeOf, bottom, bind_eq_bind, bind_some]
    rw [if_neg (by decide), if_pos trivial, if_neg (by omega), ← finished]
    split at turned
    · rw [if_pos (by omega), rotateRightLeft, turned, bind_some]
    · rw [if_neg (by omega), rotateLeft, turned, bind_some]

theorem rebalanceTurn_level (layout : At t path (node x high left right)) (first : left.Balanced)
    (second : right.Balanced) (less : left.stored ≤ right.stored + 1) (more : right.stored ≤ left.stored + 1) :
    (rebalanceTurn t x.1 = some (t, none) ∧ high = max left.stored right.stored + 1) ∨
      ∃ t', rebalanceTurn t x.1 = some (t', some (lowest path)) ∧ At t' path (join .left x left right) ∧
        Kept t t' (blocks (node x high left right) + pathBlocks path) := by
  obtain ⟨height, t', written, layout', kept⟩ := setHeight_spec .left layout
  have turn : rebalanceTurn t x.1 = if max left.stored right.stored + 1 = high then some (t, none)
      else (t.modify (some x.1) (AvlNode.setHeight (max left.stored right.stored + 1))).bind
        fun t => finishTurn (t, some x.1) := by
    simp only [rebalanceTurn, balance_spec layout, layout.stored.1, height, nodeOf, bind_eq_bind,
      bind_some]
    rw [if_neg (by omega), if_neg (by omega), if_neg (by omega)]
  by_cases same : max left.stored right.stored + 1 = high
  · exact .inl ⟨by rw [turn, if_pos same], same.symm⟩
  · refine .inr ⟨t', ?_, layout', fun block outside => kept.others block fun member => outside ?_, kept.size⟩
    · rw [turn, if_neg same, written, bind_some]
      exact finishTurn_spec layout' (balanced_join first second less more) (rootOf_join ..)
    · rw [mem_singleton.mp member]
      exact mem_add.mpr (.inl (mem_cons_self _ _))

theorem rebalanceTurn_spec (layout : At t path (node x high left right)) (first : left.Balanced)
    (second : right.Balanced) (less : left.stored ≤ right.stored + 2) (more : right.stored ≤ left.stored + 2) :
    (rebalanceTurn t x.1 = some (t, none) ∧ repair .left x left right = node x high left right) ∨
      ∃ t', rebalanceTurn t x.1 = some (t', some (lowest path)) ∧ At t' path (repair .left x left right) ∧
        Kept t t' (blocks (node x high left right) + pathBlocks path) := by
  unfold repair
  split
  · rename_i tall
    exact .inr (rebalanceTurn_lift .left layout first second tall)
  · split
    · rename_i tall
      exact .inr (rebalanceTurn_lift .right layout second first tall)
    · rcases rebalanceTurn_level layout first second (by omega) (by omega) with ⟨turn, height⟩ | turned
      · exact .inl ⟨turn, by rw [height]; rfl⟩
      · exact .inr turned

theorem fill_eq_node (frame : Frame (Block × κ × ν)) (tree : HTree (Block × κ × ν)) :
    ∃ left right, frame.fill tree = node frame.label frame.height left right ∧
      repair .left frame.label left right = repair frame.side frame.label tree frame.sibling ∧
      (left = tree ∧ right = frame.sibling ∨ left = frame.sibling ∧ right = tree) := by
  obtain ⟨side, label, height, sibling⟩ := frame
  cases side with
  | left => exact ⟨tree, sibling, rfl, rfl, .inl ⟨rfl, rfl⟩⟩
  | right => exact ⟨sibling, tree, rfl, (repair_opposite .right label tree sibling), .inr ⟨rfl, rfl⟩⟩

theorem rebalance_spec (layout : At t path tree) (balanced : tree.Balanced) (fits : Fits path height)
    (less : tree.stored ≤ height + 1) (more : height ≤ tree.stored + 1) (enough : path.length ≤ turns) :
    ∃ t', rebalance turns t (lowest path) = some t' ∧ At t' [] (climb path tree) ∧
      Kept t t' (blocks tree + pathBlocks path) := by
  induction path generalizing t tree height turns with
  | nil => exact ⟨t, by rw [lowest, rebalance], layout, fun block outside => rfl, rfl⟩
  | cons frame path ih =>
    obtain ⟨sibling, same, low, high, outer⟩ := fits
    obtain ⟨repaired, lower, upper, level⟩ :=
      repair_balanced frame.side frame.label balanced sibling (by omega) (by omega)
    obtain ⟨left, right, filled, repairs, sides⟩ := fill_eq_node frame tree
    have used : blocks (node frame.label frame.height left right) + pathBlocks path =
        blocks tree + pathBlocks (frame :: path) := by
      rw [← filled, blocks_fill]
    have layout' := filled ▸ at_cons_iff.mp layout
    cases turns with
    | zero => cases enough
    | succ turns =>
      have turn := rebalanceTurn_spec layout' (by rcases sides with ⟨rfl, rfl⟩ | ⟨rfl, rfl⟩ <;> assumption)
        (by rcases sides with ⟨rfl, rfl⟩ | ⟨rfl, rfl⟩ <;> assumption)
        (by rcases sides with ⟨rfl, rfl⟩ | ⟨rfl, rfl⟩ <;> omega)
        (by rcases sides with ⟨rfl, rfl⟩ | ⟨rfl, rfl⟩ <;> omega)
      rw [repairs, ← filled] at turn
      rcases turn with ⟨turn, nothing⟩ | ⟨t₁, turn, layout₁, kept₁⟩
      · refine ⟨t, by rw [lowest, rebalance, turn]; rfl, ?_, fun block outside => rfl, rfl⟩
        rw [climb, nothing, climb_eq_plug]
        · exact at_root_iff.mp (at_cons_iff.mp layout)
        · rwa [Frame.fill, stored_orient]
      · obtain ⟨t₂, rest, layout₂, kept₂⟩ :=
          ih layout₁ repaired outer (by omega) (by omega) (Nat.le_of_succ_le_succ enough)
        refine ⟨t₂, ?_, layout₂, fun block outside => ?_, kept₂.size.trans kept₁.size⟩
        · rw [lowest, rebalance, turn, bind_some]
          exact rest
        · rw [filled, used] at kept₁
          rw [kept₂.others block, kept₁.others block outside]
          rwa [blocks_congr (toList_repair frame.side frame.label frame.height balanced sibling), ← Frame.fill, filled,
            used]

end NCollectd.Avl
