import NCollectd.Utils.AvlRuns

namespace NCollectd.Avl

open HeightTree HTree KeyOrder List

/-- `c_avl_iterator_t`, with the tree it points to. -/
structure Iterator (κ ν : Type) where
  tree : CAvl κ ν
  node : Option Block

variable {κ ν : Type} {compare : κ → κ → Int} {t : CAvl κ ν} {tree : HTree (Block × κ × ν)}

def cAvlGetIterator (t : Option (CAvl κ ν)) : Option (Iterator κ ν) := t.map fun tree => ⟨tree, none⟩

def Iterator.target (side : Side) (iter : Iterator κ ν) : Option (Option Block) :=
  match iter.node with
  | none =>
    match iter.tree.root with
    | none => some none
    | some root => (descendLoop side.opposite iter.tree iter.tree.turns root).map some
  | some n => neighbour side iter.tree (some n)

def iterate (side : Side) (wantKey wantValue : Bool) (iter : Option (Iterator κ ν)) :
    Option (Status × Output κ ν × Option (Iterator κ ν)) :=
  match iter with
  | none => some (EINVAL, ⟨none, none⟩, none)
  | some iter =>
    if wantKey = false ∧ wantValue = false then some (EINVAL, ⟨none, none⟩, some iter)
    else do
      let n ← iter.target side
      match n with
      | none => some (EOF, ⟨none, none⟩, some iter)
      | some n => do
        let node ← iter.tree.heap.deref n
        some (0, ⟨if wantKey then some node.key else none, if wantValue then some node.value else none⟩,
          some { iter with node := some n })

def cAvlIteratorNext (wantKey wantValue : Bool) (iter : Option (Iterator κ ν)) :
    Option (Status × Output κ ν × Option (Iterator κ ν)) :=
  iterate .right wantKey wantValue iter

def cAvlIteratorPrev (wantKey wantValue : Bool) (iter : Option (Iterator κ ν)) :
    Option (Status × Output κ ν × Option (Iterator κ ν)) :=
  iterate .left wantKey wantValue iter

def untilEof (move : Option (Iterator κ ν) → Option (Status × Output κ ν × Option (Iterator κ ν))) :
    Nat → Option (Iterator κ ν) → Option (List (Output κ ν))
  | 0, _ => none
  | calls + 1, iter => do
    let (status, output, iter) ← move iter
    if status = EOF then some []
    else if status = 0 then (untilEof move calls iter).map (output :: ·)
    else none

def moves (wantKey wantValue : Bool) (iter : Option (Iterator κ ν)) : List Side → Option (Option (Iterator κ ν))
  | [] => some iter
  | side :: sides =>
    (iterate side wantKey wantValue iter).bind fun moved => moves wantKey wantValue moved.2.2 sides

def landing (side : Side) (t : CAvl κ ν) (found : Block × Option Block) : Option (Option Block) :=
  match found.2 with
  | none => some none
  | some r => do
    let node ← t.heap.deref r
    if node.child side.opposite = some found.1 then some (some r)
    else if node.parent = none then some none
    else none

theorem neighbour_child (live : t.heap.deref n = some entry)
    (child : entry.child side = some below) :
    neighbour side t (some n) = (descendLoop side.opposite t t.turns below).map some := by
  simp [neighbour, live, child]

theorem neighbour_leaf (live : t.heap.deref n = some entry) (child : entry.child side = none) :
    neighbour side t (some n) = (ascendLoop side t t.turns n entry.parent).bind (landing side t) := by
  simp only [neighbour, live, Option.bind_eq_bind, Option.bind_some, child]
  rfl

theorem ascendLoop_spec (side : Side) (around : Around t.heap.deref t.root path (some n))
    (distinct : (n ::ₘ pathBlocks path).Nodup) (enough : path.length ≤ turns) :
    (ascendLoop side t turns n (lowest path)).bind (landing side t) =
      some ((beyond side path).head?.map Prod.fst) := by
  induction path generalizing n turns with
  | nil =>
    rw [beyond_nil]
    cases turns <;> rfl
  | cons frame path ih =>
    obtain ⟨turns, rfl⟩ := Nat.exists_eq_succ_of_ne_zero (ne_of_gt (lt_of_lt_of_le (Nat.succ_pos _) enough))
    obtain ⟨here, _, above⟩ := around
    rw [pathBlocks, Multiset.nodup_cons, Multiset.nodup_cons] at distinct
    obtain ⟨fresh, notHere, distinct⟩ := distinct
    by_cases same : frame.side = side
    · have other : ∀ parent, (nodeOf frame.side frame.label frame.height (some n) (rootOf frame.sibling)
          parent).child side.opposite ≠ some n := by
        intro parent
        rw [← same, child_opposite_nodeOf]
        intro root
        exact fresh (Multiset.mem_cons_of_mem (Multiset.mem_add.mpr (.inl (rootOf_mem root))))
      rw [← same, beyond_cons_same, same]
      cases path with
      | nil =>
        simp [lowest, ascendLoop, here, parent_nodeOf, landing, other, beyond_nil]
      | cons next path =>
        have rest : (ascendLoop side t turns frame.label.1 (lowest (next :: path))).bind (landing side t) = _ :=
          ih above (Multiset.nodup_cons.mpr ⟨?_, ?_⟩) (Nat.le_of_succ_le_succ enough)
        · simpa [lowest, ascendLoop, here, parent_nodeOf, other] using rest
        · exact fun member => notHere (Multiset.mem_add.mpr (.inr member))
        · exact (Multiset.nodup_add.mp distinct).2.1
    · have opposite : side = frame.side.opposite := by
        cases side <;> cases frameSide : frame.side <;> simp_all [Side.opposite]
      subst opposite
      have child : (nodeOf frame.side frame.label frame.height (some n) (rootOf frame.sibling)
          (lowest path)).child frame.side = some n := child_nodeOf
      have low : lowest (frame :: path) = some frame.label.1 := rfl
      rw [beyond_cons_opposite, low]
      simp [ascendLoop, here, child, landing]

theorem neighbour_spec (layout : At t path (orient side x height near far)) :
    neighbour side t (some x.1) = some ((outward side near.toList ++ beyond side path).head?.map Prod.fst) := by
  obtain ⟨here, onNear, _⟩ := stored_orient_iff.mp layout.stored
  have room := layout.depth_add_length_le
  cases child : rootOf near with
  | none =>
    obtain rfl := eq_nil_of_rootOf child
    have distinct : (x.1 ::ₘ pathBlocks path).Nodup := by
      refine Multiset.nodup_of_le ?_ layout.distinct
      rw [← Multiset.singleton_add]
      refine Multiset.add_le_add_right (Multiset.singleton_le.mpr (rootOf_mem ?_))
      exact rootOf_orient side x height nil far
    rw [neighbour_leaf here (by rw [child_nodeOf, child]), parent_nodeOf]
    have around := layout.around
    rw [rootOf_orient] at around
    rw [ascendLoop_spec side around distinct (by unfold CAvl.turns; omega)]
    cases side <;> rfl
  | some below =>
    have shallow : near.depth ≤ t.turns := by
      have deep : near.depth ≤ (orient side x height near far).depth := by
        cases side <;> simp only [orient, depth] <;> omega
      unfold CAvl.turns
      omega
    obtain ⟨lower, y, high, rest, place, ended, sides⟩ := descendLoop_spec side.opposite onNear child shallow
    rw [neighbour_child here (by rw [child_nodeOf, child]), ended, place, head?_append, head_outward_plug sides]
    rfl

theorem mem_outward (side : Side) : x ∈ outward side labels ↔ x ∈ labels := by
  cases side with
  | left => exact mem_reverse
  | right => exact Iff.rfl

theorem At.nodup_outward (layout : At t [] tree) (side : Side) : (outward side tree.toList).Nodup := by
  have distinct := layout.distinct
  rw [pathBlocks, add_zero, blocks_eq_toList, Multiset.coe_nodup] at distinct
  have labels := distinct.of_map
  cases side with
  | left => exact nodup_reverse.mpr labels
  | right => exact labels

theorem neighbour_at (layout : At t [] tree) (place : outward side tree.toList = behind ++ x :: ahead) :
    neighbour side t (some x.1) = some (ahead.head?.map Prod.fst) := by
  have member : x ∈ tree.toList := by
    rw [← mem_outward side, place]
    exact mem_append_right behind mem_cons_self
  have distinct := layout.nodup_outward side
  obtain ⟨path, height, near, far, rfl⟩ := exists_plug_of_mem member side
  obtain ⟨passed, walk⟩ := outward_plug side path x height near far
  have same : ahead = outward side near.toList ++ beyond side path := by
    rw [place] at distinct walk
    have once := (nodup_cons.mp (nodup_middle.mp distinct)).1
    rw [mem_append, not_or] at once
    exact ((append_cons_inj_of_notMem once.1 once.2).mp walk).2.2
  rw [same]
  exact neighbour_spec (at_root_iff.mpr layout)

theorem deref_at (layout : At t [] tree) (member : x ∈ tree.toList) :
    ∃ entry, t.heap.deref x.1 = some entry ∧ entry.key = x.2.1 ∧ entry.value = x.2.2 := by
  obtain ⟨path, height, near, far, rfl⟩ := exists_plug_of_mem member .left
  obtain ⟨here, _⟩ := stored_orient_iff.mp (at_root_iff.mpr layout).stored
  exact ⟨_, here, rfl, rfl⟩

def advanced (wantKey wantValue : Bool) (iter : Iterator κ ν) :
    List (Block × κ × ν) → Status × Output κ ν × Option (Iterator κ ν)
  | [] => (EOF, ⟨none, none⟩, some iter)
  | y :: _ => (0, entryOutput wantKey wantValue y.2, some { iter with node := some y.1 })

theorem iterate_of_target {iter : Iterator κ ν} (layout : At iter.tree [] tree)
    (wanted : ¬ (wantKey = false ∧ wantValue = false)) (inside : ∀ y ∈ ahead, y ∈ tree.toList)
    (target : iter.target side = some (ahead.head?.map Prod.fst)) :
    iterate side wantKey wantValue (some iter) = some (advanced wantKey wantValue iter ahead) := by
  cases ahead with
  | nil => simp [iterate, wanted, target, advanced]
  | cons y rest =>
    obtain ⟨entry, live, key, value⟩ := deref_at layout (inside y mem_cons_self)
    simp [iterate, wanted, target, live, advanced, entryOutput, key, value]

section

variable (layout : At t [] tree) (wanted : ¬ (wantKey = false ∧ wantValue = false))
include layout wanted

theorem iterate_at (place : outward side tree.toList = behind ++ x :: ahead) :
    iterate side wantKey wantValue (some ⟨t, some x.1⟩) =
      some (advanced wantKey wantValue ⟨t, some x.1⟩ ahead) := by
  refine iterate_of_target layout wanted (fun y member => ?_) (neighbour_at layout place)
  rw [← mem_outward side, place]
  exact mem_append_right behind (mem_cons_of_mem x member)

theorem iterate_fresh (side : Side) : iterate side wantKey wantValue (some ⟨t, none⟩) =
      some (advanced wantKey wantValue ⟨t, none⟩ (outward side tree.toList)) := by
  refine iterate_of_target layout wanted (fun y member => (mem_outward side).mp member) ?_
  have root : t.root = rootOf tree := layout.around
  cases child : rootOf tree with
  | none =>
    obtain rfl := eq_nil_of_rootOf child
    simp only [Iterator.target, root, child]
    cases side <;> rfl
  | some below =>
    have room := layout.depth_add_length_le
    obtain ⟨lower, y, high, rest, place, ended, sides⟩ :=
      descendLoop_spec side.opposite layout.stored child (show tree.depth ≤ t.turns by unfold CAvl.turns; omega)
    simp only [Iterator.target, root, child, ended, Option.map_some]
    rw [place, head_outward_plug sides]
    rfl

theorem untilEof_at (place : outward side tree.toList = behind ++ x :: ahead) (enough : ahead.length < calls) :
    untilEof (iterate side wantKey wantValue) calls (some ⟨t, some x.1⟩) =
      some (ahead.map fun y => entryOutput wantKey wantValue y.2) := by
  induction ahead generalizing x behind calls with
  | nil =>
    obtain ⟨calls, rfl⟩ := Nat.exists_eq_succ_of_ne_zero (Nat.ne_of_gt (Nat.lt_of_le_of_lt (Nat.zero_le _) enough))
    simp [untilEof, iterate_at layout wanted place, advanced]
  | cons y ahead ih =>
    obtain ⟨calls, rfl⟩ := Nat.exists_eq_succ_of_ne_zero (Nat.ne_of_gt (Nat.lt_of_le_of_lt (Nat.zero_le _) enough))
    have next : untilEof (iterate side wantKey wantValue) calls (some ⟨t, some y.1⟩) = _ :=
      ih (show outward side tree.toList = (behind ++ [x]) ++ y :: ahead by rw [place]; simp)
        (Nat.lt_of_succ_lt_succ enough)
    simp [untilEof, iterate_at layout wanted place, advanced, next, EOF]

/-- A whole walk of a fresh iterator. -/
theorem untilEof_fresh (side : Side) (enough : tree.toList.length < calls) :
    untilEof (iterate side wantKey wantValue) calls (cAvlGetIterator (some t)) =
      some ((outward side tree.toList).map fun y => entryOutput wantKey wantValue y.2) := by
  obtain ⟨calls, rfl⟩ := Nat.exists_eq_succ_of_ne_zero (Nat.ne_of_gt (Nat.lt_of_le_of_lt (Nat.zero_le _) enough))
  have first := iterate_fresh layout wanted side
  have length : (outward side tree.toList).length = tree.toList.length := by
    cases side with
    | left => exact length_reverse
    | right => rfl
  cases walk : outward side tree.toList with
  | nil =>
    rw [walk] at first
    simp [untilEof, cAvlGetIterator, first, advanced]
  | cons y ahead =>
    rw [walk] at first length
    rw [length_cons] at length
    have rest : untilEof (iterate side wantKey wantValue) calls (some ⟨t, some y.1⟩) = _ :=
      untilEof_at layout wanted (show outward side tree.toList = [] ++ y :: ahead from walk) (by omega)
    simp [untilEof, cAvlGetIterator, first, advanced, rest, EOF]

end

/-- An iterator that has not moved, or is at an entry. -/
def Placed (t : CAvl κ ν) (tree : HTree (Block × κ × ν)) (iter : Option (Iterator κ ν)) : Prop :=
  iter = some ⟨t, none⟩ ∨ ∃ x ∈ tree.toList, iter = some ⟨t, some x.1⟩

section

variable (layout : At t [] tree) (wanted : ¬ (wantKey = false ∧ wantValue = false))
  {iter : Option (Iterator κ ν)} (placed : Placed t tree iter)
include layout wanted placed

theorem iterate_placed (side : Side) :
    ∃ status output iter', iterate side wantKey wantValue iter = some (status, output, iter') ∧ Placed t tree iter' ∧
      (status = EOF ∧ output = ⟨none, none⟩ ∧ iter' = iter ∨ ∃ y, y ∈ tree.toList ∧ status = 0 ∧
        output = entryOutput wantKey wantValue y.2 ∧ iter' = some ⟨t, some y.1⟩) := by
  obtain ⟨node, ahead, rfl, inside, moved⟩ : ∃ node ahead, iter = some ⟨t, node⟩ ∧ (∀ y ∈ ahead, y ∈ tree.toList) ∧
      iterate side wantKey wantValue (some ⟨t, node⟩) = some (advanced wantKey wantValue ⟨t, node⟩ ahead) := by
    rcases placed with rfl | ⟨x, member, rfl⟩
    · exact ⟨none, _, rfl, fun y => (mem_outward side).mp, iterate_fresh layout wanted side⟩
    · obtain ⟨behind, ahead, place⟩ := append_of_mem ((mem_outward side).mpr member)
      refine ⟨some x.1, ahead, rfl, fun y later => ?_, iterate_at layout wanted place⟩
      rw [← mem_outward side, place]
      exact mem_append_right behind (mem_cons_of_mem x later)
  cases ahead with
  | nil => exact ⟨_, _, _, moved, placed, .inl ⟨rfl, rfl, rfl⟩⟩
  | cons y rest =>
    have member := inside y mem_cons_self
    exact ⟨_, _, _, moved, .inr ⟨y, member, rfl⟩, .inr ⟨y, member, rfl, rfl, rfl⟩⟩

/-- Every sequence of moves is defined. -/
theorem moves_placed (sides : List Side) :
    ∃ iter', moves wantKey wantValue iter sides = some iter' ∧ Placed t tree iter' := by
  induction sides generalizing iter with
  | nil => exact ⟨iter, rfl, placed⟩
  | cons side sides ih =>
    obtain ⟨status, output, next, moved, placed', _⟩ := iterate_placed layout wanted placed side
    obtain ⟨iter', rest, last⟩ := ih placed'
    exact ⟨iter', by rw [moves, moved, Option.bind_some, rest], last⟩

theorem prev_after_next (moved : cAvlIteratorNext wantKey wantValue iter = some (0, output, iter')) :
    ∃ earlier entry later, entriesOf tree = earlier ++ entry :: later ∧ output = entryOutput wantKey wantValue entry ∧
      (earlier = [] ∧ cAvlIteratorPrev wantKey wantValue iter' = some (EOF, ⟨none, none⟩, iter') ∨
        ∃ first previous iter'', earlier = first ++ [previous] ∧ cAvlIteratorPrev wantKey wantValue iter' =
          some (0, entryOutput wantKey wantValue previous, iter'')) := by
  obtain ⟨status, output', next, stepped, _, result⟩ := iterate_placed layout wanted placed .right
  obtain ⟨rfl, rfl, rfl⟩ : status = 0 ∧ output' = output ∧ next = iter' := by
    have same := stepped.symm.trans moved
    simpa using same
  rcases result with ⟨ended, _⟩ | ⟨y, member, _, rfl, rfl⟩
  · cases ended
  obtain ⟨earlier, later, split⟩ := append_of_mem member
  have place : outward .left tree.toList = later.reverse ++ y :: earlier.reverse := by
    simp [outward, split]
  have back := iterate_at layout wanted place
  refine ⟨earlier.map Prod.snd, y.2, later.map Prod.snd, by simp [entriesOf, split], rfl, ?_⟩
  rcases eq_nil_or_concat earlier with rfl | ⟨first, previous, rfl⟩
  · exact .inl ⟨rfl, back⟩
  · refine .inr ⟨first.map Prod.snd, previous.2, some ⟨t, some previous.1⟩, by simp, ?_⟩
    rw [cAvlIteratorPrev, back]
    simp [advanced]

end

/-- A fresh iterator gives all entries once and in order, and every sequence of moves is defined. -/
theorem c_avl_iteration_in_order (order : Comparison compare) {calls : List (AvlCall κ ν)}
    {answers : List (AvlAnswer κ ν)} (ran : avlRun compare cAvlCreate calls = some (answers, t))
    (wanted : ¬ (wantKey = false ∧ wantValue = false)) :
    ∃ entries : List (κ × ν), MapRun compare 0 calls answers entries ∧ Ascending compare entries ∧
      (∀ n, entries.length < n → untilEof (cAvlIteratorNext wantKey wantValue) n (cAvlGetIterator (some t)) =
        some (entries.map (entryOutput wantKey wantValue))) ∧
      (∀ n, entries.length < n → untilEof (cAvlIteratorPrev wantKey wantValue) n (cAvlGetIterator (some t)) =
        some (entries.reverse.map (entryOutput wantKey wantValue))) ∧
      ∀ sides, ∃ iter, moves wantKey wantValue (cAvlGetIterator (some t)) sides = some iter ∧
        ∀ output iter', cAvlIteratorNext wantKey wantValue iter = some (0, output, iter') →
          ∃ earlier entry later, entries = earlier ++ entry :: later ∧
            output = entryOutput wantKey wantValue entry ∧
            (earlier = [] ∧ cAvlIteratorPrev wantKey wantValue iter' = some (EOF, ⟨none, none⟩, iter') ∨
              ∃ first previous iter'', earlier = first ++ [previous] ∧ cAvlIteratorPrev wantKey wantValue iter' =
                some (0, entryOutput wantKey wantValue previous, iter'')) := by
  rcases avlRun_refines order represents_create calls with ⟨answers', t', tree, returned, represents, run⟩ | ⟨none, _⟩
  · obtain ⟨rfl, rfl⟩ : answers' = answers ∧ t' = t := by
      have same := returned.symm.trans ran
      simpa using same
    have layout := represents.layout
    refine ⟨entriesOf tree, run, represents.increasing, fun n enough => ?_, fun n enough => ?_, fun sides => ?_⟩
    · rw [entriesOf, length_map] at enough
      rw [entriesOf, map_map]
      exact untilEof_fresh layout wanted .right enough
    · rw [entriesOf, length_map] at enough
      rw [entriesOf, ← map_reverse, map_map]
      exact untilEof_fresh layout wanted .left enough
    · obtain ⟨iter, moved, placed⟩ := moves_placed layout wanted (.inl rfl) sides
      exact ⟨iter, moved, fun output iter' next => prev_after_next layout wanted placed next⟩
  · rw [none] at ran
    cases ran

theorem c_avl_iteration_rotated : ∃ (answers : List (AvlAnswer Nat String)) (t : CAvl Nat String)
    (entries : List (Nat × String)),
    avlRun compareNat cAvlCreate [.insert 3 "c", .insert 2 "b", .insert 1 "a"] = some (answers, t) ∧
      Ascending compareNat entries ∧ untilEof (cAvlIteratorNext true true) (entries.length + 1)
        (cAvlGetIterator (some t)) = some (entries.map (entryOutput true true)) := by
  rcases ran : avlRun compareNat cAvlCreate [.insert 3 "c", .insert 2 "b", .insert 1 "a"] with _ | ⟨answers, t⟩
  · cases ran
  · obtain ⟨entries, _, increasing, forward, _⟩ := c_avl_iteration_in_order compareNat_order ran
      (show ¬ (true = false ∧ true = false) by decide)
    exact ⟨answers, t, entries, rfl, increasing, forward _ (Nat.lt_succ_self _)⟩

end NCollectd.Avl
