import Mathlib

/-! Binary trees over the intervals of a halving recursion, in preorder in an array. -/

namespace EulerTour

open List

/-- A binary tree with a value at every node. -/
inductive SegTree (α : Type u) where
  | leaf (value : α)
  | node (value : α) (left right : SegTree α)

namespace SegTree

variable {α : Type u} {β : Type v}

def root : SegTree α → α
  | leaf value => value
  | node value _ _ => value

def tour : SegTree α → List α
  | leaf value => [value]
  | node value left right => value :: (left.tour ++ right.tour)

def leaves : SegTree α → List α
  | leaf value => [value]
  | node _ left right => left.leaves ++ right.leaves

def map (f : α → β) : SegTree α → SegTree β
  | leaf value => leaf (f value)
  | node value left right => node (f value) (left.map f) (right.map f)

def zipWith (f : α → α → α) : SegTree α → SegTree α → SegTree α
  | leaf a, leaf b => leaf (f a b)
  | node a left right, node b left' right' => node (f a b) (left.zipWith f left') (right.zipWith f right')
  | tree, _ => tree

/-- Every inner value combines the values of its children. -/
def Summed (combine : α → α → α) : SegTree α → Prop
  | leaf _ => True
  | node value left right => value = combine left.root right.root ∧ left.Summed combine ∧ right.Summed combine

end SegTree

/-- The tree halves the interval of positions down to single positions. -/
inductive Covers {α : Type u} : Nat → Nat → SegTree α → Prop where
  | leaf (position : Nat) (value : α) : Covers position position (.leaf value)
  | node {first last : Nat} {left right : SegTree α} (value : α) (proper : first < last)
      (before : Covers first ((first + last) / 2) left)
      (after : Covers ((first + last) / 2 + 1) last right) : Covers first last (.node value left right)

variable {α : Type u} {β : Type v} {tree other : SegTree α}

theorem Covers.leaves_length (covers : Covers first last tree) :
    tree.leaves.length = last - first + 1 := by
  induction covers with
  | leaf => simp [SegTree.leaves]
  | node value proper before after before_length after_length =>
    simp only [SegTree.leaves, length_append, before_length, after_length]
    omega

theorem tour_length (tree : SegTree α) : tree.tour.length + 1 = 2 * tree.leaves.length := by
  induction tree with
  | leaf => rfl
  | node value left right left_length right_length =>
    simp only [SegTree.tour, SegTree.leaves, length_cons, length_append]
    omega

theorem Covers.tour_length (covers : Covers first last tree) :
    tree.tour.length = 2 * (last - first + 1) - 1 := by
  have cells := EulerTour.tour_length tree
  rw [covers.leaves_length] at cells
  omega

theorem tour_ne_nil (tree : SegTree α) : tree.tour ≠ [] := by
  cases tree <;> simp [SegTree.tour]

theorem leaves_ne_nil (tree : SegTree α) : tree.leaves ≠ [] := by
  induction tree with
  | leaf => simp [SegTree.leaves]
  | node value left right left_some => simp [SegTree.leaves, left_some]

theorem head_tour (tree : SegTree α) : tree.tour.head (tour_ne_nil tree) = tree.root := by
  cases tree <;> rfl

theorem tour_node (before after : List α) (top : α) (left right : SegTree α) :
    before ++ (SegTree.node top left right).tour ++ after =
      before ++ [top] ++ left.tour ++ (right.tour ++ after) := by simp [SegTree.tour]

theorem getElem?_root (tree : SegTree α) (before after : List α) :
    (before ++ tree.tour ++ after)[before.length]? = some tree.root := by
  cases tree <;> simp [SegTree.tour, SegTree.root]

section

variable (f : α → β) (tree : SegTree α)

theorem tour_map : (tree.map f).tour = tree.tour.map f := by
  induction tree with
  | leaf => rfl
  | node value left right left_tour right_tour => simp [SegTree.map, SegTree.tour, left_tour, right_tour]

theorem leaves_map : (tree.map f).leaves = tree.leaves.map f := by
  induction tree with
  | leaf => rfl
  | node value left right left_leaves right_leaves =>
    simp [SegTree.map, SegTree.leaves, left_leaves, right_leaves]

theorem root_map : (tree.map f).root = f tree.root := by
  cases tree <;> rfl

end

theorem Covers.map (covers : Covers first last tree) (f : α → β) : Covers first last (tree.map f) := by
  induction covers with
  | leaf position value => exact .leaf position (f value)
  | node value proper before after left right => exact .node (f value) proper left right

theorem Summed.map (summed : tree.Summed combine) (f : α → β)
    (respects : ∀ a b, f (combine a b) = g (f a) (f b)) : (tree.map f).Summed g := by
  induction tree with
  | leaf => trivial
  | node value left right left_summed right_summed =>
    obtain ⟨top, before, after⟩ := summed
    refine ⟨?_, left_summed before, right_summed after⟩
    rw [top, root_map, root_map, respects]

@[elab_as_elim]
theorem Covers.pair {motive : SegTree α → SegTree α → Prop} (covers : Covers first last tree)
    (second : Covers first last other) (leaf : ∀ a b, motive (.leaf a) (.leaf b))
    (node : ∀ {first middle last : Nat} {left left' right right' : SegTree α} (a b : α),
      Covers first middle left → Covers first middle left' → Covers (middle + 1) last right →
      Covers (middle + 1) last right' → motive left left' → motive right right' →
      motive (.node a left right) (.node b left' right')) : motive tree other := by
  induction covers generalizing other with
  | leaf position value =>
    cases second with
    | leaf => exact leaf _ _
    | node _ proper => exact absurd proper (lt_irrefl _)
  | node value proper before after left_holds right_holds =>
    cases second with
    | leaf => exact absurd proper (lt_irrefl _)
    | node value' _ before' after' =>
      exact node _ _ before before' after after' (left_holds before') (right_holds after')

section

variable (covers : Covers first last tree) (second : Covers first last other) (f : α → α → α)
include covers second

theorem Covers.zipWith : Covers first last (tree.zipWith f other) := by
  induction covers generalizing other with
  | leaf position value =>
    cases second with
    | leaf => exact .leaf position _
    | node _ proper => exact absurd proper (lt_irrefl _)
  | node value proper before after left_zip right_zip =>
    cases second with
    | leaf => exact absurd proper (lt_irrefl _)
    | node value' _ before' after' => exact .node _ proper (left_zip before') (right_zip after')

theorem Covers.root_zipWith : (tree.zipWith f other).root = f tree.root other.root :=
  covers.pair second (fun _ _ => rfl) fun _ _ _ _ _ _ _ _ => rfl

theorem Covers.tour_zipWith : (tree.zipWith f other).tour = List.zipWith f tree.tour other.tour := by
  refine covers.pair second (fun _ _ => rfl) ?_
  intro _ _ _ _ _ _ _ a b before before' _ _ left_tour right_tour
  simp only [SegTree.zipWith, SegTree.tour, left_tour, right_tour, List.zipWith_cons_cons]
  rw [zipWith_append (before.tour_length.trans before'.tour_length.symm)]

theorem Covers.leaves_zipWith : (tree.zipWith f other).leaves = List.zipWith f tree.leaves other.leaves := by
  refine covers.pair second (fun _ _ => rfl) ?_
  intro _ _ _ _ _ _ _ a b before before' _ _ left_leaves right_leaves
  simp only [SegTree.zipWith, SegTree.leaves, left_leaves, right_leaves]
  rw [zipWith_append (before.leaves_length.trans before'.leaves_length.symm)]

theorem Covers.zipWith_summed (respects : ∀ a b c d, f (combine a b) (combine c d) = combine (f a c) (f b d)) :
    tree.Summed combine → other.Summed combine → (tree.zipWith f other).Summed combine := by
  refine covers.pair second (fun _ _ _ _ => trivial) ?_
  intro _ _ _ _ _ _ _ a b before before' after after' left_summed right_summed summed summed'
  obtain ⟨top, left, right⟩ := summed
  obtain ⟨top', left', right'⟩ := summed'
  refine ⟨?_, left_summed left left', right_summed right right'⟩
  rw [before.root_zipWith before' f, after.root_zipWith after' f, top, top', respects]

end

theorem Summed.root_sum [AddMonoid β] (summed : tree.Summed combine) (f : α → β)
    (additive : ∀ a b, f (combine a b) = f a + f b) : f tree.root = (tree.leaves.map f).sum := by
  induction tree with
  | leaf => simp [SegTree.root, SegTree.leaves]
  | node value left right left_sum right_sum =>
    obtain ⟨top, before, after⟩ := summed
    rw [SegTree.root, top, additive, left_sum before, right_sum after, SegTree.leaves, map_append,
      sum_append]

theorem Summed.root_last (summed : tree.Summed combine) (f : α → β)
    (right : ∀ a b, f (combine a b) = f b) : (tree.leaves.map f).getLast? = some (f tree.root) := by
  induction tree with
  | leaf => rfl
  | node value left after left_last right_last =>
    obtain ⟨top, _, summed'⟩ := summed
    rw [SegTree.leaves, map_append, getLast?_append, right_last summed', SegTree.root, top, right]
    rfl

theorem forall₂_append (length : first.length = first'.length) :
    List.Forall₂ R (first ++ second) (first' ++ second') ↔
      List.Forall₂ R first first' ∧ List.Forall₂ R second second' := by
  induction first generalizing first' with
  | nil => simp_all [length_eq_zero_iff.mp length.symm]
  | cons value rest ih =>
    obtain ⟨value', rest', rfl⟩ := exists_cons_of_length_eq_add_one length.symm
    simp [ih (Nat.succ.inj length), and_assoc]

section

variable (covers : Covers first last tree) (second : Covers first last other)
include covers second

theorem Covers.forall₂_leaves (rest rest' : List α) :
    List.Forall₂ R (tree.leaves ++ rest) (other.leaves ++ rest') ↔
      List.Forall₂ R tree.leaves other.leaves ∧ List.Forall₂ R rest rest' :=
  forall₂_append (covers.leaves_length.trans second.leaves_length.symm)

theorem Covers.forall₂_tour (rest rest' : List α) :
    List.Forall₂ R (tree.tour ++ rest) (other.tour ++ rest') ↔
      List.Forall₂ R tree.tour other.tour ∧ List.Forall₂ R rest rest' :=
  forall₂_append (covers.tour_length.trans second.tour_length.symm)

theorem Covers.leaves_related :
    List.Forall₂ R tree.tour other.tour → List.Forall₂ R tree.leaves other.leaves := by
  refine covers.pair second (fun _ _ => id) ?_
  intro _ _ _ _ _ _ _ a b before before' after after' left_related right_related cells
  simp only [SegTree.tour, forall₂_cons, before.forall₂_tour before'] at cells
  rw [SegTree.leaves, SegTree.leaves, before.forall₂_leaves before']
  exact ⟨left_related cells.2.1, right_related cells.2.2⟩

end

theorem root_related (cells : List.Forall₂ R tree.tour other.tour) : R tree.root other.root := by
  cases tree <;> cases other <;> exact (forall₂_cons.mp cells).1

theorem Covers.tour_related (covers : Covers first last tree) (second : Covers first last other)
    (respects : ∀ a b c d, R a c → R b d → R (combine a b) (combine c d)) :
    tree.Summed combine → other.Summed combine → List.Forall₂ R tree.leaves other.leaves →
      List.Forall₂ R tree.tour other.tour := by
  refine covers.pair second (fun _ _ _ _ => id) ?_
  intro _ _ _ _ _ _ _ a b before before' after after' left_related right_related summed summed' related
  obtain ⟨top, left, right⟩ := summed
  obtain ⟨top', left', right'⟩ := summed'
  rw [SegTree.leaves, SegTree.leaves, before.forall₂_leaves before'] at related
  have lefts := left_related left left' related.1
  have rights := right_related right right' related.2
  rw [SegTree.tour, SegTree.tour, forall₂_cons, before.forall₂_tour before', top, top']
  exact ⟨respects _ _ _ _ (root_related lefts) (root_related rights), lefts, rights⟩

theorem Covers.tour_eq_of_root_eq [AddCommMonoid α] [PartialOrder α] [IsOrderedCancelAddMonoid α]
    (covers : Covers first last tree) (second : Covers first last other) :
    tree.Summed (· + ·) → other.Summed (· + ·) → List.Forall₂ (· ≤ ·) tree.leaves other.leaves →
      tree.root = other.root → tree.tour = other.tour := by
  refine covers.pair second (fun _ _ _ _ _ => congrArg fun value => [value]) ?_
  intro _ _ _ _ _ _ _ a b before before' after after' left_equal right_equal summed summed' below roots
  obtain ⟨top, left, right⟩ := summed
  obtain ⟨top', left', right'⟩ := summed'
  rw [SegTree.leaves, SegTree.leaves, before.forall₂_leaves before'] at below
  have lefts := root_related (before.tour_related before' (fun _ _ _ _ => add_le_add) left left' below.1)
  have rights := root_related (after.tour_related after' (fun _ _ _ _ => add_le_add) right right' below.2)
  have sums := (add_eq_add_iff_eq_and_eq lefts rights).mp (top.symm.trans (roots.trans top'))
  rw [SegTree.tour, SegTree.tour, left_equal left left' below.1 sums.1, right_equal right right' below.2 sums.2,
    show a = b from roots]

def SegTree.descend (weigh : α → Nat) : SegTree α → Nat → α
  | leaf value, _ => value
  | node _ left right, target =>
    if target ≤ weigh left.root then left.descend weigh target
    else right.descend weigh (target - weigh left.root)

def cumulative (weigh : α → Nat) (values : List α) (i : Nat) : Nat := ((values.take (i + 1)).map weigh).sum

/-- The cumulative weight reaches the target at this index and not before. -/
def FirstReaching (weigh : α → Nat) (values : List α) (target i : Nat) : Prop :=
  target ≤ cumulative weigh values i ∧ ∀ j < i, cumulative weigh values j < target

theorem cumulative_append_left (inside : i < first.length) :
    cumulative weigh (first ++ second) i = cumulative weigh first i := by
  rw [cumulative, cumulative, take_append_of_le_length inside]

theorem cumulative_append_right (first second : List α) (i : Nat) :
    cumulative weigh (first ++ second) (first.length + i) = (first.map weigh).sum + cumulative weigh second i := by
  have taken : (first ++ second).take (first.length + i + 1) = first ++ second.take (i + 1) := by
    rw [add_assoc, take_length_add_append]
  rw [cumulative, cumulative, taken, map_append, sum_append]

theorem cumulative_le_sum (weigh : α → Nat) (values : List α) (i : Nat) :
    cumulative weigh values i ≤ (values.map weigh).sum := by
  conv_rhs => rw [← take_append_drop (i + 1) values]
  rw [cumulative, map_append, sum_append]
  exact Nat.le_add_right _ _

/-- A larger target is not reached earlier. -/
theorem FirstReaching.mono (small : FirstReaching weigh values target i)
    (large : FirstReaching weigh values target' j) (below : target ≤ target') : i ≤ j := by
  by_contra later
  have early := small.2 j (lt_of_not_ge later)
  have reached := large.1
  omega

/-- The descent finds the leaf where the cumulative weight first reaches the target. -/
theorem SegTree.descend_first (weighed : (tree.map weigh).Summed (· + ·))
    (reached : target ≤ (tree.leaves.map weigh).sum) :
    ∃ i, tree.leaves[i]? = some (tree.descend weigh target) ∧ FirstReaching weigh tree.leaves target i := by
  induction tree generalizing target with
  | leaf value => exact ⟨0, rfl, by simpa [cumulative, leaves] using reached, by simp⟩
  | node value left right onLeft onRight =>
    obtain ⟨_, first, second⟩ := weighed
    have total : weigh left.root = (left.leaves.map weigh).sum := by
      rw [← root_map weigh left, ← leaves_map weigh left]
      simpa using Summed.root_sum first id fun _ _ => rfl
    rw [descend]
    split
    · rename_i inside
      obtain ⟨i, found, least, before⟩ := onLeft first (total ▸ inside)
      have bound := (List.getElem?_eq_some_iff.mp found).1
      refine ⟨i, by rw [leaves, List.getElem?_append_left bound, found], ?_, fun j earlier => ?_⟩
      · rw [leaves, cumulative_append_left bound]
        exact least
      · rw [leaves, cumulative_append_left (lt_trans earlier bound)]
        exact before j earlier
    · rename_i outside
      rw [leaves, map_append, sum_append] at reached
      obtain ⟨i, found, least, before⟩ := onRight second (show target - weigh left.root ≤ _ by omega)
      refine ⟨left.leaves.length + i, ?_, ?_, fun j earlier => ?_⟩
      · rw [leaves, getElem?_append_right (Nat.le_add_right _ _), Nat.add_sub_cancel_left, found]
      · rw [leaves, cumulative_append_right]
        omega
      · rw [leaves]
        by_cases low : j < left.leaves.length
        · rw [cumulative_append_left low]
          have most := cumulative_le_sum weigh left.leaves j
          omega
        · obtain ⟨k, rfl⟩ := Nat.exists_eq_add_of_le (le_of_not_gt low)
          have early := before k (by omega)
          rw [cumulative_append_right]
          omega

end EulerTour
