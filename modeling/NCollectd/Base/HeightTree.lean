import Mathlib

/-! Height-balanced binary trees whose nodes carry a height. -/

namespace NCollectd.HeightTree

universe u

variable {β : Type u}

inductive Side where
  | left
  | right
deriving DecidableEq

def Side.opposite : Side → Side
  | .left => .right
  | .right => .left

inductive HTree (β : Type u) where
  | nil
  | node (label : β) (height : Int) (left right : HTree β)

namespace HTree

def stored : HTree β → Int
  | nil => 0
  | node _ height _ _ => height

def depth : HTree β → Nat
  | nil => 0
  | node _ _ left right => max left.depth right.depth + 1

def toList : HTree β → List β
  | nil => []
  | node label _ left right => left.toList ++ label :: right.toList

def orient (side : Side) (label : β) (height : Int) (near far : HTree β) : HTree β :=
  match side with
  | .left => node label height near far
  | .right => node label height far near

def join (side : Side) (label : β) (near far : HTree β) : HTree β :=
  orient side label (max near.stored far.stored + 1) near far

/-- Every node carries its height, and the heights of its subtrees differ by at most one. -/
def Balanced : HTree β → Prop
  | nil => True
  | node _ height left right => left.Balanced ∧ right.Balanced ∧ height = max left.stored right.stored + 1 ∧
      left.stored ≤ right.stored + 1 ∧ right.stored ≤ left.stored + 1

end HTree

open HTree

@[simp] theorem opposite_opposite (side : Side) : side.opposite.opposite = side := by
  cases side <;> rfl

section

variable (side : Side) (label : β)

theorem orient_opposite (height : Int) (near far : HTree β) :
    orient side.opposite label height far near = orient side label height near far := by
  cases side <;> rfl

@[simp] theorem stored_orient (height : Int) (near far : HTree β) :
    (orient side label height near far).stored = height := by
  cases side <;> rfl

@[simp] theorem stored_join (near far : HTree β) :
    (join side label near far).stored = max near.stored far.stored + 1 := stored_orient ..

theorem join_opposite (near far : HTree β) : join side.opposite label far near = join side label near far := by
  rw [join, join, orient_opposite, max_comm]

end

theorem balanced_orient :
    (orient side label height near far).Balanced ↔ near.Balanced ∧ far.Balanced ∧
      height = max near.stored far.stored + 1 ∧ near.stored ≤ far.stored + 1 ∧ far.stored ≤ near.stored + 1 := by
  cases side with
  | left => exact Iff.rfl
  | right =>
    change far.Balanced ∧ near.Balanced ∧ height = max far.stored near.stored + 1 ∧ _ ↔ _
    rw [max_comm far.stored near.stored]
    tauto

theorem balanced_join (first : near.Balanced) (second : far.Balanced)
    (less : near.stored ≤ far.stored + 1) (more : far.stored ≤ near.stored + 1) :
    (join side label near far).Balanced :=
  balanced_orient.mpr ⟨first, second, rfl, less, more⟩

theorem exists_orient (side : Side) (tree : HTree β) (some : tree ≠ nil) :
    ∃ label height near far, tree = orient side label height near far := by
  cases tree with
  | nil => exact absurd rfl some
  | node label height left right =>
    cases side with
    | left => exact ⟨label, height, left, right, rfl⟩
    | right => exact ⟨label, height, right, left, rfl⟩

section

variable {tree : HTree β} (balanced : tree.Balanced)
include balanced

theorem HTree.Balanced.stored_eq : tree.stored = tree.depth := by
  induction tree with
  | nil => rfl
  | node label height left right first second =>
    obtain ⟨onLeft, onRight, same, _⟩ := balanced
    rw [stored, same, first onLeft, second onRight, depth]
    omega

theorem HTree.Balanced.fib_le : Nat.fib (tree.depth + 2) ≤ tree.toList.length + 1 := by
  induction tree with
  | nil => rfl
  | node label height left right first second =>
    obtain ⟨onLeft, onRight, _, less, more⟩ := balanced
    rw [onLeft.stored_eq, onRight.stored_eq] at less more
    have lower := Nat.fib_mono (show left.depth + 1 ≤ right.depth + 2 by omega)
    have higher := Nat.fib_mono (show right.depth + 1 ≤ left.depth + 2 by omega)
    have few := first onLeft
    have many := second onRight
    rw [depth, toList, List.length_append, List.length_cons, Nat.fib_add_two]
    rcases le_total left.depth right.depth with deep | deep
    · rw [max_eq_right deep]
      change _ + Nat.fib (right.depth + 2) ≤ _
      omega
    · rw [max_eq_left deep]
      change _ + Nat.fib (left.depth + 2) ≤ _
      omega

theorem HTree.Balanced.nonneg : 0 ≤ tree.stored := by
  rw [balanced.stored_eq]
  exact Int.natCast_nonneg _

theorem HTree.Balanced.pos (some : tree ≠ nil) : 0 < tree.stored := by
  cases tree with
  | nil => exact absurd rfl some
  | node label height left right =>
    obtain ⟨onLeft, _, same, _⟩ := balanced
    have nonneg := onLeft.nonneg
    change 0 < height
    omega

end

def lift (side : Side) (label : β) (near far : HTree β) : HTree β :=
  match side, near with
  | _, nil => join side label near far
  | .left, node upper _ outer inner =>
    if inner.stored = outer.stored + 1 then
      match inner with
      | nil => join side label near far
      | node top _ first second => join side top (join side upper outer first) (join side label second far)
    else join side upper outer (join side label inner far)
  | .right, node upper _ inner outer =>
    if inner.stored = outer.stored + 1 then
      match inner with
      | nil => join side label near far
      | node top _ second first => join side top (join side upper outer first) (join side label second far)
    else join side upper outer (join side label inner far)

theorem lift_single {inner outer : HTree β}
    (low : inner.stored ≠ outer.stored + 1) :
    lift side label (orient side upper height outer inner) far =
      join side upper outer (join side label inner far) := by
  cases side with
  | left | right => exact if_neg low

theorem lift_double
    (tall : high = outer.stored + 1) :
    lift side label (orient side upper height outer (orient side top high first second)) far =
      join side top (join side upper outer first) (join side label second far) := by
  cases side with
  | left | right => exact if_pos tall

def repair (side : Side) (label : β) (near far : HTree β) : HTree β :=
  if near.stored = far.stored + 2 then lift side label near far
  else if far.stored = near.stored + 2 then lift side.opposite label far near
  else join side label near far

section

variable (side : Side) (label : β)

theorem repair_opposite (near far : HTree β) :
    repair side.opposite label far near = repair side label near far := by
  unfold repair
  by_cases high : near.stored = far.stored + 2
  · rw [if_pos high, if_neg (by omega), if_pos high, opposite_opposite]
  · rw [if_neg high, if_neg high, join_opposite]

theorem toList_orient (height : Int) (near far : HTree β) : (orient side label height near far).toList =
      match side with
      | .left => near.toList ++ label :: far.toList
      | .right => far.toList ++ label :: near.toList := by
  cases side <;> rfl

theorem toList_lift (height : Int) (balanced : near.Balanced)
    (high : near.stored = far.stored + 2) (low : 0 ≤ far.stored) :
    (lift side label near far).toList = (orient side label height near far).toList := by
  have some : near ≠ nil := by
    rintro rfl
    change 0 = _ at high
    omega
  obtain ⟨upper, tall, outer, inner, rfl⟩ := exists_orient side _ some
  obtain ⟨onOuter, onInner, _⟩ := balanced_orient.mp balanced
  by_cases deep : inner.stored = outer.stored + 1
  · have inside : inner ≠ nil := by
      rintro rfl
      have nonneg := onOuter.nonneg
      change 0 = _ at deep
      omega
    obtain ⟨top, peak, first, second, rfl⟩ := exists_orient side _ inside
    rw [stored_orient] at deep
    rw [lift_double deep]
    cases side <;> simp [join, orient, toList]
  · rw [lift_single deep]
    cases side <;> simp [join, orient, toList]

theorem lift_balanced (first : near.Balanced) (second : far.Balanced)
    (high : near.stored = far.stored + 2) :
    (lift side label near far).Balanced ∧ near.stored ≤ (lift side label near far).stored ∧
      (lift side label near far).stored ≤ near.stored + 1 := by
  have low := second.nonneg
  have some : near ≠ nil := by
    rintro rfl
    change 0 = _ at high
    omega
  obtain ⟨upper, tall, outer, inner, rfl⟩ := exists_orient side _ some
  obtain ⟨onOuter, onInner, same, less, more⟩ := balanced_orient.mp first
  rw [stored_orient] at high ⊢
  by_cases deep : inner.stored = outer.stored + 1
  · have inside : inner ≠ nil := by
      rintro rfl
      change 0 = _ at deep
      omega
    obtain ⟨top, peak, lower, rest, rfl⟩ := exists_orient side _ inside
    obtain ⟨onLower, onRest, equal, left, right⟩ := balanced_orient.mp onInner
    rw [stored_orient] at deep same
    rw [lift_double deep]
    simp only [stored_join]
    refine ⟨balanced_join (balanced_join onOuter onLower ?_ ?_) (balanced_join onRest second ?_ ?_) ?_ ?_, ?_, ?_⟩
    all_goals try simp only [stored_join]
    all_goals omega
  · rw [lift_single deep]
    simp only [stored_join]
    refine ⟨balanced_join onOuter (balanced_join onInner second ?_ ?_) ?_ ?_, ?_, ?_⟩
    all_goals try simp only [stored_join]
    all_goals omega

theorem repair_balanced (first : near.Balanced) (second : far.Balanced)
    (less : near.stored ≤ far.stored + 2) (more : far.stored ≤ near.stored + 2) :
    (repair side label near far).Balanced ∧ max near.stored far.stored ≤ (repair side label near far).stored ∧
      (repair side label near far).stored ≤ max near.stored far.stored + 1 ∧
      (near.stored ≤ far.stored + 1 → far.stored ≤ near.stored + 1 →
        (repair side label near far).stored = max near.stored far.stored + 1) := by
  unfold repair
  split
  · rename_i high
    obtain ⟨balanced, low, top⟩ := lift_balanced side label first second high
    refine ⟨balanced, ?_, ?_, ?_⟩
    all_goals omega
  · split
    · rename_i high
      obtain ⟨balanced, low, top⟩ := lift_balanced side.opposite label second first high
      refine ⟨balanced, ?_, ?_, ?_⟩
      all_goals omega
    · simp only [stored_join]
      refine ⟨balanced_join first second ?_ ?_, ?_, ?_, fun _ _ => trivial⟩
      all_goals omega

theorem toList_repair (height : Int) (first : near.Balanced) (second : far.Balanced) :
    (repair side label near far).toList = (orient side label height near far).toList := by
  unfold repair
  split
  · rename_i high
    exact toList_lift side label height first high second.nonneg
  · split
    · rename_i high
      rw [toList_lift side.opposite label height second high first.nonneg, orient_opposite]
    · cases side <;> rfl

end

/-- A node on a path, without the subtree in which the path goes on. -/
structure Frame (β : Type u) where
  side : Side
  label : β
  height : Int
  sibling : HTree β

def Frame.fill (frame : Frame β) (tree : HTree β) : HTree β :=
  orient frame.side frame.label frame.height tree frame.sibling

def plug : List (Frame β) → HTree β → HTree β
  | [], tree => tree
  | frame :: path, tree => plug path (frame.fill tree)

/-- A balanced tree of this height in the hole makes the whole tree balanced. -/
def Fits : List (Frame β) → Int → Prop
  | [], _ => True
  | frame :: path, height => frame.sibling.Balanced ∧ frame.height = max height frame.sibling.stored + 1 ∧
      height ≤ frame.sibling.stored + 1 ∧ frame.sibling.stored ≤ height + 1 ∧ Fits path frame.height

def climb : List (Frame β) → HTree β → HTree β
  | [], tree => tree
  | frame :: path, tree => climb path (repair frame.side frame.label tree frame.sibling)

theorem plug_append (lower path : List (Frame β)) (tree : HTree β) :
    plug (lower ++ path) tree = plug path (plug lower tree) := by
  induction lower generalizing tree with
  | nil => rfl
  | cons frame lower ih => exact ih (frame.fill tree)

theorem plug_balanced_iff : (plug path tree).Balanced ↔ tree.Balanced ∧ Fits path tree.stored := by
  induction path generalizing tree with
  | nil => exact ⟨fun balanced => ⟨balanced, trivial⟩, And.left⟩
  | cons frame path ih =>
    rw [plug, ih, Frame.fill, balanced_orient, stored_orient, Fits]
    tauto

theorem climb_eq_plug (fits : Fits path tree.stored) : climb path tree = plug path tree := by
  induction path generalizing tree with
  | nil => rfl
  | cons frame path ih =>
    obtain ⟨_, height, less, more, outer⟩ := fits
    have same : repair frame.side frame.label tree frame.sibling = frame.fill tree := by
      rw [repair, if_neg (by omega), if_neg (by omega), join, Frame.fill, height]
    rw [climb, plug, same]
    apply ih
    rwa [Frame.fill, stored_orient]

theorem climb_balanced (fits : Fits path height) (balanced : tree.Balanced)
    (less : tree.stored ≤ height + 1) (more : height ≤ tree.stored + 1) :
    (climb path tree).Balanced := by
  induction path generalizing tree height with
  | nil => exact balanced
  | cons frame path ih =>
    obtain ⟨sibling, same, low, high, outer⟩ := fits
    obtain ⟨repaired, lower, upper, level⟩ :=
      repair_balanced frame.side frame.label balanced sibling (by omega) (by omega)
    apply ih outer repaired
    all_goals omega

theorem toList_plug_congr (same : tree.toList = other.toList) :
    (plug path tree).toList = (plug path other).toList := by
  induction path generalizing tree other with
  | nil => exact same
  | cons frame path ih =>
    apply ih
    rw [Frame.fill, Frame.fill, toList_orient, toList_orient, same]

theorem toList_climb (fits : Fits path height) (balanced : tree.Balanced)
    (less : tree.stored ≤ height + 1) (more : height ≤ tree.stored + 1) :
    (climb path tree).toList = (plug path tree).toList := by
  induction path generalizing tree height with
  | nil => rfl
  | cons frame path ih =>
    obtain ⟨sibling, same, low, high, outer⟩ := fits
    obtain ⟨repaired, lower, upper, level⟩ :=
      repair_balanced frame.side frame.label balanced sibling (by omega) (by omega)
    rw [climb, ih outer repaired (by omega) (by omega), plug]
    exact toList_plug_congr (toList_repair frame.side frame.label frame.height balanced sibling)

def before : List (Frame β) → List β
  | [] => []
  | frame :: path =>
    match frame.side with
    | .left => before path
    | .right => before path ++ frame.sibling.toList ++ [frame.label]

def after : List (Frame β) → List β
  | [] => []
  | frame :: path =>
    match frame.side with
    | .left => frame.label :: frame.sibling.toList ++ after path
    | .right => after path

theorem toList_plug (path : List (Frame β)) (tree : HTree β) :
    (plug path tree).toList = before path ++ tree.toList ++ after path := by
  induction path generalizing tree with
  | nil => simp [plug, before, after]
  | cons frame path ih =>
    obtain ⟨side, label, height, sibling⟩ := frame
    rw [plug, ih]
    cases side <;> simp [Frame.fill, orient, toList, before, after]

theorem before_append (lower path : List (Frame β)) : before (lower ++ path) = before path ++ before lower := by
  induction lower with
  | nil => simp [before]
  | cons frame lower ih =>
    obtain ⟨side, label, height, sibling⟩ := frame
    cases side <;> simp [before, ih]

theorem after_append (lower path : List (Frame β)) : after (lower ++ path) = after lower ++ after path := by
  induction lower with
  | nil => simp [after]
  | cons frame lower ih =>
    obtain ⟨side, label, height, sibling⟩ := frame
    cases side <;> simp [after, ih]

theorem before_of_left {path : List (Frame β)} (left : ∀ frame ∈ path, frame.side = .left) : before path = [] := by
  induction path with
  | nil => rfl
  | cons frame path ih =>
    rw [before, left frame (List.mem_cons_self ..)]
    exact ih fun other member => left other (List.mem_cons_of_mem frame member)

theorem after_of_right {path : List (Frame β)} (right : ∀ frame ∈ path, frame.side = .right) : after path = [] := by
  induction path with
  | nil => rfl
  | cons frame path ih =>
    rw [after, right frame (List.mem_cons_self ..)]
    exact ih fun other member => right other (List.mem_cons_of_mem frame member)

def outward (side : Side) (labels : List β) : List β :=
  match side with
  | .left => labels.reverse
  | .right => labels

def beyond (side : Side) (path : List (Frame β)) : List β :=
  match side with
  | .left => outward .left (before path)
  | .right => outward .right (after path)

theorem beyond_nil (side : Side) : beyond side ([] : List (Frame β)) = [] := by
  cases side <;> rfl

theorem beyond_cons_same (frame : Frame β) (path : List (Frame β)) :
    beyond frame.side (frame :: path) = beyond frame.side path := by
  obtain ⟨side, label, height, sibling⟩ := frame
  cases side <;> simp [beyond, before, after]

theorem beyond_cons_opposite (frame : Frame β) (path : List (Frame β)) :
    beyond frame.side.opposite (frame :: path) = frame.label ::
      (outward frame.side.opposite frame.sibling.toList ++ beyond frame.side.opposite path) := by
  obtain ⟨side, label, height, sibling⟩ := frame
  cases side <;> simp [beyond, before, after, outward, Side.opposite]

theorem outward_plug (side : Side) (path : List (Frame β)) (label : β) (height : Int) (near far : HTree β) :
    ∃ behind, outward side (plug path (orient side label height near far)).toList =
      behind ++ label :: (outward side near.toList ++ beyond side path) := by
  rw [toList_plug]
  cases side with
  | left =>
    exact ⟨(after path).reverse ++ far.toList.reverse, by simp [outward, orient, toList, beyond]⟩
  | right =>
    exact ⟨before path ++ far.toList, by simp [outward, orient, toList, beyond]⟩

theorem head_outward_plug {rest : HTree β}
    (sides : ∀ frame ∈ path, frame.side = side.opposite) :
    (outward side (plug path (orient side.opposite label height nil rest)).toList).head? = some label := by
  rw [toList_plug]
  cases side with
  | left =>
    rw [after_of_right sides]
    simp [outward, orient, toList, Side.opposite]
  | right =>
    rw [before_of_left sides]
    simp [outward, orient, toList, Side.opposite]

theorem exists_plug_of_mem (member : label ∈ tree.toList) (side : Side) :
    ∃ path height near far, tree = plug path (orient side label height near far) := by
  induction tree with
  | nil => cases member
  | node top height left right onLeft onRight =>
    rw [toList, List.mem_append, List.mem_cons] at member
    rcases member with before | rfl | after
    · obtain ⟨path, high, near, far, rfl⟩ := onLeft before
      exact ⟨path ++ [⟨.left, top, height, right⟩], high, near, far, by rw [plug_append]; rfl⟩
    · obtain ⟨_, _, near, far, same⟩ := exists_orient side (node label height left right) nofun
      cases side <;> cases same <;> exact ⟨[], _, _, _, rfl⟩
    · obtain ⟨path, high, near, far, rfl⟩ := onRight after
      exact ⟨path ++ [⟨.right, top, height, left⟩], high, near, far, by rw [plug_append]; rfl⟩

end NCollectd.HeightTree
