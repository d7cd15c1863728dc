import NCollectd.Base.HeightTree
import NCollectd.Base.Libc
import NCollectd.Base.Memory

/-! `avltree.c` on its nodes, which live in a heap and point to each other. -/

namespace NCollectd.Avl

open HeightTree

/-- `c_avl_node_t`. -/
structure AvlNode (κ ν : Type) where
  key : κ
  value : ν
  height : Int
  left : Option Block
  right : Option Block
  parent : Option Block

/-- `c_avl_tree_t`, with the memory its nodes are in. -/
structure CAvl (κ ν : Type) where
  heap : Heap (AvlNode κ ν)
  root : Option Block
  size : Int

def intMax : Int := 2147483647

variable {κ ν : Type}

def AvlNode.child (side : Side) (n : AvlNode κ ν) : Option Block :=
  match side with
  | .left => n.left
  | .right => n.right

def AvlNode.setChild (side : Side) (child : Option Block) (n : AvlNode κ ν) : AvlNode κ ν :=
  match side with
  | .left => { n with left := child }
  | .right => { n with right := child }

def AvlNode.setParent (parent : Option Block) (n : AvlNode κ ν) : AvlNode κ ν := { n with parent := parent }

def AvlNode.setHeight (height : Int) (n : AvlNode κ ν) : AvlNode κ ν := { n with height := height }

def AvlNode.exchange (x : Block) (child : Option Block) (n : AvlNode κ ν) : AvlNode κ ν :=
  if n.left = some x then { n with left := child } else { n with right := child }

namespace CAvl

def deref (t : CAvl κ ν) (n : Option Block) : Option (AvlNode κ ν) := n.bind t.heap.deref

def modify (t : CAvl κ ν) (n : Option Block) (f : AvlNode κ ν → AvlNode κ ν) : Option (CAvl κ ν) := do
  let block ← n
  let node ← t.heap.deref block
  let heap ← t.heap.store block (f node)
  some { t with heap := heap }

def modifyIf (t : CAvl κ ν) (n : Option Block) (f : AvlNode κ ν → AvlNode κ ν) : Option (CAvl κ ν) :=
  if n = none then some t else t.modify n f

def turns (t : CAvl κ ν) : Nat := t.heap.blocks.length + 1

def heightOf (t : CAvl κ ν) (n : Option Block) : Option Int :=
  match n with
  | none => some 0
  | some block => (t.heap.deref block).map AvlNode.height

end CAvl

def balance (t : CAvl κ ν) (n : Option Block) : Option Int := do
  let node ← t.deref n
  let heightLeft ← t.heightOf node.left
  let heightRight ← t.heightOf node.right
  some (heightLeft - heightRight)

def calcHeight (t : CAvl κ ν) (n : Option Block) : Option Int :=
  match n with
  | none => some 0
  | some block => do
    let node ← t.heap.deref block
    let heightLeft ← t.heightOf node.left
    let heightRight ← t.heightOf node.right
    some ((if heightLeft > heightRight then heightLeft else heightRight) + 1)

def freeNode : Nat → CAvl κ ν → Option Block → Option (CAvl κ ν)
  | _, t, none => some t
  | 0, _, some _ => none
  | turns + 1, t, some block => do
    let node ← t.heap.deref block
    let t ← freeNode turns t node.left
    let t ← freeNode turns t node.right
    let heap ← t.heap.free block
    some { t with heap := heap }

def replaceChild (t : CAvl κ ν) (p : Option Block) (x : Block) (child : Option Block) : Option (CAvl κ ν) :=
  match p with
  | none => some { t with root := child }
  | some _ => t.modify p (AvlNode.exchange x child)

def isChild (t : CAvl κ ν) (p : Option Block) (x : Block) : Option Bool :=
  match p with
  | none => some true
  | some block => (t.heap.deref block).map fun node => node.left = some x || node.right = some x

def rotateLinks (side : Side) (t : CAvl κ ν) (x : Block) (y b p : Option Block) : Option (CAvl κ ν) := do
  let t ← t.modify (some x) (AvlNode.setChild side b)
  let t ← t.modifyIf b (AvlNode.setParent (some x))
  let t ← t.modify (some x) (AvlNode.setParent y)
  let t ← t.modify y (AvlNode.setChild side.opposite (some x))
  let t ← t.modify y (AvlNode.setParent p)
  let known ← isChild t p x
  if known then replaceChild t p x y else none

def rotate (side : Side) (t : CAvl κ ν) (x : Option Block) : Option (CAvl κ ν × Option Block) := do
  let block ← x
  let node ← t.heap.deref block
  let upper ← t.deref (node.child side)
  let y := node.child side
  let t ← rotateLinks side t block y (upper.child side.opposite) node.parent
  let height ← calcHeight t x
  let t ← t.modify x (AvlNode.setHeight height)
  let height ← calcHeight t y
  let t ← t.modify y (AvlNode.setHeight height)
  some (t, y)

def rotateRight (t : CAvl κ ν) (x : Option Block) : Option (CAvl κ ν × Option Block) := rotate .left t x

def rotateLeft (t : CAvl κ ν) (x : Option Block) : Option (CAvl κ ν × Option Block) := rotate .right t x

def rotateTwice (side : Side) (t : CAvl κ ν) (x : Option Block) : Option (CAvl κ ν × Option Block) := do
  let node ← t.deref x
  let first ← rotate side.opposite t (node.child side)
  rotate side first.1 x

def rotateLeftRight (t : CAvl κ ν) (x : Option Block) : Option (CAvl κ ν × Option Block) := rotateTwice .left t x

def rotateRightLeft (t : CAvl κ ν) (x : Option Block) : Option (CAvl κ ν × Option Block) := rotateTwice .right t x

def finishTurn (turned : CAvl κ ν × Option Block) : Option (CAvl κ ν × Option (Option Block)) := do
  let node ← turned.1.deref turned.2
  let height ← calcHeight turned.1 turned.2
  if node.height = height then some (turned.1, some node.parent) else none

def rebalanceTurn (t : CAvl κ ν) (n : Block) : Option (CAvl κ ν × Option (Option Block)) := do
  let top ← balance t (some n)
  let node ← t.heap.deref n
  if top < -2 ∨ 2 < top then none
  else if top = -2 then do
    let bottom ← balance t node.right
    if bottom < -1 ∨ 1 < bottom then none
    else if bottom = 1 then (rotateRightLeft t (some n)).bind finishTurn
    else (rotateLeft t (some n)).bind finishTurn
  else if top = 2 then do
    let bottom ← balance t node.left
    if bottom < -1 ∨ 1 < bottom then none
    else if bottom = -1 then (rotateLeftRight t (some n)).bind finishTurn
    else (rotateRight t (some n)).bind finishTurn
  else do
    let height ← calcHeight t (some n)
    if height = node.height then some (t, none)
    else (t.modify (some n) (AvlNode.setHeight height)).bind fun t => finishTurn (t, some n)

def rebalance : Nat → CAvl κ ν → Option Block → Option (CAvl κ ν)
  | _, t, none => some t
  | 0, _, some _ => none
  | turns + 1, t, some n =>
    (rebalanceTurn t n).bind fun turned =>
      match turned.2 with
      | none => some turned.1
      | some next => rebalance turns turned.1 next

def searchLoop (compare : κ → κ → Int) (t : CAvl κ ν) (key : κ) : Nat → Option Block → Option (Option Block)
  | _, none => some none
  | 0, some _ => none
  | turns + 1, some n => do
    let node ← t.heap.deref n
    let cmp := compare key node.key
    if cmp = 0 then some (some n)
    else if cmp < 0 then searchLoop compare t key turns node.left
    else searchLoop compare t key turns node.right

def search (compare : κ → κ → Int) (t : CAvl κ ν) (key : κ) : Option (Option Block) :=
  searchLoop compare t key t.turns t.root

def descendLoop (side : Side) (t : CAvl κ ν) : Nat → Block → Option Block
  | 0, _ => none
  | turns + 1, r => do
    let node ← t.heap.deref r
    match node.child side with
    | none => some r
    | some child => descendLoop side t turns child

def ascendLoop (side : Side) (t : CAvl κ ν) : Nat → Block → Option Block → Option (Block × Option Block)
  | _, n, none => some (n, none)
  | 0, _, some _ => none
  | turns + 1, n, some r => do
    let node ← t.heap.deref r
    if node.parent = none then some (n, some r)
    else if node.child side.opposite = some n then some (n, some r)
    else ascendLoop side t turns r node.parent

def neighbour (side : Side) (t : CAvl κ ν) (n : Option Block) : Option (Option Block) :=
  match n with
  | none => some none
  | some n => do
    let node ← t.heap.deref n
    match node.child side with
    | some child => (descendLoop side.opposite t t.turns child).map some
    | none => do
      let found ← ascendLoop side t t.turns n node.parent
      match found.2 with
      | none => some none
      | some r => do
        let node ← t.heap.deref r
        if node.child side.opposite = some found.1 then some (some r)
        else if node.parent = none then some none
        else none

def cAvlNodePrev (t : CAvl κ ν) (n : Option Block) : Option (Option Block) := neighbour .left t n

def cAvlNodeNext (t : CAvl κ ν) (n : Option Block) : Option (Option Block) := neighbour .right t n

def tilt : Side → Int
  | .left => 1
  | .right => -1

def spliceNode (side : Side) (t : CAvl κ ν) (n : Block) : Option (CAvl κ ν) := do
  let node ← t.heap.deref n
  let top ← balance t (some n)
  let known ← isChild t node.parent n
  if top = tilt side ∧ known ∧ (node.parent = none → t.root = some n) then
    let t ← replaceChild t node.parent n (node.child side)
    let t ← t.modify (node.child side) (AvlNode.setParent node.parent)
    let t ← rebalance t.turns t node.parent
    let t ← t.modify (some n) (AvlNode.setChild side none)
    freeNode t.turns t (some n)
  else none

def dropLeaf (t : CAvl κ ν) (n : Block) : Option (CAvl κ ν) := do
  let node ← t.heap.deref n
  let known ← isChild t node.parent n
  if known ∧ (node.parent = none → t.root = some n) then
    let t ← replaceChild t node.parent n none
    let t ← rebalance t.turns t node.parent
    freeNode t.turns t (some n)
  else none

def removeLower (t : CAvl κ ν) (n : Block) : Option (CAvl κ ν) := do
  let node ← t.heap.deref n
  match node.left, node.right with
  | none, none => dropLeaf t n
  | none, some _ => spliceNode .right t n
  | some _, none => spliceNode .left t n
  | some _, some _ => none

def removeNode (t : CAvl κ ν) (n : Block) : Option (CAvl κ ν) := do
  let node ← t.heap.deref n
  if node.left ≠ none ∧ node.right ≠ none then
    let top ← balance t (some n)
    let r ← if 0 < top then cAvlNodePrev t (some n) else cAvlNodeNext t (some n)
    let block ← r
    let replacement ← t.heap.deref block
    if replacement.left = none ∨ replacement.right = none then
      let t ← t.modify (some n) fun node => { node with key := replacement.key, value := replacement.value }
      removeLower t block
    else none
  else removeLower t n

def cAvlCreate : CAvl κ ν := ⟨Heap.empty, none, 0⟩

def CAvl.resize (t : CAvl κ ν) (change : Int) : Option (CAvl κ ν) :=
  if -intMax - 1 ≤ t.size + change ∧ t.size + change ≤ intMax then some { t with size := t.size + change } else none

def attachNode (t : CAvl κ ν) (nptr new : Block) (side : Side) : Option (Status × CAvl κ ν) := do
  let t ← t.modify (some nptr) (AvlNode.setChild side (some new))
  let t ← t.modify (some new) (AvlNode.setParent (some nptr))
  let t ← rebalance t.turns t (some nptr)
  (t.resize 1).map fun t => (0, t)

def insertLoop (compare : κ → κ → Int) (t : CAvl κ ν) (key : κ) (new : Block) :
    Nat → Block → Option (Status × CAvl κ ν)
  | 0, _ => none
  | turns + 1, nptr => do
    let node ← t.heap.deref nptr
    let cmp := compare node.key key
    if cmp = 0 then (freeNode t.turns t (some new)).map fun t => (EEXIST, t)
    else
      let side : Side := if cmp < 0 then .right else .left
      match node.child side with
      | some child => insertLoop compare t key new turns child
      | none => attachNode t nptr new side

def newNode (key : κ) (value : ν) : AvlNode κ ν := ⟨key, value, 1, none, none, none⟩

def cAvlInsert (compare : κ → κ → Int) (t : CAvl κ ν) (key : κ) (value : ν) : Option (Status × CAvl κ ν) :=
  let made := t.heap.alloc (newNode key value)
  match t.root with
  | none => some (0, ⟨made.1, some made.2, 1⟩)
  | some nptr => insertLoop compare { t with heap := made.1 } key made.2 (CAvl.turns { t with heap := made.1 }) nptr

/-- What a call writes through its pointers, if they are not `NULL`. -/
structure Output (κ ν : Type) where
  key : Option κ
  value : Option ν

def cAvlRemove (compare : κ → κ → Int) (t : CAvl κ ν) (key : Option κ) (wantKey wantValue : Bool) :
    Option (Status × Output κ ν × CAvl κ ν) :=
  match key with
  | none => some (EINVAL, ⟨none, none⟩, t)
  | some key => do
    let found ← search compare t key
    match found with
    | none => some (ENOENT, ⟨none, none⟩, t)
    | some n => do
      let node ← t.heap.deref n
      let t ← removeNode t n
      let t ← t.resize (-1)
      some (0, ⟨if wantKey then some node.key else none, if wantValue then some node.value else none⟩, t)

def cAvlGet (compare : κ → κ → Int) (t : CAvl κ ν) (key : κ) (wantValue : Bool) : Option (Status × Option ν) := do
  let found ← search compare t key
  match found with
  | none => some (ENOENT, none)
  | some n => (t.heap.deref n).map fun node => (0, if wantValue then some node.value else none)

def EOF : Status := -1

def leafLoop (t : CAvl κ ν) : Nat → Block → Option Block
  | 0, _ => none
  | turns + 1, n => do
    let node ← t.heap.deref n
    match node.left, node.right with
    | none, none => some n
    | none, some right => leafLoop t turns right
    | some left, none => leafLoop t turns left
    | some left, some right => do
      let heightLeft ← (t.heap.deref left).map AvlNode.height
      let heightRight ← (t.heap.deref right).map AvlNode.height
      if heightLeft > heightRight then leafLoop t turns left else leafLoop t turns right

def cAvlPick (t : CAvl κ ν) (wantKey wantValue : Bool) : Option (Status × Output κ ν × CAvl κ ν) :=
  if wantKey = false ∧ wantValue = false then some (EINVAL, ⟨none, none⟩, t)
  else
    match t.root with
    | none => some (EOF, ⟨none, none⟩, t)
    | some root => do
      let n ← leafLoop t t.turns root
      let node ← t.heap.deref n
      let t ← replaceChild t node.parent n none
      let t ← freeNode t.turns t (some n)
      let t ← t.resize (-1)
      let t ← rebalance t.turns t node.parent
      some (0, ⟨if wantKey then some node.key else none, if wantValue then some node.value else none⟩, t)

end NCollectd.Avl
