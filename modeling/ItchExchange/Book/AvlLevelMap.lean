import ItchExchange.Book.LevelMap

/-!
# The tree of price levels

`AvlLevelMap` of `avl_level_map.hpp`: an AVL tree whose nodes are elements of one
array and whose links are indices into it.  Released nodes form a free list
through their `left` field.  An index outside the array is undefined behaviour.

A recursion of the source has a bound on its depth here, and a loop a bound on
its turns.
-/

namespace ItchExchange.Book

open ItchExchange.Core

namespace AvlLevelMap

def kNull : UInt32 := 0xFFFFFFFF

structure Node where
  price : Price := 0
  level : LevelHandle := Handle.null
  left : UInt32 := kNull
  right : UInt32 := kNull
  height : UInt32 := 1
deriving DecidableEq, Repr

end AvlLevelMap

structure AvlLevelMap where
  side : Side
  nodes : List AvlLevelMap.Node := []
  root : UInt32 := AvlLevelMap.kNull
  free : UInt32 := AvlLevelMap.kNull
  size : UInt32 := 0
deriving DecidableEq, Repr

namespace AvlLevelMap

/-- `nodes_[n]`. -/
def node (levels : AvlLevelMap) (n : UInt32) : Checked Node :=
  match levels.nodes[n.toNat]? with
  | none => .error .undefined
  | some node => .ok node

/-- Assignments to fields of `nodes_[n]`. -/
def update (levels : AvlLevelMap) (n : UInt32) (change : Node → Node) :
    Checked AvlLevelMap := do
  let node ← levels.node n
  pure { levels with nodes := levels.nodes.set n.toNat (change node) }

/-- A depth or a number of turns which no search exceeds. -/
def limit (levels : AvlLevelMap) : Nat := levels.nodes.length + 1

/-! ## Lookup -/

/-- The loop of `find`, downwards from a node. -/
def findWithin (levels : AvlLevelMap) (p : Price) :
    Nat → UInt32 → Checked LevelHandle
  | 0, _ => .error .divergence
  | turns + 1, n =>
      if n = kNull then .ok Handle.null
      else do
        let node ← levels.node n
        if p = node.price then pure node.level
        else
          levels.findWithin p turns
            (if p < node.price then node.left else node.right)

/-- The level at a price, or the null handle. -/
def find (levels : AvlLevelMap) (p : Price) : Checked LevelHandle :=
  levels.findWithin p levels.limit levels.root

/-! ## Heights and rotations -/

/-- The stored height below a link; nothing is below the null one. -/
def heightOf (levels : AvlLevelMap) (n : UInt32) : Checked UInt32 :=
  if n = kNull then .ok 0
  else do
    let node ← levels.node n
    pure node.height

/-- A difference of two `int`, which must not overflow. -/
def subtractInt (first second : UInt32) : Checked Int :=
  let difference := first.toInt32.toInt - second.toInt32.toInt
  if -(2 ^ 31) ≤ difference ∧ difference < 2 ^ 31 then .ok difference
  else .error .undefined

/-- The height on the left less the height on the right. -/
def balanceOf (levels : AvlLevelMap) (n : UInt32) : Checked Int :=
  if n = kNull then .ok 0
  else do
    let node ← levels.node n
    let left ← levels.heightOf node.left
    let right ← levels.heightOf node.right
    subtractInt left right

/-- Recomputes the stored height of a node from those of its children. -/
def retune (levels : AvlLevelMap) (n : UInt32) : Checked AvlLevelMap := do
  let node ← levels.node n
  let left ← levels.heightOf node.left
  let right ← levels.heightOf node.right
  levels.update n fun node => { node with height := 1 + max left right }

/-- The left child takes the place of its parent. -/
def rotateRight (levels : AvlLevelMap) (y : UInt32) :
    Checked (UInt32 × AvlLevelMap) := do
  let upper ← levels.node y
  let x := upper.left
  let lower ← levels.node x
  let levels ← levels.update y fun node => { node with left := lower.right }
  let levels ← levels.update x fun node => { node with right := y }
  let levels ← levels.retune y
  let levels ← levels.retune x
  pure (x, levels)

/-- The right child takes the place of its parent. -/
def rotateLeft (levels : AvlLevelMap) (x : UInt32) :
    Checked (UInt32 × AvlLevelMap) := do
  let upper ← levels.node x
  let y := upper.right
  let lower ← levels.node y
  let levels ← levels.update x fun node => { node with right := lower.left }
  let levels ← levels.update y fun node => { node with left := x }
  let levels ← levels.retune x
  let levels ← levels.retune y
  pure (y, levels)

/-- One single or double rotation where the heights below differ by two. -/
def rebalance (levels : AvlLevelMap) (n : UInt32) :
    Checked (UInt32 × AvlLevelMap) := do
  let levels ← levels.retune n
  let b ← levels.balanceOf n
  let node ← levels.node n
  if b > 1 then do
    let inner ← levels.balanceOf node.left
    let levels ←
      if inner < 0 then do
        let (left, levels) ← levels.rotateLeft node.left
        levels.update n fun node => { node with left }
      else .ok levels
    levels.rotateRight n
  else if b < -1 then do
    let inner ← levels.balanceOf node.right
    let levels ←
      if inner > 0 then do
        let (right, levels) ← levels.rotateRight node.right
        levels.update n fun node => { node with right }
      else .ok levels
    levels.rotateLeft n
  else pure (n, levels)

/-! ## Nodes -/

/-- The position in a new element is cast to 32 bits. -/
def newNode (levels : AvlLevelMap) (p : Price) (h : LevelHandle) :
    Checked (UInt32 × AvlLevelMap) :=
  let fresh : Node := { price := p, level := h }
  if levels.free ≠ kNull then do
    let i := levels.free
    let node ← levels.node i
    pure
      (i,
        { levels with
          free := node.left
          nodes := levels.nodes.set i.toNat fresh })
  else
    let i := UInt32.ofNat levels.nodes.length
    .ok
      (i,
        { levels with
          nodes := (levels.nodes ++ [({} : Node)]).set i.toNat fresh })

/-- A node goes to the head of the free list. -/
def release (levels : AvlLevelMap) (i : UInt32) : Checked AvlLevelMap := do
  let levels ← levels.update i fun node => { node with left := levels.free }
  pure { levels with free := i }

/-! ## Insertion and erasure -/

/-- Descends to where the price belongs and rebalances on the way back. -/
def insertAt (p : Price) (h : LevelHandle) :
    Nat → AvlLevelMap → UInt32 → Checked (UInt32 × AvlLevelMap)
  | 0, _, _ => .error .divergence
  | depth + 1, levels, n =>
      if n = kNull then levels.newNode p h
      else do
        let node ← levels.node n
        assertMsg (p ≠ node.price) "a level already exists at this price"
        let levels ←
          if p < node.price then do
            let (left, levels) ← insertAt p h depth levels node.left
            levels.update n fun node => { node with left }
          else do
            let (right, levels) ← insertAt p h depth levels node.right
            levels.update n fun node => { node with right }
        levels.rebalance n

/-- A new level; its price must not be in the tree. -/
def insert (levels : AvlLevelMap) (p : Price) (h : LevelHandle) :
    Checked AvlLevelMap := do
  assertMsg (h ≠ Handle.null) "cannot insert a null level handle"
  let (root, levels) ← insertAt p h levels.limit levels levels.root
  pure { levels with root, size := levels.size + 1 }

/-- `while (nodes_[s].left != kNull) s = nodes_[s].left`. -/
def leftmostWithin (levels : AvlLevelMap) : Nat → UInt32 → Checked Node
  | 0, _ => .error .divergence
  | turns + 1, s => do
      let node ← levels.node s
      if node.left ≠ kNull then levels.leftmostWithin turns node.left
      else pure node

/--
A node with two children takes over the entry of its successor, which is erased
in its place.
-/
def eraseAt : Nat → AvlLevelMap → UInt32 → Price →
    Checked (UInt32 × AvlLevelMap)
  | 0, _, _, _ => .error .divergence
  | depth + 1, levels, n, p =>
      if n = kNull then .ok (kNull, levels)
      else do
        let node ← levels.node n
        if p < node.price then do
          let (left, levels) ← eraseAt depth levels node.left p
          let levels ← levels.update n fun node => { node with left }
          levels.rebalance n
        else if p > node.price then do
          let (right, levels) ← eraseAt depth levels node.right p
          let levels ← levels.update n fun node => { node with right }
          levels.rebalance n
        else
          let levels := { levels with size := levels.size - 1 }
          let l := node.left
          let r := node.right
          if l = kNull ∨ r = kNull then do
            let levels ← levels.release n
            pure (if l = kNull then r else l, levels)
          else do
            let s ← levels.leftmostWithin levels.limit r
            -- the recursive call decrements for the successor
            let levels := { levels with size := levels.size + 1 }
            let (right, levels) ← eraseAt depth levels r s.price
            let levels ← levels.update n fun node => { node with right }
            let levels ← levels.update n fun node =>
              { node with price := s.price, level := s.level }
            levels.rebalance n

/-- Whether a level was erased is told by the size. -/
def erase (levels : AvlLevelMap) (p : Price) : Checked AvlLevelMap := do
  assertMsg (0 < levels.size) "erasing from an empty tree"
  let before := levels.size
  let (root, levels) ← eraseAt levels.limit levels levels.root p
  let levels := { levels with root }
  assertMsg (levels.size = before - 1) "erasing a level that is not there"
  pure levels

/-! ## Best -/

def isEmpty (levels : AvlLevelMap) : Bool := decide (levels.size = 0)

/-- The child towards the inside of the side. -/
def Node.inner (node : Node) : Side → UInt32
  | .buy => node.right
  | .sell => node.left

/-- The child away from the inside of the side. -/
def Node.outer (node : Node) : Side → UInt32
  | .buy => node.left
  | .sell => node.right

/-- The loop of `best`, towards the inside of the side. -/
def bestWithin (levels : AvlLevelMap) : Nat → UInt32 → Checked Price
  | 0, _ => .error .divergence
  | turns + 1, n => do
      let node ← levels.node n
      if node.inner levels.side ≠ kNull then
        levels.bestWithin turns (node.inner levels.side)
      else pure node.price

/-- The innermost price. -/
def best (levels : AvlLevelMap) : Checked Price := do
  assertMsg (levels.isEmpty = false) "best() on an empty side"
  levels.bestWithin levels.limit levels.root

/-! ## Levels from the inside outwards -/

/-- The inner loop: every node on the way inwards is pushed. -/
def descendWithin (levels : AvlLevelMap) :
    Nat → UInt32 → List UInt32 → Checked (List UInt32)
  | 0, _, _ => .error .divergence
  | turns + 1, n, stack =>
      if n = kNull then .ok stack
      else do
        let node ← levels.node n
        levels.descendWithin turns (node.inner levels.side) (n :: stack)

/-- The outer loop; `back` of an empty stack is undefined. -/
def walkWithin (levels : AvlLevelMap) :
    Nat → UInt32 → List UInt32 → Checked (List (Price × LevelHandle))
  | 0, _, _ => .error .divergence
  | turns + 1, n, stack =>
      if n = kNull ∧ stack = [] then .ok []
      else do
        let stack ← levels.descendWithin levels.limit n stack
        match stack with
        | [] => .error .undefined
        | top :: stack => do
            let node ← levels.node top
            let rest ← levels.walkWithin turns (node.outer levels.side) stack
            pure ((node.price, node.level) :: rest)

/-- The levels from the inside outwards, with an explicit stack. -/
def forEachLevel (levels : AvlLevelMap) :
    Checked (List (Price × LevelHandle)) :=
  levels.walkWithin levels.limit levels.root []

/-! ## The self-check -/

/-- The number of nodes below, each of them checked. -/
def check (levels : AvlLevelMap) : Nat → UInt32 → Checked Nat
  | 0, _ => .error .divergence
  | depth + 1, n =>
      if n = kNull then .ok 0
      else do
        let node ← levels.node n
        let left ← levels.check depth node.left
        let right ← levels.check depth node.right
        let leftHeight ← levels.heightOf node.left
        let rightHeight ← levels.heightOf node.right
        assertMsg (node.height = 1 + max leftHeight rightHeight)
          "stored height is wrong"
        let b ← levels.balanceOf n
        assertMsg (b ≥ -1 ∧ b ≤ 1) "tree is not balanced"
        assertMsg (node.level ≠ Handle.null) "node holds a null level handle"
        pure (1 + left + right)

/-- The prices of an in-order traversal. -/
def walkAscending (levels : AvlLevelMap) :
    Nat → UInt32 → Checked (List Price)
  | 0, _ => .error .divergence
  | depth + 1, n =>
      if n = kNull then .ok []
      else do
        let node ← levels.node n
        let left ← levels.walkAscending depth node.left
        let right ← levels.walkAscending depth node.right
        pure (left ++ node.price :: right)

/-- How deep the tree got. -/
def height (levels : AvlLevelMap) : Checked UInt32 :=
  levels.heightOf levels.root

/-- Heights, balance, order and count are checked. -/
def validate (levels : AvlLevelMap) : Checked Unit := do
  let counted ← levels.check levels.limit levels.root
  let prices ← levels.walkAscending levels.limit levels.root
  assertMsg (prices.IsChain (· < ·)) "tree is out of order"
  assertMsg (UInt32.ofNat counted = levels.size)
    "tree size disagrees with its contents"

instance : LevelMap AvlLevelMap where
  make := fun side => { side }
  find := find
  insert := insert
  erase := erase
  isEmpty := isEmpty
  best := best
  forEachLevel := forEachLevel

instance : ValidatedLevelMap AvlLevelMap where
  validate := validate

end AvlLevelMap

end ItchExchange.Book
