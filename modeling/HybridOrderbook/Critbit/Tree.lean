import HybridOrderbook.Library.Fallible
import HybridOrderbook.Critbit.Index

namespace HybridOrderbook

open Library

/-!
# The critbit tree

`CritbitTree` keeps its internal nodes and its leaves in two maps and links
them by pointers.  The methods follow `critbit.rs` one by one.

Every `while` loop of the source follows pointers from one internal node to
another, and its next pointer is a function of the current one.  A run longer
than the number of internal nodes therefore repeats a node and never ends, so
the loops below carry that number plus one as fuel and report `diverge` when
it runs out.
-/

/-- Errors of the critbit tree. -/
inductive CritbitTreeError where
  | exceedCapacity
  | overflow
  | uniqueIndex
  | alreadyExist
  | internalNodeShouldExist
  | leafNodeShouldExist
  | notFound
  | removeNotAllowed
  | valueOps
  | notInitialized
  deriving Repr, DecidableEq

/-- Outcome of a read-only method of the tree. -/
abbrev TreeResult (α : Type) := Except (Fault CritbitTreeError) α

/-- Which of the two index counters to draw from. -/
inductive NodeKind where
  | internal
  | leaf
  deriving Repr, DecidableEq

/-- A branching node of the tree. -/
structure InternalNode (w : Nat) where
  mask : BitVec w
  parent : BitVec w
  left : BitVec w
  right : BitVec w
  deriving Repr, DecidableEq

/-- A fresh internal node is linked to nothing. -/
def InternalNode.new (mask : BitVec w) : InternalNode w where
  mask := mask
  parent := partitionIndex w
  left := partitionIndex w
  right := partitionIndex w

/-- A key with its value. -/
structure LeafNode (w : Nat) (V : Type) where
  parent : BitVec w
  key : BitVec w
  value : V
  deriving Repr, DecidableEq

/-- A fresh leaf is linked to nothing. -/
def LeafNode.new (key : BitVec w) (value : V) : LeafNode w V where
  parent := partitionIndex w
  key := key
  value := value

/-- The tree: two node stores, the root pointer, cached extremes, counters. -/
structure CritbitTree (w : Nat) (V : Type) where
  root : BitVec w
  internalNodes : Std.ExtTreeMap (BitVec w) (InternalNode w)
  leaves : Std.ExtTreeMap (BitVec w) (LeafNode w V)
  maxLeafIndex : BitVec w
  minLeafIndex : BitVec w
  nextInternalNodeIndex : BitVec w
  nextLeafNodeIndex : BitVec w

/-- A method that mutates the tree. -/
abbrev TreeProc (w : Nat) (V α : Type) :=
  Proc (CritbitTree w V) CritbitTreeError α

namespace CritbitTree

variable {w : Nat} {V : Type}

/-- Create new instance of the tree. -/
def new : CritbitTree w V where
  root := partitionIndex w
  internalNodes := ∅
  leaves := ∅
  maxLeafIndex := partitionIndex w
  minLeafIndex := partitionIndex w
  nextInternalNodeIndex := 0
  nextLeafNodeIndex := 0

/-- Check whether there is no leaf. -/
def isEmpty (tree : CritbitTree w V) : Bool :=
  tree.leaves.isEmpty

/-- Number of leaf nodes in the tree. -/
def size (tree : CritbitTree w V) : Nat :=
  tree.leaves.size

/-- Look up a cached extreme, answering with its key and its index. -/
def cachedLeaf
    (tree : CritbitTree w V)
    (cached : BitVec w) :
    TreeResult (Option (BitVec w × BitVec w)) :=
  if tree.leaves.isEmpty then
    .ok none
  else
    match tree.leaves[cached]? with
    | some leaf => .ok (some (leaf.key, cached))
    | none => .error (.error .leafNodeShouldExist)

/-- Query the maximum leaf node. -/
def maxLeaf (tree : CritbitTree w V) :
    TreeResult (Option (BitVec w × BitVec w)) :=
  tree.cachedLeaf tree.maxLeafIndex

/-- Query the minimum leaf node. -/
def minLeaf (tree : CritbitTree w V) :
    TreeResult (Option (BitVec w × BitVec w)) :=
  tree.cachedLeaf tree.minLeafIndex

/-- Whether `child` is the left child of the internal node `parent`. -/
def isLeftChild (tree : CritbitTree w V) (parent child : BitVec w) : Bool :=
  match tree.internalNodes[parent]? with
  | some node => node.left == child
  | none => false

/-- Fuel that outlasts every walk visiting each internal node at most once. -/
def walkFuel (tree : CritbitTree w V) : Nat :=
  tree.internalNodes.size + 1

/-- Store an internal node. -/
def setInternal
    (tree : CritbitTree w V)
    (index : BitVec w)
    (node : InternalNode w) : CritbitTree w V :=
  { tree with internalNodes := tree.internalNodes.insert index node }

/-- Store a leaf. -/
def setLeaf
    (tree : CritbitTree w V)
    (index : BitVec w)
    (leaf : LeafNode w V) : CritbitTree w V :=
  { tree with leaves := tree.leaves.insert index leaf }

/-- Follow child pointers, chosen by `goLeft`, down to a leaf pointer. -/
def descend
    (tree : CritbitTree w V)
    (goLeft : InternalNode w → Bool) :
    Nat → BitVec w → TreeResult (BitVec w)
  | 0, _ => .error .diverge
  | fuel + 1, curr =>
      if curr < partitionIndex w then
        match tree.internalNodes[curr]? with
        | none => .error (.error .internalNodeShouldExist)
        | some node =>
            tree.descend goLeft fuel
              (if goLeft node then node.left else node.right)
      else
        .ok curr

/-- Get the left most leaf pointer below `root`. -/
def leftMostLeaf
    (tree : CritbitTree w V)
    (root : BitVec w) : TreeResult (BitVec w) :=
  tree.descend (fun _ => true) tree.walkFuel root

/-- Get the right most leaf pointer below `root`. -/
def rightMostLeaf
    (tree : CritbitTree w V)
    (root : BitVec w) : TreeResult (BitVec w) :=
  if root = partitionIndex w then
    .error (.error .notInitialized)
  else
    tree.descend (fun _ => false) tree.walkFuel root

/-- Get the index of the leaf that the bits of `key` lead to. -/
def getClosestLeafIndex
    (tree : CritbitTree w V)
    (key : BitVec w) : TreeResult (Option (BitVec w)) :=
  if tree.root = partitionIndex w then
    .ok none
  else do
    let curr ← tree.descend (fun node => node.mask &&& key == 0)
      tree.walkFuel tree.root
    pure (some (maxIndex w - curr))

/-- Find the leaf index for the given key. -/
def findLeaf
    (tree : CritbitTree w V)
    (key : BitVec w) : TreeResult (Option (BitVec w)) := do
  match ← tree.getClosestLeafIndex key with
  | none => pure none
  | some leafIndex =>
      let leafNode ← okOr tree.leaves[leafIndex]? .leafNodeShouldExist
      if leafNode.key ≠ key then pure none else pure (some leafIndex)

/-- Climb parent links while the current pointer is on the given side. -/
def climb
    (tree : CritbitTree w V)
    (fromLeft : Bool) :
    Nat → BitVec w → BitVec w → TreeResult (BitVec w)
  | 0, _, _ => .error .diverge
  | fuel + 1, ptr, parentNodeIndex =>
      if parentNodeIndex ≠ partitionIndex w ∧
          tree.isLeftChild parentNodeIndex ptr = fromLeft then
        match tree.internalNodes[parentNodeIndex]? with
        | none => .error (.error .internalNodeShouldExist)
        | some node =>
            tree.climb fromLeft fuel parentNodeIndex node.parent
      else
        .ok parentNodeIndex

/--
The leaf next to `key` in key order: climb while on the `fromLeft` side, then
take the extreme leaf of the other child.
-/
def neighbourLeaf
    (tree : CritbitTree w V)
    (fromLeft : Bool)
    (key : BitVec w) :
    TreeResult (Option (BitVec w × BitVec w)) := do
  let leafIndex ← okOr (← tree.findLeaf key) .notFound
  let leaf ← okOr tree.leaves[leafIndex]? .leafNodeShouldExist
  let parentNodeIndex ←
    tree.climb fromLeft tree.walkFuel (maxIndex w - leafIndex) leaf.parent
  if parentNodeIndex = partitionIndex w then
    pure none
  else
    let parentNode ←
      okOr tree.internalNodes[parentNodeIndex]? .internalNodeShouldExist
    let pointer ←
      if fromLeft then
        tree.rightMostLeaf parentNode.left
      else
        tree.leftMostLeaf parentNode.right
    let leafNode ←
      okOr tree.leaves[maxIndex w - pointer]? .leafNodeShouldExist
    pure (some (leafNode.key, maxIndex w - pointer))

/-- Find the previous leaf for the given key. -/
def previousLeaf
    (tree : CritbitTree w V)
    (key : BitVec w) :
    TreeResult (Option (BitVec w × BitVec w)) :=
  tree.neighbourLeaf true key

/-- Find the next leaf for the given key. -/
def nextLeaf
    (tree : CritbitTree w V)
    (key : BitVec w) :
    TreeResult (Option (BitVec w × BitVec w)) :=
  tree.neighbourLeaf false key

/-- Draw the next index of the given kind. -/
def nextIndex : NodeKind → TreeProc w V (BitVec w)
  | .leaf => do
      let tree ← Proc.get
      let index := tree.nextLeafNodeIndex
      Proc.put { tree with nextLeafNodeIndex := index + 1 }
      if index + 1 ≤ capacity w then
        pure index
      else
        Proc.throw .exceedCapacity
  | .internal => do
      let tree ← Proc.get
      let index := tree.nextInternalNodeIndex
      if index = maxIndex w then
        Proc.throw .overflow
      else
        Proc.put { tree with nextInternalNodeIndex := index + 1 }
        pure index

/-- Make `child` a child of `parent` and `parent` the parent of `child`. -/
def updateRef
    (parent child : BitVec w)
    (isLeftChild : Bool) : TreeProc w V Unit := do
  let tree ← Proc.get
  let internalNode ←
    Proc.okOr tree.internalNodes[parent]? .internalNodeShouldExist
  let linked :=
    tree.setInternal parent
      (if isLeftChild then
        { internalNode with left := child }
      else
        { internalNode with right := child })
  Proc.put linked
  if partitionIndex w < child then
    let leafNode ←
      Proc.okOr linked.leaves[maxIndex w - child]? .leafNodeShouldExist
    Proc.put
      (linked.setLeaf (maxIndex w - child) { leafNode with parent := parent })
  else
    let childNode ←
      Proc.okOr linked.internalNodes[child]? .internalNodeShouldExist
    Proc.put (linked.setInternal child { childNode with parent := parent })

/-- Refresh one cached extreme after inserting `newLeafIndex`. -/
def refreshCache
    (tree : CritbitTree w V)
    (cached newLeafIndex : BitVec w)
    (displaced : BitVec w → Bool) : BitVec w :=
  match tree.leaves[cached]? with
  | some leaf => if displaced leaf.key then newLeafIndex else cached
  | none => newLeafIndex

/-- Update the minimum and maximum leaf nodes. -/
def updateMinMaxLeaf
    (tree : CritbitTree w V)
    (newLeafIndex newKey : BitVec w) : CritbitTree w V :=
  { tree with
    minLeafIndex :=
      tree.refreshCache tree.minLeafIndex newLeafIndex
        (fun key => decide (key > newKey))
    maxLeafIndex :=
      tree.refreshCache tree.maxLeafIndex newLeafIndex
        (fun key => decide (key < newKey)) }

/--
Find where a node with mask `mask` belongs on the path of `key`: the pointer
to hang below it and the internal node to hang it under.
-/
def insertionPoint
    (tree : CritbitTree w V)
    (mask key : BitVec w) :
    Nat → BitVec w → BitVec w → TreeResult (BitVec w × BitVec w)
  | 0, _, _ => .error .diverge
  | fuel + 1, curr, parentIndex =>
      if curr < partitionIndex w then
        match tree.internalNodes[curr]? with
        | none => .error (.error .internalNodeShouldExist)
        | some node =>
            if mask > node.mask then
              .ok (curr, parentIndex)
            else
              tree.insertionPoint mask key fuel
                (if node.mask &&& key = 0 then node.left else node.right)
                curr
      else
        .ok (curr, parentIndex)

/-- Hang a new internal node where the walk of `insert` stopped. -/
def hangNode
    (newInternalIndex curr parentIndex : BitVec w) : TreeProc w V Unit := do
  let tree ← Proc.get
  if parentIndex = partitionIndex w then
    Proc.put { tree with root := newInternalIndex }
  else
    updateRef parentIndex newInternalIndex
      (tree.isLeftChild parentIndex curr)

/-- The part of `insert` that splices a new internal node into the tree. -/
def insertInternal
    (key newLeafIndex mask : BitVec w) : TreeProc w V Unit := do
  let newInternalIndex ← nextIndex .internal
  let tree ← Proc.get
  Proc.put (tree.setInternal newInternalIndex (InternalNode.new mask))
  if newInternalIndex ∈ tree.internalNodes then
    Proc.throw .uniqueIndex
  else
    let (curr, parentIndex) ←
      Proc.read fun tree =>
        tree.insertionPoint mask key tree.walkFuel tree.root
          (partitionIndex w)
    hangNode newInternalIndex curr parentIndex
    let isLeftChild := key &&& mask == 0
    updateRef newInternalIndex (maxIndex w - newLeafIndex) isLeftChild
    updateRef newInternalIndex curr (!isLeftChild)
    Proc.modify fun tree => tree.updateMinMaxLeaf newLeafIndex key

/-- Insert a new leaf node into the tree for the given key and value. -/
def insert (key : BitVec w) (value : V) : TreeProc w V Unit := do
  let newLeafIndex ← nextIndex .leaf
  let tree ← Proc.get
  Proc.put (tree.setLeaf newLeafIndex (LeafNode.new key value))
  if newLeafIndex ∈ tree.leaves then
    Proc.throw .uniqueIndex
  else
    match ← Proc.read (getClosestLeafIndex · key) with
    | none =>
        Proc.modify fun tree =>
          { tree with
            root := maxIndex w
            maxLeafIndex := newLeafIndex
            minLeafIndex := newLeafIndex }
    | some closestLeafIndex =>
        let tree ← Proc.get
        let closestLeaf ←
          Proc.okOr tree.leaves[closestLeafIndex]? .leafNodeShouldExist
        if closestLeaf.key = key then
          Proc.throw .alreadyExist
        else
          insertInternal key newLeafIndex (newMask key closestLeaf.key)

/-- Reset the tree. -/
def reset (tree : CritbitTree w V) : CritbitTree w V :=
  { tree with
    root := partitionIndex w
    minLeafIndex := partitionIndex w
    maxLeafIndex := partitionIndex w
    nextInternalNodeIndex := 0
    nextLeafNodeIndex := 0 }

/-- Put the sibling of a removed leaf in the place of their parent. -/
def promoteSibling
    (siblingNodeIndex parentIndex grandParentIndex : BitVec w) :
    TreeProc w V Unit := do
  let tree ← Proc.get
  if grandParentIndex = partitionIndex w then
    if siblingNodeIndex < partitionIndex w then
      let siblingNode ←
        Proc.okOr tree.internalNodes[siblingNodeIndex]?
          .internalNodeShouldExist
      Proc.put
        { tree.setInternal siblingNodeIndex
            { siblingNode with parent := partitionIndex w } with
          root := siblingNodeIndex }
    else
      let siblingNode ←
        Proc.okOr tree.leaves[maxIndex w - siblingNodeIndex]?
          .leafNodeShouldExist
      Proc.put
        { tree.setLeaf (maxIndex w - siblingNodeIndex)
            { siblingNode with parent := partitionIndex w } with
          root := siblingNodeIndex }
  else
    updateRef grandParentIndex siblingNodeIndex
      (tree.isLeftChild grandParentIndex parentIndex)

/-- The part of `remove_leaf_by_index` that splices the parent out. -/
def unlinkParent (leafIndex parentIndex : BitVec w) : TreeProc w V Unit := do
  let tree ← Proc.get
  let parentNode ←
    Proc.okOr tree.internalNodes[parentIndex]? .internalNodeShouldExist
  let siblingNodeIndex :=
    if tree.isLeftChild parentIndex (maxIndex w - leafIndex) then
      parentNode.right
    else
      parentNode.left
  promoteSibling siblingNodeIndex parentIndex parentNode.parent
  Proc.modify fun tree =>
    { tree with internalNodes := tree.internalNodes.erase parentIndex }

/-- Replace the cached minimum when the leaf at `leafIndex` is about to go. -/
def retireMin (leafIndex key : BitVec w) : TreeProc w V Bool := do
  let tree ← Proc.get
  if tree.minLeafIndex = leafIndex then
    match ← Proc.read (nextLeaf · key) with
    | some (_, nextLeafIndex) =>
        Proc.put { tree with minLeafIndex := nextLeafIndex }
        pure false
    | none => pure true
  else
    pure false

/-- Replace the cached maximum when the leaf at `leafIndex` is about to go. -/
def retireMax (leafIndex key : BitVec w) : TreeProc w V Bool := do
  let tree ← Proc.get
  if tree.maxLeafIndex = leafIndex then
    match ← Proc.read (previousLeaf · key) with
    | some (_, prevLeafIndex) =>
        Proc.put { tree with maxLeafIndex := prevLeafIndex }
        pure false
    | none => pure true
  else
    pure false

/-- Remove the leaf with the given index and return its value. -/
def removeLeafByIndex (leafIndex : BitVec w) : TreeProc w V V := do
  let tree ← Proc.get
  let leafNode ← Proc.okOr tree.leaves[leafIndex]? .notFound
  let wasLastMin ← retireMin leafIndex leafNode.key
  let wasLastMax ← retireMax leafIndex leafNode.key
  Proc.modify fun tree =>
    { tree with leaves := tree.leaves.erase leafIndex }
  if wasLastMin || wasLastMax then
    Proc.modify reset
  else
    unlinkParent leafIndex leafNode.parent
  pure leafNode.value

end CritbitTree

end HybridOrderbook
