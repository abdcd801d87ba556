import HybridOrderbook.Critbit.Representation

namespace HybridOrderbook

open Library Library.Trie

/-!
# Rewriting links

`updateRef` rewrites one child link and one parent link.  Its effect is
`attach`, the composition of `setChild` and `setParent`.  Each of the two
touches one stored node, so whatever does not contain that node is left as it
was.
-/

variable {w : Nat} {V : Type}

/-- Replace one of the two child links of an internal node. -/
def InternalNode.withChild
    (node : InternalNode w)
    (side : Bool)
    (child : BitVec w) : InternalNode w :=
  if side then { node with left := child } else { node with right := child }

namespace CritbitTree

/-- Make `child` the child of `parent` on one side. -/
def setChild
    (tree : CritbitTree w V)
    (parent : BitVec w)
    (side : Bool)
    (child : BitVec w) : CritbitTree w V :=
  { tree with
    internalNodes :=
      tree.internalNodes.modify parent fun node => node.withChild side child }

/-- Make `parent` the parent of the node that `child` points to. -/
def setParent
    (tree : CritbitTree w V)
    (child parent : BitVec w) : CritbitTree w V :=
  if partitionIndex w < child then
    { tree with
      leaves :=
        tree.leaves.modify (maxIndex w - child) fun leaf =>
          { leaf with parent := parent } }
  else
    { tree with
      internalNodes :=
        tree.internalNodes.modify child fun node =>
          { node with parent := parent } }

/-- Hang the node that `child` points to below an internal node. -/
def attach
    (tree : CritbitTree w V)
    (parent : BitVec w)
    (side : Bool)
    (child : BitVec w) : CritbitTree w V :=
  (tree.setChild parent side child).setParent child parent

/-- The cached extremes and the index counters, which links never touch. -/
def header (tree : CritbitTree w V) :
    BitVec w × BitVec w × BitVec w × BitVec w :=
  (tree.minLeafIndex, tree.maxLeafIndex,
    tree.nextInternalNodeIndex, tree.nextLeafNodeIndex)

/-- The node that a pointer names is stored. -/
def Present (tree : CritbitTree w V) (child : BitVec w) : Prop :=
  if partitionIndex w < child then
    maxIndex w - child ∈ tree.leaves
  else
    child ∈ tree.internalNodes

/-- The node that a pointer names is not among the given ones. -/
def Avoids (child : BitVec w) (nodes leaves : List (BitVec w)) : Prop :=
  if partitionIndex w < child then
    maxIndex w - child ∉ leaves
  else
    child ∉ nodes

section Lookups

variable {tree : CritbitTree w V} {parent child : BitVec w} {side : Bool}

theorem updateRef_eq
    (parentPresent : parent ∈ tree.internalNodes)
    (childPresent : tree.Present child) :
    updateRef parent child side tree =
      (.ok (), tree.attach parent side child) := by
  obtain ⟨node, found⟩ := Option.isSome_iff_exists.mp
    (Std.ExtTreeMap.mem_iff_isSome_getElem?.mp parentPresent)
  have written :
      tree.setInternal parent (node.withChild side child) =
        tree.setChild parent side child := by
    simp only [setInternal, setChild, TreeMap.insert_eq_modify found
      (fun node => node.withChild side child)]
  have firstStep :
      updateRef parent child side tree =
        (if partitionIndex w < child then do
          let leafNode ←
            Proc.okOr (tree.setChild parent side child).leaves[
              maxIndex w - child]? .leafNodeShouldExist
          Proc.put ((tree.setChild parent side child).setLeaf
            (maxIndex w - child) { leafNode with parent := parent })
        else do
          let childNode ←
            Proc.okOr (tree.setChild parent side child).internalNodes[child]?
              .internalNodeShouldExist
          Proc.put ((tree.setChild parent side child).setInternal child
            { childNode with parent := parent }) : TreeProc w V Unit)
          (tree.setChild parent side child) := by
    rw [← written]
    simp only [updateRef, Proc.bind_apply, Proc.get_apply, found,
      Proc.okOr_some, Proc.put_apply, InternalNode.withChild]
  rw [firstStep]
  by_cases isLeaf : partitionIndex w < child
  · obtain ⟨leafNode, leafFound⟩ := Option.isSome_iff_exists.mp
      (Std.ExtTreeMap.mem_iff_isSome_getElem?.mp
        (by simpa [Present, isLeaf] using childPresent))
    have sameLeaf :
        (tree.setChild parent side child).leaves[maxIndex w - child]? =
          some leafNode := leafFound
    simp [isLeaf, Proc.bind_apply, sameLeaf, attach, setParent, setLeaf,
      ← TreeMap.insert_eq_modify sameLeaf]
  · have childMember :
        child ∈ (tree.setChild parent side child).internalNodes := by
      rw [setChild, Std.ExtTreeMap.mem_modify]
      simpa [Present, isLeaf] using childPresent
    obtain ⟨childNode, childFound⟩ := Option.isSome_iff_exists.mp
      (Std.ExtTreeMap.mem_iff_isSome_getElem?.mp childMember)
    simp [isLeaf, Proc.bind_apply, childFound, attach, setParent, setInternal,
      ← TreeMap.insert_eq_modify childFound]

@[simp] theorem mem_setChild {index : BitVec w} :
    index ∈ (tree.setChild parent side child).internalNodes ↔
      index ∈ tree.internalNodes := by
  rw [setChild, Std.ExtTreeMap.mem_modify]

theorem setChild_node
    {node : InternalNode w}
    (found : tree.internalNodes[parent]? = some node) :
    (tree.setChild parent side child).internalNodes[parent]? =
      some (node.withChild side child) := by
  simp [setChild, found]

theorem setChild_node_of_ne
    {index : BitVec w}
    (different : index ≠ parent) :
    (tree.setChild parent side child).internalNodes[index]? =
      tree.internalNodes[index]? := by
  simp [setChild, Std.ExtTreeMap.getElem?_modify, Ne.symm different]

@[simp] theorem setParent_root :
    (tree.setParent child parent).root = tree.root := by
  unfold setParent
  split <;> rfl

@[simp] theorem header_setParent :
    (tree.setParent child parent).header = tree.header := by
  unfold setParent
  split <;> rfl

@[simp] theorem mem_setParent {index : BitVec w} :
    index ∈ (tree.setParent child parent).internalNodes ↔
      index ∈ tree.internalNodes := by
  unfold setParent
  split <;> simp [Std.ExtTreeMap.mem_modify]

@[simp] theorem mem_leaves_setParent {index : BitVec w} :
    index ∈ (tree.setParent child parent).leaves ↔ index ∈ tree.leaves := by
  unfold setParent
  split <;> simp [Std.ExtTreeMap.mem_modify]

@[simp] theorem header_attach :
    (tree.attach parent side child).header = tree.header :=
  header_setParent

@[simp] theorem mem_attach {index : BitVec w} :
    index ∈ (tree.attach parent side child).internalNodes ↔
      index ∈ tree.internalNodes :=
  mem_setParent.trans mem_setChild

@[simp] theorem mem_leaves_attach {index : BitVec w} :
    index ∈ (tree.attach parent side child).leaves ↔ index ∈ tree.leaves :=
  mem_leaves_setParent

/-- Links are changed, and no node is added or removed. -/
theorem present_attach {other : BitVec w} :
    (tree.attach parent side child).Present other ↔ tree.Present other := by
  unfold Present
  split
  · exact mem_leaves_attach
  · exact mem_attach

theorem setParent_node
    {nodes leaves : List (BitVec w)}
    (avoids : Avoids child nodes leaves)
    {index : BitVec w}
    (member : index ∈ nodes) :
    (tree.setParent child parent).internalNodes[index]? =
      tree.internalNodes[index]? := by
  by_cases isLeaf : partitionIndex w < child
  · simp [setParent, isLeaf]
  · have different : child ≠ index := by
      intro same
      simp only [Avoids, isLeaf, ↓reduceIte] at avoids
      exact avoids (same ▸ member)
    simp [setParent, isLeaf, Std.ExtTreeMap.getElem?_modify, different]

theorem setParent_leaf
    {nodes leaves : List (BitVec w)}
    (avoids : Avoids child nodes leaves)
    {index : BitVec w}
    (member : index ∈ leaves) :
    (tree.setParent child parent).leaves[index]? = tree.leaves[index]? := by
  by_cases isLeaf : partitionIndex w < child
  · have different : maxIndex w - child ≠ index := by
      intro same
      simp only [Avoids, isLeaf, ↓reduceIte] at avoids
      exact avoids (same ▸ member)
    simp [setParent, isLeaf, Std.ExtTreeMap.getElem?_modify, different]
  · simp [setParent, isLeaf]

end Lookups

section Frames

variable {tree : CritbitTree w V} {parent child link : BitVec w}
  {side : Bool} {shape : Shape w V} {context : ShapeContext w V}

theorem Stores.setChild
    (stores : tree.Stores link shape)
    (absent : parent ∉ shape.nodeIndices) :
    (tree.setChild parent side child).Stores link shape :=
  stores.congr
    (fun _ member =>
      setChild_node_of_ne fun same => absent (same ▸ member))
    (fun _ _ => rfl)

theorem StoresContext.setChild
    (stores : tree.StoresContext link context)
    (absent : parent ∉ Context.nodeIndices context) :
    (tree.setChild parent side child).StoresContext link context :=
  stores.congr rfl
    (fun _ member =>
      setChild_node_of_ne fun same => absent (same ▸ member))
    (fun _ _ => rfl)

theorem Stores.setParent
    (stores : tree.Stores link shape)
    (avoids : Avoids child shape.nodeIndices shape.leafIndices) :
    (tree.setParent child parent).Stores link shape :=
  stores.congr
    (fun _ member => setParent_node avoids member)
    (fun _ member => setParent_leaf avoids member)

theorem StoresContext.setParent
    (stores : tree.StoresContext link context)
    (avoids :
      Avoids child (Context.nodeIndices context)
        (Context.leafIndices context)) :
    (tree.setParent child parent).StoresContext link context :=
  stores.congr setParent_root
    (fun _ member => setParent_node avoids member)
    (fun _ member => setParent_leaf avoids member)

/-- The pointer of a shape avoids whatever is disjoint from the shape. -/
theorem Distinct.avoids
    (width : 0 < w)
    (distinct : Distinct shape)
    {nodes leaves : List (BitVec w)}
    (nodesDisjoint : List.Disjoint shape.nodeIndices nodes)
    (leavesDisjoint : List.Disjoint shape.leafIndices leaves) :
    Avoids (pointer shape) nodes leaves := by
  cases shape with
  | leaf entry =>
      have above : partitionIndex w < maxIndex w - entry.index :=
        distinct.leaf_pointer width (by simp)
      simp only [Avoids, pointer_leaf, above, ↓reduceIte, maxIndex_sub_sub]
      exact leavesDisjoint (by simp)
  | node index bit left right =>
      have below : index < partitionIndex w :=
        distinct.node_pointer width (by simp)
      simp only [Avoids, pointer_node,
        BitVec.not_lt.mpr (BitVec.le_of_lt below), ↓reduceIte]
      exact nodesDisjoint (by simp)

theorem Stores.present
    (width : 0 < w)
    (stores : tree.Stores link shape)
    (distinct : Distinct shape) :
    tree.Present (pointer shape) := by
  cases shape with
  | leaf entry =>
      have above : partitionIndex w < maxIndex w - entry.index :=
        distinct.leaf_pointer width (by simp)
      have member : entry.index ∈ tree.leaves :=
        TreeMap.mem_of_getElem? stores
      simpa [Present, above] using member
  | node index bit left right =>
      have below : index < partitionIndex w :=
        distinct.node_pointer width (by simp)
      have member : index ∈ tree.internalNodes :=
        stores.node_mem (by simp)
      simpa [Present, BitVec.not_lt.mpr (BitVec.le_of_lt below)] using member

/-- Giving a stored shape a new parent moves it below that parent. -/
theorem Stores.setParent_self
    (width : 0 < w)
    (stores : tree.Stores link shape)
    (distinct : Distinct shape)
    (parent : BitVec w) :
    (tree.setParent (pointer shape) parent).Stores parent shape := by
  cases shape with
  | leaf entry =>
      have above : partitionIndex w < maxIndex w - entry.index :=
        distinct.leaf_pointer width (by simp)
      have found : tree.leaves[entry.index]? =
          some ⟨link, entry.key, entry.value⟩ := stores
      simp [Stores, CritbitTree.setParent, above, found]
  | node index bit left right =>
      have below : index < partitionIndex w :=
        distinct.node_pointer width (by simp)
      obtain ⟨here, leftStores, rightStores⟩ := stores
      have nodup := distinct.nodeNodup
      simp only [nodeIndices_node, List.nodup_cons, List.mem_append,
        not_or] at nodup
      have notAbove := BitVec.not_lt.mpr (BitVec.le_of_lt below)
      refine ⟨?_, leftStores.setParent ?_, rightStores.setParent ?_⟩
      · simp [CritbitTree.setParent, notAbove, here]
      · simpa [Avoids, notAbove] using nodup.1.1
      · simpa [Avoids, notAbove] using nodup.1.2

theorem Stores.attach
    (stores : tree.Stores link shape)
    (absent : parent ∉ shape.nodeIndices)
    (avoids : Avoids child shape.nodeIndices shape.leafIndices) :
    (tree.attach parent side child).Stores link shape :=
  (stores.setChild absent).setParent avoids

theorem StoresContext.attach
    (stores : tree.StoresContext link context)
    (absent : parent ∉ Context.nodeIndices context)
    (avoids :
      Avoids child (Context.nodeIndices context)
        (Context.leafIndices context)) :
    (tree.attach parent side child).StoresContext link context :=
  (stores.setChild absent).setParent avoids

theorem Stores.attach_self
    (width : 0 < w)
    (stores : tree.Stores link shape)
    (distinct : Distinct shape)
    (absent : parent ∉ shape.nodeIndices) :
    (tree.attach parent side (pointer shape)).Stores parent shape :=
  (stores.setChild absent).setParent_self width distinct parent

theorem attach_node
    {node : InternalNode w}
    (found : tree.internalNodes[parent]? = some node)
    (avoids : Avoids child [parent] []) :
    (tree.attach parent side child).internalNodes[parent]? =
      some (node.withChild side child) :=
  (setParent_node avoids (by simp)).trans (setChild_node found)

/-- Redirect the hole of a context to another pointer. -/
def redirect
    (tree : CritbitTree w V)
    (target : BitVec w) : ShapeContext w V → CritbitTree w V
  | [] => { tree with root := target }
  | frame :: _ => tree.setChild frame.index frame.holeLeft target

@[simp] theorem mem_redirect {target index : BitVec w} :
    index ∈ (tree.redirect target context).internalNodes ↔
      index ∈ tree.internalNodes := by
  cases context with
  | nil =>
      rfl
  | cons frame outer =>
      exact mem_setChild

@[simp] theorem header_redirect {target : BitVec w} :
    (tree.redirect target context).header = tree.header := by
  cases context <;> rfl

@[simp] theorem redirect_leaves {target : BitVec w} :
    (tree.redirect target context).leaves = tree.leaves := by
  cases context <;> rfl

theorem redirect_node
    (absent : parent ∉ Context.nodeIndices context)
    (target : BitVec w) :
    (tree.redirect target context).internalNodes[parent]? =
      tree.internalNodes[parent]? := by
  cases context with
  | nil =>
      rfl
  | cons frame outer =>
      refine setChild_node_of_ne fun same => absent ?_
      simp [same, Context.nodeIndices]

theorem StoresContext.redirect
    (stores : tree.StoresContext link context)
    (nodup : (Context.nodeIndices context).Nodup)
    (target : BitVec w) :
    (tree.redirect target context).StoresContext target context := by
  cases context with
  | nil =>
      rfl
  | cons frame outer =>
      obtain ⟨here, siblingStores, outerStores⟩ := stores
      simp only [Context.nodeIndices, List.nodup_cons, List.mem_append,
        not_or] at nodup
      refine ⟨?_, siblingStores.setChild nodup.1.1,
        outerStores.setChild nodup.1.2⟩
      rw [CritbitTree.redirect, setChild_node here]
      cases side : frame.holeLeft <;>
        simp [InternalNode.withChild]

theorem Stores.redirect
    (stores : tree.Stores link shape)
    (disjoint :
      List.Disjoint shape.nodeIndices (Context.nodeIndices context))
    (target : BitVec w) :
    (tree.redirect target context).Stores link shape := by
  cases context with
  | nil =>
      exact stores.congr (fun _ _ => rfl) (fun _ _ => rfl)
  | cons frame outer =>
      exact stores.setChild fun member =>
        disjoint member (by simp [Context.nodeIndices])

/-- Linking a stored shape into the hole of a stored context. -/
theorem holds_link
    (width : 0 < w)
    {hole : BitVec w}
    (contextStores : tree.StoresContext hole context)
    (shapeStores : tree.Stores link shape)
    (ordered : (plug context shape).Ordered)
    (distinct : Distinct (plug context shape)) :
    ((tree.redirect (pointer shape) context).setParent (pointer shape)
      (holeParent context)).Holds (plug context shape) := by
  have nodesDisjoint := List.disjoint_of_nodup_append
    distinct.nodeIndices_append
  have leavesDisjoint := List.disjoint_of_nodup_append
    distinct.leafIndices_append
  have avoids := distinct.of_plug.avoids width nodesDisjoint leavesDisjoint
  have linked := stores_plug_iff.mpr
    ⟨(contextStores.redirect distinct.nodeIndices_append.of_append_right
        (pointer shape)).setParent avoids,
      (shapeStores.redirect nodesDisjoint (pointer shape)).setParent_self
        width distinct.of_plug (holeParent context)⟩
  exact ⟨ordered, distinct, linked.1, linked.2⟩

end Frames

end CritbitTree

end HybridOrderbook
