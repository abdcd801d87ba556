import HybridOrderbook.Library.TreeMap
import HybridOrderbook.Library.TrieContext
import HybridOrderbook.Critbit.Tree

namespace HybridOrderbook.CritbitTree

open Library Library.Trie

/-!
# Trees stored in the two node maps

A shape is the trie that the pointer structure is meant to spell out.
`Stores` says that the maps hold a shape below a given parent, and
`StoresContext` says the same of a shape with a hole.  Both depend only on
the entries of the shape's own nodes, so writes elsewhere leave them alone.
-/

variable {w : Nat} {V : Type}

/-- The trie a critbit tree spells out. -/
abbrev Shape (w : Nat) (V : Type) := Trie (BitVec w) w V

/-- A shape with one subtree missing. -/
abbrev ShapeContext (w : Nat) (V : Type) := Context (BitVec w) w V

/-- The pointer that names the root of a shape. -/
def pointer : Shape w V → BitVec w
  | .leaf entry => maxIndex w - entry.index
  | .node index _ _ _ => index

@[simp] theorem pointer_leaf (entry : TrieEntry (BitVec w) w V) :
    pointer (.leaf entry) = maxIndex w - entry.index :=
  rfl

@[simp] theorem pointer_node
    (index : BitVec w) (bit : Nat) (left right : Shape w V) :
    pointer (.node index bit left right) = index :=
  rfl

@[simp] theorem pointer_fill
    (frame : Frame (BitVec w) w V)
    (shape : Shape w V) :
    pointer (frame.fill shape) = frame.index := by
  cases side : frame.holeLeft <;> simp [Frame.fill, side]

/-- The node maps hold `shape`, linked below `parent`. -/
def Stores (tree : CritbitTree w V) : BitVec w → Shape w V → Prop
  | parent, .leaf entry =>
      tree.leaves[entry.index]? = some ⟨parent, entry.key, entry.value⟩
  | parent, .node index bit left right =>
      tree.internalNodes[index]? =
          some ⟨BitVec.twoPow w bit, parent, pointer left, pointer right⟩ ∧
        tree.Stores index left ∧ tree.Stores index right

/-- The internal node directly above a hole. -/
def holeParent : ShapeContext w V → BitVec w
  | [] => partitionIndex w
  | frame :: _ => frame.index

/-- The node maps hold a context whose hole is filled by `hole`. -/
def StoresContext (tree : CritbitTree w V) :
    BitVec w → ShapeContext w V → Prop
  | hole, [] => tree.root = hole
  | hole, frame :: outer =>
      tree.internalNodes[frame.index]? =
          some ⟨BitVec.twoPow w frame.bit, holeParent outer,
            if frame.holeLeft then hole else pointer frame.sibling,
            if frame.holeLeft then pointer frame.sibling else hole⟩ ∧
        tree.Stores frame.index frame.sibling ∧
          tree.StoresContext frame.index outer

/-- Storing a filled context is storing the context and the filling. -/
theorem stores_plug_iff
    {tree : CritbitTree w V}
    {context : ShapeContext w V}
    {shape : Shape w V} :
    (tree.root = pointer (plug context shape) ∧
        tree.Stores (partitionIndex w) (plug context shape)) ↔
      tree.StoresContext (pointer shape) context ∧
        tree.Stores (holeParent context) shape := by
  induction context generalizing shape with
  | nil =>
      rfl
  | cons frame outer inductionHypothesis =>
      rw [plug_cons, inductionHypothesis]
      rcases frame with ⟨index, bit, holeLeft, sibling⟩
      cases holeLeft with
      | true =>
          simp only [Frame.fill, ↓reduceIte, pointer, Stores, StoresContext,
            holeParent]
          tauto
      | false =>
          simp only [Frame.fill, Bool.false_eq_true, ↓reduceIte, pointer,
            Stores, StoresContext, holeParent]
          tauto

/-- `Stores` only depends on the entries of the shape's own nodes. -/
theorem Stores.congr
    {tree other : CritbitTree w V}
    {parent : BitVec w}
    {shape : Shape w V}
    (stores : tree.Stores parent shape)
    (sameNodes :
      ∀ index ∈ shape.nodeIndices,
        other.internalNodes[index]? = tree.internalNodes[index]?)
    (sameLeaves :
      ∀ index ∈ shape.leafIndices,
        other.leaves[index]? = tree.leaves[index]?) :
    other.Stores parent shape := by
  induction shape generalizing parent with
  | leaf entry =>
      have same := sameLeaves entry.index (by simp)
      simpa [Stores, same] using stores
  | node index bit left right leftHypothesis rightHypothesis =>
      obtain ⟨here, leftStores, rightStores⟩ := stores
      have same := sameNodes index (by simp)
      refine ⟨by rw [same, here], ?_, ?_⟩
      · exact leftHypothesis leftStores
          (fun other member => sameNodes other (by simp [member]))
          (fun other member => sameLeaves other (by simp [member]))
      · exact rightHypothesis rightStores
          (fun other member => sameNodes other (by simp [member]))
          (fun other member => sameLeaves other (by simp [member]))

/-- `StoresContext` only depends on the root and its own nodes' entries. -/
theorem StoresContext.congr
    {tree other : CritbitTree w V}
    {hole : BitVec w}
    {context : ShapeContext w V}
    (stores : tree.StoresContext hole context)
    (sameRoot : other.root = tree.root)
    (sameNodes :
      ∀ index ∈ context.nodeIndices,
        other.internalNodes[index]? = tree.internalNodes[index]?)
    (sameLeaves :
      ∀ index ∈ context.leafIndices,
        other.leaves[index]? = tree.leaves[index]?) :
    other.StoresContext hole context := by
  induction context generalizing hole with
  | nil =>
      exact sameRoot.trans stores
  | cons frame outer inductionHypothesis =>
      obtain ⟨here, siblingStores, outerStores⟩ := stores
      have same := sameNodes frame.index (by simp [Context.nodeIndices])
      refine ⟨by rw [same, here], ?_, ?_⟩
      · exact siblingStores.congr
          (fun index member =>
            sameNodes index (by simp [Context.nodeIndices, member]))
          (fun index member =>
            sameLeaves index (Context.mem_leafIndices_cons.mpr (.inl member)))
      · exact inductionHypothesis outerStores
          (fun index member =>
            sameNodes index (by simp [Context.nodeIndices, member]))
          (fun index member =>
            sameLeaves index (Context.mem_leafIndices_cons.mpr (.inr member)))

/-- The leaf stored for an entry of a stored shape. -/
theorem Stores.leaf
    {tree : CritbitTree w V}
    {parent : BitVec w}
    {shape : Shape w V}
    (stores : tree.Stores parent shape)
    {entry : TrieEntry (BitVec w) w V}
    (stored : entry ∈ shape.entries) :
    ∃ leafParent,
      tree.leaves[entry.index]? =
        some ⟨leafParent, entry.key, entry.value⟩ := by
  induction shape generalizing parent with
  | leaf held =>
      have same : entry = held := by simpa using stored
      exact ⟨parent, by rw [same]; exact stores⟩
  | node index bit left right leftHypothesis rightHypothesis =>
      obtain ⟨_, leftStores, rightStores⟩ := stores
      rcases List.mem_append.mp stored with inLeft | inRight
      · exact leftHypothesis leftStores inLeft
      · exact rightHypothesis rightStores inRight

theorem Stores.node_mem
    {tree : CritbitTree w V}
    {parent : BitVec w}
    {shape : Shape w V}
    (stores : tree.Stores parent shape)
    {index : BitVec w}
    (member : index ∈ shape.nodeIndices) :
    index ∈ tree.internalNodes := by
  induction shape generalizing parent with
  | leaf held =>
      simp at member
  | node held bit left right leftHypothesis rightHypothesis =>
      obtain ⟨here, leftStores, rightStores⟩ := stores
      rw [nodeIndices_node, List.mem_cons, List.mem_append] at member
      rcases member with isHere | inLeft | inRight
      · rw [isHere, Std.ExtTreeMap.mem_iff_isSome_getElem?, here]
        rfl
      · exact leftHypothesis leftStores inLeft
      · exact rightHypothesis rightStores inRight

/-- The nodes of a shape are distinct and within the index capacity. -/
structure Distinct (shape : Shape w V) : Prop where
  leafNodup : shape.leafIndices.Nodup
  nodeNodup : shape.nodeIndices.Nodup
  leafRange : ∀ index ∈ shape.leafIndices, index < capacity w
  nodeRange : ∀ index ∈ shape.nodeIndices, index < capacity w

/-- The tree spells out a shape, with its links as drawn. -/
structure Holds (tree : CritbitTree w V) (shape : Shape w V) : Prop where
  ordered : shape.Ordered
  distinct : Distinct shape
  root : tree.root = pointer shape
  stores : tree.Stores (partitionIndex w) shape

/-- The tree spells out a shape and stores nothing else. -/
structure Linked (tree : CritbitTree w V) (shape : Shape w V) : Prop
    extends Holds tree shape where
  leafDomain : ∀ index, index ∈ tree.leaves → index ∈ shape.leafIndices
  nodeDomain :
    ∀ index, index ∈ tree.internalNodes → index ∈ shape.nodeIndices

namespace Distinct

variable {context : ShapeContext w V} {shape : Shape w V}

theorem leafIndices_append
    (distinct : Distinct (plug context shape)) :
    (shape.leafIndices ++ Context.leafIndices context).Nodup :=
  (leafIndices_plug_perm context shape).nodup_iff.mp distinct.leafNodup

theorem nodeIndices_append
    (distinct : Distinct (plug context shape)) :
    (shape.nodeIndices ++ Context.nodeIndices context).Nodup :=
  (nodeIndices_plug_perm context shape).nodup_iff.mp distinct.nodeNodup

theorem of_plug
    (distinct : Distinct (plug context shape)) : Distinct shape where
  leafNodup := distinct.leafIndices_append.of_append_left
  nodeNodup := distinct.nodeIndices_append.of_append_left
  leafRange index member :=
    distinct.leafRange index
      ((leafIndices_plug_perm context shape).mem_iff.mpr
        (List.mem_append_left _ member))
  nodeRange index member :=
    distinct.nodeRange index
      ((nodeIndices_plug_perm context shape).mem_iff.mpr
        (List.mem_append_left _ member))

/-- The node whose child fills the hole. -/
theorem filled
    {frame : Frame (BitVec w) w V}
    (distinct : Distinct (plug (frame :: context) shape)) :
    Distinct (frame.fill shape) := by
  rw [plug_cons] at distinct
  exact distinct.of_plug

theorem child
    {frame : Frame (BitVec w) w V}
    (distinct : Distinct (frame.fill shape)) : Distinct shape :=
  of_plug (show Distinct (plug [frame] shape) from distinct)

theorem sibling
    {frame : Frame (BitVec w) w V}
    (distinct : Distinct (frame.fill shape)) :
    Distinct frame.sibling := by
  rw [← frame.fill_flip shape] at distinct
  exact distinct.child

theorem left
    {index : BitVec w}
    {bit : Nat}
    {left right : Shape w V}
    (distinct : Distinct (node index bit left right)) : Distinct left :=
  child (show Distinct (Frame.fill ⟨index, bit, true, right⟩ left)
    from distinct)

theorem right
    {index : BitVec w}
    {bit : Nat}
    {left right : Shape w V}
    (distinct : Distinct (node index bit left right)) : Distinct right :=
  child (show Distinct (Frame.fill ⟨index, bit, false, left⟩ right)
    from distinct)

/-- Pointers to leaves lie above the partition. -/
theorem leaf_pointer
    (width : 0 < w)
    (distinct : Distinct shape)
    {index : BitVec w}
    (member : index ∈ shape.leafIndices) :
    partitionIndex w < maxIndex w - index :=
  partitionIndex_lt_maxIndex_sub width (distinct.leafRange index member)

/-- Pointers to internal nodes lie below the partition. -/
theorem node_pointer
    (width : 0 < w)
    (distinct : Distinct shape)
    {index : BitVec w}
    (member : index ∈ shape.nodeIndices) :
    index < partitionIndex w :=
  lt_partitionIndex_of_lt_capacity width (distinct.nodeRange index member)

theorem pointer_ne_partition
    (width : 0 < w)
    (distinct : Distinct shape) :
    pointer shape ≠ partitionIndex w := by
  cases shape with
  | leaf entry =>
      exact (BitVec.ne_of_lt (distinct.leaf_pointer width (by simp))).symm
  | node index bit left right =>
      exact BitVec.ne_of_lt
        (distinct.node_pointer width (by simp [pointer]))

/-- Disjoint shapes are named by different pointers. -/
theorem pointer_ne
    (width : 0 < w)
    {first second : Shape w V}
    (firstDistinct : Distinct first)
    (secondDistinct : Distinct second)
    (leavesDisjoint :
      List.Disjoint first.leafIndices second.leafIndices)
    (nodesDisjoint :
      List.Disjoint first.nodeIndices second.nodeIndices) :
    pointer first ≠ pointer second := by
  cases first with
  | leaf firstEntry =>
      have above := firstDistinct.leaf_pointer width
        (show firstEntry.index ∈ (Trie.leaf firstEntry).leafIndices by simp)
      cases second with
      | leaf secondEntry =>
          intro same
          have sameIndex : firstEntry.index = secondEntry.index :=
            maxIndex_sub_inj.mp same
          exact leavesDisjoint
            (show firstEntry.index ∈ (Trie.leaf firstEntry).leafIndices by simp)
            (by simp [sameIndex])
      | node secondIndex bit left right =>
          have below := secondDistinct.node_pointer width
            (show secondIndex ∈
              (Trie.node secondIndex bit left right).nodeIndices by simp)
          exact (BitVec.ne_of_lt (BitVec.lt_trans below above)).symm
  | node firstIndex bit left right =>
      have below := firstDistinct.node_pointer width
        (show firstIndex ∈
          (Trie.node firstIndex bit left right).nodeIndices by simp)
      cases second with
      | leaf secondEntry =>
          have above := secondDistinct.leaf_pointer width
            (show secondEntry.index ∈
              (Trie.leaf secondEntry).leafIndices by simp)
          exact BitVec.ne_of_lt (BitVec.lt_trans below above)
      | node secondIndex secondBit secondLeft secondRight =>
          intro same
          have sameIndex : firstIndex = secondIndex := same
          exact nodesDisjoint
            (show firstIndex ∈
              (Trie.node firstIndex bit left right).nodeIndices by simp)
            (by simp [sameIndex])

/-- The two children of one node are named by different pointers. -/
theorem pointer_ne_sibling
    (width : 0 < w)
    {frame : Frame (BitVec w) w V}
    (distinct : Distinct (frame.fill shape)) :
    pointer shape ≠ pointer frame.sibling := by
  have leaves := leafIndices_append
    (show Distinct (plug [frame] shape) from distinct)
  have nodes := nodeIndices_append
    (show Distinct (plug [frame] shape) from distinct)
  refine pointer_ne width distinct.child distinct.sibling ?_ ?_
  · intro index inShape inSibling
    exact List.disjoint_of_nodup_append leaves inShape
      (Context.mem_leafIndices_cons.mpr (.inl inSibling))
  · intro index inShape inSibling
    refine List.disjoint_of_nodup_append nodes inShape ?_
    simp [Context.nodeIndices, inSibling]

end Distinct

/-- The root of a stored shape is never the partition itself. -/
theorem Holds.root_ne_partition
    {tree : CritbitTree w V}
    {shape : Shape w V}
    (width : 0 < w)
    (holds : tree.Holds shape) :
    tree.root ≠ partitionIndex w := by
  rw [holds.root]
  exact holds.distinct.pointer_ne_partition width

namespace Linked

variable {tree : CritbitTree w V} {shape : Shape w V}

theorem leaf_mem_iff (linked : tree.Linked shape) (index : BitVec w) :
    index ∈ tree.leaves ↔ index ∈ shape.leafIndices := by
  refine ⟨linked.leafDomain index, ?_⟩
  intro member
  obtain ⟨entry, stored, same⟩ := List.mem_map.mp member
  obtain ⟨parent, found⟩ := linked.stores.leaf stored
  rw [← same, Std.ExtTreeMap.mem_iff_isSome_getElem?, found]
  rfl

theorem node_mem_iff (linked : tree.Linked shape) (index : BitVec w) :
    index ∈ tree.internalNodes ↔ index ∈ shape.nodeIndices :=
  ⟨linked.nodeDomain index, linked.stores.node_mem⟩

theorem leaves_size (linked : tree.Linked shape) :
    tree.leaves.size = shape.entries.length := by
  rw [TreeMap.size_eq_length linked.distinct.leafNodup linked.leaf_mem_iff]
  simp [leafIndices]

theorem internalNodes_size (linked : tree.Linked shape) :
    tree.internalNodes.size = shape.nodeIndices.length :=
  TreeMap.size_eq_length linked.distinct.nodeNodup linked.node_mem_iff

end Linked

/--
The representation invariant of a non-empty tree: the links spell out the
shape, both counters are ahead of every index in use, and the two caches name
the extreme leaves.
-/
structure Represents (tree : CritbitTree w V) (shape : Shape w V) : Prop
    extends Linked tree shape where
  leafBound :
    ∀ index ∈ shape.leafIndices, index < tree.nextLeafNodeIndex
  nodeBound :
    ∀ index ∈ shape.nodeIndices, index < tree.nextInternalNodeIndex
  counters :
    tree.nextInternalNodeIndex.toNat + 1 = tree.nextLeafNodeIndex.toNat
  withinCapacity : tree.nextLeafNodeIndex ≤ capacity w
  minCached : tree.minLeafIndex = shape.first.index
  maxCached : tree.maxLeafIndex = shape.last.index

end HybridOrderbook.CritbitTree
