import HybridOrderbook.Critbit.Navigation
import HybridOrderbook.Critbit.Relink

namespace HybridOrderbook.CritbitTree

open Library Library.Trie

/-!
# Splicing a new internal node into a tree

The walk of `insert` stops at the subtree that belongs below the new internal
node.  Splicing the node in rewrites three pairs of links, after which the
tree spells out the old shape with the subtree replaced by its join with the
new leaf.
-/

variable {w : Nat} {V : Type}

/-- The walk of `insert` is the walk of the shape. -/
theorem insertionPoint_eq
    (width : 0 < w)
    {tree : CritbitTree w V}
    {context : ShapeContext w V}
    {shape : Shape w V}
    (stores : tree.Stores (holeParent context) shape)
    (ordered : shape.Ordered)
    (distinct : Distinct shape)
    {bit : Nat}
    (inRange : bit < w)
    (key : BitVec w)
    {fuel : Nat}
    (enough : shape.nodeIndices.length < fuel) :
    tree.insertionPoint (BitVec.twoPow w bit) key fuel (pointer shape)
        (holeParent context) =
      .ok (pointer (walk (fun other => decide (other < bit)) key
          context shape).2,
        holeParent (walk (fun other => decide (other < bit)) key
          context shape).1) := by
  induction shape generalizing context fuel with
  | leaf entry =>
      obtain ⟨fuel, rfl⟩ := Nat.exists_eq_succ_of_ne_zero
        (Nat.ne_zero_of_lt enough)
      have above : partitionIndex w < maxIndex w - entry.index :=
        distinct.leaf_pointer width (by simp)
      simp [insertionPoint, walk, BitVec.not_lt.mpr (BitVec.le_of_lt above)]
  | node index other left right leftHypothesis rightHypothesis =>
      obtain ⟨fuel, rfl⟩ := Nat.exists_eq_succ_of_ne_zero
        (Nat.ne_zero_of_lt enough)
      obtain ⟨here, leftStores, rightStores⟩ := stores
      have below : index < partitionIndex w :=
        distinct.node_pointer width (by simp)
      simp only [nodeIndices_node, List.length_cons, List.length_append]
        at enough
      cases ordered with
      | node otherRange leftClear rightSet agree leftOrdered rightOrdered =>
          have halts := twoPow_lt_iff otherRange inRange
          have clear := twoPow_and_eq_zero_iff otherRange key
          by_cases lower : other < bit
          · simp [insertionPoint, walk, below, here, halts, lower]
          · cases set : key.getLsbD other with
            | true =>
                have inRight :
                    tree.Stores
                      (holeParent (⟨index, other, false, left⟩ :: context))
                      right := rightStores
                have shorter : right.nodeIndices.length < fuel := by omega
                have rest := rightHypothesis inRight rightOrdered
                  distinct.right shorter
                simp only [set, Bool.true_eq_false, iff_false] at clear
                simpa [insertionPoint, walk, below, here, halts, lower,
                  clear, set, holeParent] using rest
            | false =>
                have inLeft :
                    tree.Stores
                      (holeParent (⟨index, other, true, right⟩ :: context))
                      left := leftStores
                have shorter : left.nodeIndices.length < fuel := by omega
                have rest := leftHypothesis inLeft leftOrdered
                  distinct.left shorter
                simp only [set, iff_true] at clear
                simpa [insertionPoint, walk, below, here, halts, lower,
                  clear, set, holeParent] using rest

section Splice

variable {tree : CritbitTree w V} {context : ShapeContext w V}
  {subtree : Shape w V} {entry : TrieEntry (BitVec w) w V}
  {index : BitVec w} {bit : Nat}

/-- The three link rewrites of `insert`. -/
def splice
    (tree : CritbitTree w V)
    (context : ShapeContext w V)
    (index : BitVec w)
    (entry : TrieEntry (BitVec w) w V)
    (bit : Nat)
    (subtree : Shape w V) : CritbitTree w V :=
  (((tree.redirect index context).setParent index
    (holeParent context)).attach index (!entry.key.getLsbD bit)
      (maxIndex w - entry.index)).attach index (entry.key.getLsbD bit)
        (pointer subtree)

theorem nodeIndices_join
    (index : BitVec w)
    (bit : Nat)
    (entry : TrieEntry (BitVec w) w V)
    (subtree : Shape w V) :
    (join index bit entry subtree).nodeIndices =
      index :: subtree.nodeIndices := by
  cases set : entry.key.getLsbD bit <;> simp [join, Frame.fill, set]

theorem entries_join_perm
    (index : BitVec w)
    (bit : Nat)
    (entry : TrieEntry (BitVec w) w V)
    (subtree : Shape w V) :
    (join index bit entry subtree).entries.Perm
      (entry :: subtree.entries) := by
  cases set : entry.key.getLsbD bit with
  | true =>
      simp only [join, Frame.fill, set, Bool.not_true, Bool.false_eq_true,
        ↓reduceIte, entries_node, entries_leaf]
      exact List.perm_append_comm
  | false =>
      simp [join, Frame.fill, set]

/-- The new node and leaf occur nowhere in the old shape. -/
structure FreshSplice
    (context : ShapeContext w V)
    (subtree : Shape w V)
    (entry : TrieEntry (BitVec w) w V)
    (index : BitVec w) : Prop where
  old : Distinct (plug context subtree)
  node : index ∉ (plug context subtree).nodeIndices
  leaf : entry.index ∉ (plug context subtree).leafIndices
  nodeRange : index < capacity w
  leafRange : entry.index < capacity w

namespace FreshSplice

theorem not_mem_nodes
    (fresh : FreshSplice context subtree entry index) :
    index ∉ subtree.nodeIndices ∧ index ∉ Context.nodeIndices context := by
  have absent := fresh.node
  rw [(nodeIndices_plug_perm context subtree).mem_iff, List.mem_append,
    not_or] at absent
  exact absent

theorem not_mem_leaves
    (fresh : FreshSplice context subtree entry index) :
    entry.index ∉ subtree.leafIndices ∧
      entry.index ∉ Context.leafIndices context := by
  have absent := fresh.leaf
  rw [(leafIndices_plug_perm context subtree).mem_iff, List.mem_append,
    not_or] at absent
  exact absent

theorem leaf_distinct
    (fresh : FreshSplice context subtree entry index) :
    Distinct (Trie.leaf entry) where
  leafNodup := by simp
  nodeNodup := by simp
  leafRange := by simpa using fresh.leafRange
  nodeRange := by simp

theorem leaf_avoids
    (width : 0 < w)
    (fresh : FreshSplice context subtree entry index)
    {nodes leaves : List (BitVec w)}
    (absent : entry.index ∉ leaves) :
    Avoids (maxIndex w - entry.index) nodes leaves :=
  fresh.leaf_distinct.avoids width (by simp) (by simpa using absent)

theorem node_avoids
    (width : 0 < w)
    (fresh : FreshSplice context subtree entry index)
    {nodes leaves : List (BitVec w)}
    (absent : index ∉ nodes) :
    Avoids index nodes leaves := by
  have below := lt_partitionIndex_of_lt_capacity width fresh.nodeRange
  simpa [Avoids, BitVec.not_lt.mpr (BitVec.le_of_lt below)] using absent

/-- The joined shape is distinct again. -/
theorem distinct_join
    (fresh : FreshSplice context subtree entry index) :
    Distinct (plug context (join index bit entry subtree)) where
  leafNodup := by
    have nodup := fresh.old.leafIndices_append
    have joined := (entries_join_perm index bit entry subtree).map
      TrieEntry.index
    refine ((leafIndices_plug_perm context _).trans
      (joined.append_right _)).nodup_iff.mpr ?_
    refine List.nodup_cons.mpr ⟨?_, nodup⟩
    exact fun member =>
      fresh.leaf ((leafIndices_plug_perm context subtree).mem_iff.mpr member)
  nodeNodup := by
    refine (nodeIndices_plug_perm context _).nodup_iff.mpr ?_
    rw [nodeIndices_join]
    refine List.nodup_cons.mpr ⟨?_, fresh.old.nodeIndices_append⟩
    exact fun member =>
      fresh.node ((nodeIndices_plug_perm context subtree).mem_iff.mpr member)
  leafRange := by
    intro other member
    have joined := (entries_join_perm index bit entry subtree).map
      TrieEntry.index
    rw [((leafIndices_plug_perm context _).trans
      (joined.append_right _)).mem_iff, List.map_cons, List.cons_append,
      List.mem_cons] at member
    rcases member with isNew | isOld
    · exact isNew ▸ fresh.leafRange
    · exact fresh.old.leafRange other
        ((leafIndices_plug_perm context subtree).mem_iff.mpr isOld)
  nodeRange := by
    intro other member
    rw [(nodeIndices_plug_perm context _).mem_iff, nodeIndices_join,
      List.cons_append, List.mem_cons] at member
    rcases member with isNew | isOld
    · exact isNew ▸ fresh.nodeRange
    · exact fresh.old.nodeRange other
        ((nodeIndices_plug_perm context subtree).mem_iff.mpr isOld)

end FreshSplice

/--
Half-way through the three rewrites: the context already leads to the new
node, and the old subtree and the new leaf are stored under some parents.
-/
structure SpliceParts
    (tree : CritbitTree w V)
    (context : ShapeContext w V)
    (subtree : Shape w V)
    (entry : TrieEntry (BitVec w) w V)
    (index subtreeParent leafParent : BitVec w)
    (node : InternalNode w) : Prop where
  context : tree.StoresContext index context
  subtree : tree.Stores subtreeParent subtree
  leaf : tree.Stores leafParent (leaf entry)
  node : tree.internalNodes[index]? = some node

namespace SpliceParts

variable {subtreeParent leafParent : BitVec w} {node : InternalNode w}

/-- Hanging the new node in the place of the subtree. -/
theorem hung
    (width : 0 < w)
    (fresh : FreshSplice context subtree entry index)
    (contextStores : tree.StoresContext (pointer subtree) context)
    (subtreeStores : tree.Stores (holeParent context) subtree)
    (leafStored : tree.Stores (partitionIndex w) (Trie.leaf entry))
    (nodeStored :
      tree.internalNodes[index]? =
        some (InternalNode.new (BitVec.twoPow w bit))) :
    SpliceParts
      ((tree.redirect index context).setParent index (holeParent context))
      context subtree entry index (holeParent context) (partitionIndex w)
      ⟨BitVec.twoPow w bit, holeParent context, partitionIndex w,
        partitionIndex w⟩ := by
  obtain ⟨notInSubtree, notInContext⟩ := fresh.not_mem_nodes
  have nodup := fresh.old.nodeIndices_append
  refine ⟨?_, ?_, ?_, ?_⟩
  · exact (contextStores.redirect nodup.of_append_right index).setParent
      (fresh.node_avoids width notInContext)
  · exact (subtreeStores.redirect
      (List.disjoint_of_nodup_append nodup) index).setParent
      (fresh.node_avoids width notInSubtree)
  · exact (leafStored.redirect (by simp) index).setParent
      (fresh.node_avoids width (by simp))
  · have below := lt_partitionIndex_of_lt_capacity width fresh.nodeRange
    simp [setParent, BitVec.not_lt.mpr (BitVec.le_of_lt below),
      redirect_node notInContext, nodeStored, InternalNode.new]

/-- Attaching the new leaf to the new node. -/
theorem attachLeaf
    (width : 0 < w)
    (fresh : FreshSplice context subtree entry index)
    (parts :
      SpliceParts tree context subtree entry index subtreeParent leafParent
        node)
    (side : Bool) :
    SpliceParts (tree.attach index side (maxIndex w - entry.index)) context
      subtree entry index subtreeParent index
      (node.withChild side (maxIndex w - entry.index)) := by
  obtain ⟨notInSubtree, notInContext⟩ := fresh.not_mem_nodes
  obtain ⟨leafNotInSubtree, leafNotInContext⟩ := fresh.not_mem_leaves
  refine ⟨?_, ?_, ?_, ?_⟩
  · exact parts.context.attach notInContext
      (fresh.leaf_avoids width leafNotInContext)
  · exact parts.subtree.attach notInSubtree
      (fresh.leaf_avoids width leafNotInSubtree)
  · exact parts.leaf.attach_self width fresh.leaf_distinct (by simp)
  · exact attach_node parts.node (fresh.leaf_avoids width (by simp))

/-- Attaching the old subtree to the new node. -/
theorem attachSubtree
    (width : 0 < w)
    (fresh : FreshSplice context subtree entry index)
    (parts :
      SpliceParts tree context subtree entry index subtreeParent leafParent
        node)
    (side : Bool) :
    SpliceParts (tree.attach index side (pointer subtree)) context subtree
      entry index index leafParent
      (node.withChild side (pointer subtree)) := by
  obtain ⟨notInSubtree, notInContext⟩ := fresh.not_mem_nodes
  obtain ⟨leafNotInSubtree, _⟩ := fresh.not_mem_leaves
  -- the subtree's pointer names none of the other nodes at hand
  have distinct := fresh.old.of_plug
  have avoidsLeaf : Avoids (pointer subtree) [] [entry.index] :=
    distinct.avoids width (by simp) (by simpa using leafNotInSubtree)
  refine ⟨?_, ?_, ?_, ?_⟩
  · exact parts.context.attach notInContext (distinct.avoids width
      (List.disjoint_of_nodup_append fresh.old.nodeIndices_append)
      (List.disjoint_of_nodup_append fresh.old.leafIndices_append))
  · exact parts.subtree.attach_self width distinct notInSubtree
  · exact parts.leaf.attach (by simp) (by simpa using avoidsLeaf)
  · exact attach_node parts.node
      (distinct.avoids width (by simpa using notInSubtree) (by simp))

end SpliceParts

/-- After the three rewrites the tree spells out the joined shape. -/
theorem splice_holds
    (width : 0 < w)
    (fresh : FreshSplice context subtree entry index)
    (contextStores : tree.StoresContext (pointer subtree) context)
    (subtreeStores : tree.Stores (holeParent context) subtree)
    (leafStored :
      tree.leaves[entry.index]? = some (LeafNode.new entry.key entry.value))
    (nodeStored :
      tree.internalNodes[index]? =
        some (InternalNode.new (BitVec.twoPow w bit)))
    (ordered : (plug context (join index bit entry subtree)).Ordered) :
    (tree.splice context index entry bit subtree).Holds
      (plug context (join index bit entry subtree)) := by
  have hung := SpliceParts.hung width fresh contextStores subtreeStores
    leafStored nodeStored
  have parts :=
    (hung.attachLeaf width fresh (!entry.key.getLsbD bit)).attachSubtree
      width fresh (entry.key.getLsbD bit)
  rw [← splice] at parts
  have joinStores :
      (tree.splice context index entry bit subtree).Stores
        (holeParent context) (join index bit entry subtree) := by
    have node := parts.node
    have leafStores := parts.leaf
    have subtreeStores := parts.subtree
    cases set : entry.key.getLsbD bit <;>
      simp_all [join, Frame.fill, Stores, InternalNode.withChild]
  have joinPointer :
      pointer (join index bit entry subtree) = index := by
    simp [join]
  have linked := stores_plug_iff.mpr
    ⟨joinPointer.symm ▸ parts.context, joinStores⟩
  exact ⟨ordered, fresh.distinct_join, linked.1, linked.2⟩

/-- Hanging a fresh node at the stopping point of the walk. -/
theorem hangNode_eq
    (width : 0 < w)
    (fresh : FreshSplice context subtree entry index)
    (contextStores : tree.StoresContext (pointer subtree) context)
    {mask : BitVec w}
    (nodeStored :
      tree.internalNodes[index]? = some (InternalNode.new mask)) :
    hangNode index (pointer subtree) (holeParent context) tree =
      (.ok (), (tree.redirect index context).setParent index
        (holeParent context)) := by
  have below := lt_partitionIndex_of_lt_capacity width fresh.nodeRange
  have notAbove := BitVec.not_lt.mpr (BitVec.le_of_lt below)
  have nodeMember : index ∈ tree.internalNodes :=
    TreeMap.mem_of_getElem? nodeStored
  cases context with
  | nil =>
      have unchanged :
          tree.internalNodes.modify index
              (fun node => { node with parent := partitionIndex w }) =
            tree.internalNodes := by
        rw [← TreeMap.insert_eq_modify nodeStored]
        refine Std.ExtTreeMap.ext_getElem? fun other => ?_
        by_cases same : index = other
        · subst same
          simp [nodeStored, InternalNode.new]
        · simp [Std.ExtTreeMap.getElem?_insert, same]
      simp [hangNode, Proc.bind_apply, holeParent, redirect, setParent,
        notAbove, unchanged]
  | cons frame outer =>
      have filledDistinct := fresh.old.filled
      have inside : frame.index ≠ partitionIndex w := by
        simpa using filledDistinct.pointer_ne_partition width
      have frameMember : frame.index ∈ tree.internalNodes :=
        TreeMap.mem_of_getElem? contextStores.1
      have present : tree.Present index := by
        simpa [Present, notAbove] using nodeMember
      simp only [hangNode, Proc.bind_apply, Proc.get_apply, holeParent,
        inside, ↓reduceIte, contextStores.isLeftChild width filledDistinct]
      rw [updateRef_eq frameMember present]
      rfl

/-- The two children of the fresh node. -/
theorem adopt_eq
    (width : 0 < w)
    (fresh : FreshSplice context subtree entry index)
    (nodeMember : index ∈ tree.internalNodes)
    (leafMember : entry.index ∈ tree.leaves)
    (subtreePresent : tree.Present (pointer subtree))
    (side : Bool) :
    updateRef index (maxIndex w - entry.index) side tree =
        (.ok (), tree.attach index side (maxIndex w - entry.index)) ∧
      updateRef index (pointer subtree) (!side)
          (tree.attach index side (maxIndex w - entry.index)) =
        (.ok (), (tree.attach index side (maxIndex w - entry.index)).attach
          index (!side) (pointer subtree)) := by
  have above : partitionIndex w < maxIndex w - entry.index :=
    fresh.leaf_distinct.leaf_pointer width (by simp)
  have leafPresent : tree.Present (maxIndex w - entry.index) := by
    simpa [Present, above] using leafMember
  have stillPresent :
      (tree.attach index side (maxIndex w - entry.index)).Present
        (pointer subtree) := present_attach.mpr subtreePresent
  exact ⟨updateRef_eq nodeMember leafPresent,
    updateRef_eq (mem_attach.mpr nodeMember) stillPresent⟩

end Splice

end HybridOrderbook.CritbitTree
