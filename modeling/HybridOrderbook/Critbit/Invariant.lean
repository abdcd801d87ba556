import HybridOrderbook.Library.Run
import HybridOrderbook.Critbit.Contents

namespace HybridOrderbook.CritbitTree

open Library Library.Trie

/-!
# The representation invariant

The invariant is stated on the two node maps alone: paths are lists of turns
followed through the stored child links.  Every tree that insertions and
removals can reach from the empty one satisfies it.
-/

variable {w : Nat} {V : Type}

/-- Follow turns from a pointer through the stored links, `true` going left. -/
def walkPath (tree : CritbitTree w V) :
    List Bool → BitVec w → Option (BitVec w)
  | [], curr => some curr
  | turn :: rest, curr =>
      if curr < partitionIndex w then
        tree.internalNodes[curr]?.bind fun node =>
          tree.walkPath rest (if turn then node.left else node.right)
      else
        none

/-- The parent link of the node that `child` names is the right one. -/
def ParentLink (tree : CritbitTree w V) (child parent : BitVec w) : Prop :=
  if child = tree.root then
    parent = partitionIndex w
  else
    parent ∈ tree.internalNodes ∧
      ∀ (index : BitVec w) (node : InternalNode w),
        tree.internalNodes[index]? = some node →
          ((node.left = child ∨ node.right = child) ↔ index = parent)

/-- What a critbit tree has to satisfy. -/
structure RepresentationInvariant (tree : CritbitTree w V) : Prop where
  /-- One internal node fewer than leaves. -/
  nodeCount :
    tree.leaves.isEmpty = false →
      tree.internalNodes.size + 1 = tree.leaves.size
  /-- Every leaf is reached from the root by exactly one path. -/
  leafPath :
    ∀ index ∈ tree.leaves,
      ∃! turns, tree.walkPath turns tree.root = some (maxIndex w - index)
  /-- Every internal node is reached from the root by exactly one path. -/
  nodePath :
    ∀ index ∈ tree.internalNodes,
      ∃! turns, tree.walkPath turns tree.root = some index
  /-- Parent links of leaves. -/
  leafParent :
    ∀ (index : BitVec w) (leafNode : LeafNode w V),
      tree.leaves[index]? = some leafNode →
        tree.ParentLink (maxIndex w - index) leafNode.parent
  /-- Parent links of internal nodes. -/
  nodeParent :
    ∀ (index : BitVec w) (node : InternalNode w),
      tree.internalNodes[index]? = some node →
        tree.ParentLink index node.parent
  /-- Every mask is a single bit. -/
  singleBit :
    ∀ (index : BitVec w) (node : InternalNode w),
      tree.internalNodes[index]? = some node →
        ∃ bit, bit < w ∧ node.mask = BitVec.twoPow w bit
  /-- Masks strictly decrease along every path. -/
  masksDecrease :
    ∀ (index lowerIndex : BitVec w) (node lowerNode : InternalNode w)
        (turn : Bool) (rest : List Bool),
      tree.internalNodes[index]? = some node →
        tree.internalNodes[lowerIndex]? = some lowerNode →
          tree.walkPath (turn :: rest) index = some lowerIndex →
            lowerNode.mask < node.mask
  /-- Keys in a left subtree have the mask bit clear. -/
  leftClear :
    ∀ (index leafIndex : BitVec w) (node : InternalNode w)
        (leafNode : LeafNode w V) (turns : List Bool),
      tree.internalNodes[index]? = some node →
        tree.leaves[leafIndex]? = some leafNode →
          tree.walkPath turns node.left = some (maxIndex w - leafIndex) →
            leafNode.key &&& node.mask = 0
  /-- Keys in a right subtree have the mask bit set. -/
  rightSet :
    ∀ (index leafIndex : BitVec w) (node : InternalNode w)
        (leafNode : LeafNode w V) (turns : List Bool),
      tree.internalNodes[index]? = some node →
        tree.leaves[leafIndex]? = some leafNode →
          tree.walkPath turns node.right = some (maxIndex w - leafIndex) →
            leafNode.key &&& node.mask = node.mask
  /-- Keys below a node agree on every bit above its mask. -/
  agreeAbove :
    ∀ (index firstIndex secondIndex : BitVec w) (node : InternalNode w)
        (first second : LeafNode w V) (firstTurns secondTurns : List Bool),
      tree.internalNodes[index]? = some node →
        tree.leaves[firstIndex]? = some first →
          tree.leaves[secondIndex]? = some second →
            tree.walkPath firstTurns index =
                some (maxIndex w - firstIndex) →
              tree.walkPath secondTurns index =
                  some (maxIndex w - secondIndex) →
                ∀ bit, node.mask < BitVec.twoPow w bit → bit < w →
                  first.key.getLsbD bit = second.key.getLsbD bit
  /-- Without leaves there are no internal nodes and no root. -/
  emptyTree :
    tree.leaves.isEmpty = true →
      tree.internalNodes.isEmpty = true ∧ tree.root = partitionIndex w

section Paths

variable {tree : CritbitTree w V} {shape : Shape w V}

/-- Following stored links is following the shape. -/
theorem walkPath_stores
    (width : 0 < w)
    {parent : BitVec w}
    (stores : tree.Stores parent shape)
    (distinct : Distinct shape)
    (turns : List Bool) :
    tree.walkPath turns (pointer shape) =
      (shape.subtreeAt turns).map pointer := by
  induction turns generalizing shape parent with
  | nil =>
      simp [walkPath, subtreeAt]
  | cons turn rest inductionHypothesis =>
      cases shape with
      | leaf entry =>
          have above : partitionIndex w < maxIndex w - entry.index :=
            distinct.leaf_pointer width (by simp)
          simp [walkPath, subtreeAt, BitVec.not_lt.mpr (BitVec.le_of_lt above)]
      | node index bit left right =>
          have below : index < partitionIndex w :=
            distinct.node_pointer width (by simp)
          obtain ⟨here, leftStores, rightStores⟩ := stores
          cases turn with
          | true =>
              have rest := inductionHypothesis leftStores distinct.left
              simpa [walkPath, subtreeAt, below, here] using rest
          | false =>
              have rest := inductionHypothesis rightStores distinct.right
              simpa [walkPath, subtreeAt, below, here] using rest

/-- A pointer to one of the nodes of a shape. -/
def Names (shape : Shape w V) (target : BitVec w) : Prop :=
  (∃ index ∈ shape.leafIndices, target = maxIndex w - index) ∨
    target ∈ shape.nodeIndices

theorem names_subtree
    {turns : List Bool}
    {subtree : Shape w V}
    (found : shape.subtreeAt turns = some subtree) :
    Names shape (pointer subtree) := by
  obtain ⟨context, rfl⟩ := exists_context_of_subtreeAt found
  cases subtree with
  | leaf entry =>
      refine .inl ⟨entry.index, ?_, rfl⟩
      exact List.mem_map_of_mem (mem_entries_plug_leaf context entry)
  | node index bit left right =>
      refine .inr ((nodeIndices_plug_perm context _).mem_iff.mpr ?_)
      simp

theorem Names.disjoint
    (width : 0 < w)
    {first second : Shape w V}
    {target : BitVec w}
    (inFirst : Names first target)
    (inSecond : Names second target)
    (firstDistinct : Distinct first)
    (secondDistinct : Distinct second)
    (leavesDisjoint : List.Disjoint first.leafIndices second.leafIndices)
    (nodesDisjoint : List.Disjoint first.nodeIndices second.nodeIndices) :
    False := by
  rcases inFirst with ⟨firstIndex, firstLeaf, rfl⟩ | firstNode
  · have above := firstDistinct.leaf_pointer width firstLeaf
    rcases inSecond with ⟨secondIndex, secondLeaf, same⟩ | secondNode
    · rw [maxIndex_sub_inj] at same
      exact leavesDisjoint firstLeaf (same ▸ secondLeaf)
    · have below := secondDistinct.node_pointer width secondNode
      exact BitVec.lt_irrefl _ (BitVec.lt_trans above below)
  · have below := firstDistinct.node_pointer width firstNode
    rcases inSecond with ⟨secondIndex, secondLeaf, rfl⟩ | secondNode
    · have above := secondDistinct.leaf_pointer width secondLeaf
      exact BitVec.lt_irrefl _ (BitVec.lt_trans above below)
    · exact nodesDisjoint firstNode secondNode

/-- A node is not named inside the subtree below it. -/
theorem Distinct.root_not_named
    (width : 0 < w)
    {frame : Frame (BitVec w) w V}
    (distinct : Distinct (frame.fill shape)) :
    ¬ Names shape frame.index := by
  have below : frame.index < partitionIndex w := by
    refine distinct.node_pointer width ?_
    cases side : frame.holeLeft <;> simp [Frame.fill, side]
  have plugged : Distinct (plug [frame] shape) := distinct
  intro named
  rcases named with ⟨index, isLeaf, same⟩ | isNode
  · have above := plugged.of_plug.leaf_pointer width isLeaf
    rw [← same] at above
    exact BitVec.lt_irrefl _ (BitVec.lt_trans above below)
  · exact List.disjoint_of_nodup_append plugged.nodeIndices_append isNode
      (by simp [Context.nodeIndices])

section Node

variable {index : BitVec w} {bit : Nat} {left right : Shape w V}

/-- No path that goes on ends at the root again. -/
theorem Distinct.pointer_ne_root
    (width : 0 < w)
    (distinct : Distinct (node index bit left right))
    {turn : Bool}
    {rest : List Bool}
    {lower : Shape w V}
    (found :
      (node index bit left right).subtreeAt (turn :: rest) = some lower) :
    pointer lower ≠ index := by
  intro same
  cases turn with
  | true =>
      have fromLeft :
          Distinct (Frame.fill ⟨index, bit, true, right⟩ left) := distinct
      exact fromLeft.root_not_named width
        (same ▸ names_subtree (by simpa [subtreeAt] using found))
  | false =>
      have fromRight :
          Distinct (Frame.fill ⟨index, bit, false, left⟩ right) := distinct
      exact fromRight.root_not_named width
        (same ▸ names_subtree (by simpa [subtreeAt] using found))

/-- Paths to different sides end at different pointers. -/
theorem Distinct.pointers_apart
    (width : 0 < w)
    (distinct : Distinct (node index bit left right))
    (leftDistinct : Distinct left)
    (rightDistinct : Distinct right)
    {leftTurns rightTurns : List Bool}
    {inLeft inRight : Shape w V}
    (leftFound : left.subtreeAt leftTurns = some inLeft)
    (rightFound : right.subtreeAt rightTurns = some inRight) :
    pointer inLeft ≠ pointer inRight := by
  intro same
  have nodes := distinct.nodeNodup
  have leaves := distinct.leafNodup
  rw [nodeIndices_node] at nodes
  rw [leafIndices_node] at leaves
  exact (names_subtree leftFound).disjoint width
    (same ▸ names_subtree rightFound) leftDistinct rightDistinct
    (List.disjoint_of_nodup_append leaves)
    (List.disjoint_of_nodup_append nodes.of_cons)

end Node

/-- Different paths of a distinct shape end at different pointers. -/
theorem Distinct.turns_unique
    (width : 0 < w)
    (distinct : Distinct shape)
    {firstTurns secondTurns : List Bool}
    {first second : Shape w V}
    (firstFound : shape.subtreeAt firstTurns = some first)
    (secondFound : shape.subtreeAt secondTurns = some second)
    (samePointer : pointer first = pointer second) :
    firstTurns = secondTurns := by
  induction shape generalizing firstTurns secondTurns with
  | leaf entry =>
      cases firstTurns with
      | nil =>
          cases secondTurns with
          | nil => rfl
          | cons turn rest => simp [subtreeAt] at secondFound
      | cons turn rest => simp [subtreeAt] at firstFound
  | node index bit left right leftHypothesis rightHypothesis =>
      have leftDistinct : Distinct left :=
        (show Distinct (Frame.fill ⟨index, bit, false, left⟩ right) from
          distinct).sibling
      have rightDistinct : Distinct right :=
        (show Distinct (Frame.fill ⟨index, bit, true, right⟩ left) from
          distinct).sibling
      cases firstTurns with
      | nil =>
          have isRoot : node index bit left right = first := by
            simpa [subtreeAt] using firstFound
          cases secondTurns with
          | nil => rfl
          | cons turn rest =>
              refine absurd ?_ (distinct.pointer_ne_root width secondFound)
              rw [← samePointer, ← isRoot, pointer_node]
      | cons firstTurn firstRest =>
          cases secondTurns with
          | nil =>
              have isRoot : node index bit left right = second := by
                simpa [subtreeAt] using secondFound
              refine absurd ?_ (distinct.pointer_ne_root width firstFound)
              rw [samePointer, ← isRoot, pointer_node]
          | cons secondTurn secondRest =>
              cases firstTurn <;> cases secondTurn
              · exact congrArg (List.cons false)
                  (rightHypothesis rightDistinct
                    (by simpa [subtreeAt] using firstFound)
                    (by simpa [subtreeAt] using secondFound))
              · exact absurd samePointer.symm (distinct.pointers_apart width
                  leftDistinct rightDistinct
                  (by simpa [subtreeAt] using secondFound)
                  (by simpa [subtreeAt] using firstFound))
              · exact absurd samePointer (distinct.pointers_apart width
                  leftDistinct rightDistinct
                  (by simpa [subtreeAt] using firstFound)
                  (by simpa [subtreeAt] using secondFound))
              · exact congrArg (List.cons true)
                  (leftHypothesis leftDistinct
                    (by simpa [subtreeAt] using firstFound)
                    (by simpa [subtreeAt] using secondFound))

end Paths

section Fields

variable {tree : CritbitTree w V} {shape : Shape w V}
  {context : ShapeContext w V}

/-- Every stored internal node is a branch of the shape. -/
theorem Linked.node_at
    (linked : tree.Linked shape)
    {index : BitVec w}
    {stored : InternalNode w}
    (found : tree.internalNodes[index]? = some stored) :
    ∃ context bit left right,
      shape = plug context (node index bit left right) ∧
        stored = ⟨BitVec.twoPow w bit, holeParent context,
          pointer left, pointer right⟩ := by
  obtain ⟨context, bit, left, right, rfl⟩ := exists_context_of_node_mem
    (linked.nodeDomain index (TreeMap.mem_of_getElem? found))
  refine ⟨context, bit, left, right, rfl, ?_⟩
  obtain ⟨_, here, _⟩ := linked.storesContext
  rw [found, Option.some.injEq] at here
  exact here

/-- Every stored leaf is a leaf of the shape. -/
theorem Linked.leaf_at
    (linked : tree.Linked shape)
    {index : BitVec w}
    {stored : LeafNode w V}
    (found : tree.leaves[index]? = some stored) :
    ∃ context,
      shape = plug context (leaf ⟨index, stored.key, stored.value⟩) ∧
        stored.parent = holeParent context := by
  obtain ⟨entry, listed, rfl⟩ := List.mem_map.mp
    (linked.leafDomain index (TreeMap.mem_of_getElem? found))
  obtain ⟨context, rfl⟩ := exists_context_of_mem listed
  obtain ⟨_, here⟩ := linked.storesContext
  have same : stored = ⟨holeParent context, entry.key, entry.value⟩ :=
    Option.some.inj (found.symm.trans here)
  exact ⟨context, by rw [same], by rw [same]⟩

theorem Linked.walkPath_eq
    (width : 0 < w)
    (linked : tree.Linked (plug context shape))
    (turns : List Bool) :
    tree.walkPath turns (pointer shape) =
      (shape.subtreeAt turns).map pointer :=
  walkPath_stores width linked.storesContext.2 linked.distinct.of_plug turns

/-- A subtree is reached from the root by exactly one path. -/
theorem Linked.unique_path
    (width : 0 < w)
    (linked : tree.Linked (plug context shape)) :
    ∃! turns, tree.walkPath turns tree.root = some (pointer shape) := by
  have whole : tree.Linked (plug [] (plug context shape)) := linked
  obtain ⟨turns, found⟩ := exists_turns_of_plug context shape
  refine ⟨turns, ?_, ?_⟩
  · change tree.walkPath turns tree.root = some (pointer shape)
    rw [linked.root, whole.walkPath_eq width, found]
    rfl
  · intro other reached
    change tree.walkPath other tree.root = some (pointer shape) at reached
    rw [linked.root, whole.walkPath_eq width, Option.map_eq_some_iff]
      at reached
    obtain ⟨reachedShape, otherFound, samePointer⟩ := reached
    exact linked.distinct.turns_unique width otherFound found samePointer

/-- The parent link of a subtree names the frame it hangs under. -/
theorem Linked.parentLink
    (width : 0 < w)
    (linked : tree.Linked (plug context shape)) :
    tree.ParentLink (pointer shape) (holeParent context) := by
  cases context with
  | nil =>
      simp [ParentLink, linked.root, holeParent]
  | cons frame outer =>
      obtain ⟨outerTurns, outerFound⟩ :=
        exists_turns_of_plug outer (frame.fill shape)
      have found :
          (plug (frame :: outer) shape).subtreeAt
              (outerTurns ++ [frame.holeLeft]) = some shape := by
        rw [plug_cons, subtreeAt_append, outerFound]
        cases side : frame.holeLeft <;>
          simp [Frame.fill, side, subtreeAt]
      have notRoot : pointer shape ≠ tree.root := by
        intro same
        have turns := linked.distinct.turns_unique width found
          (show (plug (frame :: outer) shape).subtreeAt [] = some _ from rfl)
          (same.trans linked.root)
        simp at turns
      obtain ⟨⟨here, _, _⟩, _⟩ := linked.storesContext
      simp only [ParentLink, notRoot, ↓reduceIte, holeParent]
      refine ⟨TreeMap.mem_of_getElem? here, ?_⟩
      intro index stored foundNode
      constructor
      · intro isChild
        obtain ⟨nodeContext, bit, left, right, sameShape, rfl⟩ :=
          linked.node_at foundNode
        obtain ⟨nodeTurns, nodeFound⟩ :=
          exists_turns_of_plug nodeContext (node index bit left right)
        rw [← sameShape] at nodeFound
        have childTurns :
            ∃ turn, nodeTurns ++ [turn] = outerTurns ++ [frame.holeLeft] := by
          rcases isChild with isLeft | isRight
          · refine ⟨true, linked.distinct.turns_unique width ?_ found isLeft⟩
            rw [subtreeAt_append, nodeFound]
            rfl
          · refine ⟨false,
              linked.distinct.turns_unique width ?_ found isRight⟩
            rw [subtreeAt_append, nodeFound]
            rfl
        obtain ⟨turn, sameTurns⟩ := childTurns
        have sameParent : nodeTurns = outerTurns :=
          (List.append_inj' sameTurns rfl).1
        rw [sameParent, plug_cons, outerFound, Option.some.injEq] at nodeFound
        have samePointer := congrArg pointer nodeFound
        simpa using samePointer.symm
      · intro isParent
        rw [isParent, here, Option.some.injEq] at foundNode
        rw [← foundNode]
        cases frame.holeLeft <;> simp

/-- Two subtrees with the same pointer are the same subtree. -/
theorem Linked.subtree_eq
    (width : 0 < w)
    {other : Shape w V}
    {otherContext : ShapeContext w V}
    (linked : tree.Linked (plug context shape))
    (sameWhole : plug context shape = plug otherContext other)
    (samePointer : pointer shape = pointer other) :
    shape = other := by
  obtain ⟨turns, found⟩ := exists_turns_of_plug context shape
  obtain ⟨otherTurns, otherFound⟩ := exists_turns_of_plug otherContext other
  rw [← sameWhole] at otherFound
  have sameTurns := linked.distinct.turns_unique width found otherFound
    samePointer
  rw [sameTurns, otherFound, Option.some.injEq] at found
  exact found.symm

/-- A leaf that a path from a subtree ends at belongs to the subtree. -/
theorem Linked.key_below
    (width : 0 < w)
    (linked : tree.Linked (plug context shape))
    {leafIndex : BitVec w}
    {leafNode : LeafNode w V}
    {turns : List Bool}
    (stored : tree.leaves[leafIndex]? = some leafNode)
    (reached :
      tree.walkPath turns (pointer shape) =
        some (maxIndex w - leafIndex)) :
    leafNode.key ∈ shape.keys := by
  rw [linked.walkPath_eq width, Option.map_eq_some_iff] at reached
  obtain ⟨reachedShape, found, samePointer⟩ := reached
  obtain ⟨leafContext, sameWhole, _⟩ := linked.leaf_at stored
  obtain ⟨inner, rfl⟩ := exists_context_of_subtreeAt found
  have nested :
      tree.Linked (plug (inner ++ context) reachedShape) := by
    rw [plug_append]
    exact linked
  have isLeaf := nested.subtree_eq width
    ((plug_append inner context reachedShape).trans sameWhole) samePointer
  rw [isLeaf]
  exact List.mem_map_of_mem (f := TrieEntry.key)
    (mem_entries_plug_leaf inner _)

theorem Linked.masks_decrease
    (width : 0 < w)
    (linked : tree.Linked shape)
    {index lowerIndex : BitVec w}
    {stored lowerStored : InternalNode w}
    {turn : Bool}
    {rest : List Bool}
    (found : tree.internalNodes[index]? = some stored)
    (lowerFound : tree.internalNodes[lowerIndex]? = some lowerStored)
    (reached :
      tree.walkPath (turn :: rest) index = some lowerIndex) :
    lowerStored.mask < stored.mask := by
  obtain ⟨nodeContext, bit, left, right, rfl, rfl⟩ := linked.node_at found
  obtain ⟨lowerContext, lowerBit, lowerLeft, lowerRight, sameWhole, rfl⟩ :=
    linked.node_at lowerFound
  have nodePath := linked.walkPath_eq width (turn :: rest)
  rw [pointer_node, reached, eq_comm, Option.map_eq_some_iff] at nodePath
  obtain ⟨reachedShape, foundShape, samePointer⟩ := nodePath
  obtain ⟨inner, plugged⟩ := exists_context_of_subtreeAt foundShape
  have whole : plug (inner ++ nodeContext) reachedShape =
      plug nodeContext (node index bit left right) := by
    rw [plug_append, plugged]
  have nested : tree.Linked (plug (inner ++ nodeContext) reachedShape) := by
    rw [whole]
    exact linked
  have isLower := nested.subtree_eq width (whole.trans sameWhole) samePointer
  rw [isLower] at foundShape
  have nodeOrdered := linked.ordered.of_plug
  have lowerOrdered :
      (node lowerIndex lowerBit lowerLeft lowerRight).Ordered := by
    have ordered := linked.ordered
    rw [sameWhole] at ordered
    exact ordered.of_plug
  have lower := nodeOrdered.subtreeAt_bit_lt foundShape
  cases nodeOrdered with
  | node inRange _ _ _ _ _ =>
      cases lowerOrdered with
      | node lowerRange _ _ _ _ _ =>
          exact (twoPow_lt_iff lowerRange inRange).mpr lower

/-- A branch of the shape separates the keys on its two sides. -/
theorem Linked.keys_apart
    (width : 0 < w)
    {index : BitVec w}
    {bit : Nat}
    {left right : Shape w V}
    (linked : tree.Linked (plug context (node index bit left right)))
    {leafIndex : BitVec w}
    {leafNode : LeafNode w V}
    {turns : List Bool}
    (stored : tree.leaves[leafIndex]? = some leafNode) :
    (tree.walkPath turns (pointer left) = some (maxIndex w - leafIndex) →
        leafNode.key &&& BitVec.twoPow w bit = 0) ∧
      (tree.walkPath turns (pointer right) = some (maxIndex w - leafIndex) →
        leafNode.key &&& BitVec.twoPow w bit = BitVec.twoPow w bit) := by
  have fromLeft :
      tree.Linked (plug (⟨index, bit, true, right⟩ :: context) left) := linked
  have fromRight :
      tree.Linked (plug (⟨index, bit, false, left⟩ :: context) right) := linked
  cases linked.ordered.of_plug with
  | node inRange leftClear rightSet _ _ _ =>
      constructor
      · intro reached
        have clear := leftClear _ (fromLeft.key_below width stored reached)
        simp [BitVec.and_twoPow, clear]
      · intro reached
        have set := rightSet _ (fromRight.key_below width stored reached)
        simp [BitVec.and_twoPow, set]

theorem Linked.agree_above
    (width : 0 < w)
    {index : BitVec w}
    {bit : Nat}
    {left right : Shape w V}
    (linked : tree.Linked (plug context (node index bit left right)))
    {firstIndex secondIndex : BitVec w}
    {first second : LeafNode w V}
    {firstTurns secondTurns : List Bool}
    (firstStored : tree.leaves[firstIndex]? = some first)
    (secondStored : tree.leaves[secondIndex]? = some second)
    (firstReached :
      tree.walkPath firstTurns index = some (maxIndex w - firstIndex))
    (secondReached :
      tree.walkPath secondTurns index = some (maxIndex w - secondIndex))
    {higher : Nat}
    (above : BitVec.twoPow w bit < BitVec.twoPow w higher)
    (inWord : higher < w) :
    first.key.getLsbD higher = second.key.getLsbD higher := by
  have firstBelow := linked.key_below width firstStored firstReached
  have secondBelow := linked.key_below width secondStored secondReached
  rw [keys_node] at firstBelow secondBelow
  cases linked.ordered.of_plug with
  | node inRange _ _ agree _ _ =>
      exact agree _ firstBelow _ secondBelow higher
        ((twoPow_lt_iff inRange inWord).mp above)

end Fields

section Reachable

variable {tree : CritbitTree w V} {shape : Shape w V}

theorem representationInvariant_new :
    (new : CritbitTree w V).RepresentationInvariant := by
  constructor <;> simp [new]

theorem Represents.representationInvariant
    (width : 0 < w)
    (represents : tree.Represents shape) :
    tree.RepresentationInvariant := by
  have linked := represents.toLinked
  constructor
  · intro _
    rw [linked.internalNodes_size, linked.leaves_size, length_entries]
  · intro index member
    obtain ⟨stored, found⟩ := Option.isSome_iff_exists.mp
      (Std.ExtTreeMap.mem_iff_isSome_getElem?.mp member)
    obtain ⟨context, rfl, _⟩ := linked.leaf_at found
    exact linked.unique_path width
  · intro index member
    obtain ⟨stored, found⟩ := Option.isSome_iff_exists.mp
      (Std.ExtTreeMap.mem_iff_isSome_getElem?.mp member)
    obtain ⟨context, bit, left, right, rfl, _⟩ := linked.node_at found
    exact linked.unique_path width
  · intro index leafNode found
    obtain ⟨context, rfl, sameParent⟩ := linked.leaf_at found
    rw [sameParent]
    exact linked.parentLink width
  · intro index node found
    obtain ⟨context, bit, left, right, rfl, rfl⟩ := linked.node_at found
    exact linked.parentLink width
  · intro index node found
    obtain ⟨context, bit, left, right, rfl, rfl⟩ := linked.node_at found
    cases linked.ordered.of_plug with
    | node inRange _ _ _ _ _ =>
        exact ⟨bit, inRange, rfl⟩
  · intro index lowerIndex node lowerNode turn rest found lowerFound reached
    exact linked.masks_decrease width found lowerFound reached
  · intro index leafIndex node leafNode turns found stored reached
    obtain ⟨context, bit, left, right, rfl, rfl⟩ := linked.node_at found
    exact (linked.keys_apart width stored).1 reached
  · intro index leafIndex node leafNode turns found stored reached
    obtain ⟨context, bit, left, right, rfl, rfl⟩ := linked.node_at found
    exact (linked.keys_apart width stored).2 reached
  · intro index firstIndex secondIndex node first second firstTurns
      secondTurns found firstStored secondStored firstReached secondReached
      bit above inWord
    obtain ⟨context, nodeBit, left, right, rfl, rfl⟩ := linked.node_at found
    exact linked.agree_above width firstStored secondStored firstReached
      secondReached above inWord
  · intro empty
    have noEntries := represents.lists.isEmpty_iff.mp empty
    exact absurd noEntries (entries_ne_nil shape)

theorem Lists.representationInvariant
    (width : 0 < w)
    {entries : List (TrieEntry (BitVec w) w V)}
    (lists : tree.Lists entries) :
    tree.RepresentationInvariant := by
  rcases lists with ⟨rfl, _⟩ | ⟨shape, represents, _⟩
  · exact representationInvariant_new
  · exact represents.representationInvariant width

/-- The two operations that change the shape of a tree. -/
inductive TreeOp (w : Nat) (V : Type) where
  | insert : BitVec w → V → TreeOp w V
  | removeLeafByIndex : BitVec w → TreeOp w V
  deriving Repr

/-- Carry out one operation, keeping the tree only if it succeeds. -/
def TreeOp.step : TreeOp w V → CritbitTree w V → Option (CritbitTree w V)
  | .insert key value, tree =>
      Run.succeeded (CritbitTree.insert key value tree)
  | .removeLeafByIndex index, tree =>
      Run.succeeded (CritbitTree.removeLeafByIndex index tree)

theorem TreeOp.step_lists
    (width : 0 < w)
    (op : TreeOp w V)
    {reached : CritbitTree w V}
    {entries : List (TrieEntry (BitVec w) w V)}
    (lists : tree.Lists entries)
    (stepped : op.step tree = some reached) :
    ∃ listed, reached.Lists listed := by
  cases op with
  | insert key value =>
      obtain ⟨_, executed⟩ := Run.succeeded_eq_some_iff.mp stepped
      have outcome := lists.insert_outcome width key value
      rw [executed] at outcome
      by_cases room : tree.nextLeafNodeIndex < capacity w
      · by_cases present : key ∈ entries.map TrieEntry.key
        · simp [room, present] at outcome
        · obtain ⟨inserted, listed, inserts, insertedLists, _⟩ :=
            lists.insert width room present value
          rw [executed, Prod.mk.injEq] at inserts
          exact ⟨listed, inserts.2 ▸ insertedLists⟩
      · simp [room] at outcome
  | removeLeafByIndex index =>
      obtain ⟨_, executed⟩ := Run.succeeded_eq_some_iff.mp stepped
      cases found : tree.leaves[index]? with
      | none =>
          simp [CritbitTree.removeLeafByIndex, Proc.bind_apply, found]
            at executed
      | some leafNode =>
          obtain ⟨removed, remaining, outcome, removedLists, _⟩ :=
            lists.remove width (lists.listed found)
          rw [executed, Prod.mk.injEq] at outcome
          exact ⟨remaining, outcome.2 ▸ removedLists⟩

/-- Every tree that successful operations reach is a sorted list. -/
theorem lists_of_run
    (width : 0 < w)
    (ops : List (TreeOp w V))
    (ran : Run.run TreeOp.step ops new = some tree) :
    ∃ entries, tree.Lists entries := by
  have preserved :
      ∀ (op : TreeOp w V) (state next : CritbitTree w V),
        (∃ entries, state.Lists entries) → op.step state = some next →
          ∃ entries, next.Lists entries := by
    rintro op state next ⟨entries, lists⟩ stepped
    exact op.step_lists width lists stepped
  exact Run.run_invariant preserved ⟨[], lists_new⟩ ran

/--
Every tree that successful insertions and removals reach from the empty tree
satisfies the representation invariant.
-/
theorem representationInvariant_of_run
    (width : 0 < w)
    (ops : List (TreeOp w V))
    (ran : Run.run TreeOp.step ops new = some tree) :
    tree.RepresentationInvariant := by
  obtain ⟨entries, lists⟩ := lists_of_run width ops ran
  exact lists.representationInvariant width

/-- Insertions at both ends of the key range and removals on both sides. -/
theorem representationInvariant_of_short_run :
    ∃ tree : CritbitTree 64 Nat,
      Run.run TreeOp.step
          [.insert 0 0, .insert (BitVec.allOnes 64) 1, .insert 5 2,
            .insert (BitVec.intMin 64) 3, .removeLeafByIndex 1, .insert 4 4,
            .removeLeafByIndex 0]
          new = some tree ∧
        tree.RepresentationInvariant := by
  have succeeds :
      (Run.run TreeOp.step
        [.insert 0 0, .insert (BitVec.allOnes 64) 1, .insert 5 2,
          .insert (BitVec.intMin 64) 3, .removeLeafByIndex 1, .insert 4 4,
          .removeLeafByIndex 0]
        (new : CritbitTree 64 Nat)).isSome = true := by
    decide +kernel
  have ran := (Option.some_get succeeds).symm
  exact ⟨_, ran, representationInvariant_of_run (by decide) _ ran⟩

end Reachable

end HybridOrderbook.CritbitTree
