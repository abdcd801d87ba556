import HybridOrderbook.Critbit.Representation

namespace HybridOrderbook.CritbitTree

open Library Library.Trie

/-!
# Walks through a stored shape

Descents follow the shape from the root, climbs follow its context from the
hole.  Each walk of the tree ends within its fuel and computes what the
corresponding function of the shape computes.
-/

variable {w : Nat} {V : Type}

section Descent

variable {tree : CritbitTree w V} {shape : Shape w V}

/-- A descent reaches the leaf that the same choices reach in the shape. -/
theorem descend_stores
    (width : 0 < w)
    {goLeft : InternalNode w → Bool}
    {choose : Nat → Bool}
    (sameChoice :
      ∀ bit parent left right,
        bit < w →
          goLeft ⟨BitVec.twoPow w bit, parent, left, right⟩ = choose bit)
    {parent : BitVec w}
    (stores : tree.Stores parent shape)
    (ordered : shape.Ordered)
    (distinct : Distinct shape)
    {fuel : Nat}
    (enough : shape.nodeIndices.length < fuel) :
    tree.descend goLeft fuel (pointer shape) =
      .ok (maxIndex w - (shape.follow choose).index) := by
  induction shape generalizing parent fuel with
  | leaf entry =>
      obtain ⟨fuel, rfl⟩ := Nat.exists_eq_succ_of_ne_zero
        (Nat.ne_zero_of_lt enough)
      have above : partitionIndex w < maxIndex w - entry.index :=
        distinct.leaf_pointer width (by simp)
      simp [descend, follow, BitVec.not_lt.mpr (BitVec.le_of_lt above)]
  | node index bit left right leftHypothesis rightHypothesis =>
      obtain ⟨fuel, rfl⟩ := Nat.exists_eq_succ_of_ne_zero
        (Nat.ne_zero_of_lt enough)
      obtain ⟨here, leftStores, rightStores⟩ := stores
      have below : index < partitionIndex w :=
        distinct.node_pointer width (by simp)
      simp only [nodeIndices_node, List.length_cons, List.length_append]
        at enough
      cases ordered with
      | node inRange leftClear rightSet agree leftOrdered rightOrdered =>
          have chosen := sameChoice bit parent (pointer left)
            (pointer right) inRange
          cases side : choose bit with
          | true =>
              have shorter : left.nodeIndices.length < fuel := by omega
              have rest := leftHypothesis leftStores leftOrdered
                distinct.left shorter
              simpa [descend, below, here, chosen, side, follow] using rest
          | false =>
              have shorter : right.nodeIndices.length < fuel := by omega
              have rest := rightHypothesis rightStores rightOrdered
                distinct.right shorter
              simpa [descend, below, here, chosen, side, follow] using rest

/-- A subtree of a stored shape has fewer nodes than the walk has fuel. -/
theorem Holds.enough_fuel
    {context : ShapeContext w V}
    (holds : tree.Holds (plug context shape)) :
    shape.nodeIndices.length + context.length < tree.walkFuel := by
  have sizes : (plug context shape).nodeIndices.length ≤
      tree.internalNodes.size :=
    TreeMap.length_le_size holds.distinct.nodeNodup
      fun index member => holds.stores.node_mem member
  rw [(nodeIndices_plug_perm context shape).length_eq, List.length_append]
    at sizes
  have frames : context.length ≤ (Context.nodeIndices context).length := by
    clear sizes holds
    induction context with
    | nil =>
        simp
    | cons frame outer inductionHypothesis =>
        simp only [Context.nodeIndices, List.length_cons,
          List.length_append]
        omega
  unfold walkFuel
  omega

theorem Holds.storesContext
    {context : ShapeContext w V}
    (holds : tree.Holds (plug context shape)) :
    tree.StoresContext (pointer shape) context ∧
      tree.Stores (holeParent context) shape :=
  stores_plug_iff.mp ⟨holds.root, holds.stores⟩

/-- Descents from any subtree end within the walk's fuel. -/
theorem Holds.descend_subtree
    (width : 0 < w)
    {context : ShapeContext w V}
    (holds : tree.Holds (plug context shape))
    {goLeft : InternalNode w → Bool}
    {choose : Nat → Bool}
    (sameChoice :
      ∀ bit parent left right,
        bit < w →
          goLeft ⟨BitVec.twoPow w bit, parent, left, right⟩ = choose bit) :
    tree.descend goLeft tree.walkFuel (pointer shape) =
      .ok (maxIndex w - (shape.follow choose).index) :=
  descend_stores width sameChoice holds.storesContext.2
    holds.ordered.of_plug holds.distinct.of_plug
    (Nat.lt_of_le_of_lt (Nat.le_add_right _ _) holds.enough_fuel)

theorem Holds.leftMostLeaf_subtree
    (width : 0 < w)
    {context : ShapeContext w V}
    (holds : tree.Holds (plug context shape)) :
    tree.leftMostLeaf (pointer shape) =
      .ok (maxIndex w - (shape.follow fun _ => true).index) :=
  holds.descend_subtree width (fun _ _ _ _ _ => rfl)

theorem Holds.rightMostLeaf_subtree
    (width : 0 < w)
    {context : ShapeContext w V}
    (holds : tree.Holds (plug context shape)) :
    tree.rightMostLeaf (pointer shape) =
      .ok (maxIndex w - (shape.follow fun _ => false).index) := by
  have inside := holds.distinct.of_plug.pointer_ne_partition width
  simp only [rightMostLeaf, inside, ↓reduceIte]
  exact holds.descend_subtree width (fun _ _ _ _ _ => rfl)

/-- The bits of a key lead to the closest leaf of the shape. -/
theorem Holds.getClosestLeafIndex_eq
    (width : 0 < w)
    (holds : tree.Holds shape)
    (key : BitVec w) :
    tree.getClosestLeafIndex key =
      .ok (some (shape.closest key).index) := by
  have plugged : tree.Holds (plug [] shape) := holds
  have sameChoice :
      ∀ (bit : Nat) (parent left right : BitVec w),
        bit < w →
          (BitVec.twoPow w bit &&& key == 0) = !key.getLsbD bit :=
    fun _ _ _ _ inRange => twoPow_and_beq_zero inRange key
  have reached :
      tree.descend (fun node => node.mask &&& key == 0)
          tree.walkFuel (pointer shape) =
        .ok (maxIndex w - (shape.closest key).index) :=
    plugged.descend_subtree width sameChoice
  simp only [getClosestLeafIndex, holds.root_ne_partition width,
    ↓reduceIte]
  rw [holds.root, reached]
  simp [bind, Except.bind, pure, Except.pure]

/-- Looking up a key finds it exactly when the closest leaf carries it. -/
theorem Holds.findLeaf_eq
    (width : 0 < w)
    (holds : tree.Holds shape)
    (key : BitVec w) :
    tree.findLeaf key =
      .ok (if (shape.closest key).key = key then
        some (shape.closest key).index
      else
        none) := by
  obtain ⟨leafParent, stored⟩ :=
    holds.stores.leaf (closest_mem key shape)
  by_cases same : (shape.closest key).key = key <;>
    simp [findLeaf, holds.getClosestLeafIndex_eq width, bind, Except.bind,
      pure, Except.pure, okOr, stored, same]

theorem Holds.findLeaf_of_mem
    (width : 0 < w)
    (holds : tree.Holds shape)
    {entry : TrieEntry (BitVec w) w V}
    (stored : entry ∈ shape.entries) :
    tree.findLeaf entry.key = .ok (some entry.index) := by
  have found : shape.closest entry.key = entry :=
    holds.ordered.closest_eq stored
  rw [holds.findLeaf_eq width, found]
  simp

theorem Holds.findLeaf_of_not_mem
    (width : 0 < w)
    (holds : tree.Holds shape)
    {key : BitVec w}
    (absent : key ∉ shape.keys) :
    tree.findLeaf key = .ok none := by
  have different : (shape.closest key).key ≠ key := by
    intro same
    exact absent (same ▸ List.mem_map_of_mem (closest_mem key shape))
  rw [holds.findLeaf_eq width]
  simp [different]

end Descent

section Climb

variable {tree : CritbitTree w V}

/-- What the maps hold for one frame above the hole. -/
theorem StoresContext.frame
    {hole : BitVec w}
    {context : ShapeContext w V}
    (stores : tree.StoresContext hole context)
    {frame : Frame (BitVec w) w V}
    (above : frame ∈ context) :
    ∃ node,
      tree.internalNodes[frame.index]? = some node ∧
        (if frame.holeLeft then node.right else node.left) =
          pointer frame.sibling ∧
        tree.Stores frame.index frame.sibling := by
  induction context generalizing hole with
  | nil =>
      simp at above
  | cons inner outer inductionHypothesis =>
      obtain ⟨here, siblingStores, outerStores⟩ := stores
      rcases List.mem_cons.mp above with isInner | further
      · subst isInner
        refine ⟨_, here, ?_, siblingStores⟩
        cases frame.holeLeft <;> simp
      · exact inductionHypothesis outerStores further

/-- The parent of a hole tells on which side the hole is. -/
theorem StoresContext.isLeftChild
    (width : 0 < w)
    {shape : Shape w V}
    {frame : Frame (BitVec w) w V}
    {outer : ShapeContext w V}
    (stores : tree.StoresContext (pointer shape) (frame :: outer))
    (distinct : Distinct (frame.fill shape)) :
    tree.isLeftChild frame.index (pointer shape) = frame.holeLeft := by
  obtain ⟨here, _, _⟩ := stores
  have different := distinct.pointer_ne_sibling width
  cases side : frame.holeLeft <;>
    simp [CritbitTree.isLeftChild, here, side, different.symm]

/-- A climb stops below the first frame whose hole is on the other side. -/
theorem climb_context
    (width : 0 < w)
    (fromLeft : Bool)
    {shape : Shape w V}
    {context : ShapeContext w V}
    (stores : tree.StoresContext (pointer shape) context)
    (distinct : Distinct (plug context shape))
    {fuel : Nat}
    (enough : context.length < fuel) :
    tree.climb fromLeft fuel (pointer shape) (holeParent context) =
      .ok ((context.find? fun frame => frame.holeLeft != fromLeft).elim
        (partitionIndex w) Frame.index) := by
  induction context generalizing shape fuel with
  | nil =>
      obtain ⟨fuel, rfl⟩ := Nat.exists_eq_succ_of_ne_zero
        (Nat.ne_zero_of_lt enough)
      simp [climb, holeParent]
  | cons frame outer inductionHypothesis =>
      obtain ⟨fuel, rfl⟩ := Nat.exists_eq_succ_of_ne_zero
        (Nat.ne_zero_of_lt enough)
      have filledDistinct := distinct.filled
      have side := stores.isLeftChild width filledDistinct
      have inside : frame.index ≠ partitionIndex w := by
        simpa using filledDistinct.pointer_ne_partition width
      obtain ⟨here, _, outerStores⟩ := stores
      by_cases same : frame.holeLeft = fromLeft
      · have filledStores :
            tree.StoresContext (pointer (frame.fill shape)) outer := by
          rw [pointer_fill]
          exact outerStores
        have rest := inductionHypothesis filledStores distinct
          (Nat.lt_of_succ_lt_succ enough)
        simpa [climb, holeParent, inside, side, same, here] using rest
      · simp [climb, holeParent, inside, side, same]

end Climb

section Neighbours

variable {tree : CritbitTree w V} {context : ShapeContext w V}
  {entry : TrieEntry (BitVec w) w V}

/-- Key and index of a leaf, as the queries of the tree report them. -/
def report (entry : TrieEntry (BitVec w) w V) : BitVec w × BitVec w :=
  (entry.key, entry.index)

/-- Both neighbour queries, in terms of the nearest sibling on one side. -/
theorem Holds.neighbourLeaf_eq
    (width : 0 < w)
    (holds : tree.Holds (plug context (leaf entry)))
    (fromLeft : Bool) :
    tree.neighbourLeaf fromLeft entry.key =
      .ok ((context.find? fun frame => frame.holeLeft != fromLeft).map
        fun frame => report (frame.sibling.follow fun _ => !fromLeft)) := by
  have stored := mem_entries_plug_leaf context entry
  obtain ⟨contextStores, leafStores⟩ := holds.storesContext
  have climbed := climb_context width fromLeft contextStores holds.distinct
    (Nat.lt_of_le_of_lt (Nat.le_add_left _ _) holds.enough_fuel)
  have leafStored :
      tree.leaves[entry.index]? =
        some ⟨holeParent context, entry.key, entry.value⟩ := leafStores
  rw [pointer_leaf] at climbed
  cases found : context.find? fun frame => frame.holeLeft != fromLeft with
  | none =>
      rw [found, Option.elim_none] at climbed
      simp [neighbourLeaf, holds.findLeaf_of_mem width stored, bind,
        Except.bind, okOr, leafStored, climbed, pure, Except.pure]
  | some frame =>
      rw [found, Option.elim_some] at climbed
      have above : frame ∈ context := List.mem_of_find?_eq_some found
      have otherSide : frame.holeLeft ≠ fromLeft := by
        simpa using List.find?_some found
      obtain ⟨node, nodeStored, child, siblingStores⟩ :=
        contextStores.frame above
      obtain ⟨outer, inner, plugged⟩ := exists_fill_of_mem above (leaf entry)
      have siblingHolds :
          tree.Holds (plug (frame.flip inner :: outer) frame.sibling) := by
        rw [plug_cons, frame.fill_flip, ← plugged]
        exact holds
      have inside : frame.index ≠ partitionIndex w := by
        have filled : Distinct (frame.fill inner) :=
          (plugged ▸ holds.distinct).of_plug
        simpa using filled.pointer_ne_partition width
      obtain ⟨siblingParent, siblingLeaf⟩ :=
        siblingStores.leaf (follow_mem (fun _ => !fromLeft) frame.sibling)
      have onPath := holds.findLeaf_of_mem width stored
      have leftMost := siblingHolds.leftMostLeaf_subtree width
      have rightMost := siblingHolds.rightMostLeaf_subtree width
      cases fromLeft <;>
        simp_all [neighbourLeaf, bind, Except.bind, okOr, pure, Except.pure,
          report]

theorem Holds.nextLeaf_eq
    (width : 0 < w)
    (holds : tree.Holds (plug context (leaf entry))) :
    tree.nextLeaf entry.key = .ok (context.after.head?.map report) := by
  have query := holds.neighbourLeaf_eq width false
  simp only [Bool.bne_false] at query
  rw [nextLeaf, query, Context.head?_after, Option.map_map]
  rfl

theorem Holds.previousLeaf_eq
    (width : 0 < w)
    (holds : tree.Holds (plug context (leaf entry))) :
    tree.previousLeaf entry.key =
      .ok (context.before.getLast?.map report) := by
  have query := holds.neighbourLeaf_eq width true
  simp only [Bool.bne_true] at query
  rw [previousLeaf, query, Context.getLast?_before, Option.map_map]
  rfl

end Neighbours

end HybridOrderbook.CritbitTree
