import HybridOrderbook.Critbit.Invariant

namespace HybridOrderbook.CritbitTree

open Library Library.Trie

/-!
# How long walks are

Masks decrease on every way down, so that no way down is longer than a key
has bits, however many leaves the tree has.  The loops of the tree go down
one way, or up one.
-/

variable {w : Nat} {V : Type} {tree : CritbitTree w V} {shape : Shape w V}

/-- A descent ends within the depth of the shape, whatever it chooses. -/
theorem descend_within_depth
    (width : 0 < w)
    (goLeft : InternalNode w → Bool)
    {parent : BitVec w}
    (stores : tree.Stores parent shape)
    (distinct : Distinct shape) :
    ∃ found, ∀ fuel, shape.depth < fuel →
      tree.descend goLeft fuel (pointer shape) = .ok found := by
  induction shape generalizing parent with
  | leaf entry =>
      have above : partitionIndex w < maxIndex w - entry.index :=
        distinct.leaf_pointer width (by simp)
      refine ⟨maxIndex w - entry.index, fun fuel enough => ?_⟩
      obtain ⟨fuel, rfl⟩ := Nat.exists_eq_succ_of_ne_zero
        (Nat.ne_zero_of_lt enough)
      simp [descend, BitVec.not_lt.mpr (BitVec.le_of_lt above)]
  | node index bit left right leftHypothesis rightHypothesis =>
      obtain ⟨here, leftStores, rightStores⟩ := stores
      have below : index < partitionIndex w :=
        distinct.node_pointer width (by simp)
      obtain ⟨leftFound, onLeft⟩ := leftHypothesis leftStores distinct.left
      obtain ⟨rightFound, onRight⟩ :=
        rightHypothesis rightStores distinct.right
      have step (fuel : Nat) :
          tree.descend goLeft (fuel + 1) index =
            tree.descend goLeft fuel
              (if goLeft ⟨BitVec.twoPow w bit, parent, pointer left,
                  pointer right⟩ then pointer left else pointer right) := by
        simp [descend, below, here]
      cases side : goLeft ⟨BitVec.twoPow w bit, parent, pointer left,
          pointer right⟩ with
      | true =>
          refine ⟨leftFound, fun fuel enough => ?_⟩
          simp only [depth] at enough
          obtain ⟨fuel, rfl⟩ := Nat.exists_eq_succ_of_ne_zero
            (Nat.ne_zero_of_lt enough)
          rw [pointer_node, step, side, if_pos rfl]
          exact onLeft fuel (by omega)
      | false =>
          refine ⟨rightFound, fun fuel enough => ?_⟩
          simp only [depth] at enough
          obtain ⟨fuel, rfl⟩ := Nat.exists_eq_succ_of_ne_zero
            (Nat.ne_zero_of_lt enough)
          rw [pointer_node, step, side, if_neg Bool.false_ne_true]
          exact onRight fuel (by omega)

/-- The walk of `insert` follows one way down. -/
theorem insertionPoint_within_depth
    (width : 0 < w)
    (mask key : BitVec w)
    {parent : BitVec w}
    (stores : tree.Stores parent shape)
    (distinct : Distinct shape)
    (above : BitVec w) :
    ∃ found, ∀ fuel, shape.depth < fuel →
      tree.insertionPoint mask key fuel (pointer shape) above =
        .ok found := by
  induction shape generalizing parent above with
  | leaf entry =>
      have outside : partitionIndex w < maxIndex w - entry.index :=
        distinct.leaf_pointer width (by simp)
      refine ⟨(maxIndex w - entry.index, above), fun fuel enough => ?_⟩
      obtain ⟨fuel, rfl⟩ := Nat.exists_eq_succ_of_ne_zero
        (Nat.ne_zero_of_lt enough)
      simp [insertionPoint, BitVec.not_lt.mpr (BitVec.le_of_lt outside)]
  | node index bit left right leftHypothesis rightHypothesis =>
      obtain ⟨here, leftStores, rightStores⟩ := stores
      have below : index < partitionIndex w :=
        distinct.node_pointer width (by simp)
      obtain ⟨leftFound, onLeft⟩ :=
        leftHypothesis leftStores distinct.left index
      obtain ⟨rightFound, onRight⟩ :=
        rightHypothesis rightStores distinct.right index
      have step (fuel : Nat) :
          tree.insertionPoint mask key (fuel + 1) index above =
            if mask > BitVec.twoPow w bit then
              .ok (index, above)
            else
              tree.insertionPoint mask key fuel
                (if BitVec.twoPow w bit &&& key = 0 then pointer left
                  else pointer right) index := by
        simp [insertionPoint, below, here]
      by_cases stops : mask > BitVec.twoPow w bit
      · refine ⟨(index, above), fun fuel enough => ?_⟩
        obtain ⟨fuel, rfl⟩ := Nat.exists_eq_succ_of_ne_zero
          (Nat.ne_zero_of_lt enough)
        rw [pointer_node, step, if_pos stops]
      · by_cases side : BitVec.twoPow w bit &&& key = 0
        · refine ⟨leftFound, fun fuel enough => ?_⟩
          simp only [depth] at enough
          obtain ⟨fuel, rfl⟩ := Nat.exists_eq_succ_of_ne_zero
            (Nat.ne_zero_of_lt enough)
          rw [pointer_node, step, if_neg stops, if_pos side]
          exact onLeft fuel (by omega)
        · refine ⟨rightFound, fun fuel enough => ?_⟩
          simp only [depth] at enough
          obtain ⟨fuel, rfl⟩ := Nat.exists_eq_succ_of_ne_zero
            (Nat.ne_zero_of_lt enough)
          rw [pointer_node, step, if_neg stops, if_neg side]
          exact onRight fuel (by omega)

/-- The walks of a tree end, each within the given number of rounds. -/
structure WalksWithin (tree : CritbitTree w V) (rounds : Nat) : Prop where
  fromRoot :
    ∀ goLeft, ∃ found, ∀ fuel, rounds < fuel →
      tree.descend goLeft fuel tree.root = .ok found
  fromNode :
    ∀ (index : BitVec w) (node : InternalNode w),
      tree.internalNodes[index]? = some node →
      ∀ goLeft, ∃ onLeft onRight, ∀ fuel, rounds < fuel →
        tree.descend goLeft fuel node.left = .ok onLeft ∧
          tree.descend goLeft fuel node.right = .ok onRight
  toInsert :
    ∀ mask key, ∃ found, ∀ fuel, rounds < fuel →
      tree.insertionPoint mask key fuel tree.root (partitionIndex w) =
        .ok found
  fromLeaf :
    ∀ (index : BitVec w) (leaf : LeafNode w V),
      tree.leaves[index]? = some leaf →
      ∀ fromLeft, ∃ found, ∀ fuel, rounds < fuel →
        tree.climb fromLeft fuel (maxIndex w - index) leaf.parent = .ok found

theorem walksWithin_new (rounds : Nat) :
    (new : CritbitTree w V).WalksWithin rounds where
  fromRoot goLeft := by
    refine ⟨partitionIndex w, fun fuel enough => ?_⟩
    obtain ⟨fuel, rfl⟩ := Nat.exists_eq_succ_of_ne_zero
      (Nat.ne_zero_of_lt enough)
    simp [descend, new]
  fromNode index node found := by simp [new] at found
  toInsert mask key := by
    refine ⟨(partitionIndex w, partitionIndex w), fun fuel enough => ?_⟩
    obtain ⟨fuel, rfl⟩ := Nat.exists_eq_succ_of_ne_zero
      (Nat.ne_zero_of_lt enough)
    simp [insertionPoint, new]
  fromLeaf index leaf found := by simp [new] at found

theorem Linked.walksWithin
    (width : 0 < w)
    (linked : tree.Linked shape) : tree.WalksWithin shape.depth where
  fromRoot goLeft := by
    rw [linked.root]
    exact descend_within_depth width goLeft linked.stores linked.distinct
  fromNode index node found goLeft := by
    obtain ⟨context, bit, left, right, rfl, rfl⟩ := linked.node_at found
    obtain ⟨_, _, leftStores, rightStores⟩ := linked.storesContext
    have distinct := linked.distinct.of_plug
    have deep :=
      length_add_depth_le context (.node index bit left right)
    simp only [depth] at deep
    obtain ⟨onLeft, leftEnds⟩ :=
      descend_within_depth width goLeft leftStores distinct.left
    obtain ⟨onRight, rightEnds⟩ :=
      descend_within_depth width goLeft rightStores distinct.right
    refine ⟨onLeft, onRight, fun fuel enough => ?_⟩
    exact ⟨leftEnds fuel (by omega), rightEnds fuel (by omega)⟩
  toInsert mask key := by
    rw [linked.root]
    exact insertionPoint_within_depth width mask key linked.stores
      linked.distinct _
  fromLeaf index leaf found fromLeft := by
    obtain ⟨context, rfl, parent⟩ := linked.leaf_at found
    have deep :=
      length_add_depth_le context (.leaf ⟨index, leaf.key, leaf.value⟩)
    have climbs (fuel : Nat) (enough : context.length < fuel) :=
      climb_context width fromLeft linked.storesContext.1 linked.distinct
        enough
    rw [parent]
    exact ⟨_, fun fuel enough => climbs fuel (by omega)⟩

theorem WalksWithin.mono
    {rounds more : Nat}
    (within : tree.WalksWithin rounds)
    (le : rounds ≤ more) : tree.WalksWithin more where
  fromRoot goLeft := by
    obtain ⟨found, ends⟩ := within.fromRoot goLeft
    exact ⟨found, fun fuel enough => ends fuel (by omega)⟩
  fromNode index node stored goLeft := by
    obtain ⟨onLeft, onRight, ends⟩ :=
      within.fromNode index node stored goLeft
    exact ⟨onLeft, onRight, fun fuel enough => ends fuel (by omega)⟩
  toInsert mask key := by
    obtain ⟨found, ends⟩ := within.toInsert mask key
    exact ⟨found, fun fuel enough => ends fuel (by omega)⟩
  fromLeaf index leaf stored fromLeft := by
    obtain ⟨found, ends⟩ := within.fromLeaf index leaf stored fromLeft
    exact ⟨found, fun fuel enough => ends fuel (by omega)⟩

/--
In every tree that successful insertions and removals reach, no walk takes
more rounds than a key has bits, or the tree has internal nodes.
-/
theorem walksWithin_of_run
    (width : 0 < w)
    (ops : List (TreeOp w V))
    (ran : Run.run TreeOp.step ops new = some tree) :
    tree.WalksWithin (min w tree.internalNodes.size) := by
  obtain ⟨entries, lists⟩ := lists_of_run width ops ran
  rcases lists with ⟨rfl, _⟩ | ⟨shape, represents, _⟩
  · exact walksWithin_new _
  · have linked := represents.toLinked
    have nodes := shape.depth_le_length
    rw [← linked.internalNodes_size] at nodes
    exact (linked.walksWithin width).mono
      (le_min linked.ordered.depth_le nodes)

/-- Of four leaves, the last one is below three nodes. -/
theorem walksWithin_of_run_mock :
    ∃ tree : CritbitTree 64 Nat,
      Run.run TreeOp.step
          [.insert 0 0, .insert (BitVec.allOnes 64) 1, .insert 5 2, .insert 4 3]
          new = some tree ∧
        tree.internalNodes.size = 3 ∧ tree.WalksWithin 3 := by
  have succeeds :
      (Run.run TreeOp.step
          [.insert 0 0, .insert (BitVec.allOnes 64) 1, .insert 5 2, .insert 4 3]
          (new : CritbitTree 64 Nat)).map (·.internalNodes.size) =
        some 3 := by
    decide +kernel
  obtain ⟨tree, ran, size⟩ := Option.map_eq_some_iff.mp succeeds
  have within := walksWithin_of_run (by decide) _ ran
  rw [size] at within
  exact ⟨tree, ran, size, within⟩

end HybridOrderbook.CritbitTree
