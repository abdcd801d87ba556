import HybridOrderbook.Critbit.Splice

namespace HybridOrderbook.CritbitTree

open Library Library.Trie

/-!
# Insertion

A fresh key goes in as long as a leaf index is left.  The tree then spells
out the shape with the new entry, its counters stay in step and its cached
extremes are the new ones.
-/

variable {w : Nat} {V : Type}

section Insert

variable {tree : CritbitTree w V} {shape : Shape w V}

/-- Draw an internal index and store a fresh node under it. -/
def withNode (tree : CritbitTree w V) (bit : Nat) : CritbitTree w V :=
  { tree with
    nextInternalNodeIndex := tree.nextInternalNodeIndex + 1
    internalNodes :=
      tree.internalNodes.insert tree.nextInternalNodeIndex
        (InternalNode.new (BitVec.twoPow w bit)) }

/-- Draw a leaf index and store a fresh leaf under it. -/
def withLeaf
    (tree : CritbitTree w V)
    (key : BitVec w)
    (value : V) : CritbitTree w V :=
  { tree with
    nextLeafNodeIndex := tree.nextLeafNodeIndex + 1
    leaves :=
      tree.leaves.insert tree.nextLeafNodeIndex (LeafNode.new key value) }

/-- Where the walk of `insert` stops. -/
def stoppingPoint
    (bit : Nat)
    (key : BitVec w)
    (shape : Shape w V) : ShapeContext w V × Shape w V :=
  walk (fun other => decide (other < bit)) key [] shape

/-- The tree that `insertInternal` leaves behind. -/
def spliced
    (tree : CritbitTree w V)
    (bit : Nat)
    (entry : TrieEntry (BitVec w) w V)
    (shape : Shape w V) : CritbitTree w V :=
  (tree.withNode bit).splice (stoppingPoint bit entry.key shape).1
    tree.nextInternalNodeIndex entry bit (stoppingPoint bit entry.key shape).2

theorem Holds.congr
    {other : CritbitTree w V}
    (holds : tree.Holds shape)
    (sameRoot : other.root = tree.root)
    (sameNodes :
      ∀ index ∈ shape.nodeIndices,
        other.internalNodes[index]? = tree.internalNodes[index]?)
    (sameLeaves :
      ∀ index ∈ shape.leafIndices,
        other.leaves[index]? = tree.leaves[index]?) :
    other.Holds shape where
  ordered := holds.ordered
  distinct := holds.distinct
  root := sameRoot.trans holds.root
  stores := holds.stores.congr sameNodes sameLeaves

theorem Holds.withNode
    (holds : tree.Holds shape)
    (fresh : tree.nextInternalNodeIndex ∉ tree.internalNodes)
    (bit : Nat) :
    (tree.withNode bit).Holds shape := by
  refine holds.congr rfl ?_ (fun _ _ => rfl)
  intro index member
  have different : tree.nextInternalNodeIndex ≠ index := by
    intro same
    exact fresh (same ▸ holds.stores.node_mem member)
  simp [CritbitTree.withNode, Std.ExtTreeMap.getElem?_insert, different]

theorem plug_stoppingPoint
    (bit : Nat)
    (key : BitVec w)
    (shape : Shape w V) :
    plug (stoppingPoint bit key shape).1 (stoppingPoint bit key shape).2 =
      shape :=
  (walk_spec (fun other => decide (other < bit)) key [] shape).plugged

/-- What has to hold of a fresh leaf for the splice to go through. -/
structure Insertable
    (tree : CritbitTree w V)
    (entry : TrieEntry (BitVec w) w V)
    (shape : Shape w V) : Prop where
  holds : tree.Holds shape
  leafStored :
    tree.leaves[entry.index]? = some (LeafNode.new entry.key entry.value)
  leafFresh : entry.index ∉ shape.leafIndices
  nodeFresh : tree.nextInternalNodeIndex ∉ tree.internalNodes
  nodeRange : tree.nextInternalNodeIndex < capacity w
  leafRange : entry.index < capacity w
  keyFresh : entry.key ∉ shape.keys

theorem Insertable.different
    {entry : TrieEntry (BitVec w) w V}
    (insertable : tree.Insertable entry shape) :
    (shape.closest entry.key).key ≠ entry.key := by
  intro same
  exact insertable.keyFresh
    (same ▸ List.mem_map_of_mem (closest_mem entry.key shape))

theorem Insertable.fresh
    {entry : TrieEntry (BitVec w) w V}
    (insertable : tree.Insertable entry shape)
    (bit : Nat) :
    FreshSplice (stoppingPoint bit entry.key shape).1
      (stoppingPoint bit entry.key shape).2 entry
      tree.nextInternalNodeIndex := by
  have plugged := plug_stoppingPoint bit entry.key shape
  refine ⟨plugged.symm ▸ insertable.holds.distinct, ?_,
    plugged.symm ▸ insertable.leafFresh, insertable.nodeRange,
    insertable.leafRange⟩
  rw [plugged]
  exact fun member =>
    insertable.nodeFresh (insertable.holds.stores.node_mem member)

theorem Insertable.storesContext
    {entry : TrieEntry (BitVec w) w V}
    (insertable : tree.Insertable entry shape)
    (bit : Nat) :
    (tree.withNode bit).StoresContext
        (pointer (stoppingPoint bit entry.key shape).2)
        (stoppingPoint bit entry.key shape).1 ∧
      (tree.withNode bit).Stores
        (holeParent (stoppingPoint bit entry.key shape).1)
        (stoppingPoint bit entry.key shape).2 := by
  have grown := insertable.holds.withNode insertable.nodeFresh bit
  have plugged := plug_stoppingPoint bit entry.key shape
  exact (plugged.symm ▸ grown).storesContext

/-- The next leaf index, while there is room for it. -/
theorem nextIndex_leaf
    (room : tree.nextLeafNodeIndex < capacity w) :
    (nextIndex .leaf : TreeProc w V (BitVec w)) tree =
      (.ok tree.nextLeafNodeIndex,
        { tree with nextLeafNodeIndex := tree.nextLeafNodeIndex + 1 }) := by
  have fits : tree.nextLeafNodeIndex + 1 ≤ capacity w := succ_le_of_lt room
  simp only [nextIndex, Proc.bind_apply, Proc.get_apply, Proc.put_apply,
    fits, ↓reduceIte, Proc.pure_apply]

/-- The next index of an internal node, while there is room for it. -/
theorem nextIndex_internal
    (width : 0 < w)
    (room : tree.nextInternalNodeIndex < capacity w) :
    (nextIndex .internal : TreeProc w V (BitVec w)) tree =
      (.ok tree.nextInternalNodeIndex,
        { tree with
          nextInternalNodeIndex := tree.nextInternalNodeIndex + 1 }) := by
  have notLast : tree.nextInternalNodeIndex ≠ maxIndex w := by
    intro same
    rw [same, BitVec.lt_def, toNat_maxIndex, toNat_capacity width] at room
    have half := two_pow_pred_mul_two width
    omega
  simp [nextIndex, Proc.bind_apply, notLast]

theorem insertInternal_eq
    (width : 0 < w)
    {entry : TrieEntry (BitVec w) w V}
    (insertable : tree.Insertable entry shape)
    {bit : Nat}
    (inRange : bit < w) :
    insertInternal entry.key entry.index (BitVec.twoPow w bit) tree =
      (.ok (), (tree.spliced bit entry shape).updateMinMaxLeaf
        entry.index entry.key) := by
  have grown := insertable.holds.withNode insertable.nodeFresh bit
  have fresh := insertable.fresh bit
  obtain ⟨contextStores, subtreeStores⟩ := insertable.storesContext bit
  have walked := insertionPoint_eq width
    (show (tree.withNode bit).Stores (holeParent ([] : ShapeContext w V))
      shape from grown.stores)
    grown.ordered grown.distinct inRange entry.key
    (Nat.lt_of_le_of_lt (Nat.le_add_right _ _)
      (Holds.enough_fuel (show (tree.withNode bit).Holds (plug [] shape)
        from grown)))
  change _ = Except.ok (pointer (stoppingPoint bit entry.key shape).2,
    holeParent (stoppingPoint bit entry.key shape).1) at walked
  unfold spliced splice
  rcases stops : stoppingPoint bit entry.key shape with ⟨context, subtree⟩
  simp only [stops] at fresh contextStores subtreeStores walked ⊢
  have nodeStored :
      (tree.withNode bit).internalNodes[tree.nextInternalNodeIndex]? =
        some (InternalNode.new (BitVec.twoPow w bit)) := by
    simp [withNode]
  have hung := hangNode_eq width fresh contextStores nodeStored
  have parts := SpliceParts.hung width fresh contextStores subtreeStores
    insertable.leafStored nodeStored
  obtain ⟨hungTree, hungShape⟩ :
      ∃ hungTree, hungTree =
        ((tree.withNode bit).redirect tree.nextInternalNodeIndex
          context).setParent tree.nextInternalNodeIndex
            (holeParent context) := ⟨_, rfl⟩
  rw [← hungShape] at hung parts ⊢
  have side : (entry.key &&& BitVec.twoPow w bit == 0) =
      !entry.key.getLsbD bit := by
    rw [BitVec.and_comm]
    exact twoPow_and_beq_zero inRange entry.key
  obtain ⟨leafAdopted, subtreeAdopted⟩ := adopt_eq width fresh
    (TreeMap.mem_of_getElem? parts.node) (TreeMap.mem_of_getElem? parts.leaf)
    (parts.subtree.present width fresh.old.of_plug) (!entry.key.getLsbD bit)
  rw [Bool.not_not] at subtreeAdopted
  have written :
      setInternal
          { tree with
            nextInternalNodeIndex := tree.nextInternalNodeIndex + 1 }
          tree.nextInternalNodeIndex
          (InternalNode.new (BitVec.twoPow w bit)) =
        tree.withNode bit := rfl
  unfold insertInternal
  rw [Proc.bind_ok (nextIndex_internal width insertable.nodeRange)]
  simp only [Proc.bind_apply, Proc.get_apply, Proc.put_apply,
    insertable.nodeFresh, ↓reduceIte, Proc.read_apply, written, grown.root]
  rw [holeParent] at walked
  simp only [walked, hung, side, leafAdopted, subtreeAdopted,
    Proc.modify_apply, Bool.not_not]

/-- The shape after inserting an entry below a new internal node. -/
def insertedShape
    (index : BitVec w)
    (entry : TrieEntry (BitVec w) w V)
    (shape : Shape w V) : Shape w V :=
  let bit := criticalBit entry.key (shape.closest entry.key).key
  plug (stoppingPoint bit entry.key shape).1
    (join index bit entry (stoppingPoint bit entry.key shape).2)

theorem entries_insertedShape_perm
    (index : BitVec w)
    (entry : TrieEntry (BitVec w) w V)
    (shape : Shape w V) :
    (insertedShape index entry shape).entries.Perm
      (entry :: shape.entries) := by
  obtain ⟨bit, bitShape⟩ :
      ∃ bit, bit = criticalBit entry.key (shape.closest entry.key).key :=
    ⟨_, rfl⟩
  have unplugged := congrArg entries (plug_stoppingPoint bit entry.key shape)
  simp only [insertedShape, ← bitShape, entries_plug] at unplugged ⊢
  rw [← unplugged]
  refine (((entries_join_perm index bit entry _).append_right _).append_left
    _).trans ?_
  rw [List.cons_append]
  exact List.perm_middle

theorem nodeIndices_insertedShape_perm
    (index : BitVec w)
    (entry : TrieEntry (BitVec w) w V)
    (shape : Shape w V) :
    (insertedShape index entry shape).nodeIndices.Perm
      (index :: shape.nodeIndices) := by
  obtain ⟨bit, bitShape⟩ :
      ∃ bit, bit = criticalBit entry.key (shape.closest entry.key).key :=
    ⟨_, rfl⟩
  have unplugged := plug_stoppingPoint bit entry.key shape
  simp only [insertedShape, ← bitShape]
  refine (nodeIndices_plug_perm _ _).trans ?_
  rw [nodeIndices_join, List.cons_append]
  refine List.Perm.cons _ ?_
  have old := nodeIndices_plug_perm (stoppingPoint bit entry.key shape).1
    (stoppingPoint bit entry.key shape).2
  rw [unplugged] at old
  exact old.symm

theorem Insertable.spliced_holds
    (width : 0 < w)
    {entry : TrieEntry (BitVec w) w V}
    (insertable : tree.Insertable entry shape) :
    (tree.spliced (criticalBit entry.key (shape.closest entry.key).key)
      entry shape).Holds
        (insertedShape tree.nextInternalNodeIndex entry shape) := by
  have ordered := insertable.holds.ordered.insert insertable.different
    tree.nextInternalNodeIndex
  obtain ⟨bit, bitShape⟩ :
      ∃ bit, bit = criticalBit entry.key (shape.closest entry.key).key :=
    ⟨_, rfl⟩
  simp only [insertedShape, ← bitShape] at ordered ⊢
  obtain ⟨contextStores, subtreeStores⟩ := insertable.storesContext bit
  exact splice_holds width (insertable.fresh bit) contextStores
    subtreeStores insertable.leafStored (by simp [withNode]) ordered

theorem header_spliced
    (bit : Nat)
    (entry : TrieEntry (BitVec w) w V) :
    (tree.spliced bit entry shape).header = (tree.withNode bit).header := by
  simp [spliced, splice]

theorem mem_spliced
    {bit : Nat}
    {entry : TrieEntry (BitVec w) w V}
    {index : BitVec w} :
    index ∈ (tree.spliced bit entry shape).internalNodes ↔
      index = tree.nextInternalNodeIndex ∨ index ∈ tree.internalNodes := by
  simp only [spliced, splice, mem_attach, mem_setParent, mem_redirect,
    withNode, Std.ExtTreeMap.mem_insert, Std.LawfulEqCmp.compare_eq_iff_eq]
  rw [eq_comm]

theorem mem_leaves_spliced
    {bit : Nat}
    {entry : TrieEntry (BitVec w) w V}
    {index : BitVec w} :
    index ∈ (tree.spliced bit entry shape).leaves ↔ index ∈ tree.leaves := by
  simp [spliced, splice, withNode]

/-- The next leaf index is not in use. -/
theorem Represents.nextLeaf_fresh
    (represents : tree.Represents shape) :
    tree.nextLeafNodeIndex ∉ shape.leafIndices := by
  intro member
  exact BitVec.lt_irrefl _ (represents.leafBound _ member)

theorem Represents.nextLeaf_not_stored
    (represents : tree.Represents shape) :
    tree.nextLeafNodeIndex ∉ tree.leaves := by
  intro member
  exact represents.nextLeaf_fresh (represents.leafDomain _ member)

/-- A new leaf that nothing points to leaves the shape as it is. -/
theorem Represents.holds_withLeaf
    (represents : tree.Represents shape)
    (key : BitVec w)
    (value : V) :
    (tree.withLeaf key value).Holds shape := by
  refine represents.toHolds.congr rfl (fun _ _ => rfl) ?_
  intro index member
  have different : tree.nextLeafNodeIndex ≠ index := by
    intro same
    exact represents.nextLeaf_fresh (same ▸ member)
  simp [withLeaf, Std.ExtTreeMap.getElem?_insert, different]

/-- Storing a fresh leaf makes a represented tree ready for the splice. -/
theorem Represents.insertable
    (represents : tree.Represents shape)
    (room : tree.nextLeafNodeIndex < capacity w)
    {key : BitVec w}
    (keyFresh : key ∉ shape.keys)
    (value : V) :
    (tree.withLeaf key value).Insertable
      ⟨tree.nextLeafNodeIndex, key, value⟩ shape := by
  have nodeFresh : tree.nextInternalNodeIndex ∉ tree.internalNodes := by
    intro member
    exact BitVec.lt_irrefl _
      (represents.nodeBound _ (represents.nodeDomain _ member))
  have nodeRoom : tree.nextInternalNodeIndex < capacity w := by
    have counters := represents.counters
    rw [BitVec.lt_def] at room ⊢
    omega
  exact ⟨represents.holds_withLeaf key value, by simp [withLeaf],
    represents.nextLeaf_fresh, nodeFresh, nodeRoom, room, keyFresh⟩

/-- The tree that a successful insertion leaves behind. -/
def inserted
    (tree : CritbitTree w V)
    (key : BitVec w)
    (value : V)
    (shape : Shape w V) : CritbitTree w V :=
  ((tree.withLeaf key value).spliced
    (criticalBit key (shape.closest key).key)
    ⟨tree.nextLeafNodeIndex, key, value⟩ shape).updateMinMaxLeaf
      tree.nextLeafNodeIndex key

theorem Represents.insert_eq
    (width : 0 < w)
    (represents : tree.Represents shape)
    (room : tree.nextLeafNodeIndex < capacity w)
    {key : BitVec w}
    (keyFresh : key ∉ shape.keys)
    (value : V) :
    insert key value tree = (.ok (), tree.inserted key value shape) := by
  have insertable := represents.insertable room keyFresh value
  have different := insertable.different
  obtain ⟨closestParent, closestStored⟩ :=
    insertable.holds.stores.leaf (closest_mem key shape)
  have notStored := represents.nextLeaf_not_stored
  have written :
      setLeaf { tree with nextLeafNodeIndex := tree.nextLeafNodeIndex + 1 }
          tree.nextLeafNodeIndex (LeafNode.new key value) =
        tree.withLeaf key value := rfl
  have splicing := insertInternal_eq width insertable
    (criticalBit_lt different.symm)
  unfold insert
  rw [Proc.bind_ok (nextIndex_leaf room)]
  simp only [Proc.bind_apply, Proc.get_apply, Proc.put_apply, notStored,
    ↓reduceIte, Proc.read_apply, written,
    insertable.holds.getClosestLeafIndex_eq width, closestStored,
    Proc.okOr_some, different, newMask_eq different.symm]
  exact splicing

theorem mem_entries_insertedShape
    {index : BitVec w}
    {entry other : TrieEntry (BitVec w) w V} :
    other ∈ (insertedShape index entry shape).entries ↔
      other = entry ∨ other ∈ shape.entries := by
  rw [(entries_insertedShape_perm index entry shape).mem_iff, List.mem_cons]

theorem mem_leafIndices_insertedShape
    {index other : BitVec w}
    {entry : TrieEntry (BitVec w) w V} :
    other ∈ (insertedShape index entry shape).leafIndices ↔
      other = entry.index ∨ other ∈ shape.leafIndices := by
  rw [leafIndices, ((entries_insertedShape_perm index entry shape).map
    TrieEntry.index).mem_iff, List.map_cons, List.mem_cons]
  rfl

/-- The refreshed minimum is the index of the new first entry. -/
theorem first_insertedShape
    {index : BitVec w}
    {entry : TrieEntry (BitVec w) w V}
    (ordered : shape.Ordered)
    (insertedOrdered : (insertedShape index entry shape).Ordered) :
    (insertedShape index entry shape).first =
      if entry.key < shape.first.key then entry else shape.first := by
  have firstStored : shape.first ∈ shape.entries := follow_mem _ shape
  by_cases smaller : entry.key < shape.first.key
  · simp only [smaller, ↓reduceIte]
    refine insertedOrdered.first_eq
      (mem_entries_insertedShape.mpr (.inl rfl)) fun other member => ?_
    rcases mem_entries_insertedShape.mp member with isNew | isOld
    · rw [isNew]
      exact BitVec.le_refl _
    · exact BitVec.le_trans (BitVec.le_of_lt smaller)
        (ordered.first_le isOld)
  · simp only [smaller, ↓reduceIte]
    refine insertedOrdered.first_eq
      (mem_entries_insertedShape.mpr (.inr firstStored))
      fun other member => ?_
    rcases mem_entries_insertedShape.mp member with isNew | isOld
    · rw [isNew]
      exact BitVec.not_lt.mp smaller
    · exact ordered.first_le isOld

/-- The refreshed maximum is the index of the new last entry. -/
theorem last_insertedShape
    {index : BitVec w}
    {entry : TrieEntry (BitVec w) w V}
    (ordered : shape.Ordered)
    (insertedOrdered : (insertedShape index entry shape).Ordered) :
    (insertedShape index entry shape).last =
      if shape.last.key < entry.key then entry else shape.last := by
  have lastStored : shape.last ∈ shape.entries := follow_mem _ shape
  by_cases larger : shape.last.key < entry.key
  · simp only [larger, ↓reduceIte]
    refine insertedOrdered.last_eq
      (mem_entries_insertedShape.mpr (.inl rfl)) fun other member => ?_
    rcases mem_entries_insertedShape.mp member with isNew | isOld
    · rw [isNew]
      exact BitVec.le_refl _
    · exact BitVec.le_trans (ordered.le_last isOld)
        (BitVec.le_of_lt larger)
  · simp only [larger, ↓reduceIte]
    refine insertedOrdered.last_eq
      (mem_entries_insertedShape.mpr (.inr lastStored))
      fun other member => ?_
    rcases mem_entries_insertedShape.mp member with isNew | isOld
    · rw [isNew]
      exact BitVec.not_lt.mp larger
    · exact ordered.le_last isOld

/-- A successful insertion leaves a represented tree. -/
theorem Represents.inserted_represents
    (width : 0 < w)
    (represents : tree.Represents shape)
    (room : tree.nextLeafNodeIndex < capacity w)
    {key : BitVec w}
    (keyFresh : key ∉ shape.keys)
    (value : V) :
    (tree.inserted key value shape).Represents
      (insertedShape tree.nextInternalNodeIndex
        ⟨tree.nextLeafNodeIndex, key, value⟩ shape) := by
  have insertable := represents.insertable room keyFresh value
  have nodeRoom : tree.nextInternalNodeIndex < capacity w :=
    insertable.nodeRange
  obtain ⟨result, resultShape⟩ :
      ∃ result, result = (tree.withLeaf key value).spliced
        (criticalBit key (shape.closest key).key)
        ⟨tree.nextLeafNodeIndex, key, value⟩ shape := ⟨_, rfl⟩
  have splicedHolds :
      result.Holds (insertedShape tree.nextInternalNodeIndex
        ⟨tree.nextLeafNodeIndex, key, value⟩ shape) := by
    rw [resultShape]
    exact insertable.spliced_holds width
  have header : result.header =
      (tree.minLeafIndex, tree.maxLeafIndex, tree.nextInternalNodeIndex + 1,
        tree.nextLeafNodeIndex + 1) := by
    rw [resultShape, header_spliced]
    rfl
  obtain ⟨sameMin, sameMax, nextNode, nextLeaf⟩ :
      result.minLeafIndex = tree.minLeafIndex ∧
        result.maxLeafIndex = tree.maxLeafIndex ∧
        result.nextInternalNodeIndex = tree.nextInternalNodeIndex + 1 ∧
        result.nextLeafNodeIndex = tree.nextLeafNodeIndex + 1 := by
    simpa [CritbitTree.header] using header
  have nextNodeNat := toNat_succ_of_lt nodeRoom
  have nextLeafNat := toNat_succ_of_lt room
  have cached :
      ∀ old ∈ shape.entries, ∃ oldParent,
        result.leaves[old.index]? = some ⟨oldParent, old.key, old.value⟩ :=
    fun old member =>
      splicedHolds.stores.leaf (mem_entries_insertedShape.mpr (.inr member))
  have unfolded : tree.inserted key value shape =
      result.updateMinMaxLeaf tree.nextLeafNodeIndex key := by
    rw [resultShape, inserted]
  rw [unfolded]
  refine ⟨⟨splicedHolds.congr rfl (fun _ _ => rfl) (fun _ _ => rfl),
    ?_, ?_⟩, ?_, ?_, ?_, ?_, ?_, ?_⟩
  · intro index member
    have stored : index ∈ result.leaves := member
    rw [resultShape, mem_leaves_spliced] at stored
    rw [mem_leafIndices_insertedShape]
    simp only [withLeaf, Std.ExtTreeMap.mem_insert,
      Std.LawfulEqCmp.compare_eq_iff_eq] at stored
    exact stored.imp Eq.symm (represents.leafDomain index)
  · intro index member
    have stored : index ∈ result.internalNodes := member
    rw [resultShape, mem_spliced] at stored
    rw [(nodeIndices_insertedShape_perm _ _ shape).mem_iff, List.mem_cons]
    exact stored.imp_right (represents.nodeDomain index)
  · intro index member
    rw [mem_leafIndices_insertedShape] at member
    change index < result.nextLeafNodeIndex
    rw [nextLeaf, BitVec.lt_def, nextLeafNat]
    rcases member with isNew | isOld
    · rw [isNew]
      exact Nat.lt_succ_self _
    · exact Nat.lt_succ_of_lt (represents.leafBound index isOld)
  · intro index member
    rw [(nodeIndices_insertedShape_perm _ _ shape).mem_iff, List.mem_cons]
      at member
    change index < result.nextInternalNodeIndex
    rw [nextNode, BitVec.lt_def, nextNodeNat]
    rcases member with isNew | isOld
    · rw [isNew]
      exact Nat.lt_succ_self _
    · exact Nat.lt_succ_of_lt (represents.nodeBound index isOld)
  · change result.nextInternalNodeIndex.toNat + 1 =
      result.nextLeafNodeIndex.toNat
    have counters := represents.counters
    rw [nextNode, nextLeaf, nextLeafNat, nextNodeNat]
    omega
  · change result.nextLeafNodeIndex ≤ capacity w
    rw [nextLeaf]
    exact succ_le_of_lt room
  · obtain ⟨oldParent, stored⟩ := cached shape.first (follow_mem _ shape)
    rw [first_insertedShape represents.ordered splicedHolds.ordered]
    simp only [updateMinMaxLeaf, refreshCache, sameMin, represents.minCached,
      stored, gt_iff_lt, decide_eq_true_eq]
    split <;> rfl
  · obtain ⟨oldParent, stored⟩ := cached shape.last (follow_mem _ shape)
    rw [last_insertedShape represents.ordered splicedHolds.ordered]
    simp only [updateMinMaxLeaf, refreshCache, sameMax, represents.maxCached,
      stored, decide_eq_true_eq]
    split <;> rfl

end Insert

end HybridOrderbook.CritbitTree
