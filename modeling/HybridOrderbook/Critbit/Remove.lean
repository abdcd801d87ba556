import HybridOrderbook.Critbit.Insert

namespace HybridOrderbook.CritbitTree

open Library Library.Trie

/-!
# Removal

Removing a leaf that is not the only one puts its sibling in the place of
their parent.  The cached extremes move to the neighbours that the
successor and predecessor walks find.
-/

variable {w : Nat} {V : Type}

section Unlink

variable {tree : CritbitTree w V} {frame : Frame (BitVec w) w V}
  {outer : ShapeContext w V} {entry : TrieEntry (BitVec w) w V}

theorem leafIndices_remove_perm
    (frame : Frame (BitVec w) w V)
    (outer : ShapeContext w V)
    (entry : TrieEntry (BitVec w) w V) :
    (plug (frame :: outer) (leaf entry)).leafIndices.Perm
      (entry.index :: (plug outer frame.sibling).leafIndices) :=
  (entries_plug_leaf_perm frame outer entry).map TrieEntry.index

/-- Removing a leaf and its parent leaves distinct nodes. -/
theorem Distinct.remove
    (distinct : Distinct (plug (frame :: outer) (leaf entry))) :
    Distinct (plug outer frame.sibling) where
  leafNodup :=
    ((leafIndices_remove_perm frame outer entry).nodup_iff.mp
      distinct.leafNodup).of_cons
  nodeNodup :=
    ((nodeIndices_plug_leaf_perm frame outer entry).nodup_iff.mp
      distinct.nodeNodup).of_cons
  leafRange index member :=
    distinct.leafRange index
      ((leafIndices_remove_perm frame outer entry).mem_iff.mpr
        (List.mem_cons_of_mem _ member))
  nodeRange index member :=
    distinct.nodeRange index
      ((nodeIndices_plug_leaf_perm frame outer entry).mem_iff.mpr
        (List.mem_cons_of_mem _ member))

theorem Distinct.removed_not_mem
    (distinct : Distinct (plug (frame :: outer) (leaf entry))) :
    entry.index ∉ (plug outer frame.sibling).leafIndices ∧
      frame.index ∉ (plug outer frame.sibling).nodeIndices :=
  ⟨(List.nodup_cons.mp ((leafIndices_remove_perm frame outer
      entry).nodup_iff.mp distinct.leafNodup)).1,
    (List.nodup_cons.mp ((nodeIndices_plug_leaf_perm frame outer
      entry).nodup_iff.mp distinct.nodeNodup)).1⟩

theorem promoteSibling_eq
    (width : 0 < w)
    {link : BitVec w}
    {sibling parent : Shape w V}
    (contextStores : tree.StoresContext (pointer parent) outer)
    (siblingStores : tree.Stores link sibling)
    (parentDistinct : Distinct (plug outer parent))
    (siblingDistinct : Distinct sibling) :
    promoteSibling (pointer sibling) (pointer parent) (holeParent outer)
        tree =
      (.ok (), (tree.redirect (pointer sibling) outer).setParent
        (pointer sibling) (holeParent outer)) := by
  cases outer with
  | nil =>
      cases sibling with
      | leaf held =>
          have above : partitionIndex w < maxIndex w - held.index :=
            siblingDistinct.leaf_pointer width (by simp)
          have notBelow := BitVec.not_lt.mpr (BitVec.le_of_lt above)
          have stored : tree.leaves[held.index]? =
              some ⟨link, held.key, held.value⟩ := siblingStores
          simp [promoteSibling, Proc.bind_apply, holeParent, notBelow, above,
            stored, redirect, setParent, setLeaf,
            ← TreeMap.insert_eq_modify stored]
      | node index bit left right =>
          have below : index < partitionIndex w :=
            siblingDistinct.node_pointer width (by simp)
          have notAbove := BitVec.not_lt.mpr (BitVec.le_of_lt below)
          have stored := siblingStores.1
          simp [promoteSibling, Proc.bind_apply, holeParent, notAbove, below,
            stored, redirect, setParent, setInternal,
            ← TreeMap.insert_eq_modify stored]
  | cons grandFrame further =>
      have filledDistinct := parentDistinct.filled
      have inside : grandFrame.index ≠ partitionIndex w := by
        simpa using filledDistinct.pointer_ne_partition width
      simp only [promoteSibling, Proc.bind_apply, Proc.get_apply, holeParent,
        inside, ↓reduceIte, contextStores.isLeftChild width filledDistinct]
      rw [updateRef_eq (TreeMap.mem_of_getElem? contextStores.1)
        (siblingStores.present width siblingDistinct)]
      rfl

/-- The tree after the leaf's parent has been spliced out. -/
def unlinked
    (tree : CritbitTree w V)
    (frame : Frame (BitVec w) w V)
    (outer : ShapeContext w V) : CritbitTree w V :=
  let promoted :=
    (tree.redirect (pointer frame.sibling) outer).setParent
      (pointer frame.sibling) (holeParent outer)
  { promoted with internalNodes := promoted.internalNodes.erase frame.index }

theorem unlinkParent_eq
    (width : 0 < w)
    (contextStores :
      tree.StoresContext (maxIndex w - entry.index) (frame :: outer))
    (distinct : Distinct (plug (frame :: outer) (leaf entry))) :
    unlinkParent entry.index frame.index tree =
      (.ok (), tree.unlinked frame outer) := by
  have filledDistinct := distinct.filled
  have holeStores :
      tree.StoresContext (pointer (leaf entry)) (frame :: outer) :=
    contextStores
  have side := holeStores.isLeftChild width filledDistinct
  obtain ⟨here, siblingStores, outerStores⟩ := holeStores
  rw [pointer_leaf] at side
  have parentStores :
      tree.StoresContext (pointer (frame.fill (leaf entry))) outer := by
    rw [pointer_fill]
    exact outerStores
  have promoted := promoteSibling_eq width parentStores siblingStores
    distinct filledDistinct.sibling
  rw [pointer_fill] at promoted
  have siblingPointer :
      (if frame.holeLeft then
        (if frame.holeLeft then pointer frame.sibling
          else maxIndex w - entry.index)
      else
        (if frame.holeLeft then maxIndex w - entry.index
          else pointer frame.sibling)) = pointer frame.sibling := by
    cases frame.holeLeft <;> rfl
  simp only [unlinkParent, Proc.bind_apply, Proc.get_apply, here,
    Proc.okOr_some, side, pointer_leaf, siblingPointer, promoted,
    Proc.modify_apply, unlinked]

/-- Splicing the parent out leaves the shape without the leaf. -/
theorem unlinked_holds
    (width : 0 < w)
    {hole : BitVec w}
    (contextStores : tree.StoresContext hole (frame :: outer))
    (ordered : (plug (frame :: outer) (leaf entry)).Ordered)
    (distinct : Distinct (plug (frame :: outer) (leaf entry))) :
    (tree.unlinked frame outer).Holds (plug outer frame.sibling) := by
  obtain ⟨_, siblingStores, outerStores⟩ := contextStores
  have linked := holds_link width outerStores siblingStores
    ordered.remove distinct.remove
  refine linked.congr rfl ?_ (fun _ _ => rfl)
  intro index member
  have different : frame.index ≠ index := by
    intro same
    exact distinct.removed_not_mem.2 (same ▸ member)
  simp [unlinked, Std.ExtTreeMap.getElem?_erase, different]

theorem mem_unlinked {index : BitVec w} :
    index ∈ (tree.unlinked frame outer).internalNodes ↔
      index ≠ frame.index ∧ index ∈ tree.internalNodes := by
  simp only [unlinked, Std.ExtTreeMap.mem_erase, mem_setParent, mem_redirect,
    ne_eq, Std.LawfulEqCmp.compare_eq_iff_eq]
  rw [eq_comm]

theorem mem_leaves_unlinked {index : BitVec w} :
    index ∈ (tree.unlinked frame outer).leaves ↔ index ∈ tree.leaves := by
  simp [unlinked]

theorem header_unlinked :
    (tree.unlinked frame outer).header = tree.header := by
  change ((tree.redirect (pointer frame.sibling) outer).setParent
    (pointer frame.sibling) (holeParent outer)).header = _
  simp

end Unlink

section Retire

variable {tree : CritbitTree w V} {frame : Frame (BitVec w) w V}
  {outer : ShapeContext w V} {entry : TrieEntry (BitVec w) w V}

/-- Stored entries with the same index are the same entry. -/
theorem Distinct.entry_eq_of_index_eq
    {shape : Shape w V}
    (distinct : Distinct shape)
    {first second : TrieEntry (BitVec w) w V}
    (firstStored : first ∈ shape.entries)
    (secondStored : second ∈ shape.entries)
    (sameIndex : first.index = second.index) :
    first = second :=
  List.inj_on_of_nodup_map distinct.leafNodup firstStored secondStored
    sameIndex

/-- Retiring the cached minimum points it at the remaining first entry. -/
theorem retireMin_eq
    (width : 0 < w)
    (holds : tree.Holds (plug (frame :: outer) (leaf entry)))
    (minCached :
      tree.minLeafIndex = (plug (frame :: outer) (leaf entry)).first.index) :
    retireMin entry.index entry.key tree =
      (.ok false, { tree with
        minLeafIndex := (plug outer frame.sibling).first.index }) := by
  have oldFirst := head?_entries (plug (frame :: outer) (leaf entry))
  have newFirst := head?_entries (plug outer frame.sibling)
  rw [entries_plug, entries_leaf, List.singleton_append] at oldFirst
  rw [entries_plug_sibling] at newFirst
  have next := holds.nextLeaf_eq width
  have stored := mem_entries_plug_leaf (frame :: outer) entry
  cases before : Context.before (frame :: outer) with
  | nil =>
      rw [before, List.nil_append, List.head?_cons, Option.some.injEq]
        at oldFirst
      rw [before, List.nil_append] at newFirst
      rw [newFirst] at next
      have cached : tree.minLeafIndex = entry.index := by
        rw [minCached, ← oldFirst]
      simp [retireMin, Proc.bind_apply, cached, next, report]
  | cons least rest =>
      rw [before, List.cons_append, List.head?_cons, Option.some.injEq]
        at oldFirst newFirst
      have different : tree.minLeafIndex ≠ entry.index := by
        intro same
        rw [minCached] at same
        have isFirst := holds.distinct.entry_eq_of_index_eq
          (follow_mem _ _) stored same
        have nodup := holds.distinct.leafNodup
        rw [leafIndices, entries_plug, before] at nodup
        change _ = entry at isFirst
        have least : least = entry := oldFirst.trans isFirst
        simp [least] at nodup
      have unchanged : tree.minLeafIndex =
          (plug outer frame.sibling).first.index := by
        rw [minCached, ← oldFirst, ← newFirst]
      simp [retireMin, Proc.bind_apply, different, ← unchanged]

/-- Retiring the cached maximum points it at the remaining last entry. -/
theorem retireMax_eq
    (width : 0 < w)
    (holds : tree.Holds (plug (frame :: outer) (leaf entry)))
    (maxCached :
      tree.maxLeafIndex = (plug (frame :: outer) (leaf entry)).last.index) :
    retireMax entry.index entry.key tree =
      (.ok false, { tree with
        maxLeafIndex := (plug outer frame.sibling).last.index }) := by
  have oldLast := getLast?_entries (plug (frame :: outer) (leaf entry))
  have newLast := getLast?_entries (plug outer frame.sibling)
  rw [entries_plug, entries_leaf, List.singleton_append] at oldLast
  rw [entries_plug_sibling] at newLast
  have previous := holds.previousLeaf_eq width
  have stored := mem_entries_plug_leaf (frame :: outer) entry
  rcases List.eq_nil_or_concat (Context.after (frame :: outer)) with
    after | ⟨rest, greatest, after⟩
  · rw [after, List.getLast?_concat, Option.some.injEq] at oldLast
    rw [after, List.append_nil] at newLast
    rw [newLast] at previous
    have cached : tree.maxLeafIndex = entry.index := by
      rw [maxCached, ← oldLast]
    simp [retireMax, Proc.bind_apply, cached, previous, report]
  · rw [after, List.concat_eq_append] at oldLast newLast
    rw [← List.cons_append, ← List.append_assoc, List.getLast?_concat,
      Option.some.injEq] at oldLast
    rw [← List.append_assoc, List.getLast?_concat, Option.some.injEq]
      at newLast
    have different : tree.maxLeafIndex ≠ entry.index := by
      intro same
      rw [maxCached] at same
      have isLast := holds.distinct.entry_eq_of_index_eq
        (follow_mem _ _) stored same
      have nodup := holds.distinct.leafNodup
      rw [leafIndices, entries_plug, after] at nodup
      change _ = entry at isLast
      have greatest : greatest = entry := oldLast.trans isLast
      simp [greatest, List.nodup_append] at nodup
    have unchanged : tree.maxLeafIndex =
        (plug outer frame.sibling).last.index := by
      rw [maxCached, ← oldLast, ← newLast]
    simp [retireMax, Proc.bind_apply, different, ← unchanged]

end Retire

section Remove

variable {tree : CritbitTree w V} {entry : TrieEntry (BitVec w) w V}

/-- Drop one leaf from the leaf store. -/
def withoutLeaf (tree : CritbitTree w V) (index : BitVec w) :
    CritbitTree w V :=
  { tree with leaves := tree.leaves.erase index }

/-- Removing the only leaf resets the tree. -/
theorem Represents.remove_only
    (width : 0 < w)
    (represents : tree.Represents (leaf entry)) :
    removeLeafByIndex entry.index tree = (.ok entry.value, new) := by
  have plugged : tree.Holds (plug [] (leaf entry)) := represents.toHolds
  have next := plugged.nextLeaf_eq width
  have previous := plugged.previousLeaf_eq width
  have stored : tree.leaves[entry.index]? =
      some ⟨partitionIndex w, entry.key, entry.value⟩ := represents.stores
  have isMin : tree.minLeafIndex = entry.index := represents.minCached
  have isMax : tree.maxLeafIndex = entry.index := represents.maxCached
  have noNodes : tree.internalNodes = ∅ := by
    refine TreeMap.eq_empty_of_not_mem fun index member => ?_
    simpa using represents.nodeDomain index member
  have noLeaves : tree.leaves.erase entry.index = ∅ := by
    refine TreeMap.eq_empty_of_not_mem fun index member => ?_
    obtain ⟨different, member⟩ := Std.ExtTreeMap.mem_erase.mp member
    have same : index = entry.index := by
      simpa using represents.leafDomain index member
    simp [same] at different
  simp [removeLeafByIndex, retireMin, retireMax, Proc.bind_apply, stored,
    isMin, isMax, next, previous, Context.before, Context.after, reset, new,
    noNodes, noLeaves]

variable {frame : Frame (BitVec w) w V} {outer : ShapeContext w V}

/-- The tree left after removing a leaf that has a sibling. -/
def removed
    (tree : CritbitTree w V)
    (entry : TrieEntry (BitVec w) w V)
    (frame : Frame (BitVec w) w V)
    (outer : ShapeContext w V) : CritbitTree w V :=
  ({ tree with
    minLeafIndex := (plug outer frame.sibling).first.index
    maxLeafIndex := (plug outer frame.sibling).last.index }.withoutLeaf
      entry.index).unlinked frame outer

/-- Dropping the leaf leaves the links around it in place. -/
theorem Holds.withoutLeaf_storesContext
    (holds : tree.Holds (plug (frame :: outer) (leaf entry))) :
    (tree.withoutLeaf entry.index).StoresContext (maxIndex w - entry.index)
      (frame :: outer) := by
  refine holds.storesContext.1.congr rfl (fun _ _ => rfl) ?_
  intro index member
  have different : entry.index ≠ index := by
    intro same
    have nodup := holds.distinct.leafIndices_append
    exact List.disjoint_of_nodup_append nodup (by simp [same]) member
  simp [withoutLeaf, Std.ExtTreeMap.getElem?_erase, different]

theorem Represents.remove_eq
    (width : 0 < w)
    (represents : tree.Represents (plug (frame :: outer) (leaf entry))) :
    removeLeafByIndex entry.index tree =
      (.ok entry.value, tree.removed entry frame outer) := by
  obtain ⟨_, leafStores⟩ := represents.toHolds.storesContext
  have stored : tree.leaves[entry.index]? =
      some ⟨frame.index, entry.key, entry.value⟩ := leafStores
  have minRetired := retireMin_eq width represents.toHolds
    represents.minCached
  have minRetiredHolds :
      Holds { tree with
        minLeafIndex := (plug outer frame.sibling).first.index }
        (plug (frame :: outer) (leaf entry)) :=
    represents.toHolds.congr rfl (fun _ _ => rfl) (fun _ _ => rfl)
  have maxRetired := retireMax_eq width minRetiredHolds represents.maxCached
  have retiredStores :
      ({ tree with
        minLeafIndex := (plug outer frame.sibling).first.index
        maxLeafIndex :=
          (plug outer frame.sibling).last.index }.withoutLeaf
        entry.index).StoresContext (maxIndex w - entry.index)
          (frame :: outer) :=
    represents.toHolds.withoutLeaf_storesContext.congr rfl
      (fun _ _ => rfl) (fun _ _ => rfl)
  have unlinking := unlinkParent_eq width retiredStores represents.distinct
  simp only [removeLeafByIndex, Proc.bind_apply, Proc.get_apply, stored,
    Proc.okOr_some, minRetired, maxRetired, Proc.modify_apply,
    Bool.or_self, Bool.false_eq_true, ↓reduceIte]
  rw [withoutLeaf] at unlinking
  simp only [unlinking, Proc.pure_apply, removed, withoutLeaf]

theorem Represents.removed_represents
    (width : 0 < w)
    (represents : tree.Represents (plug (frame :: outer) (leaf entry))) :
    (tree.removed entry frame outer).Represents
      (plug outer frame.sibling) := by
  obtain ⟨retired, retiredShape⟩ :
      ∃ retired, retired = { tree with
        minLeafIndex := (plug outer frame.sibling).first.index
        maxLeafIndex :=
          (plug outer frame.sibling).last.index }.withoutLeaf
        entry.index := ⟨_, rfl⟩
  have retiredStores :
      retired.StoresContext (maxIndex w - entry.index) (frame :: outer) := by
    rw [retiredShape]
    exact represents.toHolds.withoutLeaf_storesContext.congr rfl
      (fun _ _ => rfl) (fun _ _ => rfl)
  have holds := unlinked_holds width retiredStores represents.ordered
    represents.distinct
  have header : (retired.unlinked frame outer).header =
      ((plug outer frame.sibling).first.index,
        (plug outer frame.sibling).last.index,
        tree.nextInternalNodeIndex, tree.nextLeafNodeIndex) := by
    rw [header_unlinked, retiredShape]
    rfl
  obtain ⟨sameMin, sameMax, sameNode, sameLeaf⟩ :
      (retired.unlinked frame outer).minLeafIndex =
          (plug outer frame.sibling).first.index ∧
        (retired.unlinked frame outer).maxLeafIndex =
          (plug outer frame.sibling).last.index ∧
        (retired.unlinked frame outer).nextInternalNodeIndex =
          tree.nextInternalNodeIndex ∧
        (retired.unlinked frame outer).nextLeafNodeIndex =
          tree.nextLeafNodeIndex := by
    simpa [CritbitTree.header] using header
  have unfolded : tree.removed entry frame outer =
      retired.unlinked frame outer := by
    rw [retiredShape, removed]
  have leafSplit := leafIndices_remove_perm frame outer entry
  have nodeSplit := nodeIndices_plug_leaf_perm frame outer entry
  rw [unfolded]
  refine ⟨⟨holds, ?_, ?_⟩, ?_, ?_, ?_, ?_, sameMin, sameMax⟩
  · intro index member
    rw [mem_leaves_unlinked, retiredShape, withoutLeaf,
      Std.ExtTreeMap.mem_erase] at member
    have listed := leafSplit.mem_iff.mp
      (represents.leafDomain index member.2)
    rcases List.mem_cons.mp listed with gone | kept
    · simp [gone] at member
    · exact kept
  · intro index member
    rw [mem_unlinked, retiredShape] at member
    have listed := nodeSplit.mem_iff.mp
      (represents.nodeDomain index member.2)
    exact (List.mem_cons.mp listed).resolve_left member.1
  · intro index member
    rw [sameLeaf]
    exact represents.leafBound index
      (leafSplit.mem_iff.mpr (List.mem_cons_of_mem _ member))
  · intro index member
    rw [sameNode]
    exact represents.nodeBound index
      (nodeSplit.mem_iff.mpr (List.mem_cons_of_mem _ member))
  · rw [sameNode, sameLeaf]
    exact represents.counters
  · rw [sameLeaf]
    exact represents.withinCapacity

end Remove

end HybridOrderbook.CritbitTree
