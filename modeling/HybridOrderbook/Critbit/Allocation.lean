import HybridOrderbook.Critbit.Iteration

namespace HybridOrderbook.CritbitTree

open Library Library.Trie

/-!
# Drawing indices

Leaves and internal nodes draw their indices from two counters.  As long as
every operation succeeds the counters stay ahead of all indices in use and
below the partition.  An insertion draws its index and stores its leaf before
it knows whether the key is new, so one that fails has changed the tree.
-/

variable {w : Nat} {V : Type}

/--
The two index spaces stay apart.  The last three fields are what the tree
relies on: pointers tell leaves from internal nodes, the first leaf is the
one that the root `maxIndex` denotes, and no index is drawn twice.
-/
structure IndexSpaces (tree : CritbitTree w V) : Prop where
  leaves : ∀ index ∈ tree.leaves, index < tree.nextLeafNodeIndex
  capacity : tree.nextLeafNodeIndex ≤ HybridOrderbook.capacity w
  internalNodes :
    ∀ index ∈ tree.internalNodes, index < tree.nextInternalNodeIndex
  counters :
    tree.isEmpty = false →
      tree.nextInternalNodeIndex.toNat + 1 = tree.nextLeafNodeIndex.toNat
  empty :
    tree.isEmpty = true →
      tree.leaves = ∅ ∧ tree.internalNodes = ∅ ∧
        tree.nextLeafNodeIndex = 0 ∧ tree.nextInternalNodeIndex = 0
  pointers :
    (∀ index ∈ tree.leaves, partitionIndex w < maxIndex w - index) ∧
      ∀ index ∈ tree.internalNodes, index < partitionIndex w
  firstLeaf :
    tree.isEmpty = true →
      ∀ key value,
        ∃ reached parent,
          insert key value tree = (.ok (), reached) ∧
            reached.root = maxIndex w ∧
            reached.leaves[(0 : BitVec w)]? = some ⟨parent, key, value⟩
  neverCollides :
    ∀ error ∈ [CritbitTreeError.uniqueIndex, .overflow],
      (∀ key value, (insert key value tree).1 ≠ .error (.error error)) ∧
        ∀ index,
          (removeLeafByIndex index tree).1 ≠ .error (.error error)

section Reachable

variable {tree : CritbitTree w V} {shape : Shape w V}

theorem zero_lt_capacity (width : 1 < w) : (0 : BitVec w) < capacity w := by
  have large : 2 ^ 1 ≤ 2 ^ (w - 1) :=
    Nat.pow_le_pow_right (by decide) (by omega)
  rw [BitVec.lt_def, toNat_capacity (by omega)]
  simp only [BitVec.ofNat_eq_ofNat, BitVec.toNat_zero]
  omega

theorem Lists.neverCollides
    (width : 0 < w)
    {entries : List (TrieEntry (BitVec w) w V)}
    (lists : tree.Lists entries)
    {error : CritbitTreeError}
    (collision : error ∈ [CritbitTreeError.uniqueIndex, .overflow]) :
    (∀ key value,
      (CritbitTree.insert key value tree).1 ≠ .error (.error error)) ∧
      ∀ index,
        (removeLeafByIndex index tree).1 ≠ .error (.error error) := by
  constructor
  · intro key value failed
    rw [lists.insert_outcome width key value] at failed
    split at failed
    · split at failed
      · cases failed
        simp at collision
      · cases failed
    · cases failed
      simp at collision
  · intro index failed
    rw [lists.remove_outcome width index] at failed
    cases found : tree.leaves[index]? with
    | none =>
        rw [found] at failed
        cases failed
        simp at collision
    | some leafNode =>
        rw [found] at failed
        cases failed

theorem indexSpaces_new (width : 1 < w) :
    (new : CritbitTree w V).IndexSpaces where
  leaves := by simp [new]
  capacity := lists_new.nextLeafNodeIndex_le
  internalNodes := by simp [new]
  counters := by simp [isEmpty, new]
  empty _ := ⟨rfl, rfl, rfl, rfl⟩
  pointers := by simp [new]
  firstLeaf _ key value := by
    obtain ⟨reached, executed, represents⟩ :=
      insert_new (zero_lt_capacity width) key value
    obtain ⟨parent, stored⟩ :=
      represents.lists.leaf (List.mem_singleton.mpr rfl)
    refine ⟨reached, parent, executed, ?_, stored⟩
    have root := represents.root
    simpa using root
  neverCollides _ := lists_new.neverCollides (by omega)

theorem Represents.indexSpaces
    (width : 0 < w)
    (represents : tree.Represents shape) :
    tree.IndexSpaces := by
  have inhabited : tree.isEmpty ≠ true := fun empty =>
    entries_ne_nil shape (represents.lists.isEmpty_iff.mp empty)
  have below :
      ∀ index ∈ tree.leaves, index < HybridOrderbook.capacity w := by
    intro index member
    exact Nat.lt_of_lt_of_le
      (represents.leafBound index (represents.leafDomain index member))
      represents.withinCapacity
  refine ⟨?_, represents.withinCapacity, ?_, fun _ => represents.counters,
    fun empty => absurd empty inhabited, ⟨?_, ?_⟩,
    fun empty => absurd empty inhabited,
    fun _ => represents.lists.neverCollides width⟩
  · intro index member
    exact represents.leafBound index (represents.leafDomain index member)
  · intro index member
    exact represents.nodeBound index (represents.nodeDomain index member)
  · intro index member
    exact partitionIndex_lt_maxIndex_sub width (below index member)
  · intro index member
    have drawn :=
      represents.nodeBound index (represents.nodeDomain index member)
    have counters := represents.counters
    have withinCapacity := represents.withinCapacity
    rw [BitVec.lt_def] at drawn
    rw [BitVec.le_def] at withinCapacity
    exact lt_partitionIndex_of_lt_capacity width
      (BitVec.lt_def.mpr (by omega))

/-- In every tree that successful operations reach the indices stay apart. -/
theorem indexSpaces_of_run
    (width : 1 < w)
    (ops : List (TreeOp w V))
    (ran : Run.run TreeOp.step ops new = some tree) :
    tree.IndexSpaces := by
  obtain ⟨entries, lists⟩ := lists_of_run (by omega) ops ran
  rcases lists with ⟨rfl, _⟩ | ⟨shape, represents, _⟩
  · exact indexSpaces_new width
  · exact represents.indexSpaces (by omega)

/-- Indices are drawn on after a removal, and from zero after the last one. -/
theorem indexSpaces_of_short_runs :
    (∃ tree : CritbitTree 32 Nat,
      Run.run TreeOp.step
          [.insert 7 0, .insert 3 1, .removeLeafByIndex 0, .insert 9 2] new =
            some tree ∧ tree.IndexSpaces) ∧
      ∃ tree : CritbitTree 128 Nat,
        Run.run TreeOp.step
            [.insert 7 0, .removeLeafByIndex 0, .insert 3 1] new =
              some tree ∧ tree.IndexSpaces := by
  have first :
      (Run.run TreeOp.step
        [.insert 7 0, .insert 3 1, .removeLeafByIndex 0, .insert 9 2]
        (new : CritbitTree 32 Nat)).isSome = true := by
    decide
  have second :
      (Run.run TreeOp.step
        [.insert 7 0, .removeLeafByIndex 0, .insert 3 1]
        (new : CritbitTree 128 Nat)).isSome = true := by
    decide
  have firstRan := (Option.some_get first).symm
  have secondRan := (Option.some_get second).symm
  exact ⟨⟨_, firstRan, indexSpaces_of_run (by decide) _ firstRan⟩,
    _, secondRan, indexSpaces_of_run (by decide) _ secondRan⟩

end Reachable

section Failures

/-- Linking nodes draws no leaf index. -/
theorem updateRef_keeps (parent child : BitVec w) (isLeftChild : Bool) :
    Proc.Keeps nextLeafNodeIndex
      (updateRef parent child isLeftChild : TreeProc w V Unit) := by
  intro tree
  cases found : tree.internalNodes[parent]? with
  | none =>
      simp [updateRef, Proc.bind_apply, found]
  | some node =>
      simp only [updateRef, Proc.bind_apply, Proc.get_apply, found,
        Proc.okOr_some, Proc.put_apply]
      -- the child is a leaf or an internal node, and may be missing
      split
      · generalize (setInternal tree parent _).leaves[maxIndex w - child]? =
          leafNode
        cases leafNode <;> rfl
      · generalize (setInternal tree parent _).internalNodes[child]? =
          childNode
        cases childNode <;> rfl

theorem hangNode_keeps (newInternalIndex curr parentIndex : BitVec w) :
    Proc.Keeps nextLeafNodeIndex
      (hangNode newInternalIndex curr parentIndex : TreeProc w V Unit) := by
  refine Proc.keeps_get_bind fun tree => ?_
  split
  · rfl
  · exact updateRef_keeps _ _ _ tree

theorem nextIndex_internal_keeps :
    Proc.Keeps nextLeafNodeIndex
      (nextIndex .internal : TreeProc w V (BitVec w)) := by
  refine Proc.keeps_get_bind fun tree => ?_
  by_cases last : tree.nextInternalNodeIndex = maxIndex w
  · simp [last]
  · simp [last, Proc.bind_apply]

theorem insertInternal_keeps (key newLeafIndex mask : BitVec w) :
    Proc.Keeps nextLeafNodeIndex
      (insertInternal key newLeafIndex mask : TreeProc w V Unit) := by
  refine .bind nextIndex_internal_keeps fun newInternalIndex => ?_
  refine Proc.keeps_get_bind fun tree => Proc.keeps_put_bind rfl ?_
  split
  · exact Proc.keeps_throw _
  · refine .bind (Proc.keeps_read _) fun point => ?_
    refine .bind (hangNode_keeps _ _ _) fun _ => ?_
    refine .bind (updateRef_keeps _ _ _) fun _ => ?_
    refine .bind (updateRef_keeps _ _ _) fun _ => ?_
    exact Proc.keeps_modify fun _ => rfl

/-- Every insertion draws a leaf index, whether it succeeds or not. -/
theorem nextLeafNodeIndex_insert
    (key : BitVec w)
    (value : V)
    (tree : CritbitTree w V) :
    (insert key value tree).2.nextLeafNodeIndex =
      tree.nextLeafNodeIndex + 1 := by
  have drawn :
      (nextIndex .leaf tree : _ × CritbitTree w V).2.nextLeafNodeIndex =
        tree.nextLeafNodeIndex + 1 := by
    simp only [nextIndex, Proc.bind_apply, Proc.get_apply, Proc.put_apply]
    split <;> rfl
  refine (Proc.part_bind (fun newLeafIndex => ?_) tree).trans drawn
  refine Proc.keeps_get_bind fun tree => Proc.keeps_put_bind rfl ?_
  split
  · exact Proc.keeps_throw _
  · refine .bind (Proc.keeps_read _) fun closest => ?_
    cases closest with
    | none =>
        exact Proc.keeps_modify fun _ => rfl
    | some closestLeafIndex =>
        refine Proc.keeps_get_bind fun tree => ?_
        refine Proc.Keeps.bind (Proc.keeps_okOr _ _) (fun leaf => ?_) tree
        split
        · exact Proc.keeps_throw _
        · exact insertInternal_keeps _ _ _

/-- If the insertion fails, the tree is as it was before. -/
def FailedInsertKeeps
    (tree : CritbitTree w V)
    (key : BitVec w)
    (value : V) : Prop :=
  ∀ fault,
    (insert key value tree).1 = .error fault →
      (insert key value tree).2 = tree

/--
Every insertion that fails has changed the tree, whatever the tree is.  In a
tree that successful operations reach, an insertion leaves no trace of a
failure exactly if it does not fail: the key is new and an index is left.
-/
theorem failedInsertKeeps_iff
    (width : 0 < w)
    (tree : CritbitTree w V)
    (key : BitVec w)
    (value : V) :
    (tree.FailedInsertKeeps key value ↔
        (insert key value tree).1 = .ok ()) ∧
      ∀ ops,
        Run.run TreeOp.step ops new = some tree →
          (tree.FailedInsertKeeps key value ↔
            (∀ index, ¬ tree.HasLeaf key index) ∧
              tree.nextLeafNodeIndex < capacity w) := by
  have exactly :
      tree.FailedInsertKeeps key value ↔
        (insert key value tree).1 = .ok () := by
    constructor
    · intro keeps
      cases outcome : (insert key value tree).1 with
      | ok value =>
          rfl
      | error fault =>
          have drawn := nextLeafNodeIndex_insert key value tree
          rw [keeps fault outcome, BitVec.self_eq_add_right] at drawn
          have zero := congrArg BitVec.toNat drawn
          simp [BitVec.toNat_one width] at zero
    · intro succeeded fault failed
      rw [succeeded] at failed
      cases failed
  refine ⟨exactly, fun ops ran => exactly.trans ?_⟩
  obtain ⟨entries, lists⟩ := lists_of_run width ops ran
  have present :
      key ∈ entries.map TrieEntry.key ↔ ∃ index, tree.HasLeaf key index := by
    simp [lists.hasLeaf_iff]
  rw [lists.insert_outcome width key value, ← not_exists, ← present]
  split
  · split
    · simp_all
    · simp_all
  · simp_all

/-- A new key after one insertion. -/
theorem failedInsertKeeps_new_key :
    ∃ tree : CritbitTree 64 Nat,
      Run.run TreeOp.step [.insert 5 10] new = some tree ∧
        tree.FailedInsertKeeps 6 11 ∧
        (∀ index, ¬ tree.HasLeaf 6 index) ∧
        tree.nextLeafNodeIndex < capacity 64 := by
  have succeeds :
      (Run.run TreeOp.step [.insert 5 10] (new : CritbitTree 64 Nat)).any
        (fun tree => (insert 6 11 tree).1 = .ok ()) = true := by
    decide
  obtain ⟨tree, ran, inserted⟩ := (Option.any_eq_true _ _).mp succeeds
  obtain ⟨exactly, onRuns⟩ :=
    failedInsertKeeps_iff (by decide) tree 6 11
  have keeps := exactly.mpr (of_decide_eq_true inserted)
  exact ⟨tree, ran, keeps, (onRuns _ ran).mp keeps⟩

/--
Inserting a key that is there leaves an unlinked leaf.  Once the linked one
is removed the tree has a leaf and no minimum.
-/
theorem failedInsert_leaves_leaf :
    ∃ tree : CritbitTree 64 Nat,
      Run.run TreeOp.step [.insert 5 10] new = some tree ∧
        (insert 5 11 tree).1 = .error (.error .alreadyExist) ∧
        tree.size = 1 ∧ (insert 5 11 tree).2.size = 2 ∧
        (removeLeafByIndex 0 (insert 5 11 tree).2).1 = .ok 10 ∧
        (removeLeafByIndex 0 (insert 5 11 tree).2).2.size = 1 ∧
        (removeLeafByIndex 0 (insert 5 11 tree).2).2.minLeaf =
          .error (.error .leafNodeShouldExist) := by
  have succeeds :
      (Run.run TreeOp.step [.insert 5 10] (new : CritbitTree 64 Nat)).any
        (fun tree =>
          (insert 5 11 tree).1 = .error (.error .alreadyExist) ∧
            tree.size = 1 ∧ (insert 5 11 tree).2.size = 2 ∧
            (removeLeafByIndex 0 (insert 5 11 tree).2).1 = .ok 10 ∧
            (removeLeafByIndex 0 (insert 5 11 tree).2).2.size = 1 ∧
            (removeLeafByIndex 0 (insert 5 11 tree).2).2.minLeaf =
              .error (.error .leafNodeShouldExist)) = true := by
    decide
  obtain ⟨tree, ran, found⟩ := (Option.any_eq_true _ _).mp succeeds
  exact ⟨tree, ran, of_decide_eq_true found⟩

end Failures

section Counter

theorem promoteSibling_keeps
    (siblingNodeIndex parentIndex grandParentIndex : BitVec w) :
    Proc.Keeps nextLeafNodeIndex
      (promoteSibling siblingNodeIndex parentIndex grandParentIndex :
        TreeProc w V Unit) := by
  refine Proc.keeps_get_bind fun tree => ?_
  split
  · split
    · cases tree.internalNodes[siblingNodeIndex]? <;> rfl
    · cases tree.leaves[maxIndex w - siblingNodeIndex]? <;> rfl
  · exact updateRef_keeps _ _ _ tree

theorem unlinkParent_keeps (leafIndex parentIndex : BitVec w) :
    Proc.Keeps nextLeafNodeIndex
      (unlinkParent leafIndex parentIndex : TreeProc w V Unit) := by
  refine Proc.keeps_get_bind fun tree => ?_
  refine Proc.Keeps.bind (Proc.keeps_okOr _ _) (fun parentNode => ?_) tree
  refine .bind (promoteSibling_keeps _ _ _) fun _ => ?_
  exact Proc.keeps_modify fun _ => rfl

theorem retireMin_keeps (leafIndex key : BitVec w) :
    Proc.Keeps nextLeafNodeIndex
      (retireMin leafIndex key : TreeProc w V Bool) := by
  refine Proc.keeps_get_bind fun tree => ?_
  split
  · simp only [Proc.bind_apply, Proc.read_apply]
    rcases tree.nextLeaf key with _ | (_ | _) <;> rfl
  · rfl

theorem retireMax_keeps (leafIndex key : BitVec w) :
    Proc.Keeps nextLeafNodeIndex
      (retireMax leafIndex key : TreeProc w V Bool) := by
  refine Proc.keeps_get_bind fun tree => ?_
  split
  · simp only [Proc.bind_apply, Proc.read_apply]
    rcases tree.previousLeaf key with _ | (_ | _) <;> rfl
  · rfl

/-- The next leaf index is as before, or the tree was emptied. -/
def KeepsOrResets (before : BitVec w) (tree : CritbitTree w V) : Prop :=
  tree.nextLeafNodeIndex = before ∨
    (tree.nextLeafNodeIndex = 0 ∧ tree.root = partitionIndex w)

/-- Removing a leaf draws no index; removing the last one starts over. -/
theorem removeLeafByIndex_leaves (leafIndex : BitVec w) :
    Proc.Leaves nextLeafNodeIndex KeepsOrResets
      (removeLeafByIndex leafIndex : TreeProc w V V) := by
  have same (tree : CritbitTree w V) :
      KeepsOrResets tree.nextLeafNodeIndex tree := .inl rfl
  intro tree
  refine Proc.Keeps.bind_leaves (Proc.keeps_okOr _ _) same (fun leafNode => ?_)
    tree
  refine (retireMin_keeps _ _).bind_leaves same fun wasLastMin => ?_
  refine (retireMax_keeps _ _).bind_leaves same fun wasLastMax => ?_
  refine Proc.Keeps.bind_leaves (fun _ => rfl) same fun _ => ?_
  split
  · exact fun _ => .inr ⟨rfl, rfl⟩
  · exact (unlinkParent_keeps _ _).bind_leaves same fun _ => same

end Counter

end HybridOrderbook.CritbitTree
