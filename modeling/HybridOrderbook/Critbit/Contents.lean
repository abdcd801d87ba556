import HybridOrderbook.Critbit.Remove

namespace HybridOrderbook.CritbitTree

open Library Library.Trie

/-!
# The tree as a sorted list of entries

`Lists tree entries` forgets the shape and keeps the entries in key order.
Every operation of the tree is described by what it does to that list, so
that users of the tree need nothing else.
-/

variable {w : Nat} {V : Type}

/-- The tree is empty or spells out a shape with these entries. -/
def Lists
    (tree : CritbitTree w V)
    (entries : List (TrieEntry (BitVec w) w V)) : Prop :=
  (tree = new ∧ entries = []) ∨
    ∃ shape, tree.Represents shape ∧ shape.entries = entries

theorem lists_new : (new : CritbitTree w V).Lists [] :=
  .inl ⟨rfl, rfl⟩

theorem Represents.lists
    {tree : CritbitTree w V}
    {shape : Shape w V}
    (represents : tree.Represents shape) :
    tree.Lists shape.entries :=
  .inr ⟨shape, represents, rfl⟩

section Queries

variable {tree : CritbitTree w V}
  {entries : List (TrieEntry (BitVec w) w V)}
  {entry : TrieEntry (BitVec w) w V}

/-- The entries are in strictly increasing key order. -/
theorem Lists.sorted
    (lists : tree.Lists entries) :
    entries.Pairwise fun first second => first.key < second.key := by
  rcases lists with ⟨_, rfl⟩ | ⟨shape, represents, rfl⟩
  · exact .nil
  · exact List.pairwise_map.mp represents.ordered.sorted

theorem Lists.entry_eq_of_key_eq
    (lists : tree.Lists entries)
    {first second : TrieEntry (BitVec w) w V}
    (firstListed : first ∈ entries)
    (secondListed : second ∈ entries)
    (sameKey : first.key = second.key) :
    first = second := by
  rcases lists with ⟨_, rfl⟩ | ⟨shape, represents, rfl⟩
  · simp at firstListed
  · exact represents.ordered.entry_eq_of_key_eq firstListed secondListed
      sameKey

theorem Lists.entry_eq_of_index_eq
    (lists : tree.Lists entries)
    {first second : TrieEntry (BitVec w) w V}
    (firstListed : first ∈ entries)
    (secondListed : second ∈ entries)
    (sameIndex : first.index = second.index) :
    first = second := by
  rcases lists with ⟨_, rfl⟩ | ⟨shape, represents, rfl⟩
  · simp at firstListed
  · exact represents.distinct.entry_eq_of_index_eq firstListed secondListed
      sameIndex

theorem Lists.leaf
    (lists : tree.Lists entries)
    (listed : entry ∈ entries) :
    ∃ parent,
      tree.leaves[entry.index]? =
        some ⟨parent, entry.key, entry.value⟩ := by
  rcases lists with ⟨_, rfl⟩ | ⟨shape, represents, rfl⟩
  · simp at listed
  · exact represents.stores.leaf listed

/-- Every stored leaf is listed. -/
theorem Lists.listed
    (lists : tree.Lists entries)
    {index : BitVec w}
    {leafNode : LeafNode w V}
    (stored : tree.leaves[index]? = some leafNode) :
    ⟨index, leafNode.key, leafNode.value⟩ ∈ entries := by
  have member := TreeMap.mem_of_getElem? stored
  rcases lists with ⟨rfl, rfl⟩ | ⟨shape, represents, rfl⟩
  · simp [new] at member
  · obtain ⟨entry, listed, sameIndex⟩ :=
      List.mem_map.mp (represents.leafDomain index member)
    obtain ⟨parent, found⟩ := represents.stores.leaf listed
    rw [sameIndex, stored, Option.some.injEq] at found
    rw [found, ← sameIndex]
    exact listed

/-- Leaf indices stay below the capacity, hence off the partition. -/
theorem Lists.index_ne_partition
    (width : 0 < w)
    (lists : tree.Lists entries)
    (listed : entry ∈ entries) :
    entry.index ≠ partitionIndex w := by
  rcases lists with ⟨_, rfl⟩ | ⟨shape, represents, rfl⟩
  · simp at listed
  · have range := represents.distinct.leafRange entry.index
      (List.mem_map_of_mem listed)
    exact BitVec.ne_of_lt (lt_partitionIndex_of_lt_capacity width range)

theorem Lists.size_eq
    (lists : tree.Lists entries) : tree.size = entries.length := by
  rcases lists with ⟨rfl, rfl⟩ | ⟨shape, represents, rfl⟩
  · simp [size, new]
  · rw [size, represents.leaves_size]

theorem Lists.isEmpty_iff
    (lists : tree.Lists entries) :
    tree.isEmpty = true ↔ entries = [] := by
  have sizes := lists.size_eq
  rw [size] at sizes
  rw [CritbitTree.isEmpty, Std.ExtTreeMap.isEmpty_eq_size_beq_zero, sizes]
  simp

theorem Lists.findLeaf_of_mem
    (width : 0 < w)
    (lists : tree.Lists entries)
    (listed : entry ∈ entries) :
    tree.findLeaf entry.key = .ok (some entry.index) := by
  rcases lists with ⟨_, rfl⟩ | ⟨shape, represents, rfl⟩
  · simp at listed
  · exact represents.toHolds.findLeaf_of_mem width listed

theorem Lists.findLeaf_of_not_mem
    (width : 0 < w)
    (lists : tree.Lists entries)
    {key : BitVec w}
    (absent : key ∉ entries.map TrieEntry.key) :
    tree.findLeaf key = .ok none := by
  rcases lists with ⟨rfl, _⟩ | ⟨shape, represents, rfl⟩
  · simp [findLeaf, getClosestLeafIndex, new, bind, Except.bind, pure,
      Except.pure]
  · exact represents.toHolds.findLeaf_of_not_mem width absent

/-- The cached minimum is the first entry. -/
theorem Lists.minLeaf_eq
    (lists : tree.Lists entries) :
    tree.minLeaf = .ok (entries.head?.map report) := by
  have empty := lists.isEmpty_iff
  rw [CritbitTree.isEmpty] at empty
  rcases lists with ⟨rfl, rfl⟩ | ⟨shape, represents, rfl⟩
  · simp [minLeaf, cachedLeaf, new]
  · obtain ⟨parent, stored⟩ := represents.stores.leaf
      (show shape.first ∈ shape.entries from follow_mem _ shape)
    simp [minLeaf, cachedLeaf, empty, entries_ne_nil, represents.minCached,
      stored, head?_entries, report]

/-- The cached maximum is the last entry. -/
theorem Lists.maxLeaf_eq
    (lists : tree.Lists entries) :
    tree.maxLeaf = .ok (entries.getLast?.map report) := by
  have empty := lists.isEmpty_iff
  rw [CritbitTree.isEmpty] at empty
  rcases lists with ⟨rfl, rfl⟩ | ⟨shape, represents, rfl⟩
  · simp [maxLeaf, cachedLeaf, new]
  · obtain ⟨parent, stored⟩ := represents.stores.leaf
      (show shape.last ∈ shape.entries from follow_mem _ shape)
    simp [maxLeaf, cachedLeaf, empty, entries_ne_nil, represents.maxCached,
      stored, getLast?_entries, report]

end Queries

section Operations

variable {tree : CritbitTree w V}
  {entries : List (TrieEntry (BitVec w) w V)}
  {entry : TrieEntry (BitVec w) w V}

/-- The first leaf goes straight to the root. -/
theorem insert_new
    (room : (0 : BitVec w) < capacity w)
    (key : BitVec w)
    (value : V) :
    ∃ reached,
      insert key value new = (.ok (), reached) ∧
        reached.Represents (leaf ⟨0, key, value⟩) := by
  have drawn :
      (nextIndex .leaf : TreeProc w V (BitVec w)) new =
        (.ok 0, { new with nextLeafNodeIndex := 0 + 1 }) :=
    nextIndex_leaf room
  have executed :
      insert key value new =
        (.ok (), { (new : CritbitTree w V).withLeaf key value with
          root := maxIndex w
          maxLeafIndex := 0
          minLeafIndex := 0 }) := by
    unfold insert
    rw [Proc.bind_ok drawn]
    simp [Proc.bind_apply, getClosestLeafIndex, new, setLeaf, withLeaf]
  refine ⟨_, executed, ⟨⟨⟨.leaf _, ⟨by simp, by simp, by simpa using room,
    by simp⟩, by simp, by simp [Stores, withLeaf, new, LeafNode.new]⟩,
    ?_, ?_⟩, ?_, ?_, ?_, ?_, rfl, rfl⟩⟩
  · simp [withLeaf, new]
  · simp [withLeaf, new]
  · intro index member
    have isZero : index = 0 := by simpa using member
    change index < 0 + 1
    rw [isZero, BitVec.lt_def, toNat_succ_of_lt room]
    exact Nat.lt_succ_self _
  · simp
  · exact (toNat_succ_of_lt room).symm
  · exact succ_le_of_lt room

theorem Lists.nextLeafNodeIndex_le
    (lists : tree.Lists entries) :
    tree.nextLeafNodeIndex ≤ capacity w := by
  rcases lists with ⟨rfl, _⟩ | ⟨shape, represents, _⟩
  · simp [BitVec.le_def, new]
  · exact represents.withinCapacity

/-- Inserting a fresh key while a leaf index is left. -/
theorem Lists.insert
    (width : 0 < w)
    (lists : tree.Lists entries)
    (room : tree.nextLeafNodeIndex < capacity w)
    {key : BitVec w}
    (fresh : key ∉ entries.map TrieEntry.key)
    (value : V) :
    ∃ reached listed,
      CritbitTree.insert key value tree = (.ok (), reached) ∧
        reached.Lists listed ∧
        listed.Perm (⟨tree.nextLeafNodeIndex, key, value⟩ :: entries) := by
  rcases lists with ⟨rfl, rfl⟩ | ⟨shape, represents, rfl⟩
  · obtain ⟨reached, executed, represents⟩ := insert_new room key value
    exact ⟨reached, _, executed, represents.lists, List.Perm.refl _⟩
  · exact ⟨_, _, represents.insert_eq width room fresh value,
      (represents.inserted_represents width room fresh value).lists,
      entries_insertedShape_perm _ _ _⟩

/-- Once the leaf indices are used up every insertion is refused. -/
theorem Lists.insert_full
    (width : 0 < w)
    (lists : tree.Lists entries)
    (full : ¬ tree.nextLeafNodeIndex < capacity w)
    (key : BitVec w)
    (value : V) :
    (CritbitTree.insert key value tree).1 =
      .error (.error .exceedCapacity) := by
  have last : tree.nextLeafNodeIndex = capacity w :=
    BitVec.le_antisymm lists.nextLeafNodeIndex_le (BitVec.not_lt.mp full)
  have below : capacity w < maxIndex w := by
    have half := two_pow_pred_mul_two width
    have positive : 0 < 2 ^ (w - 1) := Nat.two_pow_pos _
    rw [BitVec.lt_def, toNat_capacity width, toNat_maxIndex]
    omega
  have exceeds : ¬ tree.nextLeafNodeIndex + 1 ≤ capacity w := by
    rw [last, BitVec.le_def, toNat_succ_of_lt below]
    omega
  simp only [CritbitTree.insert, Proc.bind_apply, nextIndex, Proc.get_apply,
    Proc.put_apply, exceeds, ↓reduceIte, Proc.throw_apply]

/-- A key that is already there is refused. -/
theorem Lists.insert_present
    (width : 0 < w)
    (lists : tree.Lists entries)
    (room : tree.nextLeafNodeIndex < capacity w)
    (listed : entry ∈ entries)
    (value : V) :
    (CritbitTree.insert entry.key value tree).1 =
      .error (.error .alreadyExist) := by
  rcases lists with ⟨_, rfl⟩ | ⟨shape, represents, rfl⟩
  · simp at listed
  · have fits := succ_le_of_lt room
    have notStored := represents.nextLeaf_not_stored
    have grown := represents.holds_withLeaf entry.key value
    obtain ⟨parent, stored⟩ := grown.stores.leaf listed
    have closest := grown.getClosestLeafIndex_eq width entry.key
    rw [represents.ordered.closest_eq listed] at closest
    have written :
        setLeaf { tree with nextLeafNodeIndex := tree.nextLeafNodeIndex + 1 }
            tree.nextLeafNodeIndex (LeafNode.new entry.key value) =
          tree.withLeaf entry.key value := rfl
    simp only [CritbitTree.insert, Proc.bind_apply, nextIndex,
      Proc.get_apply, Proc.put_apply, fits, ↓reduceIte, Proc.pure_apply,
      notStored, written, Proc.read_apply, closest, stored, Proc.okOr_some,
      Proc.throw_apply]

/-- Removing a listed leaf. -/
theorem Lists.remove
    (width : 0 < w)
    (lists : tree.Lists entries)
    (listed : entry ∈ entries) :
    ∃ reached remaining,
      removeLeafByIndex entry.index tree = (.ok entry.value, reached) ∧
        reached.Lists remaining ∧
        entries.Perm (entry :: remaining) := by
  rcases lists with ⟨_, rfl⟩ | ⟨shape, represents, rfl⟩
  · simp at listed
  · obtain ⟨context, rfl⟩ := exists_context_of_mem listed
    cases context with
    | nil =>
        exact ⟨new, [], represents.remove_only width, lists_new,
          List.Perm.refl _⟩
    | cons frame outer =>
        exact ⟨_, _, represents.remove_eq width,
          (represents.removed_represents width).lists,
          entries_plug_leaf_perm frame outer entry⟩

/-- An insertion succeeds, or names one of two reasons. -/
theorem Lists.insert_outcome
    (width : 0 < w)
    (lists : tree.Lists entries)
    (key : BitVec w)
    (value : V) :
    (CritbitTree.insert key value tree).1 =
      if tree.nextLeafNodeIndex < capacity w then
        if key ∈ entries.map TrieEntry.key then
          .error (.error .alreadyExist)
        else
          .ok ()
      else
        .error (.error .exceedCapacity) := by
  by_cases room : tree.nextLeafNodeIndex < capacity w
  · by_cases present : key ∈ entries.map TrieEntry.key
    · obtain ⟨entry, listed, rfl⟩ := List.mem_map.mp present
      rw [if_pos room, if_pos present]
      exact lists.insert_present width room listed value
    · obtain ⟨_, _, executed, _⟩ := lists.insert width room present value
      rw [if_pos room, if_neg present, executed]
  · rw [if_neg room]
    exact lists.insert_full width room key value

/-- A removal succeeds exactly if the leaf is there. -/
theorem Lists.remove_outcome
    (width : 0 < w)
    (lists : tree.Lists entries)
    (index : BitVec w) :
    (CritbitTree.removeLeafByIndex index tree).1 =
      okOr (tree.leaves[index]?.map LeafNode.value) .notFound := by
  cases found : tree.leaves[index]? with
  | none =>
      simp [CritbitTree.removeLeafByIndex, Proc.bind_apply, found, okOr]
  | some leafNode =>
      obtain ⟨_, _, executed, _⟩ := lists.remove width (lists.listed found)
      exact congrArg Prod.fst executed

/-- A list of entries with one value replaced. -/
def replaceValue
    (index : BitVec w)
    (value : V)
    (entries : List (TrieEntry (BitVec w) w V)) :
    List (TrieEntry (BitVec w) w V) :=
  entries.map fun entry =>
    { entry with value := if entry.index = index then value else entry.value }

@[simp] theorem pointer_mapValues
    (change : TrieEntry (BitVec w) w V → V)
    (shape : Shape w V) :
    pointer (shape.mapValues change) = pointer shape := by
  cases shape <;> rfl

theorem Stores.setValue
    {shape : Shape w V}
    {parent index : BitVec w}
    {leafNode : LeafNode w V}
    (stores : tree.Stores parent shape)
    (stored : tree.leaves[index]? = some leafNode)
    (value : V) :
    (tree.setLeaf index { leafNode with value := value }).Stores parent
      (shape.mapValues fun entry =>
        if entry.index = index then value else entry.value) := by
  induction shape generalizing parent with
  | leaf entry =>
      have found : tree.leaves[entry.index]? =
          some ⟨parent, entry.key, entry.value⟩ := stores
      by_cases same : entry.index = index
      · rw [same, stored, Option.some.injEq] at found
        simp [Stores, mapValues, setLeaf, same, found]
      · simp [Stores, mapValues, setLeaf, same,
          Std.ExtTreeMap.getElem?_insert, Ne.symm same, found]
  | node nodeIndex bit left right leftHypothesis rightHypothesis =>
      obtain ⟨here, leftStores, rightStores⟩ := stores
      refine ⟨?_, leftHypothesis leftStores, rightHypothesis rightStores⟩
      simpa [setLeaf] using here

/-- Writing a new value into a stored leaf. -/
theorem Lists.setValue
    (lists : tree.Lists entries)
    {index : BitVec w}
    {leafNode : LeafNode w V}
    (stored : tree.leaves[index]? = some leafNode)
    (value : V) :
    (tree.setLeaf index { leafNode with value := value }).Lists
      (replaceValue index value entries) := by
  rcases lists with ⟨rfl, _⟩ | ⟨shape, represents, rfl⟩
  · simp [new] at stored
  · rw [replaceValue, ← entries_mapValues]
    refine Represents.lists ⟨⟨⟨represents.ordered.mapValues _, ?_, ?_,
      represents.stores.setValue stored value⟩, ?_, ?_⟩, ?_, ?_,
      represents.counters, represents.withinCapacity, ?_, ?_⟩
    · exact ⟨by simpa using represents.distinct.leafNodup,
        by simpa using represents.distinct.nodeNodup,
        by simpa using represents.distinct.leafRange,
        by simpa using represents.distinct.nodeRange⟩
    · simpa [setLeaf] using represents.root
    · intro other member
      have member := Std.ExtTreeMap.mem_insert.mp member
      rw [leafIndices_mapValues]
      rcases member with same | member
      · have same : index = other := by simpa using same
        exact represents.leafDomain other
          (same ▸ TreeMap.mem_of_getElem? stored)
      · exact represents.leafDomain other member
    · simpa [setLeaf] using represents.nodeDomain
    · simpa [setLeaf] using represents.leafBound
    · simpa [setLeaf] using represents.nodeBound
    · rw [first, follow_mapValues]
      exact represents.minCached
    · rw [last, follow_mapValues]
      exact represents.maxCached

end Operations

end HybridOrderbook.CritbitTree
