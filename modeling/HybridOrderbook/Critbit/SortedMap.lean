import HybridOrderbook.Critbit.Contents

namespace HybridOrderbook.CritbitTree

open Library

/-!
# The tree as a sorted map

`Refines tree map` also forgets the leaf indices: the tree binds exactly the
keys of a finite map, to the same values.  The methods of the tree are
described by what they do to that map.
-/

variable {w : Nat} {V : Type}

/-- The tree binds the keys of the map to the values of the map. -/
def Refines
    (tree : CritbitTree w V)
    (map : Std.ExtTreeMap (BitVec w) V) : Prop :=
  ∃ entries,
    tree.Lists entries ∧
      ∀ key value,
        map[key]? = some value ↔ ∃ index, ⟨index, key, value⟩ ∈ entries

theorem refines_new : (new : CritbitTree w V).Refines ∅ :=
  ⟨[], lists_new, by simp⟩

variable {tree : CritbitTree w V} {map : Std.ExtTreeMap (BitVec w) V}
  {entries : List (TrieEntry (BitVec w) w V)} {key : BitVec w} {value : V}

theorem mem_map_iff
    (sameBindings :
      ∀ key value,
        map[key]? = some value ↔ ∃ index, ⟨index, key, value⟩ ∈ entries)
    (key : BitVec w) :
    key ∈ map ↔ key ∈ entries.map TrieEntry.key := by
  constructor
  · intro bound
    obtain ⟨index, listed⟩ := (sameBindings key map[key]).mp (by simp)
    exact List.mem_map.mpr ⟨_, listed, rfl⟩
  · intro listed
    obtain ⟨entry, member, rfl⟩ := List.mem_map.mp listed
    exact TreeMap.mem_of_getElem?
      ((sameBindings entry.key entry.value).mpr ⟨entry.index, member⟩)

section Queries

theorem Refines.findLeaf_of_unbound
    (width : 0 < w)
    (refines : tree.Refines map)
    (unbound : map[key]? = none) :
    tree.findLeaf key = .ok none := by
  obtain ⟨entries, lists, sameBindings⟩ := refines
  refine lists.findLeaf_of_not_mem width fun listed => ?_
  have bound := (mem_map_iff sameBindings key).mpr listed
  simp [Std.ExtTreeMap.mem_iff_isSome_getElem?, unbound] at bound

theorem Refines.findLeaf_of_bound
    (width : 0 < w)
    (refines : tree.Refines map)
    (bound : map[key]? = some value) :
    ∃ index parent,
      tree.findLeaf key = .ok (some index) ∧
        index ≠ partitionIndex w ∧
        tree.leaves[index]? = some ⟨parent, key, value⟩ := by
  obtain ⟨entries, lists, sameBindings⟩ := refines
  obtain ⟨index, listed⟩ := (sameBindings key value).mp bound
  obtain ⟨parent, stored⟩ := lists.leaf listed
  have answer := lists.findLeaf_of_mem width listed
  exact ⟨index, parent, answer, lists.index_ne_partition width listed,
    stored⟩

/-- The stored leaves are the bindings of the map. -/
theorem Refines.bound_of_leaf
    (refines : tree.Refines map)
    {index : BitVec w}
    {leafNode : LeafNode w V}
    (stored : tree.leaves[index]? = some leafNode) :
    map[leafNode.key]? = some leafNode.value := by
  obtain ⟨entries, lists, sameBindings⟩ := refines
  exact (sameBindings _ _).mpr ⟨index, lists.listed stored⟩

/-- No two leaves store the same key. -/
theorem Refines.index_eq_of_key_eq
    (refines : tree.Refines map)
    {index other : BitVec w}
    {leafNode otherNode : LeafNode w V}
    (stored : tree.leaves[index]? = some leafNode)
    (otherStored : tree.leaves[other]? = some otherNode)
    (sameKey : leafNode.key = otherNode.key) :
    index = other := by
  obtain ⟨entries, lists, _⟩ := refines
  have same := lists.entry_eq_of_key_eq (lists.listed stored)
    (lists.listed otherStored) sameKey
  exact congrArg TrieEntry.index same

/-- The entries are the leaves, with their indices. -/
theorem Lists.leaves_perm
    {entries : List (TrieEntry (BitVec w) w V)}
    (lists : tree.Lists entries) :
    (tree.leaves.toList.map fun binding =>
      (⟨binding.1, binding.2.key, binding.2.value⟩ :
        TrieEntry (BitVec w) w V)).Perm entries := by
  have leavesNodup := TreeMap.nodup_toList tree.leaves
  have entriesNodup : entries.Nodup := by
    refine lists.sorted.imp ?_
    rintro first _ increasing rfl
    exact BitVec.lt_irrefl _ increasing
  refine (List.perm_ext_iff_of_nodup (leavesNodup.map_on ?_)
    entriesNodup).mpr ?_
  · rintro ⟨index, leaf⟩ listed ⟨otherIndex, other⟩ otherListed same
    rw [Std.ExtTreeMap.mem_toList_iff_getElem?_eq_some] at listed otherListed
    rw [TrieEntry.mk.injEq] at same
    obtain ⟨rfl, _⟩ := same
    rw [listed, Option.some.injEq] at otherListed
    rw [otherListed]
  · rintro ⟨index, key, value⟩
    constructor
    · intro member
      obtain ⟨⟨leafIndex, leaf⟩, listed, same⟩ := List.mem_map.mp member
      rw [← same]
      exact lists.listed
        (Std.ExtTreeMap.mem_toList_iff_getElem?_eq_some.mp listed)
    · intro member
      obtain ⟨parent, stored⟩ := lists.leaf member
      exact List.mem_map.mpr ⟨_,
        Std.ExtTreeMap.mem_toList_iff_getElem?_eq_some.mpr stored, rfl⟩

/-- The entries are the bindings of the map, with indices added. -/
theorem Lists.toList_perm
    {entries : List (TrieEntry (BitVec w) w V)}
    (lists : tree.Lists entries)
    (sameBindings :
      ∀ key value,
        map[key]? = some value ↔ ∃ index, ⟨index, key, value⟩ ∈ entries) :
    map.toList.Perm (entries.map fun entry => (entry.key, entry.value)) := by
  have bindingsNodup :
      (entries.map fun entry => (entry.key, entry.value)).Nodup := by
    refine List.pairwise_map.mpr (lists.sorted.imp ?_)
    intro first second increasing same
    rw [Prod.mk.injEq] at same
    exact BitVec.ne_of_lt increasing same.1
  refine (List.perm_ext_iff_of_nodup (TreeMap.nodup_toList map)
    bindingsNodup).mpr ?_
  rintro ⟨key, value⟩
  rw [Std.ExtTreeMap.mem_toList_iff_getElem?_eq_some, sameBindings]
  constructor
  · rintro ⟨index, listed⟩
    exact List.mem_map.mpr ⟨_, listed, rfl⟩
  · intro member
    obtain ⟨entry, listed, same⟩ := List.mem_map.mp member
    rw [Prod.mk.injEq] at same
    obtain ⟨rfl, rfl⟩ := same
    exact ⟨entry.index, listed⟩

/-- Totals over the leaves are totals over the map. -/
theorem Refines.total_eq
    (refines : tree.Refines map)
    (weight : BitVec w → V → Nat) :
    TreeMap.total (fun _ leaf => weight leaf.key leaf.value) tree.leaves =
      TreeMap.total weight map := by
  obtain ⟨entries, lists, sameBindings⟩ := refines
  unfold TreeMap.total
  rw [((lists.toList_perm sameBindings).map _).sum_eq, List.map_map,
    ← (lists.leaves_perm.map _).sum_eq, List.map_map]
  rfl

theorem Refines.size_eq
    (refines : tree.Refines map) : tree.size = map.size := by
  obtain ⟨entries, lists, sameBindings⟩ := refines
  have keysNodup : (entries.map TrieEntry.key).Nodup :=
    List.pairwise_map.mpr
      (lists.sorted.imp fun increasing => BitVec.ne_of_lt increasing)
  rw [lists.size_eq, TreeMap.size_eq_length keysNodup
    (mem_map_iff sameBindings), List.length_map]

theorem Refines.isEmpty_iff
    (refines : tree.Refines map) : tree.isEmpty = true ↔ map = ∅ := by
  have sizes := refines.size_eq
  rw [size] at sizes
  rw [isEmpty, Std.ExtTreeMap.isEmpty_eq_size_beq_zero, sizes,
    ← Std.ExtTreeMap.isEmpty_eq_size_beq_zero, Std.ExtTreeMap.isEmpty_iff]

/-- The least binding, as the cached minimum reports it. -/
theorem Refines.minLeaf_eq
    (refines : tree.Refines map) :
    (map = ∅ ∧ tree.minLeaf = .ok none) ∨
      ∃ key index parent value,
        tree.minLeaf = .ok (some (key, index)) ∧
          tree.leaves[index]? = some ⟨parent, key, value⟩ ∧
          map[key]? = some value ∧
          ∀ other ∈ map, key ≤ other := by
  have emptiness := refines.isEmpty_iff
  obtain ⟨entries, lists, sameBindings⟩ := refines
  have answer := lists.minLeaf_eq
  cases entries with
  | nil =>
      exact .inl ⟨emptiness.mp (lists.isEmpty_iff.mpr rfl), answer⟩
  | cons entry rest =>
      obtain ⟨parent, stored⟩ := lists.leaf (List.mem_cons_self ..)
      refine .inr ⟨entry.key, entry.index, parent, entry.value, answer,
        stored, (sameBindings _ _).mpr ⟨entry.index, List.mem_cons_self ..⟩,
        fun other bound => ?_⟩
      obtain ⟨listed, member, rfl⟩ :=
        List.mem_map.mp ((mem_map_iff sameBindings other).mp bound)
      rcases List.mem_cons.mp member with rfl | later
      · exact BitVec.le_refl _
      · exact BitVec.le_of_lt
          ((List.pairwise_cons.mp lists.sorted).1 listed later)

/-- The greatest binding, as the cached maximum reports it. -/
theorem Refines.maxLeaf_eq
    (refines : tree.Refines map) :
    (map = ∅ ∧ tree.maxLeaf = .ok none) ∨
      ∃ key index parent value,
        tree.maxLeaf = .ok (some (key, index)) ∧
          tree.leaves[index]? = some ⟨parent, key, value⟩ ∧
          map[key]? = some value ∧
          ∀ other ∈ map, other ≤ key := by
  have emptiness := refines.isEmpty_iff
  obtain ⟨entries, lists, sameBindings⟩ := refines
  have answer := lists.maxLeaf_eq
  rcases List.eq_nil_or_concat entries with rfl | ⟨rest, entry, rfl⟩
  · exact .inl ⟨emptiness.mp (lists.isEmpty_iff.mpr rfl), answer⟩
  · rw [List.concat_eq_append] at *
    have member : entry ∈ rest ++ [entry] := by simp
    obtain ⟨parent, stored⟩ := lists.leaf member
    rw [List.getLast?_append_cons, List.getLast?_singleton] at answer
    refine .inr ⟨entry.key, entry.index, parent, entry.value, answer,
      stored, (sameBindings _ _).mpr ⟨entry.index, member⟩,
      fun other bound => ?_⟩
    obtain ⟨listed, member, rfl⟩ :=
      List.mem_map.mp ((mem_map_iff sameBindings other).mp bound)
    rcases List.mem_append.mp member with earlier | last
    · exact BitVec.le_of_lt ((List.pairwise_append.mp lists.sorted).2.2
        listed earlier entry (List.mem_singleton_self entry))
    · rw [List.mem_singleton.mp last]
      exact BitVec.le_refl _

end Queries

section Operations

/-- Inserting a fresh key while a leaf index is left. -/
theorem Refines.insert
    (width : 0 < w)
    (refines : tree.Refines map)
    (room : tree.nextLeafNodeIndex < capacity w)
    (unbound : map[key]? = none)
    (value : V) :
    ∃ reached,
      CritbitTree.insert key value tree = (.ok (), reached) ∧
        reached.Refines (map.insert key value) := by
  obtain ⟨entries, lists, sameBindings⟩ := refines
  have fresh : key ∉ entries.map TrieEntry.key := by
    intro listed
    have bound := (mem_map_iff sameBindings key).mpr listed
    simp [Std.ExtTreeMap.mem_iff_isSome_getElem?, unbound] at bound
  obtain ⟨reached, listed, executed, reachedLists, permuted⟩ :=
    lists.insert width room fresh value
  refine ⟨reached, executed, listed, reachedLists, ?_⟩
  intro other bound
  simp only [permuted.mem_iff, List.mem_cons, TrieEntry.mk.injEq,
    Std.ExtTreeMap.getElem?_insert]
  by_cases same : key = other
  · subst same
    have notListed : ∀ index, ⟨index, key, bound⟩ ∉ entries := by
      intro index member
      exact fresh (List.mem_map.mpr ⟨_, member, rfl⟩)
    simp [notListed, eq_comm]
  · simp [same, Ne.symm same, sameBindings]

/-- Once the leaf indices are used up every insertion is refused. -/
theorem Refines.insert_full
    (width : 0 < w)
    (refines : tree.Refines map)
    (full : ¬ tree.nextLeafNodeIndex < capacity w)
    (key : BitVec w)
    (value : V) :
    (CritbitTree.insert key value tree).1 =
      .error (.error .exceedCapacity) := by
  obtain ⟨entries, lists, _⟩ := refines
  exact lists.insert_full width full key value

/-- Removing a stored leaf. -/
theorem Refines.remove
    (width : 0 < w)
    (refines : tree.Refines map)
    {index : BitVec w}
    {leafNode : LeafNode w V}
    (stored : tree.leaves[index]? = some leafNode) :
    ∃ reached,
      removeLeafByIndex index tree = (.ok leafNode.value, reached) ∧
        reached.Refines (map.erase leafNode.key) := by
  obtain ⟨entries, lists, sameBindings⟩ := refines
  have listed := lists.listed stored
  obtain ⟨reached, remaining, executed, reachedLists, permuted⟩ :=
    lists.remove width listed
  refine ⟨reached, executed, remaining, reachedLists, ?_⟩
  have keysNodup : (entries.map TrieEntry.key).Nodup :=
    List.pairwise_map.mpr
      (lists.sorted.imp fun increasing => BitVec.ne_of_lt increasing)
  rw [(permuted.map TrieEntry.key).nodup_iff, List.map_cons,
    List.nodup_cons] at keysNodup
  intro other bound
  rw [Std.ExtTreeMap.getElem?_erase]
  by_cases same : leafNode.key = other
  · subst same
    have notListed : ∀ index, ⟨index, leafNode.key, bound⟩ ∉ remaining := by
      intro index member
      exact keysNodup.1 (List.mem_map.mpr ⟨_, member, rfl⟩)
    simp [notListed]
  · simp [same, Ne.symm same, sameBindings, permuted.mem_iff]

/-- Writing a new value into a stored leaf. -/
theorem Refines.setValue
    (refines : tree.Refines map)
    {index : BitVec w}
    {leafNode : LeafNode w V}
    (stored : tree.leaves[index]? = some leafNode)
    (value : V) :
    (tree.setLeaf index { leafNode with value := value }).Refines
      (map.insert leafNode.key value) := by
  obtain ⟨entries, lists, sameBindings⟩ := refines
  have listed := lists.listed stored
  refine ⟨_, lists.setValue stored value, ?_⟩
  intro other bound
  rw [Std.ExtTreeMap.getElem?_insert]
  by_cases same : leafNode.key = other
  · subst same
    simp only [Std.compare_self, ↓reduceIte, Option.some.injEq]
    constructor
    · rintro rfl
      exact ⟨index, List.mem_map.mpr ⟨_, listed, by simp⟩⟩
    · rintro ⟨otherIndex, member⟩
      obtain ⟨entry, entryListed, changed⟩ := List.mem_map.mp member
      rw [TrieEntry.mk.injEq] at changed
      have isLeaf := lists.entry_eq_of_key_eq entryListed listed changed.2.1
      simpa [isLeaf] using changed.2.2
  · simp only [Std.compare_eq_iff_eq, same, ↓reduceIte, sameBindings]
    constructor
    · rintro ⟨otherIndex, member⟩
      have different : otherIndex ≠ index := by
        intro sameIndex
        have isLeaf := lists.entry_eq_of_index_eq member listed sameIndex
        rw [TrieEntry.mk.injEq] at isLeaf
        exact same isLeaf.2.1.symm
      exact ⟨otherIndex, List.mem_map.mpr ⟨_, member, by simp [different]⟩⟩
    · rintro ⟨otherIndex, member⟩
      obtain ⟨entry, entryListed, changed⟩ := List.mem_map.mp member
      rw [TrieEntry.mk.injEq] at changed
      have different : entry.index ≠ index := by
        intro sameIndex
        have isLeaf :=
          lists.entry_eq_of_index_eq entryListed listed sameIndex
        rw [isLeaf] at changed
        exact same changed.2.1
      rw [if_neg different] at changed
      refine ⟨otherIndex, ?_⟩
      rw [← changed.1, ← changed.2.1, ← changed.2.2]
      exact entryListed

end Operations

end HybridOrderbook.CritbitTree
