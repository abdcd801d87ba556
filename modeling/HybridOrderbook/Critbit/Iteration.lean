import HybridOrderbook.Critbit.Invariant

namespace HybridOrderbook.CritbitTree

open Library Library.Trie

/-!
# Neighbouring leaves

`next_leaf` and `previous_leaf` climb parent links and descend on the other
side.  In a sorted list of entries they step to the neighbour, so following
`next_leaf` from the minimum lists all keys in order.
-/

variable {w : Nat} {V : Type}

/-- A leaf with this key is stored at this index. -/
def HasLeaf (tree : CritbitTree w V) (key index : BitVec w) : Prop :=
  ∃ leafNode, tree.leaves[index]? = some leafNode ∧ leafNode.key = key

/--
An answer names the key nearest to `key` among those beyond it, with its leaf
index, and is `none` exactly if there are none beyond it.
-/
structure AnswersNearest
    (tree : CritbitTree w V)
    (beyond : BitVec w → BitVec w → Prop)
    (key : BitVec w)
    (answer : TreeResult (Option (BitVec w × BitVec w))) : Prop where
  none_iff :
    answer = .ok none ↔
      ∀ other index, tree.HasLeaf other index → ¬ beyond key other
  some_iff :
    ∀ found index,
      answer = .ok (some (found, index)) ↔
        tree.HasLeaf found index ∧ beyond key found ∧
          ∀ other otherIndex,
            tree.HasLeaf other otherIndex → beyond key other →
              other = found ∨ beyond found other

/-- Collect keys by following `next_leaf`. -/
def keysFrom (tree : CritbitTree w V) :
    Nat → Option (BitVec w × BitVec w) → TreeResult (List (BitVec w))
  | _, none => .ok []
  | 0, some _ => .error .diverge
  | fuel + 1, some (key, _) => do
      let next ← tree.nextLeaf key
      let rest ← tree.keysFrom fuel next
      .ok (key :: rest)

/-- The keys that following `next_leaf` from the minimum visits. -/
def keysInOrder (tree : CritbitTree w V) : TreeResult (List (BitVec w)) := do
  let first ← tree.minLeaf
  tree.keysFrom tree.size first

section Sorted

variable {tree : CritbitTree w V}
  {entries before after : List (TrieEntry (BitVec w) w V)}
  {entry : TrieEntry (BitVec w) w V}

theorem Lists.hasLeaf_iff
    (lists : tree.Lists entries)
    {key index : BitVec w} :
    tree.HasLeaf key index ↔
      ∃ entry ∈ entries, entry.key = key ∧ entry.index = index := by
  constructor
  · rintro ⟨leafNode, stored, rfl⟩
    exact ⟨_, lists.listed stored, rfl, rfl⟩
  · rintro ⟨entry, listed, rfl, rfl⟩
    obtain ⟨parent, stored⟩ := lists.leaf listed
    exact ⟨_, stored, rfl⟩

/-- The neighbours of an entry in the tree are those in the list. -/
theorem Lists.neighbours
    (width : 0 < w)
    (lists : tree.Lists entries)
    (split : entries = before ++ entry :: after) :
    tree.nextLeaf entry.key = .ok (after.head?.map report) ∧
      tree.previousLeaf entry.key = .ok (before.getLast?.map report) := by
  have sorted := lists.sorted
  rcases lists with ⟨_, rfl⟩ | ⟨shape, represents, rfl⟩
  · simp at split
  · have listed : entry ∈ shape.entries := by simp [split]
    obtain ⟨context, rfl⟩ := exists_context_of_mem listed
    rw [entries_plug, entries_leaf, List.singleton_append] at split sorted
    -- an entry occurs only once, so the list splits around it in one way
    obtain ⟨_, beyond, across⟩ := List.pairwise_append.mp sorted
    have notBefore : entry ∉ context.before := fun member =>
      BitVec.lt_irrefl _ (across _ member _ (List.mem_cons_self ..))
    have notAfter : entry ∉ context.after := fun member =>
      BitVec.lt_irrefl _ ((List.pairwise_cons.mp beyond).1 _ member)
    obtain ⟨rfl, _, rfl⟩ :=
      (List.append_cons_inj_of_notMem notBefore notAfter).mp split
    exact ⟨represents.toHolds.nextLeaf_eq width,
      represents.toHolds.previousLeaf_eq width⟩

/-- The first of the sorted entries beyond a key is the nearest one. -/
theorem Lists.answersNearest
    (lists : tree.Lists entries)
    {beyond : BitVec w → BitVec w → Prop}
    (asymmetric : ∀ {x y}, beyond x y → ¬ beyond y x)
    {key : BitVec w}
    {near : List (TrieEntry (BitVec w) w V)}
    (sorted : near.Pairwise fun first second => beyond first.key second.key)
    (collects :
      ∀ entry, entry ∈ near ↔ entry ∈ entries ∧ beyond key entry.key) :
    tree.AnswersNearest beyond key (.ok (near.head?.map report)) where
  none_iff := by
    simp only [Except.ok.injEq, Option.map_eq_none_iff,
      List.head?_eq_none_iff]
    constructor
    · rintro rfl other index stored further
      obtain ⟨entry, listed, rfl, _⟩ := lists.hasLeaf_iff.mp stored
      cases (collects entry).mpr ⟨listed, further⟩
    · intro none
      refine List.eq_nil_iff_forall_not_mem.mpr fun entry member => ?_
      obtain ⟨listed, further⟩ := (collects entry).mp member
      exact none _ _ (lists.hasLeaf_iff.mpr ⟨entry, listed, rfl, rfl⟩) further
  some_iff found index := by
    simp only [Except.ok.injEq, Option.map_eq_some_iff, report,
      Prod.mk.injEq]
    constructor
    · rintro ⟨nearest, first, rfl, rfl⟩
      obtain ⟨rest, rfl⟩ := List.head?_eq_some_iff.mp first
      obtain ⟨listed, further⟩ :=
        (collects nearest).mp (List.mem_cons_self ..)
      refine ⟨lists.hasLeaf_iff.mpr ⟨nearest, listed, rfl, rfl⟩, further, ?_⟩
      intro other otherIndex stored otherFurther
      obtain ⟨entry, otherListed, rfl, _⟩ := lists.hasLeaf_iff.mp stored
      rcases List.mem_cons.mp
        ((collects entry).mpr ⟨otherListed, otherFurther⟩) with rfl | later
      · exact .inl rfl
      · exact .inr ((List.pairwise_cons.mp sorted).1 entry later)
    · rintro ⟨stored, further, nearest⟩
      obtain ⟨entry, listed, rfl, rfl⟩ := lists.hasLeaf_iff.mp stored
      have member := (collects entry).mpr ⟨listed, further⟩
      cases near with
      | nil =>
          cases member
      | cons head rest =>
          refine ⟨head, rfl, ?_⟩
          rcases List.mem_cons.mp member with rfl | later
          · exact ⟨rfl, rfl⟩
          · have ahead := (List.pairwise_cons.mp sorted).1 entry later
            obtain ⟨headListed, headFurther⟩ :=
              (collects head).mp (List.mem_cons_self ..)
            rcases nearest _ _
              (lists.hasLeaf_iff.mpr ⟨head, headListed, rfl, rfl⟩)
              headFurther with same | behind
            · rw [same] at ahead
              exact absurd ahead (asymmetric ahead)
            · exact absurd behind (asymmetric ahead)

/-- Following `next_leaf` from an entry lists the rest of the entries. -/
theorem Lists.keysFrom_eq
    (width : 0 < w)
    (lists : tree.Lists entries)
    (split : entries = before ++ after)
    {fuel : Nat}
    (enough : after.length ≤ fuel) :
    tree.keysFrom fuel (after.head?.map report) =
      .ok (after.map TrieEntry.key) := by
  induction after generalizing before fuel with
  | nil =>
      simp [keysFrom]
  | cons entry rest inductionHypothesis =>
      obtain ⟨fuel, rfl⟩ := Nat.exists_eq_succ_of_ne_zero
        (Nat.ne_of_gt (Nat.lt_of_lt_of_le (Nat.succ_pos _) enough))
      have shifted : entries = (before ++ [entry]) ++ rest := by
        simpa using split
      have later :=
        inductionHypothesis shifted (Nat.le_of_succ_le_succ enough)
      simp [keysFrom, report, (lists.neighbours width split).1, ok_bind,
        later]

/-- What is beyond an entry of a sorted list is on one side of it. -/
theorem Lists.mem_after_iff
    (lists : tree.Lists entries)
    (split : entries = before ++ entry :: after)
    (other : TrieEntry (BitVec w) w V) :
    (other ∈ after ↔ other ∈ entries ∧ entry.key < other.key) ∧
      (other ∈ before ↔ other ∈ entries ∧ other.key < entry.key) := by
  have sorted := lists.sorted
  rw [split] at sorted ⊢
  obtain ⟨_, beyond, across⟩ := List.pairwise_append.mp sorted
  have larger := (List.pairwise_cons.mp beyond).1 other
  have smaller := fun member =>
    across other member entry (List.mem_cons_self ..)
  constructor
  · constructor
    · intro member
      exact ⟨by simp [member], larger member⟩
    · rintro ⟨listed, further⟩
      rcases List.mem_append.mp listed with member | member
      · exact absurd further (BitVec.lt_asymm (smaller member))
      · rcases List.mem_cons.mp member with rfl | member
        · exact absurd further (BitVec.lt_irrefl _)
        · exact member
  · constructor
    · intro member
      exact ⟨by simp [member], smaller member⟩
    · rintro ⟨listed, further⟩
      rcases List.mem_append.mp listed with member | member
      · exact member
      · rcases List.mem_cons.mp member with rfl | member
        · exact absurd further (BitVec.lt_irrefl _)
        · exact absurd further (BitVec.lt_asymm (larger member))

theorem Lists.nextLeaf_answersNearest
    (width : 0 < w)
    (lists : tree.Lists entries)
    (split : entries = before ++ entry :: after) :
    tree.AnswersNearest (· < ·) entry.key (tree.nextLeaf entry.key) := by
  have sorted := lists.sorted
  rw [split, List.pairwise_append, List.pairwise_cons] at sorted
  rw [(lists.neighbours width split).1]
  exact lists.answersNearest BitVec.lt_asymm sorted.2.1.2
    fun other => (lists.mem_after_iff split other).1

theorem Lists.previousLeaf_answersNearest
    (width : 0 < w)
    (lists : tree.Lists entries)
    (split : entries = before ++ entry :: after) :
    tree.AnswersNearest (fun key other => other < key) entry.key
      (tree.previousLeaf entry.key) := by
  have sorted := lists.sorted
  rw [split, List.pairwise_append] at sorted
  rw [(lists.neighbours width split).2, ← List.head?_reverse]
  refine lists.answersNearest BitVec.lt_asymm
    (List.pairwise_reverse.mpr sorted.1) fun other => ?_
  rw [List.mem_reverse]
  exact (lists.mem_after_iff split other).2

end Sorted

/--
In every tree that successful operations reach, `next_leaf` is the successor
and `previous_leaf` the predecessor of every key, and following `next_leaf`
from the minimum visits every key once, in increasing order.
-/
theorem neighbours_of_run
    (width : 0 < w)
    (ops : List (TreeOp w V))
    {tree : CritbitTree w V}
    (ran : Run.run TreeOp.step ops new = some tree) :
    (∀ key index,
      tree.HasLeaf key index →
        tree.AnswersNearest (· < ·) key (tree.nextLeaf key) ∧
          tree.AnswersNearest (fun key other => other < key) key
            (tree.previousLeaf key)) ∧
      ∃ keys,
        tree.keysInOrder = .ok keys ∧
          keys.Pairwise (· < ·) ∧
          ∀ key, key ∈ keys ↔ ∃ index, tree.HasLeaf key index := by
  obtain ⟨entries, lists⟩ := lists_of_run width ops ran
  refine ⟨?_, entries.map TrieEntry.key, ?_, ?_, ?_⟩
  · intro key index stored
    obtain ⟨entry, listed, rfl, _⟩ := lists.hasLeaf_iff.mp stored
    obtain ⟨before, after, split⟩ := List.append_of_mem listed
    exact ⟨lists.nextLeaf_answersNearest width split,
      lists.previousLeaf_answersNearest width split⟩
  · rw [keysInOrder, lists.minLeaf_eq, ok_bind]
    exact lists.keysFrom_eq width (List.nil_append _).symm
      (Nat.le_of_eq lists.size_eq.symm)
  · exact List.pairwise_map.mpr lists.sorted
  · intro key
    rw [List.mem_map]
    constructor
    · rintro ⟨entry, listed, rfl⟩
      exact ⟨_, lists.hasLeaf_iff.mpr ⟨entry, listed, rfl, rfl⟩⟩
    · rintro ⟨index, stored⟩
      obtain ⟨entry, listed, same, _⟩ := lists.hasLeaf_iff.mp stored
      exact ⟨entry, listed, same⟩

/-- Keys at both ends of the range and in the middle, after two removals. -/
theorem neighbours_of_short_run :
    ∃ tree : CritbitTree 64 Nat,
      Run.run TreeOp.step
          [.insert 0 0, .insert (BitVec.allOnes 64) 1, .insert 5 2,
            .insert (1#64 <<< 63) 3, .removeLeafByIndex 1, .insert 4 4,
            .removeLeafByIndex 0] new = some tree ∧
        tree.AnswersNearest (· < ·) 5 (tree.nextLeaf 5) ∧
        tree.AnswersNearest (fun key other => other < key) 5
          (tree.previousLeaf 5) ∧
        ∃ keys,
          tree.keysInOrder = .ok keys ∧ keys.Pairwise (· < ·) ∧
            ∀ key, key ∈ keys ↔ ∃ index, tree.HasLeaf key index := by
  have stored :
      (Run.run TreeOp.step
        [.insert 0 0, .insert (BitVec.allOnes 64) 1, .insert 5 2,
          .insert (1#64 <<< 63) 3, .removeLeafByIndex 1, .insert 4 4,
          .removeLeafByIndex 0] (new : CritbitTree 64 Nat)).bind
        (fun tree => tree.leaves[(2 : BitVec 64)]?.map LeafNode.key) =
      some 5 := by
    decide
  obtain ⟨tree, ran, found⟩ := Option.bind_eq_some_iff.mp stored
  obtain ⟨leafNode, found, key⟩ := Option.map_eq_some_iff.mp found
  obtain ⟨neighbours, ordered⟩ := neighbours_of_run (by decide) _ ran
  obtain ⟨next, previous⟩ := neighbours 5 2 ⟨leafNode, found, key⟩
  exact ⟨tree, ran, next, previous, ordered⟩

end HybridOrderbook.CritbitTree
