import Mathlib.Tactic
import Mathlib.Data.Nat.Bitwise

namespace Library

/-!
# Binary tries on fixed-width keys

A trie branches on one bit position per inner node.  It is `Ordered` when
every node separates its keys at its bit and all of them agree on the bits
above, which is what makes the in-order leaf sequence the numeric order.

A `Context` is a trie with one subtree missing, read from the hole upwards.
Insertion, removal and neighbour search all change or inspect a trie around
one subtree, so each of them is a statement about `plug`.
-/

/-- What a trie stores at one leaf. -/
structure TrieEntry (ι : Type) (w : Nat) (V : Type) where
  index : ι
  key : BitVec w
  value : V

/-- A trie whose inner nodes branch on a bit position of the key. -/
inductive Trie (ι : Type) (w : Nat) (V : Type) where
  | leaf : TrieEntry ι w V → Trie ι w V
  | node : ι → Nat → Trie ι w V → Trie ι w V → Trie ι w V

/-- Two keys agree on every bit above the given position. -/
def AgreeAbove (bit : Nat) (x y : BitVec w) : Prop :=
  ∀ position, bit < position → x.getLsbD position = y.getLsbD position

namespace AgreeAbove

theorem refl (bit : Nat) (x : BitVec w) : AgreeAbove bit x x :=
  fun _ _ => rfl

theorem symm
    {bit : Nat}
    {x y : BitVec w}
    (agree : AgreeAbove bit x y) :
    AgreeAbove bit y x :=
  fun position above => (agree position above).symm

theorem trans
    {bit : Nat}
    {x y z : BitVec w}
    (first : AgreeAbove bit x y)
    (second : AgreeAbove bit y z) :
    AgreeAbove bit x z :=
  fun position above =>
    (first position above).trans (second position above)

/-- Agreement above a position is agreement above every higher one. -/
theorem mono
    {low high : Nat}
    {x y : BitVec w}
    (agree : AgreeAbove low x y)
    (ordered : low ≤ high) :
    AgreeAbove high x y :=
  fun position above => agree position (ordered.trans_lt above)

/-- The first differing bit decides the numeric order. -/
theorem lt
    {bit : Nat}
    {x y : BitVec w}
    (agree : AgreeAbove bit x y)
    (clear : x.getLsbD bit = false)
    (set : y.getLsbD bit = true) :
    x < y :=
  Nat.lt_of_testBit bit clear set agree

/-- The smaller of two keys is the one whose first differing bit is clear. -/
theorem lt_iff
    {bit : Nat}
    {x y : BitVec w}
    (agree : AgreeAbove bit x y)
    (differ : x.getLsbD bit ≠ y.getLsbD bit) :
    x < y ↔ x.getLsbD bit = false := by
  cases first : x.getLsbD bit with
  | false =>
      have set : y.getLsbD bit = true := by simpa [first] using differ.symm
      simp [agree.lt first set]
  | true =>
      have clear : y.getLsbD bit = false := by
        simpa [first] using differ.symm
      have greater := agree.symm.lt clear first
      simp [BitVec.le_of_lt greater]

end AgreeAbove

/-- The highest bit position at which two keys differ. -/
def criticalBit (x y : BitVec w) : Nat :=
  (x ^^^ y).toNat.log2

theorem criticalBit_comm (x y : BitVec w) :
    criticalBit x y = criticalBit y x := by
  rw [criticalBit, criticalBit, BitVec.xor_comm]

/-- Distinct keys have a nonzero symmetric difference. -/
theorem toNat_xor_ne_zero {x y : BitVec w} (different : x ≠ y) :
    (x ^^^ y).toNat ≠ 0 := by
  intro zero
  apply different
  have cleared : x ^^^ y = 0#w := BitVec.eq_of_toNat_eq (by simpa using zero)
  exact BitVec.xor_eq_zero_iff.mp cleared

/-- The critical bit lies inside the key. -/
theorem criticalBit_lt {x y : BitVec w} (different : x ≠ y) :
    criticalBit x y < w :=
  (Nat.log2_lt (toNat_xor_ne_zero different)).mpr (x ^^^ y).isLt

/-- Distinct keys differ at their critical bit. -/
theorem criticalBit_differs {x y : BitVec w} (different : x ≠ y) :
    x.getLsbD (criticalBit x y) = !y.getLsbD (criticalBit x y) := by
  have set : (x ^^^ y).getLsbD (criticalBit x y) = true :=
    Nat.testBit_log2 (toNat_xor_ne_zero different)
  rw [BitVec.getLsbD_xor] at set
  cases first : x.getLsbD (criticalBit x y) <;>
    cases second : y.getLsbD (criticalBit x y) <;>
      simp_all

/-- Keys agree above their critical bit. -/
theorem criticalBit_agree (x y : BitVec w) :
    AgreeAbove (criticalBit x y) x y := by
  intro position above
  have clear : (x ^^^ y).getLsbD position = false := by
    apply Nat.testBit_lt_two_pow
    by_cases zero : (x ^^^ y).toNat = 0
    · rw [zero]
      exact Nat.two_pow_pos position
    · exact (Nat.log2_lt zero).mp above
  rw [BitVec.getLsbD_xor] at clear
  cases first : x.getLsbD position <;>
    cases second : y.getLsbD position <;>
      simp_all

namespace Trie

variable {ι V : Type} {w : Nat}

/-- Stored entries from left to right. -/
def entries : Trie ι w V → List (TrieEntry ι w V)
  | leaf entry => [entry]
  | node _ _ left right => left.entries ++ right.entries

/-- Stored keys from left to right. -/
def keys (trie : Trie ι w V) : List (BitVec w) :=
  trie.entries.map TrieEntry.key

/-- Indices of the leaves from left to right. -/
def leafIndices (trie : Trie ι w V) : List ι :=
  trie.entries.map TrieEntry.index

/-- Indices of the inner nodes, each before those below it. -/
def nodeIndices : Trie ι w V → List ι
  | leaf _ => []
  | node index _ left right =>
      index :: (left.nodeIndices ++ right.nodeIndices)

@[simp] theorem entries_leaf (entry : TrieEntry ι w V) :
    (leaf entry).entries = [entry] :=
  rfl

@[simp] theorem entries_node
    (index : ι) (bit : Nat) (left right : Trie ι w V) :
    (node index bit left right).entries = left.entries ++ right.entries :=
  rfl

@[simp] theorem keys_leaf (entry : TrieEntry ι w V) :
    (leaf entry).keys = [entry.key] :=
  rfl

@[simp] theorem keys_node
    (index : ι) (bit : Nat) (left right : Trie ι w V) :
    (node index bit left right).keys = left.keys ++ right.keys := by
  simp [keys]

@[simp] theorem leafIndices_leaf (entry : TrieEntry ι w V) :
    (leaf entry).leafIndices = [entry.index] :=
  rfl

@[simp] theorem leafIndices_node
    (index : ι) (bit : Nat) (left right : Trie ι w V) :
    (node index bit left right).leafIndices =
      left.leafIndices ++ right.leafIndices := by
  simp [leafIndices]

@[simp] theorem nodeIndices_leaf (entry : TrieEntry ι w V) :
    (leaf entry).nodeIndices = [] :=
  rfl

@[simp] theorem nodeIndices_node
    (index : ι) (bit : Nat) (left right : Trie ι w V) :
    (node index bit left right).nodeIndices =
      index :: (left.nodeIndices ++ right.nodeIndices) :=
  rfl

/-- A trie has one leaf more than it has inner nodes. -/
theorem length_entries (trie : Trie ι w V) :
    trie.entries.length = trie.nodeIndices.length + 1 := by
  induction trie with
  | leaf entry =>
      rfl
  | node index bit left right leftHypothesis rightHypothesis =>
      simp only [entries_node, nodeIndices_node, List.length_append,
        List.length_cons]
      omega

/-- Every trie stores at least one entry. -/
theorem entries_ne_nil (trie : Trie ι w V) : trie.entries ≠ [] := by
  intro empty
  have count := trie.length_entries
  simp [empty] at count

/-- The entry reached when `goLeft` chooses the branch at each bit. -/
def follow (goLeft : Nat → Bool) : Trie ι w V → TrieEntry ι w V
  | leaf entry => entry
  | node _ bit left right =>
      if goLeft bit then left.follow goLeft else right.follow goLeft

/-- The leftmost entry. -/
def first (trie : Trie ι w V) : TrieEntry ι w V :=
  trie.follow fun _ => true

/-- The rightmost entry. -/
def last (trie : Trie ι w V) : TrieEntry ι w V :=
  trie.follow fun _ => false

/-- The entry a key leads to when its bits choose the branches. -/
def closest (key : BitVec w) (trie : Trie ι w V) : TrieEntry ι w V :=
  trie.follow fun bit => !key.getLsbD bit

/-- Every followed path ends at a stored entry. -/
theorem follow_mem (goLeft : Nat → Bool) (trie : Trie ι w V) :
    trie.follow goLeft ∈ trie.entries := by
  induction trie with
  | leaf entry =>
      simp [follow]
  | node index bit left right leftHypothesis rightHypothesis =>
      cases choice : goLeft bit with
      | true =>
          simp [follow, choice, leftHypothesis]
      | false =>
          simp [follow, choice, rightHypothesis]

/-- The closest entry is stored. -/
theorem closest_mem (key : BitVec w) (trie : Trie ι w V) :
    trie.closest key ∈ trie.entries :=
  follow_mem _ trie

/-- At a node the key's bit selects the subtree to continue in. -/
theorem closest_node
    (key : BitVec w)
    (index : ι)
    (bit : Nat)
    (left right : Trie ι w V) :
    (node index bit left right).closest key =
      if key.getLsbD bit then right.closest key else left.closest key := by
  cases set : key.getLsbD bit <;>
    simp [closest, follow, set]

/-- The leftmost entry heads the in-order sequence. -/
theorem head?_entries (trie : Trie ι w V) :
    trie.entries.head? = some trie.first := by
  induction trie with
  | leaf entry =>
      rfl
  | node index bit left right leftHypothesis rightHypothesis =>
      rw [entries_node, List.head?_append, leftHypothesis]
      rfl

/-- The rightmost entry ends the in-order sequence. -/
theorem getLast?_entries (trie : Trie ι w V) :
    trie.entries.getLast? = some trie.last := by
  induction trie with
  | leaf entry =>
      rfl
  | node index bit left right leftHypothesis rightHypothesis =>
      rw [entries_node, List.getLast?_append, rightHypothesis]
      rfl

/-- Every node separates its keys at its bit, and nowhere above it. -/
inductive Ordered : Trie ι w V → Prop where
  | leaf (entry : TrieEntry ι w V) :
      Ordered (.leaf entry)
  | node
      {index : ι}
      {bit : Nat}
      {left right : Trie ι w V}
      (inRange : bit < w)
      (leftClear : ∀ key ∈ left.keys, key.getLsbD bit = false)
      (rightSet : ∀ key ∈ right.keys, key.getLsbD bit = true)
      (agree :
        ∀ x ∈ left.keys ++ right.keys,
          ∀ y ∈ left.keys ++ right.keys, AgreeAbove bit x y)
      (leftOrdered : Ordered left)
      (rightOrdered : Ordered right) :
      Ordered (.node index bit left right)

/-- In an ordered trie the bits of a stored key lead to that key. -/
theorem Ordered.closest_key
    {trie : Trie ι w V}
    (ordered : trie.Ordered)
    {key : BitVec w}
    (stored : key ∈ trie.keys) :
    (trie.closest key).key = key := by
  induction ordered with
  | leaf entry =>
      simpa [closest, follow, eq_comm] using stored
  | @node index bit left right inRange leftClear rightSet agree
      leftOrdered rightOrdered leftHypothesis rightHypothesis =>
      rw [keys_node, List.mem_append] at stored
      rcases stored with inLeft | inRight
      · simp [closest_node, leftClear key inLeft, leftHypothesis inLeft]
      · simp [closest_node, rightSet key inRight, rightHypothesis inRight]

/-- The in-order keys of an ordered trie are strictly increasing. -/
theorem Ordered.sorted
    {trie : Trie ι w V}
    (ordered : trie.Ordered) :
    trie.keys.Pairwise (· < ·) := by
  induction ordered with
  | leaf entry =>
      simp
  | @node index bit left right inRange leftClear rightSet agree
      leftOrdered rightOrdered leftHypothesis rightHypothesis =>
      rw [keys_node, List.pairwise_append]
      refine ⟨leftHypothesis, rightHypothesis, ?_⟩
      intro x inLeft y inRight
      have agreed : AgreeAbove bit x y :=
        agree x (List.mem_append_left _ inLeft)
          y (List.mem_append_right _ inRight)
      exact agreed.lt (leftClear x inLeft) (rightSet y inRight)

/-- An ordered trie stores each key once. -/
theorem Ordered.keys_nodup
    {trie : Trie ι w V}
    (ordered : trie.Ordered) :
    trie.keys.Nodup :=
  ordered.sorted.imp fun less => BitVec.ne_of_lt less

/-- Two stored entries with the same key are the same entry. -/
theorem Ordered.entry_eq_of_key_eq
    {trie : Trie ι w V}
    (ordered : trie.Ordered)
    {first second : TrieEntry ι w V}
    (firstStored : first ∈ trie.entries)
    (secondStored : second ∈ trie.entries)
    (sameKey : first.key = second.key) :
    first = second :=
  List.inj_on_of_nodup_map ordered.keys_nodup
    firstStored secondStored sameKey

/-- In an ordered trie the key of an entry leads to that entry. -/
theorem Ordered.closest_eq
    {trie : Trie ι w V}
    (ordered : trie.Ordered)
    {entry : TrieEntry ι w V}
    (stored : entry ∈ trie.entries) :
    trie.closest entry.key = entry :=
  ordered.entry_eq_of_key_eq (closest_mem entry.key trie) stored
    (ordered.closest_key (List.mem_map_of_mem stored))

/-- The first entry carries the least key. -/
theorem Ordered.first_le
    {trie : Trie ι w V}
    (ordered : trie.Ordered)
    {entry : TrieEntry ι w V}
    (stored : entry ∈ trie.entries) :
    trie.first.key ≤ entry.key := by
  have sorted : trie.entries.Pairwise (fun x y => x.key < y.key) :=
    List.pairwise_map.mp ordered.sorted
  have leading := head?_entries trie
  cases listed : trie.entries with
  | nil =>
      simp [listed] at stored
  | cons head tail =>
      rw [listed] at sorted stored leading
      have isHead : trie.first = head := by simpa using leading.symm
      rcases List.mem_cons.mp stored with here | later
      · rw [here, isHead]
        exact BitVec.le_refl _
      · rw [isHead]
        exact BitVec.le_of_lt ((List.pairwise_cons.mp sorted).1 entry later)

/-- The last entry carries the greatest key. -/
theorem Ordered.le_last
    {trie : Trie ι w V}
    (ordered : trie.Ordered)
    {entry : TrieEntry ι w V}
    (stored : entry ∈ trie.entries) :
    entry.key ≤ trie.last.key := by
  have sorted : trie.entries.Pairwise (fun x y => x.key < y.key) :=
    List.pairwise_map.mp ordered.sorted
  obtain ⟨front, listed⟩ := List.getLast?_eq_some_iff.mp
    (getLast?_entries trie)
  rw [listed] at sorted stored
  rcases List.mem_append.mp stored with earlier | here
  · exact BitVec.le_of_lt ((List.pairwise_append.mp sorted).2.2
      entry earlier trie.last (by simp))
  · have isLast : entry = trie.last := by simpa using here
    rw [isLast]
    exact BitVec.le_refl _

theorem Ordered.first_eq
    {trie : Trie ι w V}
    (ordered : trie.Ordered)
    {entry : TrieEntry ι w V}
    (stored : entry ∈ trie.entries)
    (least : ∀ other ∈ trie.entries, entry.key ≤ other.key) :
    trie.first = entry :=
  ordered.entry_eq_of_key_eq (follow_mem _ trie) stored
    (BitVec.le_antisymm (ordered.first_le stored)
      (least _ (follow_mem _ trie)))

theorem Ordered.last_eq
    {trie : Trie ι w V}
    (ordered : trie.Ordered)
    {entry : TrieEntry ι w V}
    (stored : entry ∈ trie.entries)
    (greatest : ∀ other ∈ trie.entries, other.key ≤ entry.key) :
    trie.last = entry :=
  ordered.entry_eq_of_key_eq (follow_mem _ trie) stored
    (BitVec.le_antisymm (greatest _ (follow_mem _ trie))
      (ordered.le_last stored))

/-- Change the value of every entry, keeping keys and indices. -/
def mapValues (change : TrieEntry ι w V → V) : Trie ι w V → Trie ι w V
  | leaf entry => leaf { entry with value := change entry }
  | node index bit left right =>
      node index bit (mapValues change left) (mapValues change right)

section MapValues

variable (change : TrieEntry ι w V → V) (trie : Trie ι w V)

theorem entries_mapValues :
    (mapValues change trie).entries =
      trie.entries.map fun entry => { entry with value := change entry } := by
  induction trie with
  | leaf entry =>
      rfl
  | node index bit left right leftHypothesis rightHypothesis =>
      simp [mapValues, leftHypothesis, rightHypothesis]

@[simp] theorem keys_mapValues :
    (mapValues change trie).keys = trie.keys := by
  simp [keys, entries_mapValues, Function.comp_def]

@[simp] theorem leafIndices_mapValues :
    (mapValues change trie).leafIndices = trie.leafIndices := by
  simp [leafIndices, entries_mapValues, Function.comp_def]

@[simp] theorem nodeIndices_mapValues :
    (mapValues change trie).nodeIndices = trie.nodeIndices := by
  induction trie with
  | leaf entry =>
      rfl
  | node index bit left right leftHypothesis rightHypothesis =>
      simp [mapValues, leftHypothesis, rightHypothesis]

theorem follow_mapValues (goLeft : Nat → Bool) :
    (mapValues change trie).follow goLeft =
      { trie.follow goLeft with value := change (trie.follow goLeft) } := by
  induction trie with
  | leaf entry =>
      rfl
  | node index bit left right leftHypothesis rightHypothesis =>
      cases side : goLeft bit <;>
        simp [mapValues, follow, side, leftHypothesis, rightHypothesis]

theorem Ordered.mapValues
    {trie : Trie ι w V}
    (ordered : trie.Ordered)
    (change : TrieEntry ι w V → V) :
    (trie.mapValues change).Ordered := by
  induction ordered with
  | leaf entry =>
      exact .leaf _
  | node inRange leftClear rightSet agree _ _ leftOrdered rightOrdered =>
      refine .node inRange ?_ ?_ ?_ leftOrdered rightOrdered
      · simpa using leftClear
      · simpa using rightSet
      · simpa using agree

end MapValues

section Depth

/-- The inner nodes on the longest way down. -/
def depth : Trie ι w V → Nat
  | leaf _ => 0
  | node _ _ left right => max left.depth right.depth + 1

theorem depth_le_length (trie : Trie ι w V) :
    trie.depth ≤ trie.nodeIndices.length := by
  induction trie with
  | leaf entry =>
      exact le_rfl
  | node index bit left right leftHypothesis rightHypothesis =>
      simp only [depth, nodeIndices_node, List.length_cons,
        List.length_append]
      omega

/-- Keys that agree from a bit on are not separated at that bit or above. -/
theorem Ordered.depth_le_of_agree
    {trie : Trie ι w V}
    (ordered : trie.Ordered)
    {bound : Nat}
    (agree :
      ∀ x ∈ trie.keys, ∀ y ∈ trie.keys, ∀ bit, bound ≤ bit →
        x.getLsbD bit = y.getLsbD bit) :
    trie.depth ≤ bound := by
  induction ordered generalizing bound with
  | leaf entry =>
      exact Nat.zero_le bound
  | @node index bit left right inRange leftClear rightSet agreeAbove _ _
      leftHypothesis rightHypothesis =>
      have inLeft : left.first.key ∈ left.keys :=
        List.mem_map_of_mem (follow_mem _ left)
      have inRight : right.first.key ∈ right.keys :=
        List.mem_map_of_mem (follow_mem _ right)
      rw [keys_node] at agree
      have below : bit < bound := by
        by_contra above
        have same := agree _ (List.mem_append_left _ inLeft) _
          (List.mem_append_right _ inRight) bit (Nat.le_of_not_lt above)
        rw [leftClear _ inLeft, rightSet _ inRight] at same
        cases same
      -- below the node, the keys agree at its bit as well
      have fromBit
          {x y : BitVec w}
          (xIn : x ∈ left.keys ++ right.keys)
          (yIn : y ∈ left.keys ++ right.keys)
          (here : x.getLsbD bit = y.getLsbD bit)
          (other : Nat)
          (le : bit ≤ other) : x.getLsbD other = y.getLsbD other := by
        rcases Nat.eq_or_lt_of_le le with rfl | above
        · exact here
        · exact agreeAbove x xIn y yIn other above
      have leftDepth : left.depth ≤ bit := leftHypothesis fun x xIn y yIn =>
        fromBit (List.mem_append_left _ xIn) (List.mem_append_left _ yIn)
          ((leftClear x xIn).trans (leftClear y yIn).symm)
      have rightDepth : right.depth ≤ bit := rightHypothesis fun x xIn y yIn =>
        fromBit (List.mem_append_right _ xIn) (List.mem_append_right _ yIn)
          ((rightSet x xIn).trans (rightSet y yIn).symm)
      simp only [depth]
      omega

/-- No way down is longer than a key. -/
theorem Ordered.depth_le
    {trie : Trie ι w V}
    (ordered : trie.Ordered) : trie.depth ≤ w :=
  ordered.depth_le_of_agree fun x _ y _ bit le => by
    rw [BitVec.getLsbD_of_ge x bit le, BitVec.getLsbD_of_ge y bit le]

end Depth

end Trie

end Library
