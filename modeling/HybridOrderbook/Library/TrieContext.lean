import HybridOrderbook.Library.Trie

namespace Library.Trie

/-!
# Tries with a hole

`plug context subtree` is the trie obtained by filling the hole of a context.
The frames are listed from the hole to the root, which is the order in which
a parent-pointer walk meets them.
-/

variable {ι V : Type} {w : Nat}

/-- One inner node above a hole, with the subtree on the other side. -/
structure Frame (ι : Type) (w : Nat) (V : Type) where
  index : ι
  bit : Nat
  holeLeft : Bool
  sibling : Trie ι w V

/-- The frames above a hole, innermost first. -/
abbrev Context (ι : Type) (w : Nat) (V : Type) := List (Frame ι w V)

/-- Fill the hole of one frame. -/
def Frame.fill (frame : Frame ι w V) (subtree : Trie ι w V) : Trie ι w V :=
  if frame.holeLeft then
    .node frame.index frame.bit subtree frame.sibling
  else
    .node frame.index frame.bit frame.sibling subtree

/-- Fill the hole of a whole context. -/
def plug : Context ι w V → Trie ι w V → Trie ι w V
  | [], subtree => subtree
  | frame :: outer, subtree => plug outer (frame.fill subtree)

namespace Context

/-- Entries to the left of the hole. -/
def before : Context ι w V → List (TrieEntry ι w V)
  | [] => []
  | frame :: outer =>
      before outer ++
        (if frame.holeLeft then [] else frame.sibling.entries)

/-- Entries to the right of the hole. -/
def after : Context ι w V → List (TrieEntry ι w V)
  | [] => []
  | frame :: outer =>
      (if frame.holeLeft then frame.sibling.entries else []) ++
        after outer

/-- Inner-node indices outside the hole. -/
def nodeIndices : Context ι w V → List ι
  | [] => []
  | frame :: outer =>
      frame.index :: (frame.sibling.nodeIndices ++ nodeIndices outer)

/-- Leaf indices outside the hole. -/
def leafIndices (context : Context ι w V) : List ι :=
  (before context ++ after context).map TrieEntry.index

theorem mem_leafIndices_cons
    {frame : Frame ι w V}
    {outer : Context ι w V}
    {index : ι} :
    index ∈ leafIndices (frame :: outer) ↔
      index ∈ frame.sibling.leafIndices ∨ index ∈ leafIndices outer := by
  cases side : frame.holeLeft with
  | true =>
      simp only [leafIndices, before, after, side, Trie.leafIndices,
        ↓reduceIte, List.append_nil, List.map_append, List.mem_append]
      tauto
  | false =>
      simp only [leafIndices, before, after, side, Trie.leafIndices,
        Bool.false_eq_true, ↓reduceIte, List.nil_append, List.map_append,
        List.mem_append]
      tauto

end Context

@[simp] theorem plug_nil (subtree : Trie ι w V) :
    plug [] subtree = subtree :=
  rfl

@[simp] theorem plug_cons
    (frame : Frame ι w V)
    (outer : Context ι w V)
    (subtree : Trie ι w V) :
    plug (frame :: outer) subtree = plug outer (frame.fill subtree) :=
  rfl

theorem plug_append
    (inner outer : Context ι w V)
    (subtree : Trie ι w V) :
    plug (inner ++ outer) subtree = plug outer (plug inner subtree) := by
  induction inner generalizing subtree with
  | nil =>
      rfl
  | cons frame rest inductionHypothesis =>
      exact inductionHypothesis (frame.fill subtree)

/-- The frame seen from the sibling's place. -/
def Frame.flip (frame : Frame ι w V) (subtree : Trie ι w V) : Frame ι w V where
  index := frame.index
  bit := frame.bit
  holeLeft := !frame.holeLeft
  sibling := subtree

theorem Frame.fill_flip
    (frame : Frame ι w V)
    (subtree : Trie ι w V) :
    (frame.flip subtree).fill frame.sibling = frame.fill subtree := by
  cases side : frame.holeLeft <;> simp [Frame.flip, Frame.fill, side]

/-- Every frame above a hole is filled by some subtree. -/
theorem exists_fill_of_mem
    {context : Context ι w V}
    {frame : Frame ι w V}
    (above : frame ∈ context)
    (subtree : Trie ι w V) :
    ∃ outer inner, plug context subtree = plug outer (frame.fill inner) := by
  induction context generalizing subtree with
  | nil =>
      simp at above
  | cons inner outer inductionHypothesis =>
      rcases List.mem_cons.mp above with isInner | further
      · exact ⟨outer, subtree, by rw [isInner, plug_cons]⟩
      · exact inductionHypothesis further (inner.fill subtree)

/-- Filling a hole puts the subtree's entries between the outer ones. -/
theorem entries_plug
    (context : Context ι w V)
    (subtree : Trie ι w V) :
    (plug context subtree).entries =
      context.before ++ (subtree.entries ++ context.after) := by
  induction context generalizing subtree with
  | nil =>
      simp [Context.before, Context.after]
  | cons frame outer inductionHypothesis =>
      rw [plug_cons, inductionHypothesis]
      cases side : frame.holeLeft <;>
        simp [Frame.fill, Context.before, Context.after, side]

theorem mem_entries_plug_leaf
    (context : Context ι w V)
    (entry : TrieEntry ι w V) :
    entry ∈ (plug context (leaf entry)).entries := by
  simp [entries_plug]

/-- Filling a hole adds the subtree's inner nodes to the outer ones. -/
theorem nodeIndices_plug_perm
    (context : Context ι w V)
    (subtree : Trie ι w V) :
    (plug context subtree).nodeIndices.Perm
      (subtree.nodeIndices ++ context.nodeIndices) := by
  induction context generalizing subtree with
  | nil =>
      simp [Context.nodeIndices]
  | cons frame outer inductionHypothesis =>
      rw [plug_cons]
      refine (inductionHypothesis (frame.fill subtree)).trans ?_
      cases side : frame.holeLeft with
      | true =>
          simp only [Frame.fill, side, ↓reduceIte, nodeIndices_node,
            Context.nodeIndices, List.cons_append, List.append_assoc]
          exact List.perm_middle.symm
      | false =>
          simp only [Frame.fill, side, Bool.false_eq_true, ↓reduceIte,
            nodeIndices_node, Context.nodeIndices, List.cons_append,
            List.append_assoc]
          refine .trans ?_ List.perm_middle.symm
          refine List.Perm.cons _ ?_
          rw [← List.append_assoc, ← List.append_assoc]
          exact List.perm_append_comm.append_right _

/-- Filling a hole adds the subtree's leaves to the outer ones. -/
theorem leafIndices_plug_perm
    (context : Context ι w V)
    (subtree : Trie ι w V) :
    (plug context subtree).leafIndices.Perm
      (subtree.leafIndices ++ context.leafIndices) := by
  unfold leafIndices Context.leafIndices
  rw [entries_plug, ← List.map_append]
  refine List.Perm.map _ ?_
  rw [← List.append_assoc, ← List.append_assoc]
  exact List.perm_append_comm.append_right _

/-- Dropping the hole leaves the sibling in its frame's place. -/
theorem entries_plug_sibling
    (frame : Frame ι w V)
    (outer : Context ι w V) :
    (plug outer frame.sibling).entries =
      Context.before (frame :: outer) ++ Context.after (frame :: outer) := by
  rw [entries_plug]
  cases side : frame.holeLeft <;>
    simp [Context.before, Context.after, side]

theorem entries_plug_leaf_perm
    (frame : Frame ι w V)
    (outer : Context ι w V)
    (entry : TrieEntry ι w V) :
    (plug (frame :: outer) (leaf entry)).entries.Perm
      (entry :: (plug outer frame.sibling).entries) := by
  rw [entries_plug, entries_plug_sibling, entries_leaf, List.singleton_append]
  exact List.perm_middle

theorem nodeIndices_plug_leaf_perm
    (frame : Frame ι w V)
    (outer : Context ι w V)
    (entry : TrieEntry ι w V) :
    (plug (frame :: outer) (leaf entry)).nodeIndices.Perm
      (frame.index :: (plug outer frame.sibling).nodeIndices) := by
  refine (nodeIndices_plug_perm _ _).trans ?_
  simp only [nodeIndices_leaf, List.nil_append, Context.nodeIndices]
  exact (nodeIndices_plug_perm _ _).symm.cons _

/-- Right of the hole is the first entry of the nearest right sibling. -/
theorem Context.head?_after (context : Context ι w V) :
    context.after.head? =
      (context.find? fun frame => frame.holeLeft).map
        fun frame => frame.sibling.first := by
  induction context with
  | nil =>
      rfl
  | cons frame outer inductionHypothesis =>
      cases side : frame.holeLeft <;>
        simp [after, side, inductionHypothesis, List.head?_append,
          head?_entries]

/-- The entry left of the hole is the last one of the nearest left sibling. -/
theorem Context.getLast?_before (context : Context ι w V) :
    context.before.getLast? =
      (context.find? fun frame => !frame.holeLeft).map
        fun frame => frame.sibling.last := by
  induction context with
  | nil =>
      rfl
  | cons frame outer inductionHypothesis =>
      cases side : frame.holeLeft <;>
        simp [before, side, inductionHypothesis, List.getLast?_append,
          getLast?_entries]

/-- Every stored entry sits in the hole of some context. -/
theorem exists_context_of_mem
    {trie : Trie ι w V}
    {entry : TrieEntry ι w V}
    (stored : entry ∈ trie.entries) :
    ∃ context, trie = plug context (leaf entry) := by
  suffices general :
      ∀ outer : Context ι w V,
        ∃ context, plug outer trie = plug context (leaf entry) from
    general []
  induction trie with
  | leaf held =>
      intro outer
      have same : entry = held := by simpa using stored
      exact ⟨outer, by rw [same]⟩
  | node index bit left right leftHypothesis rightHypothesis =>
      intro outer
      rw [entries_node, List.mem_append] at stored
      rcases stored with inLeft | inRight
      · exact leftHypothesis inLeft (⟨index, bit, true, right⟩ :: outer)
      · exact rightHypothesis inRight (⟨index, bit, false, left⟩ :: outer)

/-- Every inner node is the root of a subtree in some context. -/
theorem exists_context_of_node_mem
    {trie : Trie ι w V}
    {index : ι}
    (stored : index ∈ trie.nodeIndices) :
    ∃ context bit left right,
      trie = plug context (node index bit left right) := by
  suffices general :
      ∀ outer : Context ι w V,
        ∃ context bit left right,
          plug outer trie = plug context (node index bit left right) from
    general []
  induction trie with
  | leaf held =>
      simp at stored
  | node held bit left right leftHypothesis rightHypothesis =>
      intro outer
      rw [nodeIndices_node, List.mem_cons, List.mem_append] at stored
      rcases stored with here | inLeft | inRight
      · exact ⟨outer, bit, left, right, by rw [here]⟩
      · exact leftHypothesis inLeft (⟨held, bit, true, right⟩ :: outer)
      · exact rightHypothesis inRight (⟨held, bit, false, left⟩ :: outer)

/-- The frames of a context are on one way down. -/
theorem length_add_depth_le
    (context : Context ι w V)
    (subtree : Trie ι w V) :
    context.length + subtree.depth ≤ (plug context subtree).depth := by
  induction context generalizing subtree with
  | nil =>
      simp
  | cons frame outer inductionHypothesis =>
      have deeper : subtree.depth + 1 ≤ (frame.fill subtree).depth := by
        cases side : frame.holeLeft <;> simp [Frame.fill, side, depth]
      have rest := inductionHypothesis (frame.fill subtree)
      rw [plug_cons, List.length_cons]
      omega

/-- The subtree that a list of turns leads to, `true` meaning left. -/
def subtreeAt : List Bool → Trie ι w V → Option (Trie ι w V)
  | [], trie => some trie
  | _ :: _, leaf _ => none
  | turn :: rest, node _ _ left right =>
      subtreeAt rest (if turn then left else right)

theorem subtreeAt_append
    (first second : List Bool)
    (trie : Trie ι w V) :
    trie.subtreeAt (first ++ second) =
      (trie.subtreeAt first).bind (subtreeAt second) := by
  induction first generalizing trie with
  | nil =>
      rfl
  | cons turn rest inductionHypothesis =>
      cases trie with
      | leaf entry =>
          rfl
      | node index bit left right =>
          exact inductionHypothesis _

/-- A subtree sits in the hole of some context. -/
theorem exists_context_of_subtreeAt
    {turns : List Bool}
    {trie subtree : Trie ι w V}
    (found : trie.subtreeAt turns = some subtree) :
    ∃ context, trie = plug context subtree := by
  suffices general :
      ∀ outer : Context ι w V,
        ∃ context, plug outer trie = plug context subtree from
    general []
  induction turns generalizing trie with
  | nil =>
      intro outer
      have same : trie = subtree := by simpa [subtreeAt] using found
      exact ⟨outer, by rw [same]⟩
  | cons turn rest inductionHypothesis =>
      intro outer
      cases trie with
      | leaf entry =>
          simp [subtreeAt] at found
      | node index bit left right =>
          cases turn with
          | true =>
              exact inductionHypothesis (by simpa [subtreeAt] using found)
                (⟨index, bit, true, right⟩ :: outer)
          | false =>
              exact inductionHypothesis (by simpa [subtreeAt] using found)
                (⟨index, bit, false, left⟩ :: outer)

/-- The hole of a context is reached by some list of turns. -/
theorem exists_turns_of_plug
    (context : Context ι w V)
    (subtree : Trie ι w V) :
    ∃ turns, (plug context subtree).subtreeAt turns = some subtree := by
  suffices general :
      ∀ inner turns, subtreeAt turns inner = some subtree →
        ∃ turns, (plug context inner).subtreeAt turns = some subtree from
    general subtree [] rfl
  induction context with
  | nil =>
      intro inner turns found
      exact ⟨turns, found⟩
  | cons frame outer inductionHypothesis =>
      intro inner turns found
      refine inductionHypothesis (frame.fill inner)
        (frame.holeLeft :: turns) ?_
      cases side : frame.holeLeft <;>
        simpa [Frame.fill, side, subtreeAt] using found

namespace Ordered

/-- The frame around a hole keeps the hole's side and bits apart. -/
theorem fill_inv
    {frame : Frame ι w V}
    {subtree : Trie ι w V}
    (ordered : (frame.fill subtree).Ordered) :
    subtree.Ordered ∧ frame.sibling.Ordered ∧ frame.bit < w ∧
      (∀ key ∈ subtree.keys, key.getLsbD frame.bit = !frame.holeLeft) ∧
      (∀ key ∈ frame.sibling.keys,
        key.getLsbD frame.bit = frame.holeLeft) ∧
      (∀ x ∈ subtree.keys ++ frame.sibling.keys,
        ∀ y ∈ subtree.keys ++ frame.sibling.keys,
          AgreeAbove frame.bit x y) := by
  rcases frame with ⟨index, bit, holeLeft, sibling⟩
  cases holeLeft with
  | true =>
      cases ordered with
      | node inRange leftClear rightSet agree leftOrdered rightOrdered =>
          exact ⟨leftOrdered, rightOrdered, inRange,
            leftClear, rightSet, agree⟩
  | false =>
      cases ordered with
      | node inRange leftClear rightSet agree leftOrdered rightOrdered =>
          refine ⟨rightOrdered, leftOrdered, inRange,
            rightSet, leftClear, ?_⟩
          intro x xMember y yMember
          have swapped :
              ∀ key ∈ subtree.keys ++ sibling.keys,
                key ∈ sibling.keys ++ subtree.keys := by
            intro key member
            rw [List.mem_append] at member ⊢
            exact member.symm
          exact agree x (swapped x xMember) y (swapped y yMember)

/-- Conversely, these facts order the filled frame. -/
theorem fill
    {frame : Frame ι w V}
    {subtree : Trie ι w V}
    (subtreeOrdered : subtree.Ordered)
    (siblingOrdered : frame.sibling.Ordered)
    (inRange : frame.bit < w)
    (holeBit :
      ∀ key ∈ subtree.keys, key.getLsbD frame.bit = !frame.holeLeft)
    (siblingBit :
      ∀ key ∈ frame.sibling.keys,
        key.getLsbD frame.bit = frame.holeLeft)
    (agree :
      ∀ x ∈ subtree.keys ++ frame.sibling.keys,
        ∀ y ∈ subtree.keys ++ frame.sibling.keys,
          AgreeAbove frame.bit x y) :
    (frame.fill subtree).Ordered := by
  rcases frame with ⟨index, bit, holeLeft, sibling⟩
  cases holeLeft with
  | true =>
      exact .node inRange holeBit siblingBit agree
        subtreeOrdered siblingOrdered
  | false =>
      refine .node inRange siblingBit holeBit ?_
        siblingOrdered subtreeOrdered
      intro x xMember y yMember
      have swapped :
          ∀ key ∈ sibling.keys ++ subtree.keys,
            key ∈ subtree.keys ++ sibling.keys := by
        intro key member
        rw [List.mem_append] at member ⊢
        exact member.symm
      exact agree x (swapped x xMember) y (swapped y yMember)

/-- A subtree of an ordered trie is ordered. -/
theorem of_plug
    {context : Context ι w V}
    {subtree : Trie ι w V}
    (ordered : (plug context subtree).Ordered) :
    subtree.Ordered := by
  induction context generalizing subtree with
  | nil =>
      exact ordered
  | cons frame outer inductionHypothesis =>
      exact (inductionHypothesis ordered).fill_inv.1

/-- Keys of the filled frame come from the subtree or its sibling. -/
theorem mem_keys_fill
    {frame : Frame ι w V}
    {subtree : Trie ι w V}
    {key : BitVec w} :
    key ∈ (frame.fill subtree).keys ↔
      key ∈ subtree.keys ∨ key ∈ frame.sibling.keys := by
  cases side : frame.holeLeft <;>
    simp [Frame.fill, side, or_comm]

/-- Every key in the hole takes the hole's side at each frame above it. -/
theorem hole_bit
    {context : Context ι w V}
    {subtree : Trie ι w V}
    (ordered : (plug context subtree).Ordered)
    {frame : Frame ι w V}
    (above : frame ∈ context)
    {key : BitVec w}
    (stored : key ∈ subtree.keys) :
    key.getLsbD frame.bit = !frame.holeLeft := by
  induction context generalizing subtree with
  | nil =>
      simp at above
  | cons inner outer inductionHypothesis =>
      rcases List.mem_cons.mp above with here | further
      · subst here
        rw [plug_cons] at ordered
        exact ordered.of_plug.fill_inv.2.2.2.1 key stored
      · exact inductionHypothesis ordered further
          (mem_keys_fill.mpr (.inl stored))

/--
A subtree may be replaced by any ordered trie each of whose keys agrees, at
and above every enclosing branch bit, with a key the subtree already had.
-/
theorem replug
    {context : Context ι w V}
    {subtree replacement : Trie ι w V}
    (ordered : (plug context subtree).Ordered)
    (replacementOrdered : replacement.Ordered)
    (resembles :
      ∀ key ∈ replacement.keys,
        ∃ old ∈ subtree.keys,
          ∀ frame ∈ context,
            key.getLsbD frame.bit = old.getLsbD frame.bit ∧
              AgreeAbove frame.bit key old) :
    (plug context replacement).Ordered := by
  induction context generalizing subtree replacement with
  | nil =>
      exact replacementOrdered
  | cons frame outer inductionHypothesis =>
      rw [plug_cons] at ordered
      have oldFilled : (frame.fill subtree).Ordered := ordered.of_plug
      obtain ⟨_, siblingOrdered, inRange, holeBit, siblingBit, agree⟩ :=
        oldFilled.fill_inv
      have newHoleBit :
          ∀ key ∈ replacement.keys,
            key.getLsbD frame.bit = !frame.holeLeft := by
        intro key member
        obtain ⟨old, oldMember, same⟩ := resembles key member
        rw [(same frame (by simp)).1]
        exact holeBit old oldMember
      have newAgree :
          ∀ x ∈ replacement.keys ++ frame.sibling.keys,
            ∃ old ∈ subtree.keys ++ frame.sibling.keys,
              AgreeAbove frame.bit x old := by
        intro x member
        rcases List.mem_append.mp member with inReplacement | inSibling
        · obtain ⟨old, oldMember, same⟩ := resembles x inReplacement
          exact ⟨old, List.mem_append_left _ oldMember,
            (same frame (by simp)).2⟩
        · exact ⟨x, List.mem_append_right _ inSibling,
            AgreeAbove.refl frame.bit x⟩
      have newFilled : (frame.fill replacement).Ordered := by
        refine Ordered.fill replacementOrdered siblingOrdered inRange
          newHoleBit siblingBit ?_
        intro x xMember y yMember
        obtain ⟨oldX, oldXMember, xAgrees⟩ := newAgree x xMember
        obtain ⟨oldY, oldYMember, yAgrees⟩ := newAgree y yMember
        exact xAgrees.trans
          ((agree oldX oldXMember oldY oldYMember).trans yAgrees.symm)
      refine inductionHypothesis ordered newFilled ?_
      intro key member
      rcases mem_keys_fill.mp member with inReplacement | inSibling
      · obtain ⟨old, oldMember, same⟩ := resembles key inReplacement
        exact ⟨old, mem_keys_fill.mpr (.inl oldMember),
          fun outerFrame outerMember =>
            same outerFrame (List.mem_cons_of_mem _ outerMember)⟩
      · exact ⟨key, mem_keys_fill.mpr (.inr inSibling),
          fun outerFrame _ => ⟨rfl, AgreeAbove.refl _ key⟩⟩

/-- Removing a leaf puts its sibling in the place of their parent. -/
theorem remove
    {frame : Frame ι w V}
    {outer : Context ι w V}
    {entry : TrieEntry ι w V}
    (ordered : (plug (frame :: outer) (Trie.leaf entry)).Ordered) :
    (plug outer frame.sibling).Ordered := by
  rw [plug_cons] at ordered
  refine ordered.replug ordered.of_plug.fill_inv.2.1 ?_
  intro key member
  exact ⟨key, mem_keys_fill.mpr (.inr member),
    fun outerFrame _ => ⟨rfl, AgreeAbove.refl _ key⟩⟩

end Ordered

/-- Every branch below a child branches at a lower bit. -/
theorem Ordered.subtreeAt_bit_lt
    {index lowerIndex : ι}
    {bit lowerBit : Nat}
    {left right lowerLeft lowerRight : Trie ι w V}
    {turn : Bool}
    {rest : List Bool}
    (ordered : (Trie.node index bit left right).Ordered)
    (found :
      (Trie.node index bit left right).subtreeAt (turn :: rest) =
        some (Trie.node lowerIndex lowerBit lowerLeft lowerRight)) :
    lowerBit < bit := by
  cases ordered with
  | node inRange leftClear rightSet agree leftOrdered rightOrdered =>
      obtain ⟨child, childOrdered, reached, childKeys, side, sameSide⟩ :
          ∃ child : Trie ι w V,
            child.Ordered ∧
              child.subtreeAt rest =
                some (Trie.node lowerIndex lowerBit lowerLeft lowerRight) ∧
              (∀ key ∈ child.keys, key ∈ left.keys ++ right.keys) ∧
              ∃ side, ∀ key ∈ child.keys, key.getLsbD bit = side := by
        cases turn with
        | true =>
            exact ⟨left, leftOrdered, by simpa [subtreeAt] using found,
              fun key member => List.mem_append_left _ member,
              false, leftClear⟩
        | false =>
            exact ⟨right, rightOrdered, by simpa [subtreeAt] using found,
              fun key member => List.mem_append_right _ member,
              true, rightSet⟩
      obtain ⟨context, rfl⟩ := exists_context_of_subtreeAt reached
      have lowerOrdered := childOrdered.of_plug
      have stored :
          ∀ key ∈ lowerLeft.keys ++ lowerRight.keys,
            key ∈ (plug context
              (Trie.node lowerIndex lowerBit lowerLeft lowerRight)).keys := by
        intro key member
        rw [keys, entries_plug, List.map_append, List.map_append]
        refine List.mem_append_right _ (List.mem_append_left _ ?_)
        simpa [keys] using member
      cases lowerOrdered with
      | node _ lowerClear lowerSet _ _ _ =>
          have zero := stored lowerLeft.first.key (List.mem_append_left _
            (List.mem_map_of_mem (follow_mem _ lowerLeft)))
          have one := stored lowerRight.first.key (List.mem_append_right _
            (List.mem_map_of_mem (follow_mem _ lowerRight)))
          have clear := lowerClear lowerLeft.first.key
            (List.mem_map_of_mem (follow_mem _ lowerLeft))
          have set := lowerSet lowerRight.first.key
            (List.mem_map_of_mem (follow_mem _ lowerRight))
          rcases Nat.lt_trichotomy lowerBit bit with lower | same | higher
          · exact lower
          · rw [same] at clear set
            rw [sameSide _ zero] at clear
            rw [sameSide _ one, clear] at set
            simp at set
          · have agreed := agree _ (childKeys _ zero) _ (childKeys _ one)
              lowerBit higher
            rw [clear, set] at agreed
            simp at agreed

/--
Follow a key down from a subtree, remembering the context, until a leaf or a
node whose bit satisfies `stop`.
-/
def walk (stop : Nat → Bool) (key : BitVec w) :
    Context ι w V → Trie ι w V → Context ι w V × Trie ι w V
  | context, leaf entry => (context, leaf entry)
  | context, node index bit left right =>
      if stop bit then
        (context, node index bit left right)
      else if key.getLsbD bit then
        walk stop key (⟨index, bit, false, left⟩ :: context) right
      else
        walk stop key (⟨index, bit, true, right⟩ :: context) left

/-- What a walk from a subtree leaves behind and where it stops. -/
structure WalkSpec
    (stop : Nat → Bool)
    (key : BitVec w)
    (context : Context ι w V)
    (subtree : Trie ι w V)
    (reached : Context ι w V × Trie ι w V) : Prop where
  plugged : plug reached.1 reached.2 = plug context subtree
  frames :
    ∀ frame ∈ reached.1,
      frame ∈ context ∨
        (stop frame.bit = false ∧
          frame.holeLeft = !key.getLsbD frame.bit)
  stopped :
    ∀ index bit left right,
      reached.2 = node index bit left right → stop bit = true
  sameClosest : reached.2.closest key = subtree.closest key

/-- A walk that goes on from a child is a walk from the node above it. -/
theorem WalkSpec.of_child
    {stop : Nat → Bool}
    {key : BitVec w}
    {frame : Frame ι w V}
    {context : Context ι w V}
    {subtree : Trie ι w V}
    {reached : Context ι w V × Trie ι w V}
    (spec : WalkSpec stop key (frame :: context) subtree reached)
    (goesOn : stop frame.bit = false)
    (turn : frame.holeLeft = !key.getLsbD frame.bit)
    (sameClosest : subtree.closest key = (frame.fill subtree).closest key) :
    WalkSpec stop key context (frame.fill subtree) reached := by
  refine ⟨spec.plugged, ?_, spec.stopped,
    spec.sameClosest.trans sameClosest⟩
  intro other member
  rcases spec.frames other member with inherited | fresh
  · rcases List.mem_cons.mp inherited with here | older
    · subst here
      exact .inr ⟨goesOn, turn⟩
    · exact .inl older
  · exact .inr fresh

/-- The walk meets its specification. -/
theorem walk_spec
    (stop : Nat → Bool)
    (key : BitVec w)
    (context : Context ι w V)
    (subtree : Trie ι w V) :
    WalkSpec stop key context subtree (walk stop key context subtree) := by
  induction subtree generalizing context with
  | leaf entry =>
      refine ⟨rfl, fun frame member => .inl member, ?_, rfl⟩
      intro index bit left right impossible
      cases impossible
  | node index bit left right leftHypothesis rightHypothesis =>
      unfold walk
      cases halt : stop bit with
      | true =>
          refine ⟨rfl, fun frame member => .inl member, ?_, rfl⟩
          intro otherIndex otherBit otherLeft otherRight same
          cases same
          exact halt
      | false =>
          cases set : key.getLsbD bit with
          | true =>
              have spec := rightHypothesis
                (⟨index, bit, false, left⟩ :: context)
              exact spec.of_child halt (by simp [set])
                (by simp [Frame.fill, closest_node, set])
          | false =>
              have spec := leftHypothesis
                (⟨index, bit, true, right⟩ :: context)
              exact spec.of_child halt (by simp [set])
                (by simp [Frame.fill, closest_node, set])

/-- A new node holding a new entry beside an old subtree. -/
def join
    (index : ι)
    (bit : Nat)
    (entry : TrieEntry ι w V)
    (subtree : Trie ι w V) : Trie ι w V :=
  Frame.fill
    ⟨index, bit, !entry.key.getLsbD bit, subtree⟩ (leaf entry)

/--
Inserting a fresh key at the point its critical bit selects keeps the trie
ordered.
-/
theorem Ordered.insert
    {trie : Trie ι w V}
    (ordered : trie.Ordered)
    {entry : TrieEntry ι w V}
    (fresh : (trie.closest entry.key).key ≠ entry.key)
    (index : ι) :
    let bit := criticalBit entry.key (trie.closest entry.key).key
    let reached := walk (fun other => decide (other < bit)) entry.key [] trie
    (plug reached.1 (join index bit entry reached.2)).Ordered := by
  intro bit reached
  have spec :=
    walk_spec (fun other => decide (other < bit)) entry.key [] trie
  set old := (trie.closest entry.key).key with oldShape
  have different : entry.key ≠ old := fresh.symm
  have differs : entry.key.getLsbD bit = !old.getLsbD bit :=
    criticalBit_differs different
  have pluggedOrdered : (plug reached.1 reached.2).Ordered := by
    rw [spec.plugged]
    exact ordered
  have reachedOrdered : reached.2.Ordered :=
    Ordered.of_plug pluggedOrdered
  have oldStored : old ∈ reached.2.keys := by
    rw [oldShape, ← spec.sameClosest]
    exact List.mem_map_of_mem (closest_mem entry.key reached.2)
  -- Below the stopping point no branch lies at or above the critical bit.
  have subtreeAgrees :
      ∀ key ∈ reached.2.keys,
        key.getLsbD bit = old.getLsbD bit ∧ AgreeAbove bit key old := by
    intro key member
    cases shape : reached.2 with
    | leaf held =>
        rw [shape] at member oldStored
        have sameKey : key = held.key := by simpa using member
        have sameOld : old = held.key := by simpa using oldStored
        rw [sameKey, sameOld]
        exact ⟨rfl, AgreeAbove.refl bit _⟩
    | node otherIndex otherBit left right =>
        have lower : otherBit < bit := by
          simpa using spec.stopped otherIndex otherBit left right shape
        rw [shape] at member oldStored reachedOrdered
        cases reachedOrdered with
        | node inRange leftClear rightSet agree _ _ =>
            have agreed : AgreeAbove otherBit key old :=
              agree key (by simpa using member)
                old (by simpa using oldStored)
            exact ⟨agreed bit lower, agreed.mono lower.le⟩
  have framesAbove : ∀ frame ∈ reached.1, bit < frame.bit := by
    intro frame member
    rcases spec.frames frame member with impossible | ⟨running, side⟩
    · simp at impossible
    · have notBelow : ¬ frame.bit < bit := by simpa using running
      have notCritical : frame.bit ≠ bit := by
        intro same
        have oldSide := pluggedOrdered.hole_bit member oldStored
        rw [side, same, differs] at oldSide
        simp at oldSide
      omega
  have joined : (join index bit entry reached.2).Ordered := by
    refine Ordered.fill (.leaf entry) reachedOrdered
      (criticalBit_lt different) ?_ ?_ ?_
    · intro key member
      have same : key = entry.key := by simpa using member
      simp [same]
    · intro key member
      rw [(subtreeAgrees key member).1]
      simp [differs]
    · have agreesWithOld :
          ∀ key ∈ (Trie.leaf entry).keys ++ reached.2.keys,
            AgreeAbove bit key old := by
        intro key member
        rcases List.mem_append.mp member with isNew | isOld
        · have same : key = entry.key := by simpa using isNew
          rw [same]
          exact criticalBit_agree entry.key old
        · exact (subtreeAgrees key isOld).2
      intro x xMember y yMember
      exact (agreesWithOld x xMember).trans
        (agreesWithOld y yMember).symm
  refine pluggedOrdered.replug joined ?_
  intro key member
  rcases Ordered.mem_keys_fill.mp member with isNew | isOld
  · have same : key = entry.key := by simpa using isNew
    refine ⟨old, oldStored, fun frame frameMember => ?_⟩
    have above := framesAbove frame frameMember
    rw [same]
    exact ⟨criticalBit_agree entry.key old frame.bit above,
      (criticalBit_agree entry.key old).mono above.le⟩
  · exact ⟨key, isOld, fun frame _ =>
      ⟨rfl, AgreeAbove.refl _ key⟩⟩

end Library.Trie
