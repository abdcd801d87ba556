import HybridOrderbook.Critbit.Allocation
import HybridOrderbook.OrderBook

namespace HybridOrderbook

open Library

/-!
# How many price levels a book can open

Every new price level draws a leaf index, and no index is drawn twice before
the book was empty.  A book refuses an order at a new price once it has drawn
all of them, no matter how many of its levels are still there.
-/

variable {w : Nat} {Account : Type}

namespace CritbitTree

/-- The number of leaf indices that a book has drawn. -/
def drawn (book : OrderBook w Account) : Nat :=
  book.nextLeafNodeIndex.toNat

section Drawn

variable (book : OrderBook w Account)

/-- Placing an order draws a leaf index if it opens a price level. -/
theorem nextLeafNodeIndex_placeOrder
    (orderId : OrderId)
    (owner : Account)
    (key quantity : BitVec w)
    (expiredAt : Nat) :
    (placeOrder orderId owner key quantity expiredAt book).2.nextLeafNodeIndex =
      if book.findLeaf key = .ok none then
        book.nextLeafNodeIndex + 1
      else
        book.nextLeafNodeIndex := by
  simp only [placeOrder, Proc.bind_apply, Proc.read_apply]
  rcases book.findLeaf key with fault | (_ | leafIndex)
  · rfl
  · exact nextLeafNodeIndex_insert ..
  · simp only
    split
    · rfl
    · rw [Proc.bind_apply, Proc.get_apply]
      simp only [Proc.bind_apply]
      cases book.leaves[leafIndex]? <;> rfl

/-- Filling orders draws no leaf index. -/
theorem fillOrder_leaves (key quantity : BitVec w) :
    KeepsOrResets book.nextLeafNodeIndex (fillOrder key quantity book).2 := by
  simp only [fillOrder, Proc.bind_apply, Proc.read_apply]
  rcases book.findLeaf key with fault | (_ | leafIndex)
  · exact .inl rfl
  · exact .inl rfl
  · simp only [Proc.bind_apply, Proc.get_apply]
    cases book.leaves[leafIndex]? with
    | none =>
        exact .inl rfl
    | some leaf =>
        simp only [Proc.bind_apply, Proc.put_apply]
        split
        · rw [Proc.snd_bind_pure]
          exact removeLeafByIndex_leaves leafIndex (book.setLeaf leafIndex _)
        · exact .inl rfl

/-- Cancelling an order draws no leaf index. -/
theorem nextLeafNodeIndex_cancelOrder
    [DecidableEq Account]
    (maybeOwner : Account)
    (key : BitVec w)
    (orderId : OrderId)
    (quantity : BitVec w) :
    (cancelOrder maybeOwner key orderId quantity book).2.nextLeafNodeIndex =
      book.nextLeafNodeIndex := by
  simp only [cancelOrder, Proc.bind_apply, Proc.read_apply]
  rcases book.findLeaf key with fault | (_ | leafIndex)
  · rfl
  · rfl
  · simp only
    split
    · rfl
    · simp only [Proc.bind_apply, Proc.get_apply]
      cases book.leaves[leafIndex]? with
      | none =>
          rfl
      | some leaf =>
          simp only
          cases leaf.value.canceled maybeOwner orderId quantity <;> rfl

/-- No operation draws more than one leaf index. -/
theorem drawn_placeOrder_le
    (orderId : OrderId)
    (owner : Account)
    (key quantity : BitVec w)
    (expiredAt : Nat) :
    (placeOrder orderId owner key quantity expiredAt book).2.drawn ≤
      book.drawn + 1 := by
  rw [drawn, nextLeafNodeIndex_placeOrder]
  split
  · rw [BitVec.toNat_add]
    exact (Nat.mod_le _ _).trans (Nat.add_le_add_left (by
      simpa using Nat.mod_le 1 (2 ^ w)) _)
  · exact Nat.le_succ _

theorem drawn_fillOrder_le (key quantity : BitVec w) :
    (fillOrder key quantity book).2.drawn ≤ book.drawn := by
  rcases fillOrder_leaves book key quantity with same | ⟨zero, _⟩
  · rw [drawn, same]
    exact le_rfl
  · rw [drawn, zero]
    exact Nat.zero_le _

theorem drawn_cancelOrder_le
    [DecidableEq Account]
    (maybeOwner : Account)
    (key : BitVec w)
    (orderId : OrderId)
    (quantity : BitVec w) :
    (cancelOrder maybeOwner key orderId quantity book).2.drawn ≤
      book.drawn := by
  rw [drawn, nextLeafNodeIndex_cancelOrder]
  exact le_rfl

end Drawn

section Refined

variable {book : OrderBook w Account} {map : PriceMap w Account}

/-- A book without levels is a new one. -/
theorem Refines.eq_new_of_empty (refines : book.Refines ∅) : book = new := by
  obtain ⟨entries, lists, sameBindings⟩ := refines
  rcases lists with ⟨isNew, _⟩ | ⟨shape, _, same⟩
  · exact isNew
  · obtain ⟨entry, listed⟩ := List.exists_mem_of_ne_nil _
      (same ▸ shape.entries_ne_nil)
    have bound := (sameBindings entry.key entry.value).mpr
      ⟨entry.index, listed⟩
    simp at bound

/-- A book with a level has a root. -/
theorem Refines.root_ne_partition
    (width : 0 < w)
    (refines : book.Refines map)
    (nonempty : map ≠ ∅) : book.root ≠ partitionIndex w := by
  obtain ⟨entries, lists, sameBindings⟩ := refines
  rcases lists with ⟨_, rfl⟩ | ⟨shape, represents, _⟩
  · refine absurd (Std.ExtTreeMap.ext_getElem? fun key => ?_) nonempty
    cases bound : map[key]? with
    | none =>
        simp
    | some tick =>
        simpa using (sameBindings key tick).mp bound
  · exact represents.root_ne_partition width

/-- The indices that were drawn do not exceed the capacity. -/
theorem Refines.drawn_le
    (width : 1 < w)
    (refines : book.Refines map) : book.drawn ≤ (capacity w).toNat := by
  obtain ⟨entries, lists, _⟩ := refines
  rcases lists with ⟨rfl, _⟩ | ⟨shape, represents, _⟩
  · exact (zero_lt_capacity width).le
  · exact represents.withinCapacity

end Refined

end CritbitTree

namespace BookOp

variable [DecidableEq Account]

instance decidableOpensLevel :
    ∀ (op : BookOp w Account) (map : PriceMap w Account),
      Decidable (op.OpensLevel map)
  | .placeOrder _ _ key _ _, map =>
      inferInstanceAs (Decidable (map[key]? = none))
  | .fillOrder _ _, _ => .isFalse id
  | .cancelOrder _ _ _ _, _ => .isFalse id

/-- The plain map, and how many levels were opened since it was empty. -/
def tally
    (op : BookOp w Account)
    (state : PriceMap w Account × Nat) : PriceMap w Account × Nat :=
  let next := (op.applyMap state.1).2
  (next,
    if next.isEmpty then
      0
    else if op.OpensLevel state.1 then
      state.2 + 1
    else
      state.2)

/-- The levels that a list of operations opens after it last empties a book. -/
def openings (ops : List (BookOp w Account)) : Nat :=
  (ops.foldl (fun state op => op.tally state) (∅, 0)).2

theorem fst_tally (ops : List (BookOp w Account)) :
    (ops.foldl (fun state op => op.tally state) (∅, 0)).1 = runMap ops :=
  (List.foldl_hom Prod.fst fun _ _ => rfl).symm

end BookOp

namespace CritbitTree

variable [DecidableEq Account] {book next : OrderBook w Account}
  {map : PriceMap w Account} {op : BookOp w Account}

/-- The next index after an operation that succeeds. -/
theorem Refines.keepsOrResets_apply
    (width : 0 < w)
    (refines : book.Refines map)
    (stepped : op.step book = some next) :
    KeepsOrResets
      (if op.OpensLevel map then
        book.nextLeafNodeIndex + 1
      else
        book.nextLeafNodeIndex) next := by
  obtain ⟨reply, executed⟩ := Run.succeeded_eq_some_iff.mp stepped
  have next_eq : next = (op.apply book).2 := (congrArg Prod.snd executed).symm
  cases op with
  | placeOrder orderId owner key quantity expiredAt =>
      rw [BookOp.apply, Proc.snd_bind_pure] at next_eq
      have drawnNext :=
        nextLeafNodeIndex_placeOrder book orderId owner key quantity expiredAt
      rw [← next_eq] at drawnNext
      refine .inl (drawnNext.trans ?_)
      cases bound : map[key]? with
      | none =>
          have opens : (BookOp.placeOrder orderId owner key quantity
              expiredAt).OpensLevel map := bound
          rw [if_pos (refines.findLeaf_of_unbound width bound), if_pos opens]
      | some tick =>
          obtain ⟨index, parent, found, _⟩ :=
            refines.findLeaf_of_bound width bound
          have keeps : ¬ (BookOp.placeOrder orderId owner key quantity
              expiredAt).OpensLevel map := by
            simp [BookOp.OpensLevel, bound]
          rw [if_neg (by simp [found]), if_neg keeps]
  | fillOrder key quantity =>
      rw [BookOp.apply, Proc.snd_bind_pure] at next_eq
      rw [next_eq]
      exact fillOrder_leaves book key quantity
  | cancelOrder maybeOwner key orderId quantity =>
      rw [BookOp.apply, Proc.snd_bind_pure] at next_eq
      rw [next_eq]
      exact .inl (nextLeafNodeIndex_cancelOrder ..)

/-- The indices that were drawn are the levels that were opened. -/
theorem Refines.drawn_step
    (width : 1 < w)
    {count : Nat}
    (refines : book.Refines map)
    (counted : book.drawn = count)
    (stepped : op.step book = some next) :
    next.drawn = (op.tally (map, count)).2 := by
  have reached := (refines.step_eq_some (by omega) stepped).2
  simp only [BookOp.tally]
  by_cases empty : (op.applyMap map).2 = ∅
  · rw [empty] at reached
    rw [reached.eq_new_of_empty, empty]
    rfl
  · have present : (op.applyMap map).2.isEmpty = false := by
      simpa using empty
    rw [present, if_neg Bool.false_ne_true]
    rcases refines.keepsOrResets_apply (by omega) stepped with drawnNext |
      ⟨_, root⟩
    · rw [drawn, drawnNext]
      by_cases opens : op.OpensLevel map
      · rw [if_pos opens, if_pos opens, ← counted]
        have within := refines.drawn_le width
        have positive := Nat.two_pow_pos (w - 1)
        have below : book.nextLeafNodeIndex < partitionIndex w := by
          rw [toNat_capacity (by omega), drawn] at within
          rw [BitVec.lt_def, toNat_partitionIndex (by omega)]
          omega
        exact toNat_succ_of_lt below
      · rw [if_neg opens, if_neg opens, ← counted]
        rfl
    · exact absurd root (reached.root_ne_partition (by omega) empty)

/--
In every book that successful operations reach, an order is refused for want
of an index exactly if there is no level at its price and as many levels as
there are indices were opened since the book was last empty.  Closing levels
makes no space as long as one of them is there.
-/
theorem exceedCapacity_iff_of_run
    (width : 1 < w)
    (ops : List (BookOp w Account))
    (ran : Run.run BookOp.step ops new = some book)
    (orderId : OrderId)
    (owner : Account)
    (key quantity : BitVec w)
    (expiredAt : Nat) :
    (placeOrder orderId owner key quantity expiredAt book).1 =
        .error (.error .exceedCapacity) ↔
      (BookOp.runMap ops)[key]? = none ∧
        BookOp.openings ops = (capacity w).toNat := by
  have matched :
      ∀ (op : BookOp w Account) (state next : OrderBook w Account) tallied,
        (state.Refines tallied.1 ∧ state.drawn = tallied.2) →
          op.step state = some next →
            next.Refines (op.tally tallied).1 ∧
              next.drawn = (op.tally tallied).2 := by
    rintro op state next ⟨map, count⟩ ⟨refines, counted⟩ stepped
    exact ⟨(refines.step_eq_some (by omega) stepped).2,
      refines.drawn_step width counted stepped⟩
  have initial :
      (new : OrderBook w Account).Refines
          ((∅, 0) : PriceMap w Account × Nat).1 ∧
        (new : OrderBook w Account).drawn =
          ((∅, 0) : PriceMap w Account × Nat).2 :=
    ⟨refines_new, rfl⟩
  have simulated := Run.run_simulates matched initial ran
  rw [BookOp.fst_tally] at simulated
  obtain ⟨refines, counted⟩ := simulated
  change book.drawn = BookOp.openings ops at counted
  have within := refines.drawn_le width
  have full :
      ¬ book.nextLeafNodeIndex < capacity w ↔
        BookOp.openings ops = (capacity w).toNat := by
    rw [BitVec.lt_def, ← counted]
    unfold drawn at within ⊢
    omega
  rw [← full]
  constructor
  · intro refused
    rcases refines.placeOrder_eq (by omega) orderId owner key quantity
        expiredAt with ⟨reached, placed, _⟩ | ⟨unbound, noRoom, _⟩
    · rw [placed] at refused
      cases refused
    · exact ⟨unbound, noRoom⟩
  · rintro ⟨unbound, noRoom⟩
    have found := refines.findLeaf_of_unbound (by omega) unbound
    simp only [placeOrder, Proc.bind_apply, Proc.read_apply, found]
    exact refines.insert_full (by omega) noRoom key _

/--
With indices of three bits, three levels were opened and two of them closed:
there is no index for another one.
-/
theorem exceedCapacity_iff_of_run_full :
    ∃ book : OrderBook 3 Nat,
      Run.run BookOp.step
          [.placeOrder 0 1 1 5 100, .placeOrder 1 1 2 5 100, .fillOrder 1 6,
            .placeOrder 2 1 3 5 100, .fillOrder 2 6]
          new = some book ∧
        book.size = 1 ∧
        (placeOrder 3 1 4 5 100 book).1 =
          .error (.error .exceedCapacity) := by
  have succeeds :
      (Run.run BookOp.step
          [.placeOrder 0 1 1 5 100, .placeOrder 1 1 2 5 100, .fillOrder 1 6,
            .placeOrder 2 1 3 5 100, .fillOrder 2 6]
          (new : OrderBook 3 Nat)).map (·.size) = some 1 := by
    decide
  obtain ⟨book, ran, size⟩ := Option.map_eq_some_iff.mp succeeds
  refine ⟨book, ran, size, ?_⟩
  exact (exceedCapacity_iff_of_run (by decide) _ ran 3 1 4 5 100).mpr
    ⟨by decide, by decide⟩

end CritbitTree

end HybridOrderbook
