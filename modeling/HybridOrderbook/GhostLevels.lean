import HybridOrderbook.Levels
import HybridOrderbook.Pool

namespace HybridOrderbook

open Library

/-!
# Levels without liquidity

A fill whose quantity ends exactly at the end of an order leaves that order
in its tick with quantity zero, and a cancel that takes the last order of a
price leaves an empty tick in the tree.  Nothing else makes such a level.
-/

variable {w : Nat} {Account : Type}

namespace Tick

/-- The quantity ends exactly where one of the orders ends. -/
def endsAtOrder (remain : BitVec w) :
    List (OrderId × Order w Account) → Bool
  | [] => false
  | (_, order) :: rest =>
      order.quantity = remain ||
        (order.quantity < remain &&
          endsAtOrder (remain - order.quantity) rest)

/-- Only a quantity that ends at an order leaves an order of zero. -/
theorem zero_mem_unserved_iff
    (remain : BitVec w)
    {orders : List (OrderId × Order w Account)}
    (positive : ∀ binding ∈ orders, binding.2.quantity ≠ 0) :
    (∃ binding ∈ unserved remain orders, binding.2.quantity = 0) ↔
      endsAtOrder remain orders = true := by
  induction orders generalizing remain with
  | nil =>
      simp [unserved, endsAtOrder]
  | cons binding rest inductionHypothesis =>
      rcases binding with ⟨id, order⟩
      have headPositive : order.quantity ≠ 0 :=
        positive _ (List.mem_cons_self ..)
      have restPositive : ∀ binding ∈ rest, binding.2.quantity ≠ 0 :=
        fun binding member => positive binding (List.mem_cons_of_mem _ member)
      have noneInRest : ¬ ∃ binding ∈ rest, binding.2.quantity = 0 := by
        rintro ⟨binding, member, zero⟩
        exact restPositive binding member zero
      unfold unserved endsAtOrder
      by_cases done : remain = 0
      · subst done
        have notBelow : ¬ order.quantity < 0 := BitVec.not_lt_zero
        simp only [↓reduceIte, List.mem_cons, exists_eq_or_imp, headPositive,
          noneInRest, notBelow, decide_false, Bool.false_and, Bool.or_self,
          Bool.false_eq_true, or_self]
      · by_cases enough : order.quantity ≥ remain
        · have notBelow : ¬ order.quantity < remain := BitVec.not_lt.mpr enough
          have ends :
              order.quantity - remain = 0 ↔ order.quantity = remain := by
            rw [BitVec.sub_eq_iff_eq_add]
            simp
          simp only [done, enough, ↓reduceIte, List.mem_cons,
            exists_eq_or_imp, noneInRest, or_false, notBelow, decide_false,
            Bool.false_and, Bool.or_false, ends, decide_eq_true_eq]
        · have small := BitVec.not_le.mp enough
          simp only [done, enough, ↓reduceIte]
          rw [inductionHypothesis _ restPositive]
          simp [small, BitVec.ne_of_lt small]

/-- A level with liquidity: it has orders, all of them with some quantity. -/
structure Live (tick : Tick w Account) : Prop where
  nonempty : tick.openOrders ≠ ∅
  positive :
    ∀ (id : OrderId) (order : Order w Account),
      tick.openOrders[id]? = some order → order.quantity ≠ 0

theorem Live.listed_positive
    {tick : Tick w Account}
    (live : tick.Live) :
    ∀ binding ∈ tick.openOrders.toList, binding.2.quantity ≠ 0 :=
  fun binding member => live.positive binding.1 binding.2
    (Std.ExtTreeMap.mem_toList_iff_getElem?_eq_some.mp member)

theorem Live.insert
    {orders : Std.ExtTreeMap OrderId (Order w Account)}
    {orderId : OrderId}
    {order : Order w Account}
    (positive :
      ∀ (id : OrderId) (other : Order w Account),
        orders[id]? = some other → other.quantity ≠ 0)
    (some : order.quantity ≠ 0) :
    (Tick.mk (orders.insert orderId order)).Live where
  nonempty empty := by simp at empty
  positive id other bound := by
    rw [Std.ExtTreeMap.getElem?_insert] at bound
    split at bound
    · cases bound
      exact some
    · exact positive id other bound

/-- A fill leaves a live tick, an empty one or an order of zero. -/
theorem Live.filled_iff
    {tick : Tick w Account}
    (live : tick.Live)
    (quantity : BitVec w) :
    ((tick.filled quantity).2.isEmpty = true ∨
        (tick.filled quantity).2.Live) ↔
      ¬ endsAtOrder quantity tick.openOrders.toList = true := by
  have orders := (tick.filling_serves quantity).2
  rw [← zero_mem_unserved_iff quantity live.listed_positive]
  constructor
  · rintro (emptied | stillLive) ⟨⟨id, order⟩, left, zero⟩
    · have bound := (orders id order).mpr left
      rw [Std.ExtTreeMap.isEmpty_iff.mp emptied] at bound
      simp at bound
    · exact stillLive.positive id order ((orders id order).mpr left) zero
  · intro noZero
    by_cases emptied : (tick.filled quantity).2.openOrders = ∅
    · exact .inl (Std.ExtTreeMap.isEmpty_iff.mpr emptied)
    · refine .inr ⟨emptied, fun id order bound zero => noZero ?_⟩
      exact ⟨(id, order), (orders id order).mp bound, zero⟩

/-- A cancel leaves a live tick unless it takes the last order. -/
theorem Live.canceled_iff
    [DecidableEq Account]
    {tick changed : Tick w Account}
    (live : tick.Live)
    {owner : Account}
    {orderId : OrderId}
    {quantity : BitVec w}
    (canceled : tick.canceled owner orderId quantity = .ok changed) :
    changed.Live ↔
      ¬ (tick.openOrders.size = 1 ∧
        tick.openOrders[orderId]?.map Order.quantity = some quantity) := by
  obtain ⟨order, found, _, _, ⟨whole, rfl⟩ | ⟨part, rfl⟩⟩ :=
    canceled_eq_ok canceled
  · simp only [found, Option.map_some, whole, and_true]
    have member := TreeMap.mem_of_getElem? found
    have counted : tick.openOrders.size ≠ 0 := fun none =>
      live.nonempty (Std.ExtTreeMap.eq_empty_iff_size_eq_zero.mpr none)
    have remaining : (tick.openOrders.erase orderId).size =
        tick.openOrders.size - 1 := by
      rw [Std.ExtTreeMap.size_erase,
        if_pos (Std.ExtTreeMap.mem_iff_contains.mp member)]
    constructor
    · intro stillLive single
      refine stillLive.nonempty
        (Std.ExtTreeMap.eq_empty_iff_size_eq_zero.mpr ?_)
      rw [remaining, single]
    · intro several
      refine ⟨fun empty => several ?_, fun id other bound => ?_⟩
      · have none : (tick.openOrders.erase orderId).size = 0 :=
          Std.ExtTreeMap.eq_empty_iff_size_eq_zero.mp empty
        omega
      · rw [Std.ExtTreeMap.getElem?_erase] at bound
        split at bound
        · cases bound
        · exact live.positive id other bound
  · have left : order.quantity - quantity ≠ 0 := fun zero => part (by
      rw [BitVec.sub_eq_iff_eq_add] at zero
      simpa using zero)
    simp only [found, Option.map_some, Option.some.injEq, part, and_false,
      not_false_eq_true, iff_true]
    exact Live.insert live.positive left

theorem Live.volume_pos
    {tick : Tick w Account}
    (live : tick.Live) : 0 < tick.volume := by
  obtain ⟨id, member⟩ : ∃ id, id ∈ tick.openOrders := by
    by_contra none
    exact live.nonempty (TreeMap.eq_empty_of_not_mem fun id member =>
      none ⟨id, member⟩)
  have bound := Std.ExtTreeMap.getElem?_eq_some_getElem member
  have positive := live.positive id _ bound
  have counted : tick.volume = _ := worth_of_bound (fun _ part => part) bound
  have nonzero : tick.openOrders[id].quantity.toNat ≠ 0 := fun zero =>
    positive (BitVec.eq_of_toNat_eq zero)
  omega

/-- Something can be filled at a level with liquidity. -/
theorem Live.filled_eq_some
    {tick : Tick w Account}
    (live : tick.Live)
    {quantity : BitVec w}
    (asked : quantity ≠ 0) :
    ∃ fills, (tick.filled quantity).1 = some fills := by
  have some : (tick.filling quantity).filled ≠ 0 := by
    rcases tick.filled_exhausts quantity with complete | emptied
    · rwa [complete]
    · intro none
      have conserved := tick.volume_filled quantity
      have counted := (tick.toNat_filling_filled quantity).1
      have left : (tick.filled quantity).2.volume = 0 := by
        rw [volume, worth, Std.ExtTreeMap.isEmpty_iff.mp emptied,
          TreeMap.total_empty]
      have before := live.volume_pos
      have zero : (tick.filling quantity).filled.toNat = 0 := by
        simp [none]
      omega
  exact ⟨_, if_neg some⟩

end Tick

namespace PriceMap

/-- Every level has liquidity. -/
def Live (map : PriceMap w Account) : Prop :=
  ∀ (key : BitVec w) (tick : Tick w Account),
    map[key]? = some tick → tick.Live

theorem live_insert_iff
    {map : PriceMap w Account}
    (live : map.Live)
    (key : BitVec w)
    (tick : Tick w Account) :
    PriceMap.Live (Std.ExtTreeMap.insert map key tick) ↔ tick.Live := by
  constructor
  · intro inserted
    exact inserted key tick (by simp)
  · intro tickLive other found bound
    rw [Std.ExtTreeMap.getElem?_insert] at bound
    split at bound
    · cases bound
      exact tickLive
    · exact live other found bound

theorem Live.erase
    {map : PriceMap w Account}
    (live : map.Live)
    (key : BitVec w) : PriceMap.Live (Std.ExtTreeMap.erase map key) := by
  intro other found bound
  rw [Std.ExtTreeMap.getElem?_erase] at bound
  split at bound
  · cases bound
  · exact live other found bound

end PriceMap

namespace BookOp

/-- Placements are of positive quantity. -/
def PlacesPositive : BookOp w Account → Prop
  | .placeOrder _ _ _ quantity _ => quantity ≠ 0
  | _ => True

/--
The operation does not end exactly at an order, and does not cancel the last
order of a price.
-/
def LeavesNoGhost : BookOp w Account → OrderBook w Account → Prop
  | .placeOrder _ _ _ _ _, _ => True
  | .fillOrder key quantity, book =>
      ∀ tick,
        book.openOrdersAt key = .ok (some tick) →
          ¬ Tick.endsAtOrder quantity tick.openOrders.toList = true
  | .cancelOrder _ key orderId quantity, book =>
      ∀ tick,
        book.openOrdersAt key = .ok (some tick) →
          ¬ (tick.openOrders.size = 1 ∧
            tick.openOrders[orderId]?.map Order.quantity = some quantity)

instance decidablePlacesPositive :
    ∀ op : BookOp w Account, Decidable op.PlacesPositive
  | .placeOrder _ _ _ quantity _ => inferInstanceAs (Decidable (quantity ≠ 0))
  | .fillOrder _ _ => .isTrue trivial
  | .cancelOrder _ _ _ _ => .isTrue trivial

instance decidableLeavesNoGhost :
    ∀ (op : BookOp w Account) (book : OrderBook w Account),
      Decidable (op.LeavesNoGhost book)
  | .placeOrder _ _ _ _ _, _ => .isTrue trivial
  | .fillOrder key _, book =>
      decidableForallFound (book.openOrdersAt key) _
  | .cancelOrder _ key _ _, book =>
      decidableForallFound (book.openOrdersAt key) _

end BookOp

namespace CritbitTree

/-- Levels, their number and the best of them stand for liquidity. -/
structure NoGhosts (book : OrderBook w Account) : Prop where
  levels :
    ∀ (index : BitVec w) (leaf : LeafNode w (Tick w Account)),
      book.leaves[index]? = some leaf → leaf.value.Live
  size :
    book.size =
      (book.leaves.toList.filter fun binding =>
        0 < binding.2.value.volume).length
  minOrder :
    ∀ price index quantity,
      book.minOrder = some (price, index) → quantity ≠ 0 →
        ∃ fills, (fillOrder price quantity book).1 = .ok (some fills)
  maxOrder :
    ∀ price index quantity,
      book.maxOrder = some (price, index) → quantity ≠ 0 →
        ∃ fills, (fillOrder price quantity book).1 = .ok (some fills)

variable {book next : OrderBook w Account} {map : PriceMap w Account}

/-- Something can be filled at every price that the map has. -/
theorem Refines.fillOrder_eq_some
    (width : 0 < w)
    (refines : book.Refines map)
    (live : map.Live)
    {price quantity : BitVec w}
    {tick : Tick w Account}
    (bound : map[price]? = some tick)
    (asked : quantity ≠ 0) :
    ∃ fills, (fillOrder price quantity book).1 = .ok (some fills) := by
  obtain ⟨fills, filled⟩ := (live price tick bound).filled_eq_some asked
  obtain ⟨reached, executed, _⟩ := refines.fillOrder_eq width price quantity
  refine ⟨fills, ?_⟩
  rw [executed]
  simp [PriceMap.fillOrder, bound, filled]

theorem Refines.noGhosts_iff
    (width : 0 < w)
    (refines : book.Refines map) :
    book.NoGhosts ↔ map.Live := by
  constructor
  · intro noGhosts key tick bound
    obtain ⟨index, parent, _, _, stored⟩ :=
      refines.findLeaf_of_bound width bound
    exact noGhosts.levels index _ stored
  · intro live
    have levels :
        ∀ (index : BitVec w) (leaf : LeafNode w (Tick w Account)),
          book.leaves[index]? = some leaf → leaf.value.Live :=
      fun index leaf stored => live leaf.key leaf.value
        (refines.bound_of_leaf stored)
    refine ⟨levels, ?_, fun price index quantity least asked => ?_,
      fun price index quantity greatest asked => ?_⟩
    · have all :
          (book.leaves.toList.filter fun binding =>
            0 < binding.2.value.volume) = book.leaves.toList := by
        refine List.filter_eq_self.mpr fun binding member => ?_
        have stored :=
          Std.ExtTreeMap.mem_toList_iff_getElem?_eq_some.mp member
        exact decide_eq_true (levels _ _ stored).volume_pos
      rw [all, Std.ExtTreeMap.length_toList, size]
    · rcases refines.minLeaf_eq with
        ⟨_, answered⟩ | ⟨key, found, _, tick, answered, _, bound, _⟩
      · simp [CritbitTree.minOrder, answered] at least
      · simp only [CritbitTree.minOrder, answered, Option.some.injEq,
          Prod.mk.injEq] at least
        exact refines.fillOrder_eq_some width live (least.1 ▸ bound) asked
    · rcases refines.maxLeaf_eq with
        ⟨_, answered⟩ | ⟨key, found, _, tick, answered, _, bound, _⟩
      · simp [CritbitTree.maxOrder, answered] at greatest
      · simp only [CritbitTree.maxOrder, answered, Option.some.injEq,
          Prod.mk.injEq] at greatest
        exact refines.fillOrder_eq_some width live (greatest.1 ▸ bound) asked

/-- One operation on levels with liquidity. -/
theorem Refines.live_step_iff
    [DecidableEq Account]
    (width : 0 < w)
    {op : BookOp w Account}
    (refines : book.Refines map)
    (live : map.Live)
    (positive : op.PlacesPositive)
    (stepped : op.step book = some next) :
    (op.applyMap map).2.Live ↔ op.LeavesNoGhost book := by
  cases op with
  | placeOrder orderId owner key quantity expiredAt =>
      simp only [BookOp.LeavesNoGhost, BookOp.applyMap, iff_true]
      unfold PriceMap.placeOrder
      split
      · rename_i tick bound
        rw [PriceMap.live_insert_iff live]
        exact Tick.Live.insert (live key tick bound).positive positive
      · rw [PriceMap.live_insert_iff live]
        exact Tick.Live.insert (by simp) positive
  | fillOrder key quantity =>
      simp only [BookOp.LeavesNoGhost, BookOp.applyMap,
        refines.openOrdersAt_eq width, Except.ok.injEq]
      unfold PriceMap.fillOrder
      cases bound : map[key]? with
      | none =>
          simpa using live
      | some tick =>
          simp only [Option.some.injEq, forall_eq',
            ← (live key tick bound).filled_iff quantity]
          by_cases emptied : (tick.filled quantity).2.isEmpty = true
          · simpa [emptied] using live.erase key
          · simp only [emptied, Bool.false_eq_true, ↓reduceIte, false_or]
            exact PriceMap.live_insert_iff live key _
  | cancelOrder maybeOwner key orderId quantity =>
      have succeeded :
          (map.cancelOrder maybeOwner key orderId quantity).1 = .ok () := by
        obtain ⟨⟨reply, answered⟩, _⟩ := refines.step_eq_some width stepped
        rw [BookOp.applyMap] at answered
        cases outcome : (map.cancelOrder maybeOwner key orderId quantity).1
          with
        | error fault =>
            simp [outcome, Except.map] at answered
        | ok value =>
            rfl
      obtain ⟨tick, changed, bound, canceled, shape⟩ :=
        PriceMap.cancelOrder_eq_ok succeeded
      simp only [BookOp.LeavesNoGhost, BookOp.applyMap,
        refines.openOrdersAt_eq width, bound, Except.ok.injEq,
        Option.some.injEq, forall_eq', shape]
      rw [PriceMap.live_insert_iff live,
        (live key tick bound).canceled_iff canceled]

/--
In every run whose fills do not end exactly at an order and whose cancels do
not take the last order of a price, every level of the book has liquidity;
and any other operation makes a level without.
-/
theorem noGhosts_of_run
    [DecidableEq Account]
    (width : 0 < w)
    (ops : List (BookOp w Account))
    (ran : Run.run BookOp.step ops new = some book) :
    (Run.Along BookOp.step
        (fun op state => op.PlacesPositive ∧ op.LeavesNoGhost state) ops
        new →
      book.NoGhosts) ∧
      ∀ (op : BookOp w Account) (next : OrderBook w Account),
        op.PlacesPositive → book.NoGhosts → op.step book = some next →
          (next.NoGhosts ↔ op.LeavesNoGhost book) := by
  constructor
  · intro along
    have reached := Run.run_invariant_along
      (fun op state next (known :
          ∃ map : PriceMap w Account, state.Refines map ∧ map.Live)
          (condition : op.PlacesPositive ∧ op.LeavesNoGhost state)
          stepped => by
        obtain ⟨map, refines, live⟩ := known
        exact (⟨_, (refines.step_eq_some width stepped).2,
          (refines.live_step_iff width live condition.1 stepped).mpr
            condition.2⟩ :
          ∃ map : PriceMap w Account, next.Refines map ∧ map.Live))
      ⟨_, refines_new, by intro key tick bound; simp at bound⟩ along ran
    obtain ⟨map, refines, live⟩ := reached
    exact (refines.noGhosts_iff width).mpr live
  · intro op next positive noGhosts stepped
    have refines := refines_of_run width ran
    have live := (refines.noGhosts_iff width).mp noGhosts
    rw [(refines.step_eq_some width stepped).2.noGhosts_iff width]
    exact refines.live_step_iff width live positive stepped

/-- Fills that end inside orders or take a whole level, and a cancel. -/
theorem noGhosts_of_short_run :
    ∃ book : OrderBook 64 Nat,
      Run.run BookOp.step
          [.placeOrder 0 1 7 10 100, .placeOrder 1 1 7 10 100,
            .placeOrder 2 1 9 10 100, .fillOrder 7 15, .fillOrder 7 6,
            .cancelOrder 1 9 2 4] new =
        some book ∧
      book.NoGhosts := by
  have succeeds :
      (Run.run BookOp.step
        [.placeOrder 0 1 7 10 100, .placeOrder 1 1 7 10 100,
          .placeOrder 2 1 9 10 100, .fillOrder 7 15, .fillOrder 7 6,
          .cancelOrder 1 9 2 4] (new : OrderBook 64 Nat)).isSome = true := by
    decide +kernel
  have ran := (Option.some_get succeeds).symm
  exact ⟨_, ran, (noGhosts_of_run (by decide) _ ran).1 (by decide +kernel)⟩

/-- A best level at which nothing is filled is a ghost. -/
theorem not_noGhosts_of_minOrder
    {price index quantity : BitVec w}
    (least : book.minOrder = some (price, index))
    (asked : quantity ≠ 0)
    (nothing : (fillOrder price quantity book).1 = .ok none) :
    ¬ book.NoGhosts := by
  intro noGhosts
  obtain ⟨fills, filled⟩ := noGhosts.minOrder price index quantity least asked
  rw [nothing] at filled
  cases filled

/-- An exact fill and a cancel of a last order leave levels to be filled. -/
theorem fill_and_cancel_leave_ghosts :
    ∃ filled canceled : OrderBook 64 Nat,
      Run.run BookOp.step [.placeOrder 0 1 7 10 100, .fillOrder 7 10] new =
          some filled ∧
        Run.run BookOp.step [.placeOrder 0 1 7 10 100, .cancelOrder 1 7 0 10]
            new =
          some canceled ∧
        ¬ filled.NoGhosts ∧ ¬ canceled.NoGhosts := by
  have fillObserved :
      (Run.run BookOp.step [.placeOrder 0 1 7 10 100, .fillOrder 7 10]
        (new : OrderBook 64 Nat)).map
          (fun book => (book.minOrder, (fillOrder 7 1 book).1)) =
        some (some (7, 0), .ok none) := by
    decide +kernel
  have cancelObserved :
      (Run.run BookOp.step [.placeOrder 0 1 7 10 100, .cancelOrder 1 7 0 10]
        (new : OrderBook 64 Nat)).map
          (fun book => (book.minOrder, (fillOrder 7 1 book).1)) =
        some (some (7, 0), .ok none) := by
    decide +kernel
  obtain ⟨filled, fillRan, fillSeen⟩ := Option.map_eq_some_iff.mp fillObserved
  obtain ⟨canceled, cancelRan, cancelSeen⟩ :=
    Option.map_eq_some_iff.mp cancelObserved
  rw [Prod.mk.injEq] at fillSeen cancelSeen
  exact ⟨filled, canceled, fillRan, cancelRan,
    not_noGhosts_of_minOrder fillSeen.1 (by decide) fillSeen.2,
    not_noGhosts_of_minOrder cancelSeen.1 (by decide) cancelSeen.2⟩

end CritbitTree

end HybridOrderbook
