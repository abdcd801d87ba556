import HybridOrderbook.Books

namespace HybridOrderbook

open Library

/-!
# Runs of pool operations

What holds of a pool after any placements, fills and cancels from
`Pool::new`: the ids of its open orders name their side and are all
different, and no quantity is lost or made on the way.
-/

variable {w : Nat} {Account : Type}

namespace OrderId

/-- The ids that are drawn for a side. -/
def InRange (bid : Bool) (orderId : OrderId) : Prop :=
  if bid then
    orderId.toNat < startAskId.toNat
  else
    startAskId.toNat ≤ orderId.toNat ∧ orderId ≠ BitVec.allOnes 64

theorem inRange_new (bid : Bool) : InRange bid (new bid) := by
  cases bid with
  | true =>
      show startBidId.toNat < startAskId.toNat
      decide
  | false =>
      exact ⟨Nat.le_refl _, by decide⟩

/-- The ids of bids are the lower half of the words. -/
theorem isBid_eq_true_iff (orderId : OrderId) :
    orderId.isBid = true ↔ orderId.toNat < startAskId.toNat := by
  have mask : startAskId = BitVec.twoPow 64 63 := by decide
  have topBit : orderId.getLsbD 63 = decide (2 ^ 63 ≤ orderId.toNat) :=
    (BitVec.msb_eq_getLsbD_last orderId).symm.trans
      (BitVec.msb_eq_decide orderId)
  have start : startAskId.toNat = 2 ^ 63 := by decide
  rw [isBid, beq_iff_eq, start, mask, BitVec.and_twoPow, topBit]
  by_cases upper : 2 ^ 63 ≤ orderId.toNat
  · rw [if_pos (decide_eq_true upper)]
    exact ⟨fun zero => absurd zero (by decide),
      fun lower => absurd upper (Nat.not_le.mpr lower)⟩
  · rw [if_neg (by simpa using upper)]
    exact ⟨fun _ => Nat.lt_of_not_le upper, fun _ => rfl⟩

theorem InRange.isBid_eq
    {bid : Bool}
    {orderId : OrderId}
    (inRange : InRange bid orderId) : orderId.isBid = bid := by
  cases bid with
  | true =>
      exact orderId.isBid_eq_true_iff.mpr inRange
  | false =>
      rw [← Bool.not_eq_true, isBid_eq_true_iff]
      exact Nat.not_lt.mpr inRange.1

/-- An increased id is the next word, and still in the range of its side. -/
theorem InRange.checkedIncrease
    {bid : Bool}
    {orderId following : OrderId}
    (inRange : InRange bid orderId)
    (increased : orderId.checkedIncrease = some following) :
    following.toNat = orderId.toNat + 1 ∧ InRange bid following := by
  have size := orderId.isLt
  have start : startAskId.toNat = 9223372036854775808 := by decide
  have ones : (BitVec.allOnes 64).toNat = 18446744073709551615 := by decide
  simp only [OrderId.checkedIncrease, inRange.isBid_eq,
    Option.ite_none_left_eq_some, Option.some.injEq] at increased
  obtain ⟨notLast, rfl⟩ := increased
  cases bid with
  | true =>
      have last : (startAskId - 1).toNat = 9223372036854775807 := by decide
      have lower : orderId.toNat < startAskId.toNat := inRange
      have before : orderId.toNat ≠ 9223372036854775807 := fun same =>
        notLast (BitVec.eq_of_toNat_eq (same.trans last.symm))
      have next : (orderId + 1).toNat = orderId.toNat + 1 :=
        BitVec.toNat_add_of_lt (show orderId.toNat + 1 < 2 ^ 64 by omega)
      refine ⟨next, ?_⟩
      show (orderId + 1).toNat < startAskId.toNat
      omega
  | false =>
      have last :
          (BitVec.allOnes 64 - 1).toNat = 18446744073709551614 := by decide
      obtain ⟨upper, notOnes⟩ := inRange
      have before : orderId.toNat ≠ 18446744073709551614 := fun same =>
        notLast (BitVec.eq_of_toNat_eq (same.trans last.symm))
      have notLargest : orderId.toNat ≠ 18446744073709551615 := fun same =>
        notOnes (BitVec.eq_of_toNat_eq (same.trans ones.symm))
      have next : (orderId + 1).toNat = orderId.toNat + 1 :=
        BitVec.toNat_add_of_lt (show orderId.toNat + 1 < 2 ^ 64 by omega)
      refine ⟨next, ?_, fun same => ?_⟩
      · omega
      · have sameNat := congrArg BitVec.toNat same
        omega

end OrderId

/-- The operations of a pool on its books. -/
inductive PoolOp (w : Nat) (Account : Type) where
  | placeOrder
      (expiredAt : Nat)
      (isBid : Bool)
      (owner : Account)
      (price quantity : BitVec w)
  | fillOrder (isBid : Bool) (price quantity : BitVec w)
  | cancelOrder
      (maybeOwner : Account)
      (price : BitVec w)
      (orderId : OrderId)
      (quantity : BitVec w)
  deriving Repr, DecidableEq

/-- Carry out one operation, keeping the pool only if it succeeds. -/
def PoolOp.step [DecidableEq Account] :
    PoolOp w Account → Pool w Account → Option (Pool w Account)
  | .placeOrder expiredAt isBid owner price quantity, pool =>
      (pool.placeOrder expiredAt isBid owner price quantity).toOption.map
        Prod.snd
  | .fillOrder isBid price quantity, pool =>
      (pool.fillOrder isBid price quantity).toOption.map Prod.snd
  | .cancelOrder maybeOwner price orderId quantity, pool =>
      (pool.cancelOrder maybeOwner price orderId quantity).toOption.map
        Prod.snd

theorem PoolOp.value_of_step
    {α : Type}
    {outcome : Outcome (α × Pool w Account)}
    {next : Pool w Account}
    (stepped : outcome.toOption.map Prod.snd = some next) :
    ∃ value, outcome = .ok (value, next) := by
  obtain ⟨⟨value, reached⟩, succeeded, rfl⟩ :=
    Option.map_eq_some_iff.mp stepped
  exact ⟨value, toOption_eq_some_iff.mp succeeded⟩

/-- A leaf of the book holds an order. -/
def CritbitTree.HoldsOrder
    (book : OrderBook w Account)
    (index price : BitVec w)
    (orderId : OrderId)
    (order : Order w Account) : Prop :=
  ∃ leaf,
    book.leaves[index]? = some leaf ∧ leaf.key = price ∧
      leaf.value.openOrders[orderId]? = some order

namespace CritbitTree

variable {book : OrderBook w Account} {map : PriceMap w Account}
  {index price : BitVec w} {orderId : OrderId} {order : Order w Account}

theorem Refines.orderAt_of_holdsOrder
    (refines : book.Refines map)
    (holds : book.HoldsOrder index price orderId order) :
    map.orderAt price orderId = some order := by
  obtain ⟨leaf, stored, rfl, bound⟩ := holds
  exact PriceMap.orderAt_eq_some_iff.mpr
    ⟨leaf.value, refines.bound_of_leaf stored, bound⟩

theorem Refines.holdsOrder_of_orderAt
    (width : 0 < w)
    (refines : book.Refines map)
    (resting : map.orderAt price orderId = some order) :
    ∃ index, book.HoldsOrder index price orderId order := by
  obtain ⟨tick, bound, listed⟩ := PriceMap.orderAt_eq_some_iff.mp resting
  obtain ⟨index, parent, _, _, stored⟩ :=
    refines.findLeaf_of_bound width bound
  exact ⟨index, _, stored, rfl, listed⟩

end CritbitTree

namespace Pool

variable {pool next : Pool w Account} {books : Bool → PriceMap w Account}
  {isBid : Bool}

/-- The invariant of the ids, on the books as price maps. -/
structure Numbered
    (pool : Pool w Account)
    (books : Bool → PriceMap w Account) : Prop where
  refines : pool.Refines books
  counters : ∀ isBid, OrderId.InRange isBid (pool.nextOrderId isBid)
  named :
    ∀ isBid price (orderId : OrderId) order,
      (books isBid).orderAt price orderId = some order →
        orderId.isBid = isBid ∧ orderId < pool.nextOrderId isBid
  unique :
    ∀ isBid price otherPrice (orderId : OrderId) order other,
      (books isBid).orderAt price orderId = some order →
        (books isBid).orderAt otherPrice orderId = some other →
          price = otherPrice

theorem numbered_new
    (lpToken : Nat)
    (tickSize lotSize : BitVec w)
    (poolDecimals baseDecimals quoteDecimals : BitVec 8) :
    (Pool.new lpToken tickSize lotSize poolDecimals baseDecimals
      quoteDecimals : Pool w Account).Numbered fun _ => ∅ where
  refines := by
    intro isBid
    cases isBid <;> exact CritbitTree.refines_new
  counters := by
    intro isBid
    cases isBid <;> exact OrderId.inRange_new _
  named := by simp
  unique := by simp

/-- The next id of a side names no open order. -/
theorem Numbered.fresh
    (numbered : pool.Numbered books)
    (isBid side : Bool)
    (price : BitVec w) :
    (books side).orderAt price (pool.nextOrderId isBid) = none := by
  rw [Option.eq_none_iff_forall_ne_some]
  intro order resting
  obtain ⟨sameSide, below⟩ := numbered.named side price _ order resting
  rw [(numbered.counters isBid).isBid_eq] at sameSide
  subst sameSide
  exact BitVec.lt_irrefl _ below

/-- Placing an order under the next id. -/
theorem Numbered.placeOrder
    (width : 0 < w)
    (numbered : pool.Numbered books)
    {expiredAt : Nat}
    {owner : Account}
    {price quantity : BitVec w}
    {answer : BitVec w × OrderId}
    (placed :
      pool.placeOrder expiredAt isBid owner price quantity =
        .ok (answer, next)) :
    next.Numbered (Function.update books isBid
      ((books isBid).placeOrder (pool.nextOrderId isBid) owner price quantity
        expiredAt)) := by
  obtain ⟨_, ⟨following, increased, counters⟩, _, refines⟩ :=
    numbered.refines.placeOrder_draws width placed
  obtain ⟨following_eq, inRange⟩ :=
    (numbered.counters isBid).checkedIncrease increased
  have grows : pool.nextOrderId isBid < following := by
    rw [BitVec.lt_def]
    omega
  refine ⟨refines, fun side => ?_, fun side => ?_, fun side => ?_⟩
  · rw [counters]
    by_cases same : side = isBid
    · subst same
      rwa [Function.update_self]
    · rw [Function.update_of_ne same]
      exact numbered.counters side
  · intro otherPrice orderId order resting
    rw [counters]
    by_cases same : side = isBid
    · subst same
      rw [Function.update_self, PriceMap.orderAt_placeOrder] at resting
      rw [Function.update_self]
      split at resting
      · rename_i placedHere
        rw [placedHere.2]
        exact ⟨(numbered.counters side).isBid_eq, grows⟩
      · obtain ⟨sameSide, below⟩ :=
          numbered.named side otherPrice orderId order resting
        exact ⟨sameSide, BitVec.lt_trans below grows⟩
    · rw [Function.update_of_ne same] at resting ⊢
      exact numbered.named side otherPrice orderId order resting
  · intro first second orderId order other resting otherResting
    by_cases same : side = isBid
    · subst same
      have fresh := numbered.fresh side side
      rw [Function.update_self,
        PriceMap.orderAt_placeOrder] at resting otherResting
      split at resting <;> split at otherResting
      · rename_i placedHere placedThere
        exact placedHere.1.trans placedThere.1.symm
      · rename_i placedHere _
        rw [placedHere.2, fresh] at otherResting
        cases otherResting
      · rename_i _ placedThere
        rw [placedThere.2, fresh] at resting
        cases resting
      · exact numbered.unique side first second orderId order other resting
          otherResting
    · rw [Function.update_of_ne same] at resting otherResting
      exact numbered.unique side first second orderId order other resting
        otherResting

/-- Filling and cancelling only take orders away. -/
theorem Numbered.shrinks
    (numbered : pool.Numbered books)
    {map : PriceMap w Account}
    (refines : next.Refines (Function.update books isBid map))
    (counters : next.nextOrderId = pool.nextOrderId)
    (kept :
      ∀ {price : BitVec w} {orderId : OrderId} {order : Order w Account},
        map.orderAt price orderId = some order →
          ∃ before,
            (books isBid).orderAt price orderId = some before ∧
              order.owner = before.owner ∧
              order.quantity ≤ before.quantity) :
    next.Numbered (Function.update books isBid map) := by
  have known :
      ∀ side price (orderId : OrderId) order,
        (Function.update books isBid map side).orderAt price orderId =
            some order →
          ∃ before,
            (books side).orderAt price orderId = some before := by
    intro side price orderId order resting
    by_cases same : side = isBid
    · subst same
      rw [Function.update_self] at resting
      obtain ⟨before, found, _⟩ := kept resting
      exact ⟨before, found⟩
    · rw [Function.update_of_ne same] at resting
      exact ⟨order, resting⟩
  refine ⟨refines, ?_, ?_, ?_⟩
  · rw [counters]
    exact numbered.counters
  · intro side price orderId order resting
    obtain ⟨before, found⟩ := known side price orderId order resting
    rw [counters]
    exact numbered.named side price orderId before found
  · intro side first second orderId order other resting otherResting
    obtain ⟨before, found⟩ := known side first orderId order resting
    obtain ⟨otherBefore, otherFound⟩ :=
      known side second orderId other otherResting
    exact numbered.unique side first second orderId before otherBefore found
      otherFound

theorem Numbered.fillOrder
    (width : 0 < w)
    (numbered : pool.Numbered books)
    {price quantity : BitVec w}
    {fills : Option (Fills w Account)}
    (filled : pool.fillOrder isBid price quantity = .ok (fills, next)) :
    fills = ((books !isBid).fillOrder price quantity).1 ∧
      next.Numbered (Function.update books (!isBid)
        ((books !isBid).fillOrder price quantity).2) := by
  obtain ⟨reached, executed, counters, _, refines⟩ :=
    numbered.refines.fillOrder_eq width isBid price quantity
  rw [filled] at executed
  cases executed
  exact ⟨rfl, numbered.shrinks refines counters PriceMap.orderAt_fillOrder⟩

theorem Numbered.cancelOrder
    [DecidableEq Account]
    (width : 0 < w)
    (numbered : pool.Numbered books)
    {maybeOwner : Account}
    {price quantity : BitVec w}
    {orderId answer : OrderId}
    (canceled :
      pool.cancelOrder maybeOwner price orderId quantity =
        .ok (answer, next)) :
    ((books orderId.isBid).cancelOrder maybeOwner price orderId quantity).1 =
        .ok () ∧
      next.Numbered (Function.update books orderId.isBid
        ((books orderId.isBid).cancelOrder maybeOwner price orderId
          quantity).2) := by
  obtain ⟨succeeded, counters, _, refines⟩ :=
    numbered.refines.cancelOrder_eq_ok width canceled
  exact ⟨succeeded, numbered.shrinks refines counters
    (PriceMap.orderAt_cancelOrder succeeded)⟩

/-- One operation keeps the ids in order. -/
theorem Numbered.step
    [DecidableEq Account]
    (width : 0 < w)
    (op : PoolOp w Account)
    (pool next : Pool w Account)
    (numbered : ∃ books, pool.Numbered books)
    (stepped : op.step pool = some next) :
    ∃ books, next.Numbered books := by
  obtain ⟨books, numbered⟩ := numbered
  cases op with
  | placeOrder expiredAt isBid owner price quantity =>
      obtain ⟨answer, placed⟩ := PoolOp.value_of_step stepped
      exact ⟨_, numbered.placeOrder width placed⟩
  | fillOrder isBid price quantity =>
      obtain ⟨fills, filled⟩ := PoolOp.value_of_step stepped
      exact ⟨_, (numbered.fillOrder width filled).2⟩
  | cancelOrder maybeOwner price orderId quantity =>
      obtain ⟨answer, canceled⟩ := PoolOp.value_of_step stepped
      exact ⟨_, (numbered.cancelOrder width canceled).2⟩

/-- Every reachable pool is numbered. -/
theorem numbered_of_run
    [DecidableEq Account]
    (width : 0 < w)
    {lpToken : Nat}
    {tickSize lotSize : BitVec w}
    {poolDecimals baseDecimals quoteDecimals : BitVec 8}
    {ops : List (PoolOp w Account)}
    (ran :
      Run.run PoolOp.step ops
          (Pool.new lpToken tickSize lotSize poolDecimals baseDecimals
            quoteDecimals) =
        some pool) :
    ∃ books, pool.Numbered books := by
  have reached := Run.run_invariant (Numbered.step width)
    ⟨_, numbered_new lpToken tickSize lotSize poolDecimals baseDecimals
      quoteDecimals⟩ ran
  exact reached

/-- An order rests in a pool. -/
def HoldsOrder
    (pool : Pool w Account)
    (isBid : Bool)
    (price : BitVec w)
    (orderId : OrderId)
    (order : Order w Account) : Prop :=
  ∃ index, (pool.getOrderbook isBid).HoldsOrder index price orderId order

theorem Refines.holdsOrder_iff
    (width : 0 < w)
    (refines : pool.Refines books)
    (isBid : Bool)
    (price : BitVec w)
    (orderId : OrderId)
    (order : Order w Account) :
    pool.HoldsOrder isBid price orderId order ↔
      (books isBid).orderAt price orderId = some order := by
  constructor
  · rintro ⟨index, holds⟩
    exact (refines isBid).orderAt_of_holdsOrder holds
  · exact (refines isBid).holdsOrder_of_orderAt width

/-- Ids name their side and one order, now and after the next operation. -/
structure IdsNameOrders
    [DecidableEq Account]
    (pool : Pool w Account) : Prop where
  bids :
    ∀ price (orderId : OrderId) order,
      pool.HoldsOrder true price orderId order →
        orderId.isBid = true ∧ orderId < pool.nextBidOrderId
  asks :
    ∀ price (orderId : OrderId) order,
      pool.HoldsOrder false price orderId order →
        orderId.isBid = false ∧ orderId < pool.nextAskOrderId
  bidRange : pool.nextBidOrderId.isBid = true
  askRange : pool.nextAskOrderId.isBid = false
  -- not twice in a tick, not in two leaves, not on both sides
  unique :
    ∀ isBid side index otherIndex price otherPrice (orderId : OrderId)
      order other,
      (pool.getOrderbook isBid).HoldsOrder index price orderId order →
        (pool.getOrderbook side).HoldsOrder otherIndex otherPrice orderId
            other →
          isBid = side ∧ index = otherIndex ∧ price = otherPrice ∧
            order = other
  -- a placed order is new, and all the others are still there
  places :
    ∀ expiredAt isBid owner price quantity answer (next : Pool w Account),
      pool.placeOrder expiredAt isBid owner price quantity =
          .ok (answer, next) →
        (∀ side otherPrice order,
          ¬ pool.HoldsOrder side otherPrice answer.2 order) ∧
          ∀ side otherPrice orderId order,
            next.HoldsOrder side otherPrice orderId order ↔
              pool.HoldsOrder side otherPrice orderId order ∨
                (side = isBid ∧ otherPrice = price ∧ orderId = answer.2 ∧
                  order = ⟨quantity, owner, expiredAt⟩)
  -- the owner of an order can cancel what is left of it
  cancels :
    ∀ isBid price (orderId : OrderId) order quantity,
      pool.HoldsOrder isBid price orderId order →
        quantity ≤ order.quantity →
          ∃ next,
            pool.cancelOrder order.owner price orderId quantity =
              .ok (orderId, next)

theorem Numbered.idsNameOrders
    [DecidableEq Account]
    (width : 0 < w)
    (numbered : pool.Numbered books) : pool.IdsNameOrders where
  bids price orderId order holds :=
    numbered.named true price orderId order
      ((numbered.refines.holdsOrder_iff width ..).mp holds)
  asks price orderId order holds :=
    numbered.named false price orderId order
      ((numbered.refines.holdsOrder_iff width ..).mp holds)
  bidRange := (numbered.counters true).isBid_eq
  askRange := (numbered.counters false).isBid_eq
  unique isBid side index otherIndex price otherPrice orderId order other
      holds otherHolds := by
    have resting := (numbered.refines isBid).orderAt_of_holdsOrder holds
    have otherResting :=
      (numbered.refines side).orderAt_of_holdsOrder otherHolds
    have sameSide : isBid = side :=
      (numbered.named isBid price orderId order resting).1.symm.trans
        (numbered.named side otherPrice orderId other otherResting).1
    subst sameSide
    have samePrice := numbered.unique isBid price otherPrice orderId order
      other resting otherResting
    subst samePrice
    rw [resting, Option.some.injEq] at otherResting
    obtain ⟨leaf, stored, keyed, _⟩ := holds
    obtain ⟨otherLeaf, otherStored, otherKeyed, _⟩ := otherHolds
    exact ⟨rfl, (numbered.refines isBid).index_eq_of_key_eq stored
      otherStored (keyed.trans otherKeyed.symm), rfl, otherResting⟩
  places expiredAt isBid owner price quantity answer next placed := by
    have nextNumbered := numbered.placeOrder width placed
    obtain ⟨rfl, _⟩ := numbered.refines.placeOrder_draws width placed
    have fresh := numbered.fresh isBid
    simp only [numbered.refines.holdsOrder_iff width,
      nextNumbered.refines.holdsOrder_iff width]
    refine ⟨by simp [fresh], fun side otherPrice orderId order => ?_⟩
    by_cases same : side = isBid
    · subst same
      rw [Function.update_self, PriceMap.orderAt_placeOrder]
      split
      · rename_i placedHere
        simp [placedHere, fresh, eq_comm]
      · rename_i placedElsewhere
        simp only [true_and, ← and_assoc, placedElsewhere, false_and,
          or_false]
    · simp [same]
  cancels isBid price orderId order quantity holds covered := by
    have resting := (numbered.refines.holdsOrder_iff width ..).mp holds
    obtain ⟨named, _⟩ := numbered.named isBid price orderId order resting
    subst named
    obtain ⟨reached, executed, _⟩ :=
      (numbered.refines orderId.isBid).cancelOrder_eq width order.owner price
        orderId quantity
    have succeeds := PriceMap.cancelOrder_of_orderAt resting covered
    refine ⟨pool.setOrderbook orderId.isBid reached, ?_⟩
    rw [cancelOrder_side, executed, succeeds]
    rfl

/--
In every pool that placements, fills and cancels reach from a new pool, the
ids of the open orders name their side and are all different.
-/
theorem idsNameOrders_of_run
    [DecidableEq Account]
    (width : 0 < w)
    (lpToken : Nat)
    (tickSize lotSize : BitVec w)
    (poolDecimals baseDecimals quoteDecimals : BitVec 8)
    (ops : List (PoolOp w Account))
    (ran :
      Run.run PoolOp.step ops
          (Pool.new lpToken tickSize lotSize poolDecimals baseDecimals
            quoteDecimals) =
        some pool) :
    pool.IdsNameOrders := by
  obtain ⟨books, numbered⟩ := numbered_of_run width ran
  exact numbered.idsNameOrders width

/-- Orders of both sides, at one price and at two, with a fill and a cancel. -/
theorem idsNameOrders_of_short_run :
    ∃ pool : Pool 64 Nat,
      Run.run PoolOp.step
          [.placeOrder 100 true 1 7 10, .placeOrder 100 true 2 7 4,
            .placeOrder 100 false 1 9 6, .fillOrder false 7 12,
            .cancelOrder 1 9 (OrderId.new false) 2,
            .placeOrder 100 true 1 5 3]
          (Pool.new 0 1 1 0 0 0) =
        some pool ∧
      pool.IdsNameOrders := by
  have succeeds :
      (Run.run PoolOp.step
        [.placeOrder 100 true 1 7 10, .placeOrder 100 true 2 7 4,
          .placeOrder 100 false 1 9 6, .fillOrder false 7 12,
          .cancelOrder 1 9 (OrderId.new false) 2,
          .placeOrder 100 true 1 5 3]
        (Pool.new 0 1 1 0 0 0 : Pool 64 Nat)).isSome = true := by
    decide +kernel
  have ran := (Option.some_get succeeds).symm
  exact ⟨_, ran, idsNameOrders_of_run (by decide) _ _ _ _ _ _ _ ran⟩

end Pool

/-- Quantity that is left of all open orders of a book. -/
def CritbitTree.openQuantity (book : OrderBook w Account) : Nat :=
  book.worth fun _ _ quantity => quantity

namespace PoolOp

/-- Quantity that an operation places on a side. -/
def placedOn (side : Bool) : PoolOp w Account → Pool w Account → Nat
  | .placeOrder _ isBid _ _ quantity, _ =>
      if isBid = side then quantity.toNat else 0
  | _, _ => 0

/-- Quantity that an operation reports as filled against a side. -/
def filledOn (side : Bool) : PoolOp w Account → Pool w Account → Nat
  | .fillOrder isBid price quantity, pool =>
      match pool.fillOrder isBid price quantity with
      | .ok (some fills, _) =>
          if (!isBid) = side then
            (fills.map fun fill => fill.2.toNat).sum
          else 0
      | _ => 0
  | _, _ => 0

/-- Quantity that an operation cancels on a side. -/
def canceledOn (side : Bool) : PoolOp w Account → Pool w Account → Nat
  | .cancelOrder _ _ orderId quantity, _ =>
      if orderId.isBid = side then quantity.toNat else 0
  | _, _ => 0

end PoolOp

namespace Pool

variable {pool next : Pool w Account} {books : Bool → PriceMap w Account}

theorem Refines.openQuantity_eq
    (refines : pool.Refines books)
    (side : Bool) :
    (pool.getOrderbook side).openQuantity =
      (books side).volumeAt fun _ => true :=
  (refines side).worth_eq _

/-- One operation, on the quantities of a side. -/
theorem Numbered.openQuantity_step
    [DecidableEq Account]
    (width : 0 < w)
    {op : PoolOp w Account}
    (numbered : pool.Numbered books)
    (side : Bool)
    (stepped : op.step pool = some next) :
    (next.getOrderbook side).openQuantity +
        (op.filledOn side pool + op.canceledOn side pool) =
      (pool.getOrderbook side).openQuantity + op.placedOn side pool := by
  cases op with
  | placeOrder expiredAt isBid owner price quantity =>
      obtain ⟨answer, placed⟩ := PoolOp.value_of_step stepped
      have nextNumbered := numbered.placeOrder width placed
      rw [nextNumbered.refines.openQuantity_eq,
        numbered.refines.openQuantity_eq]
      by_cases same : side = isBid
      · subst same
        rw [Function.update_self, PriceMap.volumeAt,
          PriceMap.worth_placeOrder _ (numbered.fresh side side price)]
        simp [PoolOp.filledOn, PoolOp.canceledOn, PoolOp.placedOn]
      · rw [Function.update_of_ne same]
        simp [PoolOp.filledOn, PoolOp.canceledOn, PoolOp.placedOn,
          Ne.symm same]
  | fillOrder isBid price quantity =>
      obtain ⟨fills, filled⟩ := PoolOp.value_of_step stepped
      obtain ⟨reported, nextNumbered⟩ := numbered.fillOrder width filled
      rw [nextNumbered.refines.openQuantity_eq,
        numbered.refines.openQuantity_eq]
      have taken := (books !isBid).volumeAt_fillOrder (fun _ => true) price
        quantity
      rw [PriceMap.fillsAt, ← reported] at taken
      by_cases same : side = !isBid
      · subst same
        rw [Function.update_self, ← taken]
        cases fills <;>
          simp [PoolOp.filledOn, PoolOp.canceledOn, PoolOp.placedOn, filled,
            Tick.fillsWorth]
      · rw [Function.update_of_ne same]
        cases fills <;>
          simp [PoolOp.filledOn, PoolOp.canceledOn, PoolOp.placedOn, filled,
            Ne.symm same]
  | cancelOrder maybeOwner price orderId quantity =>
      obtain ⟨answer, canceled⟩ := PoolOp.value_of_step stepped
      obtain ⟨succeeded, nextNumbered⟩ := numbered.cancelOrder width canceled
      rw [nextNumbered.refines.openQuantity_eq,
        numbered.refines.openQuantity_eq]
      have taken :=
        PriceMap.volumeAt_cancelOrder (fun _ => true) succeeded
      by_cases same : side = orderId.isBid
      · subst same
        rw [Function.update_self, ← taken]
        simp [PoolOp.filledOn, PoolOp.canceledOn, PoolOp.placedOn]
      · rw [Function.update_of_ne same]
        simp [PoolOp.filledOn, PoolOp.canceledOn, PoolOp.placedOn,
          Ne.symm same]

/--
Along every run from a new pool, what was placed on a side is what is left
open there, what fills reported against it and what was cancelled.
-/
theorem placed_eq_open_add_filled_add_canceled
    [DecidableEq Account]
    (width : 0 < w)
    (lpToken : Nat)
    (tickSize lotSize : BitVec w)
    (poolDecimals baseDecimals quoteDecimals : BitVec 8)
    (ops : List (PoolOp w Account))
    (start : Pool w Account)
    (created :
      start = Pool.new lpToken tickSize lotSize poolDecimals baseDecimals
        quoteDecimals)
    (ran : Run.run PoolOp.step ops start = some pool)
    (side : Bool) :
    Run.total PoolOp.step (PoolOp.placedOn side) ops start =
      (pool.getOrderbook side).openQuantity +
        Run.total PoolOp.step (PoolOp.filledOn side) ops start +
        Run.total PoolOp.step (PoolOp.canceledOn side) ops start := by
  subst created
  have balance := Run.run_balance (Numbered.step width)
    (fun op before after ⟨_, numbered⟩ stepped =>
      numbered.openQuantity_step width side stepped)
    ⟨_, numbered_new lpToken tickSize lotSize poolDecimals baseDecimals
      quoteDecimals⟩ ran
  have initially :
      ((Pool.new lpToken tickSize lotSize poolDecimals baseDecimals
        quoteDecimals : Pool w Account).getOrderbook side).openQuantity =
        0 := by
    rw [(numbered_new lpToken tickSize lotSize poolDecimals baseDecimals
      quoteDecimals).refines.openQuantity_eq]
    exact PriceMap.worth_empty
  rw [Run.total_add, initially, Nat.zero_add, ← Nat.add_assoc] at balance
  exact balance.symm

/-- A fill that empties a level, one that stops inside an order, a cancel. -/
theorem placed_eq_open_add_filled_add_canceled_after_fills :
    ∃ (ops : List (PoolOp 64 Nat)) (start pool : Pool 64 Nat),
      ops = [.placeOrder 100 false 1 7 10, .placeOrder 100 false 2 7 4,
          .placeOrder 100 false 1 9 6, .fillOrder true 7 12,
          .fillOrder true 7 5, .cancelOrder 1 9 (OrderId.new false + 2) 1] ∧
        start = Pool.new 0 1 1 0 0 0 ∧
        Run.run PoolOp.step ops start = some pool ∧
        Run.total PoolOp.step (PoolOp.filledOn false) ops start = 14 ∧
        Run.total PoolOp.step (PoolOp.placedOn false) ops start =
          (pool.getOrderbook false).openQuantity +
            Run.total PoolOp.step (PoolOp.filledOn false) ops start +
            Run.total PoolOp.step (PoolOp.canceledOn false) ops start := by
  have succeeds :
      (Run.run PoolOp.step
        [.placeOrder 100 false 1 7 10, .placeOrder 100 false 2 7 4,
          .placeOrder 100 false 1 9 6, .fillOrder true 7 12,
          .fillOrder true 7 5, .cancelOrder 1 9 (OrderId.new false + 2) 1]
        (Pool.new 0 1 1 0 0 0 : Pool 64 Nat)).isSome = true := by
    decide +kernel
  have ran := (Option.some_get succeeds).symm
  exact ⟨_, _, _, rfl, rfl, ran, by decide +kernel,
    placed_eq_open_add_filled_add_canceled (by decide) _ _ _ _ _ _ _ _ rfl
      ran false⟩

end Pool

end HybridOrderbook
