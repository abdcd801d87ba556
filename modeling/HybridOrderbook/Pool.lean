import HybridOrderbook.OrderBook

namespace HybridOrderbook

open Library

/-!
# Pools

A pool pairs the two books of an asset pair with the parameters it was
created with.  `types.rs` also stores a taker fee rate, which nothing reads.
-/

/-- Errors of the pallet, and of the registries it calls. -/
inductive PalletError where
  | invalidAssetPair
  | wrongDesiredAmount
  | amountOneLessThanMinimal
  | amountTwoLessThanMinimal
  | amountOutTooHigh
  | poolNotFound
  | overflow
  | assetOneDepositDidNotMeetMinimum
  | assetTwoDepositDidNotMeetMinimum
  | optimalAmountLessThanDesired
  | insufficientLiquidityMinted
  | assetOneWithdrawalDidNotMeetMinimum
  | assetTwoWithdrawalDidNotMeetMinimum
  | reserveLeftLessThanMinimal
  | zeroLiquidity
  | zeroAmount
  | providedMinimumNotSufficientForSwap
  | providedMaximumNotSufficientForSwap
  | invalidPath
  | nonUniquePath
  | belowMinimum
  | invalidOrderPrice
  | invalidOrderQuantity
  | errorOnFillOrder
  | errorOnPlaceOrder
  | errorOnCancelOrder
  -- `TokenError::NotExpendable`, `ArithmeticError` and any other refusal
  | notExpendable
  | arithmeticOverflow
  | arithmeticUnderflow
  | refused
  deriving Repr, DecidableEq

/-- Outcome of a pallet function. -/
abbrev Outcome (α : Type) := Except (Fault PalletError) α

/-- Detail of the pool. -/
structure Pool (w : Nat) (Account : Type) where
  lpToken : Nat
  bids : OrderBook w Account
  asks : OrderBook w Account
  nextBidOrderId : OrderId
  nextAskOrderId : OrderId
  tickSize : BitVec w
  lotSize : BitVec w
  poolDecimals : BitVec 8
  baseDecimals : BitVec 8
  quoteDecimals : BitVec 8

namespace Pool

variable {w : Nat} {Account : Type}

/-- Create new instance of `Pool`, with empty books. -/
def new
    (lpToken : Nat)
    (tickSize lotSize : BitVec w)
    (poolDecimals baseDecimals quoteDecimals : BitVec 8) :
    Pool w Account where
  lpToken := lpToken
  bids := CritbitTree.new
  asks := CritbitTree.new
  nextBidOrderId := OrderId.new true
  nextAskOrderId := OrderId.new false
  tickSize := tickSize
  lotSize := lotSize
  poolDecimals := poolDecimals
  baseDecimals := baseDecimals
  quoteDecimals := quoteDecimals

/-- Powers of ten for the price, the base reserve and the quote reserve. -/
def decimalAdjustment (pool : Pool w Account) :
    Option (BitVec 8) × Option (BitVec 8) × Option (BitVec 8) :=
  let priceAdj :=
    if pool.poolDecimals = 0 then none else some pool.poolDecimals
  if pool.baseDecimals > pool.quoteDecimals then
    (priceAdj, none, some (pool.baseDecimals - pool.quoteDecimals))
  else if pool.baseDecimals < pool.quoteDecimals then
    (priceAdj, some (pool.quoteDecimals - pool.baseDecimals), none)
  else
    (priceAdj, none, none)

/-- The book of a side. -/
def getOrderbook (pool : Pool w Account) (isBid : Bool) :
    OrderBook w Account :=
  if isBid then pool.bids else pool.asks

/-- Order price should be greater than 0 and a multiple of `tickSize`. -/
def isValidOrderPrice (pool : Pool w Account) (price : BitVec w) :
    Outcome Bool :=
  if price > 0 then do
    let excess ← Machine.rem price pool.tickSize
    .ok (excess = 0)
  else
    .ok false

/-- Order quantity should be at least `lotSize` and a multiple of it. -/
def isValidOrderQuantity (pool : Pool w Account) (quantity : BitVec w) :
    Outcome Bool :=
  if quantity ≥ pool.lotSize then do
    let excess ← Machine.rem quantity pool.lotSize
    .ok (excess = 0)
  else
    .ok false

/-- Take the next id of a bid. -/
def drawNextBidOrderId (pool : Pool w Account) :
    Outcome (OrderId × Pool w Account) := do
  let next := pool.nextBidOrderId
  let following ← okOr next.checkedIncrease .overflow
  .ok (next, { pool with nextBidOrderId := following })

/-- Take the next id of an ask. -/
def drawNextAskOrderId (pool : Pool w Account) :
    Outcome (OrderId × Pool w Account) := do
  let next := pool.nextAskOrderId
  let following ← okOr next.checkedIncrease .overflow
  .ok (next, { pool with nextAskOrderId := following })

/-- Get the next bid order that should be filled. -/
def nextBidOrder (pool : Pool w Account) : Option (BitVec w × BitVec w) :=
  pool.bids.maxOrder

/-- Get the next ask order that should be filled. -/
def nextAskOrder (pool : Pool w Account) : Option (BitVec w × BitVec w) :=
  pool.asks.minOrder

/-- Place `quantity` amount of orders of given `price`. -/
def placeOrder
    (expiredAt : Nat)
    (pool : Pool w Account)
    (isBid : Bool)
    (owner : Account)
    (price quantity : BitVec w) :
    Outcome ((BitVec w × OrderId) × Pool w Account) :=
  if isBid then do
    let (orderId, pool) ← pool.drawNextBidOrderId
    let (placed, bids) :=
      CritbitTree.placeOrder orderId owner price quantity expiredAt pool.bids
    mapErr (fun _ => .errorOnPlaceOrder) placed
    .ok ((price, orderId), { pool with bids := bids })
  else do
    let (orderId, pool) ← pool.drawNextAskOrderId
    let (placed, asks) :=
      CritbitTree.placeOrder orderId owner price quantity expiredAt pool.asks
    mapErr (fun _ => .errorOnPlaceOrder) placed
    .ok ((price, orderId), { pool with asks := asks })

/-- Fill `quantity` amount of orders of given `price`; bids fill asks. -/
def fillOrder
    (pool : Pool w Account)
    (isBid : Bool)
    (price quantity : BitVec w) :
    Outcome (Option (Fills w Account) × Pool w Account) :=
  if isBid then do
    let (filled, asks) := CritbitTree.fillOrder price quantity pool.asks
    let filled ← mapErr (fun _ => .errorOnFillOrder) filled
    .ok (filled, { pool with asks := asks })
  else do
    let (filled, bids) := CritbitTree.fillOrder price quantity pool.bids
    let filled ← mapErr (fun _ => .errorOnFillOrder) filled
    .ok (filled, { pool with bids := bids })

/-- Cancel an order of `maybeOwner`, on the side that its id names. -/
def cancelOrder
    [DecidableEq Account]
    (pool : Pool w Account)
    (maybeOwner : Account)
    (price : BitVec w)
    (orderId : OrderId)
    (quantity : BitVec w) :
    Outcome (OrderId × Pool w Account) :=
  if orderId.isBid then do
    let (canceled, bids) :=
      CritbitTree.cancelOrder maybeOwner price orderId quantity pool.bids
    mapErr (fun _ => .errorOnCancelOrder) canceled
    .ok (orderId, { pool with bids := bids })
  else do
    let (canceled, asks) :=
      CritbitTree.cancelOrder maybeOwner price orderId quantity pool.asks
    mapErr (fun _ => .errorOnCancelOrder) canceled
    .ok (orderId, { pool with asks := asks })

end Pool

namespace CritbitTree

variable {w : Nat} {Account : Type}

/-- An answer names the best of all leaves, or there is no leaf. -/
def NamesBest
    (book : OrderBook w Account)
    (atLeastAsGood : BitVec w → BitVec w → Prop)
    (answer : Option (BitVec w × BitVec w)) : Prop :=
  (answer = none ↔ book.leaves = ∅) ∧
    ∀ key index, answer = some (key, index) →
      (∃ leaf, book.leaves[index]? = some leaf ∧ leaf.key = key) ∧
        ∀ (otherIndex : BitVec w) (other : LeafNode w (Tick w Account)),
          book.leaves[otherIndex]? = some other →
            atLeastAsGood key other.key

variable {book : OrderBook w Account} {map : PriceMap w Account}

theorem Refines.leaves_eq_empty_iff
    (refines : book.Refines map) : book.leaves = ∅ ↔ map = ∅ := by
  rw [← refines.isEmpty_iff, isEmpty, Std.ExtTreeMap.isEmpty_iff]

/-- A binding that is best of a map is the best leaf of its book. -/
theorem Refines.namesBest
    (refines : book.Refines map)
    {atLeastAsGood : BitVec w → BitVec w → Prop}
    {key index parent : BitVec w}
    {tick : Tick w Account}
    (stored : book.leaves[index]? = some ⟨parent, key, tick⟩)
    (best : ∀ other ∈ map, atLeastAsGood key other) :
    book.NamesBest atLeastAsGood (some (key, index)) := by
  refine ⟨?_, ?_⟩
  · simp only [reduceCtorEq, false_iff]
    intro empty
    simp [empty] at stored
  · intro otherKey otherIndex same
    simp only [Option.some.injEq, Prod.mk.injEq] at same
    obtain ⟨rfl, rfl⟩ := same
    refine ⟨⟨_, stored, rfl⟩, fun leafIndex leaf leafStored => ?_⟩
    exact best leaf.key
      (TreeMap.mem_of_getElem? (refines.bound_of_leaf leafStored))

theorem Refines.minLeaf_namesBest
    (refines : book.Refines map) :
    ∃ answer,
      book.minLeaf = .ok answer ∧ book.NamesBest (· ≤ ·) answer := by
  rcases refines.minLeaf_eq with
    ⟨empty, answered⟩ | ⟨key, index, parent, tick, answered, stored, _, least⟩
  · refine ⟨none, answered, ?_, by simp⟩
    simp [refines.leaves_eq_empty_iff, empty]
  · exact ⟨_, answered, refines.namesBest stored least⟩

theorem Refines.maxLeaf_namesBest
    (refines : book.Refines map) :
    ∃ answer,
      book.maxLeaf = .ok answer ∧ book.NamesBest (· ≥ ·) answer := by
  rcases refines.maxLeaf_eq with
    ⟨empty, answered⟩ |
      ⟨key, index, parent, tick, answered, stored, _, greatest⟩
  · refine ⟨none, answered, ?_, by simp⟩
    simp [refines.leaves_eq_empty_iff, empty]
  · exact ⟨_, answered, refines.namesBest stored greatest⟩

/--
In every book that successful operations reach from the empty book, both
cached extremes are right, and a pool that uses the book as one of its sides
names the best level of that side.
-/
theorem namesBest_of_run
    [DecidableEq Account]
    (width : 0 < w)
    (ops : List (BookOp w Account))
    (ran : Run.run BookOp.step ops new = some book) :
    (∃ answer,
      book.minLeaf = .ok answer ∧ book.NamesBest (· ≤ ·) answer ∧
        ∀ pool : Pool w Account,
          pool.asks = book → pool.nextAskOrder = answer) ∧
      ∃ answer,
        book.maxLeaf = .ok answer ∧ book.NamesBest (· ≥ ·) answer ∧
          ∀ pool : Pool w Account,
            pool.bids = book → pool.nextBidOrder = answer := by
  have refines := refines_of_run width ran
  constructor
  · obtain ⟨answer, answered, best⟩ := refines.minLeaf_namesBest
    refine ⟨answer, answered, best, ?_⟩
    rintro pool rfl
    simp [Pool.nextAskOrder, minOrder, answered]
  · obtain ⟨answer, answered, best⟩ := refines.maxLeaf_namesBest
    refine ⟨answer, answered, best, ?_⟩
    rintro pool rfl
    simp [Pool.nextBidOrder, maxOrder, answered]

/-- The minimum and the maximum of three levels are removed by fills. -/
theorem namesBest_of_short_run :
    ∃ book : OrderBook 64 Nat,
      Run.run BookOp.step
          [.placeOrder 0 1 7 10 100, .placeOrder 1 1 0 10 100,
            .placeOrder 2 1 200 10 100, .placeOrder 3 1 9 10 100,
            .fillOrder 0 20, .fillOrder 200 20, .cancelOrder 1 9 3 10] new =
        some book ∧
      (∃ answer,
        book.minLeaf = .ok answer ∧ book.NamesBest (· ≤ ·) answer ∧
          ∀ pool : Pool 64 Nat,
            pool.asks = book → pool.nextAskOrder = answer) ∧
        ∃ answer,
          book.maxLeaf = .ok answer ∧ book.NamesBest (· ≥ ·) answer ∧
            ∀ pool : Pool 64 Nat,
              pool.bids = book → pool.nextBidOrder = answer := by
  have succeeds :
      (Run.run BookOp.step
        [.placeOrder 0 1 7 10 100, .placeOrder 1 1 0 10 100,
          .placeOrder 2 1 200 10 100, .placeOrder 3 1 9 10 100,
          .fillOrder 0 20, .fillOrder 200 20, .cancelOrder 1 9 3 10]
        (new : OrderBook 64 Nat)).isSome = true := by
    decide +kernel
  have ran := (Option.some_get succeeds).symm
  exact ⟨_, ran, namesBest_of_run (by decide) _ ran⟩

end CritbitTree

end HybridOrderbook
