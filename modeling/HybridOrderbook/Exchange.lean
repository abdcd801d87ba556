import HybridOrderbook.Creation

namespace HybridOrderbook

open Library

/-!
# The exchange that the pallet is

The books of a pool are a parameter of the pallet, and the runtime sets it to
critbit trees.  The exchange is the pallet with plain price maps in their
place: there are no indices to run out of, and the best level is the least or
the greatest key.  Calls that do not look at books are those of the pallet,
on pools whose books are left empty.
-/

variable {w : Nat} {Account Asset : Type} [DecidableEq Account]
  [DecidableEq Asset]

/-- A pool whose books are price maps. -/
structure Market (w : Nat) (Account : Type) where
  lpToken : Nat
  books : Bool → PriceMap w Account
  nextOrderId : Bool → OrderId
  tickSize : BitVec w
  lotSize : BitVec w
  poolDecimals : BitVec 8
  baseDecimals : BitVec 8
  quoteDecimals : BitVec 8

namespace Market

/-- A market without orders, on the terms of a pool. -/
def opened (pool : Pool w Account) : Market w Account where
  lpToken := pool.lpToken
  books _ := ∅
  nextOrderId := OrderId.new
  tickSize := pool.tickSize
  lotSize := pool.lotSize
  poolDecimals := pool.poolDecimals
  baseDecimals := pool.baseDecimals
  quoteDecimals := pool.quoteDecimals

/-- The terms of a market as a pool without orders. -/
def shell (market : Market w Account) : Pool w Account :=
  Pool.new market.lpToken market.tickSize market.lotSize market.poolDecimals
    market.baseDecimals market.quoteDecimals

/-- The price that a taker of the given side meets next. -/
def nextPrice (market : Market w Account) (isBid : Bool) :
    Option (BitVec w) :=
  if isBid then (market.books false).minKey? else (market.books true).maxKey?

/-- Replace the book of a side. -/
def setBook
    (market : Market w Account)
    (isBid : Bool)
    (book : PriceMap w Account) : Market w Account :=
  { market with books := Function.update market.books isBid book }

/-- Fill orders of the opposite side at a price. -/
def fillOrder
    (market : Market w Account)
    (isBid : Bool)
    (price quantity : BitVec w) : Fills w Account × Market w Account :=
  let (filled, book) := (market.books !isBid).fillOrder price quantity
  (filled.getD [], market.setBook (!isBid) book)

/-- Put an order on the book, under the next id of its side. -/
def placeOrder
    (expiredAt : Nat)
    (market : Market w Account)
    (isBid : Bool)
    (owner : Account)
    (price quantity : BitVec w) : Outcome (Market w Account) := do
  let orderId := market.nextOrderId isBid
  let following ← okOr orderId.checkedIncrease .errorOnPlaceOrder
  let book := (market.books isBid).placeOrder orderId owner price quantity
    expiredAt
  .ok { market.setBook isBid book with
    nextOrderId := Function.update market.nextOrderId isBid following }

/-- Cancel an order, on the side that its id names. -/
def cancelOrder
    (market : Market w Account)
    (maybeOwner : Account)
    (price : BitVec w)
    (orderId : OrderId)
    (quantity : BitVec w) : Outcome (Market w Account) := do
  let (canceled, book) := (market.books orderId.isBid).cancelOrder maybeOwner
    price orderId quantity
  mapErr (fun _ => .errorOnCancelOrder) canceled
  .ok (market.setBook orderId.isBid book)

end Market

/-- The variables of matching at a market. -/
structure Matching (w : Nat) (Account Asset : Type) where
  remainOrders : BitVec w
  market : Market w Account
  ledger : Ledger w Account Asset
  filledOrders : FilledOrders w Account

/-- Fill from the book at a price. -/
def Matching.fillBook
    (isBid : Bool)
    (price : BitVec w)
    (state : Matching w Account Asset) : Matching w Account Asset :=
  let (fills, market) :=
    state.market.fillOrder isBid price state.remainOrders
  { state with
    remainOrders := state.remainOrders - Fills.sum fills
    market := market
    filledOrders := state.filledOrders ++
      fills.map fun fill => (fill.1, price, fill.2) }

/-- The state of the exchange. -/
structure Exchange (w : Nat) (Account Asset : Type) where
  markets : Asset × Asset → Option (Market w Account)
  ledger : Ledger w Account Asset
  nextPoolAssetId : Option Nat
  lpAssets : Nat → Bool

namespace Exchange

variable (config : Config w Account Asset) (setup : Setup w Account Asset)

section Match

variable (isBid : Bool) (orderer : Account) (base quote : Asset)

/-- Fill part of the order from the pool. -/
def fillFromPool
    (quantity : BitVec w)
    (state : Matching w Account Asset) :
    Outcome (Matching w Account Asset) := do
  let ledger ←
    config.doFillPool isBid orderer quantity base quote state.ledger
  .ok { state with
    remainOrders := state.remainOrders - quantity
    ledger := ledger }

/-- One round of matching. -/
def matchBody (state : Matching w Account Asset) :
    Outcome (Matching w Account Asset ⊕ Matching w Account Asset) :=
  if state.remainOrders > 0 then
    match state.market.nextPrice isBid with
    | some price => do
        let maxSwapQuantity ← config.findMaxSwapQuantity state.market.shell
          isBid price state.ledger base quote state.remainOrders
        if state.remainOrders ≤ maxSwapQuantity then do
          let state ← fillFromPool config isBid orderer base quote
            state.remainOrders state
          .ok (.inl state)
        else do
          let state ←
            if maxSwapQuantity ≠ 0 then
              fillFromPool config isBid orderer base quote maxSwapQuantity
                state
            else
              .ok state
          .ok (.inl (state.fillBook isBid price))
    | none => .ok (.inr state)
  else
    .ok (.inr state)

/-- Match an order and settle the fills of the book. -/
def doMatchOrder
    (market : Market w Account)
    (orderQuantity : BitVec w)
    (ledger : Ledger w Account Asset) :
    Outcome (Market w Account × Ledger w Account Asset) := do
  let state ← Loop.loop (matchBody config isBid orderer base quote)
    (orderQuantity.toNat + (market.books !isBid).size + 1)
    ⟨orderQuantity, market, ledger, []⟩
  let state ←
    if state.remainOrders > 0 then
      fillFromPool config isBid orderer base quote state.remainOrders state
    else
      .ok state
  let ledger ← config.handleFilledOrders isBid orderer base quote
    state.market.shell state.filledOrders state.ledger
  .ok (state.market, ledger)

end Match

/-- Write a market and the ledger back. -/
def update
    (exchange : Exchange w Account Asset)
    (id : Asset × Asset)
    (market : Market w Account)
    (ledger : Ledger w Account Asset) : Exchange w Account Asset :=
  { exchange with
    markets := Function.update exchange.markets id (some market)
    ledger := ledger }

/-- Freeze the collateral of an order and put the order on the book. -/
def doPlaceOrder
    (blockNumber : Nat)
    (isBid : Bool)
    (maker : Account)
    (base quote : Asset)
    (price quantity : BitVec w)
    (market : Market w Account)
    (ledger : Ledger w Account Asset) :
    Outcome (Market w Account × Ledger w Account Asset) := do
  let ledger ←
    if isBid then do
      let freezeAmount ← config.quoteValue market.shell price quantity
      config.increaseFrozen quote maker freezeAmount ledger
    else
      config.increaseFrozen base maker quantity ledger
  let market ← market.placeOrder (blockNumber + config.orderExpiration)
    isBid maker price quantity
  .ok (market, ledger)

/-- Fill a market order. -/
def doMarketOrder
    (isBid : Bool)
    (taker : Account)
    (base quote : Asset)
    (quantity : BitVec w)
    (exchange : Exchange w Account Asset) :
    Outcome (Exchange w Account Asset) := do
  ensure (quantity > 0) .wrongDesiredAmount
  let id ← poolId base quote
  let market ← okOr (exchange.markets id) .poolNotFound
  let valid ← market.shell.isValidOrderQuantity quantity
  ensure (valid = true) .invalidOrderQuantity
  let (market, ledger) ← doMatchOrder config isBid taker base quote market
    quantity exchange.ledger
  .ok (exchange.update id market ledger)

/-- Match a limit order that crosses the price of the pool, or place it. -/
def doLimitOrder
    (blockNumber : Nat)
    (maker : Account)
    (orderPrice orderQuantity : BitVec w)
    (isBid : Bool)
    (base quote : Asset)
    (exchange : Exchange w Account Asset) :
    Outcome (Exchange w Account Asset) := do
  let id ← poolId base quote
  let market ← okOr (exchange.markets id) .poolNotFound
  let (baseReserve, quoteReserve) ←
    config.getReserves exchange.ledger base quote
  let poolPrice ← mapErr (fun _ => .zeroLiquidity)
    (config.poolPrice market.shell baseReserve quoteReserve)
  let validPrice ← market.shell.isValidOrderPrice orderPrice
  ensure (validPrice = true) .invalidOrderPrice
  let validQuantity ← market.shell.isValidOrderQuantity orderQuantity
  ensure (validQuantity = true) .invalidOrderQuantity
  let (market, ledger) ←
    if Config.shouldMatchOrder isBid orderPrice poolPrice then
      doMatchOrder config isBid maker base quote market orderQuantity
        exchange.ledger
    else
      doPlaceOrder config blockNumber isBid maker base quote orderPrice
        orderQuantity market exchange.ledger
  .ok (exchange.update id market ledger)

/-- Cancel an order. -/
def doCancelOrder
    (owner : Account)
    (base quote : Asset)
    (price : BitVec w)
    (orderId : OrderId)
    (quantity : BitVec w)
    (exchange : Exchange w Account Asset) :
    Outcome (Exchange w Account Asset) := do
  let id ← poolId base quote
  let market ← okOr (exchange.markets id) .poolNotFound
  let market ← market.cancelOrder owner price orderId quantity
  .ok (exchange.update id market exchange.ledger)

/-- The exchange before any call. -/
def genesis
    (ledger : Ledger w Account Asset)
    (lpAssets : Nat → Bool) : Exchange w Account Asset where
  markets _ := none
  ledger := ledger
  nextPoolAssetId := none
  lpAssets := lpAssets

/-- The pallet with the terms of all markets, and no orders. -/
def shell (exchange : Exchange w Account Asset) : Pallet w Account Asset where
  storage :=
    { pools := fun id => (exchange.markets id).map Market.shell
      ledger := exchange.ledger }
  nextPoolAssetId := exchange.nextPoolAssetId
  lpAssets := exchange.lpAssets

/-- Take over what a call made of the shell; new pools open new markets. -/
def adopt
    (exchange : Exchange w Account Asset)
    (next : Pallet w Account Asset) : Exchange w Account Asset where
  markets id :=
    (exchange.markets id).or ((next.storage.pools id).map Market.opened)
  ledger := next.storage.ledger
  nextPoolAssetId := next.nextPoolAssetId
  lpAssets := next.lpAssets

/-- A call that does not look at books. -/
def dispatchShell
    (call : Dispatchable w Account Asset)
    (exchange : Exchange w Account Asset) :
    Except (Fault DispatchError) (Exchange w Account Asset) := do
  let next ← exchange.shell.dispatch config setup call
  .ok (exchange.adopt next)

/-- Dispatch a call. -/
def dispatch
    (call : Dispatchable w Account Asset)
    (exchange : Exchange w Account Asset) :
    Except (Fault DispatchError) (Exchange w Account Asset) :=
  match call with
  | .onPool (.dispatch extrinsic) =>
      match extrinsic.call with
      | .marketOrder base quote quantity isBid =>
          mapErr .pallet (exchange.doMarketOrder config isBid
            extrinsic.signer base quote quantity)
      | .limitOrder base quote isBid price quantity =>
          mapErr .pallet (exchange.doLimitOrder config extrinsic.blockNumber
            extrinsic.signer price quantity isBid base quote)
      | .cancelOrder base quote price orderId quantity =>
          mapErr .pallet (exchange.doCancelOrder extrinsic.signer base quote
            price orderId quantity)
      | .addLiquidity .. => exchange.dispatchShell config setup call
  | .createPool .. | .touch .. | .onPool (.removeLiquidity ..) =>
      exchange.dispatchShell config setup call

end Exchange

end HybridOrderbook
