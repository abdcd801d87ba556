import HybridOrderbook.Matching

namespace HybridOrderbook

open Library

/-!
# The calls of the pallet

The storage of the pallet is its pools, next to the books of the registries.
A dispatched call runs in a storage layer of its own: a call that fails
leaves the storage as it was.
-/

variable {w : Nat} {Account Asset : Type} [DecidableEq Account]
  [DecidableEq Asset]

/-- The state that calls read and write. -/
structure Storage (w : Nat) (Account Asset : Type) where
  pools : Asset × Asset → Option (Pool w Account)
  ledger : Ledger w Account Asset

/-- The calls that trade or provide liquidity. -/
inductive Call (w : Nat) (Account Asset : Type) where
  | addLiquidity
      (base quote : Asset)
      (baseDesired quoteDesired baseMin quoteMin : BitVec w)
      (mintTo : Account)
  | marketOrder
      (base quote : Asset)
      (quantity : BitVec w)
      (isBid : Bool)
  | limitOrder
      (base quote : Asset)
      (isBid : Bool)
      (price quantity : BitVec w)
  | cancelOrder
      (base quote : Asset)
      (price : BitVec w)
      (orderId : OrderId)
      (quantity : BitVec w)
  deriving Repr, DecidableEq

/-- A signed call, and the block that it is dispatched in. -/
structure Extrinsic (w : Nat) (Account Asset : Type) where
  signer : Account
  blockNumber : Nat
  call : Call w Account Asset
  deriving Repr, DecidableEq

/-- Addition that stops at the largest value. -/
def saturatingAdd (a b : BitVec w) : BitVec w :=
  if a.toNat + b.toNat < 2 ^ w then a + b else BitVec.allOnes w

namespace Storage

/--
A test storage: one pool, of assets 0 and 1, with the given reserves, and
users who own a million units of everything.
-/
def mock
    (pool : Pool 64 Config.MockAccount)
    (baseReserve quoteReserve : BitVec 64) :
    Storage 64 Config.MockAccount Nat where
  pools id := if id = (0, 1) then some pool else none
  ledger :=
    { balance := fun asset who =>
        match who with
        | .inl _ => 1000000
        | .inr id =>
            if id = (0, 1) ∧ asset = 0 then baseReserve
            else if id = (0, 1) ∧ asset = 1 then quoteReserve
            else 0
      frozen := fun _ _ => 0
      lpIssuance := fun _ => 0
      lpBalance := fun _ _ => 0 }

/-- Write a pool and the ledger back. -/
def update
    (storage : Storage w Account Asset)
    (id : Asset × Asset)
    (pool : Pool w Account)
    (ledger : Ledger w Account Asset) : Storage w Account Asset where
  pools := Function.update storage.pools id (some pool)
  ledger := ledger

section Update

variable {storage : Storage w Account Asset} {id : Asset × Asset}
  {pool : Pool w Account} {ledger : Ledger w Account Asset}

omit [DecidableEq Account] in
@[simp] theorem ledger_update :
    (storage.update id pool ledger).ledger = ledger :=
  rfl

omit [DecidableEq Account] in
@[simp] theorem pools_update_self :
    (storage.update id pool ledger).pools id = some pool :=
  Function.update_self ..

omit [DecidableEq Account] in
theorem pools_update_of_ne
    {other : Asset × Asset}
    (different : other ≠ id) :
    (storage.update id pool ledger).pools other = storage.pools other :=
  Function.update_of_ne different ..

/-- Every pool has a property. -/
def EachPool
    (property : Pool w Account → Prop)
    (storage : Storage w Account Asset) : Prop :=
  ∀ id pool, storage.pools id = some pool → property pool

omit [DecidableEq Account] [DecidableEq Asset] in
theorem EachPool.of_pools_eq
    {property : Pool w Account → Prop}
    {next : Storage w Account Asset}
    (holds : storage.EachPool property)
    (same : next.pools = storage.pools) : next.EachPool property := by
  intro other otherPool found
  rw [same] at found
  exact holds other otherPool found

omit [DecidableEq Account] in
theorem EachPool.update
    {property : Pool w Account → Prop}
    (holds : storage.EachPool property)
    (changed : property pool)
    (ledger : Ledger w Account Asset) :
    (storage.update id pool ledger).EachPool property := by
  intro other otherPool found
  by_cases same : other = id
  · subst same
    rw [pools_update_self, Option.some.injEq] at found
    exact found ▸ changed
  · rw [pools_update_of_ne same] at found
    exact holds other otherPool found

end Update

end Storage

namespace Config

variable (config : Config w Account Asset)

/-- Liquidity tokens for the first deposit. -/
def calcLpAmountForZeroSupply (amount1 amount2 : BitVec w) :
    Outcome (BitVec w) := do
  let product ← higher w (amount1.toNat * amount2.toNat)
  ensure (config.mintMinLiquidity.toNat ≤ product.sqrt)
    .insufficientLiquidityMinted
  tryIntoUnit w (product.sqrt - config.mintMinLiquidity.toNat)

/-- The amounts that a deposit takes, given the reserves. -/
def depositAmounts
    (baseReserve quoteReserve baseDesired quoteDesired baseMin quoteMin :
      BitVec w) : Outcome (BitVec w × BitVec w) :=
  if baseReserve = 0 ∨ quoteReserve = 0 then
    .ok (baseDesired, quoteDesired)
  else do
    let quoteOptimal ← quote baseDesired baseReserve quoteReserve
    if quoteOptimal ≤ quoteDesired then do
      ensure (quoteOptimal ≥ quoteMin) .assetTwoDepositDidNotMeetMinimum
      .ok (baseDesired, quoteOptimal)
    else do
      let baseOptimal ← quote quoteDesired quoteReserve baseReserve
      ensure (baseOptimal ≤ baseDesired) .optimalAmountLessThanDesired
      ensure (baseOptimal ≥ baseMin) .assetOneDepositDidNotMeetMinimum
      .ok (baseOptimal, quoteDesired)

/-- Provide liquidity into the pool. -/
def addLiquidity
    (sender : Account)
    (base quote : Asset)
    (baseDesired quoteDesired baseMin quoteMin : BitVec w)
    (mintTo : Account)
    (storage : Storage w Account Asset) :
    Outcome (Storage w Account Asset) := do
  let id ← poolId base quote
  ensure (baseDesired > 0 ∧ quoteDesired > 0) .wrongDesiredAmount
  let pool ← okOr (storage.pools id) .poolNotFound
  let poolAccount := config.address id
  let ledger := storage.ledger
  let baseReserve := config.getBalance ledger poolAccount base
  let quoteReserve := config.getBalance ledger poolAccount quote
  let (baseAmount, quoteAmount) ← depositAmounts baseReserve quoteReserve
    baseDesired quoteDesired baseMin quoteMin
  ensure (saturatingAdd baseAmount baseReserve ≥ config.minimumBalance base)
    .amountOneLessThanMinimal
  ensure (saturatingAdd quoteAmount quoteReserve ≥
    config.minimumBalance quote) .amountTwoLessThanMinimal
  let ledger ←
    config.transfer base sender poolAccount baseAmount .preserve ledger
  let ledger ←
    config.transfer quote sender poolAccount quoteAmount .preserve ledger
  let totalSupply := ledger.lpIssuance pool.lpToken
  let (lpTokenAmount, ledger) ←
    if totalSupply = 0 then do
      let amount ← config.calcLpAmountForZeroSupply baseAmount quoteAmount
      let ledger ← config.mintInto pool.lpToken poolAccount
        config.mintMinLiquidity ledger
      .ok (amount, ledger)
    else do
      let side1 ← mulDiv baseAmount totalSupply baseReserve
      let side2 ← mulDiv quoteAmount totalSupply quoteReserve
      .ok (if side1 ≤ side2 then side1 else side2, ledger)
  ensure (lpTokenAmount > config.mintMinLiquidity)
    .insufficientLiquidityMinted
  let ledger ← config.mintInto pool.lpToken mintTo lpTokenAmount ledger
  .ok { storage with ledger := ledger }

/-- Freeze the collateral of an order and put the order on the book. -/
def doPlaceOrder
    (blockNumber : Nat)
    (isBid : Bool)
    (maker : Account)
    (base quote : Asset)
    (price quantity : BitVec w)
    (pool : Pool w Account)
    (ledger : Ledger w Account Asset) :
    Outcome (Pool w Account × Ledger w Account Asset) := do
  let ledger ←
    if isBid then do
      let freezeAmount ← config.quoteValue pool price quantity
      config.increaseFrozen quote maker freezeAmount ledger
    else
      config.increaseFrozen base maker quantity ledger
  let (_, pool) ← mapErr (fun _ => .errorOnPlaceOrder)
    (pool.placeOrder (blockNumber + config.orderExpiration) isBid maker price
      quantity)
  .ok (pool, ledger)

/-- Fill a market order. -/
def doMarketOrder
    (isBid : Bool)
    (taker : Account)
    (base quote : Asset)
    (quantity : BitVec w)
    (storage : Storage w Account Asset) :
    Outcome (Storage w Account Asset) := do
  ensure (quantity > 0) .wrongDesiredAmount
  let id ← poolId base quote
  let pool ← okOr (storage.pools id) .poolNotFound
  let valid ← pool.isValidOrderQuantity quantity
  ensure (valid = true) .invalidOrderQuantity
  let (pool, ledger) ← config.doMatchOrder isBid taker base quote pool
    quantity storage.ledger
  .ok (storage.update id pool ledger)

/-- Whether a limit order is matched rather than placed. -/
def shouldMatchOrder (isBid : Bool) (orderPrice poolPrice : BitVec w) :
    Bool :=
  if isBid then orderPrice ≥ poolPrice else orderPrice ≤ poolPrice

/-- Match a limit order that crosses the price of the pool, or place it. -/
def doLimitOrder
    (blockNumber : Nat)
    (maker : Account)
    (orderPrice orderQuantity : BitVec w)
    (isBid : Bool)
    (base quote : Asset)
    (storage : Storage w Account Asset) :
    Outcome (Storage w Account Asset) := do
  let id ← poolId base quote
  let pool ← okOr (storage.pools id) .poolNotFound
  let (baseReserve, quoteReserve) ←
    config.getReserves storage.ledger base quote
  let poolPrice ← mapErr (fun _ => .zeroLiquidity)
    (config.poolPrice pool baseReserve quoteReserve)
  let validPrice ← pool.isValidOrderPrice orderPrice
  ensure (validPrice = true) .invalidOrderPrice
  let validQuantity ← pool.isValidOrderQuantity orderQuantity
  ensure (validQuantity = true) .invalidOrderQuantity
  let (pool, ledger) ←
    if shouldMatchOrder isBid orderPrice poolPrice then
      config.doMatchOrder isBid maker base quote pool orderQuantity
        storage.ledger
    else
      config.doPlaceOrder blockNumber isBid maker base quote orderPrice
        orderQuantity pool storage.ledger
  .ok (storage.update id pool ledger)

/-- Cancel an order; the registries are not called. -/
def doCancelOrder
    (owner : Account)
    (base quote : Asset)
    (price : BitVec w)
    (orderId : OrderId)
    (quantity : BitVec w)
    (storage : Storage w Account Asset) :
    Outcome (Storage w Account Asset) := do
  let id ← poolId base quote
  let pool ← okOr (storage.pools id) .poolNotFound
  let (_, pool) ← mapErr (fun _ => .errorOnCancelOrder)
    (pool.cancelOrder owner price orderId quantity)
  .ok (storage.update id pool storage.ledger)

/-- Dispatch a call. -/
def dispatch
    (extrinsic : Extrinsic w Account Asset)
    (storage : Storage w Account Asset) :
    Outcome (Storage w Account Asset) :=
  match extrinsic.call with
  | .addLiquidity base quote baseDesired quoteDesired baseMin quoteMin
      mintTo =>
      config.addLiquidity extrinsic.signer base quote baseDesired
        quoteDesired baseMin quoteMin mintTo storage
  | .marketOrder base quote quantity isBid =>
      config.doMarketOrder isBid extrinsic.signer base quote quantity storage
  | .limitOrder base quote isBid price quantity =>
      config.doLimitOrder extrinsic.blockNumber extrinsic.signer price
        quantity isBid base quote storage
  | .cancelOrder base quote price orderId quantity =>
      doCancelOrder extrinsic.signer base quote price orderId quantity
        storage

/-- Dispatch a call, keeping the storage only if it succeeds. -/
def step
    (extrinsic : Extrinsic w Account Asset)
    (storage : Storage w Account Asset) :
    Option (Storage w Account Asset) :=
  (config.dispatch extrinsic storage).toOption

end Config

end HybridOrderbook
