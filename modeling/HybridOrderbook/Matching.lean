import HybridOrderbook.Search

namespace HybridOrderbook

open Library

/-!
# Matching an order

`do_match_order` takes turns between the pool and the opposite book until the
order is filled, and then settles all fills of the book.

`MatchState` holds the variables of its loop, and in `swaps` the quantities
that were asked of the pool with the ledgers that the swaps left behind.  The
code has no such variable; it is there so that one can speak about each swap
and the price after it.
-/

variable {w : Nat} {Account Asset : Type} [DecidableEq Account]
  [DecidableEq Asset]

/-- Fills of the book: owner, price and quantity. -/
abbrev FilledOrders (w : Nat) (Account : Type) :=
  List (Account × BitVec w × BitVec w)

/-- The variables of the matching loop. -/
structure MatchState (w : Nat) (Account Asset : Type) where
  remainOrders : BitVec w
  pool : Pool w Account
  ledger : Ledger w Account Asset
  filledOrders : FilledOrders w Account
  swaps : List (BitVec w × Ledger w Account Asset)

/-- The level that a taker of the given side meets next. -/
def Pool.nextOrder (pool : Pool w Account) (isBid : Bool) :
    Option (BitVec w × BitVec w) :=
  if isBid then pool.nextAskOrder else pool.nextBidOrder

/-- Sum of the quantities of fills. -/
def Fills.sum (fills : Fills w Account) : BitVec w :=
  fills.foldl (fun total fill => total + fill.2) 0

/--
Fill from the book at a price.  Fills add up to at most the quantity that is
left, so neither the sum nor the subtraction can overflow.
-/
def doFillBook
    (isBid : Bool)
    (price : BitVec w)
    (state : MatchState w Account Asset) :
    Outcome (MatchState w Account Asset) := do
  let (filled, pool) ← mapErr (fun _ => .errorOnFillOrder)
    (state.pool.fillOrder isBid price state.remainOrders)
  let fills := filled.getD []
  .ok { state with
    remainOrders := state.remainOrders - Fills.sum fills
    pool := pool
    filledOrders := state.filledOrders ++
      fills.map fun fill => (fill.1, price, fill.2) }

namespace Config

variable (config : Config w Account Asset)

section Match

variable (isBid : Bool) (orderer : Account) (base quote : Asset)

/-- Fill part of the order from the pool. -/
def fillFromPool
    (quantity : BitVec w)
    (state : MatchState w Account Asset) :
    Outcome (MatchState w Account Asset) := do
  let ledger ←
    config.doFillPool isBid orderer quantity base quote state.ledger
  .ok { state with
    remainOrders := state.remainOrders - quantity
    ledger := ledger
    swaps := state.swaps ++ [(quantity, ledger)] }

/-- One round of the matching loop. -/
def matchBody (state : MatchState w Account Asset) :
    Outcome (MatchState w Account Asset ⊕ MatchState w Account Asset) :=
  if state.remainOrders > 0 then
    match state.pool.nextOrder isBid with
    | some (targetPrice, _) => do
        let maxSwapQuantity ← config.findMaxSwapQuantity state.pool isBid
          targetPrice state.ledger base quote state.remainOrders
        if state.remainOrders ≤ maxSwapQuantity then do
          -- all orders filled from pool
          let state ← config.fillFromPool isBid orderer base quote
            state.remainOrders state
          .ok (.inl state)
        else do
          let state ←
            if maxSwapQuantity ≠ 0 then
              config.fillFromPool isBid orderer base quote maxSwapQuantity
                state
            else
              .ok state
          let state ← doFillBook isBid targetPrice state
          .ok (.inl state)
    -- end loop, if there are no orders on the book
    | none => .ok (.inr state)
  else
    .ok (.inr state)

/--
The matching loop.  Each round takes something off the order or a level off
the book, which bounds the number of rounds.
-/
def matchLoop (state : MatchState w Account Asset) :
    Outcome (MatchState w Account Asset) :=
  Loop.loop (config.matchBody isBid orderer base quote)
    (state.remainOrders.toNat + (state.pool.getOrderbook !isBid).size + 1) state

/-- Match an order and leave the fills of the book to be settled. -/
def matchOrders
    (pool : Pool w Account)
    (orderQuantity : BitVec w)
    (ledger : Ledger w Account Asset) :
    Outcome (MatchState w Account Asset) := do
  let state ← config.matchLoop isBid orderer base quote
    ⟨orderQuantity, pool, ledger, [], []⟩
  -- fill remaining orders from the pool if any
  if state.remainOrders > 0 then
    config.fillFromPool isBid orderer base quote state.remainOrders state
  else
    .ok state

/--
Settle one fill of the book: release the frozen asset, then transfer assets
between the orderer and the owner of the limit order.
-/
def settleFill
    (pool : Pool w Account)
    (ledger : Ledger w Account Asset)
    (fill : Account × BitVec w × BitVec w) :
    Outcome (Ledger w Account Asset) := do
  let (owner, price, quantity) := fill
  let (asset1, asset2) := if isBid then (base, quote) else (quote, base)
  let released ←
    if isBid then .ok quantity else config.quoteValue pool price quantity
  let ledger ← config.decreaseFrozen asset1 owner released ledger
  let (transfer1, transfer2) :=
    if isBid then (quantity, released) else (released, quantity)
  let ledger ←
    config.transfer asset1 owner orderer transfer1 .preserve ledger
  config.transfer asset2 orderer owner transfer2 .preserve ledger

/-- Settle the fills of the book. -/
def handleFilledOrders
    (pool : Pool w Account)
    (filledOrders : FilledOrders w Account)
    (ledger : Ledger w Account Asset) :
    Outcome (Ledger w Account Asset) :=
  filledOrders.foldlM (config.settleFill isBid orderer base quote pool) ledger

/-- Match `orderQuantity` of orders from the pool and the book. -/
def doMatchOrder
    (pool : Pool w Account)
    (orderQuantity : BitVec w)
    (ledger : Ledger w Account Asset) :
    Outcome (Pool w Account × Ledger w Account Asset) := do
  let state ←
    config.matchOrders isBid orderer base quote pool orderQuantity ledger
  let ledger ← config.handleFilledOrders isBid orderer base quote state.pool
    state.filledOrders state.ledger
  .ok (state.pool, ledger)

variable {config isBid orderer base quote}

/-- A match that succeeds has filled the order and settled the fills. -/
theorem doMatchOrder_eq_ok_iff
    {pool nextPool : Pool w Account}
    {orderQuantity : BitVec w}
    {ledger after : Ledger w Account Asset} :
    config.doMatchOrder isBid orderer base quote pool orderQuantity ledger =
        .ok (nextPool, after) ↔
      ∃ state,
        config.matchOrders isBid orderer base quote pool orderQuantity
            ledger = .ok state ∧
          config.handleFilledOrders isBid orderer base quote state.pool
              state.filledOrders state.ledger = .ok after ∧
            state.pool = nextPool := by
  simp only [doMatchOrder, bind_eq_ok_iff, Except.ok.injEq, Prod.mk.injEq]
  constructor
  · rintro ⟨state, matched, _, settled, samePool, rfl⟩
    exact ⟨state, matched, settled, samePool⟩
  · rintro ⟨state, matched, settled, samePool⟩
    exact ⟨state, matched, after, settled, samePool, rfl⟩

end Match

end Config

end HybridOrderbook
