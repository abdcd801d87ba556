import HybridOrderbook.Library.Approximation
import HybridOrderbook.Calls

namespace HybridOrderbook

open Library

/-!
# Builds with overflow checks

The runtime is built without overflow checks, and its arithmetic wraps.  What
a build with checks returns, the runtime returns too: the functions below
differ only in where they panic.  Of prices and of the search this is said in
the stronger form, that errors are the same as well.
-/

variable {w : Nat} {Account Asset : Type}

theorem normalize_agrees
    (checks : Bool)
    (value : BitVec w)
    (adjustment : Option (BitVec 8)) :
    Agrees (normalize true value adjustment)
      (normalize checks value adjustment) :=
  (Machine.pow_agrees ..).bind fun _ => Machine.mul_agrees ..

theorem denom_agrees
    (checks : Bool)
    (value : BitVec w)
    (adjustment : BitVec 8) :
    Agrees (denom true value adjustment)
      (denom checks value adjustment) :=
  (Machine.pow_agrees ..).bind fun _ => .refl _

namespace Config

section Prices

variable (config : Config w Account Asset) (pool : Pool w Account)
  (isBid : Bool)

theorem amountShare_agrees :
    Agrees config.checked.amountShare config.amountShare := by
  unfold amountShare checked
  split
  · exact .refl _
  · exact ⟨fun avoided => absurd rfl avoided⟩

theorem getAmountOut_agrees
    (amountIn reserveIn reserveOut : BitVec w) :
    Agrees
      (config.checked.getAmountOut amountIn reserveIn reserveOut)
      (config.getAmountOut amountIn reserveIn reserveOut) :=
  (Agrees.refl _).bind fun _ =>
    config.amountShare_agrees.bind fun _ => .refl _

theorem getAmountIn_agrees
    (amountOut reserveIn reserveOut : BitVec w) :
    Agrees
      (config.checked.getAmountIn amountOut reserveIn reserveOut)
      (config.getAmountIn amountOut reserveIn reserveOut) :=
  (Agrees.refl _).bind fun _ => (Agrees.refl _).bind fun _ =>
    (Agrees.refl _).bind fun _ => (Agrees.refl _).bind fun _ =>
      config.amountShare_agrees.bind fun _ => .refl _

theorem swapAmount_agrees
    (quantity baseReserve quoteReserve : BitVec w) :
    Agrees
      (config.checked.swapAmount isBid quantity baseReserve quoteReserve)
      (config.swapAmount isBid quantity baseReserve quoteReserve) :=
  .ite (config.getAmountIn_agrees ..)
    (config.getAmountOut_agrees ..)

theorem poolPrice_agrees (baseReserve quoteReserve : BitVec w) :
    Agrees (config.checked.poolPrice pool baseReserve quoteReserve)
      (config.poolPrice pool baseReserve quoteReserve) :=
  (normalize_agrees ..).bind fun _ =>
    (normalize_agrees ..).bind fun _ =>
      (normalize_agrees ..).bind fun _ => .refl _

theorem quoteValue_agrees (price quantity : BitVec w) :
    Agrees (config.checked.quoteValue pool price quantity)
      (config.quoteValue pool price quantity) :=
  (Machine.mul_agrees ..).bind fun _ =>
    (Machine.add_agrees ..).bind fun _ => denom_agrees ..

end Prices

section Search

variable (config : Config w Account Asset) (pool : Pool w Account)
  (isBid : Bool) (target baseReserve quoteReserve : BitVec w)

theorem priceAfter_agrees (mid : BitVec w) :
    Agrees
      (config.checked.priceAfter pool isBid baseReserve quoteReserve mid)
      (config.priceAfter pool isBid baseReserve quoteReserve mid) := by
  refine (config.swapAmount_agrees ..).bind fun _ => ?_
  refine (normalize_agrees ..).bind fun _ => ?_
  cases isBid with
  | true =>
      exact (Machine.sub_agrees ..).bind fun _ =>
        (normalize_agrees ..).bind fun _ =>
          (Machine.add_agrees ..).bind fun _ =>
            (normalize_agrees ..).bind fun _ => .refl _
  | false =>
      exact (Machine.add_agrees ..).bind fun _ =>
        (normalize_agrees ..).bind fun _ =>
          (Machine.sub_agrees ..).bind fun _ =>
            (normalize_agrees ..).bind fun _ => .refl _

theorem middle_agrees (state : SearchState w) :
    Agrees (config.checked.middle state) (config.middle state) :=
  (Machine.add_agrees ..).bind fun _ =>
    (Machine.add_agrees ..).bind fun _ => .refl _

theorem searchBody_agrees (state : SearchState w) :
    Agrees
      (config.checked.searchBody pool isBid target baseReserve quoteReserve
        state)
      (config.searchBody pool isBid target baseReserve quoteReserve
        state) := by
  refine .ite ?_ (.refl _)
  refine (config.middle_agrees state).bind fun mid => ?_
  refine (config.priceAfter_agrees ..).bind fun price => ?_
  refine .ite (.refl _) ?_
  refine (normalize_agrees ..).bind fun one => ?_
  refine .ite (.ite ?_ ?_) (.ite ?_ ?_)
  · exact (Machine.add_agrees ..).bind fun _ => .refl _
  · exact (Machine.sub_agrees ..).bind fun _ => .refl _
  · exact (Machine.sub_agrees ..).bind fun _ => .refl _
  · exact (Machine.add_agrees ..).bind fun _ => .refl _

theorem findMaxSwapQuantity_agrees
    [DecidableEq Asset]
    (ledger : Ledger w Account Asset)
    (base quote : Asset)
    (remainOrders : BitVec w) :
    Agrees
      (config.checked.findMaxSwapQuantity pool isBid target ledger base quote
        remainOrders)
      (config.findMaxSwapQuantity pool isBid target ledger base quote
        remainOrders) :=
  (Agrees.refl _).bind fun _ =>
    .loop (config.searchBody_agrees pool isBid target _ _) _ _

end Search

variable [DecidableEq Account] [DecidableEq Asset]

section Trades

variable (config : Config w Account Asset) (isBid : Bool) (orderer : Account)
  (base quote : Asset)

omit [DecidableEq Account] in
theorem balancePathBack_approximates
    (ledger : Ledger w Account Asset)
    (amount : BitVec w)
    (path : List Asset) :
    Approximates (config.checked.balancePathBack ledger amount path)
      (config.balancePathBack ledger amount path) := by
  fun_induction config.balancePathBack ledger amount path with
  | case1 amount =>
      exact .refl _
  | case2 amount asset2 =>
      exact .refl _
  | case3 amount asset2 asset1 rest inductionHypothesis =>
      refine (Approximates.refl _).bind fun ⟨_, _⟩ => ?_
      refine (config.getAmountIn_agrees ..).approximates.bind fun next => ?_
      exact (inductionHypothesis next).bind fun _ => .refl _

omit [DecidableEq Account] in
theorem balancePathFromAmountIn_approximates
    (ledger : Ledger w Account Asset)
    (amount : BitVec w)
    (path : List Asset) :
    Approximates (config.checked.balancePathFromAmountIn ledger amount path)
      (config.balancePathFromAmountIn ledger amount path) := by
  fun_induction config.balancePathFromAmountIn ledger amount path with
  | case1 amount =>
      exact .refl _
  | case2 amount asset1 =>
      exact .refl _
  | case3 amount asset1 asset2 rest inductionHypothesis =>
      refine (Approximates.refl _).bind fun ⟨_, _⟩ => ?_
      refine (config.getAmountOut_agrees ..).approximates.bind fun next => ?_
      exact (inductionHypothesis next).bind fun _ => .refl _

theorem doFillPool_approximates
    (quantity : BitVec w)
    (ledger : Ledger w Account Asset) :
    Approximates
      (config.checked.doFillPool isBid orderer quantity base quote ledger)
      (config.doFillPool isBid orderer quantity base quote ledger) := by
  refine .ite (.bind ?_ fun _ => .refl _) (.bind ?_ fun _ => .refl _)
  · refine (Approximates.refl _).bind fun _ => ?_
    refine (Approximates.refl _).bind fun _ => ?_
    refine (Approximates.refl _).bind fun _ => ?_
    refine Approximates.bind ?_ fun _ => .refl _
    exact (config.balancePathBack_approximates ..).bind fun _ => .refl _
  · refine (Approximates.refl _).bind fun _ => ?_
    refine (Approximates.refl _).bind fun _ => ?_
    refine (Approximates.refl _).bind fun _ => ?_
    exact (config.balancePathFromAmountIn_approximates ..).bind
      fun _ => .refl _

theorem fillFromPool_approximates
    (quantity : BitVec w)
    (state : MatchState w Account Asset) :
    Approximates
      (config.checked.fillFromPool isBid orderer base quote quantity state)
      (config.fillFromPool isBid orderer base quote quantity state) :=
  (config.doFillPool_approximates ..).bind fun _ => .refl _

theorem matchBody_approximates (state : MatchState w Account Asset) :
    Approximates (config.checked.matchBody isBid orderer base quote state)
      (config.matchBody isBid orderer base quote state) := by
  refine .ite ?_ (.refl _)
  cases state.pool.nextOrder isBid with
  | none =>
      exact .refl _
  | some best =>
      refine (config.findMaxSwapQuantity_agrees ..).approximates.bind
        fun _ => ?_
      refine .ite ?_ (.ite ?_ (.refl _))
      · exact (config.fillFromPool_approximates ..).bind fun _ => .refl _
      · exact (config.fillFromPool_approximates ..).bind fun _ => .refl _

theorem matchOrders_approximates
    (pool : Pool w Account)
    (orderQuantity : BitVec w)
    (ledger : Ledger w Account Asset) :
    Approximates
      (config.checked.matchOrders isBid orderer base quote pool orderQuantity
        ledger)
      (config.matchOrders isBid orderer base quote pool orderQuantity
        ledger) := by
  refine Approximates.bind ?_ fun _ =>
    .ite (config.fillFromPool_approximates ..) (.refl _)
  exact .loop (config.matchBody_approximates isBid orderer base quote) _ _

theorem settleFill_approximates
    (pool : Pool w Account)
    (ledger : Ledger w Account Asset)
    (fill : Account × BitVec w × BitVec w) :
    Approximates
      (config.checked.settleFill isBid orderer base quote pool ledger fill)
      (config.settleFill isBid orderer base quote pool ledger fill) := by
  cases isBid with
  | true =>
      exact .refl _
  | false =>
      exact (config.quoteValue_agrees ..).approximates.bind fun _ => .refl _

theorem doMatchOrder_approximates
    (pool : Pool w Account)
    (orderQuantity : BitVec w)
    (ledger : Ledger w Account Asset) :
    Approximates
      (config.checked.doMatchOrder isBid orderer base quote pool
        orderQuantity ledger)
      (config.doMatchOrder isBid orderer base quote pool orderQuantity
        ledger) := by
  refine (config.matchOrders_approximates ..).bind fun state => ?_
  refine Approximates.bind ?_ fun _ => .refl _
  exact .foldlM (config.settleFill_approximates isBid orderer base quote
    state.pool) _ _

theorem doPlaceOrder_approximates
    (blockNumber : Nat)
    (price quantity : BitVec w)
    (pool : Pool w Account)
    (ledger : Ledger w Account Asset) :
    Approximates
      (config.checked.doPlaceOrder blockNumber isBid orderer base quote price
        quantity pool ledger)
      (config.doPlaceOrder blockNumber isBid orderer base quote price
        quantity pool ledger) := by
  cases isBid with
  | true =>
      exact (config.quoteValue_agrees ..).approximates.bind fun _ => .refl _
  | false =>
      exact .refl _

end Trades

/-- What a build with checks does in a call, the runtime does. -/
theorem dispatch_approximates
    (config : Config w Account Asset)
    (extrinsic : Extrinsic w Account Asset)
    (storage : Storage w Account Asset) :
    Approximates (config.checked.dispatch extrinsic storage)
      (config.dispatch extrinsic storage) := by
  unfold dispatch
  split
  · exact .refl _
  · refine (Approximates.refl _).bind fun _ => ?_
    refine (Approximates.refl _).bind fun _ => ?_
    refine (Approximates.refl _).bind fun _ => ?_
    refine (Approximates.refl _).bind fun _ => ?_
    refine (Approximates.refl _).bind fun _ => ?_
    exact (config.doMatchOrder_approximates ..).bind fun _ => .refl _
  · refine (Approximates.refl _).bind fun _ => ?_
    refine (Approximates.refl _).bind fun pool => ?_
    refine (Approximates.refl _).bind fun ⟨_, _⟩ => ?_
    refine ((config.poolPrice_agrees ..).approximates.mapErr _).bind fun _ => ?_
    refine (Approximates.refl _).bind fun _ => ?_
    refine (Approximates.refl _).bind fun _ => ?_
    refine (Approximates.refl _).bind fun _ => ?_
    refine (Approximates.refl _).bind fun _ => ?_
    refine .ite ?_ ?_
    · exact (config.doMatchOrder_approximates ..).bind fun _ => .refl _
    · exact (config.doPlaceOrder_approximates ..).bind fun _ => .refl _
  · exact .refl _

end Config

end HybridOrderbook
