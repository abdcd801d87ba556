import HybridOrderbook.Calls

namespace HybridOrderbook

open Library

/-!
# Settling the fills of the book

What a settled fill moves between the two traders, and what it releases from
the collateral of the order, against what the price of the order says.
-/

variable {w : Nat} {Account Asset : Type} [DecidableEq Account]
  [DecidableEq Asset]

namespace Ledger

variable {ledger next : Ledger w Account Asset} {base quote : Asset}
  {buyer seller : Account} {quantity amount other : Nat}

/-- Trading with oneself changes nothing, whatever the amount. -/
theorem Trades.self
    (trades : ledger.Trades next base quote seller seller quantity amount)
    (other : Nat) :
    ledger.Trades next base quote seller seller quantity other := by
  intro asset who
  have moved := trades asset who
  simp only [Pi.add_apply] at moved ⊢
  omega

/-- Between different accounts the amount can be read off the balances. -/
theorem Trades.amount_eq
    (differentAssets : base ≠ quote)
    (differentAccounts : buyer ≠ seller)
    (trades : ledger.Trades next base quote buyer seller quantity amount)
    (otherTrades :
      ledger.Trades next base quote buyer seller quantity other) :
    amount = other := by
  have paid := trades quote buyer
  have otherPaid := otherTrades quote buyer
  simp only [Pi.add_apply, flow, differentAssets.symm, differentAccounts,
    and_false, false_and, and_self, ↓reduceIte] at paid otherPaid
  omega

end Ledger

namespace Config

variable {config : Config w Account Asset} {isBid : Bool}
  {orderer : Account} {base quote : Asset} {pool : Pool w Account}
  {ledger next : Ledger w Account Asset}

/-- What settling releases, and takes out of the quote asset. -/
def releaseAmount
    (config : Config w Account Asset)
    (isBid : Bool)
    (pool : Pool w Account)
    (price quantity : BitVec w) : Outcome (BitVec w) :=
  if isBid then .ok quantity else config.quoteValue pool price quantity

/-- Settling one fill is a trade, and thaws part of the collateral. -/
theorem settleFill_eq_ok
    {owner : Account}
    {price quantity : BitVec w}
    (settled :
      config.settleFill isBid orderer base quote pool ledger
        (owner, price, quantity) = .ok next) :
    ∃ released,
      config.releaseAmount isBid pool price quantity = .ok released ∧
        ledger.Trades next base quote
          (if isBid then orderer else owner)
          (if isBid then owner else orderer)
          quantity.toNat released.toNat ∧
        ∀ asset who,
          (next.frozen asset who).toNat +
              Ledger.flow (if isBid then base else quote) owner
                released.toNat asset who =
            (ledger.frozen asset who).toNat := by
  cases isBid with
  | true =>
      simp only [settleFill, ↓reduceIte, bind_eq_ok_iff,
        Except.ok.injEq] at settled
      obtain ⟨_, rfl, thawed, decreased, middle, first, second⟩ := settled
      obtain ⟨sameBalances, frozen⟩ := decreaseFrozen_eq_ok decreased
      obtain ⟨firstMoves, firstFrozen⟩ := transfer_moves first
      obtain ⟨secondMoves, secondFrozen⟩ := transfer_moves second
      refine ⟨quantity, rfl, ?_, ?_⟩
      · intro asset who
        have moved := (firstMoves.trans secondMoves) asset who
        rw [sameBalances] at moved
        exact moved
      · intro asset who
        rw [secondFrozen, firstFrozen]
        exact frozen asset who
  | false =>
      simp only [settleFill, Bool.false_eq_true, ↓reduceIte,
        bind_eq_ok_iff] at settled
      obtain ⟨released, valued, thawed, decreased, middle, first, second⟩ :=
        settled
      obtain ⟨sameBalances, frozen⟩ := decreaseFrozen_eq_ok decreased
      obtain ⟨firstMoves, firstFrozen⟩ := transfer_moves first
      obtain ⟨secondMoves, secondFrozen⟩ := transfer_moves second
      refine ⟨released, valued, ?_, ?_⟩
      · intro asset who
        have moved := (firstMoves.trans secondMoves) asset who
        rw [sameBalances] at moved
        simp only [Pi.add_apply, Bool.false_eq_true, ↓reduceIte]
          at moved ⊢
        omega
      · intro asset who
        rw [secondFrozen, firstFrozen]
        exact frozen asset who

/-- Every fill, in turn, is settled at its price. -/
def SettlesAtPrice
    (config : Config w Account Asset)
    (isBid : Bool)
    (orderer : Account)
    (base quote : Asset)
    (pool : Pool w Account) :
    FilledOrders w Account → Ledger w Account Asset → Prop
  | [], _ => True
  | (owner, price, quantity) :: rest, ledger =>
      ∃ next,
        config.settleFill isBid orderer base quote pool ledger
            (owner, price, quantity) = .ok next ∧
          ledger.Trades next base quote
            (if isBid then orderer else owner)
            (if isBid then owner else orderer)
            quantity.toNat
            (pool.exactValue price.toNat quantity.toNat) ∧
          SettlesAtPrice config isBid orderer base quote pool rest next

/--
The fills that are settled at their price: a taker's own orders; for a bid,
those whose quantity happens to be their worth; for an ask, those whose worth
survives the reduction of every intermediate result to its width.
-/
def PaysItsPrice
    (isBid : Bool)
    (orderer : Account)
    (pool : Pool w Account)
    (fill : Account × BitVec w × BitVec w) : Prop :=
  fill.1 = orderer ∨
    (if isBid then
        fill.2.2.toNat
      else
        pool.wrappedValue fill.2.1.toNat fill.2.2.toNat) =
      pool.exactValue fill.2.1.toNat fill.2.2.toNat

instance
    (isBid : Bool)
    (orderer : Account)
    (pool : Pool w Account)
    (fill : Account × BitVec w × BitVec w) :
    Decidable (PaysItsPrice isBid orderer pool fill) :=
  inferInstanceAs (Decidable (_ ∨ _))

/-- One settled fill trades at its price under exactly that condition. -/
theorem trades_at_price_iff
    (wide : 64 ≤ w)
    (differentAssets : base ≠ quote)
    {owner : Account}
    {price quantity : BitVec w}
    (settled :
      config.settleFill isBid orderer base quote pool ledger
        (owner, price, quantity) = .ok next) :
    ledger.Trades next base quote
        (if isBid then orderer else owner)
        (if isBid then owner else orderer)
        quantity.toNat (pool.exactValue price.toNat quantity.toNat) ↔
      PaysItsPrice isBid orderer pool (owner, price, quantity) := by
  obtain ⟨released, computed, trades, _⟩ := settleFill_eq_ok settled
  have amount :
      released.toNat =
        if isBid then
          quantity.toNat
        else
          pool.wrappedValue price.toNat quantity.toNat := by
    cases isBid with
    | true =>
        simp only [releaseAmount, ↓reduceIte, Except.ok.injEq] at computed
        rw [← computed]
        rfl
    | false =>
        exact toNat_of_quoteValue wide computed
  rw [amount] at trades
  by_cases own : owner = orderer
  · subst own
    refine ⟨fun _ => .inl rfl, fun _ => ?_⟩
    simp only [ite_self] at trades ⊢
    exact trades.self _
  · have different :
        (if isBid then orderer else owner) ≠
          (if isBid then owner else orderer) := by
      cases isBid with
      | true =>
          exact Ne.symm own
      | false =>
          exact own
    constructor
    · intro atPrice
      exact .inr (trades.amount_eq differentAssets different atPrice)
    · rintro (isOwn | atPrice)
      · exact absurd isOwn own
      · rw [atPrice] at trades
        exact trades

/-- Settling fills between other accounts leaves an account alone. -/
theorem balance_of_handleFilledOrders
    {who : Account}
    {fills : FilledOrders w Account}
    (otherOrderer : orderer ≠ who)
    (otherOwners : ∀ fill ∈ fills, fill.1 ≠ who)
    (settled :
      config.handleFilledOrders isBid orderer base quote pool fills ledger =
        .ok next)
    (asset : Asset) :
    next.balance asset who = ledger.balance asset who := by
  have preserved :
      ∀ fill ∈ fills, ∀ state later,
        state.balance asset who = ledger.balance asset who →
          config.settleFill isBid orderer base quote pool state fill =
              .ok later →
            later.balance asset who = ledger.balance asset who := by
    rintro ⟨owner, price, part⟩ member state later same settledFill
    obtain ⟨_, _, trades, _⟩ := settleFill_eq_ok settledFill
    have otherOwner : owner ≠ who := otherOwners _ member
    have moved := trades asset who
    rw [← same]
    refine BitVec.eq_of_toNat_eq ?_
    cases isBid <;>
      simpa [Ledger.flow, otherOrderer.symm, otherOwner.symm] using moved
  exact Run.foldlM_invariant preserved rfl settled

/--
When the fills of a call are settled, every one of them moves its quantity of
base asset and its worth of quote asset if and only if every one of them pays
its price.
-/
theorem settlesAtPrice_iff
    (wide : 64 ≤ w)
    (config : Config w Account Asset)
    (isBid : Bool)
    (orderer : Account)
    (pool : Pool w Account)
    (differentAssets : base ≠ quote)
    (filledOrders : FilledOrders w Account)
    (ledger final : Ledger w Account Asset)
    (settled :
      config.handleFilledOrders isBid orderer base quote pool filledOrders
        ledger = .ok final) :
    config.SettlesAtPrice isBid orderer base quote pool filledOrders
        ledger ↔
      ∀ fill ∈ filledOrders, PaysItsPrice isBid orderer pool fill := by
  induction filledOrders generalizing ledger with
  | nil =>
      simp [SettlesAtPrice]
  | cons fill rest inductionHypothesis =>
      rcases fill with ⟨owner, price, quantity⟩
      simp only [handleFilledOrders, List.foldlM_cons,
        bind_eq_ok_iff] at settled
      obtain ⟨next, settledFirst, settledRest⟩ := settled
      have here := trades_at_price_iff wide differentAssets settledFirst
      have later := inductionHypothesis next settledRest
      simp only [SettlesAtPrice, settledFirst, Except.ok.injEq,
        exists_eq_left', List.mem_cons, forall_eq_or_imp]
      rw [here, later]

/-- Two resting bids that an ask fills are settled at their prices. -/
theorem settlesAtPrice_of_two_bids :
    Config.mock.SettlesAtPrice false (.inl 3) 0 1 (Pool.new 0 1 1 1 0 0)
      [(.inl 1, 20, 5), (.inl 2, 15, 3)]
      { (Storage.mock (Pool.new 0 1 1 1 0 0) 0 0).ledger with
        frozen := fun _ _ => 100 } := by
  have succeeds :
      (Config.mock.handleFilledOrders false (.inl 3) 0 1
        (Pool.new 0 1 1 1 0 0) [(.inl 1, 20, 5), (.inl 2, 15, 3)]
        { (Storage.mock (Pool.new 0 1 1 1 0 0) 0 0).ledger with
          frozen := fun _ _ => 100 }).isOk = true := by
    decide
  obtain ⟨final, settled⟩ := exists_ok_of_isOk succeeds
  exact (settlesAtPrice_iff (by decide) Config.mock false (.inl 3)
    (Pool.new 0 1 1 1 0 0) (by decide) [(.inl 1, 20, 5), (.inl 2, 15, 3)]
    _ final settled).mpr (by decide)

/-- A bid that takes 2 at price 5 pays 2 of the quote asset, not 10. -/
theorem settles_bid_without_price :
    (Config.mock.handleFilledOrders true (.inl 2) 0 1 (Pool.new 0 1 1 0 0 0)
        [(.inl 1, 5, 2)]
        { (Storage.mock (Pool.new 0 1 1 0 0 0) 0 0).ledger with
          frozen := fun _ _ => 100 }).toOption.map
      (fun final => (final.balance 0 (.inl 2), final.balance 1 (.inl 2),
        final.balance 0 (.inl 1), final.balance 1 (.inl 1))) =
      some (1000002, 999998, 999998, 1000002) ∧
    (Pool.new 0 1 1 0 0 0 : Pool 64 MockAccount).exactValue 5 2 = 10 := by
  decide

/-- One settlement of part of an order, with the ledgers around it. -/
structure PartialFill (w : Nat) (Account Asset : Type) where
  taker : Account
  pool : Pool w Account
  quantity : BitVec w
  before : Ledger w Account Asset
  after : Ledger w Account Asset

/-- Splitting a total loses nothing exactly when the remainders do not add up
to another unit. -/
theorem sum_div_eq_div_sum_iff
    {scale : Nat}
    (positive : 0 < scale)
    (amounts : List Nat) :
    (amounts.map (· / scale)).sum = amounts.sum / scale ↔
      (amounts.map (· % scale)).sum < scale := by
  have split :
      amounts.sum =
        (amounts.map (· % scale)).sum +
          scale * (amounts.map (· / scale)).sum := by
    induction amounts with
    | nil =>
        simp
    | cons amount rest inductionHypothesis =>
        have here := Nat.mod_add_div amount scale
        simp only [List.map_cons, List.sum_cons, Nat.mul_add]
        omega
  rw [split, Nat.add_mul_div_left _ _ positive, right_eq_add,
    Nat.div_eq_zero_iff]
  omega

/-- What settling part of a bid releases, when nothing overflows. -/
theorem released_by_settleFill
    (wide : 64 ≤ w)
    {owner : Account}
    {price quantity : BitVec w}
    (scaleFits : pool.bookScale < 2 ^ 64)
    (productFits : price.toNat * quantity.toNat < 2 ^ w)
    (settled :
      config.settleFill false orderer base quote pool ledger
        (owner, price, quantity) = .ok next) :
    (ledger.frozen quote owner).toNat - (next.frozen quote owner).toNat =
      pool.exactValue price.toNat quantity.toNat := by
  obtain ⟨released, computed, _, frozen⟩ := settleFill_eq_ok settled
  obtain ⟨value, valued, exact⟩ :=
    config.quoteValue_eq wide scaleFits productFits
  have thawed := frozen quote owner
  have same : value = released := by
    simpa [releaseAmount, valued] using computed
  simp only [Bool.false_eq_true, ↓reduceIte, Ledger.flow, and_self] at thawed
  rw [← exact, same]
  omega

/-- What placing a bid freezes, when nothing overflows. -/
theorem frozen_by_doPlaceOrder
    (wide : 64 ≤ w)
    {blockNumber : Nat}
    {owner : Account}
    {price quantity : BitVec w}
    {placedPool : Pool w Account}
    (scaleFits : pool.bookScale < 2 ^ 64)
    (productFits : price.toNat * quantity.toNat < 2 ^ w)
    (placed :
      config.doPlaceOrder blockNumber true owner base quote price quantity
        pool ledger = .ok (placedPool, next)) :
    (next.frozen quote owner).toNat - (ledger.frozen quote owner).toNat =
      pool.exactValue price.toNat quantity.toNat := by
  obtain ⟨value, valued, exact⟩ :=
    config.quoteValue_eq wide scaleFits productFits
  simp only [doPlaceOrder, ↓reduceIte, bind_eq_ok_iff, valued,
    Except.ok.injEq, exists_eq_left', Prod.mk.injEq] at placed
  obtain ⟨_, increased, _, _, _, rfl⟩ := placed
  have frozen := (increaseFrozen_eq_ok increased).2 quote owner
  simp only [Ledger.flow, and_self, ↓reduceIte] at frozen
  omega

/--
However a bid is consumed, the settlements together release what was frozen
for it if and only if the rounding remainders of its parts stay below one
unit of the quote asset.
-/
theorem released_eq_frozen_iff
    (wide : 64 ≤ w)
    (config : Config w Account Asset)
    (pool : Pool w Account)
    (blockNumber : Nat)
    (owner : Account)
    (price quantity : BitVec w)
    (scaleFits : pool.bookScale < 2 ^ 64)
    (productFits : price.toNat * quantity.toNat < 2 ^ w)
    {placedPool : Pool w Account}
    {placedLedger : Ledger w Account Asset}
    (placed :
      config.doPlaceOrder blockNumber true owner base quote price quantity
        pool ledger = .ok (placedPool, placedLedger))
    (fills : List (PartialFill w Account Asset))
    (sameDecimals :
      ∀ fill ∈ fills,
        fill.pool.poolDecimals = pool.poolDecimals ∧
          fill.pool.baseDecimals = pool.baseDecimals ∧
          fill.pool.quoteDecimals = pool.quoteDecimals)
    (settled :
      ∀ fill ∈ fills,
        config.settleFill false fill.taker base quote fill.pool fill.before
          (owner, price, fill.quantity) = .ok fill.after)
    (consumed :
      (fills.map fun fill => fill.quantity.toNat).sum = quantity.toNat) :
    (fills.map fun fill =>
        (fill.before.frozen quote owner).toNat -
          (fill.after.frozen quote owner).toNat).sum =
        (placedLedger.frozen quote owner).toNat -
          (ledger.frozen quote owner).toNat ↔
      (fills.map fun fill =>
        price.toNat * fill.quantity.toNat % pool.bookScale).sum <
          pool.bookScale := by
  have released :
      (fills.map fun fill =>
        (fill.before.frozen quote owner).toNat -
          (fill.after.frozen quote owner).toNat) =
        (fills.map fun fill =>
          price.toNat * fill.quantity.toNat).map (· / pool.bookScale) := by
    rw [List.map_map]
    refine List.map_congr_left fun fill member => ?_
    obtain ⟨samePrice, sameBase, sameQuote⟩ := sameDecimals fill member
    have sameScale : fill.pool.bookScale = pool.bookScale := by
      simp only [Pool.bookScale, Pool.quoteShift, samePrice, sameBase,
        sameQuote]
    have part : fill.quantity.toNat ≤ quantity.toNat := by
      rw [← consumed]
      exact List.single_le_sum (fun _ _ => Nat.zero_le _) _
        (List.mem_map_of_mem member)
    have partFits : price.toNat * fill.quantity.toNat < 2 ^ w :=
      Nat.lt_of_le_of_lt (Nat.mul_le_mul_left _ part) productFits
    rw [released_by_settleFill wide (sameScale ▸ scaleFits) partFits
      (settled fill member), Pool.exactValue, sameScale]
    rfl
  have total :
      (fills.map fun fill => price.toNat * fill.quantity.toNat).sum =
        price.toNat * quantity.toNat := by
    rw [List.sum_map_mul_left, consumed]
  have remainders :
      (fills.map fun fill =>
        price.toNat * fill.quantity.toNat % pool.bookScale) =
        (fills.map fun fill =>
          price.toNat * fill.quantity.toNat).map (· % pool.bookScale) := by
    rw [List.map_map]
    rfl
  rw [released, remainders,
    frozen_by_doPlaceOrder wide scaleFits productFits placed,
    Pool.exactValue, ← total]
  exact sum_div_eq_div_sum_iff pool.bookScale_pos _

/-- A bid of 3 at price 2.0, filled as 1 and 2. -/
theorem released_eq_frozen_of_whole_units :
    ∃ (placedLedger : Ledger 64 MockAccount Nat)
      (fills : List (PartialFill 64 MockAccount Nat)),
      (fills.map fun fill => fill.quantity.toNat) = [1, 2] ∧
        (fills.map fun fill =>
          (fill.before.frozen 1 (.inl 1)).toNat -
            (fill.after.frozen 1 (.inl 1)).toNat).sum =
          (placedLedger.frozen 1 (.inl 1)).toNat - 0 := by
  have succeeds :
      (do
        let (_, placedLedger) ← Config.mock.doPlaceOrder 1 true (.inl 1) 0 1
          20 3 (Pool.new 0 1 1 1 0 0)
          (Storage.mock (Pool.new 0 1 1 1 0 0) 100 250).ledger
        let first ← Config.mock.settleFill false (.inl 2) 0 1
          (Pool.new 0 1 1 1 0 0) placedLedger (.inl 1, 20, 1)
        Config.mock.settleFill false (.inl 3) 0 1 (Pool.new 0 1 1 1 0 0)
          first (.inl 1, 20, 2)).isOk = true := by
    decide
  obtain ⟨second, chain⟩ := exists_ok_of_isOk succeeds
  simp only [bind_eq_ok_iff] at chain
  obtain ⟨⟨placedPool, placedLedger⟩, placed, first, settledFirst,
    settledSecond⟩ := chain
  obtain ⟨fills, fillsShape⟩ :
      ∃ fills : List (PartialFill 64 MockAccount Nat),
        fills = [⟨.inl 2, Pool.new 0 1 1 1 0 0, 1, placedLedger, first⟩,
          ⟨.inl 3, Pool.new 0 1 1 1 0 0, 2, first, second⟩] := ⟨_, rfl⟩
  refine ⟨placedLedger, fills, by simp [fillsShape], ?_⟩
  refine (released_eq_frozen_iff (by decide) Config.mock
    (Pool.new 0 1 1 1 0 0) 1 (.inl 1) 20 3 (by decide) (by decide) placed
    fills ?_ ?_ (by simp [fillsShape])).mpr ?_
  · simp [fillsShape]
  · rw [fillsShape]
    intro fill member
    simp only [List.mem_cons, List.not_mem_nil, or_false] at member
    rcases member with rfl | rfl
    · exact settledFirst
    · exact settledSecond
  · simp [fillsShape, Pool.bookScale, Pool.quoteShift, Pool.new]

/-- A bid of 2 at price 1.5 freezes 3; filled as 1 and 1 it releases 2. -/
theorem dust_stays_frozen :
    (Run.run Config.mock.step
        [⟨.inl 1, 1, .limitOrder 0 1 true 15 2⟩,
          ⟨.inl 2, 2, .marketOrder 0 1 1 false⟩,
          ⟨.inl 2, 3, .marketOrder 0 1 1 false⟩]
        (Storage.mock (Pool.new 0 1 1 1 0 0) 100000 165000)).map
      (fun storage => (storage.ledger.frozen 1 (.inl 1),
        (storage.pools (0, 1)).map fun pool =>
          pool.bids.leaves.toList.map fun leaf =>
            leaf.2.value.openOrders.toList.map fun order =>
              order.2.quantity)) =
      some (1, some [[0]]) := by
  decide

end Config

end HybridOrderbook
