import HybridOrderbook.Checked
import HybridOrderbook.ExactMatching

namespace HybridOrderbook

open Library Sweep

/-!
# Limit prices

A limit order is compared with the price of the pool once, before it is
matched.  Matching itself knows no limit: it goes on until the whole quantity
is filled.  So the limit holds if and only if the sweep of the order, through
the levels of the opposite book together with the pool, ends within it.
-/

variable {w : Nat} {Account Asset : Type}

namespace Config

/--
The sweep of an order keeps to a limit: no level past the limit fills any of
it, and the reserves that it leaves have a price within the limit.
-/
structure KeepsToLimit
    (config : Config w Account Asset)
    (pool : Pool w Account)
    (isBid : Bool)
    (limit : BitVec w)
    (reserves : Reserves)
    (quantity : Nat) : Prop where
  levels :
    ∀ round ∈
        rounds (config.venue pool isBid) (pool.ladder isBid) reserves quantity,
      round.filled ≠ 0 → WithinLimit isBid limit.toNat round.level.price
  price :
    ∃ price,
      config.checked.poolPrice pool
          (BitVec.ofNat w (final (config.venue pool isBid)
            (pool.ladder isBid) reserves quantity).base)
          (BitVec.ofNat w (final (config.venue pool isBid)
            (pool.ladder isBid) reserves quantity).quote) = .ok price ∧
        WithinLimit isBid limit.toNat price.toNat

/-- The sweep of an order can be followed to see whether it keeps to a limit. -/
instance decidableKeepsToLimit
    (config : Config w Account Asset)
    (pool : Pool w Account)
    (isBid : Bool)
    (limit : BitVec w)
    (reserves : Reserves)
    (quantity : Nat) :
    Decidable (config.KeepsToLimit pool isBid limit reserves quantity) :=
  decidable_of_iff
    ((∀ round ∈
          rounds (config.venue pool isBid) (pool.ladder isBid) reserves
            quantity,
        round.filled ≠ 0 → WithinLimit isBid limit.toNat round.level.price) ∧
      ((config.checked.poolPrice pool
          (BitVec.ofNat w (final (config.venue pool isBid)
            (pool.ladder isBid) reserves quantity).base)
          (BitVec.ofNat w (final (config.venue pool isBid)
            (pool.ladder isBid) reserves quantity).quote)).toOption.any
        fun price => decide (WithinLimit isBid limit.toNat price.toNat)) =
          true) <| by
    simp only [Option.any_eq_true, toOption_eq_some_iff, decide_eq_true_eq]
    exact ⟨fun kept => ⟨kept.1, kept.2⟩, fun kept => ⟨kept.1, kept.2⟩⟩

variable [DecidableEq Account] [DecidableEq Asset]

/-- The price of the pool, with the reserves of a ledger, is within a limit. -/
def PricedWithin
    (config : Config w Account Asset)
    (isBid : Bool)
    (base quote : Asset)
    (pool : Pool w Account)
    (limit : BitVec w)
    (ledger : Ledger w Account Asset) : Prop :=
  ∀ baseReserve quoteReserve,
    config.getReserves ledger base quote =
        .ok (baseReserve, quoteReserve) →
      ∃ price,
        config.poolPrice pool baseReserve quoteReserve = .ok price ∧
          WithinLimit isBid limit.toNat price.toNat

/-- A limit order that is matched in a call that succeeds. -/
structure LimitMatch
    (config : Config w Account Asset)
    (extrinsic : Extrinsic w Account Asset)
    (storage : Storage w Account Asset) where
  base : Asset
  quote : Asset
  isBid : Bool
  limit : BitVec w
  quantity : BitVec w
  pool : Pool w Account
  baseReserve : BitVec w
  quoteReserve : BitVec w
  state : MatchState w Account Asset
  called : extrinsic.call = .limitOrder base quote isBid limit quantity
  succeeds : (config.step extrinsic storage).isSome = true
  crosses : config.Decides storage base quote isBid limit true
  found : storage.pools (base, quote) = some pool
  reserves :
    config.getReserves storage.ledger base quote =
      .ok (baseReserve, quoteReserve)
  matched :
    config.matchOrders isBid extrinsic.signer base quote pool quantity
      storage.ledger = .ok state

namespace LimitMatch

variable {config : Config w Account Asset}
  {extrinsic : Extrinsic w Account Asset}
  {storage : Storage w Account Asset}

/--
The order is filled from the book at prices within its limit, and every swap
that is made for it leaves the price of the pool within the limit.
-/
def Protected (order : config.LimitMatch extrinsic storage) : Prop :=
  (∀ fill ∈ order.state.filledOrders,
    WithinLimit order.isBid order.limit.toNat fill.2.1.toNat) ∧
    ∀ swap ∈ order.state.swaps,
      config.PricedWithin order.isBid order.base order.quote order.pool
        order.limit swap.2

/--
Nothing wraps: the order is matched in the same way with overflow checks, and
the price of the reserves that it leaves is what it is with them.
-/
structure Unwrapped (order : config.LimitMatch extrinsic storage) : Prop where
  matched :
    config.checked.matchOrders order.isBid extrinsic.signer order.base
      order.quote order.pool order.quantity storage.ledger = .ok order.state
  priced :
    ∀ baseReserve quoteReserve,
      config.getReserves order.state.ledger order.base order.quote =
          .ok (baseReserve, quoteReserve) →
        config.poolPrice order.pool baseReserve quoteReserve =
          config.checked.poolPrice order.pool baseReserve quoteReserve

/--
The account of the pool does not trade with the pool, and in a build without
overflow checks nothing wraps.
-/
structure InRange (order : config.LimitMatch extrinsic storage) : Prop where
  otherSigner : extrinsic.signer ≠ config.address (order.base, order.quote)
  unwrapped : config.overflowChecks = false → order.Unwrapped

/-- With overflow checks, nothing wraps in what is computed. -/
theorem InRange.unwraps
    {order : config.LimitMatch extrinsic storage}
    (inRange : order.InRange) : order.Unwrapped := by
  cases checks : config.overflowChecks with
  | true =>
      have same := config.checked_eq checks
      exact ⟨by rw [same]; exact order.matched, fun _ _ _ => by rw [same]⟩
  | false =>
      exact inRange.unwrapped checks

/-- The sweep of the order keeps to its limit. -/
def Covered (order : config.LimitMatch extrinsic storage) : Prop :=
  config.KeepsToLimit order.pool order.isBid order.limit
    ⟨order.baseReserve.toNat, order.quoteReserve.toNat⟩
    order.quantity.toNat

/-- A call matches at most one limit order. -/
theorem unique (order other : config.LimitMatch extrinsic storage) :
    order = other := by
  obtain ⟨base, quote, isBid, limit, quantity, pool, baseReserve,
    quoteReserve, state, called, succeeds, crosses, found, reserves,
    matched⟩ := order
  obtain ⟨_, _, _, _, _, _, _, _, _, calledToo, _, _, foundToo, reservesToo,
    matchedToo⟩ := other
  obtain ⟨rfl, rfl, rfl, rfl, rfl⟩ :=
    Call.limitOrder.inj (called.symm.trans calledToo)
  obtain rfl := Option.some.inj (found.symm.trans foundToo)
  obtain ⟨rfl, rfl⟩ :=
    Prod.mk.inj (Except.ok.inj (reserves.symm.trans reservesToo))
  obtain rfl := Except.ok.inj (matched.symm.trans matchedToo)
  rfl

/-- The order sweeps the ladder of its pool. -/
theorem InRange.swept
    (wide : 64 ≤ w)
    (lawful : config.Lawful)
    {order : config.LimitMatch extrinsic storage}
    (inRange : order.InRange)
    {books : Bool → PriceMap w Account}
    (refines : order.pool.Refines books) :
    config.Swept order.isBid order.base order.quote order.pool
      (order.pool.ladder order.isBid)
      ⟨order.baseReserve.toNat, order.quoteReserve.toNat⟩
      order.quantity.toNat order.state :=
  swept_of_matchOrders wide lawful inRange.otherSigner refines
    ⟨_, _, order.reserves, rfl⟩ inRange.unwraps.matched

/-- A limit order that is matched has the price of the pool as its bound. -/
theorem price_within (order : config.LimitMatch extrinsic storage) :
    ∃ price,
      config.poolPrice order.pool order.baseReserve order.quoteReserve =
          .ok price ∧
        WithinLimit order.isBid order.limit.toNat price.toNat := by
  obtain ⟨pool, _, _, price, found, reserves, priced, decided⟩ :=
    order.crosses
  obtain rfl := Option.some.inj (found.symm.trans order.found)
  rw [order.reserves, Except.ok.injEq, Prod.mk.injEq] at reserves
  obtain ⟨rfl, rfl⟩ := reserves
  refine ⟨price, priced, ?_⟩
  cases side : order.isBid <;>
    simpa [side, shouldMatchOrder, WithinLimit, BitVec.le_def] using decided

section Swept

variable {order : config.LimitMatch extrinsic storage}
  (swept :
    config.Swept order.isBid order.base order.quote order.pool
      (order.pool.ladder order.isBid)
      ⟨order.baseReserve.toNat, order.quoteReserve.toNat⟩
      order.quantity.toNat order.state)

include swept

/-- What the order leaves of the reserves is what the ledger holds. -/
theorem price_of_last
    {price : BitVec w} :
    (config.checked.poolPrice order.pool
        (BitVec.ofNat w (final (config.venue order.pool order.isBid)
          (order.pool.ladder order.isBid)
          ⟨order.baseReserve.toNat, order.quoteReserve.toNat⟩
          order.quantity.toNat).base)
        (BitVec.ofNat w (final (config.venue order.pool order.isBid)
          (order.pool.ladder order.isBid)
          ⟨order.baseReserve.toNat, order.quoteReserve.toNat⟩
          order.quantity.toNat).quote) = .ok price) ↔
      ∃ base quote,
        config.getReserves order.state.ledger order.base order.quote =
            .ok (base, quote) ∧
          config.checked.poolPrice order.pool base quote = .ok price := by
  obtain ⟨base, quote, read, last⟩ := swept.holds
  rw [last, read]
  simp [and_assoc]

/-- A sweep that keeps to the limit leaves every swap within it. -/
theorem Covered.swaps
    (wide : 64 ≤ w)
    (covered : order.Covered) :
    ∀ swap ∈ order.state.swaps,
      config.PricedWithin order.isBid order.base order.quote order.pool
        order.limit swap.2 := by
  intro swap member baseReserve quoteReserve read
  obtain ⟨last, lastPriced, within⟩ := covered.price
  obtain ⟨lastBase, lastQuote, lastRead, lastPriced⟩ :=
    (price_of_last swept).mp lastPriced
  have returns {base quote price : BitVec w}
      (priced : config.checked.poolPrice order.pool base quote = .ok price) :
      config.poolPrice order.pool base quote = .ok price :=
    (config.poolPrice_agrees ..).approximates.returns priced
  rcases swept.ofSwap swap member with holds | ⟨priced, round, listed, holds⟩
  · have same := holds.unique ⟨_, _, read, rfl⟩
    rw [swept.holds.unique ⟨_, _, lastRead, rfl⟩, Reserves.mk.injEq,
      BitVec.toNat_inj, BitVec.toNat_inj] at same
    obtain ⟨rfl, rfl⟩ := same
    exact ⟨last, returns lastPriced, within⟩
  · -- a price on the way to the last one is closer to the taker
    obtain ⟨_, _, price, readAgain, priced⟩ := priced
    rw [read, Except.ok.injEq, Prod.mk.injEq] at readAgain
    obtain ⟨rfl, rfl⟩ := readAgain
    refine ⟨price, returns priced, within.trans ?_⟩
    obtain ⟨positive, exact⟩ := toNat_of_poolPrice wide rfl priced
    obtain ⟨lastPositive, lastExact⟩ := toNat_of_poolPrice wide rfl lastPriced
    have traded := reaches_final_of_mem (Reserves.Traded.refl order.isBid)
      Reserves.Traded.trans (Reserves.traded_trade config order.pool
        order.isBid) listed
    rw [holds.unique ⟨_, _, read, rfl⟩,
      swept.holds.unique ⟨_, _, lastRead, rfl⟩] at traded
    rw [exact, lastExact]
    exact traded.exactPrice_within order.pool (Nat.pos_of_ne_zero positive)
      (Nat.pos_of_ne_zero lastPositive)

/-- If all that is done for the order is within the limit, so is the sweep. -/
theorem Protected.covered
    (inRange : order.InRange)
    (kept : order.Protected) : order.Covered := by
  refine ⟨fun round listed filled => ?_, ?_⟩
  · obtain ⟨fill, member, price⟩ := swept.ofRound round listed filled
    exact price ▸ kept.1 fill member
  · obtain ⟨base, quote, read, last⟩ := swept.holds
    have within :
        ∃ price,
          config.poolPrice order.pool base quote = .ok price ∧
            WithinLimit order.isBid order.limit.toNat price.toNat := by
      rcases swept.last with unchanged | ⟨swap, member, atEnd⟩
      · have same := unchanged.unique ⟨_, _, read, rfl⟩
        rw [Reserves.mk.injEq, BitVec.toNat_inj, BitVec.toNat_inj] at same
        obtain ⟨rfl, rfl⟩ := same
        exact order.price_within
      · exact kept.2 swap member base quote (atEnd ▸ read)
    obtain ⟨price, priced, within⟩ := within
    rw [inRange.unwraps.priced base quote read] at priced
    exact ⟨price, (price_of_last swept).mpr ⟨base, quote, read, priced⟩,
      within⟩

end Swept

end LimitMatch

/--
A limit order is protected: if it is matched, then within its limit.  An
order that rests is not filled at all.
-/
def LimitProtected
    (config : Config w Account Asset)
    (extrinsic : Extrinsic w Account Asset)
    (storage : Storage w Account Asset) : Prop :=
  ∀ order : config.LimitMatch extrinsic storage, order.Protected

/--
In every reachable state, a limit order keeps to its limit if and only if its
sweep does, as long as nothing wraps.
-/
theorem limitProtected_iff_of_run
    (wide : 64 ≤ w)
    (config : Config w Account Asset)
    (lawful : config.Lawful)
    (setup : Setup w Account Asset)
    {start pallet : Pallet w Account Asset}
    (created : start.storage.Created)
    (calls : List (Dispatchable w Account Asset))
    (ran : Run.run (Pallet.step config setup) calls start = some pallet)
    (extrinsic : Extrinsic w Account Asset)
    (inRange :
      ∀ order : config.LimitMatch extrinsic pallet.storage, order.InRange) :
    config.LimitProtected extrinsic pallet.storage ↔
      ∀ order : config.LimitMatch extrinsic pallet.storage, order.Covered := by
  have keeps := Pallet.keeps_of_run wide created ran
  refine forall_congr' fun order => ?_
  obtain ⟨books, poolKeeps⟩ := keeps _ _ order.found
  have swept := (inRange order).swept wide lawful poolKeeps.refines
  constructor
  · exact fun kept => kept.covered swept (inRange order)
  · refine fun covered => ⟨fun fill member => ?_, covered.swaps swept wide⟩
    obtain ⟨round, listed, filled, price⟩ := swept.ofFill fill member
    exact price ▸ covered.levels round listed filled

/--
A bid of 20 with limit 110: 10 are swapped to the price 102, 5 are filled at
102, and 5 are swapped to the price 103.
-/
theorem limitProtected_of_bid :
    ∃ pallet,
      Run.run (Pallet.step mock (.mock (.inl 0)))
          (Pallet.mockOpening (.inl 1) 1000 100000 ++
            [.onPool (.dispatch ⟨.inl 1, 1, .limitOrder 0 1 false 102 5⟩)])
          (.genesis (.mock Sum.isLeft) fun _ => false) = some pallet ∧
        (∃ order : mock.LimitMatch
            ⟨.inl 2, 2, .limitOrder 0 1 true 110 20⟩ pallet.storage,
          order.state.filledOrders = [(.inl 1, 102, 5)] ∧
            order.state.swaps.map Prod.fst = [10, 5]) ∧
        mock.LimitProtected ⟨.inl 2, 2, .limitOrder 0 1 true 110 20⟩
          pallet.storage := by
  have observed :
      ((Run.run (Pallet.step mock (.mock (.inl 0)))
          (Pallet.mockOpening (.inl 1) 1000 100000 ++
            [.onPool (.dispatch ⟨.inl 1, 1, .limitOrder 0 1 false 102 5⟩)])
          (.genesis (.mock Sum.isLeft) fun _ => false)).bind
        fun pallet => (mock.step ⟨.inl 2, 2, .limitOrder 0 1 true 110 20⟩
          pallet.storage).bind
        fun _ => (pallet.storage.pools (0, 1)).bind
        fun pool => (mock.getReserves pallet.storage.ledger 0 1).toOption.bind
        fun reserves => (mock.poolPrice pool reserves.1
          reserves.2).toOption.bind
        fun price => (mock.checked.matchOrders true (.inl 2) 0 1 pool 20
          pallet.storage.ledger).toOption.bind
        fun state => (mock.getReserves state.ledger 0 1).toOption.bind
        fun left => (mock.checked.poolPrice pool left.1 left.2).toOption.map
        fun _ => (state.filledOrders, state.swaps.map Prod.fst,
          shouldMatchOrder true 110 price &&
            decide (mock.KeepsToLimit pool true 110
              ⟨reserves.1.toNat, reserves.2.toNat⟩ 20))) =
      some ([(.inl 1, 102, 5)], [10, 5], true) := by
    decide +kernel
  simp only [Option.bind_eq_some_iff, Option.map_eq_some_iff,
    toOption_eq_some_iff, Prod.mk.injEq, Bool.and_eq_true,
    decide_eq_true_eq] at observed
  obtain ⟨pallet, ran, _, stepped, pool, found, ⟨baseReserve, quoteReserve⟩,
    reserves, price, priced, state, matched, ⟨baseLeft, quoteLeft⟩, left,
    last, lastPriced, fills, swaps, crosses, covered⟩ := observed
  have unchecked := (mock.matchOrders_approximates ..).returns matched
  let order : mock.LimitMatch ⟨.inl 2, 2, .limitOrder 0 1 true 110 20⟩
      pallet.storage :=
    ⟨0, 1, true, 110, 20, pool, baseReserve, quoteReserve, state, rfl,
      by rw [stepped]; rfl, ⟨pool, _, _, price, found, reserves, priced,
        crosses⟩, found, reserves, unchecked⟩
  have inRange : order.InRange := by
    refine ⟨Sum.inl_ne_inr, fun _ => ⟨matched, fun base quote read => ?_⟩⟩
    obtain ⟨rfl, rfl⟩ := Prod.mk.inj (Except.ok.inj (left.symm.trans read))
    exact ((mock.poolPrice_agrees ..).approximates.returns
      lastPriced).trans lastPriced.symm
  refine ⟨pallet, ran, ⟨order, fills, swaps⟩,
    (limitProtected_iff_of_run (by decide) mock mock_lawful (.mock (.inl 0))
      (Pallet.created_genesis _ _) _ ran _ fun other => ?_).mpr
        fun other => ?_⟩
  · exact order.unique other ▸ inRange
  · exact order.unique other ▸ covered

/--
A bid with the price of the pool as its limit: it is filled at twice its limit
from the book, and from the pool beyond that.
-/
theorem limit_bid_filled_past_limit :
    ∃ pallet,
      Run.run (Pallet.step mock (.mock (.inl 0)))
          (Pallet.mockOpening (.inl 1) 100 10000 ++
            [.onPool (.dispatch ⟨.inl 1, 1, .limitOrder 0 1 false 200 5⟩)])
          (.genesis (.mock Sum.isLeft) fun _ => false) = some pallet ∧
        (mock.step ⟨.inl 2, 1, .limitOrder 0 1 true 100 60⟩
          pallet.storage).isSome = true ∧
        ¬ mock.LimitProtected ⟨.inl 2, 1, .limitOrder 0 1 true 100 60⟩
          pallet.storage := by
  have observed :
      ((Run.run (Pallet.step mock (.mock (.inl 0)))
          (Pallet.mockOpening (.inl 1) 100 10000 ++
            [.onPool (.dispatch ⟨.inl 1, 1, .limitOrder 0 1 false 200 5⟩)])
          (.genesis (.mock Sum.isLeft) fun _ => false)).bind
        fun pallet => (mock.step ⟨.inl 2, 1, .limitOrder 0 1 true 100 60⟩
          pallet.storage).bind
        fun _ => (pallet.storage.pools (0, 1)).bind
        fun pool => (mock.getReserves pallet.storage.ledger 0 1).toOption.bind
        fun reserves => (mock.poolPrice pool reserves.1
          reserves.2).toOption.bind
        fun price => (mock.matchOrders true (.inl 2) 0 1 pool 60
          pallet.storage.ledger).toOption.map
        fun state => (shouldMatchOrder true 100 price,
          state.filledOrders)) =
      some (true, [(.inl 1, 200, 5)]) := by
    decide +kernel
  simp only [Option.bind_eq_some_iff, Option.map_eq_some_iff,
    toOption_eq_some_iff, Prod.mk.injEq] at observed
  obtain ⟨pallet, ran, _, stepped, pool, found, ⟨baseReserve, quoteReserve⟩,
    reserves, price, priced, state, matched, crosses, fills⟩ := observed
  have succeeds :
      (mock.step ⟨.inl 2, 1, .limitOrder 0 1 true 100 60⟩
        pallet.storage).isSome = true := by
    rw [stepped]
    rfl
  refine ⟨pallet, ran, succeeds, fun kept => ?_⟩
  have within := (kept ⟨0, 1, true, 100, 60, pool, baseReserve,
    quoteReserve, state, rfl, succeeds, ⟨pool, _, _, price, found, reserves,
      priced, crosses⟩, found, reserves, matched⟩).1 (.inl 1, 200, 5)
    (by rw [fills]; exact List.mem_singleton_self _)
  simp [WithinLimit] at within

end Config

end HybridOrderbook
