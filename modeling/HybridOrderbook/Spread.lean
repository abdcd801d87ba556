import HybridOrderbook.Checked
import HybridOrderbook.ExactMatching
import HybridOrderbook.Settlement

namespace HybridOrderbook

open Library Sweep

/-!
# The pool between its books

Bids rest below the price of the pool and asks above it.  Placing an order
keeps to its side of the price.  A swap moves the price towards the book that
the taker meets, away from the other one, and should stop at the best level.
Two things may not stop there: the search for an ask returns a quantity that
goes past the level, and a deposit is rounded and so moves the price.
-/

variable {w : Nat} {Account Asset : Type} [DecidableEq Account]
  [DecidableEq Asset]

/--
The pool sits between its books: no bid is above its price, no ask below it,
and the books are not crossed.
-/
def Config.PoolBetweenBooks
    (config : Config w Account Asset)
    (base quote : Asset)
    (storage : Storage w Account Asset) : Prop :=
  ∀ pool baseReserve quoteReserve,
    storage.pools (base, quote) = some pool →
      config.getReserves storage.ledger base quote =
          .ok (baseReserve, quoteReserve) →
        (∀ poolPrice,
          config.poolPrice pool baseReserve quoteReserve = .ok poolPrice →
            (∀ bid, pool.HasLevel true bid → bid ≤ poolPrice) ∧
              ∀ ask, pool.HasLevel false ask → poolPrice ≤ ask) ∧
          ∀ bid ask,
            pool.HasLevel true bid → pool.HasLevel false ask → bid ≤ ask

namespace Pool

/-- The levels of the books are on their sides of a price. -/
structure PricedBetween
    (pool : Pool w Account)
    (books : Bool → PriceMap w Account)
    (price : Nat) : Prop where
  refines : pool.Refines books
  within : ∀ side, ∀ level ∈ books side, WithinLimit side price level.toNat

variable {pool next : Pool w Account} {books : Bool → PriceMap w Account}
  {price : Nat}

omit [DecidableEq Account] in
theorem PricedBetween.levelsKeep
    (between : pool.PricedBetween books price) :
    pool.LevelsKeep (fun side level => WithinLimit side price level.toNat)
      books :=
  ⟨between.refines, between.within⟩

omit [DecidableEq Account] in
theorem PricedBetween.hasLevel
    (between : pool.PricedBetween books price)
    {side : Bool}
    {level : BitVec w}
    (has : pool.HasLevel side level) :
    WithinLimit side price level.toNat :=
  between.levelsKeep.hasLevel has

omit [DecidableEq Account] in
/-- A book that gets levels only on its side of the price. -/
theorem PricedBetween.update
    (between : pool.PricedBetween books price)
    {side : Bool}
    {map : PriceMap w Account}
    (refines : next.Refines (Function.update books side map))
    (levels :
      ∀ level ∈ map,
        level ∈ books side ∨ WithinLimit side price level.toNat) :
    next.PricedBetween (Function.update books side map) price :=
  have updated := between.levelsKeep.update refines levels
  ⟨updated.refines, updated.levels⟩

end Pool

namespace Config

/-- The price of a pool with the balances of its account. -/
def exactPoolPrice
    (config : Config w Account Asset)
    (id : Asset × Asset)
    (pool : Pool w Account)
    (ledger : Ledger w Account Asset) : Nat :=
  pool.exactPrice (ledger.balance id.1 (config.address id)).toNat
    (ledger.balance id.2 (config.address id)).toNat

variable {config : Config w Account Asset} {isBid : Bool} {orderer : Account}
  {base quote : Asset} {pool : Pool w Account}
  {ledger next : Ledger w Account Asset} {quantity : BitVec w}

omit [DecidableEq Account] [DecidableEq Asset] in
theorem exactPoolPrice_eq
    {id : Asset × Asset}
    {nextPool : Pool w Account}
    (sameTerms : pool.SameTerms nextPool)
    (sameBalance :
      ∀ asset,
        next.balance asset (config.address id) =
          ledger.balance asset (config.address id)) :
    config.exactPoolPrice id nextPool next =
      config.exactPoolPrice id pool ledger := by
  unfold exactPoolPrice
  rw [sameBalance, sameBalance]
  exact sameTerms.exactPrice ..

omit [DecidableEq Account] in
theorem exactPoolPrice_of_poolPrice
    (wide : 64 ≤ w)
    (checks : config.overflowChecks = true)
    (lawful : config.Lawful)
    {baseReserve quoteReserve poolPrice : BitVec w}
    (reserves :
      config.getReserves ledger base quote =
        .ok (baseReserve, quoteReserve))
    (priced :
      config.poolPrice pool baseReserve quoteReserve = .ok poolPrice) :
    poolPrice.toNat = config.exactPoolPrice (base, quote) pool ledger := by
  obtain ⟨_, _, _, rfl, rfl⟩ := getReserves_eq_ok_iff.mp reserves
  rw [(toNat_of_poolPrice wide checks priced).2, getBalance, getBalance,
    lawful.poolBalance, lawful.poolBalance]
  rfl

omit [DecidableEq Account] in
theorem exactPoolPrice_of_holds
    (lawful : config.Lawful)
    (pool : Pool w Account)
    {reserves : Reserves}
    (holds : config.HoldsReserves base quote ledger reserves) :
    config.exactPoolPrice (base, quote) pool ledger =
      pool.exactPrice reserves.base reserves.quote := by
  obtain ⟨_, _, read, rfl⟩ := holds
  obtain ⟨_, _, _, rfl, rfl⟩ := getReserves_eq_ok_iff.mp read
  rw [getBalance, getBalance, lawful.poolBalance, lawful.poolBalance]
  rfl

omit [DecidableEq Account] in
theorem HoldsReserves.base_pos
    {reserves : Reserves}
    (holds : config.HoldsReserves base quote ledger reserves) :
    0 < reserves.base := by
  obtain ⟨baseReserve, _, read, rfl⟩ := holds
  have nonzero := (getReserves_eq_ok_iff.mp read).2.1
  exact Nat.pos_of_ne_zero fun zero =>
    nonzero (BitVec.eq_of_toNat_eq (by simpa using zero))

/--
The sweep of an order ends at a price that is not past any level which the
order has not used up.
-/
def StopsShort
    (config : Config w Account Asset)
    (pool : Pool w Account)
    (isBid : Bool)
    (reserves : Reserves)
    (quantity : Nat) : Prop :=
  ∀ level ∈
      leftover (config.venue pool isBid) (pool.ladder isBid) reserves
        quantity,
    WithinLimit isBid level.price
      (pool.exactPrice
        (final (config.venue pool isBid) (pool.ladder isBid) reserves
          quantity).base
        (final (config.venue pool isBid) (pool.ladder isBid) reserves
          quantity).quote)

instance decidableStopsShort
    (config : Config w Account Asset)
    (pool : Pool w Account)
    (isBid : Bool)
    (reserves : Reserves)
    (quantity : Nat) :
    Decidable (config.StopsShort pool isBid reserves quantity) :=
  List.decidableBAll _ _

variable {state : MatchState w Account Asset}

/-- An order that stops short leaves the pool between its books. -/
theorem between_of_matchOrders
    (wide : 64 ≤ w)
    (checks : config.overflowChecks = true)
    (lawful : config.Lawful)
    (otherOrderer : orderer ≠ config.address (base, quote))
    {books : Bool → PriceMap w Account}
    (between :
      pool.PricedBetween books
        (config.exactPoolPrice (base, quote) pool ledger))
    {reserves : Reserves}
    (holds : config.HoldsReserves base quote ledger reserves)
    (stops : config.StopsShort pool isBid reserves quantity.toNat)
    (matched :
      config.matchOrders isBid orderer base quote pool quantity ledger =
        .ok state) :
    ∃ books,
      state.pool.PricedBetween books
        (config.exactPoolPrice (base, quote) state.pool state.ledger) := by
  have width : 0 < w := by omega
  have swept := swept_of_matchOrders wide lawful otherOrderer between.refines
    holds (by rw [config.checked_eq checks]; exact matched)
  have sameTerms := between.refines.sameTerms_matchOrders width matched
  have traded := reaches_final (Reserves.Traded.refl isBid)
    Reserves.Traded.trans (Reserves.traded_trade config pool isBid)
    (pool.ladder isBid) reserves quantity.toNat
  have moves := traded.exactPrice_within pool holds.base_pos
    swept.holds.base_pos
  obtain ⟨after, keeps⟩ := between.levelsKeep.matchOrders width matched
  rw [exactPoolPrice_of_holds lawful _ swept.holds, sameTerms.exactPrice]
  refine ⟨after, keeps.refines, fun side level member => ?_⟩
  by_cases own : side = isBid
  · -- the price moves away from the book of the taker's side
    subst own
    have within := keeps.levels side level member
    rw [exactPoolPrice_of_holds lawful _ holds] at within
    exact moves.trans within
  · obtain rfl : side = !isBid := Bool.eq_not_of_ne own
    obtain ⟨left, listed, price⟩ := Pool.hasLevel_iff_mem_ladder.mp
      (keeps.refines.hasLevel_of_mem member)
    rw [← price]
    exact withinLimit_not.mpr (stops left (swept.leaves left listed))

/-- Matching moves no funds but those of the taker and of the pool. -/
theorem balance_of_matchOrders
    {who : Account}
    (otherOrderer : orderer ≠ who)
    (otherPool : config.address (base, quote) ≠ who)
    (matched :
      config.matchOrders isBid orderer base quote pool quantity ledger =
        .ok state)
    (asset : Asset) :
    state.ledger.balance asset who = ledger.balance asset who := by
  refine matchOrders_invariant
    (fun state => state.ledger.balance asset who = ledger.balance asset who)
    ?_ ?_ rfl matched
  · intro state later part same _ filled
    rw [balance_of_doFillPool otherOrderer otherPool
      (fillFromPool_eq_ok filled).1]
    exact same
  · intro state later price index same _ _ filled
    rw [ledger_of_doFillBook filled]
    exact same

/-- Every pool sits between its books, and owns none of their orders. -/
structure Spread
    (config : Config w Account Asset)
    (storage : Storage w Account Asset) : Prop where
  owners :
    storage.Keeps fun _ _ owner _ => ∀ id, owner ≠ config.address id
  between :
    ∀ id pool, storage.pools id = some pool →
      ∃ books,
        pool.PricedBetween books
          (config.exactPoolPrice id pool storage.ledger)

/--
What a call needs to leave the pools between their books: no pool signs it,
it does not fail, a deposit takes the price past no level, and an order that
is matched stops short.
-/
structure SpreadSafe
    (config : Config w Account Asset)
    (extrinsic : Extrinsic w Account Asset)
    (storage : Storage w Account Asset) : Prop where
  signer : ∀ id, extrinsic.signer ≠ config.address id
  succeeds : (config.step extrinsic storage).isSome = true
  deposits :
    ∀ base quote baseDesired quoteDesired baseMin quoteMin mintTo pool
      baseAmount quoteAmount,
      extrinsic.call = .addLiquidity base quote baseDesired quoteDesired
          baseMin quoteMin mintTo →
        storage.pools (base, quote) = some pool →
          depositAmounts
              (config.getBalance storage.ledger
                (config.address (base, quote)) base)
              (config.getBalance storage.ledger
                (config.address (base, quote)) quote)
              baseDesired quoteDesired baseMin quoteMin =
            .ok (baseAmount, quoteAmount) →
            ∀ side level, pool.HasLevel side level →
              WithinLimit side
                (pool.exactPrice
                  ((config.getBalance storage.ledger
                    (config.address (base, quote)) base).toNat +
                      baseAmount.toNat)
                  ((config.getBalance storage.ledger
                    (config.address (base, quote)) quote).toNat +
                      quoteAmount.toNat))
                level.toNat
  takes :
    ∀ base quote isBid quantity pool baseReserve quoteReserve,
      (extrinsic.call = .marketOrder base quote quantity isBid ∨
        ∃ price,
          extrinsic.call = .limitOrder base quote isBid price quantity ∧
            config.Decides storage base quote isBid price true) →
        storage.pools (base, quote) = some pool →
          config.getReserves storage.ledger base quote =
              .ok (baseReserve, quoteReserve) →
            config.StopsShort pool isBid
              ⟨baseReserve.toNat, quoteReserve.toNat⟩ quantity.toNat

section Steps

variable {extrinsic : Extrinsic w Account Asset}
  {storage nextStorage : Storage w Account Asset}

omit [DecidableEq Account] in
/-- A call that changes one pool, and no balance of the others. -/
theorem Spread.update
    (spread : config.Spread storage)
    {id : Asset × Asset}
    (here :
      ∃ books,
        pool.PricedBetween books (config.exactPoolPrice id pool next))
    (others :
      ∀ other, other ≠ id → ∀ asset,
        next.balance asset (config.address other) =
          storage.ledger.balance asset (config.address other)) :
    ∀ other otherPool,
      (storage.update id pool next).pools other = some otherPool →
        ∃ books,
          otherPool.PricedBetween books
            (config.exactPoolPrice other otherPool next) := by
  intro other otherPool found
  by_cases same : other = id
  · subst same
    rw [Storage.pools_update_self, Option.some.injEq] at found
    exact found ▸ here
  · rw [Storage.pools_update_of_ne same] at found
    rw [exactPoolPrice_eq (Pool.SameTerms.refl _) (others other same)]
    exact spread.between other otherPool found

omit [DecidableEq Account] [DecidableEq Asset] in
/-- An order is placed on its own side of the price of the pool. -/
theorem withinLimit_of_rests
    {price poolPrice : BitVec w}
    (rests : shouldMatchOrder isBid price poolPrice = false) :
    WithinLimit isBid poolPrice.toNat price.toNat := by
  cases isBid with
  | true =>
      have less : price < poolPrice := by
        simpa [shouldMatchOrder] using rests
      exact Nat.le_of_lt (BitVec.lt_def.mp less)
  | false =>
      have less : poolPrice < price := by
        simpa [shouldMatchOrder] using rests
      exact Nat.le_of_lt (BitVec.lt_def.mp less)

/-- A deposit that takes the price past no level. -/
theorem Spread.deposited
    (lawful : config.Lawful)
    (spread : config.Spread storage)
    (otherSigner : ∀ id, extrinsic.signer ≠ config.address id)
    (different : base ≠ quote)
    {baseAmount quoteAmount : Nat}
    (moves :
      storage.ledger.Moves next
        (Ledger.flow base extrinsic.signer baseAmount +
          Ledger.flow quote extrinsic.signer quoteAmount)
        (Ledger.flow base (config.address (base, quote)) baseAmount +
          Ledger.flow quote (config.address (base, quote)) quoteAmount))
    (priceWithin :
      ∀ pool, storage.pools (base, quote) = some pool →
        ∀ side level, pool.HasLevel side level →
          WithinLimit side
            (pool.exactPrice
              ((storage.ledger.balance base
                (config.address (base, quote))).toNat + baseAmount)
              ((storage.ledger.balance quote
                (config.address (base, quote))).toNat + quoteAmount))
            level.toNat)
    (id : Asset × Asset)
    (pool : Pool w Account)
    (found : storage.pools id = some pool) :
    ∃ books,
      pool.PricedBetween books (config.exactPoolPrice id pool next) := by
  obtain ⟨books, between⟩ := spread.between id pool found
  by_cases same : id = (base, quote)
  · subst same
    have baseMoved := moves base (config.address (base, quote))
    have quoteMoved := moves quote (config.address (base, quote))
    simp [Ledger.flow, different, different.symm,
      (otherSigner (base, quote)).symm] at baseMoved quoteMoved
    refine ⟨books, between.refines, fun side level member => ?_⟩
    have has : pool.HasLevel (! !side) level :=
      between.refines.hasLevel_of_mem (by rwa [Bool.not_not])
    rw [Bool.not_not] at has
    have within := priceWithin pool found side level has
    rw [← baseMoved, ← quoteMoved] at within
    exact within
  · have untouched :
        ∀ asset, next.balance asset (config.address id) =
          storage.ledger.balance asset (config.address id) := by
      intro asset
      have otherPool : config.address id ≠ config.address (base, quote) :=
        fun equal => same (lawful.addressInjective equal)
      have moved := moves asset (config.address id)
      refine BitVec.eq_of_toNat_eq ?_
      simpa [Ledger.flow, (otherSigner id).symm, otherPool] using moved
    rw [exactPoolPrice_eq (Pool.SameTerms.refl _) untouched]
    exact ⟨books, between⟩

/-- An order that is matched stops short, or is for nothing. -/
theorem Spread.matched
    (wide : 64 ≤ w)
    (checks : config.overflowChecks = true)
    (lawful : config.Lawful)
    (spread : config.Spread storage)
    (safe : config.SpreadSafe extrinsic storage)
    (called :
      extrinsic.call = .marketOrder base quote quantity isBid ∨
        ∃ price,
          extrinsic.call = .limitOrder base quote isBid price quantity ∧
            config.Decides storage base quote isBid price true)
    (found : storage.pools (base, quote) = some pool)
    (matched :
      config.matchOrders isBid extrinsic.signer base quote pool quantity
        storage.ledger = .ok state) :
    ∃ books,
      state.pool.PricedBetween books
        (config.exactPoolPrice (base, quote) state.pool state.ledger) := by
  obtain ⟨books, between⟩ := spread.between _ _ found
  by_cases some : 0 < quantity
  · obtain ⟨baseReserve, quoteReserve, read⟩ :=
      reserves_of_matchOrders matched some
    exact between_of_matchOrders wide checks lawful (safe.signer _) between
      ⟨_, _, read, rfl⟩ (safe.takes _ _ _ _ _ _ _ called found read) matched
  · obtain rfl : quantity = 0 := BitVec.le_antisymm (BitVec.not_lt.mp some)
      (by simp [BitVec.le_def])
    rw [matchOrders_zero, Except.ok.injEq] at matched
    subst matched
    exact ⟨books, between⟩

/-- Every call that is safe leaves all pools between their books. -/
theorem Spread.step
    (wide : 64 ≤ w)
    (checks : config.overflowChecks = true)
    (lawful : config.Lawful)
    (spread : config.Spread storage)
    (safe : config.SpreadSafe extrinsic storage)
    (stepped : config.step extrinsic storage = some nextStorage) :
    config.Spread nextStorage := by
  have width : 0 < w := by omega
  refine ⟨spread.owners.step wide (fun _ _ _ _ _ _ other => other)
    (fun _ _ _ _ _ _ _ => safe.signer) stepped, ?_⟩
  cases effect_of_step stepped with
  | deposited called different amounts moves _ samePools =>
      intro id pool found
      rw [samePools] at found
      refine spread.deposited lawful safe.signer different moves ?_ id pool
        found
      intro pool found
      have within := safe.deposits _ _ _ _ _ _ _ _ _ _ called found amounts
      simpa only [getBalance, lawful.poolBalance] using within
  | @matched base quote isBid quantity pool state ledger called _ found
      matched settled updated =>
      obtain ⟨_, keeps⟩ := spread.owners _ _ found
      have fills := (keeps.matchOrders width
        (fun _ _ _ _ _ _ other => other) matched).fills
      have untouched := fun id => balance_of_handleFilledOrders
        (safe.signer id) (fun fill member => fills fill member id) settled
      rw [updated]
      refine spread.update ?_ fun other different asset => ?_
      · rw [exactPoolPrice_eq (Pool.SameTerms.refl _) (untouched _)]
        exact spread.matched wide checks lawful safe called found matched
      · rw [untouched]
        exact balance_of_matchOrders (safe.signer other)
          (fun same => different (lawful.addressInjective same).symm) matched
          asset
  | @placed base quote isBid price quantity pool nextPool ledger _ _ _ called
      found reserves priced rests places updated =>
      obtain ⟨books, between⟩ := spread.between _ _ found
      obtain ⟨⟨_, placed⟩, sameBalance, _⟩ := doPlaceOrder_eq_ok wide places
      obtain ⟨sameTerms, _, refines⟩ :=
        between.refines.placeOrder_eq_ok width placed
      have within := withinLimit_of_rests rests
      rw [exactPoolPrice_of_poolPrice wide checks lawful reserves
        priced] at within
      have levels := between.update refines fun level member => by
        rcases PriceMap.mem_placeOrder member with rfl | old
        · exact .inr within
        · exact .inl old
      rw [← exactPoolPrice_eq sameTerms fun _ => by rw [sameBalance]]
        at levels
      rw [updated]
      refine spread.update ⟨_, levels⟩ fun _ _ _ => ?_
      rw [sameBalance]
  | @canceled base quote price quantity orderId answer pool nextPool called
      found cancels updated =>
      obtain ⟨books, between⟩ := spread.between _ _ found
      obtain ⟨_, _, sameTerms, refines⟩ :=
        between.refines.cancelOrder_eq_ok width cancels
      have levels := between.update refines
        fun level member => .inl (PriceMap.mem_of_mem_cancelOrder member)
      rw [← exactPoolPrice_eq sameTerms fun _ => rfl] at levels
      rw [updated]
      exact spread.update ⟨_, levels⟩ fun _ _ _ => rfl

end Steps

variable {start storage : Storage w Account Asset}

omit [DecidableEq Account] [DecidableEq Asset] in
theorem spread_of_created (created : start.Created) : config.Spread start where
  owners := created.keeps
  between _ _ found := ⟨_, created.refines found, nofun⟩

/-- The price of a pool is computed without overflow. -/
def PriceFits
    (config : Config w Account Asset)
    (base quote : Asset)
    (storage : Storage w Account Asset) : Prop :=
  ∀ pool baseReserve quoteReserve,
    storage.pools (base, quote) = some pool →
      config.getReserves storage.ledger base quote =
          .ok (baseReserve, quoteReserve) →
        (config.checked.poolPrice pool baseReserve quoteReserve).isOk = true

-- A deposit that is rounded lowers the price below a bid as well.
example :
    ((Run.run mock.step
        [⟨.inl 1, 1, .limitOrder 0 1 true 18999 1⟩,
          ⟨.inl 2, 1, .addLiquidity 0 1 201 1000 1 1 (.inl 2)⟩]
        (Storage.mock (Pool.new 0 1 1 4 0 0) 1000 1900)).bind
      fun storage => (storage.pools (0, 1)).bind
      fun pool => (mock.getReserves storage.ledger 0 1).toOption.bind
      fun reserves => (mock.poolPrice pool reserves.1
        reserves.2).toOption.map
      fun price => (price, pool.bids.leaves[(0 : BitVec 64)]?.map (·.key))) =
    some (18992, some 18999) := by
  decide +kernel

end Config

end HybridOrderbook
