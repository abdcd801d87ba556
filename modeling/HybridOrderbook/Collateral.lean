import HybridOrderbook.Effects
import HybridOrderbook.Settlement

namespace HybridOrderbook

open Library

/-!
# The collateral of resting orders

Every resting order has an amount of one asset that should be frozen for it:
its quantity of the base asset for an ask, its worth in the quote asset for a
bid.  The freezes of an account are one number for each asset, shared by all
its orders in all pools.
-/

variable {w : Nat} {Account Asset : Type}

namespace Pool

/-- The amount that should be frozen for an order. -/
def collateral
    (pool : Pool w Account)
    (isBid : Bool)
    (price quantity : Nat) : Nat :=
  if isBid then pool.exactValue price quantity else quantity

section Backing

variable [DecidableEq Account]

/-- What an order contributes to the collateral of an account. -/
def atStake
    (pool : Pool w Account)
    (isBid : Bool)
    (who : Account)
    (price : BitVec w)
    (owner : Account)
    (quantity : Nat) : Nat :=
  if owner = who then pool.collateral isBid price.toNat quantity else 0

variable [DecidableEq Asset]

/-- The collateral of an account's resting orders on one side. -/
def sideBacking
    (pool : Pool w Account)
    (id : Asset × Asset)
    (asset : Asset)
    (who : Account)
    (isBid : Bool) : Nat :=
  if collateralAsset isBid id = asset then
    (pool.getOrderbook isBid).worth (pool.atStake isBid who)
  else
    0

/-- The collateral of an account's resting orders in a pool. -/
def backing
    (pool : Pool w Account)
    (id : Asset × Asset)
    (asset : Asset)
    (who : Account) : Nat :=
  pool.sideBacking id asset who false + pool.sideBacking id asset who true

/-- The collateral that fills of a taker release to an account. -/
def owed
    (pool : Pool w Account)
    (isBid : Bool)
    (id : Asset × Asset)
    (asset : Asset)
    (who : Account)
    (fills : FilledOrders w Account) : Nat :=
  (fills.map fun fill =>
    if collateralAsset (!isBid) id = asset then
      pool.atStake (!isBid) who fill.2.1 fill.1 fill.2.2.toNat
    else
      0).sum

end Backing

/-- The worth of a bid can be computed without overflow. -/
def BidFits
    (isBid : Bool)
    (price : BitVec w)
    (_ : Account)
    (quantity : Nat) : Prop :=
  isBid = true → price.toNat * quantity < 2 ^ w

theorem downward_bidFits (isBid : Bool) (price : BitVec w) :
    Tick.Downward (BidFits isBid price : Account → Nat → Prop) := by
  intro owner less more smaller fits bid
  exact Nat.lt_of_le_of_lt (Nat.mul_le_mul_left _ smaller) (fits bid)

variable {pool next : Pool w Account} {books : Bool → PriceMap w Account}

theorem SameTerms.collateral
    (same : pool.SameTerms next)
    (isBid : Bool) : next.collateral isBid = pool.collateral isBid := by
  funext price quantity
  simp only [Pool.collateral, Pool.exactValue, same.bookScale]

section Backing

variable [DecidableEq Account] [DecidableEq Asset]

theorem SameTerms.atStake
    (same : pool.SameTerms next)
    (isBid : Bool)
    (who : Account) :
    next.atStake isBid who = pool.atStake isBid who := by
  funext price owner quantity
  simp only [Pool.atStake, same.collateral]

theorem SameTerms.owed
    (same : pool.SameTerms next)
    (isBid : Bool)
    (id : Asset × Asset)
    (asset : Asset)
    (who : Account)
    (fills : FilledOrders w Account) :
    next.owed isBid id asset who fills =
      pool.owed isBid id asset who fills := by
  simp only [Pool.owed, same.atStake]

theorem superadditive_atStake
    (pool : Pool w Account)
    (isBid : Bool)
    (who : Account)
    (price : BitVec w) :
    Tick.Superadditive (pool.atStake isBid who price) := by
  intro owner first second
  unfold Pool.atStake Pool.collateral
  split
  · cases isBid with
    | true =>
        exact pool.exactValue_superadditive _ _ _
    | false =>
        exact Nat.le_refl _
  · exact Nat.le_refl _

theorem flow_collateral
    (pool : Pool w Account)
    (isBid : Bool)
    (id : Asset × Asset)
    (asset : Asset)
    (who owner : Account)
    (price : BitVec w)
    (quantity : Nat) :
    Ledger.flow (collateralAsset isBid id) owner
        (pool.collateral isBid price.toNat quantity) asset who =
      if collateralAsset isBid id = asset then
        pool.atStake isBid who price owner quantity
      else
        0 := by
  simp only [Ledger.flow, Pool.atStake, ite_and, eq_comm]

/-- The collateral of a side, read off the price map of that side. -/
theorem Refines.sideBacking_eq
    (refines : pool.Refines books)
    (id : Asset × Asset)
    (asset : Asset)
    (who : Account)
    (isBid : Bool) :
    pool.sideBacking id asset who isBid =
      if collateralAsset isBid id = asset then
        (books isBid).worth (pool.atStake isBid who)
      else
        0 := by
  unfold sideBacking
  rw [(refines isBid).worth_eq]

/--
A change of one side changes the collateral by what the change of that side's
map weighs: `given` is what leaves the book, `taken` what enters it.
-/
theorem backing_of_update
    (refines : pool.Refines books)
    (sameTerms : pool.SameTerms next)
    {side : Bool}
    {map : PriceMap w Account}
    (nextRefines : next.Refines (Function.update books side map))
    (id : Asset × Asset)
    (asset : Asset)
    (who : Account)
    (given taken : Nat)
    (weighs :
      map.worth (pool.atStake side who) + given ≤
        (books side).worth (pool.atStake side who) + taken) :
    next.backing id asset who +
        (if collateralAsset side id = asset then given else 0) ≤
      pool.backing id asset who +
        (if collateralAsset side id = asset then taken else 0) := by
  have changed := nextRefines.sideBacking_eq id asset who side
  have kept := nextRefines.sideBacking_eq id asset who (!side)
  rw [Function.update_self, sameTerms.atStake] at changed
  rw [Function.update_of_ne (by simp), sameTerms.atStake,
    ← refines.sideBacking_eq id asset who (!side)] at kept
  have before := refines.sideBacking_eq id asset who side
  have total :
      next.sideBacking id asset who side +
          (if collateralAsset side id = asset then given else 0) ≤
        pool.sideBacking id asset who side +
          (if collateralAsset side id = asset then taken else 0) := by
    rw [changed, before]
    split
    · exact weighs
    · exact Nat.le_refl _
  unfold backing
  cases side with
  | true =>
      rw [Bool.not_true] at kept
      omega
  | false =>
      rw [Bool.not_false] at kept
      omega

end Backing

end Pool

section Matching

variable [DecidableEq Account] [DecidableEq Asset]
  {config : Config w Account Asset} {isBid : Bool} {orderer : Account}
  {base quote : Asset} {pool : Pool w Account}
  {ledger next : Ledger w Account Asset}

/-- While an order is matched, resting orders and fills are covered by what
the collateral was before. -/
structure MatchBacked
    (isBid : Bool)
    (id : Asset × Asset)
    (pool : Pool w Account)
    (ledger : Ledger w Account Asset)
    (state : MatchState w Account Asset) : Prop where
  matching : MatchKeeps Pool.BidFits isBid pool state
  sameFrozen : state.ledger.frozen = ledger.frozen
  covered :
    ∀ asset who,
      state.pool.backing id asset who +
          pool.owed isBid id asset who state.filledOrders ≤
        pool.backing id asset who

/-- What the fills of one price release. -/
theorem Pool.owed_at_price
    (pool : Pool w Account)
    (isBid : Bool)
    (id : Asset × Asset)
    (asset : Asset)
    (who : Account)
    (price : BitVec w)
    (fills : Fills w Account) :
    pool.owed isBid id asset who
        (fills.map fun fill => (fill.1, price, fill.2)) =
      if collateralAsset (!isBid) id = asset then
        Tick.fillsWorth (pool.atStake (!isBid) who price) fills
      else
        0 := by
  unfold Pool.owed Tick.fillsWorth
  rw [List.map_map]
  by_cases same : collateralAsset (!isBid) id = asset
  · simp only [same, ↓reduceIte]
    rfl
  · simp [same, Function.comp_def]

theorem Pool.owed_append
    (pool : Pool w Account)
    (isBid : Bool)
    (id : Asset × Asset)
    (asset : Asset)
    (who : Account)
    (first second : FilledOrders w Account) :
    pool.owed isBid id asset who (first ++ second) =
      pool.owed isBid id asset who first +
        pool.owed isBid id asset who second := by
  simp [Pool.owed]

theorem MatchBacked.doFillBook
    (width : 0 < w)
    {id : Asset × Asset}
    {price : BitVec w}
    {state reached : MatchState w Account Asset}
    (backed : MatchBacked isBid id pool ledger state)
    (filled : HybridOrderbook.doFillBook isBid price state = .ok reached) :
    MatchBacked isBid id pool ledger reached := by
  obtain ⟨books, keeps⟩ := backed.matching.keeps
  have fills := fillsBook_of_doFillBook width keeps.refines filled
  refine ⟨backed.matching.doFillBook width Pool.downward_bidFits filled,
    ?_, ?_⟩
  · rw [fills.ledger]
    exact backed.sameFrozen
  · intro asset who
    have lighter := PriceMap.worth_fillOrder_le
      (state.pool.superadditive_atStake (!isBid) who) (books !isBid) price
      state.remainOrders
    have split := Pool.backing_of_update keeps.refines fills.sameTerms
      fills.refines id asset who _ 0 lighter
    rw [ite_self, Nat.add_zero] at split
    have covered := backed.covered asset who
    rw [fills.filledOrders, Pool.owed_append, Pool.owed_at_price,
      ← backed.matching.sameTerms.atStake]
    omega

theorem MatchBacked.fillFromPool
    {id : Asset × Asset}
    {quantity : BitVec w}
    {state reached : MatchState w Account Asset}
    (backed : MatchBacked isBid id pool ledger state)
    (filled :
      config.fillFromPool isBid orderer base quote quantity state =
        .ok reached) :
    MatchBacked isBid id pool ledger reached := by
  obtain ⟨swapped, shape⟩ := Config.fillFromPool_eq_ok filled
  obtain ⟨_, _, _, _, _, _, frozen⟩ := Config.doFillPool_eq_ok swapped
  refine ⟨backed.matching.fillFromPool filled,
    frozen.trans backed.sameFrozen, ?_⟩
  rw [shape]
  exact backed.covered

/-- Matching keeps the resting orders and all its fills covered. -/
theorem matchBacked_of_matchOrders
    (width : 0 < w)
    (id : Asset × Asset)
    {books : Bool → PriceMap w Account}
    (keeps : pool.Keeps Pool.BidFits books)
    {orderQuantity : BitVec w}
    {final : MatchState w Account Asset}
    (matched :
      config.matchOrders isBid orderer base quote pool orderQuantity
        ledger = .ok final) :
    MatchBacked isBid id pool ledger final := by
  refine Config.matchOrders_invariant
    (MatchBacked isBid id pool ledger) ?_ ?_ ?_ matched
  · intro state next quantity backed _ filled
    exact backed.fillFromPool filled
  · intro state next price index backed _ _ filled
    exact backed.doFillBook width filled
  · refine ⟨keeps.matching isBid orderQuantity ledger, rfl, ?_⟩
    intro asset who
    simp [Pool.owed]

omit [DecidableEq Account] [DecidableEq Asset] in
theorem Pool.freezeAmount_eq
    (wide : 64 ≤ w)
    (config : Config w Account Asset)
    (scaleFits : pool.bookScale < 2 ^ 64)
    {owner : Account}
    {price quantity : BitVec w}
    (fits : Pool.BidFits isBid price owner quantity.toNat) :
    pool.freezeAmount isBid price.toNat quantity.toNat =
      pool.collateral isBid price.toNat quantity.toNat := by
  cases isBid with
  | true =>
      obtain ⟨value, valued, exact⟩ :=
        config.quoteValue_eq wide scaleFits (fits rfl)
      exact (Config.toNat_of_quoteValue wide valued).symm.trans exact
  | false =>
      rfl

omit [DecidableEq Account] [DecidableEq Asset] in
/-- What settling releases is the collateral of the filled quantity. -/
theorem Config.releaseAmount_eq
    (wide : 64 ≤ w)
    (config : Config w Account Asset)
    (scaleFits : pool.bookScale < 2 ^ 64)
    {owner : Account}
    {price quantity : BitVec w}
    (fits : Pool.BidFits (!isBid) price owner quantity.toNat) :
    ∃ released,
      config.releaseAmount isBid pool price quantity = .ok released ∧
        released.toNat =
          pool.collateral (!isBid) price.toNat quantity.toNat := by
  cases isBid with
  | true =>
      exact ⟨quantity, rfl, rfl⟩
  | false =>
      exact config.quoteValue_eq wide scaleFits (fits rfl)

/-- Settling releases what the fills are owed. -/
theorem Config.frozen_of_handleFilledOrders
    (wide : 64 ≤ w)
    (scaleFits : pool.bookScale < 2 ^ 64)
    {fills : FilledOrders w Account}
    (fit :
      ∀ fill ∈ fills,
        Pool.BidFits (!isBid) fill.2.1 fill.1 fill.2.2.toNat)
    (settled :
      config.handleFilledOrders isBid orderer base quote pool fills ledger =
        .ok next)
    (asset : Asset)
    (who : Account) :
    (next.frozen asset who).toNat +
        pool.owed isBid (base, quote) asset who fills =
      (ledger.frozen asset who).toNat := by
  induction fills generalizing ledger with
  | nil =>
      simp only [handleFilledOrders, List.foldlM_nil] at settled
      cases settled
      simp [Pool.owed]
  | cons fill rest inductionHypothesis =>
      rcases fill with ⟨owner, price, quantity⟩
      simp only [handleFilledOrders, List.foldlM_cons,
        bind_eq_ok_iff] at settled
      obtain ⟨middle, settledFirst, settledRest⟩ := settled
      have later := inductionHypothesis
        (fun fill member => fit fill (List.mem_cons_of_mem _ member))
        settledRest
      obtain ⟨released, computed, _, thawed⟩ := settleFill_eq_ok settledFirst
      obtain ⟨amount, exact, worth⟩ := config.releaseAmount_eq wide scaleFits
        (fit _ (List.mem_cons_self ..))
      have same : amount = released := by
        simpa [exact] using computed
      have location :
          (if isBid then base else quote) =
            collateralAsset (!isBid) (base, quote) := by
        cases isBid <;> rfl
      have here :
          Ledger.flow (if isBid then base else quote) owner released.toNat
              asset who =
            pool.owed isBid (base, quote) asset who
              [(owner, price, quantity)] := by
        rw [← same, worth, location, pool.flow_collateral]
        simp [Pool.owed]
      have together := pool.owed_append isBid (base, quote) asset who
        [(owner, price, quantity)] rest
      have first := thawed asset who
      rw [List.singleton_append] at together
      omega

/-- Settling underflows only where less is frozen than it releases. -/
theorem Config.settleFill_underflow
    {owner : Account}
    {price quantity released : BitVec w}
    (computed :
      config.releaseAmount isBid pool price quantity = .ok released)
    (failed :
      config.settleFill isBid orderer base quote pool ledger
        (owner, price, quantity) = .error (.error .arithmeticUnderflow)) :
    ledger.frozen (collateralAsset (!isBid) (base, quote)) owner <
      released := by
  cases isBid with
  | true =>
      simp only [releaseAmount, ↓reduceIte, Except.ok.injEq] at computed
      subst computed
      simpa [settleFill, decreaseFrozen, transfer, bind_eq_error_iff,
        ensure_eq_error_iff, collateralAsset] using failed
  | false =>
      simp only [releaseAmount, Bool.false_eq_true, ↓reduceIte] at computed
      simpa [settleFill, decreaseFrozen, transfer, bind_eq_error_iff,
        ensure_eq_error_iff, collateralAsset, computed] using failed

end Matching

section Storage

variable [DecidableEq Account] [DecidableEq Asset]
  {config : Config w Account Asset} {storage next : Storage w Account Asset}

/-- The collateral of an account's resting orders in the pool of an id. -/
def Storage.backingIn
    (storage : Storage w Account Asset)
    (asset : Asset)
    (who : Account)
    (id : Asset × Asset) : Nat :=
  match storage.pools id with
  | some pool => pool.backing id asset who
  | none => 0

/-- The collateral of an account's resting orders, over a set of pools. -/
def Storage.backing
    (storage : Storage w Account Asset)
    (ids : Finset (Asset × Asset))
    (asset : Asset)
    (who : Account) : Nat :=
  ∑ id ∈ ids, storage.backingIn asset who id

/-- The freezes of every account cover its resting orders in all pools. -/
def Storage.Covered (storage : Storage w Account Asset) : Prop :=
  ∀ ids asset who,
    storage.backing ids asset who ≤ (storage.ledger.frozen asset who).toNat

/-- Replacing a pool replaces its part of the collateral. -/
theorem Storage.backing_update
    {id : Asset × Asset}
    {pool : Pool w Account}
    (nextPool : Pool w Account)
    (ledger : Ledger w Account Asset)
    {ids : Finset (Asset × Asset)}
    (found : storage.pools id = some pool)
    (member : id ∈ ids)
    (asset : Asset)
    (who : Account) :
    (storage.update id nextPool ledger).backing ids asset who +
        pool.backing id asset who =
      storage.backing ids asset who + nextPool.backing id asset who := by
  have others :
      ∀ other ∈ ids.erase id,
        (storage.update id nextPool ledger).backingIn asset who other =
          storage.backingIn asset who other := by
    intro other listed
    unfold Storage.backingIn
    rw [Storage.pools_update_of_ne (Finset.ne_of_mem_erase listed)]
  have here :
      (storage.update id nextPool ledger).backingIn asset who id =
        nextPool.backing id asset who := by
    simp [Storage.backingIn]
  have before :
      storage.backingIn asset who id = pool.backing id asset who := by
    simp [Storage.backingIn, found]
  have split := Finset.add_sum_erase ids (storage.backingIn asset who) member
  unfold Storage.backing
  rw [← Finset.add_sum_erase ids _ member, Finset.sum_congr rfl others, here,
    ← split, before]
  ring

/-- Pools may be replaced one at a time, if the freezes follow. -/
theorem Storage.Covered.update
    {id : Asset × Asset}
    {pool nextPool : Pool w Account}
    {ledger : Ledger w Account Asset}
    (covered : storage.Covered)
    (found : storage.pools id = some pool)
    (follows :
      ∀ asset who,
        nextPool.backing id asset who +
            (storage.ledger.frozen asset who).toNat ≤
          pool.backing id asset who + (ledger.frozen asset who).toNat) :
    (storage.update id nextPool ledger).Covered := by
  intro ids asset who
  -- the set may miss the pool, but its collateral counts all the same
  have subset :
      (storage.update id nextPool ledger).backing ids asset who ≤
        (storage.update id nextPool ledger).backing (insert id ids)
          asset who :=
    Finset.sum_le_sum_of_subset (Finset.subset_insert id ids)
  have replaced := Storage.backing_update nextPool ledger found
    (Finset.mem_insert_self id ids) asset who
  have before := covered (insert id ids) asset who
  have after := follows asset who
  rw [Storage.ledger_update]
  omega

/--
The invariant of runs: the worth of every resting bid can be computed without
overflow, and the freezes cover the resting orders.
-/
structure Storage.Backed (storage : Storage w Account Asset) : Prop where
  keeps : storage.Keeps Pool.BidFits
  scaleFits :
    ∀ id pool, storage.pools id = some pool → pool.bookScale < 2 ^ 64
  covered : storage.Covered

/-- The product of price and quantity of a bid that is placed fits a unit. -/
def Config.PlacedBidFits
    (config : Config w Account Asset)
    (extrinsic : Extrinsic w Account Asset)
    (storage : Storage w Account Asset) : Prop :=
  ∀ base quote price quantity,
    extrinsic.call = .limitOrder base quote true price quantity →
      config.Rests storage base quote true price →
        price.toNat * quantity.toNat < 2 ^ w

theorem Storage.Backed.placed
    (wide : 64 ≤ w)
    (backed : storage.Backed)
    {base quote : Asset}
    {isBid : Bool}
    {blockNumber : Nat}
    {maker : Account}
    {price quantity : BitVec w}
    {pool nextPool : Pool w Account}
    {ledger : Ledger w Account Asset}
    (found : storage.pools (base, quote) = some pool)
    (fits : Pool.BidFits isBid price maker quantity.toNat)
    (places :
      config.doPlaceOrder blockNumber isBid maker base quote price quantity
        pool storage.ledger = .ok (nextPool, ledger)) :
    (storage.update (base, quote) nextPool ledger).Covered := by
  obtain ⟨books, keeps⟩ := backed.keeps _ _ found
  obtain ⟨⟨answer, executed⟩, _, frozen⟩ :=
    Config.doPlaceOrder_eq_ok wide places
  obtain ⟨sameTerms, orderId, refines⟩ :=
    keeps.refines.placeOrder_eq_ok (by omega) executed
  refine backed.covered.update found fun asset who => ?_
  have heavier := (books isBid).worth_placeOrder_le
    (pool.atStake isBid who) orderId maker price quantity
    (blockNumber + config.orderExpiration)
  have more := Pool.backing_of_update keeps.refines sameTerms refines
    (base, quote) asset who 0 _ heavier
  rw [ite_self, Nat.add_zero] at more
  rw [frozen, Pool.freezeAmount_eq wide config
    (backed.scaleFits _ _ found) fits, Pool.flow_collateral]
  omega

theorem Storage.Backed.canceled
    (width : 0 < w)
    (backed : storage.Backed)
    {id : Asset × Asset}
    {owner : Account}
    {price quantity : BitVec w}
    {orderId answer : OrderId}
    {pool nextPool : Pool w Account}
    (found : storage.pools id = some pool)
    (cancels :
      pool.cancelOrder owner price orderId quantity =
        .ok (answer, nextPool)) :
    (storage.update id nextPool storage.ledger).Covered := by
  obtain ⟨books, keeps⟩ := backed.keeps _ _ found
  obtain ⟨_, _, sameTerms, refines⟩ :=
    keeps.refines.cancelOrder_eq_ok width cancels
  refine backed.covered.update found fun asset who => ?_
  have lighter := (books orderId.isBid).worth_cancelOrder_le
    (pool.superadditive_atStake orderId.isBid who) owner price orderId
    quantity
  have less := Pool.backing_of_update keeps.refines sameTerms refines id
    asset who 0 0 lighter
  rw [ite_self, Nat.add_zero, Nat.add_zero] at less
  omega

theorem Storage.Backed.matched
    (wide : 64 ≤ w)
    (backed : storage.Backed)
    {base quote : Asset}
    {isBid : Bool}
    {orderer : Account}
    {quantity : BitVec w}
    {pool : Pool w Account}
    {state : MatchState w Account Asset}
    {ledger : Ledger w Account Asset}
    (found : storage.pools (base, quote) = some pool)
    (matched :
      config.matchOrders isBid orderer base quote pool quantity
        storage.ledger = .ok state)
    (settled :
      config.handleFilledOrders isBid orderer base quote state.pool
        state.filledOrders state.ledger = .ok ledger) :
    (storage.update (base, quote) state.pool ledger).Covered := by
  obtain ⟨books, keeps⟩ := backed.keeps _ _ found
  have matchBacked := matchBacked_of_matchOrders (by omega) (base, quote)
    keeps matched
  have sameTerms := matchBacked.matching.sameTerms
  refine backed.covered.update found fun asset who => ?_
  have covered := matchBacked.covered asset who
  have thawed := Config.frozen_of_handleFilledOrders wide
    (sameTerms.bookScale ▸ backed.scaleFits _ _ found)
    matchBacked.matching.fills settled asset who
  rw [sameTerms.owed, matchBacked.sameFrozen] at thawed
  omega

/-- Every call keeps the resting orders backed. -/
theorem Storage.Backed.step
    (wide : 64 ≤ w)
    {extrinsic : Extrinsic w Account Asset}
    (backed : storage.Backed)
    (fits : config.PlacedBidFits extrinsic storage)
    (stepped : config.step extrinsic storage = some next) :
    next.Backed := by
  have places : config.PlacesWith Pool.BidFits extrinsic storage := by
    intro base quote isBid price quantity called rests bid
    subst bid
    exact fits base quote price quantity called rests
  refine ⟨backed.keeps.step wide Pool.downward_bidFits places stepped,
    ?_, ?_⟩
  · intro id nextPool found
    obtain ⟨pool, origin, sameTerms⟩ := (backed.keeps.sameTerms_step wide
      Pool.downward_bidFits stepped).origin found
    rw [sameTerms.bookScale]
    exact backed.scaleFits id pool origin
  · cases Config.effect_of_step stepped with
    | deposited _ _ _ _ sameFrozen samePools =>
        intro ids asset who
        have same :
            next.backing ids asset who = storage.backing ids asset who := by
          simp only [Storage.backing, Storage.backingIn, samePools]
        rw [same, sameFrozen]
        exact backed.covered ids asset who
    | matched _ _ found matched settled updated =>
        rw [updated]
        exact backed.matched wide found matched settled
    | placed called found reserves priced rests executed updated =>
        rw [updated]
        exact backed.placed wide found
          (places _ _ _ _ _ called
            ⟨_, _, _, _, found, reserves, priced, rests⟩) executed
    | canceled _ found cancels updated =>
        rw [updated]
        exact backed.canceled (by omega) found cancels

/-- Empty books need no collateral. -/
theorem Storage.Created.backed
    (created : storage.Created)
    (scaleFits :
      ∀ id pool, storage.pools id = some pool → pool.bookScale < 2 ^ 64) :
    storage.Backed where
  keeps := created.keeps
  scaleFits := scaleFits
  covered ids asset who := by
    have nothing :
        ∀ id ∈ ids, storage.backingIn asset who id = 0 := by
      intro id _
      unfold Storage.backingIn
      split
      · rename_i pool found
        have refines := created.refines found
        simp [Pool.backing, refines.sideBacking_eq]
      · rfl
    rw [Storage.backing, Finset.sum_eq_zero nothing]
    exact Nat.zero_le _

/-- No fill of a taker finds less frozen than it releases. -/
theorem Storage.Backed.no_underflow
    (wide : 64 ≤ w)
    (backed : storage.Backed)
    {isBid : Bool}
    {orderer : Account}
    {base quote : Asset}
    {quantity : BitVec w}
    {pool : Pool w Account}
    {state : MatchState w Account Asset}
    (found : storage.pools (base, quote) = some pool)
    (matched :
      config.matchOrders isBid orderer base quote pool quantity
        storage.ledger = .ok state)
    {before after : FilledOrders w Account}
    {fill : Account × BitVec w × BitVec w}
    (shape : state.filledOrders = before ++ fill :: after)
    {middle : Ledger w Account Asset}
    (settled :
      config.handleFilledOrders isBid orderer base quote state.pool before
        state.ledger = .ok middle) :
    config.settleFill isBid orderer base quote state.pool middle fill ≠
      .error (.error .arithmeticUnderflow) := by
  intro failed
  rcases fill with ⟨owner, price, filled⟩
  obtain ⟨books, keeps⟩ := backed.keeps _ _ found
  have matchBacked := matchBacked_of_matchOrders (by omega) (base, quote)
    keeps matched
  have sameTerms := matchBacked.matching.sameTerms
  have scaleFits : state.pool.bookScale < 2 ^ 64 :=
    sameTerms.bookScale ▸ backed.scaleFits _ _ found
  have fit := matchBacked.matching.fills
  have covered := matchBacked.covered
    (collateralAsset (!isBid) (base, quote)) owner
  rw [shape] at fit covered
  -- the account holds the collateral of this fill and of those before it
  have held := backed.covered {(base, quote)}
    (collateralAsset (!isBid) (base, quote)) owner
  have thawed := Config.frozen_of_handleFilledOrders wide scaleFits
    (fun fill member => fit fill (List.mem_append_left _ member)) settled
    (collateralAsset (!isBid) (base, quote)) owner
  have fitsHere : Pool.BidFits (!isBid) price owner filled.toNat :=
    fit (owner, price, filled) (by simp)
  obtain ⟨released, computed, worth⟩ := config.releaseAmount_eq wide
    scaleFits fitsHere
  have short := Config.settleFill_underflow computed failed
  rw [BitVec.lt_def, worth, sameTerms.collateral] at short
  rw [sameTerms.owed, matchBacked.sameFrozen] at thawed
  rw [Storage.backing, Finset.sum_singleton, Storage.backingIn, found] at held
  rw [← List.singleton_append, Pool.owed_append, Pool.owed_append] at covered
  have here :
      pool.owed isBid (base, quote)
          (collateralAsset (!isBid) (base, quote)) owner
          [(owner, price, filled)] =
        pool.collateral (!isBid) price.toNat filled.toNat := by
    simp [Pool.owed, Pool.atStake]
  simp only at held
  omega

/--
In every run from newly created pools, as long as the products of placed bids
fit, the freezes of every account cover its resting orders over any set of
pools, and settling the fills of a further order never finds too little
frozen.
-/
theorem restingOrders_backed_of_run
    (wide : 64 ≤ w)
    (config : Config w Account Asset)
    {start storage : Storage w Account Asset}
    (created : start.Created)
    (scaleFits :
      ∀ id pool, start.pools id = some pool → pool.bookScale < 2 ^ 64)
    (extrinsics : List (Extrinsic w Account Asset))
    (fits : Run.Along config.step config.PlacedBidFits extrinsics start)
    (ran : Run.run config.step extrinsics start = some storage) :
    (∀ ids asset who,
      storage.backing ids asset who ≤
        (storage.ledger.frozen asset who).toNat) ∧
      ∀ isBid orderer base quote pool quantity state before fill after
          middle,
        storage.pools (base, quote) = some pool →
          config.matchOrders isBid orderer base quote pool quantity
              storage.ledger = .ok state →
            state.filledOrders = before ++ fill :: after →
              config.handleFilledOrders isBid orderer base quote state.pool
                  before state.ledger = .ok middle →
                config.settleFill isBid orderer base quote state.pool middle
                    fill ≠ .error (.error .arithmeticUnderflow) := by
  have backed : storage.Backed :=
    Run.run_invariant_along
      (fun _ _ _ holds condition stepped =>
        holds.step wide condition stepped)
      (created.backed scaleFits) fits ran
  refine ⟨backed.covered, ?_⟩
  intro isBid orderer base quote pool quantity state before fill after middle
    found matched shape settled
  exact backed.no_underflow wide found matched shape settled

/-- A bid is placed, partly filled by a market order, and partly cancelled. -/
theorem restingOrders_backed_of_short_run :
    ∃ storage : Storage 64 Config.MockAccount Nat,
      Run.run Config.mock.step
          [⟨.inl 1, 1, .limitOrder 0 1 true 15 4⟩,
            ⟨.inl 2, 2, .marketOrder 0 1 1 false⟩,
            ⟨.inl 1, 3, .cancelOrder 0 1 15 0 1⟩]
          (Storage.mock (Pool.new 0 1 1 1 0 0) 100000 165000) =
        some storage ∧
      storage.backing {(0, 1)} 1 (.inl 1) ≤
        (storage.ledger.frozen 1 (.inl 1)).toNat := by
  have succeeds :
      (Run.run Config.mock.step
        [⟨.inl 1, 1, .limitOrder 0 1 true 15 4⟩,
          ⟨.inl 2, 2, .marketOrder 0 1 1 false⟩,
          ⟨.inl 1, 3, .cancelOrder 0 1 15 0 1⟩]
        (Storage.mock (Pool.new 0 1 1 1 0 0) 100000 165000)).isSome =
        true := by
    decide
  refine ⟨_, (Option.some_get succeeds).symm, ?_⟩
  refine (restingOrders_backed_of_run (by decide) Config.mock
    (Storage.created_mock 0 1 1 1 0 0 100000 165000) ?_ _
    (Run.along_of_forall ?_ _) (Option.some_get succeeds).symm).1 _ _ _
  · intro id pool found
    simp only [Storage.mock, Option.ite_none_right_eq_some,
      Option.some.injEq] at found
    rw [← found.2]
    decide
  · intro extrinsic member state base quote price quantity called _
    simp only [List.mem_cons, List.not_mem_nil, or_false] at member
    rcases member with rfl | rfl | rfl
    · simp only [Call.limitOrder.injEq] at called
      obtain ⟨_, _, _, rfl, rfl⟩ := called
      decide
    · cases called
    · cases called

end Storage

end HybridOrderbook
