import HybridOrderbook.Books
import HybridOrderbook.Calls

namespace HybridOrderbook

open Library

/-!
# What a call does

A call that succeeds has deposited liquidity, matched an order, placed one or
cancelled one.  `Config.Effect` lists the four cases with what each of them
has read and written, so that an invariant is shown once for each case.
-/

variable {w : Nat} {Account Asset : Type} [DecidableEq Account]
  [DecidableEq Asset]

/-- The asset that is frozen for an order of the given side. -/
def collateralAsset (isBid : Bool) (id : Asset × Asset) : Asset :=
  if isBid then id.2 else id.1

/-- What placing an order freezes, with the results reduced to their width. -/
def Pool.freezeAmount
    (pool : Pool w Account)
    (isBid : Bool)
    (price quantity : Nat) : Nat :=
  if isBid then pool.wrappedValue price quantity else quantity

/-- What a limit order is compared with, and the decision to match it. -/
def Config.Decides
    (config : Config w Account Asset)
    (storage : Storage w Account Asset)
    (base quote : Asset)
    (isBid : Bool)
    (price : BitVec w)
    (decision : Bool) : Prop :=
  ∃ pool baseReserve quoteReserve poolPrice,
    storage.pools (base, quote) = some pool ∧
      config.getReserves storage.ledger base quote =
        .ok (baseReserve, quoteReserve) ∧
      config.poolPrice pool baseReserve quoteReserve = .ok poolPrice ∧
      Config.shouldMatchOrder isBid price poolPrice = decision

omit [DecidableEq Account] in
theorem Config.Decides.unique
    {config : Config w Account Asset}
    {storage : Storage w Account Asset}
    {base quote : Asset}
    {isBid decision other : Bool}
    {price : BitVec w}
    (decides : config.Decides storage base quote isBid price decision)
    (otherDecides : config.Decides storage base quote isBid price other) :
    decision = other := by
  obtain ⟨pool, baseReserve, quoteReserve, poolPrice, found, reserves, priced,
    decided⟩ := decides
  obtain ⟨_, _, _, _, otherFound, otherReserves, otherPriced, otherDecided⟩ :=
    otherDecides
  rw [found, Option.some.injEq] at otherFound
  subst otherFound
  rw [reserves, Except.ok.injEq, Prod.mk.injEq] at otherReserves
  obtain ⟨rfl, rfl⟩ := otherReserves
  rw [priced, Except.ok.injEq] at otherPriced
  subst otherPriced
  exact decided.symm.trans otherDecided

/-- A limit order does not cross the price of the pool, and is placed. -/
def Config.Rests
    (config : Config w Account Asset)
    (storage : Storage w Account Asset)
    (base quote : Asset)
    (isBid : Bool)
    (price : BitVec w) : Prop :=
  config.Decides storage base quote isBid price false

/-- The effect of a call that succeeds. -/
inductive Config.Effect
    (config : Config w Account Asset)
    (extrinsic : Extrinsic w Account Asset)
    (storage next : Storage w Account Asset) : Prop where
  | deposited
      {base quote : Asset}
      {baseDesired quoteDesired baseMin quoteMin : BitVec w}
      {mintTo : Account}
      {baseAmount quoteAmount : BitVec w}
      (called :
        extrinsic.call = .addLiquidity base quote baseDesired quoteDesired
          baseMin quoteMin mintTo)
      (differentAssets : base ≠ quote)
      (amounts :
        Config.depositAmounts
            (config.getBalance storage.ledger
              (config.address (base, quote)) base)
            (config.getBalance storage.ledger
              (config.address (base, quote)) quote)
            baseDesired quoteDesired baseMin quoteMin =
          .ok (baseAmount, quoteAmount))
      (moves :
        storage.ledger.Moves next.ledger
          (Ledger.flow base extrinsic.signer baseAmount.toNat +
            Ledger.flow quote extrinsic.signer quoteAmount.toNat)
          (Ledger.flow base (config.address (base, quote))
              baseAmount.toNat +
            Ledger.flow quote (config.address (base, quote))
              quoteAmount.toNat))
      (sameFrozen : next.ledger.frozen = storage.ledger.frozen)
      (samePools : next.pools = storage.pools)
  | matched
      {base quote : Asset}
      {isBid : Bool}
      {quantity : BitVec w}
      {pool : Pool w Account}
      {state : MatchState w Account Asset}
      {ledger : Ledger w Account Asset}
      (called :
        extrinsic.call = .marketOrder base quote quantity isBid ∨
          ∃ price,
            extrinsic.call = .limitOrder base quote isBid price quantity ∧
              config.Decides storage base quote isBid price true)
      (differentAssets : base ≠ quote)
      (found : storage.pools (base, quote) = some pool)
      (matched :
        config.matchOrders isBid extrinsic.signer base quote pool quantity
          storage.ledger = .ok state)
      (settled :
        config.handleFilledOrders isBid extrinsic.signer base quote
          state.pool state.filledOrders state.ledger = .ok ledger)
      (updated : next = storage.update (base, quote) state.pool ledger)
  | placed
      {base quote : Asset}
      {isBid : Bool}
      {price quantity : BitVec w}
      {pool nextPool : Pool w Account}
      {ledger : Ledger w Account Asset}
      {baseReserve quoteReserve poolPrice : BitVec w}
      (called :
        extrinsic.call = .limitOrder base quote isBid price quantity)
      (found : storage.pools (base, quote) = some pool)
      (reserves :
        config.getReserves storage.ledger base quote =
          .ok (baseReserve, quoteReserve))
      (priced :
        config.poolPrice pool baseReserve quoteReserve = .ok poolPrice)
      (rests : Config.shouldMatchOrder isBid price poolPrice = false)
      (places :
        config.doPlaceOrder extrinsic.blockNumber isBid extrinsic.signer base
          quote price quantity pool storage.ledger = .ok (nextPool, ledger))
      (updated : next = storage.update (base, quote) nextPool ledger)
  | canceled
      {base quote : Asset}
      {price quantity : BitVec w}
      {orderId answer : OrderId}
      {pool nextPool : Pool w Account}
      (called :
        extrinsic.call = .cancelOrder base quote price orderId quantity)
      (found : storage.pools (base, quote) = some pool)
      (cancels :
        pool.cancelOrder extrinsic.signer price orderId quantity =
          .ok (answer, nextPool))
      (updated :
        next = storage.update (base, quote) nextPool storage.ledger)

namespace Config

variable {config : Config w Account Asset}
  {extrinsic : Extrinsic w Account Asset}
  {storage next : Storage w Account Asset}

theorem effect_of_addLiquidity
    {base quote : Asset}
    {baseDesired quoteDesired baseMin quoteMin : BitVec w}
    {mintTo : Account}
    (called :
      extrinsic.call = .addLiquidity base quote baseDesired quoteDesired
        baseMin quoteMin mintTo)
    (added :
      config.addLiquidity extrinsic.signer base quote baseDesired
        quoteDesired baseMin quoteMin mintTo storage = .ok next) :
    config.Effect extrinsic storage next := by
  simp only [addLiquidity, bind_eq_ok_iff, ensure_eq_ok_iff, exists_const,
    poolId_eq_ok_iff, okOr_eq_ok_iff] at added
  obtain ⟨_, ⟨different, rfl⟩, _, pool, _, ⟨baseAmount, quoteAmount⟩,
    amounts, _, _, first, paidBase, second, paidQuote, issued⟩ := added
  obtain ⟨baseMoves, baseFrozen⟩ := transfer_moves paidBase
  obtain ⟨quoteMoves, quoteFrozen⟩ := transfer_moves paidQuote
  -- issuing liquidity tokens touches neither balances nor freezes
  have kept :
      next.pools = storage.pools ∧ next.ledger.balance = second.balance ∧
        next.ledger.frozen = second.frozen := by
    split at issued
    · simp only [bind_eq_ok_iff, ensure_eq_ok_iff, exists_const,
        Except.ok.injEq, exists_eq_left'] at issued
      obtain ⟨_, _, _, locked, _, _, minted, rfl⟩ := issued
      obtain ⟨lockedBalance, lockedFrozen⟩ := mintInto_eq_ok locked
      obtain ⟨mintedBalance, mintedFrozen⟩ := mintInto_eq_ok minted
      exact ⟨rfl, mintedBalance.trans lockedBalance,
        mintedFrozen.trans lockedFrozen⟩
    · simp only [bind_eq_ok_iff, ensure_eq_ok_iff, exists_const,
        Except.ok.injEq, exists_eq_left'] at issued
      obtain ⟨_, _, _, _, _, _, minted, rfl⟩ := issued
      obtain ⟨mintedBalance, mintedFrozen⟩ := mintInto_eq_ok minted
      exact ⟨rfl, mintedBalance, mintedFrozen⟩
  obtain ⟨samePools, sameBalances, sameFrozen⟩ := kept
  refine .deposited called different amounts ?_
    (sameFrozen.trans (quoteFrozen.trans baseFrozen)) samePools
  intro asset who
  rw [sameBalances]
  exact (baseMoves.trans quoteMoves) asset who

theorem effect_of_doLimitOrder
    {base quote : Asset}
    {isBid : Bool}
    {price quantity : BitVec w}
    (called : extrinsic.call = .limitOrder base quote isBid price quantity)
    (ordered :
      config.doLimitOrder extrinsic.blockNumber extrinsic.signer price
        quantity isBid base quote storage = .ok next) :
    config.Effect extrinsic storage next := by
  simp only [doLimitOrder, bind_eq_ok_iff, ensure_eq_ok_iff, exists_const,
    poolId_eq_ok_iff, okOr_eq_ok_iff, mapErr_eq_ok_iff] at ordered
  obtain ⟨_, ⟨different, rfl⟩, pool, found, ⟨baseReserve, quoteReserve⟩,
    reserves, poolPrice, priced, _, _, _, _, _, _, executed⟩ := ordered
  split at executed
  · rename_i crosses
    simp only [bind_eq_ok_iff, Except.ok.injEq] at executed
    obtain ⟨⟨nextPool, ledger⟩, executed, rfl⟩ := executed
    obtain ⟨state, matched, settled, rfl⟩ :=
      doMatchOrder_eq_ok_iff.mp executed
    exact .matched
      (.inr ⟨price, called, _, _, _, _, found, reserves, priced, crosses⟩)
      different found matched settled rfl
  · rename_i rests
    simp only [bind_eq_ok_iff, Except.ok.injEq] at executed
    obtain ⟨⟨nextPool, ledger⟩, placed, rfl⟩ := executed
    exact .placed called found reserves priced (Bool.eq_false_iff.mpr rests)
      placed rfl

/-- Every call that succeeds has one of the four effects. -/
theorem effect_of_step
    (stepped : config.step extrinsic storage = some next) :
    config.Effect extrinsic storage next := by
  have dispatched := toOption_eq_some_iff.mp stepped
  unfold dispatch at dispatched
  split at dispatched
  · rename_i called
    exact effect_of_addLiquidity called dispatched
  · rename_i base quote quantity isBid called
    simp only [doMarketOrder, bind_eq_ok_iff, ensure_eq_ok_iff,
      exists_const, poolId_eq_ok_iff, okOr_eq_ok_iff,
      Except.ok.injEq] at dispatched
    obtain ⟨_, _, ⟨different, rfl⟩, pool, found, _, _, _,
      ⟨nextPool, ledger⟩, executed, rfl⟩ := dispatched
    obtain ⟨state, matched, settled, rfl⟩ :=
      doMatchOrder_eq_ok_iff.mp executed
    exact .matched (.inl called) different found matched settled rfl
  · rename_i called
    exact effect_of_doLimitOrder called dispatched
  · rename_i base quote price orderId quantity called
    simp only [doCancelOrder, bind_eq_ok_iff, poolId_eq_ok_iff,
      okOr_eq_ok_iff, mapErr_eq_ok_iff, Except.ok.injEq] at dispatched
    obtain ⟨_, ⟨_, rfl⟩, pool, found, ⟨answer, nextPool⟩, canceled, rfl⟩ :=
      dispatched
    exact .canceled called found canceled rfl

/-- Placing an order freezes an amount for it, and puts it on the book. -/
theorem doPlaceOrder_eq_ok
    (wide : 64 ≤ w)
    {isBid : Bool}
    {base quote : Asset}
    {pool nextPool : Pool w Account}
    {ledger nextLedger : Ledger w Account Asset}
    {blockNumber : Nat}
    {maker : Account}
    {price quantity : BitVec w}
    (placed :
      config.doPlaceOrder blockNumber isBid maker base quote price quantity
        pool ledger = .ok (nextPool, nextLedger)) :
    (∃ answer,
      pool.placeOrder (blockNumber + config.orderExpiration) isBid maker
        price quantity = .ok (answer, nextPool)) ∧
      nextLedger.balance = ledger.balance ∧
      ∀ asset who,
        (nextLedger.frozen asset who).toNat =
          (ledger.frozen asset who).toNat +
            Ledger.flow (collateralAsset isBid (base, quote)) maker
              (pool.freezeAmount isBid price.toNat quantity.toNat)
              asset who := by
  cases isBid with
  | true =>
      simp only [doPlaceOrder, ↓reduceIte, bind_eq_ok_iff, mapErr_eq_ok_iff,
        Except.ok.injEq, Prod.mk.injEq] at placed
      obtain ⟨amount, valued, _, increased, ⟨answer, _⟩, executed, rfl,
        rfl⟩ := placed
      have exact := toNat_of_quoteValue wide valued
      obtain ⟨sameBalances, frozen⟩ := increaseFrozen_eq_ok increased
      rw [exact] at frozen
      exact ⟨⟨answer, executed⟩, sameBalances, frozen⟩
  | false =>
      simp only [doPlaceOrder, Bool.false_eq_true, ↓reduceIte,
        bind_eq_ok_iff, mapErr_eq_ok_iff, Except.ok.injEq,
        Prod.mk.injEq] at placed
      obtain ⟨_, increased, ⟨answer, _⟩, executed, rfl, rfl⟩ := placed
      obtain ⟨sameBalances, frozen⟩ := increaseFrozen_eq_ok increased
      exact ⟨⟨answer, executed⟩, sameBalances, frozen⟩

end Config

/-- All pools are newly created: their books are empty. -/
def Storage.Created (storage : Storage w Account Asset) : Prop :=
  ∀ id pool, storage.pools id = some pool →
    pool.bids = CritbitTree.new ∧ pool.asks = CritbitTree.new

omit [DecidableEq Account] in
/-- A new pool has no orders. -/
theorem Pool.refines_of_new
    {pool : Pool w Account}
    (new : pool.bids = CritbitTree.new ∧ pool.asks = CritbitTree.new) :
    pool.Refines fun _ => ∅ := by
  intro isBid
  cases isBid with
  | true =>
      have empty : pool.bids.Refines ∅ := new.1 ▸ CritbitTree.refines_new
      exact empty
  | false =>
      have empty : pool.asks.Refines ∅ := new.2 ▸ CritbitTree.refines_new
      exact empty

omit [DecidableEq Account] [DecidableEq Asset] in
theorem Storage.Created.refines
    {storage : Storage w Account Asset}
    (created : storage.Created)
    {id : Asset × Asset}
    {pool : Pool w Account}
    (found : storage.pools id = some pool) :
    pool.Refines fun _ => ∅ :=
  Pool.refines_of_new (created id pool found)

/-- The orders of all pools have a property. -/
def Storage.Keeps
    (property : Bool → BitVec w → Account → Nat → Prop)
    (storage : Storage w Account Asset) : Prop :=
  ∀ id pool, storage.pools id = some pool →
    ∃ books, pool.Keeps property books

/-- If the call places an order, the order has the property. -/
def Config.PlacesWith
    (config : Config w Account Asset)
    (property : Bool → BitVec w → Account → Nat → Prop)
    (extrinsic : Extrinsic w Account Asset)
    (storage : Storage w Account Asset) : Prop :=
  ∀ base quote isBid price quantity,
    extrinsic.call = .limitOrder base quote isBid price quantity →
      config.Rests storage base quote isBid price →
        property isBid price extrinsic.signer quantity.toNat

section Keeps

variable {config : Config w Account Asset}
  {extrinsic : Extrinsic w Account Asset}
  {storage next : Storage w Account Asset}
  {property : Bool → BitVec w → Account → Nat → Prop}

omit [DecidableEq Account] [DecidableEq Asset] in
theorem Storage.Created.keeps
    (created : storage.Created) : storage.Keeps property :=
  fun _ _ found =>
    ⟨_, created.refines found, fun _ => PriceMap.all_empty⟩

omit [DecidableEq Account] in
theorem Storage.Keeps.update
    {id : Asset × Asset}
    {pool : Pool w Account}
    (keeps : storage.Keeps property)
    (changed : ∃ books, pool.Keeps property books)
    (ledger : Ledger w Account Asset) :
    (storage.update id pool ledger).Keeps property :=
  Storage.EachPool.update keeps changed ledger

/-- Every call keeps what all orders have and placed orders bring along. -/
theorem Storage.Keeps.step
    (wide : 64 ≤ w)
    (downward : ∀ side key, Tick.Downward (property side key))
    (keeps : storage.Keeps property)
    (places : config.PlacesWith property extrinsic storage)
    (stepped : config.step extrinsic storage = some next) :
    next.Keeps property := by
  have width : 0 < w := by omega
  cases Config.effect_of_step stepped with
  | deposited _ _ _ _ _ samePools =>
      intro id pool found
      rw [samePools] at found
      exact keeps id pool found
  | matched _ _ found matched _ updated =>
      obtain ⟨books, poolKeeps⟩ := keeps _ _ found
      rw [updated]
      exact keeps.update (poolKeeps.matchOrders width downward matched).keeps
        _
  | placed called found reserves priced rests executed updated =>
      obtain ⟨⟨_, placed⟩, _⟩ := Config.doPlaceOrder_eq_ok wide executed
      obtain ⟨books, poolKeeps⟩ := keeps _ _ found
      have holds := places _ _ _ _ _ called
        ⟨_, _, _, _, found, reserves, priced, rests⟩
      rw [updated]
      exact keeps.update (poolKeeps.placeOrder width holds placed) _
  | canceled _ found cancels updated =>
      obtain ⟨books, poolKeeps⟩ := keeps _ _ found
      rw [updated]
      exact keeps.update (poolKeeps.cancelOrder width
        (fun side key => (downward side key).splits) trivial cancels) _

/-- Pools are neither added nor lost, and their parameters stay. -/
def Storage.SameTerms (storage next : Storage w Account Asset) : Prop :=
  ∀ id, Option.Rel Pool.SameTerms (storage.pools id) (next.pools id)

omit [DecidableEq Account] [DecidableEq Asset] in
theorem Storage.SameTerms.of_pools_eq
    (same : next.pools = storage.pools) : storage.SameTerms next := by
  intro id
  rw [same]
  cases storage.pools id with
  | none =>
      exact .none
  | some pool =>
      exact .some (Pool.SameTerms.refl pool)

omit [DecidableEq Account] [DecidableEq Asset] in
theorem Storage.SameTerms.origin
    (same : storage.SameTerms next)
    {id : Asset × Asset}
    {nextPool : Pool w Account}
    (found : next.pools id = some nextPool) :
    ∃ pool, storage.pools id = some pool ∧ pool.SameTerms nextPool := by
  have related := same id
  rw [found] at related
  generalize storage.pools id = origin at related
  cases related with
  | some sameTerms =>
      exact ⟨_, rfl, sameTerms⟩

omit [DecidableEq Account] in
theorem Storage.sameTerms_update
    {id : Asset × Asset}
    {pool nextPool : Pool w Account}
    (found : storage.pools id = some pool)
    (same : pool.SameTerms nextPool)
    (ledger : Ledger w Account Asset) :
    storage.SameTerms (storage.update id nextPool ledger) := by
  intro other
  by_cases here : other = id
  · subst here
    rw [Storage.pools_update_self, found]
    exact .some same
  · rw [Storage.pools_update_of_ne here]
    exact Storage.SameTerms.of_pools_eq rfl other

theorem Storage.Keeps.sameTerms_step
    (wide : 64 ≤ w)
    (downward : ∀ side key, Tick.Downward (property side key))
    (keeps : storage.Keeps property)
    (stepped : config.step extrinsic storage = some next) :
    storage.SameTerms next := by
  have width : 0 < w := by omega
  cases Config.effect_of_step stepped with
  | deposited _ _ _ _ _ samePools =>
      exact Storage.SameTerms.of_pools_eq samePools
  | matched _ _ found matched _ updated =>
      obtain ⟨books, poolKeeps⟩ := keeps _ _ found
      rw [updated]
      exact Storage.sameTerms_update found
        (poolKeeps.matchOrders width downward matched).sameTerms _
  | placed _ found _ _ _ executed updated =>
      obtain ⟨⟨_, placed⟩, _⟩ := Config.doPlaceOrder_eq_ok wide executed
      obtain ⟨books, poolKeeps⟩ := keeps _ _ found
      rw [updated]
      exact Storage.sameTerms_update found
        (poolKeeps.refines.placeOrder_eq_ok width placed).1 _
  | canceled _ found cancels updated =>
      obtain ⟨books, poolKeeps⟩ := keeps _ _ found
      rw [updated]
      exact Storage.sameTerms_update found
        (poolKeeps.refines.cancelOrder_eq_ok width cancels).2.2.1 _

omit [DecidableEq Account] [DecidableEq Asset] in
theorem downward_true (_ : Bool) (_ : BitVec w) :
    Tick.Downward fun (_ : Account) _ => True :=
  fun _ _ _ _ _ => trivial

end Keeps

theorem Storage.created_mock
    (lpToken : Nat)
    (tickSize lotSize : BitVec 64)
    (poolDecimals baseDecimals quoteDecimals : BitVec 8)
    (baseReserve quoteReserve : BitVec 64) :
    (Storage.mock
      (Pool.new lpToken tickSize lotSize poolDecimals baseDecimals
        quoteDecimals)
      baseReserve quoteReserve).Created := by
  intro id pool found
  simp only [Storage.mock, Option.ite_none_right_eq_some,
    Option.some.injEq] at found
  rw [← found.2]
  exact ⟨rfl, rfl⟩

end HybridOrderbook
