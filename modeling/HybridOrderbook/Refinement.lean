import HybridOrderbook.Capacity
import HybridOrderbook.Exchange
import HybridOrderbook.Library.Simulation
import HybridOrderbook.Registry

namespace HybridOrderbook

open Library

/-!
# The pallet refines the exchange

Every call has the same outcome on the pallet and on the exchange, as long as
no book has run out of leaf indices.  A call opens at most one level, so this
holds for the first `capacity w` calls of any run.
-/

variable {w : Nat} {Account Asset : Type} [DecidableEq Account]
  [DecidableEq Asset]

namespace Pool.SameTerms

variable {pool next : Pool w Account} {config : Config w Account Asset}

omit [DecidableEq Account] in
theorem decimalAdjustment_eq (same : pool.SameTerms next) :
    next.decimalAdjustment = pool.decimalAdjustment := by
  simp only [Pool.decimalAdjustment, same.poolDecimals, same.baseDecimals,
    same.quoteDecimals]

omit [DecidableEq Account] [DecidableEq Asset] in
theorem quoteValue_eq
    (same : pool.SameTerms next)
    (price quantity : BitVec w) :
    config.quoteValue next price quantity =
      config.quoteValue pool price quantity := by
  simp only [Config.quoteValue, same.decimalAdjustment_eq]

omit [DecidableEq Account] in
theorem findMaxSwapQuantity_eq
    (same : pool.SameTerms next)
    (isBid : Bool)
    (target : BitVec w)
    (ledger : Ledger w Account Asset)
    (base quote : Asset)
    (remainOrders : BitVec w) :
    config.findMaxSwapQuantity next isBid target ledger base quote
        remainOrders =
      config.findMaxSwapQuantity pool isBid target ledger base quote
        remainOrders := by
  have sameBody (baseReserve quoteReserve : BitVec w) :
      config.searchBody next isBid target baseReserve quoteReserve =
        config.searchBody pool isBid target baseReserve quoteReserve := by
    funext state
    simp only [Config.searchBody, Config.priceAfter,
      same.decimalAdjustment_eq, same.baseDecimals]
  simp only [Config.findMaxSwapQuantity, Config.searchLoop, sameBody]

theorem handleFilledOrders_eq
    (same : pool.SameTerms next)
    (isBid : Bool)
    (orderer : Account)
    (base quote : Asset)
    (filledOrders : FilledOrders w Account)
    (ledger : Ledger w Account Asset) :
    config.handleFilledOrders isBid orderer base quote next filledOrders
        ledger =
      config.handleFilledOrders isBid orderer base quote pool filledOrders
        ledger := by
  have sameSettle :
      config.settleFill isBid orderer base quote next =
        config.settleFill isBid orderer base quote pool := by
    funext ledger fill
    simp only [Config.settleFill, same.quoteValue_eq]
  simp only [Config.handleFilledOrders, sameSettle]

omit [DecidableEq Account] in
theorem isValidOrderPrice_eq
    (same : pool.SameTerms next)
    (price : BitVec w) :
    next.isValidOrderPrice price = pool.isValidOrderPrice price := by
  simp only [Pool.isValidOrderPrice, same.tickSize]

omit [DecidableEq Account] in
theorem isValidOrderQuantity_eq
    (same : pool.SameTerms next)
    (quantity : BitVec w) :
    next.isValidOrderQuantity quantity =
      pool.isValidOrderQuantity quantity := by
  simp only [Pool.isValidOrderQuantity, same.lotSize]

end Pool.SameTerms

/-! ## Pools and markets -/

/-- The order of the keys of price maps is the order of prices. -/
theorem isLE_compare {price other : BitVec w} (le : price ≤ other) :
    (compare price other).isLE = true := by
  have unfolds : compare price other = compareOfLessAndEq price other := rfl
  rw [unfolds, compareOfLessAndEq]
  split
  · rfl
  · rename_i notLess
    rw [if_pos (BitVec.le_antisymm le (BitVec.not_lt.mp notLess))]
    rfl

/-- A market is what a pool shows of its books and terms. -/
structure Pool.Shows
    (count : Nat)
    (pool : Pool w Account)
    (market : Market w Account) : Prop where
  refines : pool.Refines market.books
  terms : market.shell.SameTerms pool
  ids : pool.nextOrderId = market.nextOrderId
  drawn : ∀ side, (pool.getOrderbook side).drawn ≤ count

namespace Pool

omit [DecidableEq Account] in
theorem getOrderbook_setOrderbook
    (pool : Pool w Account)
    (isBid side : Bool)
    (book : OrderBook w Account) :
    (pool.setOrderbook isBid book).getOrderbook side =
      if side = isBid then book else pool.getOrderbook side := by
  cases side <;> cases isBid <;> rfl

variable {pool : Pool w Account} {isBid : Bool}

omit [DecidableEq Account] in
theorem drawNextOrderId_of_none
    (last : (pool.nextOrderId isBid).checkedIncrease = none) :
    pool.drawNextOrderId isBid = .error (.error .overflow) := by
  cases isBid with
  | true =>
      have last : pool.nextBidOrderId.checkedIncrease = none := last
      simp [drawNextOrderId, drawNextBidOrderId, last, okOr, bind,
        Except.bind]
  | false =>
      have last : pool.nextAskOrderId.checkedIncrease = none := last
      simp [drawNextOrderId, drawNextAskOrderId, last, okOr, bind,
        Except.bind]

omit [DecidableEq Account] in
theorem drawNextOrderId_of_some
    {following : OrderId}
    (increased :
      (pool.nextOrderId isBid).checkedIncrease = some following) :
    ∃ next,
      pool.drawNextOrderId isBid = .ok (pool.nextOrderId isBid, next) := by
  cases isBid with
  | true =>
      have increased : pool.nextBidOrderId.checkedIncrease = _ := increased
      simp [drawNextOrderId, drawNextBidOrderId, increased, okOr, bind,
        Except.bind, nextOrderId]
  | false =>
      have increased : pool.nextAskOrderId.checkedIncrease = _ := increased
      simp [drawNextOrderId, drawNextAskOrderId, increased, okOr, bind,
        Except.bind, nextOrderId]

end Pool

namespace Pool.Shows

variable {count : Nat} {pool : Pool w Account} {market : Market w Account}

omit [DecidableEq Account] in
theorem mono
    {more : Nat}
    (shows : pool.Shows count market)
    (le : count ≤ more) : pool.Shows more market :=
  { shows with drawn := fun side => (shows.drawn side).trans le }

omit [DecidableEq Account] in
theorem opened
    (lpToken : Nat)
    (tickSize lotSize : BitVec w)
    (poolDecimals baseDecimals quoteDecimals : BitVec 8) :
    (Pool.new lpToken tickSize lotSize poolDecimals baseDecimals
      quoteDecimals : Pool w Account).Shows count
      (.opened (Pool.new lpToken tickSize lotSize poolDecimals baseDecimals
        quoteDecimals)) where
  refines side := by
    cases side with
    | true => exact CritbitTree.refines_new
    | false => exact CritbitTree.refines_new
  terms := .refl _
  ids := by
    funext side
    cases side <;> rfl
  drawn side := by
    cases side <;> exact Nat.zero_le _

omit [DecidableEq Account] in
/-- A new book on one side, drawing no more indices than are counted. -/
theorem setOrderbook
    (shows : pool.Shows count market)
    {isBid : Bool}
    {book : OrderBook w Account}
    {map : PriceMap w Account}
    (refines : book.Refines map)
    (drawn : book.drawn ≤ count) :
    (pool.setOrderbook isBid book).Shows count
      (market.setBook isBid map) where
  refines := shows.refines.setOrderbook refines
  terms := shows.terms.trans (sameTerms_setOrderbook pool isBid book)
  ids := by
    rw [nextOrderId_setOrderbook]
    exact shows.ids
  drawn side := by
    rw [getOrderbook_setOrderbook]
    split
    · exact drawn
    · exact shows.drawn side

/-- Pool and market name the same best price. -/
theorem nextOrder_eq
    (shows : pool.Shows count market)
    (isBid : Bool) :
    (pool.nextOrder isBid).map Prod.fst = market.nextPrice isBid := by
  cases isBid with
  | true =>
      rcases shows.refines.nextOrder_eq true with
        ⟨empty, none⟩ | ⟨price, index, best, member, least⟩
      · rw [none]
        exact (Std.ExtTreeMap.minKey?_eq_none_iff.mpr empty).symm
      · rw [best]
        refine (Std.ExtTreeMap.minKey?_eq_some_iff_mem_and_forall.mpr
          ⟨member, fun other found => ?_⟩).symm
        exact isLE_compare (least other found)
  | false =>
      rcases shows.refines.nextOrder_eq false with
        ⟨empty, none⟩ | ⟨price, index, best, member, greatest⟩
      · rw [none]
        exact (Std.ExtTreeMap.maxKey?_eq_none_iff.mpr empty).symm
      · rw [best]
        refine (Std.ExtTreeMap.maxKey?_eq_some_iff_mem_and_forall.mpr
          ⟨member, fun other found => ?_⟩).symm
        exact isLE_compare (greatest other found)

omit [DecidableEq Account] in
theorem fillOrder
    (width : 0 < w)
    (shows : pool.Shows count market)
    (isBid : Bool)
    (price quantity : BitVec w) :
    ∃ filled next,
      pool.fillOrder isBid price quantity = .ok (filled, next) ∧
        filled.getD [] = (market.fillOrder isBid price quantity).1 ∧
        next.Shows count (market.fillOrder isBid price quantity).2 := by
  obtain ⟨reached, executed, refines⟩ :=
    (shows.refines !isBid).fillOrder_eq width price quantity
  have drawn : reached.drawn ≤ count := by
    have lowered := CritbitTree.drawn_fillOrder_le
      (pool.getOrderbook !isBid) price quantity
    rw [executed] at lowered
    exact lowered.trans (shows.drawn _)
  refine ⟨_, pool.setOrderbook (!isBid) reached, ?_, rfl,
    shows.setOrderbook refines drawn⟩
  rw [fillOrder_side, executed]
  rfl

omit [DecidableEq Account] in
/-- Placing fails alike: there is an index for the level. -/
theorem placeOrder
    (width : 0 < w)
    (room : count < (capacity w).toNat)
    (shows : pool.Shows count market)
    (expiredAt : Nat)
    (isBid : Bool)
    (owner : Account)
    (price quantity : BitVec w) :
    Alike (fun answered => Shows (count + 1) answered.2)
      (mapErr (fun _ => PalletError.errorOnPlaceOrder)
        (pool.placeOrder expiredAt isBid owner price quantity))
      (market.placeOrder expiredAt isBid owner price quantity) := by
  rw [placeOrder_side, Market.placeOrder, ← shows.ids]
  cases increased : (pool.nextOrderId isBid).checkedIncrease with
  | none =>
      rw [drawNextOrderId_of_none increased]
      exact .error _
  | some following =>
      obtain ⟨drawn, drew⟩ := drawNextOrderId_of_some increased
      obtain ⟨_, ⟨_, increases, counters⟩, sameTerms, sameBooks⟩ :=
        drawNextOrderId_eq_ok drew
      obtain rfl : following = _ :=
        Option.some.inj (increased.symm.trans increases)
      have drawnShows : drawn.Shows count { market with
          nextOrderId := Function.update pool.nextOrderId isBid following } :=
        { refines := fun side => sameBooks side ▸ shows.refines side
          terms := shows.terms.trans sameTerms
          ids := counters
          drawn := fun side => sameBooks side ▸ shows.drawn side }
      have below : (drawn.getOrderbook isBid).nextLeafNodeIndex <
          capacity w :=
        BitVec.lt_def.mpr ((drawnShows.drawn isBid).trans_lt room)
      rcases (drawnShows.refines isBid).placeOrder_eq width
          (pool.nextOrderId isBid) owner price quantity expiredAt with
        ⟨reached, executed, reachedRefines⟩ | ⟨_, full, _⟩
      · have oneMore : reached.drawn ≤ count + 1 := by
          have raised := CritbitTree.drawn_placeOrder_le
            (drawn.getOrderbook isBid) (pool.nextOrderId isBid) owner price
            quantity expiredAt
          rw [executed] at raised
          exact raised.trans (Nat.succ_le_succ (drawnShows.drawn isBid))
        simp only [drew, bind, Except.bind, executed]
        exact .ok ((drawnShows.mono (Nat.le_succ count)).setOrderbook
          reachedRefines oneMore)
      · exact absurd below full

/-- Cancelling fails alike. -/
theorem cancelOrder
    (width : 0 < w)
    (shows : pool.Shows count market)
    (maybeOwner : Account)
    (price : BitVec w)
    (orderId : OrderId)
    (quantity : BitVec w) :
    Alike (fun answered => Shows count answered.2)
      (mapErr (fun _ => PalletError.errorOnCancelOrder)
        (pool.cancelOrder maybeOwner price orderId quantity))
      (market.cancelOrder maybeOwner price orderId quantity) := by
  obtain ⟨reached, executed, refines⟩ :=
    (shows.refines orderId.isBid).cancelOrder_eq width maybeOwner price
      orderId quantity
  have drawn : reached.drawn ≤ count := by
    have lowered := CritbitTree.drawn_cancelOrder_le
      (pool.getOrderbook orderId.isBid) maybeOwner price orderId quantity
    rw [executed] at lowered
    exact lowered.trans (shows.drawn _)
  rw [cancelOrder_side, executed, Market.cancelOrder]
  simp only
  cases ((market.books orderId.isBid).cancelOrder maybeOwner price orderId
      quantity).1 with
  | ok canceled =>
      exact .ok (shows.setOrderbook refines drawn)
  | error fault =>
      cases fault with
      | error error => exact .error _
      | panic => exact .error _
      | diverge => exact .error _

end Pool.Shows

/-! ## Matching -/

/-- The variables of matching agree, up to the books. -/
structure MatchState.Shows
    (count : Nat)
    (state : MatchState w Account Asset)
    (other : Matching w Account Asset) : Prop where
  remainOrders : state.remainOrders = other.remainOrders
  pool : state.pool.Shows count other.market
  ledger : state.ledger = other.ledger
  filledOrders : state.filledOrders = other.filledOrders

namespace MatchState.Shows

variable {config : Config w Account Asset} {isBid : Bool} {orderer : Account}
  {base quote : Asset} {count : Nat} {state : MatchState w Account Asset}
  {other : Matching w Account Asset}

theorem fillFromPool
    (shows : state.Shows count other)
    (quantity : BitVec w) :
    Alike (Shows count)
      (config.fillFromPool isBid orderer base quote quantity state)
      (Exchange.fillFromPool config isBid orderer base quote quantity
        other) := by
  rw [Config.fillFromPool, Exchange.fillFromPool, shows.ledger,
    shows.remainOrders]
  refine .bind_same fun ledger _ => .ok ?_
  exact { shows with remainOrders := rfl, ledger := rfl }

omit [DecidableEq Account] [DecidableEq Asset] in
theorem fillBook
    (width : 0 < w)
    (shows : state.Shows count other)
    (isBid : Bool)
    (price : BitVec w) :
    ∃ next,
      doFillBook isBid price state = .ok next ∧
        next.Shows count (other.fillBook isBid price) := by
  obtain ⟨filled, pool, executed, sameFills, poolShows⟩ :=
    shows.pool.fillOrder width isBid price state.remainOrders
  rw [doFillBook, executed]
  refine ⟨_, rfl, ?_⟩
  rw [shows.remainOrders] at sameFills poolShows
  simp only [Matching.fillBook, ← sameFills]
  exact
    { remainOrders := by rw [shows.remainOrders]
      pool := poolShows
      ledger := shows.ledger
      filledOrders := by rw [shows.filledOrders] }

/-- One round of matching. -/
theorem matchBody
    (width : 0 < w)
    (shows : state.Shows count other) :
    Alike (Sum.LiftRel (Shows count) (Shows count))
      (config.matchBody isBid orderer base quote state)
      (Exchange.matchBody config isBid orderer base quote other) := by
  unfold Config.matchBody Exchange.matchBody
  rw [shows.remainOrders, ← shows.pool.nextOrder_eq isBid]
  refine .ite (fun _ => ?_) fun _ => .ok (.inr shows)
  cases state.pool.nextOrder isBid with
  | none =>
      exact .ok (.inr shows)
  | some best =>
      obtain ⟨price, index⟩ := best
      simp only [Option.map_some]
      rw [shows.pool.terms.findMaxSwapQuantity_eq, shows.ledger]
      refine .bind_same fun maxSwapQuantity _ => ?_
      refine .ite (fun _ => ?_) fun _ => ?_
      · exact (shows.fillFromPool _).bind fun _ _ next => .ok (.inl next)
      · have filled
            (next : MatchState w Account Asset)
            (otherNext : Matching w Account Asset)
            (nextShows : next.Shows count otherNext) :
            Alike (Sum.LiftRel (Shows count) (Shows count))
              (doFillBook isBid price next >>= fun state => .ok (.inl state))
              (.ok (.inl (otherNext.fillBook isBid price)) :
                Outcome (Matching w Account Asset ⊕
                  Matching w Account Asset)) := by
          obtain ⟨reached, executed, reachedShows⟩ :=
            nextShows.fillBook width isBid price
          rw [executed]
          exact .ok (.inl reachedShows)
        refine .ite (fun _ => ?_) fun _ => filled _ _ shows
        exact (shows.fillFromPool _).bind filled

end MatchState.Shows

/-- Matching fails alike and settles the same fills. -/
theorem Pool.Shows.doMatchOrder
    {config : Config w Account Asset}
    {count : Nat}
    {pool : Pool w Account}
    {market : Market w Account}
    (width : 0 < w)
    (shows : pool.Shows count market)
    (isBid : Bool)
    (orderer : Account)
    (base quote : Asset)
    (orderQuantity : BitVec w)
    (ledger : Ledger w Account Asset) :
    Alike (fun reached other =>
        reached.1.Shows count other.1 ∧ reached.2 = other.2)
      (config.doMatchOrder isBid orderer base quote pool orderQuantity
        ledger)
      (Exchange.doMatchOrder config isBid orderer base quote market
        orderQuantity ledger) := by
  have start : MatchState.Shows count
      (⟨orderQuantity, pool, ledger, [], []⟩ : MatchState w Account Asset)
      ⟨orderQuantity, market, ledger, []⟩ :=
    ⟨rfl, shows, rfl, rfl⟩
  have sameSize : (pool.getOrderbook !isBid).size =
      (market.books !isBid).size :=
    (shows.refines !isBid).size_eq
  unfold Config.doMatchOrder Exchange.doMatchOrder Config.matchOrders
    Config.matchLoop
  simp only [sameSize, bind_assoc]
  refine (Alike.loop (fun _ _ related => related.matchBody width) _
    start).bind fun state other related => ?_
  have settled
      (state : MatchState w Account Asset)
      (other : Matching w Account Asset)
      (related : state.Shows count other) :
      Alike (fun reached other =>
          reached.1.Shows count other.1 ∧ reached.2 = other.2)
        (config.handleFilledOrders isBid orderer base quote state.pool
            state.filledOrders state.ledger >>=
          fun ledger => .ok (state.pool, ledger))
        (config.handleFilledOrders isBid orderer base quote
            other.market.shell other.filledOrders other.ledger >>=
          fun ledger => .ok (other.market, ledger)) := by
    rw [related.pool.terms.handleFilledOrders_eq, related.filledOrders,
      related.ledger]
    exact .bind_same fun _ _ => .ok ⟨related.pool, rfl⟩
  rw [related.remainOrders]
  by_cases left : other.remainOrders > 0
  · rw [if_pos left, if_pos left]
    exact (related.fillFromPool _).bind settled
  · rw [if_neg left, if_neg left]
    exact settled _ _ related

/-! ## Calls -/

/-- Write the collateral and the order, or fail alike. -/
theorem Pool.Shows.doPlaceOrder
    {config : Config w Account Asset}
    {count : Nat}
    {pool : Pool w Account}
    {market : Market w Account}
    (width : 0 < w)
    (room : count < (capacity w).toNat)
    (shows : pool.Shows count market)
    (blockNumber : Nat)
    (isBid : Bool)
    (maker : Account)
    (base quote : Asset)
    (price quantity : BitVec w)
    (ledger : Ledger w Account Asset) :
    Alike (fun reached other =>
        reached.1.Shows (count + 1) other.1 ∧ reached.2 = other.2)
      (config.doPlaceOrder blockNumber isBid maker base quote price quantity
        pool ledger)
      (Exchange.doPlaceOrder config blockNumber isBid maker base quote price
        quantity market ledger) := by
  have placed (ledger : Ledger w Account Asset) :
      Alike (fun reached other =>
          reached.1.Shows (count + 1) other.1 ∧ reached.2 = other.2)
        (mapErr (fun _ => PalletError.errorOnPlaceOrder)
            (pool.placeOrder (blockNumber + config.orderExpiration) isBid
              maker price quantity) >>=
          fun answered => .ok (answered.2, ledger))
        (market.placeOrder (blockNumber + config.orderExpiration) isBid maker
            price quantity >>= fun market => .ok (market, ledger)) :=
    (shows.placeOrder width room _ isBid maker price quantity).bind
      fun _ _ next => .ok ⟨next, rfl⟩
  unfold Config.doPlaceOrder Exchange.doPlaceOrder
  rw [shows.terms.quoteValue_eq]
  refine .ite (fun _ => ?_) fun _ => ?_
  · exact .bind_same fun _ _ => .bind_same fun ledger _ => placed ledger
  · exact .bind_same fun ledger _ => placed ledger

/-- The exchange is what the pallet shows of its books. -/
structure Pallet.Shows
    (count : Nat)
    (pallet : Pallet w Account Asset)
    (exchange : Exchange w Account Asset) : Prop where
  pools :
    ∀ id,
      Option.Rel (Pool.Shows count) (pallet.storage.pools id)
        (exchange.markets id)
  ledger : pallet.storage.ledger = exchange.ledger
  nextPoolAssetId : pallet.nextPoolAssetId = exchange.nextPoolAssetId
  lpAssets : pallet.lpAssets = exchange.lpAssets

namespace Pallet.Shows

variable {config : Config w Account Asset} {setup : Setup w Account Asset}
  {count : Nat} {pallet : Pallet w Account Asset}
  {exchange : Exchange w Account Asset}

omit [DecidableEq Account] [DecidableEq Asset] in
theorem later (shows : pallet.Shows count exchange) :
    pallet.Shows (count + 1) exchange where
  pools id := optionRel_mono (shows.pools id) fun _ _ here =>
    here.mono (Nat.le_succ count)
  ledger := shows.ledger
  nextPoolAssetId := shows.nextPoolAssetId
  lpAssets := shows.lpAssets

omit [DecidableEq Account] in
theorem update
    (shows : pallet.Shows count exchange)
    (id : Asset × Asset)
    {pool : Pool w Account}
    {market : Market w Account}
    (poolShows : pool.Shows count market)
    {ledger otherLedger : Ledger w Account Asset}
    (sameLedger : ledger = otherLedger) :
    Pallet.Shows count
      { pallet with storage := pallet.storage.update id pool ledger }
      (exchange.update id market otherLedger) where
  pools other := by
    by_cases same : other = id
    · subst same
      simpa [Storage.update, Exchange.update] using poolShows
    · simpa [Storage.update, Exchange.update, same] using shows.pools other
  ledger := sameLedger
  nextPoolAssetId := shows.nextPoolAssetId
  lpAssets := shows.lpAssets

end Pallet.Shows

/-! ## Calls that do not look at books -/

section Shell

variable (config : Config w Account Asset)
  {storage other : Storage w Account Asset}

/-- Both storages get the same ledger and keep their pools. -/
def Storage.SameLedger
    (storage other next otherNext : Storage w Account Asset) : Prop :=
  ∃ ledger,
    next = { storage with ledger := ledger } ∧
      otherNext = { other with ledger := ledger }

theorem Storage.SameTerms.addLiquidity
    (sameTerms : storage.SameTerms other)
    (sameLedger : other.ledger = storage.ledger)
    (sender : Account)
    (base quote : Asset)
    (baseDesired quoteDesired baseMin quoteMin : BitVec w)
    (mintTo : Account) :
    Alike (Storage.SameLedger storage other)
      (config.addLiquidity sender base quote baseDesired quoteDesired baseMin
        quoteMin mintTo storage)
      (config.addLiquidity sender base quote baseDesired quoteDesired baseMin
        quoteMin mintTo other) := by
  unfold Config.addLiquidity
  refine .bind_same fun id _ => .bind_same fun _ _ => ?_
  refine (Alike.okOr (sameTerms id) _).bind fun pool otherPool same => ?_
  rw [same.lpToken, sameLedger]
  refine .bind_same fun amounts _ => .bind_same fun _ _ => ?_
  refine .bind_same fun _ _ => .bind_same fun _ _ => ?_
  refine .bind_same fun ledger _ => ?_
  have minted (amount : BitVec w) (ledger : Ledger w Account Asset) :
      Alike (Storage.SameLedger storage other)
        (ensure (amount > config.mintMinLiquidity)
            PalletError.insufficientLiquidityMinted >>= fun _ =>
          config.mintInto pool.lpToken mintTo amount ledger >>= fun ledger =>
            .ok { storage with ledger := ledger })
        (ensure (amount > config.mintMinLiquidity)
            PalletError.insufficientLiquidityMinted >>= fun _ =>
          config.mintInto pool.lpToken mintTo amount ledger >>= fun ledger =>
            .ok { other with ledger := ledger }) :=
    .bind_same fun _ _ => .bind_same fun ledger _ => .ok ⟨ledger, rfl, rfl⟩
  refine .ite (fun _ => ?_) fun _ => ?_
  · exact .bind_same fun amount _ => .bind_same fun ledger _ =>
      minted amount ledger
  · exact .bind_same fun _ _ => .bind_same fun _ _ => minted _ ledger

theorem Storage.SameTerms.removeLiquidity
    (sameTerms : storage.SameTerms other)
    (sameLedger : other.ledger = storage.ledger)
    (liquidityWithdrawalFee : BitVec w → BitVec w)
    (sender : Account)
    (base quote : Asset)
    (lpTokenBurn baseMinReceive quoteMinReceive : BitVec w)
    (withdrawTo : Account) :
    Alike (Storage.SameLedger storage other)
      (config.removeLiquidity liquidityWithdrawalFee sender base quote
        lpTokenBurn baseMinReceive quoteMinReceive withdrawTo storage)
      (config.removeLiquidity liquidityWithdrawalFee sender base quote
        lpTokenBurn baseMinReceive quoteMinReceive withdrawTo other) := by
  unfold Config.removeLiquidity
  refine .bind_same fun id _ => .bind_same fun _ _ => ?_
  refine (Alike.okOr (sameTerms id) _).bind fun pool otherPool same => ?_
  rw [same.lpToken, sameLedger]
  refine .bind_same fun _ _ => .bind_same fun _ _ => ?_
  refine .bind_same fun _ _ => .bind_same fun _ _ => ?_
  refine .bind_same fun _ _ => .bind_same fun _ _ => ?_
  refine .bind_same fun _ _ => .bind_same fun _ _ => ?_
  exact .bind_same fun ledger _ => .ok ⟨ledger, rfl, rfl⟩

end Shell

namespace Pallet.Shows

variable {config : Config w Account Asset} {setup : Setup w Account Asset}
  {count : Nat} {pallet : Pallet w Account Asset}
  {exchange : Exchange w Account Asset}

omit [DecidableEq Account] [DecidableEq Asset] in
theorem sameTerms (shows : pallet.Shows count exchange) :
    exchange.shell.storage.SameTerms pallet.storage := by
  intro id
  have here := shows.pools id
  simp only [Exchange.shell]
  revert here
  generalize pallet.storage.pools id = pool
  generalize exchange.markets id = market
  intro here
  cases here with
  | some poolShows =>
      exact .some poolShows.terms
  | none =>
      exact .none

omit [DecidableEq Account] in
/-- A market that is there is not opened again. -/
theorem or_opened_shell (market : Option (Market w Account)) :
    market.or ((market.map Market.shell).map Market.opened) = market := by
  cases market <;> rfl

omit [DecidableEq Account] [DecidableEq Asset] in
/-- A call that only changes the ledger. -/
theorem adoptLedger
    (shows : pallet.Shows count exchange)
    {storage shell : Storage w Account Asset}
    (sameLedger :
      exchange.shell.storage.SameLedger pallet.storage shell storage) :
    Pallet.Shows count { pallet with storage := storage }
      (exchange.adopt { exchange.shell with storage := shell }) := by
  obtain ⟨ledger, rfl, rfl⟩ := sameLedger
  exact
    { pools := fun id => by
        simp only [Exchange.adopt, Exchange.shell, or_opened_shell]
        exact shows.pools id
      ledger := rfl
      nextPoolAssetId := shows.nextPoolAssetId
      lpAssets := shows.lpAssets }

omit [DecidableEq Account] in
theorem touch
    (shows : pallet.Shows count exchange)
    (who : Account)
    (base quote : Asset) :
    Alike (fun next other => next.2.Shows count (exchange.adopt other.2))
      (pallet.touch config setup who base quote)
      (exchange.shell.touch config setup who base quote) := by
  unfold Pallet.touch
  refine .bind_same fun id _ => ?_
  refine (Alike.okOr (shows.sameTerms id) _).symm.bind
    fun pool otherPool same => ?_
  have sameLedger : pallet.storage.ledger = exchange.shell.storage.ledger :=
    shows.ledger
  rw [sameLedger, same.lpToken]
  refine .bind_same fun first _ => .bind_same fun second _ => ?_
  refine .bind_same fun third _ => .ok ?_
  exact shows.adoptLedger ⟨third.2, rfl, rfl⟩

omit [DecidableEq Account] in
/-- A new pool opens a new market. -/
theorem adoptPool
    (shows : pallet.Shows count exchange)
    {id : Asset × Asset}
    (absent : exchange.markets id = none)
    {pool : Pool w Account}
    (opened : pool.Shows count (.opened pool))
    (ledger : Ledger w Account Asset)
    (nextPoolAssetId : Option Nat)
    (lpAssets : Nat → Bool) :
    Pallet.Shows count
      { storage := pallet.storage.update id pool ledger
        nextPoolAssetId := nextPoolAssetId
        lpAssets := lpAssets }
      (exchange.adopt
        { storage := exchange.shell.storage.update id pool ledger
          nextPoolAssetId := nextPoolAssetId
          lpAssets := lpAssets }) where
  pools other := by
    by_cases same : other = id
    · subst same
      simpa [Storage.update, Exchange.adopt, absent] using opened
    · simp only [Storage.update, Exchange.adopt, Exchange.shell,
        Function.update_of_ne same, or_opened_shell]
      exact shows.pools other
  ledger := rfl
  nextPoolAssetId := rfl
  lpAssets := rfl

theorem createPool
    (shows : pallet.Shows count exchange)
    (sender : Account)
    (base : Asset)
    (baseDecimals : BitVec 8)
    (quote : Asset)
    (quoteDecimals : BitVec 8)
    (tickSize lotSize : BitVec w)
    (poolDecimals : BitVec 8) :
    Alike (fun next other => next.Shows count (exchange.adopt other))
      (pallet.createPool config setup sender base baseDecimals quote
        quoteDecimals tickSize lotSize poolDecimals)
      (exchange.shell.createPool config setup sender base baseDecimals quote
        quoteDecimals tickSize lotSize poolDecimals) := by
  have sameLedger : pallet.storage.ledger = exchange.shell.storage.ledger :=
    shows.ledger
  have sameNext : pallet.nextPoolAssetId = exchange.shell.nextPoolAssetId :=
    shows.nextPoolAssetId
  have sameAssets : pallet.lpAssets = exchange.shell.lpAssets :=
    shows.lpAssets
  unfold Pallet.createPool
  refine .bind_same fun _ _ => .bind_same fun _ _ => ?_
  refine .bind_same fun _ _ => .bind_same fun id _ => ?_
  have samePresence : (pallet.storage.pools id).isNone =
      (exchange.shell.storage.pools id).isNone := by
    have here := shows.sameTerms id
    revert here
    generalize pallet.storage.pools id = pool
    generalize exchange.shell.storage.pools id = shell
    intro here
    cases here <;> rfl
  rw [sameLedger, sameNext, sameAssets, samePresence]
  refine .bind_same fun _ absent => .bind_same fun fee _ => ?_
  refine .bind_same fun _ _ => .bind_same fun _ _ => ?_
  refine .bind_same fun _ _ => .bind_same fun _ _ => ?_
  refine .bind_same fun last _ => .ok ?_
  have free : exchange.markets id = none := by
    simpa [Exchange.shell] using absent
  exact shows.adoptPool free (Pool.Shows.opened ..) _ _ _

theorem doMarketOrder
    (width : 0 < w)
    (shows : pallet.Shows count exchange)
    (isBid : Bool)
    (taker : Account)
    (base quote : Asset)
    (quantity : BitVec w) :
    Alike (fun storage next =>
        Pallet.Shows count { pallet with storage := storage } next)
      (config.doMarketOrder isBid taker base quote quantity pallet.storage)
      (exchange.doMarketOrder config isBid taker base quote quantity) := by
  unfold Config.doMarketOrder Exchange.doMarketOrder
  refine .bind_same fun _ _ => .bind_same fun id _ => ?_
  refine (Alike.okOr (shows.pools id) _).bind fun pool market here => ?_
  rw [here.terms.isValidOrderQuantity_eq, shows.ledger]
  refine .bind_same fun _ _ => .bind_same fun _ _ => ?_
  exact (here.doMatchOrder width isBid taker base quote quantity _).bind
    fun _ _ related => .ok (shows.update id related.1 related.2)

theorem doLimitOrder
    (width : 0 < w)
    (room : count < (capacity w).toNat)
    (shows : pallet.Shows count exchange)
    (blockNumber : Nat)
    (maker : Account)
    (orderPrice orderQuantity : BitVec w)
    (isBid : Bool)
    (base quote : Asset) :
    Alike (fun storage next =>
        Pallet.Shows (count + 1) { pallet with storage := storage } next)
      (config.doLimitOrder blockNumber maker orderPrice orderQuantity isBid
        base quote pallet.storage)
      (exchange.doLimitOrder config blockNumber maker orderPrice
        orderQuantity isBid base quote) := by
  unfold Config.doLimitOrder Exchange.doLimitOrder
  refine .bind_same fun id _ => ?_
  refine (Alike.okOr (shows.pools id) _).bind fun pool market here => ?_
  simp only [shows.ledger, here.terms.poolPrice_eq,
    here.terms.isValidOrderPrice_eq, here.terms.isValidOrderQuantity_eq]
  refine .bind_same fun reserves _ => .bind_same fun poolPrice _ => ?_
  refine .bind_same fun _ _ => .bind_same fun _ _ => ?_
  refine .bind_same fun _ _ => .bind_same fun _ _ => ?_
  refine .ite (fun _ => ?_) fun _ => ?_
  · exact (here.doMatchOrder width isBid maker base quote orderQuantity
      _).bind fun _ _ related => .ok (shows.later.update id
        (related.1.mono (Nat.le_succ count)) related.2)
  · exact (here.doPlaceOrder width room blockNumber isBid maker base quote
      orderPrice orderQuantity _).bind
        fun _ _ related => .ok (shows.later.update id related.1 related.2)

theorem doCancelOrder
    (width : 0 < w)
    (shows : pallet.Shows count exchange)
    (owner : Account)
    (base quote : Asset)
    (price : BitVec w)
    (orderId : OrderId)
    (quantity : BitVec w) :
    Alike (fun storage next =>
        Pallet.Shows count { pallet with storage := storage } next)
      (Config.doCancelOrder owner base quote price orderId quantity
        pallet.storage)
      (exchange.doCancelOrder owner base quote price orderId quantity) := by
  unfold Config.doCancelOrder Exchange.doCancelOrder
  refine .bind_same fun id _ => ?_
  refine (Alike.okOr (shows.pools id) _).bind fun pool market here => ?_
  rw [shows.ledger]
  exact (here.cancelOrder width owner price orderId quantity).bind
    fun _ _ related => .ok (shows.update id related rfl)

variable (config setup) in
/-- Every call fails alike, or leads to states that agree. -/
theorem dispatch
    (width : 0 < w)
    (room : count < (capacity w).toNat)
    (shows : pallet.Shows count exchange)
    (call : Dispatchable w Account Asset) :
    Alike (Pallet.Shows (count + 1)) (pallet.dispatch config setup call)
      (exchange.dispatch config setup call) := by
  have sameLedger : pallet.storage.ledger = exchange.shell.storage.ledger :=
    shows.ledger
  cases call with
  | createPool signer base baseDecimals quote quoteDecimals tickSize lotSize
      poolDecimals =>
      exact (shows.later.createPool signer base baseDecimals quote
        quoteDecimals tickSize lotSize poolDecimals).map_right
  | touch signer base quote =>
      exact (shows.later.touch signer base
        quote).mapErr.map_left.map_right.map_right
  | onPool call =>
      cases call with
      | removeLiquidity signer base quote lpTokenBurn baseMinReceive
          quoteMinReceive withdrawTo =>
          have alike := (shows.sameTerms.removeLiquidity config sameLedger
            setup.liquidityWithdrawalFee signer base quote lpTokenBurn
            baseMinReceive quoteMinReceive withdrawTo).symm
          exact (alike.mono fun _ _ same =>
            shows.later.adoptLedger same).mapErr.map_left.map_right.map_right
      | dispatch extrinsic =>
          obtain ⟨signer, blockNumber, call⟩ := extrinsic
          cases call with
          | addLiquidity base quote baseDesired quoteDesired baseMin quoteMin
              mintTo =>
              have alike := (shows.sameTerms.addLiquidity config sameLedger
                signer base quote baseDesired quoteDesired baseMin quoteMin
                mintTo).symm
              exact (alike.mono fun _ _ same => shows.later.adoptLedger
                same).mapErr.map_left.map_right.map_right
          | marketOrder base quote quantity isBid =>
              exact (shows.later.doMarketOrder width isBid signer base quote
                quantity).mapErr.map_left
          | limitOrder base quote isBid price quantity =>
              exact (shows.doLimitOrder width room blockNumber signer price
                quantity isBid base quote).mapErr.map_left
          | cancelOrder base quote price orderId quantity =>
              exact (shows.later.doCancelOrder width signer base quote price
                orderId quantity).mapErr.map_left

omit [DecidableEq Account] [DecidableEq Asset] in
theorem genesis
    (ledger : Ledger w Account Asset)
    (lpAssets : Nat → Bool) :
    (Pallet.genesis ledger lpAssets).Shows 0
      (Exchange.genesis ledger lpAssets) :=
  ⟨fun _ => .none, rfl, rfl, rfl⟩

end Pallet.Shows

/--
From genesis on, and for as many calls as a book has leaf indices, the pallet
is the exchange: each call succeeds on both or fails on both with the same
error, and in the end the ledgers, the ids and all price levels agree.
-/
theorem Pallet.refines_exchange
    (config : Config w Account Asset)
    (setup : Setup w Account Asset)
    (width : 0 < w)
    (ledger : Ledger w Account Asset)
    (lpAssets : Nat → Bool)
    (calls : List (Dispatchable w Account Asset))
    (within : calls.length ≤ (capacity w).toNat) :
    (Run.attempt (Pallet.dispatch config setup) calls
        (Pallet.genesis ledger lpAssets)).1 =
      (Run.attempt (Exchange.dispatch config setup) calls
        (Exchange.genesis ledger lpAssets)).1 ∧
      Pallet.Shows calls.length
        (Run.attempt (Pallet.dispatch config setup) calls
          (Pallet.genesis ledger lpAssets)).2
        (Run.attempt (Exchange.dispatch config setup) calls
          (Exchange.genesis ledger lpAssets)).2 := by
  have start : 0 + calls.length ≤ (capacity w).toNat := by
    rwa [Nat.zero_add]
  have simulated :=
    Run.attempt_alike Pallet.Shows.later
      (fun call room shows => shows.dispatch config setup width room call)
      start (Pallet.Shows.genesis ledger lpAssets)
  rwa [Nat.zero_add] at simulated

/-- An order rests, a stranger cannot cancel it, and its owner can. -/
theorem Pallet.refines_exchange_mock :
    (Run.attempt (Exchange.dispatch Config.mock (.mock (.inl 0)))
        (mockCreation (.inl 1) ++
          [.onPool (.dispatch ⟨.inl 2, 2, .limitOrder 0 1 false 200 5⟩),
            .onPool (.dispatch ⟨.inl 3, 2, .cancelOrder 0 1 200
              (OrderId.new false) 5⟩),
            .onPool (.dispatch ⟨.inl 2, 2, .cancelOrder 0 1 200
              (OrderId.new false) 5⟩),
            .touch (.inl 1) 0 2])
        (Exchange.genesis (.mock Sum.isLeft) fun _ => false)).1 =
      [none, none, none, none,
        some (.error (.pallet .errorOnCancelOrder)), none,
        some (.error (.pallet .poolNotFound))] := by
  rw [← (refines_exchange Config.mock (.mock (.inl 0)) (by decide)
    (.mock Sum.isLeft) (fun _ => false) _ (by decide)).1]
  decide +kernel

end HybridOrderbook
