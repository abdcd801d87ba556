import HybridOrderbook.PoolRuns
import HybridOrderbook.Spread

namespace HybridOrderbook

open Library Sweep

/-!
# Tick size and lot size

A price is checked before its level is opened, and nothing else opens a level,
so that all levels are multiples of the tick size.  A quantity is checked when
its order is placed, but later a fill or a cancel takes a part of the order.
The part is a number of lots if what the taker has left is one: the quantities
that the pool is asked for in between need not be.
-/

variable {w : Nat} {Account Asset : Type}

namespace Pool

/-- A price that a level may have. -/
def OnTick (pool : Pool w Account) (price : BitVec w) : Prop :=
  0 < price.toNat ∧ pool.tickSize.toNat ∣ price.toNat

/-- A quantity in lots of the pool. -/
def InLots (pool : Pool w Account) (quantity : Nat) : Prop :=
  pool.lotSize.toNat ∣ quantity

/-- Every level of the books is on a tick. -/
def LevelsOnTicks (pool : Pool w Account) : Prop :=
  ∀ isBid price, pool.HasLevel isBid price → pool.OnTick price

/-- Every resting order is for a number of lots. -/
def OrdersInLots (pool : Pool w Account) : Prop :=
  ∀ isBid price orderId order,
    pool.HoldsOrder isBid price orderId order →
      pool.InLots order.quantity.toNat

variable {pool next : Pool w Account}

theorem SameTerms.onTick_eq
    (same : pool.SameTerms next) : next.OnTick = pool.OnTick := by
  unfold OnTick
  rw [same.tickSize]

theorem SameTerms.inLots_eq
    (same : pool.SameTerms next) : next.InLots = pool.InLots := by
  unfold InLots
  rw [same.lotSize]

theorem toNat_dvd_of_rem
    {value size excess : BitVec w}
    (divided : (Machine.rem value size : Outcome (BitVec w)) = .ok excess)
    (none : excess = 0) : size.toNat ∣ value.toNat := by
  obtain ⟨_, rfl⟩ := Machine.rem_eq_ok_iff.mp divided
  have remainder := congrArg BitVec.toNat none
  rw [BitVec.toNat_umod] at remainder
  exact Nat.dvd_of_mod_eq_zero (by simpa using remainder)

theorem onTick_of_isValidOrderPrice
    {price : BitVec w}
    (valid : pool.isValidOrderPrice price = .ok true) :
    pool.OnTick price := by
  unfold isValidOrderPrice at valid
  split at valid
  · rename_i positive
    simp only [bind_eq_ok_iff, Except.ok.injEq, decide_eq_true_eq] at valid
    obtain ⟨excess, divided, none⟩ := valid
    exact ⟨BitVec.lt_def.mp positive, toNat_dvd_of_rem divided none⟩
  · cases valid

theorem inLots_of_isValidOrderQuantity
    {quantity : BitVec w}
    (valid : pool.isValidOrderQuantity quantity = .ok true) :
    pool.InLots quantity.toNat := by
  unfold isValidOrderQuantity at valid
  split at valid
  · simp only [bind_eq_ok_iff, Except.ok.injEq, decide_eq_true_eq] at valid
    obtain ⟨excess, divided, none⟩ := valid
    exact toNat_dvd_of_rem divided none
  · cases valid

theorem not_ordersInLots
    (isBid : Bool)
    (index : BitVec w)
    {price : BitVec w}
    {orderId : OrderId}
    {order : Order w Account}
    (holds :
      (pool.getOrderbook isBid).HoldsOrder index price orderId order)
    (broken : ¬ pool.InLots order.quantity.toNat) :
    ¬ pool.OrdersInLots :=
  fun lots => broken (lots isBid price orderId order ⟨index, holds⟩)

end Pool

variable [DecidableEq Account] [DecidableEq Asset]

namespace Config

variable {config : Config w Account Asset}
  {extrinsic : Extrinsic w Account Asset}
  {storage next : Storage w Account Asset} {base quote : Asset}
  {isBid : Bool} {price quantity : BitVec w} {pool : Pool w Account}

theorem valid_of_limitOrder
    (called : extrinsic.call = .limitOrder base quote isBid price quantity)
    (found : storage.pools (base, quote) = some pool)
    (stepped : config.step extrinsic storage = some next) :
    pool.OnTick price ∧ pool.InLots quantity.toNat := by
  have dispatched := toOption_eq_some_iff.mp stepped
  simp only [dispatch, called, doLimitOrder, bind_eq_ok_iff,
    ensure_eq_ok_iff, exists_const, poolId_eq_ok_iff, okOr_eq_ok_iff,
    mapErr_eq_ok_iff] at dispatched
  obtain ⟨_, ⟨_, rfl⟩, _, otherFound, _, _, _, _, _, priceChecked, rfl, _,
    quantityChecked, rfl, _⟩ := dispatched
  obtain rfl := Option.some.inj (found.symm.trans otherFound)
  exact ⟨Pool.onTick_of_isValidOrderPrice priceChecked,
    Pool.inLots_of_isValidOrderQuantity quantityChecked⟩

theorem valid_of_marketOrder
    (called : extrinsic.call = .marketOrder base quote quantity isBid)
    (found : storage.pools (base, quote) = some pool)
    (stepped : config.step extrinsic storage = some next) :
    pool.InLots quantity.toNat := by
  have dispatched := toOption_eq_some_iff.mp stepped
  simp only [dispatch, called, doMarketOrder, bind_eq_ok_iff,
    ensure_eq_ok_iff, exists_const, poolId_eq_ok_iff,
    okOr_eq_ok_iff] at dispatched
  obtain ⟨_, _, ⟨_, rfl⟩, _, otherFound, _, checked, rfl, _⟩ := dispatched
  obtain rfl := Option.some.inj (found.symm.trans otherFound)
  exact Pool.inLots_of_isValidOrderQuantity checked

theorem inLots_of_matched
    (called :
      extrinsic.call = .marketOrder base quote quantity isBid ∨
        ∃ price,
          extrinsic.call = .limitOrder base quote isBid price quantity ∧
            config.Decides storage base quote isBid price true)
    (found : storage.pools (base, quote) = some pool)
    (stepped : config.step extrinsic storage = some next) :
    pool.InLots quantity.toNat := by
  rcases called with called | ⟨price, called, _⟩
  · exact valid_of_marketOrder called found stepped
  · exact (valid_of_limitOrder called found stepped).2

end Config

section Ticks

variable {config : Config w Account Asset}
  {extrinsic : Extrinsic w Account Asset}
  {storage next : Storage w Account Asset}

/-- The levels of all pools are on ticks, as price maps. -/
def Storage.OnTicks (storage : Storage w Account Asset) : Prop :=
  storage.EachPool fun pool =>
    ∃ books, pool.LevelsKeep (fun _ => pool.OnTick) books

theorem Storage.OnTicks.step
    (wide : 64 ≤ w)
    (onTicks : storage.OnTicks)
    (stepped : config.step extrinsic storage = some next) :
    next.OnTicks := by
  have width : 0 < w := by omega
  cases Config.effect_of_step stepped with
  | deposited _ _ _ _ _ samePools =>
      exact onTicks.of_pools_eq samePools
  | matched _ _ found matched _ updated =>
      obtain ⟨books, keeps⟩ := onTicks _ _ found
      have sameTerms := keeps.refines.sameTerms_matchOrders width matched
      rw [updated]
      refine onTicks.update ?_ _
      rw [sameTerms.onTick_eq]
      exact keeps.matchOrders width matched
  | placed called found _ _ _ executed updated =>
      obtain ⟨⟨_, placed⟩, _⟩ := Config.doPlaceOrder_eq_ok wide executed
      obtain ⟨books, keeps⟩ := onTicks _ _ found
      have sameTerms := (keeps.refines.placeOrder_eq_ok width placed).1
      rw [updated]
      refine onTicks.update ?_ _
      rw [sameTerms.onTick_eq]
      exact keeps.placeOrder width
        (Config.valid_of_limitOrder called found stepped).1 placed
  | canceled _ found cancels updated =>
      obtain ⟨books, keeps⟩ := onTicks _ _ found
      have sameTerms :=
        (keeps.refines.cancelOrder_eq_ok width cancels).2.2.1
      rw [updated]
      refine onTicks.update ?_ _
      rw [sameTerms.onTick_eq]
      exact keeps.cancelOrder width cancels

end Ticks

/--
A match breaks no lots: the pool gave a number of lots, or no order is left
with a part at a price that was filled.
-/
def MatchState.KeepsLots
    (state : MatchState w Account Asset)
    (pool : Pool w Account)
    (isBid : Bool) : Prop :=
  pool.InLots state.fromPool ∨
    ∀ fill ∈ state.filledOrders, ∀ orderId order,
      state.pool.HoldsOrder (!isBid) fill.2.1 orderId order →
        order.quantity = 0

namespace Config

/--
A call that takes lots: a cancel takes a number of lots off its order, and
matching breaks no lots.
-/
structure TakesLots
    (config : Config w Account Asset)
    (extrinsic : Extrinsic w Account Asset)
    (storage : Storage w Account Asset) : Prop where
  cancels :
    ∀ base quote price orderId quantity pool,
      extrinsic.call = .cancelOrder base quote price orderId quantity →
        storage.pools (base, quote) = some pool →
          pool.InLots quantity.toNat
  takes :
    ∀ base quote isBid quantity pool state,
      (extrinsic.call = .marketOrder base quote quantity isBid ∨
        ∃ price,
          extrinsic.call = .limitOrder base quote isBid price quantity ∧
            config.Decides storage base quote isBid price true) →
        storage.pools (base, quote) = some pool →
          config.matchOrders isBid extrinsic.signer base quote pool quantity
              storage.ledger = .ok state →
            state.KeepsLots pool isBid

/-- A limit order that rests is not matched. -/
theorem takesLots_of_rests
    {config : Config w Account Asset}
    {extrinsic : Extrinsic w Account Asset}
    {storage : Storage w Account Asset}
    {base quote : Asset}
    {isBid : Bool}
    {price quantity : BitVec w}
    (called : extrinsic.call = .limitOrder base quote isBid price quantity)
    (rests : config.Rests storage base quote isBid price) :
    config.TakesLots extrinsic storage where
  cancels _ _ _ _ _ _ cancels := by
    rw [called] at cancels
    cases cancels
  takes _ _ _ _ _ _ sends _ _ := by
    rw [called] at sends
    rcases sends with sent | ⟨_, sent, crosses⟩
    · cases sent
    · obtain ⟨rfl, rfl, rfl, rfl, rfl⟩ := Call.limitOrder.inj sent
      exact absurd (rests.unique crosses) Bool.false_ne_true

/--
The sweep of an order breaks no lots: the pool takes a number of lots, or
every level that fills anything is used up.
-/
def SweepsLots
    (config : Config w Account Asset)
    (pool : Pool w Account)
    (isBid : Bool)
    (reserves : Reserves)
    (quantity : Nat) : Prop :=
  pool.lotSize.toNat ∣
      traded (config.venue pool isBid) (pool.ladder isBid) reserves
        quantity ∨
    ∀ round ∈
        rounds (config.venue pool isBid) (pool.ladder isBid) reserves
          quantity,
      round.filled ≠ 0 → round.filled = round.level.volume

instance decidableSweepsLots
    (config : Config w Account Asset)
    (pool : Pool w Account)
    (isBid : Bool)
    (reserves : Reserves)
    (quantity : Nat) :
    Decidable (config.SweepsLots pool isBid reserves quantity) :=
  instDecidableOr

end Config

section Lots

variable {config : Config w Account Asset}
  {extrinsic : Extrinsic w Account Asset}
  {storage next : Storage w Account Asset} {pool : Pool w Account}
  {base quote : Asset} {isBid : Bool} {orderer : Account}
  {state reached : MatchState w Account Asset}

/-- As long as nothing wraps, the sweep tells whether lots are broken. -/
theorem Config.SweepsLots.keepsLots
    (wide : 64 ≤ w)
    (lawful : config.Lawful)
    (otherOrderer : orderer ≠ config.address (base, quote))
    {books : Bool → PriceMap w Account}
    (refines : pool.Refines books)
    {reserves : Reserves}
    {ledger : Ledger w Account Asset}
    (holds : config.HoldsReserves base quote ledger reserves)
    {quantity : BitVec w}
    (lots : config.SweepsLots pool isBid reserves quantity.toNat)
    (matched :
      config.checked.matchOrders isBid orderer base quote pool quantity
        ledger = .ok state) : state.KeepsLots pool isBid := by
  have swept := swept_of_matchOrders wide lawful otherOrderer refines holds
    matched
  rcases lots with inLots | usedUp
  · left
    rw [Pool.InLots, swept.fromPool]
    exact inLots
  · right
    rintro fill member orderId order ⟨index, leaf, stored, price, listed⟩
    obtain ⟨round, visited, filled, same⟩ := swept.ofFill fill member
    -- the level is left with what its round did not fill, which is nothing
    have left : leaf.value.volume = round.level.volume - round.filled :=
      volume_of_mem_leftover (refines.pairwise_ladder isBid) visited
      (swept.leaves ⟨leaf.key.toNat, leaf.value.volume⟩
        (Pool.mem_ladder_iff.mpr ⟨index, leaf, stored, rfl⟩))
      (by rw [price]; exact same)
    have bounded := Tick.quantity_le_volume listed
    rw [usedUp round visited filled, Nat.sub_self] at left
    rw [left] at bounded
    exact BitVec.eq_of_toNat_eq (by simpa using bounded)

/--
The orders that rest, and what is left of the one that is matched; or the
last part of the match has broken the lots of an order.
-/
structure MatchInLots
    (pool : Pool w Account)
    (isBid : Bool)
    (state : MatchState w Account Asset) : Prop where
  sameTerms : pool.SameTerms state.pool
  lots :
    (∃ books, state.pool.Keeps (fun _ _ _ => pool.InLots) books) ∧
        pool.InLots (state.remainOrders.toNat + state.fromPool) ∨
      state.remainOrders = 0 ∧ ¬ state.KeepsLots pool isBid

theorem MatchInLots.fillFromPool
    {quantity : BitVec w}
    (matching : MatchInLots pool isBid state)
    (takes : config.TakesFromPool isBid base quote state quantity)
    (filled :
      config.fillFromPool isBid orderer base quote quantity state =
        .ok reached) : MatchInLots pool isBid reached := by
  have covered := takes.le
  obtain ⟨swapped, reached_eq⟩ := Config.fillFromPool_eq_ok filled
  rcases matching.lots with ⟨keeps, total⟩ | ⟨finished, _⟩
  · have left := BitVec.toNat_sub_of_le covered
    rw [BitVec.le_def] at covered
    have asked : reached.fromPool = state.fromPool + quantity.toNat := by
      rw [reached_eq]
      simp [MatchState.fromPool]
    have remain :
        reached.remainOrders.toNat =
          state.remainOrders.toNat - quantity.toNat := by
      rw [reached_eq]
      exact left
    have samePool : reached.pool = state.pool := by rw [reached_eq]
    have same :
        reached.remainOrders.toNat + reached.fromPool =
          state.remainOrders.toNat + state.fromPool := by
      omega
    refine ⟨samePool ▸ matching.sameTerms, .inl ⟨samePool ▸ keeps, ?_⟩⟩
    rw [same]
    exact total
  · rw [finished] at covered
    exact absurd (BitVec.le_zero_iff.mp covered)
      (Config.ne_zero_of_doFillPool swapped)

omit [DecidableEq Asset] in
theorem MatchInLots.doFillBook
    (width : 0 < w)
    {price index : BitVec w}
    (matching : MatchInLots pool isBid state)
    (best : state.pool.nextOrder isBid = some (price, index))
    (unfinished : 0 < state.remainOrders)
    (filled : HybridOrderbook.doFillBook isBid price state = .ok reached) :
    MatchInLots pool isBid reached := by
  rcases matching.lots with ⟨⟨books, keeps⟩, total⟩ | ⟨finished, _⟩
  case inr =>
    rw [finished] at unfinished
    exact absurd unfinished (BitVec.lt_irrefl _)
  obtain ⟨tick, bound⟩ := Option.isSome_iff_exists.mp
    (Std.ExtTreeMap.mem_iff_isSome_getElem?.mp
      (keeps.refines.best_of_nextOrder best).1)
  have fills := fillsBook_of_doFillBook width keeps.refines filled
  have worth := PriceMap.fillsWorth_fillsAt bound state.remainOrders
  have remain := fills.remainOrders
  rw [worth] at remain
  have sameSwaps : reached.fromPool = state.fromPool := by
    rw [MatchState.fromPool, fills.swaps, MatchState.fromPool]
  have volume : pool.InLots tick.volume :=
    (keeps.all (!isBid) price tick bound).dvd_volume
  refine ⟨matching.sameTerms.trans fills.sameTerms, ?_⟩
  rcases Nat.lt_or_ge tick.volume state.remainOrders.toNat with
    short | enough
  · -- the level is used up
    refine .inl ⟨⟨_, keeps.update fills.refines ?_⟩, ?_⟩
    · rw [PriceMap.fillOrder_of_short bound short]
      exact (keeps.all (!isBid)).erase price
    · have same :
          state.remainOrders.toNat + state.fromPool =
            tick.volume +
              (reached.remainOrders.toNat + reached.fromPool) := by
        omega
      rw [same] at total
      exact (Nat.dvd_add_right volume).mp total
  · have finished : reached.remainOrders.toNat = 0 := by omega
    by_cases part : pool.InLots state.remainOrders.toNat
    · have stay := ((keeps.all (!isBid)).fillOrder
        (fun _ => Tick.splits_dvd pool.lotSize.toNat) price
        state.remainOrders part).1
      refine .inl ⟨⟨_, keeps.update fills.refines stay⟩, ?_⟩
      rw [finished, Nat.zero_add, sameSwaps]
      exact (Nat.dvd_add_right part).mp total
    · -- an order is left with a part that is no number of lots
      refine .inr ⟨BitVec.eq_of_toNat_eq (by simpa using finished), ?_⟩
      rintro (lots | whole)
      · rw [sameSwaps] at lots
        exact part ((Nat.dvd_add_left lots).mp total)
      · have long : state.remainOrders.toNat < tick.volume :=
          lt_of_le_of_ne enough fun same => part (same ▸ volume)
        obtain ⟨rest, left, nonzero⟩ :=
          PriceMap.fillOrder_of_long bound long
        unfold Tick.volume Tick.worth at nonzero
        obtain ⟨orderId, order, listed, some⟩ :=
          TreeMap.exists_of_total_ne_zero nonzero
        have positive : 0 < state.remainOrders.toNat :=
          BitVec.lt_def.mp unfinished
        obtain ⟨fill, given⟩ := List.exists_mem_of_ne_nil
          ((books !isBid).fillsAt price state.remainOrders)
          (fun none => by
            rw [PriceMap.fillsAt_eq_nil_iff, worth] at none
            omega)
        refine some (congrArg BitVec.toNat (whole (fill.1, price, fill.2) ?_
          orderId order ?_))
        · rw [fills.filledOrders]
          exact List.mem_append_right _ (List.mem_map.mpr ⟨fill, given, rfl⟩)
        · refine (fills.refines.holdsOrder_iff width ..).mpr ?_
          rw [Function.update_self]
          exact PriceMap.orderAt_eq_some_iff.mpr ⟨rest, left, listed⟩

/-- A match that breaks no lots leaves lots. -/
theorem Pool.Keeps.matchInLots
    (width : 0 < w)
    {books : Bool → PriceMap w Account}
    (keeps : pool.Keeps (fun _ _ _ => pool.InLots) books)
    {orderQuantity : BitVec w}
    {ledger : Ledger w Account Asset}
    (lots : pool.InLots orderQuantity.toNat)
    (matched :
      config.matchOrders isBid orderer base quote pool orderQuantity
        ledger = .ok state)
    (unbroken : state.KeepsLots pool isBid) :
    pool.SameTerms state.pool ∧
      ∃ books, state.pool.Keeps (fun _ _ _ => pool.InLots) books := by
  have matching : MatchInLots pool isBid state := by
    refine Config.matchOrders_invariant (MatchInLots pool isBid) ?_ ?_
      ⟨Pool.SameTerms.refl pool, .inl ⟨⟨books, keeps⟩, ?_⟩⟩ matched
    · intro state next quantity matching takes filled
      exact matching.fillFromPool takes filled
    · intro state next price index matching best unfinished filled
      exact matching.doFillBook width best unfinished filled
    · simpa [MatchState.fromPool] using lots
  refine ⟨matching.sameTerms, ?_⟩
  rcases matching.lots with ⟨kept, _⟩ | ⟨_, broken⟩
  · exact kept
  · exact absurd unbroken broken
/-- The orders of all pools are in lots, as price maps. -/
def Storage.InLots (storage : Storage w Account Asset) : Prop :=
  storage.EachPool fun pool =>
    ∃ books, pool.Keeps (fun _ _ _ => pool.InLots) books

theorem Storage.InLots.step
    (wide : 64 ≤ w)
    (inLots : storage.InLots)
    (takes : config.TakesLots extrinsic storage)
    (stepped : config.step extrinsic storage = some next) :
    next.InLots := by
  have width : 0 < w := by omega
  cases Config.effect_of_step stepped with
  | deposited _ _ _ _ _ samePools =>
      exact inLots.of_pools_eq samePools
  | matched called _ found matched _ updated =>
      obtain ⟨books, keeps⟩ := inLots _ _ found
      obtain ⟨sameTerms, kept⟩ := keeps.matchInLots width
        (Config.inLots_of_matched called found stepped) matched
        (takes.takes _ _ _ _ _ _ called found matched)
      rw [updated]
      refine inLots.update ?_ _
      rw [sameTerms.inLots_eq]
      exact kept
  | placed called found _ _ _ executed updated =>
      obtain ⟨⟨_, placed⟩, _⟩ := Config.doPlaceOrder_eq_ok wide executed
      obtain ⟨books, keeps⟩ := inLots _ _ found
      have sameTerms := (keeps.refines.placeOrder_eq_ok width placed).1
      rw [updated]
      refine inLots.update ?_ _
      rw [sameTerms.inLots_eq]
      exact keeps.placeOrder width
        (Config.valid_of_limitOrder called found stepped).2 placed
  | canceled called found cancels updated =>
      obtain ⟨books, keeps⟩ := inLots _ _ found
      have sameTerms :=
        (keeps.refines.cancelOrder_eq_ok width cancels).2.2.1
      rw [updated]
      refine inLots.update ?_ _
      rw [sameTerms.inLots_eq]
      exact keeps.cancelOrder width
        (fun _ _ => Tick.splits_dvd _)
        (takes.cancels _ _ _ _ _ _ called found) cancels

end Lots

section Runs

open Config

/-- Lots of 10 at reserves of 1000, where the price is 10000. -/
def lotsOfTen : Storage 64 MockAccount Nat :=
  Storage.mock (Pool.new 0 1 10 4 0 0) 1000 1000

end Runs

end HybridOrderbook
