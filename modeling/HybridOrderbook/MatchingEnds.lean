import HybridOrderbook.Library.Rounds
import HybridOrderbook.Amounts
import HybridOrderbook.Priority

namespace HybridOrderbook

open Library

/-!
# The end of matching

A round of `do_match_order` that goes on fills something from the pool or
from the book, or it meets a level with nothing to fill and removes it: a
level that cannot fill the whole remaining quantity is left without orders.
So the remaining quantity and the number of levels never grow, and one of them
falls.
-/

variable {w : Nat} {Account Asset : Type}

section Levels

variable {map : PriceMap w Account} {key quantity : BitVec w}

theorem PriceMap.size_fillOrder_le :
    (map.fillOrder key quantity).2.size ≤ map.size := by
  unfold fillOrder
  split
  · rename_i tick bound
    have member := TreeMap.mem_of_getElem? bound
    dsimp only
    split
    · exact Std.ExtTreeMap.size_erase_le
    · rw [Std.ExtTreeMap.size_insert,
        if_pos (Std.ExtTreeMap.mem_iff_contains.mp member)]
  · exact le_rfl

/-- A removed level is one level less. -/
theorem PriceMap.size_fillOrder_lt
    (member : key ∈ map)
    (removed : key ∉ (map.fillOrder key quantity).2) :
    (map.fillOrder key quantity).2.size < map.size := by
  unfold fillOrder at *
  split
  · rename_i tick bound
    simp only [bound] at removed
    split at removed
    · rename_i exhausted
      simp only [exhausted, ↓reduceIte]
      rw [Std.ExtTreeMap.size_erase,
        if_pos (Std.ExtTreeMap.mem_iff_contains.mp member)]
      refine Nat.pred_lt fun none => ?_
      rw [Std.ExtTreeMap.eq_empty_iff_size_eq_zero.mpr none] at member
      simp at member
    · simp at removed
  · rename_i absent
    simp [Std.ExtTreeMap.mem_iff_isSome_getElem?, absent] at member

end Levels

/-- The number of price levels that a taker of the given side can meet. -/
def MatchState.levels
    (isBid : Bool)
    (state : MatchState w Account Asset) : Nat :=
  (state.pool.getOrderbook !isBid).size

/-- Nothing grows, and the remaining quantity or the levels become less. -/
structure MatchState.Descends
    (isBid : Bool)
    (state next : MatchState w Account Asset) : Prop where
  remainOrders : next.remainOrders.toNat ≤ state.remainOrders.toNat
  levels : next.levels isBid ≤ state.levels isBid
  progress :
    next.remainOrders.toNat < state.remainOrders.toNat ∨
      next.levels isBid < state.levels isBid

theorem MatchState.Descends.trans
    {isBid : Bool}
    {state middle next : MatchState w Account Asset}
    (first : state.Descends isBid middle)
    (second : middle.Descends isBid next) : state.Descends isBid next := by
  refine ⟨second.remainOrders.trans first.remainOrders,
    second.levels.trans first.levels, ?_⟩
  rcases first.progress with less | fewer
  · exact .inl (Nat.lt_of_le_of_lt second.remainOrders less)
  · exact .inr (Nat.lt_of_le_of_lt second.levels fewer)

/-- The pair of both falls in the lexicographic order. -/
theorem MatchState.Descends.lex
    {isBid : Bool}
    {state next : MatchState w Account Asset}
    (descends : state.Descends isBid next) :
    Prod.Lex (· < ·) (· < ·)
      (next.remainOrders.toNat, next.levels isBid)
      (state.remainOrders.toNat, state.levels isBid) := by
  rcases Nat.lt_or_eq_of_le descends.remainOrders with less | same
  · exact .left _ _ less
  · rw [same]
    refine .right _ ?_
    rcases descends.progress with less | fewer
    · exact absurd same (Nat.ne_of_lt less)
    · exact fewer

namespace Config

variable [DecidableEq Account] [DecidableEq Asset]
  {config : Config w Account Asset} {ledger : Ledger w Account Asset}

section Returns

variable {who : Account} {asset : Asset} {amount : BitVec w}

omit [DecidableEq Account] in
theorem returns_getReserves {base quote : Asset} :
    Returns (config.getReserves ledger base quote) := by
  refine .bind (.bind (returns_of_error (failsOnly_poolId _ _)) fun id =>
    failsOnly_ok _ _) fun account => ?_
  exact .bind returns_ensure fun _ => failsOnly_ok _ _

theorem returns_withdraw {keepAlive : Bool} :
    Returns (config.withdraw asset who amount keepAlive ledger) := by
  refine .bind returns_ensure fun _ => ?_
  refine .bind returns_ensure fun _ => ?_
  exact .bind returns_ensure fun _ => failsOnly_ok _ _

theorem returns_resolve {credit : Credit w Asset} :
    Returns (config.resolve who credit ledger) := by
  refine .bind returns_ensure fun _ => ?_
  exact .bind returns_ensure fun _ => failsOnly_ok _ _

omit [DecidableEq Account] in
theorem returns_balancePathBack
    (path : List Asset) :
    Returns (config.balancePathBack ledger amount path) := by
  induction path generalizing amount with
  | nil =>
      exact failsOnly_ok _ _
  | cons asset2 rest inductionHypothesis =>
      cases rest with
      | nil =>
          exact failsOnly_ok _ _
      | cons asset1 rest =>
          refine .bind returns_getReserves fun reserves => ?_
          refine .bind returns_getAmountIn fun nextAmount => ?_
          exact .bind inductionHypothesis fun _ => failsOnly_ok _ _

omit [DecidableEq Account] in
theorem returns_balancePathFromAmountIn
    (path : List Asset) :
    Returns (config.balancePathFromAmountIn ledger amount path) := by
  induction path generalizing amount with
  | nil =>
      exact failsOnly_ok _ _
  | cons asset1 rest inductionHypothesis =>
      cases rest with
      | nil =>
          exact failsOnly_ok _ _
      | cons asset2 rest =>
          refine .bind returns_getReserves fun reserves => ?_
          refine .bind returns_getAmountOut fun nextAmount => ?_
          exact .bind inductionHypothesis fun _ => failsOnly_ok _ _

theorem returns_validatePools
    (pools : List (Asset × Asset))
    (path : List Asset) : Returns (validatePools pools path) := by
  induction path generalizing pools with
  | nil =>
      exact failsOnly_ok _ _
  | cons asset1 rest inductionHypothesis =>
      cases rest with
      | nil =>
          exact failsOnly_ok _ _
      | cons asset2 rest =>
          refine .bind (returns_of_error (failsOnly_poolId _ _)) fun id => ?_
          exact .bind returns_ensure fun _ => inductionHypothesis _

omit [DecidableEq Account] in
theorem returns_pathPool {isBid : Bool} {asset1 asset2 : Asset} :
    Returns (config.pathPool isBid asset1 asset2) := by
  have located (first second : Asset) :
      Returns (config.poolAddress first second) :=
    .bind (returns_of_error (failsOnly_poolId _ _)) fun _ => failsOnly_ok _ _
  cases isBid with
  | true =>
      exact located asset2 asset1
  | false =>
      exact located asset1 asset2

theorem returns_creditSwap
    {isBid : Bool}
    {creditIn : Credit w Asset}
    (path : BalancePath w Asset) :
    Returns
      ((config.creditSwap isBid creditIn path ledger).mapError
        Prod.snd) := by
  unfold creditSwap
  split
  · rename_i asset1 asset1In asset2 amountOut rest
    have resolved :
        Returns (do
          let poolFrom ← config.pathPool isBid asset1 asset2
          config.withdraw asset2 poolFrom amountOut true ledger) :=
      .bind returns_pathPool fun _ => returns_withdraw
    dsimp only
    split
    · rename_i fault failed
      exact fun _ same => Except.error.inj same ▸ resolved fault failed
    · split
      · rename_i fault failed
        exact fun _ same =>
          Except.error.inj same ▸ returns_pathPool fault failed
      · split
        · exact fun _ same => Except.error.inj same ▸ nofun
        · exact failsOnly_ok _ _
  · exact fun _ same => Except.error.inj same ▸ nofun

theorem returns_swap
    {isBid keepAlive : Bool}
    {sender sendTo : Account}
    (path : BalancePath w Asset) :
    Returns (config.swap isBid sender path sendTo keepAlive ledger) := by
  refine .bind returns_okOr fun head => ?_
  refine .bind returns_withdraw fun paid => ?_
  refine .bind (returns_creditSwap path) fun swapped => ?_
  exact returns_resolve.mapErr

/-- Swapping follows a path of finite length. -/
theorem returns_doFillPool
    {isBid : Bool}
    {orderer : Account}
    {base quote : Asset} :
    Returns
      (config.doFillPool isBid orderer amount base quote ledger) := by
  have validated (path : List Asset) :
      Returns (config.validateSwapPath path) := by
    refine .bind returns_ensure fun _ => ?_
    exact .bind returns_ensure fun _ => returns_validatePools _ _
  cases isBid with
  | true =>
      refine .bind ?_ fun _ => failsOnly_ok _ _
      refine .bind returns_ensure fun _ => ?_
      refine .bind returns_ensure fun _ => ?_
      refine .bind (validated _) fun _ => ?_
      refine .bind (.bind (returns_balancePathBack _) fun _ =>
        failsOnly_ok _ _) fun path => ?_
      refine .bind returns_okOr fun head => ?_
      refine .bind returns_ensure fun _ => ?_
      exact .bind (returns_swap _) fun _ => failsOnly_ok _ _
  | false =>
      refine .bind ?_ fun _ => failsOnly_ok _ _
      refine .bind returns_ensure fun _ => ?_
      refine .bind returns_ensure fun _ => ?_
      refine .bind (validated _) fun _ => ?_
      refine .bind (returns_balancePathFromAmountIn _) fun path => ?_
      refine .bind returns_okOr fun last => ?_
      refine .bind returns_ensure fun _ => ?_
      exact .bind (returns_swap _) fun _ => failsOnly_ok _ _

end Returns

section Rounds

variable {isBid : Bool} {orderer : Account} {base quote : Asset}
  {books : Bool → PriceMap w Account}
  {state next : MatchState w Account Asset}

/-- The pool fills some of the order, and none of the levels change. -/
theorem descends_of_fillFromPool
    {quantity : BitVec w}
    (covered : quantity ≤ state.remainOrders)
    (filled :
      config.fillFromPool isBid orderer base quote quantity state =
        .ok next) :
    next.pool = state.pool ∧ state.Descends isBid next := by
  obtain ⟨swapped, changed⟩ := fillFromPool_eq_ok filled
  have positive := BitVec.toNat_pos_of_ne_zero (ne_zero_of_doFillPool swapped)
  have samePool : next.pool = state.pool := by
    rw [changed]
  have sameLevels : next.levels isBid = state.levels isBid := by
    rw [MatchState.levels, samePool, MatchState.levels]
  have less : next.remainOrders.toNat < state.remainOrders.toNat := by
    rw [changed]
    dsimp only
    rw [BitVec.toNat_sub_of_le covered]
    have bound := BitVec.le_def.mp covered
    omega
  exact ⟨samePool, less.le, sameLevels.le, .inl less⟩

omit [DecidableEq Asset] in
/-- The book fills some of the order, or the level is removed. -/
theorem descends_of_doFillBook
    (width : 0 < w)
    (refines : state.pool.Refines books)
    {price index : BitVec w}
    (best : state.pool.nextOrder isBid = some (price, index))
    (unfinished : 0 < state.remainOrders)
    (filled : doFillBook isBid price state = .ok next) :
    state.Descends isBid next := by
  have fills := fillsBook_of_doFillBook width refines filled
  have levels : state.levels isBid = (books !isBid).size :=
    (refines !isBid).size_eq
  have nextLevels :
      next.levels isBid =
        ((books !isBid).fillOrder price state.remainOrders).2.size := by
    rw [MatchState.levels, (fills.refines !isBid).size_eq,
      Function.update_self]
  have remain := fills.remainOrders
  refine ⟨by omega, ?_, ?_⟩
  · rw [levels, nextLevels]
    exact PriceMap.size_fillOrder_le
  · by_cases nothing :
        Tick.fillsWorth (fun _ part => part)
          ((books !isBid).fillsAt price state.remainOrders) = 0
    · refine .inr ?_
      rw [levels, nextLevels]
      refine PriceMap.size_fillOrder_lt (refines.best_of_nextOrder best).1
        (PriceMap.not_mem_fillOrder ?_)
      rw [nothing]
      exact BitVec.lt_def.mp unfinished
    · exact .inl (by omega)

/-- A round that goes on takes from the order or from the levels. -/
theorem descends_of_matchBody
    (width : 0 < w)
    (refines : state.pool.Refines books)
    (stepped :
      config.matchBody isBid orderer base quote state = .ok (.inl next)) :
    state.Descends isBid next := by
  obtain ⟨price, index, _, best, _,
    ⟨quantity, takes, filled⟩ | ⟨middle, reached, unfinished, filled⟩⟩ :=
    matchBody_next stepped
  · exact (descends_of_fillFromPool takes.le filled).2
  · rcases reached with rfl | ⟨quantity, takes, swapped⟩
    · exact descends_of_doFillBook width refines best unfinished filled
    · obtain ⟨samePool, first⟩ := descends_of_fillFromPool takes.le swapped
      rw [← samePool] at refines best
      exact first.trans
        (descends_of_doFillBook width refines best unfinished filled)

theorem returns_fillFromPool
    {quantity : BitVec w} :
    Returns
      (config.fillFromPool isBid orderer base quote quantity state) :=
  .bind returns_doFillPool fun _ => failsOnly_ok _ _

omit [DecidableEq Account] [DecidableEq Asset] in
theorem returns_doFillBook
    (width : 0 < w)
    (refines : state.pool.Refines books)
    {price : BitVec w} : Returns (doFillBook isBid price state) := by
  obtain ⟨pool, executed, _⟩ :=
    refines.fillOrder_eq width isBid price state.remainOrders
  rw [doFillBook, executed]
  exact failsOnly_ok _ _

/-- A round returns if its search does. -/
theorem returns_matchBody
    (width : 0 < w)
    (refines : state.pool.Refines books)
    (searchReturns :
      ∀ price index,
        0 < state.remainOrders →
          state.pool.nextOrder isBid = some (price, index) →
            config.findMaxSwapQuantity state.pool isBid price state.ledger
              base quote state.remainOrders ≠ .error .diverge) :
    Returns (config.matchBody isBid orderer base quote state) := by
  unfold matchBody
  split
  · rename_i unfinished
    split
    · rename_i price index best
      refine .bind (returns_of_ne_diverge
        (searchReturns price index unfinished best)) fun quantity => ?_
      split
      · exact .bind returns_fillFromPool fun _ => failsOnly_ok _ _
      · dsimp only
        split
        · refine returns_fillFromPool.bind_of_ok fun middle filled => ?_
          have samePool : middle.pool = state.pool := by
            rw [(fillFromPool_eq_ok filled).2]
          rw [← samePool] at refines
          exact .bind (returns_doFillBook width refines)
            fun _ => failsOnly_ok _ _
        · rw [ok_bind]
          exact .bind (returns_doFillBook width refines)
            fun _ => failsOnly_ok _ _
    · exact failsOnly_ok _ _
  · exact failsOnly_ok _ _

/-- Every round of matching starts from a pool that represents its books. -/
theorem refines_of_rounds
    (width : 0 < w)
    {count : Nat}
    (refines : state.pool.Refines books)
    (visited :
      Loop.rounds (config.matchBody isBid orderer base quote) count state =
        some next) : ∃ nextBooks, next.pool.Refines nextBooks := by
  have preserved :
      ∀ state next : MatchState w Account Asset,
        (∃ books, state.pool.Refines books) →
          config.matchBody isBid orderer base quote state =
              .ok (.inl next) →
            ∃ books, next.pool.Refines books :=
    fun _ _ known stepped => refines_of_matchBody width known stepped
  have kept := Loop.rounds_invariant preserved ⟨books, refines⟩ visited
  exact kept

/-- The fuel of the loop is enough. -/
theorem rounds_of_fuel
    (width : 0 < w)
    (refines : state.pool.Refines books) :
    Loop.rounds (config.matchBody isBid orderer base quote)
        (state.remainOrders.toNat +
          (state.pool.getOrderbook !isBid).size + 1) state = none := by
  have decreases :
      ∀ state next : MatchState w Account Asset,
        (∃ books, state.pool.Refines books) →
          config.matchBody isBid orderer base quote state =
              .ok (.inl next) →
            (∃ books, next.pool.Refines books) ∧
              next.remainOrders.toNat + next.levels isBid <
                state.remainOrders.toNat + state.levels isBid := by
    rintro state next ⟨books, refines⟩ stepped
    obtain ⟨remain, levels, progress⟩ :=
      descends_of_matchBody width refines stepped
    exact ⟨refines_of_matchBody width ⟨books, refines⟩ stepped, by omega⟩
  exact Loop.rounds_eq_none_of_measure decreases ⟨books, refines⟩
    (Nat.lt_succ_self _)

end Rounds

/--
Matching ends in every reachable pool.  A round that goes on decreases the
remaining quantity, or leaves it and decreases the number of levels of the
opposite book; so the loop ends if its searches do.
-/
theorem matching_ends
    (wide : 64 ≤ w)
    (config : Config w Account Asset)
    (setup : Setup w Account Asset)
    {start pallet : Pallet w Account Asset}
    {calls : List (Dispatchable w Account Asset)}
    (created : start.storage.Created)
    (ran : Run.run (Pallet.step config setup) calls start = some pallet)
    {id : Asset × Asset}
    {pool : Pool w Account}
    (found : pallet.storage.pools id = some pool)
    (isBid : Bool)
    (orderer : Account)
    (base quote : Asset)
    (orderQuantity : BitVec w)
    (ledger : Ledger w Account Asset) :
    (∀ count state next,
        Loop.rounds (config.matchBody isBid orderer base quote) count
            ⟨orderQuantity, pool, ledger, [], []⟩ = some state →
          config.matchBody isBid orderer base quote state =
              .ok (.inl next) →
            Prod.Lex (· < ·) (· < ·)
              (next.remainOrders.toNat, next.levels isBid)
              (state.remainOrders.toNat, state.levels isBid)) ∧
      ((∀ count state price index,
          Loop.rounds (config.matchBody isBid orderer base quote) count
              ⟨orderQuantity, pool, ledger, [], []⟩ = some state →
            0 < state.remainOrders →
              state.pool.nextOrder isBid = some (price, index) →
                config.findMaxSwapQuantity state.pool isBid price
                  state.ledger base quote state.remainOrders ≠
                    .error .diverge) →
        config.matchLoop isBid orderer base quote
            ⟨orderQuantity, pool, ledger, [], []⟩ ≠ .error .diverge) := by
  have width : 0 < w := by omega
  obtain ⟨books, keeps⟩ := Pallet.keeps_of_run wide created ran _ _ found
  have reached {count : Nat} {state : MatchState w Account Asset}
      (visited :
        Loop.rounds (config.matchBody isBid orderer base quote) count
          ⟨orderQuantity, pool, ledger, [], []⟩ = some state) :
      ∃ books, state.pool.Refines books :=
    refines_of_rounds width keeps.refines visited
  refine ⟨fun count state next visited stepped => ?_,
    fun searchReturns diverged => ?_⟩
  · obtain ⟨_, refines⟩ := reached visited
    exact (descends_of_matchBody width refines stepped).lex
  · -- the round that ended the loop did not run for ever
    have ended :
        Loop.rounds (config.matchBody isBid orderer base quote)
          (orderQuantity.toNat + (pool.getOrderbook !isBid).size + 1)
          ⟨orderQuantity, pool, ledger, [], []⟩ = none :=
      rounds_of_fuel width keeps.refines
    obtain ⟨count, state, visited, outcome⟩ :=
      Loop.loop_of_rounds_eq_none ended
    obtain ⟨_, refines⟩ := reached visited
    rw [matchLoop] at diverged
    rw [diverged] at outcome
    exact (returns_matchBody width refines fun price index =>
      searchReturns count state price index visited).ne_diverge outcome.symm

/-- A bid meets a level whose only order was cancelled. -/
theorem matching_ends_empty_level :
    ∃ pallet pool next,
      Run.run (Pallet.step mock (.mock (.inl 0)))
          (Pallet.mockOpening (.inl 1) 1000 100000 ++
            [.onPool (.dispatch ⟨.inl 1, 1, .limitOrder 0 1 false 101 5⟩),
              .onPool (.dispatch
                ⟨.inl 1, 2, .cancelOrder 0 1 101 OrderId.startAskId 5⟩),
              .onPool (.removeLiquidity (.inl 1) 0 1 1000 1 1 (.inl 1))])
          (.genesis (.mock Sum.isLeft) fun _ => false) = some pallet ∧
        pallet.storage.pools (0, 1) = some pool ∧
        mock.matchBody true (.inl 2) 0 1
            ⟨10, pool, pallet.storage.ledger, [], []⟩ = .ok (.inl next) ∧
        Prod.Lex (· < ·) (· < ·)
          (next.remainOrders.toNat, next.levels true) (10, 1) ∧
        mock.matchLoop true (.inl 2) 0 1
            ⟨10, pool, pallet.storage.ledger, [], []⟩ ≠ .error .diverge := by
  have observed :
      ((Run.run (Pallet.step mock (.mock (.inl 0)))
          (Pallet.mockOpening (.inl 1) 1000 100000 ++
            [.onPool (.dispatch ⟨.inl 1, 1, .limitOrder 0 1 false 101 5⟩),
              .onPool (.dispatch
                ⟨.inl 1, 2, .cancelOrder 0 1 101 OrderId.startAskId 5⟩),
              .onPool (.removeLiquidity (.inl 1) 0 1 1000 1 1 (.inl 1))])
          (.genesis (.mock Sum.isLeft) fun _ => false)).bind
        fun pallet => (pallet.storage.pools (0, 1)).bind
        fun pool => (Loop.handedOn (mock.matchBody true (.inl 2) 0 1
          ⟨10, pool, pallet.storage.ledger, [], []⟩)).map
        fun next => (pool.asks.size,
          (mock.findMaxSwapQuantity pool true 101 pallet.storage.ledger 0 1
            10).isOk,
          pool.nextOrder true,
          next.pool.nextOrder true)) =
        some (1, true, some (101, 0), none) := by
    decide +kernel
  simp only [Option.bind_eq_some_iff, Option.map_eq_some_iff,
    Loop.handedOn_eq_some_iff, Prod.mk.injEq] at observed
  obtain ⟨pallet, ran, pool, found, next, stepped, levels, searched, best,
    nothing⟩ := observed
  obtain ⟨descends, ends⟩ := matching_ends (by decide) mock (.mock (.inl 0))
    (Pallet.created_genesis _ _) ran found true (.inl 2) 0 1 10
    pallet.storage.ledger
  have fewer := descends 0 _ next rfl stepped
  have size :
      MatchState.levels true
        (⟨10, pool, pallet.storage.ledger, [], []⟩ :
          MatchState 64 MockAccount Nat) = 1 := levels
  rw [size] at fewer
  refine ⟨pallet, pool, next, ran, found, stepped, fewer,
    ends fun count state price index visited _ listed => ?_⟩
  rcases count with _ | _ | count
  · obtain rfl := Option.some.inj visited
    obtain ⟨rfl, _⟩ : 101 = price ∧ 0 = index := by
      simpa using best.symm.trans listed
    obtain ⟨quantity, returned⟩ := exists_ok_of_isOk searched
    exact fun diverged => nomatch returned.symm.trans diverged
  · obtain ⟨_, first, later⟩ := Loop.rounds_succ_eq_some_iff.mp visited
    obtain rfl := Option.some.inj later
    obtain rfl : next = _ := by
      simpa using stepped.symm.trans first
    exact nomatch nothing.symm.trans listed
  · -- without levels the second round is the last one
    obtain ⟨_, first, later⟩ := Loop.rounds_succ_eq_some_iff.mp visited
    obtain rfl : next = _ := by
      simpa using stepped.symm.trans first
    obtain ⟨_, second, _⟩ := Loop.rounds_succ_eq_some_iff.mp later
    obtain ⟨_, _, _, some, _⟩ := matchBody_next second
    exact nomatch nothing.symm.trans some

end Config

end HybridOrderbook
