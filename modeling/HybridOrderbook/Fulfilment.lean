import HybridOrderbook.PalletRuns
import HybridOrderbook.PoolRuns

namespace HybridOrderbook

open Library

/-!
# Orders are filled completely

The quantity that is left of an order, what the pool filled and what the book
filled add up to the order after every fill.  When matching ends nothing is
left.
-/

variable {w : Nat} {Account Asset : Type}

namespace FilledOrders

/-- Quantity of all fills. -/
def total (fills : FilledOrders w Account) : Nat :=
  (fills.map fun fill => fill.2.2.toNat).sum

/-- Quantity of the fills against the orders of one account. -/
def totalOf
    [DecidableEq Account]
    (who : Account)
    (fills : FilledOrders w Account) : Nat :=
  (fills.map fun fill => if fill.1 = who then fill.2.2.toNat else 0).sum

end FilledOrders

/-- Quantity that was asked of the pool. -/
def MatchState.fromPool (state : MatchState w Account Asset) : Nat :=
  (state.swaps.map fun swap => swap.1.toNat).sum

/--
A taker's balance of the base asset changes by what is traded, except for the
trades with oneself.
-/
def TakesBase (isBid : Bool) (before after traded own : Nat) : Prop :=
  if isBid then after + own = before + traded
  else after + traded = before + own

theorem TakesBase.trans
    {isBid : Bool}
    {before middle after traded own laterTraded laterOwn : Nat}
    (first : TakesBase isBid before middle traded own)
    (second : TakesBase isBid middle after laterTraded laterOwn) :
    TakesBase isBid before after (traded + laterTraded)
      (own + laterOwn) := by
  cases isBid <;> simp only [TakesBase, Bool.false_eq_true, ↓reduceIte]
    at first second ⊢ <;> omega

theorem takesBase_zero (isBid : Bool) (balance : Nat) :
    TakesBase isBid balance balance 0 0 := by
  cases isBid <;> rfl

variable [DecidableEq Account] [DecidableEq Asset]

/-- One trade, seen from the taker. -/
theorem Ledger.Trades.takesBase
    {ledger next : Ledger w Account Asset}
    {base quote : Asset}
    {isBid : Bool}
    {orderer other : Account}
    {quantity amount : Nat}
    (different : base ≠ quote)
    (trades :
      ledger.Trades next base quote
        (if isBid then orderer else other)
        (if isBid then other else orderer) quantity amount) :
    TakesBase isBid (ledger.balance base orderer).toNat
      (next.balance base orderer).toNat quantity
      (if other = orderer then quantity else 0) := by
  have moved := trades base orderer
  by_cases own : other = orderer
  · subst own
    cases isBid <;>
      simpa [TakesBase, Ledger.flow, different] using moved
  · cases isBid <;>
      simpa [TakesBase, Ledger.flow, different, own, Ne.symm own] using moved

namespace Config

variable {config : Config w Account Asset} {isBid : Bool}
  {orderer : Account} {base quote : Asset} {pool : Pool w Account}

/-- A round would subtract more than is left of the order. -/
def roundUnderflows
    (config : Config w Account Asset)
    (isBid : Bool)
    (base quote : Asset)
    (state : MatchState w Account Asset) : Bool :=
  match state.pool.nextOrder isBid with
  | none => false
  | some (targetPrice, _) =>
      match config.findMaxSwapQuantity state.pool isBid targetPrice
          state.ledger base quote state.remainOrders with
      | .error _ => false
      | .ok maxSwapQuantity =>
          -- the order is left with `remain_orders - max_swap_quantity`
          !(state.remainOrders ≤ maxSwapQuantity) &&
            match state.pool.fillOrder isBid targetPrice
                (state.remainOrders - maxSwapQuantity) with
            | .error _ => false
            | .ok (filled, _) =>
                (state.remainOrders - maxSwapQuantity).toNat <
                  Tick.fillsWorth (fun _ part => part) (filled.getD [])

omit [DecidableEq Account] in
/-- No round of a match on well-formed books underflows. -/
theorem roundUnderflows_eq_false
    (width : 0 < w)
    {state : MatchState w Account Asset}
    {books : Bool → PriceMap w Account}
    (refines : state.pool.Refines books) :
    config.roundUnderflows isBid base quote state = false := by
  unfold roundUnderflows
  split
  · rfl
  · split
    · rfl
    · rename_i targetPrice _ _ _ maxSwapQuantity _
      obtain ⟨next, executed, _⟩ := refines.fillOrder_eq width isBid
        targetPrice (state.remainOrders - maxSwapQuantity)
      have bounded := (books !isBid).fillsWorth_fillsAt_le targetPrice
        (state.remainOrders - maxSwapQuantity)
      rw [executed]
      simp only [Bool.and_eq_false_iff, decide_eq_false_iff_not]
      exact .inr (Nat.not_lt.mpr bounded)

/-- No round of the loop underflows. -/
theorem passes_roundUnderflows
    (width : 0 < w)
    {books : Bool → PriceMap w Account}
    (refines : pool.Refines books)
    (fuel : Nat)
    (orderQuantity : BitVec w)
    (ledger : Ledger w Account Asset) :
    Loop.passes (config.roundUnderflows isBid base quote)
      (config.matchBody isBid orderer base quote) fuel
      ⟨orderQuantity, pool, ledger, [], []⟩ = false := by
  have preserved :
      ∀ state next : MatchState w Account Asset,
        (∃ books, state.pool.Refines books) →
          config.matchBody isBid orderer base quote state =
              .ok (.inl next) →
            ∃ books, next.pool.Refines books :=
    fun _ _ known stepped => refines_of_matchBody width known stepped
  exact Loop.passes_eq_false preserved
    (fun _ ⟨_, known⟩ => roundUnderflows_eq_false width known) fuel
    ⟨books, refines⟩

/-- Matching goes on until nothing is left. -/
theorem remainOrders_of_matchOrders
    {orderQuantity : BitVec w}
    {ledger : Ledger w Account Asset}
    {final : MatchState w Account Asset}
    (matched :
      config.matchOrders isBid orderer base quote pool orderQuantity
        ledger = .ok final) :
    final.remainOrders = 0 := by
  simp only [matchOrders, bind_eq_ok_iff] at matched
  obtain ⟨left, _, finished⟩ := matched
  by_cases unfinished : left.remainOrders > 0
  · simp only [unfinished, ↓reduceIte] at finished
    rw [(fillFromPool_eq_ok finished).2]
    exact BitVec.sub_self _
  · simp only [unfinished, ↓reduceIte, Except.ok.injEq] at finished
    rw [← finished]
    exact BitVec.le_antisymm (BitVec.not_lt.mp unfinished)
      (by simp [BitVec.le_def])

end Config

/-- What has been filled and what is left, while an order is matched. -/
structure Fulfils
    (config : Config w Account Asset)
    (isBid : Bool)
    (orderer : Account)
    (base quote : Asset)
    (books : Bool → PriceMap w Account)
    (orderQuantity : BitVec w)
    (ledger : Ledger w Account Asset)
    (state : MatchState w Account Asset) : Prop where
  counts :
    state.remainOrders.toNat + state.fromPool + state.filledOrders.total =
      orderQuantity.toNat
  opposite :
    ∃ current,
      state.pool.Refines current ∧
        ((current !isBid).volumeAt fun _ => true) +
            state.filledOrders.total =
          (books !isBid).volumeAt fun _ => true
  balance :
    base ≠ quote →
      TakesBase isBid (ledger.balance base orderer).toNat
        (state.ledger.balance base orderer).toNat state.fromPool
        (if config.address (base, quote) = orderer then state.fromPool else 0)

section Matching

variable {config : Config w Account Asset} {isBid : Bool}
  {orderer : Account} {base quote : Asset} {pool : Pool w Account}
  {books : Bool → PriceMap w Account} {orderQuantity : BitVec w}
  {ledger : Ledger w Account Asset} {state next : MatchState w Account Asset}

theorem Fulfils.fillFromPool
    {quantity : BitVec w}
    (fulfils :
      Fulfils config isBid orderer base quote books orderQuantity ledger
        state)
    (takes : config.TakesFromPool isBid base quote state quantity)
    (filled :
      config.fillFromPool isBid orderer base quote quantity state =
        .ok next) :
    Fulfils config isBid orderer base quote books orderQuantity ledger
      next := by
  obtain ⟨swapped, shape⟩ := Config.fillFromPool_eq_ok filled
  obtain ⟨_, _, amount, _, _, trades, _⟩ := Config.doFillPool_eq_ok swapped
  have left := BitVec.toNat_sub_of_le takes.le
  have covered := BitVec.le_def.mp takes.le
  have asked : next.fromPool = state.fromPool + quantity.toNat := by
    rw [shape]
    simp [MatchState.fromPool]
  have sameFills : next.filledOrders = state.filledOrders := by rw [shape]
  have samePool : next.pool = state.pool := by rw [shape]
  have remains : next.remainOrders = state.remainOrders - quantity := by
    rw [shape]
  refine ⟨?_, ?_, fun different => ?_⟩
  · have counts := fulfils.counts
    rw [remains, left, asked, sameFills]
    omega
  · rw [samePool, sameFills]
    exact fulfils.opposite
  · have here := Ledger.Trades.takesBase different trades
    rw [asked]
    convert (fulfils.balance different).trans here using 1
    split <;> rfl

omit [DecidableEq Asset] in
theorem Fulfils.doFillBook
    (width : 0 < w)
    {price : BitVec w}
    (fulfils :
      Fulfils config isBid orderer base quote books orderQuantity ledger
        state)
    (filled : HybridOrderbook.doFillBook isBid price state = .ok next) :
    Fulfils config isBid orderer base quote books orderQuantity ledger
      next := by
  obtain ⟨current, refines, volumes⟩ := fulfils.opposite
  have fills := fillsBook_of_doFillBook width refines filled
  have taken := (current !isBid).volumeAt_fillOrder (fun _ => true) price
    state.remainOrders
  have given :
      next.filledOrders.total =
        state.filledOrders.total +
          Tick.fillsWorth (fun _ part => part)
            ((current !isBid).fillsAt price state.remainOrders) := by
    rw [fills.filledOrders]
    simp [FilledOrders.total, Tick.fillsWorth, Function.comp_def]
  have sameSwaps : next.fromPool = state.fromPool := by
    simp only [MatchState.fromPool, fills.swaps]
  refine ⟨?_, ⟨_, fills.refines, ?_⟩, fun different => ?_⟩
  · have counts := fulfils.counts
    have remains := fills.remainOrders
    rw [sameSwaps, given]
    omega
  · rw [Function.update_self, given]
    simp only [↓reduceIte] at taken
    omega
  · rw [sameSwaps, fills.ledger]
    exact fulfils.balance different

/-- Everything that was counted, when matching ends. -/
theorem fulfils_of_matchOrders
    (width : 0 < w)
    (refines : pool.Refines books)
    {final : MatchState w Account Asset}
    (matched :
      config.matchOrders isBid orderer base quote pool orderQuantity
        ledger = .ok final) :
    Fulfils config isBid orderer base quote books orderQuantity ledger
      final := by
  refine Config.matchOrders_invariant
    (Fulfils config isBid orderer base quote books orderQuantity ledger)
    ?_ ?_ ?_ matched
  · intro state next quantity fulfils takes filled
    exact fulfils.fillFromPool takes filled
  · intro state next price index fulfils _ _ filled
    exact fulfils.doFillBook width filled
  · refine ⟨by simp [MatchState.fromPool, FilledOrders.total],
      ⟨books, refines, by simp [FilledOrders.total]⟩, fun _ => ?_⟩
    simpa [MatchState.fromPool] using takesBase_zero isBid _

/-- Settling moves the filled quantity, except for one's own orders. -/
theorem takesBase_of_handleFilledOrders
    (different : base ≠ quote)
    {fills : FilledOrders w Account}
    {settledLedger : Ledger w Account Asset}
    (settled :
      config.handleFilledOrders isBid orderer base quote pool fills ledger =
        .ok settledLedger) :
    TakesBase isBid (ledger.balance base orderer).toNat
      (settledLedger.balance base orderer).toNat fills.total
      (fills.totalOf orderer) := by
  induction fills generalizing ledger with
  | nil =>
      simp only [Config.handleFilledOrders, List.foldlM_nil, pure,
        Except.pure, Except.ok.injEq] at settled
      subst settled
      exact takesBase_zero isBid _
  | cons fill rest inductionHypothesis =>
      rcases fill with ⟨owner, price, quantity⟩
      simp only [Config.handleFilledOrders, List.foldlM_cons,
        bind_eq_ok_iff] at settled
      obtain ⟨middle, settledFirst, settledRest⟩ := settled
      obtain ⟨_, _, trades, _⟩ := Config.settleFill_eq_ok settledFirst
      exact (trades.takesBase different).trans
        (inductionHypothesis settledRest)

/-- A match that fills anything reads the reserves. -/
theorem reserves_of_matchOrders
    {final : MatchState w Account Asset}
    (matched :
      config.matchOrders isBid orderer base quote pool orderQuantity
        ledger = .ok final)
    (some : 0 < orderQuantity) :
    ∃ baseReserve quoteReserve,
      config.getReserves ledger base quote =
        .ok (baseReserve, quoteReserve) := by
  simp only [Config.matchOrders, Config.matchLoop, bind_eq_ok_iff] at matched
  obtain ⟨left, looped, finished⟩ := matched
  unfold Loop.loop at looped
  split at looped
  · rename_i stepped
    obtain ⟨_, _, _, _, found, _⟩ := Config.matchBody_next stepped
    simp only [Config.findMaxSwapQuantity, bind_eq_ok_iff] at found
    obtain ⟨⟨baseReserve, quoteReserve⟩, reserves, _⟩ := found
    exact ⟨_, _, reserves⟩
  · rename_i stepped
    obtain ⟨rfl, _⟩ := Config.matchBody_done stepped
    cases looped
    simp only [gt_iff_lt, some, ↓reduceIte] at finished
    obtain ⟨swapped, _⟩ := Config.fillFromPool_eq_ok finished
    obtain ⟨_, _, _, reserves, _⟩ := Config.doFillPool_eq_ok swapped
    exact ⟨_, _, reserves⟩
  · cases looped

/-- An order of nothing is matched with nothing. -/
theorem matchOrders_zero :
    config.matchOrders isBid orderer base quote pool 0 ledger =
      .ok ⟨0, pool, ledger, [], []⟩ := by
  simp [Config.matchOrders, Config.matchLoop, Loop.loop, Config.matchBody,
    bind, Except.bind]

end Matching

/--
Filling an order of a reachable pool: the loop's final state, and what it says
about the order, the taker and the opposite book.
-/
structure CompletelyFilled
    (config : Config w Account Asset)
    (isBid : Bool)
    (orderer : Account)
    (base quote : Asset)
    (pool : Pool w Account)
    (orderQuantity : BitVec w)
    (before : Ledger w Account Asset)
    (nextPool : Pool w Account)
    (after : Ledger w Account Asset)
    (final : MatchState w Account Asset) : Prop where
  matched :
    config.matchOrders isBid orderer base quote pool orderQuantity before =
      .ok final
  settled :
    config.handleFilledOrders isBid orderer base quote final.pool
      final.filledOrders final.ledger = .ok after
  samePool : final.pool = nextPool
  complete :
    final.fromPool + final.filledOrders.total = orderQuantity.toNat
  noUnderflow :
    Loop.passes (config.roundUnderflows isBid base quote)
      (config.matchBody isBid orderer base quote)
      (orderQuantity.toNat + (pool.getOrderbook !isBid).size + 1)
      ⟨orderQuantity, pool, before, [], []⟩ = false
  takesBase :
    TakesBase isBid (before.balance base orderer).toNat
      (after.balance base orderer).toNat orderQuantity.toNat
      (final.filledOrders.totalOf orderer +
        if config.address (base, quote) = orderer then final.fromPool else 0)
  opposite :
    (nextPool.getOrderbook !isBid).openQuantity + final.filledOrders.total =
      (pool.getOrderbook !isBid).openQuantity

/--
In every state that calls of the pallet reach from new pools, a match that
succeeds fills its order exactly once and completely.
-/
theorem completelyFilled_of_doMatchOrder
    (wide : 64 ≤ w)
    (config : Config w Account Asset)
    (setup : Setup w Account Asset)
    {start pallet : Pallet w Account Asset}
    (created : start.storage.Created)
    (calls : List (Dispatchable w Account Asset))
    (ran : Run.run (Pallet.step config setup) calls start = some pallet)
    (isBid : Bool)
    (orderer : Account)
    (base quote : Asset)
    (orderQuantity : BitVec w)
    {pool nextPool : Pool w Account}
    {after : Ledger w Account Asset}
    (found : pallet.storage.pools (base, quote) = some pool)
    (executed :
      config.doMatchOrder isBid orderer base quote pool orderQuantity
        pallet.storage.ledger = .ok (nextPool, after)) :
    ∃ final,
      CompletelyFilled config isBid orderer base quote pool orderQuantity
        pallet.storage.ledger nextPool after final := by
  have width : 0 < w := by omega
  obtain ⟨books, keeps⟩ := Pallet.keeps_of_run wide created ran _ _ found
  obtain ⟨final, matched, settled, rfl⟩ :=
    Config.doMatchOrder_eq_ok_iff.mp executed
  have fulfils := fulfils_of_matchOrders width keeps.refines matched
  have complete :
      final.fromPool + final.filledOrders.total = orderQuantity.toNat := by
    have counts := fulfils.counts
    rw [Config.remainOrders_of_matchOrders matched] at counts
    simpa using counts
  refine ⟨final, matched, settled, rfl, complete,
    Config.passes_roundUnderflows width keeps.refines _ _ _, ?_, ?_⟩
  · by_cases some : 0 < orderQuantity
    · obtain ⟨_, _, reserves⟩ := reserves_of_matchOrders matched some
      have different := (Config.getReserves_eq_ok_iff.mp reserves).1
      have swapped := fulfils.balance different
      have filled := takesBase_of_handleFilledOrders different settled
      rw [← complete, Nat.add_comm (final.filledOrders.totalOf orderer)]
      exact swapped.trans filled
    · have none : orderQuantity = 0 := BitVec.le_antisymm
        (BitVec.not_lt.mp some) (by simp [BitVec.le_def])
      subst none
      rw [matchOrders_zero, Except.ok.injEq] at matched
      subst matched
      cases settled
      simpa [FilledOrders.totalOf, MatchState.fromPool] using
        takesBase_zero isBid _
  · obtain ⟨current, refines, volumes⟩ := fulfils.opposite
    rw [refines.openQuantity_eq, keeps.refines.openQuantity_eq]
    exact volumes

/--
After a withdrawal of liquidity, a bid takes from the pool, an ask, the pool,
an own ask and the pool.
-/
theorem completelyFilled_of_bid :
    ∃ (pallet : Pallet 64 Config.MockAccount Nat)
        (pool nextPool : Pool 64 Config.MockAccount)
        (after : Ledger 64 Config.MockAccount Nat)
        (final : MatchState 64 Config.MockAccount Nat),
      Run.run (Pallet.step Config.mock (.mock (.inl 0)))
          (Pallet.mockOpening (.inl 1) 1000 100000 ++
            [.onPool (.dispatch ⟨.inl 1, 1, .limitOrder 0 1 false 104 30⟩),
              .onPool (.dispatch ⟨.inl 3, 2, .limitOrder 0 1 false 106 5⟩),
              .onPool (.removeLiquidity (.inl 1) 0 1 1000 1 1 (.inl 1))])
          (.genesis (.mock Sum.isLeft) fun _ => false) = some pallet ∧
      pallet.storage.pools (0, 1) = some pool ∧
      Config.mock.doMatchOrder true (.inl 3) 0 1 pool 150
        pallet.storage.ledger = .ok (nextPool, after) ∧
      CompletelyFilled Config.mock true (.inl 3) 0 1 pool 150
        pallet.storage.ledger nextPool after final := by
  have succeeds :
      ((Run.run (Pallet.step Config.mock (.mock (.inl 0)))
          (Pallet.mockOpening (.inl 1) 1000 100000 ++
            [.onPool (.dispatch ⟨.inl 1, 1, .limitOrder 0 1 false 104 30⟩),
              .onPool (.dispatch ⟨.inl 3, 2, .limitOrder 0 1 false 106 5⟩),
              .onPool (.removeLiquidity (.inl 1) 0 1 1000 1 1 (.inl 1))])
          (.genesis (.mock Sum.isLeft) fun _ => false)).bind
        fun pallet => (pallet.storage.pools (0, 1)).bind
          fun pool => (Config.mock.doMatchOrder true (.inl 3) 0 1 pool 150
            pallet.storage.ledger).toOption).isSome = true := by
    decide +kernel
  obtain ⟨pallet, pool, nextPool, after, ran, found, executed⟩ :=
    Pallet.exists_match_of_isSome succeeds
  obtain ⟨final, filled⟩ := completelyFilled_of_doMatchOrder (by decide)
    Config.mock (.mock (.inl 0)) (Pallet.created_genesis _ _) _ ran true
    (.inl 3) 0 1 150 found executed
  exact ⟨pallet, pool, nextPool, after, final, ran, found, executed, filled⟩

end HybridOrderbook
