import HybridOrderbook.Checked
import HybridOrderbook.SearchRange

namespace HybridOrderbook.Config

open Library Bisection

/-!
# Bids beyond the reserve

The search for a bid starts from the whole quantity of the order, and
`get_amount_in` refuses quantities that the pool does not have.  A probe that
is refused ends the search, and with it the order.  So a bid larger than the
base reserve goes on to the book only if its largest probe does not reach the
reserve.
-/

variable {w : Nat} {Account Asset : Type}

/-- A quotient that fits a unit is computed. -/
theorem exists_mulDiv
    {a b c : BitVec w}
    (nonzero : c.toNat ≠ 0)
    (fits : a.toNat * b.toNat / c.toNat < 2 ^ w) :
    ∃ result, mulDiv a b c = .ok result := by
  refine ⟨BitVec.ofNat w (a.toNat * b.toNat / c.toNat), ?_⟩
  simp only [mulDiv, higher, mul_lt_higher, ↓reduceIte, ok_bind, higherDiv,
    nonzero, tryIntoUnit, fits]

section Probes

variable {config : Config w Account Asset} {pool : Pool w Account}
  {baseReserve quoteReserve quantity larger : BitVec w} (wide : 64 ≤ w)
  (fits :
    config.ProbeFits pool true baseReserve.toNat quoteReserve.toNat
      quantity.toNat)

include wide fits

/-- For less than the base reserve, a price that fits can only overflow. -/
theorem failsOnly_priceAfter_bid
    (reserves : ¬ (quoteReserve = 0 ∨ baseReserve = 0))
    (available : quantity.toNat < baseReserve.toNat) :
    FailsOnly (· = .error .overflow)
      (config.checked.priceAfter pool true baseReserve quoteReserve
        quantity) := by
  intro fault failed
  obtain ⟨error, rfl⟩ := failsOnly_priceAfter wide fits fault failed
  cases priced :
      config.checked.swapAmount true quantity baseReserve quoteReserve with
  | ok amount =>
      obtain ⟨_, _, _, same, _⟩ := priceAfter_of_scalesFit wide priced
        (fits.scales (amountFits_of_swapAmount wide priced))
      rw [same] at failed
      exact failsOnly_mulDiv _ _ _ _ failed
  | error amountFault =>
      have stops :
          config.checked.priceAfter pool true baseReserve quoteReserve
            quantity = .error amountFault :=
        bind_eq_error_iff.mpr (.inl priced)
      obtain rfl := Except.error.inj (stops.symm.trans failed)
      rcases failsOnly_getAmountIn reserves
        (BitVec.not_le.mpr (BitVec.lt_def.mpr available)) _ priced with
        overflow | panicked
      · exact overflow
      · cases panicked

/-- A probe is answered unless the pool has too little or overflows. -/
theorem probe_answered_iff
    (target : BitVec w)
    (reserves : ¬ (quoteReserve = 0 ∨ baseReserve = 0)) :
    (config.exactSearch pool true target baseReserve quoteReserve).Answers
        quantity.toNat ↔
      quantity.toNat < baseReserve.toNat ∧
        config.checked.priceAfter pool true baseReserve quoteReserve
          quantity ≠ .error (.error .overflow) := by
  unfold Search.Answers
  rw [exactSearch_probe]
  constructor
  · rintro ⟨answer, answered⟩
    obtain ⟨price, priced, _⟩ := Option.map_eq_some_iff.mp answered
    rw [toOption_eq_some_iff] at priced
    refine ⟨(toNat_of_priceAfter wide priced).2 rfl, ?_⟩
    rw [priced]
    nofun
  · rintro ⟨less, avoided⟩
    obtain ⟨price, priced⟩ :=
      (failsOnly_priceAfter_bid wide fits reserves less).exists_ok avoided
    exact ⟨_, by rw [priced]; rfl⟩

/-- What is priced for more is priced for less. -/
theorem exists_priceAfter_of_le
    (more : quantity.toNat ≤ larger.toNat)
    {further : BitVec w}
    (pricedMore :
      config.checked.priceAfter pool true baseReserve quoteReserve larger =
        .ok further) :
    ∃ price,
      config.checked.priceAfter pool true baseReserve quoteReserve
        quantity = .ok price := by
  obtain ⟨amount, swapped, _⟩ := bind_eq_ok_iff.mp pricedMore
  obtain ⟨⟨basePositive, quotePositive, reads⟩, fee, amountFits⟩ :=
    amountFits_of_swapAmount wide swapped
  obtain ⟨available, productFits⟩ := reads rfl
  have amount :
      config.AmountFits true baseReserve.toNat quoteReserve.toNat
        quantity.toNat := by
    refine ⟨⟨basePositive, quotePositive, fun _ =>
      ⟨Nat.lt_of_le_of_lt more available, ?_⟩⟩, fee, ?_⟩
    · refine Nat.lt_of_le_of_lt (Nat.mul_le_mul_right _ ?_) productFits
      exact Nat.mul_le_mul_left _ more
    · exact Nat.lt_of_le_of_lt (ConstantProduct.amountIn_mono more available)
        amountFits
  obtain ⟨paid, priced⟩ :=
    (exists_swapAmount_iff amount.1 wide fee.le).mpr amount
  obtain ⟨unit, baseNorm, quoteNorm, same, unitExact, baseExact,
    quoteExact⟩ := priceAfter_of_scalesFit wide priced (fits.scales amount)
  have left :
      0 < exactBaseAfter true baseReserve.toNat quantity.toNat :=
    Nat.sub_pos_of_lt (Nat.lt_of_le_of_lt more available)
  -- the price is no more than the one after the larger swap
  have within :
      config.exactPriceAfter pool true baseReserve.toNat quoteReserve.toNat
          quantity.toNat ≤ further.toNat := by
    have falls :
        WithinLimit true
          (config.exactPriceAfter pool true baseReserve.toNat
            quoteReserve.toNat larger.toNat)
          (config.exactPriceAfter pool true baseReserve.toNat
            quoteReserve.toNat quantity.toNat) :=
      exactPriceAfter_within basePositive quotePositive more
        fun _ => available
    rw [(toNat_of_priceAfter wide pricedMore).1]
    exact falls
  rw [same]
  refine exists_mulDiv ?_ ?_
  · rw [baseExact]
    exact (Nat.mul_pos left (Nat.pow_pos (by decide))).ne'
  · rw [unitExact, baseExact, quoteExact]
    exact Nat.lt_of_le_of_lt within further.isLt

end Probes

variable [DecidableEq Account] [DecidableEq Asset]

/--
The search for a bid returns less than the base reserve, so that a bid of at
least the reserve goes on to the book.
-/
def ServesBid
    (config : Config w Account Asset)
    (pool : Pool w Account)
    (target : BitVec w)
    (ledger : Ledger w Account Asset)
    (base quote : Asset)
    (baseReserve remainOrders : BitVec w) : Prop :=
  ∃ quantity,
    config.findMaxSwapQuantity pool true target ledger base quote
        remainOrders = .ok quantity ∧
      quantity < baseReserve ∧
      ∀ orderer index (state : MatchState w Account Asset),
        state.pool = pool → state.ledger = ledger →
          state.remainOrders = remainOrders →
            pool.nextOrder true = some (target, index) →
              baseReserve ≤ remainOrders →
                config.matchBody true orderer base quote state = (do
                  let state ←
                    if quantity ≠ 0 then
                      config.fillFromPool true orderer base quote quantity
                        state
                    else
                      .ok state
                  let state ← doFillBook true target state
                  .ok (.inl state))

/-- A round that is offered less than the order goes on to the book. -/
theorem matchBody_of_less
    {config : Config w Account Asset}
    {orderer : Account}
    {base quote : Asset}
    {state : MatchState w Account Asset}
    {isBid : Bool}
    {target index quantity : BitVec w}
    (best : state.pool.nextOrder isBid = some (target, index))
    (found :
      config.findMaxSwapQuantity state.pool isBid target state.ledger base
        quote state.remainOrders = .ok quantity)
    (less : quantity < state.remainOrders) :
    config.matchBody isBid orderer base quote state = (do
      let state ←
        if quantity ≠ 0 then
          config.fillFromPool isBid orderer base quote quantity state
        else
          .ok state
      let state ← doFillBook isBid target state
      .ok (.inl state)) := by
  have unfinished : state.remainOrders > 0 := by
    rw [BitVec.lt_def] at less
    rw [gt_iff_lt, BitVec.lt_def]
    exact Nat.lt_of_le_of_lt (Nat.zero_le _) less
  have more : ¬ state.remainOrders ≤ quantity := BitVec.not_le.mpr less
  simp only [matchBody, unfinished, best, found, more, ok_bind, ↓reduceIte]

omit [DecidableEq Account] [DecidableEq Asset] in
/-- All quantities of a bid are answered if the largest one is. -/
theorem highest_answers_iff
    {config : Config w Account Asset}
    {pool : Pool w Account}
    {target baseReserve quoteReserve remainOrders : BitVec w}
    (wide : 64 ≤ w)
    (reserves : ¬ (quoteReserve = 0 ∨ baseReserve = 0))
    (fits :
      ∀ interval ∈
        (config.exactSearch pool true target baseReserve
          quoteReserve).visited (.upTo remainOrders.toNat),
        config.RoundFits pool true target baseReserve quoteReserve
          interval) :
    (∀ quantity ∈
        (config.exactSearch pool true target baseReserve
          quoteReserve).probes (.upTo remainOrders.toNat),
        ∃ answer,
          (config.exactSearch pool true target baseReserve
            quoteReserve).probe quantity = some answer) ↔
      remainOrders = 0 ∨
        (config.exactSearch pool true target baseReserve
            quoteReserve).highest remainOrders.toNat < baseReserve.toNat ∧
          config.checked.priceAfter pool true baseReserve quoteReserve
            (BitVec.ofNat w
              ((config.exactSearch pool true target baseReserve
                quoteReserve).highest remainOrders.toNat)) ≠
            .error (.error .overflow) := by
  by_cases none : remainOrders = 0
  · subst none
    refine iff_of_true ?_ (.inl rfl)
    rw [Search.probes_of_empty (by simp [Interval.upTo])]
    simp
  rw [or_iff_right none]
  have top := Search.isHighest_highest
    (config.exactSearch pool true target baseReserve quoteReserve)
    (BitVec.toNat_pos_of_ne_zero none)
  -- every probe is a unit that fits
  have probeFits (number : Nat)
      (member :
        number ∈
          (config.exactSearch pool true target baseReserve
            quoteReserve).probes (.upTo remainOrders.toNat)) :
      (BitVec.ofNat w number).toNat = number ∧
        config.ProbeFits pool true baseReserve.toNat quoteReserve.toNat
          (BitVec.ofNat w number).toNat := by
    have bound := (Search.bounds_of_mem_probes member).2
    obtain ⟨interval, visited, rfl⟩ := List.mem_map.mp member
    have exact : (BitVec.ofNat w interval.middle).toNat = interval.middle := by
      rw [BitVec.toNat_ofNat]
      exact Nat.mod_eq_of_lt (Nat.lt_of_le_of_lt bound remainOrders.isLt)
    refine ⟨exact, ?_⟩
    rw [exact]
    exact (fits interval visited).price
  obtain ⟨topExact, topFits⟩ := probeFits _ top.mem
  have answered := probe_answered_iff wide topFits target reserves
  rw [topExact] at answered
  rw [← answered]
  constructor
  · exact fun all => all _ top.mem
  · intro topAnswers number member
    obtain ⟨larger, further, exactLarger, pricedMore⟩ :=
      exists_price_of_answers topAnswers
    obtain ⟨exact, fitsHere⟩ := probeFits number member
    obtain ⟨price, priced⟩ := exists_priceAfter_of_le wide fitsHere
      (by rw [exact, exactLarger]; exact top.le number member) pricedMore
    rw [← exact, exactSearch_probe, priced]
    exact ⟨_, rfl⟩

/--
A bid is served, where nothing wraps, if and only if the largest quantity that
its search probes is less than the base reserve and has a price that does not
overflow.
-/
theorem servesBid_iff
    (wide : 64 ≤ w)
    (config : Config w Account Asset)
    (pool : Pool w Account)
    (target : BitVec w)
    {ledger : Ledger w Account Asset}
    {base quote : Asset}
    {baseReserve quoteReserve : BitVec w}
    (reserves :
      config.getReserves ledger base quote =
        .ok (baseReserve, quoteReserve))
    (remainOrders : BitVec w)
    (inRange :
      config.checked.findMaxSwapQuantity pool true target ledger base quote
        remainOrders ≠ .error .panic) :
    config.ServesBid pool target ledger base quote baseReserve
        remainOrders ↔
      remainOrders = 0 ∨
        (config.exactSearch pool true target baseReserve
            quoteReserve).highest remainOrders.toNat < baseReserve.toNat ∧
          config.checked.priceAfter pool true baseReserve quoteReserve
            (BitVec.ofNat w
              ((config.exactSearch pool true target baseReserve
                quoteReserve).highest remainOrders.toNat)) ≠
            .error (.error .overflow) := by
  have same := (config.findMaxSwapQuantity_agrees pool true target ledger
    base quote remainOrders).same inRange
  obtain ⟨_, basePositive, quotePositive, _⟩ :=
    getReserves_eq_ok_iff.mp reserves
  have nonzero : ¬ (quoteReserve = 0 ∨ baseReserve = 0) :=
    not_or.mpr ⟨quotePositive, basePositive⟩
  have checkedLoop :=
    config.findMaxSwapQuantity_checked pool true target reserves remainOrders
  rw [checkedLoop] at same inRange
  -- in range, the loop is the bisection of the natural numbers
  rcases (config.searchBody_realized wide pool true target baseReserve
    quoteReserve).outcome (fuel_suffices ⟨0, remainOrders, 0⟩) with
    ⟨_, panicked⟩ | ⟨fits, yields⟩
  · exact absurd panicked inRange
  rw [SearchState.interval_start] at fits yields
  rw [← highest_answers_iff wide nonzero fits, ← Search.exists_result_iff]
  change Search.Yields BitVec.toNat _ (config.checked.searchLoop pool true
    target baseReserve quoteReserve remainOrders) at yields
  constructor
  · rintro ⟨quantity, found, _⟩
    rw [← same, found] at yields
    cases answer :
        (config.exactSearch pool true target baseReserve
          quoteReserve).result (.upTo remainOrders.toNat) with
    | none =>
        rw [answer] at yields
        obtain ⟨_, failed⟩ := yields
        cases failed
    | some result =>
        exact ⟨result, rfl⟩
  · rintro ⟨result, returned⟩
    rw [returned, ← same] at yields
    obtain ⟨quantity, found, rfl⟩ := yields
    have less : quantity < baseReserve := by
      rw [BitVec.lt_def]
      rcases Search.result_mem returned with zero | member
      · rw [zero]
        exact BitVec.toNat_pos_of_ne_zero basePositive
      · obtain ⟨probed, price, exact, priced⟩ := exists_price_of_answers
          (Search.exists_probe_of_mem returned member)
        rw [← exact]
        exact (toNat_of_priceAfter wide priced).2 rfl
    refine ⟨quantity, found, less, ?_⟩
    rintro orderer index state rfl rfl rfl best large
    exact matchBody_of_less best found (Nat.lt_of_lt_of_le less large)

/-- A bid for 150 in a pool that has 100: the first probe is 75. -/
theorem servesBid_beyond_reserve :
    mock.ServesBid (Pool.new 0 1 1 0 0 0) 110
      (Storage.mock (Pool.new 0 1 1 0 0 0) 100 10000).ledger 0 1 100 150 :=
  (servesBid_iff (by decide) mock (Pool.new 0 1 1 0 0 0) 110 rfl 150
    (by decide +kernel)).mpr (.inr (by decide +kernel))

/--
A market bid for 250, in a pool that has 100, while an ask of 300 rests at
200: the first probe is 125, and the order fails without overflow.
-/
theorem largeBid_refused :
    ∃ storage pool,
      Run.run mock.step [⟨.inl 1, 1, .limitOrder 0 1 false 200 300⟩]
          (Storage.mock (Pool.new 0 1 1 0 0 0) 100 10000) = some storage ∧
        storage.pools (0, 1) = some pool ∧
        pool.nextOrder true = some (200, 0) ∧
        mock.checked.findMaxSwapQuantity pool true 200 storage.ledger 0 1
          250 = .error (.error .amountOutTooHigh) ∧
        ¬ mock.ServesBid pool 200 storage.ledger 0 1 100 250 ∧
        mock.dispatch ⟨.inl 2, 2, .marketOrder 0 1 250 true⟩ storage =
          .error (.error .amountOutTooHigh) := by
  have observed :
      ((Run.run mock.step [⟨.inl 1, 1, .limitOrder 0 1 false 200 300⟩]
          (Storage.mock (Pool.new 0 1 1 0 0 0) 100 10000)).bind
        fun storage => (storage.pools (0, 1)).map
        fun pool => (pool.nextOrder true,
          mock.checked.findMaxSwapQuantity pool true 200 storage.ledger 0 1
            250,
          (mock.dispatch ⟨.inl 2, 2, .marketOrder 0 1 250 true⟩
            storage).map fun _ => (0 : Nat))) =
        some (some (200, 0), .error (.error .amountOutTooHigh),
          .error (.error .amountOutTooHigh)) := by
    decide +kernel
  simp only [Option.bind_eq_some_iff, Option.map_eq_some_iff,
    Prod.mk.injEq] at observed
  obtain ⟨storage, ran, pool, found, best, checkedFails, dispatched⟩ :=
    observed
  refine ⟨storage, pool, ran, found, best, checkedFails, ?_, ?_⟩
  · rintro ⟨quantity, returned, _⟩
    have same := (mock.findMaxSwapQuantity_agrees pool true 200
      storage.ledger 0 1 250).same (by rw [checkedFails]; nofun)
    rw [same, checkedFails] at returned
    cases returned
  · rcases outcome :
        mock.dispatch ⟨.inl 2, 2, .marketOrder 0 1 250 true⟩ storage with
      fault | next
    · rw [outcome] at dispatched
      exact congrArg Except.error (Except.error.inj dispatched)
    · rw [outcome] at dispatched
      cases dispatched

end HybridOrderbook.Config
