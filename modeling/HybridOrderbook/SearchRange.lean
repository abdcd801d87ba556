import HybridOrderbook.Library.BisectionEnds
import HybridOrderbook.Library.BisectionLoop
import HybridOrderbook.Calls
import HybridOrderbook.ExactSearch

namespace HybridOrderbook

open Library Bisection

/-!
# The range of the search

`find_max_swap_quantity` computes with plain operators.  A round fits if none
of its results leaves its type.  The build with overflow checks bisects the
natural numbers while its rounds fit, and panics in the first one that does
not.
-/

variable {w : Nat} {Account Asset : Type}

/-- The variables of the search as natural numbers. -/
def SearchState.interval (state : SearchState w) : Interval where
  low := state.min.toNat
  high := state.max.toNat
  best := state.swapQuantity.toNat

theorem SearchState.interval_start (remainOrders : BitVec w) :
    (⟨0, remainOrders, 0⟩ : SearchState w).interval =
      .upTo remainOrders.toNat := by
  simp [interval, Interval.upTo]

/-- The reserves can be scaled by the decimals of the pool. -/
structure Pool.ScalesFit
    (pool : Pool w Account)
    (base quote : Nat) : Prop where
  unitPower : pool.poolDecimals.toNat ≤ 19
  basePower : pool.baseShift ≤ 19
  quotePower : pool.quoteShift ≤ 19
  base : base * 10 ^ pool.baseShift < 2 ^ w
  quote : quote * 10 ^ pool.quoteShift < 2 ^ w

instance (pool : Pool w Account) (base quote : Nat) :
    Decidable (pool.ScalesFit base quote) :=
  decidable_of_iff
    (_ ∧ _ ∧ _ ∧ _ ∧ _)
    ⟨fun ⟨unit, basePower, quotePower, base, quote⟩ =>
        ⟨unit, basePower, quotePower, base, quote⟩,
      fun ⟨unit, basePower, quotePower, base, quote⟩ =>
        ⟨unit, basePower, quotePower, base, quote⟩⟩

namespace Pool.ScalesFit

variable {pool : Pool w Account} {base quoted : BitVec w}

theorem of_normalized
    (wide : 64 ≤ w)
    {unit baseNorm quoteNorm : BitVec w}
    (unitScaled : normalize true 1 pool.decimalAdjustment.1 = .ok unit)
    (baseScaled :
      normalize true base pool.decimalAdjustment.2.1 = .ok baseNorm)
    (quoteScaled :
      normalize true quoted pool.decimalAdjustment.2.2 = .ok quoteNorm) :
    pool.ScalesFit base.toNat quoted.toNat := by
  have unitFits := fits_of_normalize wide unitScaled
  have baseFits := fits_of_normalize wide baseScaled
  have quoteFits := fits_of_normalize wide quoteScaled
  rw [pool.priceAdj_toNat] at unitFits
  rw [pool.baseAdj_toNat] at baseFits
  rw [pool.quoteAdj_toNat] at quoteFits
  exact ⟨unitFits.1, baseFits.1, quoteFits.1, baseFits.2, quoteFits.2⟩

theorem normalized
    (wide : 64 ≤ w)
    (scales : pool.ScalesFit base.toNat quoted.toNat) :
    ∃ unit baseNorm quoteNorm,
      normalize true (1 : BitVec w) pool.decimalAdjustment.1 = .ok unit ∧
        normalize true base pool.decimalAdjustment.2.1 = .ok baseNorm ∧
        normalize true quoted pool.decimalAdjustment.2.2 =
          .ok quoteNorm := by
  have unitFits : 10 ^ pool.poolDecimals.toNat < 2 ^ w :=
    Nat.lt_of_lt_of_le (ten_pow_lt_iff.mpr scales.unitPower)
      (Nat.pow_le_pow_right (by decide) wide)
  obtain ⟨unit, unitScaled, _⟩ :=
    normalize_of_fits wide
      (by rw [pool.priceAdj_toNat]; exact scales.unitPower)
      (by rw [pool.priceAdj_toNat, toNat_one wide, Nat.one_mul]
          exact unitFits :
        (1 : BitVec w).toNat * _ < _)
  obtain ⟨baseNorm, baseScaled, _⟩ :=
    normalize_of_fits wide
      (by rw [pool.baseAdj_toNat]; exact scales.basePower)
      (by rw [pool.baseAdj_toNat]; exact scales.base)
  obtain ⟨quoteNorm, quoteScaled, _⟩ :=
    normalize_of_fits wide
      (by rw [pool.quoteAdj_toNat]; exact scales.quotePower)
      (by rw [pool.quoteAdj_toNat]; exact scales.quote)
  exact ⟨unit, baseNorm, quoteNorm, unitScaled, baseScaled, quoteScaled⟩

end Pool.ScalesFit

/-- A number fits if a multiple of it does. -/
theorem lt_of_scaled
    {number shift : Nat}
    (fits : number * 10 ^ shift < 2 ^ w) : number < 2 ^ w :=
  Nat.lt_of_le_of_lt
    (Nat.le_mul_of_pos_right _ (Nat.pow_pos (by decide))) fits

namespace Config

/--
The price after swapping a quantity is computed in range.  The reserves left
by the swap need no condition of their own: a bid takes less than the base
reserve, and an ask never gets the whole quote reserve.
-/
structure ProbeFits
    (config : Config w Account Asset)
    (pool : Pool w Account)
    (isBid : Bool)
    (baseReserve quoteReserve quantity : Nat) : Prop where
  fee :
    ReadsFee w isBid baseReserve quoteReserve quantity →
      config.lpFee ≤ 1000
  scales :
    config.AmountFits isBid baseReserve quoteReserve quantity →
      pool.ScalesFit (exactBaseAfter isBid baseReserve quantity)
        (config.exactQuoteAfter isBid baseReserve quoteReserve quantity)

instance
    (config : Config w Account Asset)
    (pool : Pool w Account)
    (isBid : Bool)
    (baseReserve quoteReserve quantity : Nat) :
    Decidable
      (config.ProbeFits pool isBid baseReserve quoteReserve quantity) :=
  decidable_of_iff ((_ → _) ∧ (_ → _))
    ⟨fun ⟨fee, scales⟩ => ⟨fee, scales⟩, fun ⟨fee, scales⟩ => ⟨fee, scales⟩⟩

/-- The arithmetic of a round fits. -/
structure RoundFits
    (config : Config w Account Asset)
    (pool : Pool w Account)
    (isBid : Bool)
    (target baseReserve quoteReserve : BitVec w)
    (interval : Interval) : Prop where
  bounds :
    (config.exactSearch pool isBid target baseReserve quoteReserve).InRange
      (2 ^ w) interval
  price :
    config.ProbeFits pool isBid baseReserve.toNat quoteReserve.toNat
      interval.middle
  /-- The step is computed in 64 bits, if a bound moves. -/
  step :
    ∀ verdict,
      (config.exactSearch pool isBid target baseReserve quoteReserve).probe
          interval.middle = some verdict →
        verdict ≠ .met → pool.baseDecimals.toNat ≤ 19

variable {config : Config w Account Asset} {pool : Pool w Account}
  {isBid : Bool} {target baseReserve quoteReserve quantity : BitVec w}

/-- The amount of a swap is computed without a loop. -/
theorem returns_swapAmount :
    Returns
      (config.swapAmount isBid quantity baseReserve quoteReserve) := by
  cases isBid with
  | true =>
      exact returns_getAmountIn
  | false =>
      exact returns_getAmountOut

section Moved

variable {paidIn : Bool} {reserve amount : BitVec w}

theorem failsOnly_moved (checks : Bool) :
    FailsOnly (· = .panic) (moved checks paidIn reserve amount) := by
  cases paidIn with
  | true =>
      exact Machine.failsOnly_add _ _ _
  | false =>
      exact Machine.failsOnly_sub _ _ _

theorem moved_of_fits
    (fits :
      if paidIn then reserve.toNat + amount.toNat < 2 ^ w
      else amount.toNat ≤ reserve.toNat) :
    ∃ result, moved true paidIn reserve amount = .ok result := by
  cases paidIn with
  | true =>
      exact ⟨_, Machine.add_of_lt fits⟩
  | false =>
      exact ⟨_, Machine.sub_of_le fits⟩

end Moved

theorem returns_priceAfter :
    Returns
      (config.priceAfter pool isBid baseReserve quoteReserve quantity) := by
  have normalizeFails (value : BitVec w) (adjustment : Option (BitVec 8)) :
      Returns (normalize config.overflowChecks value adjustment) :=
    returns_of_panic (failsOnly_normalize _ _ _)
  have movedFails {paidIn : Bool} {reserve amount : BitVec w} :
      Returns (moved config.overflowChecks paidIn reserve amount) :=
    returns_of_panic (failsOnly_moved _)
  rcases priced : config.swapAmount isBid quantity baseReserve quoteReserve
    with fault | amount
  · unfold priceAfter
    rw [priced]
    exact fun _ failed =>
      Except.error.inj failed ▸ returns_swapAmount fault priced
  · rw [priceAfter_eq_moved priced]
    refine .bind (normalizeFails _ _) fun unit => ?_
    refine .bind movedFails fun base => ?_
    refine .bind (normalizeFails _ _) fun baseNorm => ?_
    refine .bind movedFails fun quoted => ?_
    refine .bind (normalizeFails _ _) fun quoteNorm => ?_
    exact returns_of_error (failsOnly_mulDiv _ _ _)

section Price

variable (wide : 64 ≤ w) {amount : BitVec w}
  (priced :
    config.checked.swapAmount isBid quantity baseReserve quoteReserve =
      .ok amount)

include wide priced

/-- The scaling fits unless the computation of the price panics. -/
theorem scalesFit_of_priceAfter
    (avoided :
      config.checked.priceAfter pool isBid baseReserve quoteReserve
        quantity ≠ .error .panic) :
    pool.ScalesFit (exactBaseAfter isBid baseReserve.toNat quantity.toNat)
      (config.exactQuoteAfter isBid baseReserve.toNat quoteReserve.toNat
        quantity.toNat) := by
  rw [priceAfter_eq_moved priced] at avoided
  obtain ⟨unit, unitScaled, avoided⟩ :=
    (failsOnly_normalize _ _ _).exists_ok_of_bind avoided
  obtain ⟨base, movesBase, avoided⟩ :=
    (failsOnly_moved _).exists_ok_of_bind avoided
  obtain ⟨baseNorm, baseScaled, avoided⟩ :=
    (failsOnly_normalize _ _ _).exists_ok_of_bind avoided
  obtain ⟨quoted, movesQuote, avoided⟩ :=
    (failsOnly_moved _).exists_ok_of_bind avoided
  obtain ⟨quoteNorm, quoteScaled, _⟩ :=
    (failsOnly_normalize _ _ _).exists_ok_of_bind avoided
  rw [← toNat_of_movedBase movesBase,
    ← toNat_of_movedQuote priced movesQuote]
  exact .of_normalized wide unitScaled baseScaled quoteScaled

/-- If it fits, all that is left of the computation is the quotation. -/
theorem priceAfter_of_scalesFit
    (scales :
      pool.ScalesFit (exactBaseAfter isBid baseReserve.toNat quantity.toNat)
        (config.exactQuoteAfter isBid baseReserve.toNat quoteReserve.toNat
          quantity.toNat)) :
    ∃ unit base quoted,
      config.checked.priceAfter pool isBid baseReserve quoteReserve
          quantity = HybridOrderbook.quote unit base quoted ∧
        unit.toNat = 10 ^ pool.poolDecimals.toNat ∧
        base.toNat =
          exactBaseAfter isBid baseReserve.toNat quantity.toNat *
            10 ^ pool.baseShift ∧
        quoted.toNat =
          config.exactQuoteAfter isBid baseReserve.toNat quoteReserve.toNat
              quantity.toNat * 10 ^ pool.quoteShift := by
  have less := lt_of_swapAmount priced
  have baseFits := lt_of_scaled scales.base
  have quoteFits := lt_of_scaled scales.quote
  rw [exactQuoteAfter_of_swapAmount priced] at quoteFits
  obtain ⟨base, movesBase⟩ :
      ∃ base, moved true (!isBid) baseReserve quantity = .ok base := by
    refine moved_of_fits ?_
    cases isBid with
    | true =>
        exact Nat.le_of_lt less
    | false =>
        exact baseFits
  obtain ⟨quoted, movesQuote⟩ :
      ∃ quoted, moved true isBid quoteReserve amount = .ok quoted := by
    refine moved_of_fits ?_
    cases isBid with
    | true =>
        exact quoteFits
    | false =>
        exact Nat.le_of_lt less
  rw [← toNat_of_movedBase movesBase,
    ← toNat_of_movedQuote priced movesQuote] at scales
  obtain ⟨unit, baseNorm, quoteNorm, unitScaled, baseScaled, quoteScaled⟩ :=
    scales.normalized wide
  have checks : config.checked.overflowChecks = true := rfl
  refine ⟨unit, baseNorm, quoteNorm, ?_, ?_, ?_, ?_⟩
  · simp only [priceAfter_eq_moved priced, checks, ok_bind, unitScaled,
      movesBase, baseScaled, movesQuote, quoteScaled]
  · rw [toNat_of_normalize wide unitScaled, pool.priceAdj_toNat,
      toNat_one wide, Nat.one_mul]
  · rw [toNat_of_normalize wide baseScaled, pool.baseAdj_toNat,
      toNat_of_movedBase movesBase]
  · rw [toNat_of_normalize wide quoteScaled, pool.quoteAdj_toNat,
      toNat_of_movedQuote priced movesQuote]

omit priced in
/-- A price is computed without a panic if and only if all of it fits. -/
theorem probeFits_iff :
    config.ProbeFits pool isBid baseReserve.toNat quoteReserve.toNat
        quantity.toNat ↔
      config.checked.priceAfter pool isBid baseReserve quoteReserve
        quantity ≠ .error .panic := by
  cases priced :
      config.checked.swapAmount isBid quantity baseReserve quoteReserve with
  | error fault =>
      have stops :
          config.checked.priceAfter pool isBid baseReserve quoteReserve
            quantity = .error fault :=
        bind_eq_error_iff.mpr (.inl priced)
      rw [stops, ← priced, swapAmount_ne_panic_iff]
      refine ⟨ProbeFits.fee, fun fee => ⟨fee, fun fits => ?_⟩⟩
      obtain ⟨amount, computed⟩ :=
        (exists_swapAmount_iff fits.1 wide (fee fits.1)).mpr fits
      rw [priced] at computed
      cases computed
  | ok amount =>
      constructor
      · intro fits
        obtain ⟨unit, base, quoted, same, _⟩ := priceAfter_of_scalesFit wide
          priced (fits.scales (amountFits_of_swapAmount wide priced))
        rw [same]
        intro panicked
        cases failsOnly_mulDiv _ _ _ _ panicked
      · intro avoided
        exact ⟨fun _ => lpFee_le_of_swapAmount priced,
          fun _ => scalesFit_of_priceAfter wide priced avoided⟩

omit priced in
/-- A price that fits and is not computed is refused with an error. -/
theorem failsOnly_priceAfter
    (fits :
      config.ProbeFits pool isBid baseReserve.toNat quoteReserve.toNat
        quantity.toNat) :
    FailsOnly (fun fault => ∃ error, fault = .error error)
      (config.checked.priceAfter pool isBid baseReserve quoteReserve
        quantity) := by
  intro fault failed
  have avoided := (probeFits_iff wide).mp fits
  cases fault with
  | error error =>
      exact ⟨error, rfl⟩
  | panic =>
      exact absurd failed avoided
  | diverge =>
      exact absurd failed returns_priceAfter.ne_diverge

end Price

section Round

variable {state : SearchState w}

theorem interval_nonempty_iff :
    state.interval.low < state.interval.high ↔ state.min < state.max :=
  BitVec.lt_def.symm

theorem failsOnly_middle : FailsOnly (· = .panic) (config.middle state) := by
  refine .bind (Machine.failsOnly_add _ _ _) fun sum => ?_
  refine .bind (Machine.failsOnly_add _ _ _) fun total => ?_
  exact Machine.failsOnly_div _ _

theorem middle_of_fits
    (config : Config w Account Asset)
    (wide : 64 ≤ w)
    (fits : state.interval.low + state.interval.high + 1 < 2 ^ w) :
    ∃ mid,
      config.middle state = .ok mid ∧
        mid.toNat = state.interval.middle := by
  have two : (2 : BitVec w) ≠ 0 := by
    intro zero
    have toNat := toNat_two wide
    simp [zero] at toNat
  have sumFits : state.min.toNat + state.max.toNat < 2 ^ w :=
    Nat.lt_of_succ_lt fits
  have sum := Nat.mod_eq_of_lt sumFits
  have totalFits :
      (state.min + state.max).toNat + (1 : BitVec w).toNat < 2 ^ w := by
    rw [BitVec.toNat_add, sum, toNat_one wide]
    exact fits
  have computed :
      config.middle state = .ok ((state.min + state.max + 1) / 2) := by
    simp only [middle, bind_eq_ok_iff]
    exact ⟨_, Machine.add_of_lt sumFits, _, Machine.add_of_lt totalFits,
      Machine.div_eq_ok_iff.mpr ⟨two, rfl⟩⟩
  refine ⟨_, computed, ?_⟩
  rw [BitVec.toNat_udiv, BitVec.toNat_add, Nat.mod_eq_of_lt totalFits,
    BitVec.toNat_add, sum, toNat_one wide, toNat_two wide]
  rfl

/-- The probe of a quantity is the price that the code computes for it. -/
theorem exactSearch_probe :
    (config.exactSearch pool isBid target baseReserve quoteReserve).probe
        quantity.toNat =
      (config.checked.priceAfter pool isBid baseReserve quoteReserve
        quantity).toOption.map fun price =>
          priceVerdict isBid target.toNat price.toNat := by
  simp [exactSearch, quantity.isLt]

/-- The step of the search, as the code computes it. -/
theorem step_of_fits
    (wide : 64 ≤ w)
    (small : pool.baseDecimals.toNat ≤ 19) :
    ∃ step : BitVec w,
      normalize true 1 (some pool.baseDecimals) = .ok step ∧
        step.toNat = 10 ^ pool.baseDecimals.toNat := by
  have adjusted : ((some pool.baseDecimals).getD 0).toNat ≤ 19 := small
  have fits :
      (1 : BitVec w).toNat * 10 ^ ((some pool.baseDecimals).getD 0).toNat <
        2 ^ w := by
    rw [toNat_one wide, Nat.one_mul]
    exact Nat.lt_of_lt_of_le (ten_pow_lt_iff.mpr adjusted)
      (Nat.pow_le_pow_right (by decide) wide)
  obtain ⟨step, normalized, exact⟩ := normalize_of_fits wide adjusted fits
  rw [toNat_one wide, Nat.one_mul] at exact
  exact ⟨step, normalized, exact⟩

/-- What the step is if it was computed. -/
theorem step_of_normalize
    (wide : 64 ≤ w)
    {step : BitVec w}
    (normalized : normalize true 1 (some pool.baseDecimals) = .ok step) :
    pool.baseDecimals.toNat ≤ 19 ∧
      step.toNat = 10 ^ pool.baseDecimals.toNat := by
  refine ⟨(fits_of_normalize wide normalized).1, ?_⟩
  rw [toNat_of_normalize wide normalized, toNat_one wide, Nat.one_mul]
  rfl

theorem raise_fits
    (wide : 64 ≤ w)
    {step mid next : BitVec w}
    (normalized : normalize true 1 (some pool.baseDecimals) = .ok step)
    (added :
      (Machine.add true mid step : Outcome (BitVec w)) = .ok next) :
    pool.baseDecimals.toNat ≤ 19 ∧
      mid.toNat + 10 ^ pool.baseDecimals.toNat < 2 ^ w := by
  obtain ⟨small, exact⟩ := step_of_normalize wide normalized
  rw [← exact, ← Machine.toNat_of_add_checked added]
  exact ⟨small, next.isLt⟩

theorem lower_fits
    (wide : 64 ≤ w)
    {step mid next : BitVec w}
    (normalized : normalize true 1 (some pool.baseDecimals) = .ok step)
    (taken :
      (Machine.sub true mid step : Outcome (BitVec w)) = .ok next) :
    pool.baseDecimals.toNat ≤ 19 ∧
      10 ^ pool.baseDecimals.toNat ≤ mid.toNat := by
  obtain ⟨small, exact⟩ := step_of_normalize wide normalized
  rw [← exact]
  exact ⟨small, (Machine.toNat_of_sub_checked taken).1⟩

end Round

section Realization

variable (wide : 64 ≤ w) {state : SearchState w}
  (fits :
    config.RoundFits pool isBid target baseReserve quoteReserve
      state.interval)

include wide fits

/-- The price behind a probe. -/
theorem price_of_probe
    {verdict : Verdict}
    (probed :
      (config.exactSearch pool isBid target baseReserve quoteReserve).probe
        state.interval.middle = some verdict) :
    ∃ mid price,
      config.checked.middle state = .ok mid ∧
        mid.toNat = state.interval.middle ∧
        config.checked.priceAfter pool isBid baseReserve quoteReserve mid =
          .ok price ∧
        priceVerdict isBid target.toNat price.toNat = verdict := by
  obtain ⟨mid, computed, midExact⟩ :=
    config.checked.middle_of_fits wide fits.bounds.sum
  rw [← midExact, exactSearch_probe, Option.map_eq_some_iff] at probed
  obtain ⟨price, priced, judged⟩ := probed
  exact ⟨mid, price, computed, midExact, toOption_eq_some_iff.mp priced,
    judged⟩

variable (nonempty : state.interval.low < state.interval.high)

include nonempty

theorem searchBody_raises
    (probed :
      (config.exactSearch pool isBid target baseReserve quoteReserve).probe
        state.interval.middle = some .near) :
    ∃ next,
      config.checked.searchBody pool isBid target baseReserve quoteReserve
          state = .ok (.inl next) ∧
        next.interval =
          (config.exactSearch pool isBid target baseReserve
            quoteReserve).raise state.interval := by
  obtain ⟨mid, price, computed, midExact, priced, verdict⟩ :=
    price_of_probe wide fits probed
  have small := fits.step _ probed nofun
  have stepFits :
      state.interval.middle + 10 ^ pool.baseDecimals.toNat < 2 ^ w :=
    fits.bounds.raised probed
  obtain ⟨step, normalized, stepExact⟩ := step_of_fits wide small
  rw [← midExact, ← stepExact] at stepFits
  have added :
      (mid + step).toNat =
        state.interval.middle + 10 ^ pool.baseDecimals.toNat := by
    rw [BitVec.toNat_add, Nat.mod_eq_of_lt stepFits, midExact, stepExact]
  obtain ⟨differs, goesUp⟩ := priceVerdict_eq_near_iff.mp verdict
  have checks : config.checked.overflowChecks = true := rfl
  have stepped :
      config.checked.searchBody pool isBid target baseReserve quoteReserve
          state =
        .ok (.inl ⟨mid + step, state.max,
          if isBid then mid else state.swapQuantity⟩) := by
    rw [searchBody_of_price (interval_nonempty_iff.mp nonempty) computed
      priced (mt (congrArg BitVec.toNat) differs)]
    simp only [checks, normalized, ok_bind, Machine.add_of_lt stepFits]
    simp [BitVec.lt_def, goesUp]
  refine ⟨_, stepped, ?_⟩
  rw [SearchState.interval, added]
  cases isBid with
  | true =>
      rw [if_pos rfl, midExact]
      rfl
  | false =>
      rfl

theorem searchBody_lowers
    (probed :
      (config.exactSearch pool isBid target baseReserve quoteReserve).probe
        state.interval.middle = some .past) :
    ∃ next,
      config.checked.searchBody pool isBid target baseReserve quoteReserve
          state = .ok (.inl next) ∧
        next.interval =
          (config.exactSearch pool isBid target baseReserve
            quoteReserve).lower state.interval := by
  obtain ⟨mid, price, computed, midExact, priced, verdict⟩ :=
    price_of_probe wide fits probed
  have small := fits.step _ probed nofun
  have stepFits :
      10 ^ pool.baseDecimals.toNat ≤ state.interval.middle :=
    fits.bounds.lowered probed
  obtain ⟨step, normalized, stepExact⟩ := step_of_fits wide small
  rw [← midExact, ← stepExact] at stepFits
  have taken :
      (mid - step).toNat =
        state.interval.middle - 10 ^ pool.baseDecimals.toNat := by
    rw [BitVec.toNat_sub_of_le (BitVec.le_def.mpr stepFits), midExact,
      stepExact]
  obtain ⟨differs, goesDown⟩ := goesDown_iff_past.mp verdict
  have checks : config.checked.overflowChecks = true := rfl
  have stepped :
      config.checked.searchBody pool isBid target baseReserve quoteReserve
          state =
        .ok (.inl ⟨state.min, mid - step,
          if isBid then state.swapQuantity else mid⟩) := by
    rw [searchBody_of_price (interval_nonempty_iff.mp nonempty) computed
      priced (mt (congrArg BitVec.toNat) differs)]
    simp only [checks, normalized, ok_bind, Machine.sub_of_le stepFits]
    simp [BitVec.lt_def, goesDown, -Nat.not_lt, -not_lt]
  refine ⟨_, stepped, ?_⟩
  rw [SearchState.interval, taken]
  cases isBid with
  | true =>
      rfl
  | false =>
      rw [if_neg Bool.false_ne_true, midExact]
      rfl

theorem searchBody_meets
    (probed :
      (config.exactSearch pool isBid target baseReserve quoteReserve).probe
        state.interval.middle = some .met) :
    ∃ mid,
      config.checked.searchBody pool isBid target baseReserve quoteReserve
          state = .ok (.inr mid) ∧
        mid.toNat = state.interval.middle := by
  obtain ⟨mid, price, computed, midExact, priced, verdict⟩ :=
    price_of_probe wide fits probed
  have met : price = target :=
    BitVec.eq_of_toNat_eq (priceVerdict_eq_met_iff.mp verdict)
  refine ⟨mid, ?_, midExact⟩
  simp only [searchBody, interval_nonempty_iff.mp nonempty, ↓reduceIte,
    computed, ok_bind, priced, met]

theorem searchBody_refuses
    (probed :
      (config.exactSearch pool isBid target baseReserve quoteReserve).probe
        state.interval.middle = none) :
    ∃ error,
      config.checked.searchBody pool isBid target baseReserve quoteReserve
          state = .error (.error error) := by
  obtain ⟨mid, computed, midExact⟩ :=
    config.checked.middle_of_fits wide fits.bounds.sum
  have price := fits.price
  rw [← midExact] at price
  have fails := failsOnly_priceAfter wide price
  rw [← midExact, exactSearch_probe, Option.map_eq_none_iff] at probed
  cases priced :
      config.checked.priceAfter pool isBid baseReserve quoteReserve mid with
  | ok price =>
      rw [priced] at probed
      cases probed
  | error fault =>
      obtain ⟨error, rfl⟩ := fails fault priced
      refine ⟨error, ?_⟩
      simp only [searchBody, interval_nonempty_iff.mp nonempty, ↓reduceIte,
        computed, ok_bind]
      exact bind_eq_error_iff.mpr (.inl priced)

omit fits in
/-- A round that does not panic fits. -/
theorem roundFits_of_searchBody
    (avoided :
      config.checked.searchBody pool isBid target baseReserve quoteReserve
        state ≠ .error .panic) :
    config.RoundFits pool isBid target baseReserve quoteReserve
      state.interval := by
  have unfinished := interval_nonempty_iff.mp nonempty
  have rest := avoided
  simp only [searchBody, unfinished, ↓reduceIte] at rest
  obtain ⟨mid, computed, rest⟩ := failsOnly_middle.exists_ok_of_bind rest
  obtain ⟨sumFits, midExact⟩ := toNat_of_middle wide rfl computed
  have middle : state.interval.middle = mid.toNat := midExact.symm
  have priceAvoids :
      config.checked.priceAfter pool isBid baseReserve quoteReserve mid ≠
        .error .panic :=
    fun failed => rest (bind_eq_error_iff.mpr (.inl failed))
  -- each bound moves only if the step and the new bound were computed
  have raised :
      (config.exactSearch pool isBid target baseReserve quoteReserve).probe
          state.interval.middle = some .near →
        pool.baseDecimals.toNat ≤ 19 ∧
          mid.toNat + 10 ^ pool.baseDecimals.toNat < 2 ^ w := by
    rw [middle, exactSearch_probe]
    intro probed
    obtain ⟨price, priced, verdict⟩ := Option.map_eq_some_iff.mp probed
    obtain ⟨differs, goesUp⟩ := priceVerdict_eq_near_iff.mp verdict
    rw [searchBody_of_price unfinished computed
      (toOption_eq_some_iff.mp priced)
      (mt (congrArg BitVec.toNat) differs)] at avoided
    obtain ⟨step, normalized, avoided⟩ :=
      (failsOnly_normalize _ _ _).exists_ok_of_bind avoided
    rw [if_pos (by simp [goesUp, BitVec.lt_def])] at avoided
    obtain ⟨_, added, _⟩ :=
      (Machine.failsOnly_add _ _ _).exists_ok_of_bind avoided
    exact raise_fits wide normalized added
  have lowered :
      (config.exactSearch pool isBid target baseReserve quoteReserve).probe
          state.interval.middle = some .past →
        pool.baseDecimals.toNat ≤ 19 ∧
          10 ^ pool.baseDecimals.toNat ≤ mid.toNat := by
    rw [middle, exactSearch_probe]
    intro probed
    obtain ⟨price, priced, verdict⟩ := Option.map_eq_some_iff.mp probed
    obtain ⟨differs, goesDown⟩ := goesDown_iff_past.mp verdict
    rw [searchBody_of_price unfinished computed
      (toOption_eq_some_iff.mp priced)
      (mt (congrArg BitVec.toNat) differs)] at avoided
    obtain ⟨step, normalized, avoided⟩ :=
      (failsOnly_normalize _ _ _).exists_ok_of_bind avoided
    rw [if_neg (by simp [goesDown, BitVec.lt_def])] at avoided
    obtain ⟨_, taken, _⟩ :=
      (Machine.failsOnly_sub _ _ _).exists_ok_of_bind avoided
    exact lower_fits wide normalized taken
  refine ⟨⟨sumFits, fun near => ?_, fun past => ?_⟩, ?_, ?_⟩
  · rw [middle]
    exact (raised near).2
  · rw [middle]
    exact (lowered past).2
  · rw [middle]
    exact (probeFits_iff wide).mpr priceAvoids
  · intro verdict probed moves
    cases verdict with
    | near =>
        exact (raised probed).1
    | past =>
        exact (lowered probed).1
    | met =>
        exact absurd rfl moves

end Realization

/-- The loop of the build with overflow checks is the bisection. -/
theorem searchBody_realized
    (wide : 64 ≤ w)
    (config : Config w Account Asset)
    (pool : Pool w Account)
    (isBid : Bool)
    (target baseReserve quoteReserve : BitVec w) :
    (config.exactSearch pool isBid target baseReserve quoteReserve).Realized
      (config.RoundFits pool isBid target baseReserve quoteReserve)
      SearchState.interval BitVec.toNat
      (config.checked.searchBody pool isBid target baseReserve
        quoteReserve) where
  ends state finished := by
    refine ⟨state.swapQuantity, ?_, rfl⟩
    simp only [searchBody, mt interval_nonempty_iff.mpr finished, ↓reduceIte]
  panics state nonempty overflow := by
    by_contra avoided
    exact overflow (roundFits_of_searchBody wide nonempty avoided)
  raises state nonempty fits := searchBody_raises wide fits nonempty
  lowers state nonempty fits := searchBody_lowers wide fits nonempty
  meets state nonempty fits := searchBody_meets wide fits nonempty
  refuses state nonempty fits := searchBody_refuses wide fits nonempty

/--
The arithmetic of a search fits: what it computes for the largest and for the
smallest quantity that it probes, and the step if it moves at all.
-/
structure SearchFits
    (config : Config w Account Asset)
    (pool : Pool w Account)
    (isBid : Bool)
    (target baseReserve quoteReserve : BitVec w)
    (total : Nat) : Prop where
  bounds :
    (config.exactSearch pool isBid target baseReserve
      quoteReserve).EndsInRange (2 ^ w) total
  step :
    ∀ verdict,
      (config.exactSearch pool isBid target baseReserve quoteReserve).probe
          ((total + 1) / 2) = some verdict →
        verdict ≠ .met → pool.baseDecimals.toNat ≤ 19
  largest :
    config.ProbeFits pool isBid baseReserve.toNat quoteReserve.toNat
      ((config.exactSearch pool isBid target baseReserve
        quoteReserve).highest total)
  smallest :
    config.ProbeFits pool isBid baseReserve.toNat quoteReserve.toNat
      ((config.exactSearch pool isBid target baseReserve
        quoteReserve).lowest total)

section Ends

/-- The price behind an answer. -/
theorem exists_price_of_answers
    {number : Nat}
    (answers :
      (config.exactSearch pool isBid target baseReserve
        quoteReserve).Answers number) :
    ∃ (quantity : BitVec w) (price : BitVec w),
      quantity.toNat = number ∧
        config.checked.priceAfter pool isBid baseReserve quoteReserve
          quantity = .ok price := by
  obtain ⟨answer, probed⟩ := answers
  simp only [exactSearch, Option.ite_none_right_eq_some,
    Option.map_eq_some_iff, toOption_eq_some_iff] at probed
  obtain ⟨fits, price, priced, _⟩ := probed
  refine ⟨BitVec.ofNat w number, price, ?_, priced⟩
  rw [BitVec.toNat_ofNat, Nat.mod_eq_of_lt fits]

variable (wide : 64 ≤ w)

include wide

theorem probeFits_of_answers
    (number : Nat)
    (answers :
      (config.exactSearch pool isBid target baseReserve
        quoteReserve).Answers number) :
    config.ProbeFits pool isBid baseReserve.toNat quoteReserve.toNat
      number := by
  obtain ⟨quantity, price, rfl, priced⟩ := exists_price_of_answers answers
  refine (probeFits_iff wide).mpr ?_
  rw [priced]
  nofun

/-- Between two quantities with an answer the reserves are scaled in range. -/
theorem probeFits_between
    {low high : Nat}
    (lowAnswers :
      (config.exactSearch pool isBid target baseReserve
        quoteReserve).Answers low)
    (highAnswers :
      (config.exactSearch pool isBid target baseReserve
        quoteReserve).Answers high)
    {number : Nat}
    (above : low ≤ number)
    (below : number ≤ high) :
    config.ProbeFits pool isBid baseReserve.toNat quoteReserve.toNat
      number := by
  have lowFits := probeFits_of_answers wide low lowAnswers
  have highFits := probeFits_of_answers wide high highAnswers
  obtain ⟨lowQuantity, _, rfl, lowPriced⟩ :=
    exists_price_of_answers lowAnswers
  obtain ⟨highQuantity, _, rfl, highPriced⟩ :=
    exists_price_of_answers highAnswers
  obtain ⟨_, lowSwapped, _⟩ := bind_eq_ok_iff.mp lowPriced
  obtain ⟨_, highSwapped, _⟩ := bind_eq_ok_iff.mp highPriced
  have lowAmount := amountFits_of_swapAmount wide lowSwapped
  have highAmount := amountFits_of_swapAmount wide highSwapped
  have lowScales := lowFits.scales lowAmount
  have highScales := highFits.scales highAmount
  obtain ⟨⟨basePositive, quotePositive, available⟩, _⟩ := highAmount
  refine ⟨fun _ => lpFee_le_of_swapAmount lowSwapped, fun _ => ?_⟩
  cases isBid with
  | true =>
      -- the base reserve is largest after the least, the quote reserve after
      -- the most
      have baseFits := lowScales.base
      have quoteFits := highScales.quote
      refine ⟨lowScales.unitPower, lowScales.basePower,
        lowScales.quotePower, ?_, ?_⟩
      · refine Nat.lt_of_le_of_lt (Nat.mul_le_mul_right _ ?_) baseFits
        exact Nat.sub_le_sub_left above _
      · refine Nat.lt_of_le_of_lt (Nat.mul_le_mul_right _ ?_) quoteFits
        exact Nat.add_le_add_left
          (ConstantProduct.amountIn_mono below (available rfl).1) _
  | false =>
      have baseFits := highScales.base
      have quoteFits := lowScales.quote
      refine ⟨lowScales.unitPower, lowScales.basePower,
        lowScales.quotePower, ?_, ?_⟩
      · refine Nat.lt_of_le_of_lt (Nat.mul_le_mul_right _ ?_) baseFits
        exact Nat.add_le_add_left below _
      · refine Nat.lt_of_le_of_lt (Nat.mul_le_mul_right _ ?_) quoteFits
        exact Nat.sub_le_sub_left (ConstantProduct.amountOut_mono
          (Nat.mul_pos basePositive (by decide)) quotePositive above) _

/-- Every round fits if and only if the ends of the search do. -/
theorem forall_roundFits_iff
    {total : Nat}
    (positive : 0 < total) :
    (∀ interval ∈
        (config.exactSearch pool isBid target baseReserve
          quoteReserve).visited (.upTo total),
        config.RoundFits pool isBid target baseReserve quoteReserve
          interval) ↔
      config.SearchFits pool isBid target baseReserve quoteReserve total := by
  have even : 2 ∣ 2 ^ w := dvd_pow_self 2 (by omega)
  have bounds := Search.forall_inRange_iff
    (config.exactSearch pool isBid target baseReserve quoteReserve) even
    positive
  have prices := Search.forall_probes_iff
    (config.exactSearch pool isBid target baseReserve quoteReserve) positive
    (probeFits_of_answers wide)
    (fun number low high above below =>
      probeFits_between wide low high above below)
  have nonempty : (Interval.upTo total).low < (Interval.upTo total).high :=
    positive
  have first : (Interval.upTo total).middle = (total + 1) / 2 := by
    simp [Interval.middle, Interval.upTo]
  constructor
  · intro all
    obtain ⟨smallest, largest⟩ := prices.mp fun number member => by
      obtain ⟨interval, visited, rfl⟩ := List.mem_map.mp member
      exact (all interval visited).price
    refine ⟨bounds.mp fun interval visited => (all interval visited).bounds,
      ?_, largest, smallest⟩
    rw [← first]
    exact (all _ (Search.mem_visited nonempty _)).step
  · intro fits interval visited
    refine ⟨bounds.mpr fits.bounds interval visited,
      prices.mpr ⟨fits.smallest, fits.largest⟩ _
        (List.mem_map_of_mem visited), fun verdict probed moves => ?_⟩
    obtain ⟨earlier, probedFirst, movesFirst⟩ := Search.moves_first nonempty
      (List.mem_map_of_mem visited) probed moves
    rw [first] at probedFirst
    exact fits.step earlier probedFirst movesFirst

end Ends

/-- The fuel of the search lasts for every interval. -/
theorem fuel_suffices (state : SearchState w) :
    state.interval.high - state.interval.low < 2 ^ (3 * w) + 1 := by
  have bound : state.max.toNat < 2 ^ w := state.max.isLt
  have grows : 2 ^ w ≤ 2 ^ (3 * w) :=
    Nat.pow_le_pow_right (by decide) (by omega)
  have high : state.interval.high = state.max.toNat := rfl
  omega

section Whole

variable [DecidableEq Asset] (wide : 64 ≤ w)
  (config : Config w Account Asset) (pool : Pool w Account) (isBid : Bool)
  (target : BitVec w) {ledger : Ledger w Account Asset} {base quote : Asset}
  {baseReserve quoteReserve : BitVec w}
  (reserves :
    config.getReserves ledger base quote = .ok (baseReserve, quoteReserve))

include reserves

theorem findMaxSwapQuantity_checked (remainOrders : BitVec w) :
    config.checked.findMaxSwapQuantity pool isBid target ledger base quote
        remainOrders =
      config.checked.searchLoop pool isBid target baseReserve quoteReserve
        remainOrders := by
  have same :
      config.checked.getReserves ledger base quote =
        .ok (baseReserve, quoteReserve) := reserves
  rw [findMaxSwapQuantity, same, ok_bind]

include wide

/-- With overflow checks the search ends, whatever the decimals are. -/
theorem findMaxSwapQuantity_ends (remainOrders : BitVec w) :
    config.checked.findMaxSwapQuantity pool isBid target ledger base quote
      remainOrders ≠ .error .diverge := by
  rw [config.findMaxSwapQuantity_checked pool isBid target reserves]
  exact (config.searchBody_realized wide pool isBid target baseReserve
    quoteReserve).loop_ne_diverge (fuel_suffices _)

/--
The arithmetic of `find_max_swap_quantity` stays in range, so that a build
with overflow checks does not panic, if and only if it fits at the largest and
at the smallest quantity that the search probes.  These two follow from the
inputs: with the middle `m` of what is left to fill first, the largest one is
the first of `m`, `(m + step + total + 1) / 2`, ... that is not on the near
side of the target, the smallest one the first of `m`, `(m - step + 1) / 2`,
... that is not past it.
-/
theorem findMaxSwapQuantity_inRange_iff (remainOrders : BitVec w) :
    config.checked.findMaxSwapQuantity pool isBid target ledger base quote
        remainOrders ≠ .error .panic ↔
      remainOrders = 0 ∨
        config.SearchFits pool isBid target baseReserve quoteReserve
          remainOrders.toNat := by
  have panics :=
    (config.searchBody_realized wide pool isBid target baseReserve
      quoteReserve).loop_panics_iff (fuel_suffices ⟨0, remainOrders, 0⟩)
  rw [SearchState.interval_start] at panics
  rw [config.findMaxSwapQuantity_checked pool isBid target reserves,
    searchLoop, ne_eq, panics]
  by_cases none : remainOrders = 0
  · subst none
    have empty :
        ¬ (Interval.upTo (0 : BitVec w).toNat).low <
          (Interval.upTo (0 : BitVec w).toNat).high := by
      simp [Interval.upTo]
    rw [Search.visited_of_empty empty]
    simp
  · rw [or_iff_right none,
      ← forall_roundFits_iff wide (BitVec.toNat_pos_of_ne_zero none)]
    simp

end Whole

/-- A bid for 100 in a pool of 1000 and 1000, up to the price 110. -/
theorem findMaxSwapQuantity_inRange_bid :
    mock.checked.findMaxSwapQuantity (Pool.new 0 1 1 2 0 0) true 110
      (Storage.mock (Pool.new 0 1 1 2 0 0) 1000 1000).ledger 0 1 100 ≠
        .error .panic := by
  refine (findMaxSwapQuantity_inRange_iff (by decide) mock
    (Pool.new 0 1 1 2 0 0) true 110 rfl 100).mpr (.inr ?_)
  exact ⟨⟨by decide +kernel, by decide +kernel, by decide +kernel⟩,
    fun _ _ _ => by decide, by decide +kernel, by decide +kernel⟩

/--
A bid for 9 of an asset with one decimal, in a pool at the price 10000 and
up to 10010: the first probe, 5, is too much, and the search goes on at
5 - 10.  Without checks this wraps, and the search ends with an error.
-/
theorem findMaxSwapQuantity_underflow :
    mock.checked.findMaxSwapQuantity (Pool.new 0 1 1 4 1 1) true 10010
        (Storage.mock (Pool.new 0 1 1 4 1 1) 1000 1000).ledger 0 1 9 =
          .error .panic ∧
      mock.findMaxSwapQuantity (Pool.new 0 1 1 4 1 1) true 10010
        (Storage.mock (Pool.new 0 1 1 4 1 1) 1000 1000).ledger 0 1 9 =
          .error (.error .amountOutTooHigh) := by
  decide

end Config

end HybridOrderbook
