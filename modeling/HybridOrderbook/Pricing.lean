import HybridOrderbook.Ledger

namespace HybridOrderbook

open Library

/-!
# Prices and amounts

Prices come out of the reserves of the pool and out of the orders of the
book.  Both are scaled by powers of ten that depend on the decimals of the
pool, `Normalize` in `types.rs`.

`T::HigherPrecisionUnit` is twice as wide as `T::Unit` and only used through
checked operations, so it is modelled by natural numbers with a bound.
-/

variable {w : Nat} {Account Asset : Type}

/-- A checked operation of the higher precision: too large is an error. -/
def higher (w value : Nat) : Outcome Nat :=
  if value < 2 ^ (2 * w) then .ok value else .error (.error .overflow)

/-- Checked division of the higher precision. -/
def higherDiv (numerator denominator : Nat) : Outcome Nat :=
  if denominator = 0 then
    .error (.error .overflow)
  else
    .ok (numerator / denominator)

/-- Narrow a higher precision result back to a unit. -/
def tryIntoUnit (w value : Nat) : Outcome (BitVec w) :=
  if value < 2 ^ w then
    .ok (BitVec.ofNat w value)
  else
    .error (.error .overflow)

/-- Multiply by a power of ten that is computed in 64 bits. -/
def normalize
    (checks : Bool)
    (value : BitVec w)
    (adjustment : Option (BitVec 8)) : Outcome (BitVec w) := do
  let factor : BitVec 64 ← Machine.pow checks 10 (adjustment.getD 0).toNat
  Machine.mul checks value (factor.setWidth w)

/-- Divide by a power of ten that is computed in 64 bits. -/
def denom
    (checks : Bool)
    (value : BitVec w)
    (adjustment : BitVec 8) : Outcome (BitVec w) := do
  let factor : BitVec 64 ← Machine.pow checks 10 adjustment.toNat
  Machine.div value (factor.setWidth w)

/-- The quotient of `a * b` by `c`, rounded down. -/
def mulDiv (a b c : BitVec w) : Outcome (BitVec w) := do
  let product ← higher w (a.toNat * b.toNat)
  let result ← higherDiv product c.toNat
  tryIntoUnit w result

/-- Calculates the optimal amount from the reserves. -/
def quote (amount reserve1 reserve2 : BitVec w) : Outcome (BitVec w) :=
  mulDiv amount reserve2 reserve1

namespace Config

/-- The same runtime, built with overflow checks. -/
def checked (config : Config w Account Asset) : Config w Account Asset :=
  { config with overflowChecks := true }

theorem checked_eq
    (config : Config w Account Asset)
    (checks : config.overflowChecks = true) : config.checked = config := by
  rw [checked, ← checks]

/-- The thousandths of an amount that remain after the fee. -/
def amountShare (config : Config w Account Asset) : Outcome Nat :=
  if config.lpFee ≤ 1000 then
    .ok (1000 - config.lpFee)
  else if config.overflowChecks then
    .error .panic
  else
    .ok (2 ^ (2 * w) + 1000 - config.lpFee)

/-- Calculates amount out. -/
def getAmountOut
    (config : Config w Account Asset)
    (amountIn reserveIn reserveOut : BitVec w) : Outcome (BitVec w) := do
  ensure (¬ (reserveIn = 0 ∨ reserveOut = 0)) .zeroLiquidity
  let share ← config.amountShare
  let amountInWithFee ← higher w (amountIn.toNat * share)
  let numerator ← higher w (amountInWithFee * reserveOut.toNat)
  let scaledReserve ← higher w (reserveIn.toNat * 1000)
  let denominator ← higher w (scaledReserve + amountInWithFee)
  let result ← higherDiv numerator denominator
  tryIntoUnit w result

/-- Calculates amount in. -/
def getAmountIn
    (config : Config w Account Asset)
    (amountOut reserveIn reserveOut : BitVec w) : Outcome (BitVec w) := do
  ensure (¬ (reserveIn = 0 ∨ reserveOut = 0)) .zeroLiquidity
  ensure (¬ amountOut ≥ reserveOut) .amountOutTooHigh
  let product ← higher w (reserveIn.toNat * amountOut.toNat)
  let numerator ← higher w (product * 1000)
  let share ← config.amountShare
  let denominator ←
    higher w ((reserveOut.toNat - amountOut.toNat) * share)
  let quotient ← higherDiv numerator denominator
  let result ← higher w (quotient + 1)
  tryIntoUnit w result

/-- Current price of the pool based on base and quote reserves. -/
def poolPrice
    (config : Config w Account Asset)
    (pool : Pool w Account)
    (baseReserve quoteReserve : BitVec w) : Outcome (BitVec w) := do
  let (priceAdj, baseAdj, quoteAdj) := pool.decimalAdjustment
  let baseNorm ← normalize config.overflowChecks baseReserve baseAdj
  let quoteNorm ← normalize config.overflowChecks quoteReserve quoteAdj
  let amount ← normalize config.overflowChecks 1 priceAdj
  quote amount baseNorm quoteNorm

/--
The amount of quote asset that `quantity` is worth at `price` in the book,
as `do_place_order` and `handle_filled_orders` compute it.
-/
def quoteValue
    (config : Config w Account Asset)
    (pool : Pool w Account)
    (price quantity : BitVec w) : Outcome (BitVec w) := do
  let product ← Machine.mul config.overflowChecks price quantity
  let (priceAdj, _, quoteAdj) := pool.decimalAdjustment
  let adjustment ← Machine.add config.overflowChecks (priceAdj.getD 0)
    (quoteAdj.getD 0)
  denom config.overflowChecks product adjustment

end Config

/-- The largest power of ten in 64 bits is the nineteenth. -/
theorem ten_pow_lt_iff
    {exponent : Nat} : 10 ^ exponent < 2 ^ 64 ↔ exponent ≤ 19 := by
  constructor
  · intro fits
    by_contra large
    have grows : 10 ^ 20 ≤ 10 ^ exponent :=
      Nat.pow_le_pow_right (by decide) (Nat.lt_of_not_le large)
    exact absurd (Nat.lt_of_le_of_lt grows fits) (by decide)
  · intro small
    exact Nat.lt_of_le_of_lt (Nat.pow_le_pow_right (by decide) small)
      (by decide)

namespace Pool

/-- Decimals by which quote amounts are scaled up in a price. -/
def quoteShift (pool : Pool w Account) : Nat :=
  pool.baseDecimals.toNat - pool.quoteDecimals.toNat

/-- Decimals by which base amounts are scaled up in a price. -/
def baseShift (pool : Pool w Account) : Nat :=
  pool.quoteDecimals.toNat - pool.baseDecimals.toNat

/-- What a price of the book is divided by. -/
def bookScale (pool : Pool w Account) : Nat :=
  10 ^ (pool.poolDecimals.toNat + pool.quoteShift)

/-- The price of the pool, over the natural numbers. -/
def exactPrice (pool : Pool w Account) (base quote : Nat) : Nat :=
  10 ^ pool.poolDecimals.toNat * (quote * 10 ^ pool.quoteShift) /
    (base * 10 ^ pool.baseShift)

/-- The worth of a quantity in the book, over the natural numbers. -/
def exactValue (pool : Pool w Account) (price quantity : Nat) : Nat :=
  price * quantity / pool.bookScale

/-- The same worth with every intermediate result reduced to its width. -/
def wrappedValue (pool : Pool w Account) (price quantity : Nat) : Nat :=
  price * quantity % 2 ^ w /
    (10 ^ ((pool.poolDecimals.toNat + pool.quoteShift) % 2 ^ 8) % 2 ^ 64)

theorem bookScale_pos (pool : Pool w Account) : 0 < pool.bookScale :=
  Nat.pow_pos (by decide)

theorem bookScale_lt_iff (pool : Pool w Account) :
    pool.bookScale < 2 ^ 64 ↔
      pool.poolDecimals.toNat +
        (pool.baseDecimals.toNat - pool.quoteDecimals.toNat) ≤ 19 :=
  ten_pow_lt_iff

theorem priceAdj_toNat (pool : Pool w Account) :
    (pool.decimalAdjustment.1.getD 0).toNat = pool.poolDecimals.toNat := by
  have adjustment :
      pool.decimalAdjustment.1 =
        if pool.poolDecimals = 0 then none else some pool.poolDecimals := by
    unfold decimalAdjustment
    by_cases more : pool.baseDecimals > pool.quoteDecimals
    · simp only [more, ↓reduceIte]
    · by_cases less : pool.baseDecimals < pool.quoteDecimals
      · simp only [more, less, ↓reduceIte]
      · simp only [more, less, ↓reduceIte]
  rw [adjustment]
  by_cases isZero : pool.poolDecimals = 0#8
  · simp [isZero]
  · simp [isZero]

theorem quoteAdj_toNat (pool : Pool w Account) :
    (pool.decimalAdjustment.2.2.getD 0).toNat = pool.quoteShift := by
  unfold decimalAdjustment quoteShift
  by_cases more : pool.baseDecimals > pool.quoteDecimals
  · simp [more, BitVec.toNat_sub_of_le (BitVec.le_of_lt more)]
  · have covered := BitVec.not_lt.mp more
    rw [BitVec.le_def] at covered
    by_cases less : pool.baseDecimals < pool.quoteDecimals
    · simp only [more, less, ↓reduceIte, Option.getD_none]
      exact (Nat.sub_eq_zero_of_le covered).symm
    · simp only [more, less, ↓reduceIte, Option.getD_none]
      exact (Nat.sub_eq_zero_of_le covered).symm

theorem baseAdj_toNat (pool : Pool w Account) :
    (pool.decimalAdjustment.2.1.getD 0).toNat = pool.baseShift := by
  unfold decimalAdjustment baseShift
  by_cases more : pool.baseDecimals > pool.quoteDecimals
  · have covered := BitVec.le_of_lt more
    rw [BitVec.le_def] at covered
    simp only [more, ↓reduceIte, Option.getD_none]
    exact (Nat.sub_eq_zero_of_le covered).symm
  · by_cases less : pool.baseDecimals < pool.quoteDecimals
    · simp [more, less, BitVec.toNat_sub_of_le (BitVec.le_of_lt less)]
    · have covered := BitVec.not_lt.mp less
      rw [BitVec.le_def] at covered
      simp only [more, less, ↓reduceIte, Option.getD_none]
      exact (Nat.sub_eq_zero_of_le covered).symm

/-- A larger quote reserve and a smaller base reserve raise the price. -/
theorem exactPrice_le
    (pool : Pool w Account)
    {base quote lessBase moreQuote : Nat}
    (positive : 0 < lessBase)
    (baseFalls : lessBase ≤ base)
    (quoteRises : quote ≤ moreQuote) :
    pool.exactPrice base quote ≤ pool.exactPrice lessBase moreQuote := by
  unfold exactPrice
  refine Nat.div_le_div ?_ ?_ ?_
  · exact Nat.mul_le_mul_left _ (Nat.mul_le_mul_right _ quoteRises)
  · exact Nat.mul_le_mul_right _ baseFalls
  · exact (Nat.mul_pos positive (Nat.pow_pos (by decide))).ne'

/-- Filling a bid in parts never releases more than filling it at once. -/
theorem exactValue_superadditive
    (pool : Pool w Account)
    (price first second : Nat) :
    pool.exactValue price first + pool.exactValue price second ≤
      pool.exactValue price (first + second) := by
  unfold exactValue
  rw [Nat.mul_add]
  exact Nat.div_add_div_le_add_div

end Pool

section Exactness

/-- The higher precision has room for the product of two units. -/
theorem mul_lt_higher (a b : BitVec w) :
    a.toNat * b.toNat < 2 ^ (2 * w) := by
  rw [Nat.two_mul, Nat.pow_add]
  exact Nat.mul_lt_mul'' a.isLt b.isLt

theorem higher_eq_ok_iff
    {value result : Nat} :
    higher w value = .ok result ↔ value < 2 ^ (2 * w) ∧ value = result := by
  unfold higher
  split <;> simp_all

theorem higherDiv_eq_ok_iff
    {numerator denominator result : Nat} :
    higherDiv numerator denominator = .ok result ↔
      denominator ≠ 0 ∧ numerator / denominator = result := by
  unfold higherDiv
  split <;> simp_all

theorem toNat_of_tryIntoUnit
    {value : Nat}
    {result : BitVec w}
    (narrowed : tryIntoUnit w value = .ok result) :
    result.toNat = value := by
  unfold tryIntoUnit at narrowed
  split at narrowed
  · rename_i fits
    cases narrowed
    simpa using Nat.mod_eq_of_lt fits
  · cases narrowed

/-- Quotients are exact. -/
theorem toNat_of_mulDiv
    {a b c result : BitVec w}
    (computed : mulDiv a b c = .ok result) :
    c.toNat ≠ 0 ∧ result.toNat = a.toNat * b.toNat / c.toNat := by
  simp only [mulDiv, bind_eq_ok_iff, higher_eq_ok_iff,
    higherDiv_eq_ok_iff] at computed
  obtain ⟨_, ⟨_, rfl⟩, _, ⟨nonzero, rfl⟩, narrowed⟩ := computed
  exact ⟨nonzero, toNat_of_tryIntoUnit narrowed⟩

/-- All that the higher precision can do is overflow. -/
theorem failsOnly_higher (value : Nat) :
    FailsOnly (· = .error .overflow) (higher w value) := by
  unfold higher
  split
  · exact failsOnly_ok _ _
  · exact fun _ failed => (Except.error.inj failed).symm

theorem failsOnly_higherDiv (numerator denominator : Nat) :
    FailsOnly (· = .error .overflow) (higherDiv numerator denominator) := by
  unfold higherDiv
  split
  · exact fun _ failed => (Except.error.inj failed).symm
  · exact failsOnly_ok _ _

theorem failsOnly_tryIntoUnit (value : Nat) :
    FailsOnly (· = .error .overflow) (tryIntoUnit w value) := by
  unfold tryIntoUnit
  split
  · exact failsOnly_ok _ _
  · exact fun _ failed => (Except.error.inj failed).symm

theorem failsOnly_mulDiv (a b c : BitVec w) :
    FailsOnly (· = .error .overflow) (mulDiv a b c) := by
  refine .bind (failsOnly_higher _) fun product => ?_
  refine .bind (failsOnly_higherDiv _ _) fun result => ?_
  exact failsOnly_tryIntoUnit result

theorem failsOnly_normalize
    (checks : Bool)
    (value : BitVec w)
    (adjustment : Option (BitVec 8)) :
    FailsOnly (· = .panic) (normalize checks value adjustment) := by
  refine .bind (Machine.failsOnly_pow _ _ _) fun factor => ?_
  exact Machine.failsOnly_mul _ _ _

theorem toNat_one (wide : 64 ≤ w) : (1 : BitVec w).toNat = 1 := by
  simp [BitVec.toNat_one (by omega : 0 < w)]

theorem toNat_two (wide : 64 ≤ w) : (2 : BitVec w).toNat = 2 := by
  simp only [BitVec.ofNat_eq_ofNat, BitVec.toNat_ofNat]
  refine Nat.mod_eq_of_lt ?_
  calc
    2 < 2 ^ 2 := by decide
    _ ≤ 2 ^ w := Nat.pow_le_pow_right (by decide) (by omega)

/-- A 64-bit power of ten keeps its value in a unit of at least 64 bits. -/
theorem toNat_setWidth_factor
    (wide : 64 ≤ w)
    (factor : BitVec 64) : (factor.setWidth w).toNat = factor.toNat := by
  rw [BitVec.toNat_setWidth]
  exact Nat.mod_eq_of_lt (Nat.lt_of_lt_of_le factor.isLt
    (Nat.pow_le_pow_right (by decide) wide))

/-- Normalizing without overflow multiplies by the power of ten. -/
theorem toNat_of_normalize
    (wide : 64 ≤ w)
    {value result : BitVec w}
    {adjustment : Option (BitVec 8)}
    (normalized : normalize true value adjustment = .ok result) :
    result.toNat = value.toNat * 10 ^ (adjustment.getD 0).toNat := by
  simp only [normalize, bind_eq_ok_iff] at normalized
  obtain ⟨factor, raised, multiplied⟩ := normalized
  rw [Machine.toNat_of_mul_checked multiplied, toNat_setWidth_factor wide,
    Machine.toNat_of_pow_checked raised]

/-- Normalizing succeeds if the power of ten and the product fit. -/
theorem normalize_of_fits
    (wide : 64 ≤ w)
    {value : BitVec w}
    {adjustment : Option (BitVec 8)}
    (small : (adjustment.getD 0).toNat ≤ 19)
    (fits : value.toNat * 10 ^ (adjustment.getD 0).toNat < 2 ^ w) :
    ∃ result,
      normalize true value adjustment = .ok result ∧
        result.toNat = value.toNat * 10 ^ (adjustment.getD 0).toNat := by
  have powerFits := ten_pow_lt_iff.mpr small
  have factor :
      ((BitVec.ofNat 64 (10 ^ (adjustment.getD 0).toNat)).setWidth w).toNat =
        10 ^ (adjustment.getD 0).toNat := by
    rw [toNat_setWidth_factor wide, BitVec.toNat_ofNat,
      Nat.mod_eq_of_lt powerFits]
  rw [← factor] at fits
  have normalized :
      normalize true value adjustment =
        .ok (value *
          (BitVec.ofNat 64 (10 ^ (adjustment.getD 0).toNat)).setWidth w) :=
    bind_eq_ok_iff.mpr
      ⟨_, Machine.pow_of_lt powerFits, Machine.mul_of_lt fits⟩
  exact ⟨_, normalized, toNat_of_normalize wide normalized⟩

/-- Normalizing succeeds only if they do. -/
theorem fits_of_normalize
    (wide : 64 ≤ w)
    {value result : BitVec w}
    {adjustment : Option (BitVec 8)}
    (normalized : normalize true value adjustment = .ok result) :
    (adjustment.getD 0).toNat ≤ 19 ∧
      value.toNat * 10 ^ (adjustment.getD 0).toNat < 2 ^ w := by
  refine ⟨?_, toNat_of_normalize wide normalized ▸ result.isLt⟩
  simp only [normalize, bind_eq_ok_iff] at normalized
  obtain ⟨factor, raised, _⟩ := normalized
  exact ten_pow_lt_iff.mp (Machine.toNat_of_pow_checked raised ▸ factor.isLt)

/-- A quote of one scaled unit at scaled reserves is the exact price. -/
theorem toNat_of_scaled_quote
    (wide : 64 ≤ w)
    {pool : Pool w Account}
    {base quoted unit baseNorm quoteNorm price : BitVec w}
    (unitScaled :
      normalize true 1 pool.decimalAdjustment.1 = .ok unit)
    (baseScaled :
      normalize true base pool.decimalAdjustment.2.1 = .ok baseNorm)
    (quoteScaled :
      normalize true quoted pool.decimalAdjustment.2.2 = .ok quoteNorm)
    (priced : quote unit baseNorm quoteNorm = .ok price) :
    base.toNat ≠ 0 ∧
      price.toNat = pool.exactPrice base.toNat quoted.toNat := by
  have baseExact := toNat_of_normalize wide baseScaled
  have quoteExact := toNat_of_normalize wide quoteScaled
  have unitExact := toNat_of_normalize wide unitScaled
  obtain ⟨nonzero, exact⟩ := toNat_of_mulDiv priced
  rw [pool.baseAdj_toNat] at baseExact
  rw [pool.quoteAdj_toNat] at quoteExact
  rw [pool.priceAdj_toNat, toNat_one wide, Nat.one_mul] at unitExact
  refine ⟨?_, ?_⟩
  · intro isZero
    rw [baseExact, isZero, Nat.zero_mul] at nonzero
    exact nonzero rfl
  · rw [exact, unitExact, quoteExact, baseExact, Pool.exactPrice]

/-- The price of the pool, computed without overflow, is the exact one. -/
theorem Config.toNat_of_poolPrice
    (wide : 64 ≤ w)
    {config : Config w Account Asset}
    (checks : config.overflowChecks = true)
    {pool : Pool w Account}
    {base quote price : BitVec w}
    (priced : config.poolPrice pool base quote = .ok price) :
    base.toNat ≠ 0 ∧
      price.toNat = pool.exactPrice base.toNat quote.toNat := by
  simp only [poolPrice, checks, bind_eq_ok_iff] at priced
  obtain ⟨baseNorm, baseScaled, quoteNorm, quoteScaled, unit, unitScaled,
    quoted⟩ := priced
  exact toNat_of_scaled_quote wide unitScaled baseScaled quoteScaled quoted

/-- What either build computes. -/
theorem Config.toNat_of_quoteValue
    (wide : 64 ≤ w)
    {config : Config w Account Asset}
    {pool : Pool w Account}
    {price quantity value : BitVec w}
    (valued : config.quoteValue pool price quantity = .ok value) :
    value.toNat = pool.wrappedValue price.toNat quantity.toNat := by
  simp only [quoteValue, denom, bind_eq_ok_iff,
    Machine.div_eq_ok_iff] at valued
  obtain ⟨product, multiplied, adjustment, added, factor, raised, _, rfl⟩ :=
    valued
  rw [BitVec.toNat_udiv, toNat_setWidth_factor wide,
    Machine.eq_of_pow raised, Machine.eq_of_add added,
    Machine.eq_of_mul multiplied, BitVec.toNat_mul, BitVec.toNat_ofNat,
    BitVec.toNat_add, pool.priceAdj_toNat, pool.quoteAdj_toNat,
    Pool.wrappedValue]

/-- Where nothing overflows, either build computes the exact worth. -/
theorem Config.quoteValue_eq
    (wide : 64 ≤ w)
    (config : Config w Account Asset)
    {pool : Pool w Account}
    {price quantity : BitVec w}
    (scaleFits : pool.bookScale < 2 ^ 64)
    (productFits : price.toNat * quantity.toNat < 2 ^ w) :
    ∃ value,
      config.quoteValue pool price quantity = .ok value ∧
        value.toNat = pool.exactValue price.toNat quantity.toNat := by
  have exponentSmall : pool.poolDecimals.toNat + pool.quoteShift ≤ 19 :=
    pool.bookScale_lt_iff.mp scaleFits
  have adjustmentFits :
      (pool.decimalAdjustment.1.getD 0).toNat +
        (pool.decimalAdjustment.2.2.getD 0).toNat < 2 ^ 8 := by
    rw [pool.priceAdj_toNat, pool.quoteAdj_toNat]
    omega
  have exponent :
      (pool.decimalAdjustment.1.getD 0 +
          pool.decimalAdjustment.2.2.getD 0).toNat =
        pool.poolDecimals.toNat + pool.quoteShift := by
    rw [BitVec.toNat_add, Nat.mod_eq_of_lt adjustmentFits,
      pool.priceAdj_toNat, pool.quoteAdj_toNat]
  have factor :
      ((BitVec.ofNat 64 pool.bookScale).setWidth w).toNat =
        pool.bookScale := by
    rw [toNat_setWidth_factor wide, BitVec.toNat_ofNat,
      Nat.mod_eq_of_lt scaleFits]
  have nonzero :
      (BitVec.ofNat 64 pool.bookScale).setWidth w ≠ 0 := by
    intro isZero
    rw [isZero] at factor
    simp only [BitVec.ofNat_eq_ofNat, BitVec.toNat_zero] at factor
    exact pool.bookScale_pos.ne factor
  refine ⟨(price * quantity) / (BitVec.ofNat 64 pool.bookScale).setWidth w,
    ?_, ?_⟩
  · simp only [quoteValue, Machine.mul_of_lt productFits,
      Machine.add_of_lt adjustmentFits, denom, exponent, bind_eq_ok_iff,
      Except.ok.injEq, exists_eq_left']
    refine ⟨_, Machine.pow_of_lt scaleFits, ?_⟩
    exact Machine.div_eq_ok_iff.mpr ⟨nonzero, rfl⟩
  · rw [BitVec.toNat_udiv, factor, BitVec.toNat_mul,
      Nat.mod_eq_of_lt productFits, Pool.exactValue]

end Exactness

section OneScale

/-- A price without rounding is a ratio of scaled reserves. -/
theorem Config.poolPrice_mul_eq
    (wide : 64 ≤ w)
    {config : Config w Account Asset}
    {pool : Pool w Account}
    {base quote price : BitVec w}
    (priced : config.checked.poolPrice pool base quote = .ok price)
    (unrounded :
      base.toNat * 10 ^ pool.baseShift ∣
        10 ^ pool.poolDecimals.toNat *
          (quote.toNat * 10 ^ pool.quoteShift)) :
    price.toNat * base.toNat * 10 ^ pool.baseShift =
      pool.bookScale * quote.toNat := by
  rw [(toNat_of_poolPrice wide rfl priced).2, Pool.exactPrice, Nat.mul_assoc,
    Nat.div_mul_cancel unrounded, Pool.bookScale, Nat.pow_add]
  ring

/--
What the pool's scale multiplies, the scale of the book divides again: neither
of them overflows, or the power of ten wraps and the product with it.
-/
def Config.ScaleCancels
    (config : Config w Account Asset)
    (pool : Pool w Account)
    (quote : Nat) : Prop :=
  pool.bookScale < 2 ^ 64 ∧ pool.bookScale * quote < 2 ^ w ∨
    config.overflowChecks = false ∧ 2 ^ 64 ≤ pool.bookScale ∧
      pool.bookScale % 2 ^ 64 * quote < 2 ^ w ∧
      2 ^ w ∣ (pool.bookScale - pool.bookScale % 2 ^ 64) * quote

/-- A quotient of wrapped numbers is exact if both wrap alike. -/
theorem wrapped_div_eq_iff
    (wide : 64 ≤ w)
    {scale quote : Nat}
    (nonzero : scale % 2 ^ 64 ≠ 0) :
    scale * quote % 2 ^ w / (scale % 2 ^ 64) = quote ↔
      scale % 2 ^ 64 * quote < 2 ^ w ∧
        2 ^ w ∣ (scale - scale % 2 ^ 64) * quote := by
  have positive := Nat.pos_of_ne_zero nonzero
  have less : scale % 2 ^ 64 < 2 ^ 64 := Nat.mod_lt _ (by decide)
  have parts :
      scale * quote =
        (scale - scale % 2 ^ 64) * quote + scale % 2 ^ 64 * quote := by
    rw [← Nat.add_mul, Nat.sub_add_cancel (Nat.mod_le ..)]
  constructor
  · intro exact
    have lower : scale % 2 ^ 64 * quote ≤ scale * quote % 2 ^ w := by
      conv_lhs => rw [← exact]
      exact Nat.mul_div_le ..
    have upper :
        scale * quote % 2 ^ w - scale % 2 ^ 64 * quote < scale % 2 ^ 64 := by
      have bounded := Nat.lt_mul_div_succ (scale * quote % 2 ^ w) positive
      rw [exact, Nat.mul_add, Nat.mul_one] at bounded
      omega
    -- both are the product up to a multiple of the narrower word
    have congruent :
        scale % 2 ^ 64 * quote ≡ scale * quote % 2 ^ w [MOD 2 ^ 64] := by
      calc
        scale % 2 ^ 64 * quote ≡ scale * quote [MOD 2 ^ 64] :=
          (Nat.mod_modEq ..).mul_right _
        _ ≡ scale * quote % 2 ^ w [MOD 2 ^ 64] :=
          ((Nat.mod_modEq ..).symm).of_dvd (Nat.pow_dvd_pow 2 wide)
    have same : scale * quote % 2 ^ w = scale % 2 ^ 64 * quote := by
      have divides := (Nat.modEq_iff_dvd' lower).mp congruent
      have zero := Nat.eq_zero_of_dvd_of_lt divides (upper.trans less)
      omega
    refine ⟨same ▸ Nat.mod_lt _ (Nat.two_pow_pos w), ?_⟩
    have divides := Nat.dvd_sub_mod (n := 2 ^ w) (scale * quote)
    rwa [same, parts, Nat.add_sub_cancel] at divides
  · rintro ⟨fits, divides⟩
    rw [parts, Nat.add_mod, Nat.mod_eq_zero_of_dvd divides, Nat.zero_add,
      Nat.mod_mod, Nat.mod_eq_of_lt fits, Nat.mul_div_cancel_left _ positive]

section Scales

variable (wide : 64 ≤ w) {config : Config w Account Asset}
  {pool : Pool w Account} {base quote price : BitVec w}

include wide

/-- The powers of ten that the price of a pool was computed with. -/
theorem Config.shifts_of_poolPrice
    (priced : config.checked.poolPrice pool base quote = .ok price) :
    pool.poolDecimals.toNat ≤ 19 ∧ pool.quoteShift ≤ 19 := by
  simp only [poolPrice, bind_eq_ok_iff] at priced
  obtain ⟨baseNorm, baseScaled, quoteNorm, quoteScaled, unit, unitScaled,
    quoted⟩ := priced
  have unitFits := (fits_of_normalize wide unitScaled).1
  have quoteFits := (fits_of_normalize wide quoteScaled).1
  rw [pool.priceAdj_toNat] at unitFits
  rw [pool.quoteAdj_toNat] at quoteFits
  exact ⟨unitFits, quoteFits⟩

variable (shifts : pool.poolDecimals.toNat ≤ 19 ∧ pool.quoteShift ≤ 19)

include shifts

omit wide in
/-- With such powers of ten the exponent of the book does not wrap. -/
theorem Pool.exponent_mod :
    (pool.poolDecimals.toNat + pool.quoteShift) % 2 ^ 8 =
      pool.poolDecimals.toNat + pool.quoteShift :=
  Nat.mod_eq_of_lt (by omega)

omit wide in
theorem Pool.wrappedValue_of_shifts
    (price quantity : Nat) :
    pool.wrappedValue price quantity =
      price * quantity % 2 ^ w / (pool.bookScale % 2 ^ 64) := by
  rw [wrappedValue, exponent_mod shifts, bookScale]

omit wide in
/-- Nor does the power itself wrap to zero. -/
theorem Pool.bookScale_mod_ne_zero : pool.bookScale % 2 ^ 64 ≠ 0 := by
  have all : ∀ exponent ≤ 38, 10 ^ exponent % 2 ^ 64 ≠ 0 := by decide
  exact all _ (by omega)

/-- Without overflow checks, the book always has a worth. -/
theorem Config.exists_quoteValue_unchecked
    (unchecked : config.overflowChecks = false)
    (price quantity : BitVec w) :
    ∃ value,
      config.quoteValue pool price quantity = .ok value ∧
        value.toNat = price.toNat * quantity.toNat % 2 ^ w /
          (pool.bookScale % 2 ^ 64) := by
  have factor :
      ((BitVec.ofNat 64 (10 ^ (pool.decimalAdjustment.1.getD 0 +
          pool.decimalAdjustment.2.2.getD 0).toNat)).setWidth w).toNat =
        pool.bookScale % 2 ^ 64 := by
    rw [toNat_setWidth_factor wide, BitVec.toNat_ofNat, BitVec.toNat_add,
      pool.priceAdj_toNat, pool.quoteAdj_toNat, Pool.exponent_mod shifts,
      Pool.bookScale]
  have nonzero :
      (BitVec.ofNat 64 (10 ^ (pool.decimalAdjustment.1.getD 0 +
        pool.decimalAdjustment.2.2.getD 0).toNat)).setWidth w ≠ 0 := by
    intro isZero
    rw [isZero] at factor
    exact Pool.bookScale_mod_ne_zero shifts (factor.symm.trans (by simp))
  have valued :
      config.quoteValue pool price quantity =
        .ok (price * quantity /
          (BitVec.ofNat 64 (10 ^ (pool.decimalAdjustment.1.getD 0 +
            pool.decimalAdjustment.2.2.getD 0).toNat)).setWidth w) := by
    simp only [quoteValue, denom, unchecked, bind_eq_ok_iff]
    exact ⟨_, rfl, _, rfl, _, rfl, Machine.div_eq_ok_iff.mpr ⟨nonzero, rfl⟩⟩
  refine ⟨_, valued, ?_⟩
  rw [toNat_of_quoteValue wide valued, Pool.wrappedValue_of_shifts shifts]

omit wide shifts in
/-- With overflow checks, the scale of the book fits if there is a worth. -/
theorem Config.bookScale_lt_of_quoteValue
    (checks : config.overflowChecks = true)
    {value : BitVec w}
    (valued : config.quoteValue pool price base = .ok value) :
    pool.bookScale < 2 ^ 64 := by
  simp only [quoteValue, denom, checks, bind_eq_ok_iff] at valued
  obtain ⟨product, _, adjustment, added, factor, raised, _⟩ := valued
  have exponent := Machine.toNat_of_add_checked added
  rw [pool.priceAdj_toNat, pool.quoteAdj_toNat] at exponent
  rw [Pool.bookScale, ← exponent, ← Machine.toNat_of_pow_checked raised]
  exact factor.isLt

/--
The worth of a product that is a multiple of the scale is the other factor if
and only if the scale cancels.
-/
theorem Config.quoteValue_eq_iff_scaleCancels
    (multiple :
      price.toNat * base.toNat = pool.bookScale * quote.toNat) :
    config.quoteValue pool price base = .ok quote ↔
      config.ScaleCancels pool quote.toNat := by
  have positive := pool.bookScale_pos
  constructor
  · intro valued
    have exact := toNat_of_quoteValue wide valued
    rw [Pool.wrappedValue_of_shifts shifts, multiple] at exact
    by_cases scaleFits : pool.bookScale < 2 ^ 64
    · rw [Nat.mod_eq_of_lt scaleFits] at exact
      refine .inl ⟨scaleFits, Nat.lt_of_le_of_lt ?_
        (Nat.mod_lt (pool.bookScale * quote.toNat) (Nat.two_pow_pos w))⟩
      conv_lhs => rw [exact]
      exact Nat.mul_div_le ..
    · refine .inr ⟨?_, Nat.le_of_not_lt scaleFits, ?_⟩
      · exact Bool.eq_false_iff.mpr fun checks =>
          scaleFits (bookScale_lt_of_quoteValue checks valued)
      · exact (wrapped_div_eq_iff wide
          (Pool.bookScale_mod_ne_zero shifts)).mp exact.symm
  · rintro (⟨scaleFits, productFits⟩ | ⟨unchecked, _, wrapsAlike⟩)
    · rw [← multiple] at productFits
      obtain ⟨value, valued, exact⟩ :=
        config.quoteValue_eq wide scaleFits productFits
      rw [Pool.exactValue, multiple, Nat.mul_div_cancel_left _ positive]
        at exact
      rw [valued, BitVec.eq_of_toNat_eq exact]
    · obtain ⟨value, valued, exact⟩ :=
        exists_quoteValue_unchecked wide shifts unchecked price base
      rw [multiple, (wrapped_div_eq_iff wide
        (Pool.bookScale_mod_ne_zero shifts)).mpr wrapsAlike] at exact
      rw [valued, BitVec.eq_of_toNat_eq exact]

end Scales

/--
The book values the base reserve, at the price of the pool, at exactly the
quote reserve if and only if the quote asset has no more decimals than the
base asset, whose shift is never undone in the book, and the scale of the book
cancels that of the pool.
-/
theorem Config.quoteValue_poolPrice_iff
    (wide : 64 ≤ w)
    (config : Config w Account Asset)
    (pool : Pool w Account)
    (base quote price : BitVec w)
    (quotePositive : 0 < quote.toNat)
    (priced : config.checked.poolPrice pool base quote = .ok price)
    (unrounded :
      base.toNat * 10 ^ pool.baseShift ∣
        10 ^ pool.poolDecimals.toNat *
          (quote.toNat * 10 ^ pool.quoteShift)) :
    config.quoteValue pool price base = .ok quote ↔
      pool.quoteDecimals ≤ pool.baseDecimals ∧
        config.ScaleCancels pool quote.toNat := by
  have ratio := poolPrice_mul_eq wide priced unrounded
  have shifts := shifts_of_poolPrice wide priced
  by_cases enough : pool.quoteDecimals ≤ pool.baseDecimals
  · have noShift : pool.baseShift = 0 :=
      Nat.sub_eq_zero_of_le (BitVec.le_def.mp enough)
    rw [noShift, Nat.pow_zero, Nat.mul_one] at ratio
    rw [quoteValue_eq_iff_scaleCancels wide shifts ratio]
    exact (and_iff_right enough).symm
  · refine iff_of_false (fun valued => ?_) fun condition =>
      enough condition.1
    have more : pool.baseDecimals.toNat < pool.quoteDecimals.toNat :=
      BitVec.lt_def.mp (BitVec.not_le.mp enough)
    -- the quote reserve has no shift, so that the scale of the book fits
    have scaleFits : pool.bookScale < 2 ^ 64 := by
      refine ten_pow_lt_iff.mpr ?_
      have noShift : pool.quoteShift = 0 := Nat.sub_eq_zero_of_le more.le
      omega
    have exact := toNat_of_quoteValue wide valued
    rw [Pool.wrappedValue_of_shifts shifts, Nat.mod_eq_of_lt scaleFits]
      at exact
    have covered :
        pool.bookScale * quote.toNat ≤ price.toNat * base.toNat := by
      rw [exact]
      exact (Nat.mul_div_le ..).trans (Nat.mod_le ..)
    -- and the worth times the base shift would still be the quote reserve
    have shifted : 1 < 10 ^ pool.baseShift :=
      Nat.one_lt_pow (Nat.sub_ne_zero_of_lt more) (by decide)
    have strict :
        pool.bookScale * quote.toNat <
          pool.bookScale * quote.toNat * 10 ^ pool.baseShift :=
      (Nat.lt_mul_iff_one_lt_right
        (Nat.mul_pos pool.bookScale_pos quotePositive)).mpr shifted
    have bounded := Nat.mul_le_mul_right (10 ^ pool.baseShift) covered
    omega

/-- A base asset with one more decimal than the quote asset. -/
theorem Config.quoteValue_poolPrice_more_base_decimals :
    Config.mock.quoteValue (Pool.new 0 1 1 2 1 0) 10000 10 = .ok 100 :=
  (Config.mock.quoteValue_poolPrice_iff (by decide) (Pool.new 0 1 1 2 1 0)
    10 100 10000 (by decide) (by decide) (by decide)).mpr
    ⟨by decide, .inl (by decide)⟩

/-- With one more quote decimal, 10 base units are valued at 10, not 100. -/
theorem Config.quoteValue_poolPrice_more_quote_decimals :
    Config.mock.checked.poolPrice (Pool.new 0 1 1 2 0 1) 10 100 = .ok 100 ∧
      10 * 10 ^ 1 ∣ 10 ^ 2 * (100 * 10 ^ 0) ∧
      Config.mock.quoteValue (Pool.new 0 1 1 2 0 1) 100 10 = .ok 10 := by
  decide

end OneScale

end HybridOrderbook
