import HybridOrderbook.Checked
import HybridOrderbook.SearchRange

namespace HybridOrderbook

open Library

/-!
# The range of the price

The quotient of `pool_price` is computed in the higher precision and checked,
but the three values it is taken of are scaled in the unit of the runtime, by
powers of ten in 64 bits.  The build without overflow checks wraps there and
prices the wrapped values.
-/

variable {w : Nat} {Account Asset : Type}

/-- A value that is scaled by a power of ten, reduced to its width. -/
def wrappedScale (w value exponent : Nat) : Nat :=
  value * (10 ^ exponent % 2 ^ 64) % 2 ^ w

/-- The quotient of the wrapped values, over the natural numbers. -/
def Pool.wrappedPrice
    (pool : Pool w Account)
    (base quote : Nat) : Nat :=
  wrappedScale w 1 pool.poolDecimals.toNat *
      wrappedScale w quote pool.quoteShift /
    wrappedScale w base pool.baseShift

/-- A quotient fails if the divisor is zero or the result does not fit. -/
theorem mulDiv_eq_error_iff
    {a b c : BitVec w} :
    (∃ error, mulDiv a b c = .error (.error error)) ↔
      c.toNat = 0 ∨ 2 ^ w ≤ a.toNat * b.toNat / c.toNat := by
  have product : higher w (a.toNat * b.toNat) = .ok (a.toNat * b.toNat) :=
    if_pos (mul_lt_higher a b)
  unfold mulDiv
  rw [product]
  by_cases isZero : c.toNat = 0
  · simp [higherDiv, isZero, bind, Except.bind]
  · by_cases narrow : a.toNat * b.toNat / c.toNat < 2 ^ w
    · simp [higherDiv, tryIntoUnit, isZero, narrow, bind, Except.bind]
    · simp [higherDiv, tryIntoUnit, isZero, narrow, bind, Except.bind,
        Nat.le_of_not_lt narrow]

/-- What either build scales a value to. -/
theorem toNat_eq_wrappedScale
    (wide : 64 ≤ w)
    {checks : Bool}
    {value result : BitVec w}
    {adjustment : Option (BitVec 8)}
    (normalized : normalize checks value adjustment = .ok result) :
    result.toNat =
      wrappedScale w value.toNat (adjustment.getD 0).toNat := by
  simp only [normalize, bind_eq_ok_iff] at normalized
  obtain ⟨factor, raised, multiplied⟩ := normalized
  rw [Machine.eq_of_mul multiplied, BitVec.toNat_mul,
    toNat_setWidth_factor wide, Machine.eq_of_pow raised,
    BitVec.toNat_ofNat, wrappedScale]

/-- Without overflow checks a value is always scaled. -/
theorem normalize_unchecked
    (value : BitVec w)
    (adjustment : Option (BitVec 8)) :
    ∃ result, normalize false value adjustment = .ok result :=
  ⟨_, rfl⟩

namespace Config

variable (config : Config w Account Asset) (pool : Pool w Account)
  (base quoted : BitVec w)

/--
The price is exact, with nothing wrapped on the way, or it is refused with an
error of the pallet.
-/
def PricesExactly : Prop :=
  (∃ price,
      config.poolPrice pool base quoted = .ok price ∧
        price.toNat = pool.exactPrice base.toNat quoted.toNat ∧
        pool.ScalesFit base.toNat quoted.toNat) ∨
    ∃ error, config.poolPrice pool base quoted = .error (.error error)

variable {config pool base quoted}

theorem pricesExactly_of_scalesFit
    (wide : 64 ≤ w)
    (scales : pool.ScalesFit base.toNat quoted.toNat) :
    config.PricesExactly pool base quoted := by
  obtain ⟨unit, baseNorm, quoteNorm, unitScaled, baseScaled, quoteScaled⟩ :=
    scales.normalized wide
  have priced :
      config.poolPrice pool base quoted =
        quote unit baseNorm quoteNorm := by
    unfold poolPrice
    dsimp only
    rw [(normalize_agrees _ _ _).approximates.returns baseScaled,
      (normalize_agrees _ _ _).approximates.returns quoteScaled,
      (normalize_agrees _ _ _).approximates.returns unitScaled]
    rfl
  rw [PricesExactly, priced]
  rcases outcome : quote unit baseNorm quoteNorm with fault | price
  · obtain rfl := failsOnly_mulDiv _ _ _ fault outcome
    exact .inr ⟨_, rfl⟩
  · exact .inl ⟨price, rfl,
      (toNat_of_scaled_quote wide unitScaled baseScaled quoteScaled
        outcome).2, scales⟩

/-- The build with overflow checks panics if the scales do not fit. -/
theorem poolPrice_panics
    (wide : 64 ≤ w)
    (checks : config.overflowChecks = true)
    (unfit : ¬ pool.ScalesFit base.toNat quoted.toNat) :
    config.poolPrice pool base quoted = .error .panic := by
  by_contra avoided
  simp only [poolPrice, checks] at avoided
  obtain ⟨baseNorm, baseScaled, avoided⟩ :=
    (failsOnly_normalize _ _ _).exists_ok_of_bind avoided
  obtain ⟨quoteNorm, quoteScaled, avoided⟩ :=
    (failsOnly_normalize _ _ _).exists_ok_of_bind avoided
  obtain ⟨unit, unitScaled, _⟩ :=
    (failsOnly_normalize _ _ _).exists_ok_of_bind avoided
  exact unfit (.of_normalized wide unitScaled baseScaled quoteScaled)

/-- The build without overflow checks takes the quotient of what is left. -/
theorem poolPrice_unchecked_fails_iff
    (wide : 64 ≤ w)
    (unchecked : config.overflowChecks = false) :
    (∃ error, config.poolPrice pool base quoted = .error (.error error)) ↔
      wrappedScale w base.toNat pool.baseShift = 0 ∨
        2 ^ w ≤ pool.wrappedPrice base.toNat quoted.toNat := by
  obtain ⟨unit, unitScaled⟩ :=
    normalize_unchecked (1 : BitVec w) pool.decimalAdjustment.1
  obtain ⟨baseNorm, baseScaled⟩ :=
    normalize_unchecked base pool.decimalAdjustment.2.1
  obtain ⟨quoteNorm, quoteScaled⟩ :=
    normalize_unchecked quoted pool.decimalAdjustment.2.2
  have unitWrapped := toNat_eq_wrappedScale wide unitScaled
  have baseWrapped := toNat_eq_wrappedScale wide baseScaled
  have quoteWrapped := toNat_eq_wrappedScale wide quoteScaled
  have priced :
      config.poolPrice pool base quoted =
        mulDiv unit quoteNorm baseNorm := by
    unfold poolPrice
    dsimp only
    rw [unchecked, baseScaled, quoteScaled, unitScaled]
    rfl
  rw [pool.priceAdj_toNat, toNat_one wide] at unitWrapped
  rw [pool.baseAdj_toNat] at baseWrapped
  rw [pool.quoteAdj_toNat] at quoteWrapped
  rw [priced, mulDiv_eq_error_iff, unitWrapped, baseWrapped, quoteWrapped,
    Pool.wrappedPrice]

/--
A price is exact or an error if the three scaled values fit.  Otherwise it is
an error only where the build wraps, and leaves a base reserve of zero or a
quotient that does not fit.
-/
theorem pricesExactly_iff
    (wide : 64 ≤ w)
    (config : Config w Account Asset)
    (pool : Pool w Account)
    (base quoted : BitVec w) :
    config.PricesExactly pool base quoted ↔
      pool.ScalesFit base.toNat quoted.toNat ∨
        config.overflowChecks = false ∧
          (wrappedScale w base.toNat pool.baseShift = 0 ∨
            2 ^ w ≤ pool.wrappedPrice base.toNat quoted.toNat) := by
  constructor
  · rintro (⟨_, _, _, scales⟩ | fails)
    · exact .inl scales
    · by_cases scales : pool.ScalesFit base.toNat quoted.toNat
      · exact .inl scales
      · cases checks : config.overflowChecks with
        | false =>
            exact .inr
              ⟨rfl, (poolPrice_unchecked_fails_iff wide checks).mp fails⟩
        | true =>
            obtain ⟨error, failed⟩ := fails
            rw [poolPrice_panics wide checks scales] at failed
            cases failed
  · rintro (scales | ⟨unchecked, wraps⟩)
    · exact pricesExactly_of_scalesFit wide scales
    · exact .inr ((poolPrice_unchecked_fails_iff wide unchecked).mpr wraps)

/-- A pool with 18 decimals for both assets. -/
theorem pricesExactly_equal_decimals :
    mock128.PricesExactly (Pool.new 0 1 1 6 18 18) 1000 2000000 :=
  (pricesExactly_iff (by decide) mock128 _ 1000 2000000).mpr
    (.inl (by decide))

/--
The base asset has 20 decimals more than the quote asset: the power of ten
wraps, and so the price of a pool with equal reserves.
-/
theorem poolPrice_wraps :
    mock128.poolPrice (Pool.new 0 1 1 0 20 0) 1 1 =
        .ok 7766279631452241920 ∧
      (Pool.new 0 1 1 0 20 0 : Pool 128 MockAccount).exactPrice 1 1 =
        10 ^ 20 ∧
      ¬ mock128.PricesExactly (Pool.new 0 1 1 0 20 0) 1 1 := by
  have wrapped :
      mock128.poolPrice (Pool.new 0 1 1 0 20 0) 1 1 =
        .ok 7766279631452241920 := by
    decide
  refine ⟨wrapped, by decide, ?_⟩
  rintro (⟨_, _, _, scales⟩ | ⟨error, failed⟩)
  · exact absurd scales.quotePower (by decide)
  · rw [wrapped] at failed
    cases failed

end Config

end HybridOrderbook
