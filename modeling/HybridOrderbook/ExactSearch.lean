import HybridOrderbook.Library.Bisection
import HybridOrderbook.Amounts
import HybridOrderbook.Search

namespace HybridOrderbook

open Library Bisection

/-!
# The search over the natural numbers

As long as none of its arithmetic wraps, `find_max_swap_quantity` is a
bisection of the quantities up to the order's.  It keeps the quantities that
leave the price of the pool below the target: for a bid those on the near
side of the target, for an ask those past it.
-/

variable {w : Nat} {Account Asset : Type}

theorem Pool.baseUnit_pos (pool : Pool w Account) :
    0 < 10 ^ pool.baseDecimals.toNat :=
  Nat.pow_pos (Nat.succ_pos 9)

namespace Config

section Definitions

variable (config : Config w Account Asset) (pool : Pool w Account)
  (isBid : Bool)

/-- The base reserve after swapping a quantity, over the natural numbers. -/
def exactBaseAfter (isBid : Bool) (baseReserve quantity : Nat) : Nat :=
  if isBid then baseReserve - quantity else baseReserve + quantity

/-- The quote reserve after swapping a quantity of base asset. -/
def exactQuoteAfter (baseReserve quoteReserve quantity : Nat) : Nat :=
  if isBid then
    quoteReserve +
      ConstantProduct.amountIn 1000 (1000 - config.lpFee) quoteReserve
        baseReserve quantity
  else
    quoteReserve -
      ConstantProduct.amountOut 1000 (1000 - config.lpFee) baseReserve
        quoteReserve quantity

/-- The price after swapping a quantity. -/
def exactPriceAfter (baseReserve quoteReserve quantity : Nat) : Nat :=
  pool.exactPrice (exactBaseAfter isBid baseReserve quantity)
    (config.exactQuoteAfter isBid baseReserve quoteReserve quantity)

/-- On which side of the target a price is, for the taker of a side. -/
def priceVerdict (isBid : Bool) (target price : Nat) : Verdict :=
  if price = target then
    .met
  else if price < target then
    if isBid then .near else .past
  else
    if isBid then .past else .near

/-- A quantity that the pool cannot pay is past every target. -/
def swapVerdict
    (target baseReserve quoteReserve quantity : Nat) : Verdict :=
  if isBid = true ∧ baseReserve ≤ quantity then
    .past
  else
    priceVerdict isBid target
      (config.exactPriceAfter pool isBid baseReserve quoteReserve quantity)

/-- The search, with its probes as the build with overflow checks has them. -/
def exactSearch (target baseReserve quoteReserve : BitVec w) : Search where
  probe quantity :=
    if quantity < 2 ^ w then
      (config.checked.priceAfter pool isBid baseReserve quoteReserve
        (BitVec.ofNat w quantity)).toOption.map fun price =>
          priceVerdict isBid target.toNat price.toNat
    else
      none
  step := 10 ^ pool.baseDecimals.toNat
  positive := pool.baseUnit_pos
  kept := if isBid then .near else .past

/--
The computation of an amount gets to the fee: there are reserves, and a bid
asks for less than the base reserve.
-/
def ReadsFee
    (w : Nat)
    (isBid : Bool)
    (baseReserve quoteReserve quantity : Nat) : Prop :=
  0 < baseReserve ∧ 0 < quoteReserve ∧
    (isBid = true →
      quantity < baseReserve ∧
        quoteReserve * quantity * 1000 < 2 ^ (2 * w))

/-- The computation of an amount has room for it. -/
def AmountFits (baseReserve quoteReserve quantity : Nat) : Prop :=
  ReadsFee w isBid baseReserve quoteReserve quantity ∧
    if isBid then
      config.lpFee < 1000 ∧
        ConstantProduct.amountIn 1000 (1000 - config.lpFee) quoteReserve
          baseReserve quantity < 2 ^ w
    else
      quantity * (1000 - config.lpFee) * quoteReserve < 2 ^ (2 * w)

instance (w : Nat) (baseReserve quoteReserve quantity : Nat) :
    Decidable (ReadsFee w isBid baseReserve quoteReserve quantity) :=
  inferInstanceAs (Decidable (_ ∧ _ ∧ (_ → _)))

instance (baseReserve quoteReserve quantity : Nat) :
    Decidable (config.AmountFits isBid baseReserve quoteReserve quantity) :=
  inferInstanceAs (Decidable (_ ∧ ite _ _ _))

end Definitions

variable {config : Config w Account Asset} {pool : Pool w Account}
  {isBid : Bool} {target baseReserve quoteReserve : BitVec w}

theorem priceVerdict_eq_past_iff
    {limit price : Nat} :
    priceVerdict isBid limit price = .past ↔
      ¬ WithinLimit isBid limit price := by
  unfold priceVerdict WithinLimit
  by_cases met : price = limit
  · simp [met]
  · by_cases below : price < limit
    · cases isBid <;> simp [met, below, below.le]
    · have above : limit < price := by omega
      cases isBid <;> simp [met, below, above, above.le]

theorem priceVerdict_eq_near_iff
    {limit price : Nat} :
    priceVerdict isBid limit price = .near ↔
      price ≠ limit ∧ isBid = decide (price < limit) := by
  unfold priceVerdict
  by_cases met : price = limit
  · simp [met]
  · by_cases below : price < limit
    · cases isBid <;> simp [met, below]
    · cases isBid <;> simp [met, below]

/-- A price sends the search down if and only if it is past the limit. -/
theorem goesDown_iff_past
    {limit price : Nat} :
    priceVerdict isBid limit price = .past ↔
      price ≠ limit ∧ isBid = !decide (price < limit) := by
  unfold priceVerdict
  by_cases met : price = limit
  · simp [met]
  · by_cases below : price < limit
    · cases isBid <;> simp [met, below]
    · cases isBid <;> simp [met, below]

theorem priceVerdict_eq_met_iff
    {limit price : Nat} :
    priceVerdict isBid limit price = .met ↔ price = limit := by
  unfold priceVerdict
  by_cases met : price = limit
  · simp [met]
  · by_cases below : price < limit
    · cases isBid <;> simp [met, below]
    · cases isBid <;> simp [met, below]

/-- With overflow checks, a fee of more than the whole amount panics. -/
theorem amountShare_checked_eq_ok_iff
    {share : Nat} :
    config.checked.amountShare = .ok share ↔
      config.lpFee ≤ 1000 ∧ 1000 - config.lpFee = share := by
  by_cases fee : config.lpFee ≤ 1000
  · simp [amountShare, checked, fee]
  · simp [amountShare, checked, fee]

theorem lpFee_le_of_swapAmount
    {quantity amount : BitVec w}
    (priced :
      config.checked.swapAmount isBid quantity baseReserve quoteReserve =
        .ok amount) :
    config.lpFee ≤ 1000 := by
  cases isBid with
  | true =>
      simp only [swapAmount, ↓reduceIte, getAmountIn, bind_eq_ok_iff,
        amountShare_checked_eq_ok_iff] at priced
      obtain ⟨_, _, _, _, _, _, _, _, _, ⟨fee, _⟩, _⟩ := priced
      exact fee
  | false =>
      simp only [swapAmount, Bool.false_eq_true, ↓reduceIte, getAmountOut,
        bind_eq_ok_iff, amountShare_checked_eq_ok_iff] at priced
      obtain ⟨_, _, _, ⟨fee, _⟩, _⟩ := priced
      exact fee

section Computed

/-- The higher precision has room for a thousand products of two units. -/
theorem scaled_lt_higher
    (wide : 64 ≤ w)
    (unit : BitVec w)
    {factor : Nat}
    (small : factor ≤ 1000) : unit.toNat * factor < 2 ^ (2 * w) := by
  have room : 1000 < 2 ^ w :=
    Nat.lt_of_lt_of_le (by decide : 1000 < 2 ^ 64)
      (Nat.pow_le_pow_right (by decide) wide)
  rw [Nat.two_mul, Nat.pow_add]
  exact Nat.mul_lt_mul'' unit.isLt (Nat.lt_of_le_of_lt small room)

theorem sum_lt_higher
    (wide : 64 ≤ w)
    (reserve quantity : BitVec w)
    {factor : Nat}
    (small : factor ≤ 1000) :
    reserve.toNat * 1000 + quantity.toNat * factor < 2 ^ (2 * w) := by
  have room : 2000 ≤ 2 ^ w :=
    (by decide : 2000 ≤ 2 ^ 64).trans (Nat.pow_le_pow_right (by decide) wide)
  have reserveFits := reserve.isLt
  have quantityFits := quantity.isLt
  have shared : quantity.toNat * factor ≤ quantity.toNat * 1000 :=
    Nat.mul_le_mul_left _ small
  calc
    reserve.toNat * 1000 + quantity.toNat * factor < 2 ^ w * 2000 := by
      omega
    _ ≤ 2 ^ w * 2 ^ w := Nat.mul_le_mul_left _ room
    _ = 2 ^ (2 * w) := by rw [Nat.two_mul, Nat.pow_add]

variable {quantity : BitVec w}

/-- What a swap computes before it reads the fee fails with an error only. -/
theorem swapAmount_of_not_readsFee
    (config : Config w Account Asset)
    (unread :
      ¬ ReadsFee w isBid baseReserve.toNat quoteReserve.toNat
        quantity.toNat) :
    ∃ error,
      config.checked.swapAmount isBid quantity baseReserve quoteReserve =
        .error (.error error) := by
  have positive (reserve : BitVec w) (nonzero : reserve ≠ 0) :
      0 < reserve.toNat := BitVec.toNat_pos_of_ne_zero nonzero
  cases isBid with
  | true =>
      simp only [swapAmount, ↓reduceIte, getAmountIn]
      by_cases reserves : quoteReserve = 0 ∨ baseReserve = 0
      · refine ⟨.zeroLiquidity, ?_⟩
        simp only [ensure, reserves, not_true_eq_false, ↓reduceIte]
        rfl
      obtain ⟨quoteNonzero, baseNonzero⟩ := not_or.mp reserves
      by_cases available : quantity ≥ baseReserve
      · refine ⟨.amountOutTooHigh, ?_⟩
        simp only [ensure, reserves, available, not_true_eq_false,
          not_false_eq_true, ↓reduceIte, ok_bind]
        rfl
      refine ⟨.overflow, ?_⟩
      have less := BitVec.lt_def.mp (BitVec.not_le.mp available)
      have large : ¬ quoteReserve.toNat * quantity.toNat * 1000 <
          2 ^ (2 * w) := fun fits =>
        unread ⟨positive _ baseNonzero, positive _ quoteNonzero,
          fun _ => ⟨less, fits⟩⟩
      simp only [ensure, reserves, available, not_false_eq_true, ↓reduceIte,
        ok_bind, higher, mul_lt_higher, large]
      rfl
  | false =>
      refine ⟨.zeroLiquidity, ?_⟩
      have reserves : baseReserve = 0 ∨ quoteReserve = 0 := by
        by_contra nonzero
        obtain ⟨baseNonzero, quoteNonzero⟩ := not_or.mp nonzero
        exact unread ⟨positive _ baseNonzero, positive _ quoteNonzero,
          fun bid => absurd bid Bool.false_ne_true⟩
      simp only [swapAmount, Bool.false_eq_true, ↓reduceIte, getAmountOut,
        ensure, reserves, not_true_eq_false]
      rfl

section Read

variable
  (reads :
    ReadsFee w isBid baseReserve.toNat quoteReserve.toNat quantity.toNat)

include reads

/-- Once the fee is read, the rest of the computation is left. -/
theorem swapAmount_of_readsFee :
    config.checked.swapAmount isBid quantity baseReserve quoteReserve = (do
      let share ← config.checked.amountShare
      if isBid then do
        let denominator ←
          higher w ((baseReserve.toNat - quantity.toNat) * share)
        let quotient ← higherDiv
          (quoteReserve.toNat * quantity.toNat * 1000) denominator
        let result ← higher w (quotient + 1)
        tryIntoUnit w result
      else do
        let withFee ← higher w (quantity.toNat * share)
        let numerator ← higher w (withFee * quoteReserve.toNat)
        let scaledReserve ← higher w (baseReserve.toNat * 1000)
        let denominator ← higher w (scaledReserve + withFee)
        let result ← higherDiv numerator denominator
        tryIntoUnit w result) := by
  obtain ⟨basePositive, quotePositive, available⟩ := reads
  have baseNonzero : baseReserve ≠ 0 := by
    rintro rfl
    simp at basePositive
  have quoteNonzero : quoteReserve ≠ 0 := by
    rintro rfl
    simp at quotePositive
  cases isBid with
  | true =>
      obtain ⟨less, fits⟩ := available rfl
      have notTooHigh : ¬ quantity ≥ baseReserve :=
        BitVec.not_le.mpr (BitVec.lt_def.mpr less)
      simp only [swapAmount, ↓reduceIte, getAmountIn, ensure, baseNonzero,
        quoteNonzero, or_self, notTooHigh, not_false_eq_true, ok_bind,
        higher, mul_lt_higher, fits]
  | false =>
      simp only [swapAmount, Bool.false_eq_true, ↓reduceIte, getAmountOut,
        ensure, baseNonzero, quoteNonzero, or_self, not_false_eq_true,
        ok_bind]

/-- A fee of more than the whole amount panics. -/
theorem swapAmount_of_large_fee (large : ¬ config.lpFee ≤ 1000) :
    config.checked.swapAmount isBid quantity baseReserve quoteReserve =
      .error .panic := by
  have panics : config.checked.amountShare = .error .panic := by
    simp [amountShare, checked, large]
  rw [swapAmount_of_readsFee reads, panics]
  rfl

/-- Otherwise it returns the amount if there is room for it. -/
theorem exists_swapAmount_iff
    (wide : 64 ≤ w)
    (fee : config.lpFee ≤ 1000) :
    (∃ amount,
        config.checked.swapAmount isBid quantity baseReserve quoteReserve =
          .ok amount) ↔
      config.AmountFits isBid baseReserve.toNat quoteReserve.toNat
        quantity.toNat := by
  have share : config.checked.amountShare = .ok (1000 - config.lpFee) := by
    simp [amountShare, checked, fee]
  have shareSmall : 1000 - config.lpFee ≤ 1000 := Nat.sub_le ..
  constructor
  · rintro ⟨amount, priced⟩
    refine ⟨reads, ?_⟩
    cases isBid with
    | true =>
        have sameFee : config.checked.lpFee ≤ 1000 := fee
        obtain ⟨_, nonzero, exact⟩ := toNat_of_getAmountIn sameFee priced
        refine ⟨?_, exact ▸ amount.isLt⟩
        have share : 1000 - config.lpFee ≠ 0 :=
          right_ne_zero_of_mul nonzero
        omega
    | false =>
        rw [swapAmount_of_readsFee reads, share] at priced
        simp only [Bool.false_eq_true, ↓reduceIte, ok_bind, bind_eq_ok_iff,
          higher_eq_ok_iff] at priced
        obtain ⟨_, ⟨_, rfl⟩, _, ⟨fits, _⟩, _⟩ := priced
        exact fits
  · rintro ⟨⟨basePositive, quotePositive, available⟩, fits⟩
    rw [swapAmount_of_readsFee reads, share]
    cases isBid with
    | true =>
        obtain ⟨feeBelow, amountFits⟩ := fits
        have divisor :
            (baseReserve.toNat - quantity.toNat) * (1000 - config.lpFee) ≠
              0 :=
          (Nat.mul_pos (Nat.sub_pos_of_lt (available rfl).1)
            (Nat.sub_pos_of_lt feeBelow)).ne'
        have divisorFits :
            (baseReserve.toNat - quantity.toNat) * (1000 - config.lpFee) <
              2 ^ (2 * w) :=
          Nat.lt_of_le_of_lt (Nat.mul_le_mul_right _ (Nat.sub_le ..))
            (scaled_lt_higher wide baseReserve shareSmall)
        have sumFits :
            ConstantProduct.amountIn 1000 (1000 - config.lpFee)
                quoteReserve.toNat baseReserve.toNat quantity.toNat <
              2 ^ (2 * w) :=
          amountFits.trans_le (Nat.pow_le_pow_right (by decide) (by omega))
        unfold ConstantProduct.amountIn at amountFits sumFits
        simp only [↓reduceIte, ok_bind, higher, divisorFits, higherDiv,
          divisor, sumFits, tryIntoUnit, amountFits]
        exact ⟨_, rfl⟩
    | false =>
        have withFeeFits := scaled_lt_higher wide quantity shareSmall
        have reserveFits :=
          scaled_lt_higher wide baseReserve (Nat.le_refl 1000)
        have scaled : 0 < baseReserve.toNat * 1000 :=
          Nat.mul_pos basePositive (by decide)
        have divisor :
            baseReserve.toNat * 1000 +
              quantity.toNat * (1000 - config.lpFee) ≠ 0 :=
          (Nat.add_pos_left scaled _).ne'
        have amountFits :
            quantity.toNat * (1000 - config.lpFee) * quoteReserve.toNat /
                (baseReserve.toNat * 1000 +
                  quantity.toNat * (1000 - config.lpFee)) < 2 ^ w :=
          (ConstantProduct.amountOut_lt_reserveOut _ scaled quotePositive
            quantity.toNat).trans quoteReserve.isLt
        simp only [Bool.false_eq_true, ↓reduceIte] at fits
        simp only [Bool.false_eq_true, ↓reduceIte, ok_bind, higher,
          withFeeFits, fits, reserveFits,
          sum_lt_higher wide baseReserve quantity shareSmall, higherDiv,
          divisor, tryIntoUnit, amountFits]
        exact ⟨_, rfl⟩

/-- All that the computation can do with a proper fee is overflow. -/
theorem failsOnly_swapAmount (fee : config.lpFee ≤ 1000) :
    FailsOnly (· = .error .overflow)
      (config.checked.swapAmount isBid quantity baseReserve
        quoteReserve) := by
  have share : config.checked.amountShare = .ok (1000 - config.lpFee) := by
    simp [amountShare, checked, fee]
  rw [swapAmount_of_readsFee reads, share]
  refine .bind (failsOnly_ok _ _) fun share => ?_
  split
  · refine .bind (failsOnly_higher _) fun denominator => ?_
    refine .bind (failsOnly_higherDiv _ _) fun quotient => ?_
    refine .bind (failsOnly_higher _) fun result => ?_
    exact failsOnly_tryIntoUnit result
  · refine .bind (failsOnly_higher _) fun withFee => ?_
    refine .bind (failsOnly_higher _) fun numerator => ?_
    refine .bind (failsOnly_higher _) fun scaledReserve => ?_
    refine .bind (failsOnly_higher _) fun denominator => ?_
    refine .bind (failsOnly_higherDiv _ _) fun result => ?_
    exact failsOnly_tryIntoUnit result

end Read

/-- The amount is computed without a panic unless it reads a large fee. -/
theorem swapAmount_ne_panic_iff :
    config.checked.swapAmount isBid quantity baseReserve quoteReserve ≠
        .error .panic ↔
      (ReadsFee w isBid baseReserve.toNat quoteReserve.toNat
          quantity.toNat →
        config.lpFee ≤ 1000) := by
  constructor
  · intro avoided reads
    by_contra large
    exact avoided (swapAmount_of_large_fee reads large)
  · intro proper panicked
    by_cases reads :
        ReadsFee w isBid baseReserve.toNat quoteReserve.toNat quantity.toNat
    · cases failsOnly_swapAmount reads (proper reads) _ panicked
    · obtain ⟨error, failed⟩ := config.swapAmount_of_not_readsFee reads
      rw [failed] at panicked
      cases panicked

/-- Whatever was computed had room. -/
theorem amountFits_of_swapAmount
    (wide : 64 ≤ w)
    {amount : BitVec w}
    (priced :
      config.checked.swapAmount isBid quantity baseReserve quoteReserve =
        .ok amount) :
    config.AmountFits isBid baseReserve.toNat quoteReserve.toNat
      quantity.toNat := by
  by_cases reads :
      ReadsFee w isBid baseReserve.toNat quoteReserve.toNat quantity.toNat
  · exact (exists_swapAmount_iff reads wide
      (lpFee_le_of_swapAmount priced)).mp ⟨amount, priced⟩
  · obtain ⟨error, failed⟩ := config.swapAmount_of_not_readsFee reads
    rw [failed] at priced
    cases priced

end Computed

section Swapped

variable {quantity amount : BitVec w}
  (priced :
    config.checked.swapAmount isBid quantity baseReserve quoteReserve =
      .ok amount)

include priced

/-- A swap takes no reserve as a whole. -/
theorem lt_of_swapAmount :
    if isBid then quantity.toNat < baseReserve.toNat
    else amount.toNat < quoteReserve.toNat := by
  have fee : config.checked.lpFee ≤ 1000 := lpFee_le_of_swapAmount priced
  cases isBid with
  | true =>
      exact (toNat_of_getAmountIn fee priced).1
  | false =>
      obtain ⟨⟨baseNonzero, quoteNonzero⟩, exact⟩ :=
        toNat_of_getAmountOut fee priced
      have scaled : 0 < baseReserve.toNat * 1000 :=
        Nat.mul_pos (BitVec.toNat_pos_of_ne_zero baseNonzero) (by decide)
      have less :=
        ConstantProduct.amountOut_lt_reserveOut (1000 - config.checked.lpFee)
          scaled (BitVec.toNat_pos_of_ne_zero quoteNonzero) quantity.toNat
      rw [← exact] at less
      exact less

theorem reserves_of_swapAmount :
    0 < baseReserve.toNat ∧ 0 < quoteReserve.toNat := by
  have nonzero : baseReserve ≠ 0 ∧ quoteReserve ≠ 0 := by
    cases isBid with
    | true =>
        simp only [swapAmount, ↓reduceIte, getAmountIn, bind_eq_ok_iff,
          ensure_eq_ok_iff, exists_const, not_or] at priced
        exact priced.1.symm
    | false =>
        simp only [swapAmount, Bool.false_eq_true, ↓reduceIte, getAmountOut,
          bind_eq_ok_iff, ensure_eq_ok_iff, exists_const, not_or] at priced
        exact priced.1
  exact ⟨BitVec.toNat_pos_of_ne_zero nonzero.1,
    BitVec.toNat_pos_of_ne_zero nonzero.2⟩

theorem exactQuoteAfter_of_swapAmount :
    config.exactQuoteAfter isBid baseReserve.toNat quoteReserve.toNat
        quantity.toNat =
      if isBid then quoteReserve.toNat + amount.toNat
      else quoteReserve.toNat - amount.toNat := by
  have fee : config.checked.lpFee ≤ 1000 := lpFee_le_of_swapAmount priced
  cases isBid with
  | true =>
      obtain ⟨_, _, exact⟩ := toNat_of_getAmountIn fee priced
      exact congrArg (quoteReserve.toNat + ·) exact.symm
  | false =>
      obtain ⟨_, exact⟩ := toNat_of_getAmountOut fee priced
      exact congrArg (quoteReserve.toNat - ·) exact.symm

theorem toNat_of_movedQuote
    {quoted : BitVec w}
    (moves : moved true isBid quoteReserve amount = .ok quoted) :
    quoted.toNat =
      config.exactQuoteAfter isBid baseReserve.toNat quoteReserve.toNat
        quantity.toNat :=
  (toNat_of_moved moves).trans (exactQuoteAfter_of_swapAmount priced).symm

end Swapped

theorem toNat_of_movedBase
    {quantity base : BitVec w}
    (moves : moved true (!isBid) baseReserve quantity = .ok base) :
    base.toNat =
      exactBaseAfter isBid baseReserve.toNat quantity.toNat := by
  rw [toNat_of_moved moves]
  cases isBid <;> rfl

/-- A price that was computed without overflow is the exact one. -/
theorem toNat_of_priceAfter
    (wide : 64 ≤ w)
    {quantity price : BitVec w}
    (probed :
      config.checked.priceAfter pool isBid baseReserve quoteReserve
        quantity = .ok price) :
    price.toNat =
        config.exactPriceAfter pool isBid baseReserve.toNat
          quoteReserve.toNat quantity.toNat ∧
      (isBid = true → quantity.toNat < baseReserve.toNat) := by
  obtain ⟨amount, priced, _⟩ := bind_eq_ok_iff.mp probed
  simp only [priceAfter_eq_moved priced, bind_eq_ok_iff] at probed
  obtain ⟨unit, unitScaled, base, movesBase, baseNorm, baseScaled, quoted,
    movesQuote, quoteNorm, quoteScaled, result⟩ := probed
  refine ⟨?_, ?_⟩
  · rw [(toNat_of_scaled_quote wide unitScaled baseScaled quoteScaled
        result).2, toNat_of_movedBase movesBase,
      toNat_of_movedQuote priced movesQuote, exactPriceAfter]
  · rintro rfl
    exact lt_of_swapAmount priced

theorem swapVerdict_of_priceAfter
    (wide : 64 ≤ w)
    {quantity price : BitVec w}
    (priced :
      config.checked.priceAfter pool isBid baseReserve quoteReserve
        quantity = .ok price) :
    config.swapVerdict pool isBid target.toNat baseReserve.toNat
        quoteReserve.toNat quantity.toNat =
      priceVerdict isBid target.toNat price.toNat := by
  obtain ⟨exact, available⟩ := toNat_of_priceAfter wide priced
  rw [swapVerdict, if_neg fun taken =>
    Nat.not_le.mpr (available taken.1) taken.2, exact]

section Monotone

variable {base quoted quantity larger : Nat} (basePositive : 0 < base)
  (quotePositive : 0 < quoted) (more : quantity ≤ larger)

include basePositive quotePositive more

/-- Swapping more takes the price further. -/
theorem exactPriceAfter_within
    (available : isBid = true → larger < base) :
    WithinLimit isBid
      (config.exactPriceAfter pool isBid base quoted larger)
      (config.exactPriceAfter pool isBid base quoted quantity) := by
  cases isBid with
  | true =>
      have less := available rfl
      refine pool.exactPrice_le (Nat.sub_pos_of_lt less)
        (Nat.sub_le_sub_left more base) ?_
      exact Nat.add_le_add_left (ConstantProduct.amountIn_mono more less) _
  | false =>
      refine pool.exactPrice_le (Nat.add_pos_left basePositive _)
        (Nat.add_le_add_left more base) ?_
      exact Nat.sub_le_sub_left (ConstantProduct.amountOut_mono
        (Nat.mul_pos basePositive (by decide)) quotePositive more) _

theorem swapVerdict_past_of_le
    {limit : Nat}
    (past :
      config.swapVerdict pool isBid limit base quoted quantity = .past) :
    config.swapVerdict pool isBid limit base quoted larger = .past := by
  unfold swapVerdict at past ⊢
  by_cases emptied : isBid = true ∧ base ≤ larger
  · rw [if_pos emptied]
  · rw [if_neg emptied, priceVerdict_eq_past_iff]
    have available : isBid = true → larger < base :=
      fun bid => Nat.lt_of_not_le fun tooMuch => emptied ⟨bid, tooMuch⟩
    rw [if_neg fun taken => emptied ⟨taken.1, taken.2.trans more⟩,
      priceVerdict_eq_past_iff] at past
    exact fun within => past
      (within.trans (exactPriceAfter_within basePositive quotePositive more
        available))

end Monotone

/-- The probes are the verdicts of the exact prices. -/
theorem exactSearch_reports
    (wide : 64 ≤ w)
    (basePositive : 0 < baseReserve.toNat)
    (quotePositive : 0 < quoteReserve.toNat) :
    (config.exactSearch pool isBid target baseReserve quoteReserve).Reports
      (config.swapVerdict pool isBid target.toNat baseReserve.toNat
        quoteReserve.toNat) where
  agrees := by
    intro quantity answer probed
    simp only [exactSearch, Option.ite_none_right_eq_some,
      Option.map_eq_some_iff, toOption_eq_some_iff] at probed
    obtain ⟨fits, price, priced, rfl⟩ := probed
    rw [← swapVerdict_of_priceAfter wide priced, BitVec.toNat_ofNat,
      Nat.mod_eq_of_lt fits]
  past_of_le more past :=
    swapVerdict_past_of_le basePositive quotePositive more past

/-- A price after a swap is quoted at the reserves that the swap leaves. -/
theorem exists_amount_of_priceAfter
    (wide : 64 ≤ w)
    {quantity price : BitVec w}
    (probed :
      config.checked.priceAfter pool isBid baseReserve quoteReserve
        quantity = .ok price) :
    ∃ amount,
      config.checked.swapAmount isBid quantity baseReserve quoteReserve =
          .ok amount ∧
        price.toNat =
          if isBid then
            pool.exactPrice (baseReserve.toNat - quantity.toNat)
              (quoteReserve.toNat + amount.toNat)
          else
            pool.exactPrice (baseReserve.toNat + quantity.toNat)
              (quoteReserve.toNat - amount.toNat) := by
  obtain ⟨amount, priced, _⟩ := bind_eq_ok_iff.mp probed
  refine ⟨amount, priced, ?_⟩
  rw [(toNat_of_priceAfter wide probed).1, exactPriceAfter,
    exactQuoteAfter_of_swapAmount priced]
  cases isBid <;> rfl

/--
Where nothing errs or wraps, a swap of more base asset moves more quote asset
and takes the price further: up for a bid, down for an ask.
-/
theorem probedPrices_monotone
    (wide : 64 ≤ w)
    (config : Config w Account Asset)
    (pool : Pool w Account)
    {quantity larger : BitVec w}
    (more : quantity ≤ larger) :
    (∀ reserveIn reserveOut paid paidMore,
      config.checked.getAmountIn quantity reserveIn reserveOut = .ok paid →
        config.checked.getAmountIn larger reserveIn reserveOut =
            .ok paidMore →
          paid ≤ paidMore) ∧
      (∀ reserveIn reserveOut received receivedMore,
        config.checked.getAmountOut quantity reserveIn reserveOut =
            .ok received →
          config.checked.getAmountOut larger reserveIn reserveOut =
              .ok receivedMore →
            received ≤ receivedMore) ∧
      ∀ isBid baseReserve quoteReserve price further,
        config.checked.priceAfter pool isBid baseReserve quoteReserve
            quantity = .ok price →
          config.checked.priceAfter pool isBid baseReserve quoteReserve
              larger = .ok further →
            (∃ amount,
              config.checked.swapAmount isBid quantity baseReserve
                  quoteReserve = .ok amount ∧
                price.toNat =
                  if isBid then
                    pool.exactPrice (baseReserve.toNat - quantity.toNat)
                      (quoteReserve.toNat + amount.toNat)
                  else
                    pool.exactPrice (baseReserve.toNat + quantity.toNat)
                      (quoteReserve.toNat - amount.toNat)) ∧
              if isBid then price ≤ further else further ≤ price := by
  refine ⟨?_, ?_, ?_⟩
  · intro reserveIn reserveOut paid paidMore priced pricedMore
    have swapped :
        config.checked.swapAmount true quantity reserveOut reserveIn =
          .ok paid := priced
    have fee : config.checked.lpFee ≤ 1000 := lpFee_le_of_swapAmount swapped
    exact getAmountIn_mono fee more priced pricedMore
  · intro reserveIn reserveOut received receivedMore priced pricedMore
    have swapped :
        config.checked.swapAmount false quantity reserveIn reserveOut =
          .ok received := priced
    have fee : config.checked.lpFee ≤ 1000 := lpFee_le_of_swapAmount swapped
    exact getAmountOut_mono fee more priced pricedMore
  · intro isBid baseReserve quoteReserve price further probed probedMore
    obtain ⟨amount, priced, formula⟩ :=
      exists_amount_of_priceAfter wide probed
    obtain ⟨basePositive, quotePositive⟩ := reserves_of_swapAmount priced
    obtain ⟨exact, _⟩ := toNat_of_priceAfter wide probed
    obtain ⟨exactMore, available⟩ := toNat_of_priceAfter wide probedMore
    have within : WithinLimit isBid further.toNat price.toNat := by
      rw [exact, exactMore]
      exact exactPriceAfter_within basePositive quotePositive more available
    refine ⟨⟨amount, priced, formula⟩, ?_⟩
    cases isBid <;> exact within

/-- Swaps of 3 and of 40 at reserves of 1000 and 1000, on both sides. -/
theorem probedPrices_monotone_mock :
    ∃ bid furtherBid ask furtherAsk : BitVec 64,
      mock.checked.priceAfter (Pool.new 0 1 1 4 0 0) true 1000 1000 3 =
          .ok bid ∧
        mock.checked.priceAfter (Pool.new 0 1 1 4 0 0) true 1000 1000 40 =
          .ok furtherBid ∧
        mock.checked.priceAfter (Pool.new 0 1 1 4 0 0) false 1000 1000 3 =
          .ok ask ∧
        mock.checked.priceAfter (Pool.new 0 1 1 4 0 0) false 1000 1000 40 =
          .ok furtherAsk ∧
        bid ≤ furtherBid ∧ furtherAsk ≤ ask := by
  have bid :
      mock.checked.priceAfter (Pool.new 0 1 1 4 0 0) true 1000 1000 3 =
        .ok 10070 := by decide
  have furtherBid :
      mock.checked.priceAfter (Pool.new 0 1 1 4 0 0) true 1000 1000 40 =
        .ok 10854 := by decide
  have ask :
      mock.checked.priceAfter (Pool.new 0 1 1 4 0 0) false 1000 1000 3 =
        .ok 9950 := by decide
  have furtherAsk :
      mock.checked.priceAfter (Pool.new 0 1 1 4 0 0) false 1000 1000 40 =
        .ok 9250 := by decide
  have more : (3 : BitVec 64) ≤ 40 := by decide
  obtain ⟨_, _, prices⟩ :=
    probedPrices_monotone (by decide) mock (Pool.new 0 1 1 4 0 0) more
  exact ⟨_, _, _, _, bid, furtherBid, ask, furtherAsk,
    (prices true _ _ _ _ bid furtherBid).2,
    (prices false _ _ _ _ ask furtherAsk).2⟩

end Config

end HybridOrderbook
