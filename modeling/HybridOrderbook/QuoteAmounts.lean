import HybridOrderbook.Settlement
import Mathlib.Data.BitVec

namespace HybridOrderbook

open Library

/-!
# The quote amounts of bids

A bid freezes its worth in the quote asset when it is placed, and releases
and pays the worth of each part that is filled.  The worth is a product of
words, divided by a 64-bit power of ten with an 8-bit exponent.  Price,
quantity and decimals are chosen by the callers, and nothing bounds them.
-/

variable {w : Nat} {Account Asset : Type} [DecidableEq Account]
  [DecidableEq Asset]

/-- The product, the exponent and the power of ten fit their words. -/
def Pool.WorthFits
    (pool : Pool w Account)
    (price quantity : BitVec w) : Prop :=
  price.toNat * quantity.toNat < 2 ^ w ∧
    pool.poolDecimals.toNat +
      (pool.baseDecimals.toNat - pool.quoteDecimals.toNat) ≤ 19

instance
    (pool : Pool w Account)
    (price quantity : BitVec w) :
    Decidable (pool.WorthFits price quantity) :=
  inferInstanceAs (Decidable (_ ∧ _))

namespace Config

variable (config : Config w Account Asset) (pool : Pool w Account)
  (price quantity : BitVec w)

/-- Built with overflow checks, the worth is computed without a panic. -/
def WorthDoesNotWrap : Prop :=
  ∃ value, config.checked.quoteValue pool price quantity = .ok value

omit [DecidableEq Account] [DecidableEq Asset] in
/-- The three words are large enough exactly for the worths that fit. -/
theorem worthDoesNotWrap_iff (wide : 64 ≤ w) :
    config.WorthDoesNotWrap pool price quantity ↔
      pool.WorthFits price quantity := by
  constructor
  · rintro ⟨value, valued⟩
    simp only [quoteValue, checked, denom, bind_eq_ok_iff] at valued
    obtain ⟨product, multiplied, adjustment, added, factor, raised, _⟩ :=
      valued
    have productExact := Machine.toNat_of_mul_checked multiplied
    have sumExact := Machine.toNat_of_add_checked added
    have powerExact := Machine.toNat_of_pow_checked raised
    rw [sumExact, pool.priceAdj_toNat, pool.quoteAdj_toNat] at powerExact
    refine ⟨productExact ▸ product.isLt, pool.bookScale_lt_iff.mp ?_⟩
    rw [Pool.bookScale, ← powerExact]
    exact factor.isLt
  · rintro ⟨productFits, small⟩
    obtain ⟨value, valued, _⟩ :=
      config.checked.quoteValue_eq wide (pool.bookScale_lt_iff.mpr small)
        productFits
    exact ⟨value, valued⟩

/--
The amounts that an accepted bid freezes, and that a filled one releases and
pays, are exact and computed without a wrap if and only if the product of
price and quantity fits a unit and the decimals add up to at most 19.
-/
theorem bidAmounts_exact_iff
    (wide : 64 ≤ w)
    (config : Config w Account Asset)
    (pool : Pool w Account)
    (price quantity : BitVec w)
    (base quote : Asset)
    (owner : Account)
    (ledger next : Ledger w Account Asset) :
    (∀ blockNumber placedPool,
      config.doPlaceOrder blockNumber true owner base quote price quantity
          pool ledger = .ok (placedPool, next) →
        (config.WorthDoesNotWrap pool price quantity ∧
            (next.frozen quote owner).toNat =
              (ledger.frozen quote owner).toNat +
                price.toNat * quantity.toNat / pool.bookScale ↔
          pool.WorthFits price quantity)) ∧
      ∀ orderer,
        config.settleFill false orderer base quote pool ledger
            (owner, price, quantity) = .ok next →
          (config.WorthDoesNotWrap pool price quantity ∧
              (ledger.frozen quote owner).toNat =
                (next.frozen quote owner).toNat +
                  price.toNat * quantity.toNat / pool.bookScale ∧
              ledger.Trades next base quote owner orderer quantity.toNat
                (price.toNat * quantity.toNat / pool.bookScale) ↔
            pool.WorthFits price quantity) := by
  have doesNotWrap := config.worthDoesNotWrap_iff pool price quantity wide
  constructor
  · intro blockNumber placedPool placed
    refine ⟨fun exactly => doesNotWrap.mp exactly.1,
      fun fits => ⟨doesNotWrap.mpr fits, ?_⟩⟩
    obtain ⟨value, valued, exact⟩ :=
      config.quoteValue_eq wide (pool.bookScale_lt_iff.mpr fits.2) fits.1
    simp only [doPlaceOrder, ↓reduceIte, bind_eq_ok_iff, valued,
      Except.ok.injEq, exists_eq_left', Prod.mk.injEq] at placed
    obtain ⟨_, increased, _, _, _, rfl⟩ := placed
    have frozen := (increaseFrozen_eq_ok increased).2 quote owner
    rw [Ledger.flow, if_pos ⟨rfl, rfl⟩, exact] at frozen
    exact frozen
  · intro orderer settled
    refine ⟨fun exactly => doesNotWrap.mp exactly.1,
      fun fits => ⟨doesNotWrap.mpr fits, ?_⟩⟩
    obtain ⟨value, valued, exact⟩ :=
      config.quoteValue_eq wide (pool.bookScale_lt_iff.mpr fits.2) fits.1
    obtain ⟨released, computed, trades, frozen⟩ := settleFill_eq_ok settled
    cases valued.symm.trans computed
    have thawed := frozen quote owner
    rw [if_neg Bool.false_ne_true, Ledger.flow, if_pos ⟨rfl, rfl⟩,
      exact] at thawed
    rw [exact] at trades
    exact ⟨thawed.symm, trades⟩

/-- A bid of 3 at price 2.0 freezes 6. -/
theorem bidAmounts_exact_of_small_bid :
    ∃ placedPool next,
      mock.doPlaceOrder 1 true (.inl 1) 0 1 20 3 (Pool.new 0 1 1 1 0 0)
          (Storage.mock (Pool.new 0 1 1 1 0 0) 100 250).ledger =
        .ok (placedPool, next) ∧
      (next.frozen 1 (.inl 1)).toNat = 0 + 20 * 3 / 10 ^ (1 + 0) := by
  have succeeds :
      (mock.doPlaceOrder 1 true (.inl 1) 0 1 20 3 (Pool.new 0 1 1 1 0 0)
        (Storage.mock (Pool.new 0 1 1 1 0 0) 100 250).ledger).isOk =
          true := by
    decide
  obtain ⟨⟨placedPool, next⟩, placed⟩ := exists_ok_of_isOk succeeds
  have exact :=
    ((bidAmounts_exact_iff (by decide) mock _ 20 3 0 1 (.inl 1) _ next).1
      1 placedPool placed).mpr (by decide)
  exact ⟨placedPool, next, placed, exact.2⟩

/--
With 20 decimals of the pool the power of ten wraps: a bid that is worth
nothing freezes 1.  A product of 2 ^ 64 wraps to nothing in a unit of 64
bits, so that such a bid freezes nothing.
-/
theorem bidAmounts_wrap :
    ((mock.doPlaceOrder 1 true (.inl 1) 0 1 (10 ^ 10) (10 ^ 9)
        (Pool.new 0 1 1 20 0 0)
        (Storage.mock (Pool.new 0 1 1 20 0 0) 100 250).ledger).toOption.map
      fun placed => placed.2.frozen 1 (.inl 1)) = some 1 ∧
    10 ^ 10 * 10 ^ 9 / 10 ^ 20 = 0 ∧
    ((mock.doPlaceOrder 1 true (.inl 1) 0 1 (2 ^ 32) (2 ^ 32)
        (Pool.new 0 1 1 0 0 0)
        (Storage.mock (Pool.new 0 1 1 0 0 0) 100 250).ledger).toOption.map
      fun placed => placed.2.frozen 1 (.inl 1)) = some 0 ∧
    2 ^ 32 * 2 ^ 32 / 10 ^ 0 = 2 ^ 64 := by
  decide

end Config

end HybridOrderbook
