import HybridOrderbook.Library.Run
import HybridOrderbook.Swap

namespace HybridOrderbook

open Library

/-!
# The search for a swap quantity

`find_max_swap_quantity` looks for the quantity whose swap takes the pool to
the price of the book, by bisection.  Its state is three units, so a loop of
more than `2 ^ (3 * w)` rounds repeats a state and never ends.
-/

variable {w : Nat} {Account Asset : Type}

/-- The variables of the search loop. -/
structure SearchState (w : Nat) where
  min : BitVec w
  max : BitVec w
  swapQuantity : BitVec w
  deriving Repr, DecidableEq

namespace Config

variable (config : Config w Account Asset) (pool : Pool w Account)
  (isBid : Bool) (target baseReserve quoteReserve : BitVec w)

/-- The price of the pool after swapping `mid` of base asset. -/
def priceAfter (mid : BitVec w) : Outcome (BitVec w) := do
  let checks := config.overflowChecks
  let (priceAdj, baseAdj, quoteAdj) := pool.decimalAdjustment
  let amount ← config.swapAmount isBid mid baseReserve quoteReserve
  let unit ← normalize checks 1 priceAdj
  let base ←
    if isBid then
      Machine.sub checks baseReserve mid
    else
      Machine.add checks baseReserve mid
  let baseNorm ← normalize checks base baseAdj
  let quoted ←
    if isBid then
      Machine.add checks quoteReserve amount
    else
      Machine.sub checks quoteReserve amount
  let quoteNorm ← normalize checks quoted quoteAdj
  quote unit baseNorm quoteNorm

/-- The middle of the interval, rounded up. -/
def middle (state : SearchState w) : Outcome (BitVec w) := do
  let sum ← Machine.add config.overflowChecks state.min state.max
  let sum ← Machine.add config.overflowChecks sum 1
  Machine.div sum 2

/-- One round of the search. -/
def searchBody (state : SearchState w) :
    Outcome (SearchState w ⊕ BitVec w) :=
  if state.min < state.max then do
    let checks := config.overflowChecks
    let mid ← config.middle state
    let price ←
      config.priceAfter pool isBid baseReserve quoteReserve mid
    if price = target then
      .ok (.inr mid)
    else do
      let oneNormalized ← normalize checks 1 (some pool.baseDecimals)
      if price < target then
        if isBid then do
          let min ← Machine.add checks mid oneNormalized
          .ok (.inl ⟨min, state.max, mid⟩)
        else do
          let max ← Machine.sub checks mid oneNormalized
          .ok (.inl ⟨state.min, max, mid⟩)
      else
        if isBid then do
          let max ← Machine.sub checks mid oneNormalized
          .ok (.inl ⟨state.min, max, state.swapQuantity⟩)
        else do
          let min ← Machine.add checks mid oneNormalized
          .ok (.inl ⟨min, state.max, state.swapQuantity⟩)
  else
    .ok (.inr state.swapQuantity)

/-- The search, from an interval that ends at the order's quantity. -/
def searchLoop (remainOrders : BitVec w) : Outcome (BitVec w) :=
  Loop.loop
    (config.searchBody pool isBid target baseReserve quoteReserve)
    (2 ^ (3 * w) + 1) ⟨0, remainOrders, 0⟩

/-- Find the closest swap quantity for the given order quantity. -/
def findMaxSwapQuantity
    [DecidableEq Asset]
    (ledger : Ledger w Account Asset)
    (base quote : Asset)
    (remainOrders : BitVec w) : Outcome (BitVec w) := do
  let (baseReserve, quoteReserve) ← config.getReserves ledger base quote
  config.searchLoop pool isBid target baseReserve quoteReserve remainOrders

end Config

/-- A price is no worse than a limit, for the taker of the given side. -/
def WithinLimit (isBid : Bool) (limit price : Nat) : Prop :=
  if isBid then price ≤ limit else limit ≤ price

instance decidableWithinLimit (isBid : Bool) (limit price : Nat) :
    Decidable (WithinLimit isBid limit price) :=
  inferInstanceAs
    (Decidable (if isBid then price ≤ limit else limit ≤ price))

theorem WithinLimit.trans
    {isBid : Bool}
    {limit middle price : Nat}
    (first : WithinLimit isBid limit middle)
    (second : WithinLimit isBid middle price) :
    WithinLimit isBid limit price := by
  cases isBid with
  | true =>
      exact Nat.le_trans second first
  | false =>
      exact Nat.le_trans first second

theorem withinLimit_not
    {isBid : Bool}
    {limit price : Nat} :
    WithinLimit (!isBid) limit price ↔ WithinLimit isBid price limit := by
  cases isBid <;> simp [WithinLimit]

/-- A reserve after an amount was paid in or out. -/
def moved
    (checks paidIn : Bool)
    (reserve amount : BitVec w) : Outcome (BitVec w) :=
  if paidIn then
    Machine.add checks reserve amount
  else
    Machine.sub checks reserve amount

theorem toNat_of_moved
    {paidIn : Bool}
    {reserve amount result : BitVec w}
    (moves : moved true paidIn reserve amount = .ok result) :
    result.toNat =
      if paidIn then reserve.toNat + amount.toNat
      else reserve.toNat - amount.toNat := by
  cases paidIn with
  | true =>
      exact Machine.toNat_of_add_checked moves
  | false =>
      exact (Machine.toNat_of_sub_checked moves).2

namespace Config

section WithoutOverflow

variable {config : Config w Account Asset} {pool : Pool w Account}
  {isBid : Bool} {target baseReserve quoteReserve : BitVec w}

/-- The price after a swap, with what moves into the pool and out of it. -/
theorem priceAfter_eq_moved
    {mid amount : BitVec w}
    (priced :
      config.swapAmount isBid mid baseReserve quoteReserve = .ok amount) :
    config.priceAfter pool isBid baseReserve quoteReserve mid = (do
      let unit ← normalize config.overflowChecks 1 pool.decimalAdjustment.1
      let base ← moved config.overflowChecks (!isBid) baseReserve mid
      let baseNorm ←
        normalize config.overflowChecks base pool.decimalAdjustment.2.1
      let quoted ← moved config.overflowChecks isBid quoteReserve amount
      let quoteNorm ←
        normalize config.overflowChecks quoted pool.decimalAdjustment.2.2
      HybridOrderbook.quote unit baseNorm quoteNorm) := by
  unfold priceAfter
  rw [priced]
  cases isBid <;> rfl

/-- The probed price is the one of a pool with the reserves after the swap. -/
theorem poolPrice_of_priceAfter
    (checks : config.overflowChecks = true)
    {mid amount price base quote : BitVec w}
    (probed :
      config.priceAfter pool isBid baseReserve quoteReserve mid = .ok price)
    (priced :
      config.swapAmount isBid mid baseReserve quoteReserve = .ok amount)
    (baseAfter :
      base.toNat =
        if isBid then baseReserve.toNat - mid.toNat
        else baseReserve.toNat + mid.toNat)
    (quoteAfter :
      quote.toNat =
        if isBid then quoteReserve.toNat + amount.toNat
        else quoteReserve.toNat - amount.toNat) :
    config.poolPrice pool base quote = .ok price := by
  simp only [priceAfter_eq_moved priced, checks, bind_eq_ok_iff] at probed
  obtain ⟨unit, unitScaled, baseMoved, movesBase, baseNorm, baseScaled,
    quoteMoved, movesQuote, quoteNorm, quoteScaled, result⟩ := probed
  have sameBase : baseMoved = base := by
    refine BitVec.eq_of_toNat_eq ?_
    rw [toNat_of_moved movesBase, baseAfter]
    cases isBid <;> rfl
  have sameQuote : quoteMoved = quote :=
    BitVec.eq_of_toNat_eq ((toNat_of_moved movesQuote).trans quoteAfter.symm)
  subst sameBase sameQuote
  simp only [poolPrice, checks, bind_eq_ok_iff]
  exact ⟨baseNorm, baseScaled, quoteNorm, quoteScaled, unit, unitScaled,
    result⟩

/-- A middle that was computed without overflow is the exact one. -/
theorem toNat_of_middle
    (wide : 64 ≤ w)
    (checks : config.overflowChecks = true)
    {state : SearchState w}
    {mid : BitVec w}
    (computed : config.middle state = .ok mid) :
    state.min.toNat + state.max.toNat + 1 < 2 ^ w ∧
      mid.toNat = (state.min.toNat + state.max.toNat + 1) / 2 := by
  simp only [middle, checks, bind_eq_ok_iff, Machine.div_eq_ok_iff]
    at computed
  obtain ⟨sum, added, total, incremented, _, rfl⟩ := computed
  have exact := Machine.toNat_of_add_checked incremented
  rw [Machine.toNat_of_add_checked added, toNat_one wide] at exact
  refine ⟨exact ▸ total.isLt, ?_⟩
  rw [BitVec.toNat_udiv, toNat_two wide, exact]

/--
A round that does not meet the target goes up for a bid whose price is too
low and for an ask whose price is too high, and otherwise down.  It records
the middle if the price is too low, whatever the side.
-/
theorem searchBody_of_price
    {state : SearchState w}
    {mid price : BitVec w}
    (nonempty : state.min < state.max)
    (computed : config.middle state = .ok mid)
    (probed :
      config.priceAfter pool isBid baseReserve quoteReserve mid = .ok price)
    (differs : price ≠ target) :
    config.searchBody pool isBid target baseReserve quoteReserve state = (do
      let step ← normalize config.overflowChecks 1 (some pool.baseDecimals)
      if isBid = decide (price < target) then do
        let min ← Machine.add config.overflowChecks mid step
        .ok (.inl ⟨min, state.max,
          if price < target then mid else state.swapQuantity⟩)
      else do
        let max ← Machine.sub config.overflowChecks mid step
        .ok (.inl ⟨state.min, max,
          if price < target then mid else state.swapQuantity⟩)) := by
  simp only [searchBody, nonempty, computed, probed, differs, ok_bind,
    ↓reduceIte]
  by_cases below : price < target
  · cases isBid <;> simp [below]
  · cases isBid <;> simp [below]

/-- What a round that goes on has done. -/
theorem searchBody_goesOn
    {state next : SearchState w}
    (stepped :
      config.searchBody pool isBid target baseReserve quoteReserve state =
        .ok (.inl next)) :
    state.min < state.max ∧
      ∃ mid price step,
        config.middle state = .ok mid ∧
          config.priceAfter pool isBid baseReserve quoteReserve mid =
            .ok price ∧
          price ≠ target ∧
          normalize config.overflowChecks 1 (some pool.baseDecimals) =
            .ok step ∧
          next.swapQuantity =
            (if price < target then mid else state.swapQuantity) ∧
          if isBid = decide (price < target) then
            (Machine.add config.overflowChecks mid step : Outcome _) =
                .ok next.min ∧
              next.max = state.max
          else
            (Machine.sub config.overflowChecks mid step : Outcome _) =
                .ok next.max ∧
              next.min = state.min := by
  by_cases nonempty : state.min < state.max
  · have unfolded := stepped
    simp only [searchBody, nonempty, ↓reduceIte, bind_eq_ok_iff] at unfolded
    obtain ⟨mid, computed, price, probed, unfolded⟩ := unfolded
    have differs : price ≠ target := by
      rintro rfl
      simp at unfolded
    simp only [searchBody_of_price nonempty computed probed differs,
      bind_eq_ok_iff] at stepped
    obtain ⟨step, normalized, stepped⟩ := stepped
    refine ⟨nonempty, mid, price, step, computed, probed, differs,
      normalized, ?_⟩
    split at stepped
    · rename_i goesUp
      simp only [bind_eq_ok_iff, Except.ok.injEq, Sum.inl.injEq] at stepped
      obtain ⟨_, raised, rfl⟩ := stepped
      rw [if_pos goesUp]
      exact ⟨rfl, raised, rfl⟩
    · rename_i goesDown
      simp only [bind_eq_ok_iff, Except.ok.injEq, Sum.inl.injEq] at stepped
      obtain ⟨_, lowered, rfl⟩ := stepped
      rw [if_neg goesDown]
      exact ⟨rfl, lowered, rfl⟩
  · simp [searchBody, nonempty] at stepped

/-- Swapping the quantity leaves the pool on the near side of the target. -/
def StopsAt
    (config : Config w Account Asset)
    (pool : Pool w Account)
    (isBid : Bool)
    (target baseReserve quoteReserve quantity : BitVec w) : Prop :=
  quantity = 0 ∨
    ∃ price,
      config.priceAfter pool isBid baseReserve quoteReserve quantity =
          .ok price ∧
        WithinLimit isBid target.toNat price.toNat

end WithoutOverflow

end Config

end HybridOrderbook
