import HybridOrderbook.SearchRange

namespace HybridOrderbook.Config

open Library Bisection

/-!
# How far the search takes the pool

A swap that the search returns should take the pool up to the price of the
book and no further.  For a bid it goes no further, but it may stop early: a
round drops the quantities within a step of its probe, the last one left is
not probed, and the first probe to meet the target is taken even if larger
quantities meet it too.  For an ask the search keeps the quantities that go
too far.
-/

/-- Reserves of 1000 of both assets, whatever the decimals are. -/
def evenLedger : Ledger 64 MockAccount Nat :=
  (Storage.mock (Pool.new 0 1 1 0 0 0) 1000 1000).ledger

variable {w : Nat} {Account Asset : Type} [DecidableEq Asset]
  (wide : 64 ≤ w) (config : Config w Account Asset) (pool : Pool w Account)
  (isBid : Bool) (target : BitVec w) {ledger : Ledger w Account Asset}
  {base quote : Asset} {baseReserve quoteReserve : BitVec w}
  (reserves :
    config.getReserves ledger base quote = .ok (baseReserve, quoteReserve))
  {remainOrders quantity : BitVec w}
  (found :
    config.checked.findMaxSwapQuantity pool isBid target ledger base quote
      remainOrders = .ok quantity)

include reserves

theorem exactSearch_reports_of_reserves
    (wide : 64 ≤ w) :
    (config.exactSearch pool isBid target baseReserve quoteReserve).Reports
      (config.swapVerdict pool isBid target.toNat baseReserve.toNat
        quoteReserve.toNat) := by
  obtain ⟨_, basePositive, quotePositive, _⟩ :=
    getReserves_eq_ok_iff.mp reserves
  exact exactSearch_reports wide (BitVec.toNat_pos_of_ne_zero basePositive)
    (BitVec.toNat_pos_of_ne_zero quotePositive)

include wide found

theorem result_of_findMaxSwapQuantity :
    (config.exactSearch pool isBid target baseReserve quoteReserve).result
      (.upTo remainOrders.toNat) = some quantity.toNat := by
  rw [config.findMaxSwapQuantity_checked pool isBid target reserves,
    searchLoop] at found
  have result :=
    (config.searchBody_realized wide pool isBid target baseReserve
      quoteReserve).result_of_loop (fuel_suffices _) found
  rwa [SearchState.interval_start] at result

/-- The price after the swap is one that the search has seen. -/
theorem stopsAt_iff_verdict :
    config.checked.StopsAt pool isBid target baseReserve quoteReserve
        quantity ↔
      quantity.toNat = 0 ∨
        config.swapVerdict pool isBid target.toNat baseReserve.toNat
          quoteReserve.toNat quantity.toNat ≠ .past := by
  have result :=
    config.result_of_findMaxSwapQuantity wide pool isBid target reserves
      found
  constructor
  · rintro (rfl | ⟨price, priced, within⟩)
    · exact .inl (by simp)
    · refine .inr ?_
      rw [swapVerdict_of_priceAfter wide priced, ne_eq,
        priceVerdict_eq_past_iff, not_not]
      exact within
  · rintro (zero | notPast)
    · exact .inl (BitVec.eq_of_toNat_eq (by simpa using zero))
    · rcases Search.result_mem result with zero | member
      · exact .inl (BitVec.eq_of_toNat_eq
          (by simpa [Interval.upTo] using zero))
      · obtain ⟨answer, probed⟩ := Search.exists_probe_of_mem result member
        rw [exactSearch_probe, Option.map_eq_some_iff] at probed
        obtain ⟨price, priced, _⟩ := probed
        rw [toOption_eq_some_iff] at priced
        rw [swapVerdict_of_priceAfter wide priced, ne_eq,
          priceVerdict_eq_past_iff, not_not] at notPast
        exact .inr ⟨price, priced, notPast⟩

/--
Where nothing wraps, the swap takes at most the order's quantity and leaves
the pool on the near side of the target for every bid, and for an ask if and
only if the search meets the target or never probes past it.
-/
theorem findMaxSwapQuantity_stopsAt_iff :
    (quantity ≤ remainOrders ∧
        config.checked.StopsAt pool isBid target baseReserve quoteReserve
          quantity) ↔
      isBid = true ∨
        (∃ probed ∈
          (config.exactSearch pool isBid target baseReserve
            quoteReserve).probes (.upTo remainOrders.toNat),
          config.swapVerdict pool isBid target.toNat baseReserve.toNat
            quoteReserve.toNat probed = .met) ∨
        ∀ probed ∈
          (config.exactSearch pool isBid target baseReserve
            quoteReserve).probes (.upTo remainOrders.toNat),
          config.swapVerdict pool isBid target.toNat baseReserve.toNat
            quoteReserve.toNat probed ≠ .past := by
  have reports :=
    config.exactSearch_reports_of_reserves pool isBid target reserves wide
  have result :=
    config.result_of_findMaxSwapQuantity wide pool isBid target reserves
      found
  have bounded : quantity ≤ remainOrders := Search.result_le result
  rw [config.stopsAt_iff_verdict wide pool isBid target reserves found,
    and_iff_right bounded]
  cases isBid with
  | true =>
      refine iff_of_true ?_ (.inl rfl)
      rcases Search.result_of_keepsNear reports result rfl with none | some
      · exact .inl none
      · exact .inr some.2
  | false =>
      rw [Search.notPast_iff_of_keepsPast reports result rfl]
      simp

omit wide reserves found in
/-- A bid up to 10100, and an ask that meets its target 9950. -/
theorem findMaxSwapQuantity_stopsAt_short :
    (4 ≤ (10 : BitVec 64) ∧
        mock.checked.StopsAt (Pool.new 0 1 1 4 0 0) true 10100 1000 1000 4) ∧
      3 ≤ (5 : BitVec 64) ∧
        mock.checked.StopsAt (Pool.new 0 1 1 4 0 0) false 9950 1000 1000 3 := by
  have reserves :
      mock.getReserves evenLedger 0 1 = .ok (1000, 1000) := by decide
  refine ⟨?_, ?_⟩
  · exact (mock.findMaxSwapQuantity_stopsAt_iff (by decide)
      (Pool.new 0 1 1 4 0 0) true 10100 reserves (by decide)).mpr (.inl rfl)
  · exact (mock.findMaxSwapQuantity_stopsAt_iff (by decide)
      (Pool.new 0 1 1 4 0 0) false 9950 reserves (by decide)).mpr
        (.inr (.inl (by decide +kernel)))

omit wide reserves found in
/-- An ask for 10 at a target of 9900 swaps 7, which leaves 9870. -/
theorem findMaxSwapQuantity_ask_overshoots :
    mock.getReserves evenLedger 0 1 = .ok (1000, 1000) ∧
      mock.checked.findMaxSwapQuantity (Pool.new 0 1 1 4 0 0) false 9900
        evenLedger 0 1 10 = .ok 7 ∧
      mock.findMaxSwapQuantity (Pool.new 0 1 1 4 0 0) false 9900
        evenLedger 0 1 10 = .ok 7 ∧
      mock.checked.priceAfter (Pool.new 0 1 1 4 0 0) false 1000 1000 7 =
        .ok 9870 := by
  decide

/--
Where nothing wraps, the quantity is the largest one that does not take the
pool past the target if and only if the search probes that quantity; an ask
also has to meet the target with it, unless even the whole order goes past.
-/
theorem findMaxSwapQuantity_largest_iff :
    Largest
        (config.swapVerdict pool isBid target.toNat baseReserve.toNat
          quoteReserve.toNat) remainOrders.toNat quantity.toNat ↔
      remainOrders.toNat = 0 ∨
        if isBid then
          config.swapVerdict pool isBid target.toNat baseReserve.toNat
              quoteReserve.toNat 1 = .past ∨
            ∃ probed ∈
              (config.exactSearch pool isBid target baseReserve
                quoteReserve).probes (.upTo remainOrders.toNat),
              Boundary
                (config.swapVerdict pool isBid target.toNat
                  baseReserve.toNat quoteReserve.toNat)
                remainOrders.toNat probed
        else
          (∃ probed ∈
            (config.exactSearch pool isBid target baseReserve
              quoteReserve).probes (.upTo remainOrders.toNat),
            config.swapVerdict pool isBid target.toNat baseReserve.toNat
                quoteReserve.toNat probed = .met ∧
              Boundary
                (config.swapVerdict pool isBid target.toNat
                  baseReserve.toNat quoteReserve.toNat)
                remainOrders.toNat probed) ∨
            remainOrders.toNat ∈
                (config.exactSearch pool isBid target baseReserve
                  quoteReserve).probes (.upTo remainOrders.toNat) ∧
              config.swapVerdict pool isBid target.toNat baseReserve.toNat
                quoteReserve.toNat remainOrders.toNat = .past := by
  have reports :=
    config.exactSearch_reports_of_reserves pool isBid target reserves wide
  have result :=
    config.result_of_findMaxSwapQuantity wide pool isBid target reserves
      found
  cases isBid with
  | true =>
      exact Search.largest_iff_of_keepsNear reports result rfl
  | false =>
      exact Search.largest_iff_of_keepsPast reports result rfl

omit wide reserves found in
/-- A bid that finds the largest quantity, and an ask that meets it. -/
theorem findMaxSwapQuantity_largest_short :
    Largest
        (mock.swapVerdict (Pool.new 0 1 1 4 0 0) true 10100 1000 1000) 10 4 ∧
      Largest
        (mock.swapVerdict (Pool.new 0 1 1 4 0 0) false 9950 1000 1000)
        5 3 := by
  have reserves :
      mock.getReserves evenLedger 0 1 = .ok (1000, 1000) := by decide
  have bid :
      mock.checked.findMaxSwapQuantity (Pool.new 0 1 1 4 0 0) true 10100
        evenLedger 0 1 10 = .ok 4 := by decide
  have ask :
      mock.checked.findMaxSwapQuantity (Pool.new 0 1 1 4 0 0) false 9950
        evenLedger 0 1 5 = .ok 3 := by decide
  exact ⟨
    (mock.findMaxSwapQuantity_largest_iff (by decide) (Pool.new 0 1 1 4 0 0)
      true 10100 reserves bid).mpr (by decide +kernel),
    (mock.findMaxSwapQuantity_largest_iff (by decide) (Pool.new 0 1 1 4 0 0)
      false 9950 reserves ask).mpr (by decide +kernel)⟩

omit wide reserves found in
/--
A bid for 98 up to 110 stops at 49, and an ask for 100 down to 90 at 50.  One
unit more leaves the pool at the target.
-/
theorem findMaxSwapQuantity_stops_early :
    mock.getReserves evenLedger 0 1 = .ok (1000, 1000) ∧
      mock.checked.findMaxSwapQuantity (Pool.new 0 1 1 2 0 0) true 110
        evenLedger 0 1 98 = .ok 49 ∧
      mock.checked.priceAfter (Pool.new 0 1 1 2 0 0) true 1000 1000 50 =
        .ok 110 ∧
      mock.checked.findMaxSwapQuantity (Pool.new 0 1 1 2 0 0) false 90
        evenLedger 0 1 100 = .ok 50 ∧
      mock.checked.priceAfter (Pool.new 0 1 1 2 0 0) false 1000 1000 51 =
        .ok 90 := by
  decide

end HybridOrderbook.Config
