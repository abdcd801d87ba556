import HybridOrderbook.Library.Sweep
import HybridOrderbook.BestExecution
import HybridOrderbook.Fulfilment
import HybridOrderbook.Priority

namespace HybridOrderbook

open Library Bisection Sweep

/-!
# Matching over the natural numbers

As long as nothing overflows, `do_match_order` sweeps the levels of the
opposite book together with the pool.  What it takes from the pool in each
round, what it fills at each level and where the reserves end up follow from
the prices and volumes of the levels, the reserves and the quantity of the
order.
-/

variable {w : Nat} {Account Asset : Type}

/-- A taker of the given side meets one price no later than the other. -/
def closer (isBid : Bool) (price other : Nat) : Bool :=
  if isBid then price ≤ other else other ≤ price

theorem closer_iff
    {isBid : Bool}
    {price other : Nat} :
    closer isBid price other = true ↔ WithinLimit isBid other price := by
  cases isBid <;> simp [closer, WithinLimit]

theorem ranks_closer (isBid : Bool) : Ranks (closer isBid) where
  trans first second third := by
    simp only [closer_iff]
    exact fun closer farther => farther.trans closer
  total first second := by
    cases isBid <;> simp [closer, Nat.le_total]
  antisymm first second := by
    cases isBid <;> simp [closer] <;> omega

/-- The levels that a taker of the given side meets, the best one first. -/
def Pool.ladder (pool : Pool w Account) (isBid : Bool) : List Level :=
  inOrder (closer isBid)
    ((pool.getOrderbook !isBid).leaves.toList.map fun binding =>
      ⟨binding.2.key.toNat, binding.2.value.volume⟩)

namespace PriceMap

variable {map : PriceMap w Account} {isBid : Bool} {key quantity : BitVec w}
  {tick : Tick w Account}

/-- The prices of a book with the quantities that rest there. -/
def levels (map : PriceMap w Account) : List Level :=
  map.toList.map fun binding => ⟨binding.1.toNat, binding.2.volume⟩

theorem mem_levels_iff
    {level : Level} :
    level ∈ map.levels ↔
      ∃ (key : BitVec w) (tick : Tick w Account),
        map[key]? = some tick ∧ level = ⟨key.toNat, tick.volume⟩ := by
  simp only [levels, List.mem_map, Prod.exists,
    Std.ExtTreeMap.mem_toList_iff_getElem?_eq_some]
  simp only [eq_comm]

/-- No price has two levels. -/
theorem distinct_levels :
    ∀ first ∈ map.levels, ∀ second ∈ map.levels,
      first.price = second.price → first = second := by
  intro first firstListed second secondListed same
  obtain ⟨key, tick, bound, rfl⟩ := mem_levels_iff.mp firstListed
  obtain ⟨other, otherTick, otherBound, rfl⟩ :=
    mem_levels_iff.mp secondListed
  obtain rfl := BitVec.eq_of_toNat_eq same
  rw [bound, Option.some.injEq] at otherBound
  rw [otherBound]

/-- The best level of a book, and those behind it. -/
theorem inOrder_levels
    (bound : map[key]? = some tick)
    (best : ∀ other ∈ map, WithinLimit isBid other.toNat key.toNat) :
    inOrder (closer isBid) map.levels =
      ⟨key.toNat, tick.volume⟩ ::
        inOrder (closer isBid) (levels (map.erase key)) := by
  refine inOrder_cons (ranks_closer isBid) distinct_levels
    ((TreeMap.toList_perm_cons_erase bound).map _) ?_
  intro level listed
  obtain ⟨other, _, otherBound, rfl⟩ := mem_levels_iff.mp listed
  rw [Std.ExtTreeMap.getElem?_erase] at otherBound
  refine closer_iff.mpr (best other ?_)
  split at otherBound
  · cases otherBound
  · exact TreeMap.mem_of_getElem? otherBound

/-- A level fills as much as it holds. -/
theorem fillsWorth_fillsAt
    (bound : map[key]? = some tick)
    (quantity : BitVec w) :
    Tick.fillsWorth (fun _ part => part) (map.fillsAt key quantity) =
      min tick.volume quantity.toNat := by
  have conserved := tick.volume_filled quantity
  obtain ⟨counted, bounded⟩ := tick.toNat_filling_filled quantity
  rw [BitVec.le_def] at bounded
  rw [fillsAt, fillOrder, bound]
  dsimp only
  rw [Tick.fillsWorth_filled]
  rcases tick.filled_exhausts quantity with complete | emptied
  · rw [complete] at counted ⊢
    omega
  · have nothing : (tick.filled quantity).2.volume = 0 := by
      unfold Tick.volume Tick.worth
      rw [Std.ExtTreeMap.isEmpty_iff.mp emptied, TreeMap.total_empty]
    omega

/-- Fills that are worth nothing are not reported. -/
theorem fillsAt_eq_nil_iff :
    map.fillsAt key quantity = [] ↔
      Tick.fillsWorth (fun _ part => part) (map.fillsAt key quantity) =
        0 := by
  refine ⟨fun none => by simp [none, Tick.fillsWorth], fun nothing => ?_⟩
  rw [fillsAt, fillOrder] at nothing ⊢
  cases bound : map[key]? with
  | none =>
      rfl
  | some tick =>
      rw [bound] at nothing
      dsimp only at nothing ⊢
      rw [Tick.fillsWorth_filled] at nothing
      have zero : (tick.filling quantity).filled = 0 :=
        BitVec.eq_of_toNat_eq (by simpa using nothing)
      simp [Tick.filled, zero]

/-- What a fill leaves of a book: what is left of its level, and the rest. -/
theorem mem_levels_fillOrder
    (bound : map[key]? = some tick)
    {level : Level}
    (member : level ∈ levels (map.fillOrder key quantity).2) :
    level =
        ⟨key.toNat, tick.volume - min tick.volume quantity.toNat⟩ ∨
      level ∈ levels (map.erase key) := by
  have worth := fillsWorth_fillsAt bound quantity
  have conserved := tick.volume_filled quantity
  have counted := (tick.toNat_filling_filled quantity).1
  rw [fillsAt, fillOrder, bound] at worth
  dsimp only at worth
  rw [Tick.fillsWorth_filled] at worth
  rw [fillOrder, bound] at member
  dsimp only at member
  split at member
  · exact .inr member
  · obtain ⟨other, found, listed, rfl⟩ := mem_levels_iff.mp member
    rw [Std.ExtTreeMap.getElem?_insert] at listed
    split at listed
    · rename_i same
      obtain rfl := Std.LawfulEqCmp.eq_of_compare same
      obtain rfl := Option.some.inj listed
      left
      rw [Level.mk.injEq]
      exact ⟨rfl, by omega⟩
    · rename_i different
      refine .inr (mem_levels_iff.mpr ⟨other, found, ?_, rfl⟩)
      rw [Std.ExtTreeMap.getElem?_erase, if_neg different]
      exact listed

/-- A level that holds less than the order is removed. -/
theorem fillOrder_of_short
    (bound : map[key]? = some tick)
    (short : tick.volume < quantity.toNat) :
    (map.fillOrder key quantity).2 = map.erase key := by
  have removed : key ∉ (map.fillOrder key quantity).2 := by
    refine not_mem_fillOrder ?_
    rw [fillsWorth_fillsAt bound]
    exact (Nat.min_le_left ..).trans_lt short
  rw [fillOrder, bound] at removed ⊢
  dsimp only at removed ⊢
  split at removed
  · rename_i emptied
    rw [if_pos emptied]
  · simp at removed

/-- A level that holds more than the order keeps the rest. -/
theorem fillOrder_of_long
    (bound : map[key]? = some tick)
    (long : quantity.toNat < tick.volume) :
    ∃ rest : Tick w Account,
      (map.fillOrder key quantity).2[key]? = some rest ∧
        rest.volume ≠ 0 := by
  have worth := fillsWorth_fillsAt bound quantity
  have conserved := tick.volume_filled quantity
  have counted := (tick.toNat_filling_filled quantity).1
  rw [fillsAt, fillOrder, bound] at worth
  dsimp only at worth
  rw [Tick.fillsWorth_filled] at worth
  have left : (tick.filled quantity).2.volume ≠ 0 := by omega
  refine ⟨(tick.filled quantity).2, ?_, left⟩
  have notEmptied : ¬ (tick.filled quantity).2.isEmpty = true := by
    intro emptied
    refine left ?_
    unfold Tick.volume Tick.worth
    rw [Std.ExtTreeMap.isEmpty_iff.mp emptied, TreeMap.total_empty]
  simp [fillOrder, bound, notEmptied]

end PriceMap

/-- The ladder of a pool is that of the price map behind its book. -/
theorem Pool.Refines.ladder_eq
    {pool : Pool w Account}
    {books : Bool → PriceMap w Account}
    (refines : pool.Refines books)
    (isBid : Bool) :
    pool.ladder isBid = inOrder (closer isBid) (books !isBid).levels := by
  obtain ⟨entries, lists, sameBindings⟩ := refines !isBid
  have mapPerm := (lists.toList_perm sameBindings).map fun binding =>
    (⟨binding.1.toNat, binding.2.volume⟩ : Level)
  have leavesPerm := lists.leaves_perm.map fun entry =>
    (⟨entry.key.toNat, entry.value.volume⟩ : Level)
  rw [List.map_map] at mapPerm leavesPerm
  exact (inOrder_eq_of_perm (ranks_closer isBid) PriceMap.distinct_levels
    (mapPerm.trans leavesPerm.symm)).symm

theorem Pool.mem_ladder_iff
    {pool : Pool w Account}
    {isBid : Bool}
    {level : Level} :
    level ∈ pool.ladder isBid ↔
      ∃ (index : BitVec w) (leaf : LeafNode w (Tick w Account)),
        (pool.getOrderbook !isBid).leaves[index]? = some leaf ∧
          level = ⟨leaf.key.toNat, leaf.value.volume⟩ := by
  simp only [ladder, (inOrder_perm _ _).mem_iff, List.mem_map, Prod.exists,
    Std.ExtTreeMap.mem_toList_iff_getElem?_eq_some]
  simp only [eq_comm]

/-- The levels of the opposite book are at the prices of the ladder. -/
theorem Pool.hasLevel_iff_mem_ladder
    {pool : Pool w Account}
    {isBid : Bool}
    {price : BitVec w} :
    pool.HasLevel (!isBid) price ↔
      ∃ level ∈ pool.ladder isBid, level.price = price.toNat := by
  constructor
  · rintro ⟨index, leaf, stored, rfl⟩
    exact ⟨_, mem_ladder_iff.mpr ⟨index, leaf, stored, rfl⟩, rfl⟩
  · rintro ⟨level, listed, same⟩
    obtain ⟨index, leaf, stored, rfl⟩ := mem_ladder_iff.mp listed
    exact ⟨index, leaf, stored, BitVec.eq_of_toNat_eq same⟩

/-- The prices of the map behind a book are levels of the book. -/
theorem Pool.Refines.hasLevel_of_mem
    {pool : Pool w Account}
    {books : Bool → PriceMap w Account}
    (refines : pool.Refines books)
    {isBid : Bool}
    {price : BitVec w}
    (member : price ∈ books !isBid) : pool.HasLevel (!isBid) price := by
  obtain ⟨tick, bound⟩ := Option.isSome_iff_exists.mp
    (Std.ExtTreeMap.mem_iff_isSome_getElem?.mp member)
  refine hasLevel_iff_mem_ladder.mpr ⟨⟨price.toNat, tick.volume⟩, ?_, rfl⟩
  rw [refines.ladder_eq, (inOrder_perm _ _).mem_iff]
  exact PriceMap.mem_levels_iff.mpr ⟨price, tick, bound, rfl⟩

/-- No two levels of a ladder have the same price. -/
theorem Pool.Refines.pairwise_ladder
    {pool : Pool w Account}
    {books : Bool → PriceMap w Account}
    (refines : pool.Refines books)
    (isBid : Bool) :
    (pool.ladder isBid).Pairwise fun first second =>
      first.price ≠ second.price := by
  rw [refines.ladder_eq, (inOrder_perm _ _).pairwise_iff Ne.symm,
    PriceMap.levels, List.pairwise_map]
  refine Std.ExtTreeMap.distinct_keys_toList.imp ?_
  intro first second distinct same
  exact distinct (Std.compare_eq_iff_eq.mpr (BitVec.eq_of_toNat_eq same))

/-- The reserves of a pool. -/
structure Reserves where
  base : Nat
  quote : Nat
  deriving Repr, DecidableEq

namespace Config

section Definitions

variable (config : Config w Account Asset) (pool : Pool w Account)
  (isBid : Bool)

/-- The search for a target, if no probe of it fails. -/
def verdictSearch (target : Nat) (reserves : Reserves) : Search where
  probe quantity :=
    some (config.swapVerdict pool isBid target reserves.base reserves.quote
      quantity)
  step := 10 ^ pool.baseDecimals.toNat
  positive := pool.baseUnit_pos
  kept := if isBid then .near else .past

/-- The quantity that the search finds, and the reserves after a swap. -/
def venue : Venue Reserves where
  take reserves price left :=
    ((config.verdictSearch pool isBid price reserves).result
      (.upTo left)).getD 0
  take_le reserves price left := by
    cases found :
        (config.verdictSearch pool isBid price reserves).result
          (.upTo left) with
    | none =>
        exact Nat.zero_le _
    | some quantity =>
        exact Search.result_le found
  trade reserves quantity :=
    if quantity = 0 then
      reserves
    else
      ⟨exactBaseAfter isBid reserves.base quantity,
        config.exactQuoteAfter isBid reserves.base reserves.quote quantity⟩
  trade_zero _ := if_pos rfl

variable [DecidableEq Asset]

/-- A ledger holds the reserves of a pool. -/
def HoldsReserves
    (base quote : Asset)
    (ledger : Ledger w Account Asset)
    (reserves : Reserves) : Prop :=
  ∃ baseReserve quoteReserve,
    config.getReserves ledger base quote =
        .ok (baseReserve, quoteReserve) ∧
      reserves = ⟨baseReserve.toNat, quoteReserve.toNat⟩

/-- The price of the pool can be computed from the ledger. -/
def Priced
    (base quote : Asset)
    (ledger : Ledger w Account Asset) : Prop :=
  ∃ baseReserve quoteReserve price,
    config.getReserves ledger base quote =
        .ok (baseReserve, quoteReserve) ∧
      config.checked.poolPrice pool baseReserve quoteReserve = .ok price

end Definitions

end Config

namespace Reserves

/-- The reserves after the taker of a side has traded with the pool. -/
def Traded (isBid : Bool) (reserves later : Reserves) : Prop :=
  if isBid then
    later.base ≤ reserves.base ∧ reserves.quote ≤ later.quote
  else
    reserves.base ≤ later.base ∧ later.quote ≤ reserves.quote

variable {isBid : Bool} {reserves middle later : Reserves}

theorem Traded.refl (isBid : Bool) (reserves : Reserves) :
    reserves.Traded isBid reserves := by
  cases isBid <;> exact ⟨le_rfl, le_rfl⟩

theorem Traded.trans
    (first : reserves.Traded isBid middle)
    (second : middle.Traded isBid later) :
    reserves.Traded isBid later := by
  cases isBid with
  | true =>
      exact ⟨second.1.trans first.1, first.2.trans second.2⟩
  | false =>
      exact ⟨first.1.trans second.1, second.2.trans first.2⟩

theorem traded_trade
    (config : Config w Account Asset)
    (pool : Pool w Account)
    (isBid : Bool)
    (reserves : Reserves)
    (quantity : Nat) :
    reserves.Traded isBid
      ((config.venue pool isBid).trade reserves quantity) := by
  simp only [Config.venue]
  split
  · exact .refl isBid reserves
  · cases isBid with
    | true =>
        exact ⟨Nat.sub_le _ _, Nat.le_add_right _ _⟩
    | false =>
        exact ⟨Nat.le_add_right _ _, Nat.sub_le _ _⟩

/-- Trading moves the price away from the taker. -/
theorem Traded.exactPrice_within
    (traded : reserves.Traded isBid later)
    (pool : Pool w Account)
    (positive : 0 < reserves.base)
    (positiveLater : 0 < later.base) :
    WithinLimit isBid (pool.exactPrice later.base later.quote)
      (pool.exactPrice reserves.base reserves.quote) := by
  cases isBid with
  | true =>
      exact pool.exactPrice_le positiveLater traded.1 traded.2
  | false =>
      exact pool.exactPrice_le positive traded.1 traded.2

end Reserves

namespace Config

theorem venue_of_sameTerms
    (config : Config w Account Asset)
    {pool next : Pool w Account}
    (same : pool.SameTerms next)
    (isBid : Bool) : config.venue next isBid = config.venue pool isBid := by
  simp only [venue, verdictSearch, swapVerdict, exactPriceAfter,
    same.exactPrice, same.baseDecimals]

section Round

variable [DecidableEq Account] [DecidableEq Asset]
  {config : Config w Account Asset} {isBid : Bool} {orderer : Account}
  {base quote : Asset} {pool : Pool w Account} {reserves : Reserves}
  {state next : MatchState w Account Asset}

omit [DecidableEq Account] in
theorem HoldsReserves.unique
    {ledger : Ledger w Account Asset}
    {other : Reserves}
    (holds : config.HoldsReserves base quote ledger reserves)
    (otherHolds : config.HoldsReserves base quote ledger other) :
    reserves = other := by
  obtain ⟨_, _, read, rfl⟩ := holds
  obtain ⟨_, _, readAgain, rfl⟩ := otherHolds
  rw [read, Except.ok.injEq, Prod.mk.injEq] at readAgain
  rw [readAgain.1, readAgain.2]

omit [DecidableEq Account] in
/-- The search finds what the venue takes. -/
theorem take_of_findMaxSwapQuantity
    (wide : 64 ≤ w)
    {ledger : Ledger w Account Asset}
    (holds : config.HoldsReserves base quote ledger reserves)
    {target remainOrders quantity : BitVec w}
    (found :
      config.checked.findMaxSwapQuantity pool isBid target ledger base quote
        remainOrders = .ok quantity) :
    (config.venue pool isBid).take reserves target.toNat
      remainOrders.toNat = quantity.toNat := by
  obtain ⟨baseReserve, quoteReserve, read, rfl⟩ := holds
  have result := config.result_of_findMaxSwapQuantity wide pool isBid target
    read found
  have reports := config.exactSearch_reports_of_reserves pool isBid target
    read wide
  have total :
      (config.verdictSearch pool isBid target.toNat
          ⟨baseReserve.toNat, quoteReserve.toNat⟩).result
        (.upTo remainOrders.toNat) = some quantity.toNat :=
    Search.result_of_agrees result rfl rfl fun quantity answer probed =>
      congrArg some (reports.agrees probed)
  exact congrArg (Option.getD · 0) total

/-- What a swap reads, and the reserves that it leaves. -/
theorem reserves_of_fillFromPool
    (lawful : config.Lawful)
    (otherOrderer : orderer ≠ config.address (base, quote))
    {quantity : BitVec w}
    (filled :
      config.checked.fillFromPool isBid orderer base quote quantity state =
        .ok next) :
    ∃ baseReserve quoteReserve amount baseLeft quoteLeft,
      config.getReserves state.ledger base quote =
          .ok (baseReserve, quoteReserve) ∧
        config.checked.swapAmount isBid quantity baseReserve quoteReserve =
          .ok amount ∧
        config.getReserves next.ledger base quote =
          .ok (baseLeft, quoteLeft) ∧
        baseLeft.toNat =
          (if isBid then baseReserve.toNat - quantity.toNat
          else baseReserve.toNat + quantity.toNat) ∧
        quoteLeft.toNat =
          if isBid then quoteReserve.toNat + amount.toNat
          else quoteReserve.toNat - amount.toNat := by
  have checkedLawful : config.checked.Lawful :=
    ⟨lawful.addressInjective, lawful.poolBalance⟩
  obtain ⟨swapped, _⟩ := fillFromPool_eq_ok filled
  obtain ⟨baseReserve, quoteReserve, amount, read, priced, _, _, baseAfter,
    quoteAfter⟩ := balances_of_doFillPool checkedLawful otherOrderer swapped
  have different := (getReserves_eq_ok_iff.mp read).1
  obtain ⟨basePositive, quotePositive⟩ := reserves_of_swapAmount priced
  have less := lt_of_swapAmount priced
  have baseLeft :
      0 < (next.ledger.balance base
        (config.address (base, quote))).toNat := by
    refine Nat.lt_of_lt_of_eq ?_ baseAfter.symm
    cases isBid with
    | true => exact Nat.sub_pos_of_lt less
    | false => exact Nat.add_pos_left basePositive _
  have quoteLeft :
      0 < (next.ledger.balance quote
        (config.address (base, quote))).toNat := by
    refine Nat.lt_of_lt_of_eq ?_ quoteAfter.symm
    cases isBid with
    | true => exact Nat.add_pos_left quotePositive _
    | false => exact Nat.sub_pos_of_lt less
  refine ⟨baseReserve, quoteReserve, amount, _, _, read, priced,
    getReserves_eq_ok_iff.mpr ⟨different, fun zero => ?_, fun zero => ?_,
      lawful.poolBalance .., lawful.poolBalance ..⟩, baseAfter, quoteAfter⟩
  · exact absurd (congrArg BitVec.toNat zero) (by simpa using baseLeft.ne')
  · exact absurd (congrArg BitVec.toNat zero) (by simpa using quoteLeft.ne')

/-- A swap leaves the reserves that the venue has after the trade. -/
theorem holds_of_fillFromPool
    (pool : Pool w Account)
    (lawful : config.Lawful)
    (otherOrderer : orderer ≠ config.address (base, quote))
    (holds : config.HoldsReserves base quote state.ledger reserves)
    {quantity : BitVec w}
    (filled :
      config.checked.fillFromPool isBid orderer base quote quantity state =
        .ok next) :
    config.HoldsReserves base quote next.ledger
      ((config.venue pool isBid).trade reserves quantity.toNat) := by
  obtain ⟨baseReserve, quoteReserve, amount, baseLeft, quoteLeft, read,
    priced, left, baseAfter, quoteAfter⟩ :=
    reserves_of_fillFromPool lawful otherOrderer filled
  obtain rfl := holds.unique ⟨_, _, read, rfl⟩
  have nonzero : quantity.toNat ≠ 0 := fun zero =>
    ne_zero_of_doFillPool (fillFromPool_eq_ok filled).1
      (BitVec.eq_of_toNat_eq (by simpa using zero))
  refine ⟨baseLeft, quoteLeft, left, ?_⟩
  rw [baseAfter, quoteAfter, ← exactQuoteAfter_of_swapAmount priced]
  exact if_neg nonzero

/-- After a swap that the search has found there is a price. -/
theorem priced_of_findMaxSwapQuantity
    (wide : 64 ≤ w)
    (lawful : config.Lawful)
    (otherOrderer : orderer ≠ config.address (base, quote))
    (sameTerms : pool.SameTerms state.pool)
    {target quantity : BitVec w}
    (found :
      config.checked.findMaxSwapQuantity state.pool isBid target
        state.ledger base quote state.remainOrders = .ok quantity)
    (filled :
      config.checked.fillFromPool isBid orderer base quote quantity state =
        .ok next) : config.Priced pool base quote next.ledger := by
  obtain ⟨baseReserve, quoteReserve, amount, baseLeft, quoteLeft, read,
    priced, left, baseAfter, quoteAfter⟩ :=
    reserves_of_fillFromPool lawful otherOrderer filled
  have result := config.result_of_findMaxSwapQuantity wide state.pool isBid
    target read found
  rcases Search.result_mem result with zero | member
  · exact absurd (BitVec.eq_of_toNat_eq (by simpa [Interval.upTo] using zero))
      (ne_zero_of_doFillPool (fillFromPool_eq_ok filled).1)
  · obtain ⟨answer, probed⟩ := Search.exists_probe_of_mem result member
    rw [exactSearch_probe, Option.map_eq_some_iff] at probed
    obtain ⟨price, probed, _⟩ := probed
    refine ⟨baseLeft, quoteLeft, price, left, ?_⟩
    rw [← sameTerms.poolPrice_eq]
    exact poolPrice_of_priceAfter rfl (toOption_eq_some_iff.mp probed) priced
      baseAfter quoteAfter

/-- A matching state at a ladder and reserves. -/
structure Stands
    (config : Config w Account Asset)
    (isBid : Bool)
    (base quote : Asset)
    (pool : Pool w Account)
    (ladder : List Level)
    (reserves : Reserves)
    (state : MatchState w Account Asset) : Prop where
  sameTerms : pool.SameTerms state.pool
  refines : ∃ books, state.pool.Refines books
  ladder : 0 < state.remainOrders → state.pool.ladder isBid = ladder
  holds : config.HoldsReserves base quote state.ledger reserves

/-- What a quantity that is taken from the pool adds to the swaps. -/
def AddsSwap
    (config : Config w Account Asset)
    (base quote : Asset)
    (pool : Pool w Account)
    (taken : Nat)
    (state next : MatchState w Account Asset) : Prop :=
  taken = 0 ∧ next.swaps = state.swaps ∧ next.ledger = state.ledger ∨
    taken ≠ 0 ∧ config.Priced pool base quote next.ledger ∧
      ∃ quantity : BitVec w,
        quantity.toNat = taken ∧
          next.swaps = state.swaps ++ [(quantity, next.ledger)]

/-- What is filled at a level adds to the fills. -/
def AddsFills
    (level : Level)
    (filled : Nat)
    (state next : MatchState w Account Asset) : Prop :=
  ∃ new,
    next.filledOrders = state.filledOrders ++ new ∧
      (∀ fill ∈ new, fill.2.1.toNat = level.price) ∧
      (new = [] ↔ filled = 0)

variable {ladder : List Level}

/-- The part of a round that the pool takes. -/
theorem Stands.takes
    (wide : 64 ≤ w)
    (lawful : config.Lawful)
    (otherOrderer : orderer ≠ config.address (base, quote))
    (stands :
      config.Stands isBid base quote pool ladder reserves state)
    {target quantity : BitVec w}
    (found :
      config.checked.findMaxSwapQuantity state.pool isBid target
        state.ledger base quote state.remainOrders = .ok quantity)
    (covered : quantity ≤ state.remainOrders)
    (reached :
      quantity = 0 ∧ next = state ∨
        config.checked.fillFromPool isBid orderer base quote quantity state =
          .ok next) :
    next.pool = state.pool ∧ next.filledOrders = state.filledOrders ∧
      next.remainOrders.toNat =
        state.remainOrders.toNat - quantity.toNat ∧
      config.HoldsReserves base quote next.ledger
        ((config.venue pool isBid).trade reserves quantity.toNat) ∧
      config.AddsSwap base quote pool quantity.toNat state next := by
  rcases reached with ⟨rfl, rfl⟩ | filled
  · refine ⟨rfl, rfl, by simp, ?_, .inl ⟨by simp, rfl, rfl⟩⟩
    have unchanged := (config.venue pool isBid).trade_zero reserves
    simpa [unchanged] using stands.holds
  · have holds := holds_of_fillFromPool pool lawful otherOrderer
      stands.holds filled
    have priced := priced_of_findMaxSwapQuantity wide lawful otherOrderer
      stands.sameTerms found filled
    obtain ⟨swapped, next_eq⟩ := fillFromPool_eq_ok filled
    have nonzero : quantity.toNat ≠ 0 := fun zero =>
      ne_zero_of_doFillPool swapped
        (BitVec.eq_of_toNat_eq (by simpa using zero))
    have left := BitVec.toNat_sub_of_le covered
    refine ⟨by rw [next_eq], by rw [next_eq], by rw [next_eq, left], holds,
      .inr ⟨nonzero, priced, quantity, rfl, ?_⟩⟩
    rw [next_eq]

omit [DecidableEq Account] [DecidableEq Asset] in
/-- The part of a round that the book fills. -/
theorem fillsLevel
    (width : 0 < w)
    {books : Bool → PriceMap w Account}
    (refines : state.pool.Refines books)
    {price : BitVec w}
    {tick : Tick w Account}
    (bound : (books !isBid)[price]? = some tick)
    (filled : doFillBook isBid price state = .ok next) :
    next.ledger = state.ledger ∧ next.swaps = state.swaps ∧
      state.pool.SameTerms next.pool ∧
      next.remainOrders.toNat =
        state.remainOrders.toNat -
          min tick.volume state.remainOrders.toNat ∧
      AddsFills ⟨price.toNat, tick.volume⟩
        (min tick.volume state.remainOrders.toNat) state next ∧
      ∃ left,
        next.pool.Refines left ∧
          (0 < next.remainOrders →
            left (!isBid) = (books !isBid).erase price) ∧
          ∀ level ∈ (left !isBid).levels,
            level =
                ⟨price.toNat, tick.volume -
                  min tick.volume state.remainOrders.toNat⟩ ∨
              level ∈ PriceMap.levels ((books !isBid).erase price) := by
  have fills := fillsBook_of_doFillBook width refines filled
  have worth := PriceMap.fillsWorth_fillsAt bound state.remainOrders
  have remain := fills.remainOrders
  rw [worth] at remain
  refine ⟨fills.ledger, fills.swaps, fills.sameTerms, by omega,
    ⟨_, fills.filledOrders, ?_, ?_⟩, _, fills.refines, fun more => ?_, ?_⟩
  · intro fill member
    obtain ⟨part, _, rfl⟩ := List.mem_map.mp member
    rfl
  · rw [List.map_eq_nil_iff, PriceMap.fillsAt_eq_nil_iff, worth]
  · have unfinished : 0 < next.remainOrders.toNat := BitVec.lt_def.mp more
    rw [Function.update_self]
    exact PriceMap.fillOrder_of_short bound (by omega)
  · rw [Function.update_self]
    exact fun level member => PriceMap.mem_levels_fillOrder bound member

/-- A round of the code is a round of the sweep. -/
theorem Stands.round
    (wide : 64 ≤ w)
    (lawful : config.Lawful)
    (otherOrderer : orderer ≠ config.address (base, quote))
    (stands :
      config.Stands isBid base quote pool ladder reserves state)
    (stepped :
      config.checked.matchBody isBid orderer base quote state =
        .ok (.inl next)) :
    ∃ level rest,
      ladder = level :: rest ∧
        next.remainOrders.toNat =
          leftAfter (config.venue pool isBid) level reserves
            state.remainOrders.toNat ∧
        config.Stands isBid base quote pool rest
          (Sweep.round (config.venue pool isBid) level reserves
            state.remainOrders.toNat).state next ∧
        config.AddsSwap base quote pool
          (Sweep.round (config.venue pool isBid) level reserves
            state.remainOrders.toNat).taken state next ∧
        AddsFills level
          (Sweep.round (config.venue pool isBid) level reserves
            state.remainOrders.toNat).filled state next ∧
        ∀ left ∈ next.pool.ladder isBid,
          left ∈
            ⟨level.price, level.volume -
              (Sweep.round (config.venue pool isBid) level reserves
                state.remainOrders.toNat).filled⟩ :: rest := by
  obtain ⟨unfinished, price, index, found, best, searched, done⟩ :=
    matchBody_round stepped
  obtain ⟨books, refines⟩ := stands.refines
  obtain ⟨member, first⟩ := refines.best_of_nextOrder best
  obtain ⟨tick, bound⟩ := Option.isSome_iff_exists.mp
    (Std.ExtTreeMap.mem_iff_isSome_getElem?.mp member)
  have ladder_eq := stands.ladder unfinished
  rw [refines.ladder_eq, PriceMap.inOrder_levels bound first] at ladder_eq
  have taken := take_of_findMaxSwapQuantity wide stands.holds searched
  rw [venue_of_sameTerms config stands.sameTerms] at taken
  have bounded := (config.venue pool isBid).take_le reserves price.toNat
    state.remainOrders.toNat
  rw [taken] at bounded
  refine ⟨⟨price.toNat, tick.volume⟩,
    inOrder (closer isBid) (PriceMap.levels ((books !isBid).erase price)),
    ladder_eq.symm, ?_⟩
  simp only [leftAfter, Sweep.round, taken]
  rcases done with
    ⟨enough, filled⟩ | ⟨less, middle, reached, filled⟩
  · -- the pool takes all that is left
    have whole : found = state.remainOrders :=
      BitVec.le_antisymm (BitVec.le_def.mpr bounded) enough
    obtain ⟨samePool, sameFills, left, holds, swaps⟩ := stands.takes wide
      lawful otherOrderer searched (BitVec.le_def.mpr bounded)
      (.inr (whole ▸ filled))
    rw [whole, Nat.sub_self] at left
    have finished : ¬ 0 < next.remainOrders := by
      simp [BitVec.lt_def, left]
    refine ⟨by simp [left, whole], ⟨samePool ▸ stands.sameTerms,
      ⟨books, samePool ▸ refines⟩, fun more => absurd more finished,
      holds⟩, swaps, ⟨[], by simp [sameFills], by simp, ?_⟩, ?_⟩
    · simp [whole]
    · rw [samePool, refines.ladder_eq, PriceMap.inOrder_levels bound first]
      simp [whole]
  · obtain ⟨samePool, sameFills, left, holds, swaps⟩ := stands.takes wide
      lawful otherOrderer searched (BitVec.le_def.mpr bounded) reached
    rw [← samePool] at refines
    obtain ⟨sameLedger, sameSwaps, sameTerms, remain, fills, after,
      afterRefines, erased, leaves⟩ :=
      fillsLevel (by omega) refines bound filled
    rw [left] at remain fills leaves
    refine ⟨remain, ⟨(samePool ▸ stands.sameTerms).trans sameTerms,
      ⟨after, afterRefines⟩, fun more => ?_, sameLedger ▸ holds⟩, ?_, ?_,
      fun level member => ?_⟩
    · rw [afterRefines.ladder_eq, erased more]
    · unfold AddsSwap at swaps ⊢
      rw [sameLedger, sameSwaps]
      exact swaps
    · unfold AddsFills at fills ⊢
      rw [sameFills] at fills
      exact fills
    · rw [afterRefines.ladder_eq] at member
      rcases leaves level ((inOrder_perm _ _).mem_iff.mp member) with
        rfl | other
      · exact List.mem_cons_self
      · exact List.mem_cons_of_mem _ ((inOrder_perm _ _).mem_iff.mpr other)

end Round

section Whole

variable [DecidableEq Account] [DecidableEq Asset]
  {config : Config w Account Asset} {isBid : Bool} {orderer : Account}
  {base quote : Asset} {pool : Pool w Account} {reserves : Reserves}
  {state next : MatchState w Account Asset} {ladder : List Level}

/-- What the rounds of a sweep have left in the records of matching. -/
structure Records
    (config : Config w Account Asset)
    (base quote : Asset)
    (pool : Pool w Account)
    (start : Reserves)
    (done : List (Round Reserves))
    (state : MatchState w Account Asset) : Prop where
  ofFill :
    ∀ fill ∈ state.filledOrders,
      ∃ round ∈ done,
        round.filled ≠ 0 ∧ fill.2.1.toNat = round.level.price
  ofRound :
    ∀ round ∈ done,
      round.filled ≠ 0 →
        ∃ fill ∈ state.filledOrders,
          fill.2.1.toNat = round.level.price
  ofSwap :
    ∀ swap ∈ state.swaps,
      config.Priced pool base quote swap.2 ∧
        ∃ round ∈ done,
          config.HoldsReserves base quote swap.2 round.state
  last :
    config.HoldsReserves base quote state.ledger start ∨
      ∃ swap ∈ state.swaps, swap.2 = state.ledger

omit [DecidableEq Account] in
/-- The records grow by those of a round. -/
theorem Records.round
    {start : Reserves}
    {done : List (Round Reserves)}
    {latest : Round Reserves}
    (records : config.Records base quote pool start done state)
    (holds : config.HoldsReserves base quote next.ledger latest.state)
    (swaps :
      config.AddsSwap base quote pool latest.taken state next)
    (fills : AddsFills latest.level latest.filled state next) :
    config.Records base quote pool start (done ++ [latest]) next := by
  have listed : latest ∈ done ++ [latest] :=
    List.mem_append_right _ (List.mem_singleton_self _)
  obtain ⟨new, filledOrders, prices, nothing⟩ := fills
  refine ⟨?_, ?_, ?_, ?_⟩
  · intro fill member
    rw [filledOrders] at member
    rcases List.mem_append.mp member with earlier | added
    · obtain ⟨round, member, filled⟩ := records.ofFill fill earlier
      exact ⟨round, List.mem_append_left _ member, filled⟩
    · refine ⟨latest, listed, fun none => ?_, prices fill added⟩
      rw [nothing.mpr none] at added
      cases added
  · intro round member filled
    rw [filledOrders]
    rcases List.mem_append.mp member with earlier | same
    · obtain ⟨fill, member, price⟩ := records.ofRound round earlier filled
      exact ⟨fill, List.mem_append_left _ member, price⟩
    · rw [List.mem_singleton] at same
      subst same
      obtain ⟨fill, added⟩ :=
        List.exists_mem_of_ne_nil new (mt nothing.mp filled)
      exact ⟨fill, List.mem_append_right _ added, prices fill added⟩
  · intro swap member
    rcases swaps with ⟨_, same, _⟩ | ⟨_, priced, quantity, _, added⟩
    · rw [same] at member
      obtain ⟨priced, round, member, held⟩ := records.ofSwap swap member
      exact ⟨priced, round, List.mem_append_left _ member, held⟩
    · rw [added] at member
      rcases List.mem_append.mp member with earlier | same
      · obtain ⟨priced, round, member, held⟩ := records.ofSwap swap earlier
        exact ⟨priced, round, List.mem_append_left _ member, held⟩
      · rw [List.mem_singleton.mp same]
        exact ⟨priced, latest, listed, holds⟩
  · rcases swaps with ⟨_, same, sameLedger⟩ | ⟨_, _, quantity, _, added⟩
    · rw [same, sameLedger]
      exact records.last
    · rw [added]
      exact .inr ⟨_, List.mem_append_right _ (List.mem_singleton_self _),
        rfl⟩

omit [DecidableEq Account] in
/-- What the pool was asked for grows by what a round takes. -/
theorem AddsSwap.fromPool
    {taken : Nat}
    (swaps : config.AddsSwap base quote pool taken state next) :
    next.fromPool = state.fromPool + taken := by
  unfold MatchState.fromPool
  rcases swaps with ⟨rfl, same, _⟩ | ⟨_, _, quantity, rfl, added⟩
  · rw [same, Nat.add_zero]
  · simp [added]

/-- A matching state that a sweep has come to, after the rounds so far. -/
structure SweptTo
    (config : Config w Account Asset)
    (isBid : Bool)
    (base quote : Asset)
    (pool : Pool w Account)
    (ladder : List Level)
    (reserves : Reserves)
    (quantity : Nat)
    (done : List (Round Reserves))
    (rest : List Level)
    (left : Reserves)
    (state : MatchState w Account Asset) : Prop where
  records : config.Records base quote pool reserves done state
  stands : config.Stands isBid base quote pool rest left state
  rounds_eq :
    rounds (config.venue pool isBid) ladder reserves quantity =
      done ++ rounds (config.venue pool isBid) rest left
        state.remainOrders.toNat
  final_eq :
    final (config.venue pool isBid) ladder reserves quantity =
      final (config.venue pool isBid) rest left state.remainOrders.toNat
  traded_eq :
    traded (config.venue pool isBid) ladder reserves quantity =
      state.fromPool +
        traded (config.venue pool isBid) rest left
          state.remainOrders.toNat
  leftover_eq :
    0 < state.remainOrders.toNat →
      leftover (config.venue pool isBid) ladder reserves quantity =
        leftover (config.venue pool isBid) rest left
          state.remainOrders.toNat
  leaves :
    state.remainOrders.toNat = 0 →
      ∀ level ∈ state.pool.ladder isBid,
        level ∈ leftover (config.venue pool isBid) ladder reserves quantity

/-- A matching state that a sweep has come to. -/
def Sweeps
    (config : Config w Account Asset)
    (isBid : Bool)
    (base quote : Asset)
    (pool : Pool w Account)
    (ladder : List Level)
    (reserves : Reserves)
    (quantity : Nat)
    (state : MatchState w Account Asset) : Prop :=
  ∃ done rest left,
    config.SweptTo isBid base quote pool ladder reserves quantity done rest
      left state

theorem Sweeps.round
    (wide : 64 ≤ w)
    (lawful : config.Lawful)
    (otherOrderer : orderer ≠ config.address (base, quote))
    {quantity : Nat}
    (sweeps :
      config.Sweeps isBid base quote pool ladder reserves quantity state)
    (stepped :
      config.checked.matchBody isBid orderer base quote state =
        .ok (.inl next)) :
    config.Sweeps isBid base quote pool ladder reserves quantity next := by
  obtain ⟨done, _, left, swept⟩ := sweeps
  obtain ⟨level, rest, rfl, remain, after, swaps, fills, leaves⟩ :=
    swept.stands.round wide lawful otherOrderer stepped
  have unfinished : 0 < state.remainOrders.toNat :=
    BitVec.lt_def.mp (matchBody_round stepped).1
  have rounds_eq := swept.rounds_eq
  have final_eq := swept.final_eq
  have traded_eq := swept.traded_eq
  have leftover_eq := swept.leftover_eq unfinished
  rw [rounds_cons unfinished, ← remain] at rounds_eq
  rw [final_cons unfinished, ← remain] at final_eq
  rw [traded_cons unfinished, ← remain, ← Nat.add_assoc,
    ← swaps.fromPool] at traded_eq
  refine ⟨_, rest, _, swept.records.round after.holds swaps fills, after,
    by rw [rounds_eq, List.append_assoc, List.singleton_append], final_eq,
    traded_eq, fun more => ?_, fun finished => ?_⟩
  · rw [leftover_eq, leftover_of_more (remain ▸ more), ← remain]
  · rw [leftover_eq, leftover_of_done (remain.symm.trans finished)]
    exact leaves

/-- What a whole order leaves in the records and in the reserves. -/
structure Swept
    (config : Config w Account Asset)
    (isBid : Bool)
    (base quote : Asset)
    (pool : Pool w Account)
    (ladder : List Level)
    (reserves : Reserves)
    (quantity : Nat)
    (state : MatchState w Account Asset) : Prop where
  ofFill :
    ∀ fill ∈ state.filledOrders,
      ∃ round ∈ rounds (config.venue pool isBid) ladder reserves quantity,
        round.filled ≠ 0 ∧ fill.2.1.toNat = round.level.price
  ofRound :
    ∀ round ∈ rounds (config.venue pool isBid) ladder reserves quantity,
      round.filled ≠ 0 →
        ∃ fill ∈ state.filledOrders,
          fill.2.1.toNat = round.level.price
  ofSwap :
    ∀ swap ∈ state.swaps,
      config.HoldsReserves base quote swap.2
          (final (config.venue pool isBid) ladder reserves quantity) ∨
        config.Priced pool base quote swap.2 ∧
          ∃ round ∈
            rounds (config.venue pool isBid) ladder reserves quantity,
            config.HoldsReserves base quote swap.2 round.state
  last :
    config.HoldsReserves base quote state.ledger reserves ∨
      ∃ swap ∈ state.swaps, swap.2 = state.ledger
  holds :
    config.HoldsReserves base quote state.ledger
      (final (config.venue pool isBid) ladder reserves quantity)
  fromPool :
    state.fromPool =
      traded (config.venue pool isBid) ladder reserves quantity
  leaves :
    ∀ level ∈ state.pool.ladder isBid,
      level ∈ leftover (config.venue pool isBid) ladder reserves quantity

/-- The end of matching is the end of the sweep. -/
theorem Sweeps.done
    (lawful : config.Lawful)
    (otherOrderer : orderer ≠ config.address (base, quote))
    {quantity : Nat}
    (sweeps :
      config.Sweeps isBid base quote pool ladder reserves quantity state)
    (exhausted :
      0 < state.remainOrders → state.pool.nextOrder isBid = none)
    (finished :
      (if state.remainOrders > 0 then
        config.checked.fillFromPool isBid orderer base quote
          state.remainOrders state
      else .ok state) = .ok next) :
    config.Swept isBid base quote pool ladder reserves quantity next := by
  obtain ⟨done, rest, left, records, stands, rounds_eq, final_eq, traded_eq,
    _, leaves⟩ := sweeps
  by_cases unfinished : state.remainOrders > 0
  · -- the ladder is used up, and the pool takes the rest
    have empty : state.pool.ladder isBid = [] := by
      obtain ⟨books, refines⟩ := stands.refines
      rw [refines.ladder_eq,
        refines.nextOrder_eq_none_iff.mp (exhausted unfinished)]
      simp [PriceMap.levels, inOrder, Std.ExtTreeMap.toList_eq_nil_iff.mpr]
    obtain rfl : rest = [] := (stands.ladder unfinished).symm.trans empty
    rw [if_pos unfinished] at finished
    have holds := holds_of_fillFromPool pool lawful otherOrderer stands.holds
      finished
    rw [rounds, List.append_nil] at rounds_eq
    rw [final] at final_eq
    rw [traded] at traded_eq
    rw [← final_eq] at holds
    obtain ⟨_, next_eq⟩ := fillFromPool_eq_ok finished
    rw [← rounds_eq] at records
    refine ⟨?_, ?_, ?_, ?_, holds, ?_, ?_⟩
    · rw [next_eq]
      exact records.ofFill
    · rw [next_eq]
      exact records.ofRound
    · intro swap member
      rw [next_eq] at member
      rcases List.mem_append.mp member with earlier | same
      · exact .inr (records.ofSwap swap earlier)
      · rw [List.mem_singleton.mp same]
        exact .inl holds
    · rw [next_eq]
      exact .inr ⟨_, List.mem_append_right _ (List.mem_singleton_self _),
        rfl⟩
    · rw [traded_eq, next_eq]
      simp [MatchState.fromPool]
    · rw [next_eq]
      simp [empty]
  · have zero : state.remainOrders.toNat = 0 := by
      simpa [BitVec.lt_def] using unfinished
    rw [zero, rounds_zero, List.append_nil] at rounds_eq
    rw [zero, final_zero] at final_eq
    rw [zero, traded_zero, Nat.add_zero] at traded_eq
    rw [if_neg unfinished, Except.ok.injEq] at finished
    subst finished
    rw [← rounds_eq] at records
    refine ⟨records.ofFill, records.ofRound,
      fun swap member => .inr (records.ofSwap swap member), records.last, ?_,
      traded_eq.symm, leaves zero⟩
    rw [final_eq]
    exact stands.holds

omit [DecidableEq Account] in
theorem sweeps_start
    {books : Bool → PriceMap w Account}
    (refines : pool.Refines books)
    {ledger : Ledger w Account Asset}
    (holds : config.HoldsReserves base quote ledger reserves)
    (isBid : Bool)
    (quantity : BitVec w) :
    config.Sweeps isBid base quote pool (pool.ladder isBid) reserves
      quantity.toNat ⟨quantity, pool, ledger, [], []⟩ := by
  refine ⟨[], pool.ladder isBid, reserves, ?_, ?_, rfl, rfl, ?_,
    fun _ => rfl, fun none level member => ?_⟩
  · exact ⟨List.forall_mem_nil _, List.forall_mem_nil _,
      List.forall_mem_nil _, .inl holds⟩
  · exact ⟨.refl pool, ⟨books, refines⟩, fun _ => rfl, holds⟩
  · simp [MatchState.fromPool]
  · rw [none, leftover_zero]
    exact member

/-- Where nothing overflows, matching an order sweeps the ladder. -/
theorem swept_of_matchOrders
    (wide : 64 ≤ w)
    (lawful : config.Lawful)
    (otherOrderer : orderer ≠ config.address (base, quote))
    {books : Bool → PriceMap w Account}
    (refines : pool.Refines books)
    {ledger : Ledger w Account Asset}
    (holds : config.HoldsReserves base quote ledger reserves)
    {quantity : BitVec w}
    (matched :
      config.checked.matchOrders isBid orderer base quote pool quantity
        ledger = .ok state) :
    config.Swept isBid base quote pool (pool.ladder isBid) reserves
      quantity.toNat state := by
  simp only [matchOrders, bind_eq_ok_iff] at matched
  obtain ⟨exit, looped, finished⟩ := matched
  have atExit :
      config.Sweeps isBid base quote pool (pool.ladder isBid) reserves
          quantity.toNat exit ∧
        (0 < exit.remainOrders → exit.pool.nextOrder isBid = none) := by
    refine Loop.loop_invariant
      (config.Sweeps isBid base quote pool (pool.ladder isBid) reserves
        quantity.toNat)
      (fun exit => config.Sweeps isBid base quote pool (pool.ladder isBid)
          reserves quantity.toNat exit ∧
        (0 < exit.remainOrders → exit.pool.nextOrder isBid = none))
      ?_ ?_ (sweeps_start refines holds isBid quantity) looped
    · intro state next sweeps stepped
      exact sweeps.round wide lawful otherOrderer stepped
    · intro state result sweeps stepped
      obtain ⟨rfl, exhausted⟩ := matchBody_done stepped
      exact ⟨sweeps, exhausted⟩
  exact atExit.1.done lawful otherOrderer atExit.2 finished

end Whole

end Config

end HybridOrderbook
