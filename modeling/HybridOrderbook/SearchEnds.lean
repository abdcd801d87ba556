import HybridOrderbook.Library.Rounds
import HybridOrderbook.PriceRange
import Mathlib.Data.BitVec

namespace HybridOrderbook

open Library Bisection

/-!
# The end of the search

Every round of `find_max_swap_quantity` that stays in range leaves a narrower
interval, so that a search without wrapped bounds ends.  Whether a bound wraps
shows at the largest and the smallest quantity that the search probes.

A bound that wraps may leave a wider interval: the upper bound goes below zero
if the middle is less than one base asset, and the bisection starts again from
the top of the range.  For a bid the next probe then asks for more than the
pool has, which ends the search with an error.  For an ask nothing refuses it.
-/

variable {w : Nat} {Account Asset : Type}

/-- One base asset, which the bounds of the search move by. -/
def Pool.searchStep (pool : Pool w Account) : Nat :=
  wrappedScale w 1 pool.baseDecimals.toNat

namespace SearchState

/-- The width of the interval. -/
def width (state : SearchState w) : Nat :=
  state.max.toNat - state.min.toNat

/-- The variables as a triple, of which there are finitely many. -/
def triple (state : SearchState w) : BitVec w × BitVec w × BitVec w :=
  (state.min, state.max, state.swapQuantity)

theorem triple_injective : Function.Injective (triple (w := w)) := by
  rintro ⟨_, _, _⟩ ⟨_, _, _⟩ same
  simp only [triple, Prod.mk.injEq] at same
  obtain ⟨rfl, rfl, rfl⟩ := same
  rfl

end SearchState

namespace Config

variable (config : Config w Account Asset) (pool : Pool w Account)
  (isBid : Bool) (target baseReserve quoteReserve : BitVec w)

/-- The search ends, with a quantity or an error. -/
def SearchEnds (remainOrders : BitVec w) : Prop :=
  Loop.Ends (config.searchBody pool isBid target baseReserve quoteReserve)
    ⟨0, remainOrders, 0⟩

/-- The search, with its probes and its step as the build computes them. -/
def builtSearch (moves : 0 < pool.searchStep) : Search where
  probe quantity :=
    if quantity < 2 ^ w then
      (config.priceAfter pool isBid baseReserve quoteReserve
        (BitVec.ofNat w quantity)).toOption.map fun price =>
          priceVerdict isBid target.toNat price.toNat
    else
      none
  step := pool.searchStep
  positive := moves
  kept := if isBid then .near else .past

/-- No bound of the interval wraps in a round, and one of them can move. -/
def StaysInRange (state : SearchState w) : Prop :=
  ∃ moves,
    (config.builtSearch pool isBid target baseReserve quoteReserve
      moves).InRange (2 ^ w) state.interval

/--
The largest and the smallest quantity that the search probes leave the bounds
in range.
-/
def BoundsFit (remainOrders : BitVec w) : Prop :=
  remainOrders = 0 ∨
    ∃ moves,
      (config.builtSearch pool isBid target baseReserve quoteReserve
        moves).EndsInRange (2 ^ w) remainOrders.toNat

/--
A bid that the pool refuses after its upper bound has wrapped: the middle of
the wrapped interval is more than the base reserve.  A bound of one less than
zero is the exception, as the sum of the bounds then wraps as well.
-/
structure RefusedWhenWrapped (remainOrders : BitVec w) : Prop where
  bid : isBid = true
  half : 2 * remainOrders.toNat < 2 ^ w
  reserve : 2 * (baseReserve.toNat + pool.searchStep) ≤ 2 ^ w
  lowest :
    ∃ moves,
      (config.builtSearch pool isBid target baseReserve quoteReserve
          moves).probe
          ((config.builtSearch pool isBid target baseReserve quoteReserve
            moves).lowest remainOrders.toNat) = some .past →
        (config.builtSearch pool isBid target baseReserve quoteReserve
          moves).lowest remainOrders.toNat + 1 ≠ pool.searchStep

variable {config pool isBid target baseReserve quoteReserve}
  {state next : SearchState w}

theorem builtSearch_probe
    {moves : 0 < pool.searchStep}
    {quantity : BitVec w} :
    (config.builtSearch pool isBid target baseReserve quoteReserve
        moves).probe quantity.toNat =
      (config.priceAfter pool isBid baseReserve quoteReserve
        quantity).toOption.map fun price =>
          priceVerdict isBid target.toNat price.toNat := by
  simp [builtSearch, quantity.isLt]

section Follows

variable (wide : 64 ≤ w) (moves : 0 < pool.searchStep)

include wide

/-- What a round that goes on has probed, and how far its bounds move. -/
theorem searchBody_moves
    (sum : state.interval.low + state.interval.high + 1 < 2 ^ w)
    (stepped :
      config.searchBody pool isBid target baseReserve quoteReserve state =
        .ok (.inl next)) :
    state.interval.low < state.interval.high ∧
      ∃ (mid step : BitVec w) (price : BitVec w),
        mid.toNat = state.interval.middle ∧
          step.toNat = pool.searchStep ∧
          config.priceAfter pool isBid baseReserve quoteReserve mid =
            .ok price ∧
          ((config.builtSearch pool isBid target baseReserve quoteReserve
                moves).probe state.interval.middle = some .near ∧
              next.min = mid + step ∧ next.max = state.max ∧
              next.swapQuantity =
                (if isBid then mid else state.swapQuantity) ∨
            (config.builtSearch pool isBid target baseReserve quoteReserve
                moves).probe state.interval.middle = some .past ∧
              next.min = state.min ∧ next.max = mid - step ∧
              next.swapQuantity =
                if isBid then state.swapQuantity else mid) := by
  obtain ⟨nonempty, mid, price, step, computed, priced, differs, normalized,
    recorded, bounds⟩ := searchBody_goesOn stepped
  obtain ⟨_, alsoComputed, midExact⟩ := config.middle_of_fits wide sum
  obtain rfl := Except.ok.inj (alsoComputed.symm.trans computed)
  have stepExact : step.toNat = pool.searchStep := by
    rw [toNat_eq_wrappedScale wide normalized, toNat_one wide]
    rfl
  refine ⟨nonempty, _, step, price, midExact, stepExact, priced, ?_⟩
  rw [← midExact, builtSearch_probe, priced]
  have differs : price.toNat ≠ target.toNat :=
    fun same => differs (BitVec.eq_of_toNat_eq same)
  split at bounds
  · rename_i goesUp
    refine .inl ⟨?_, Machine.eq_of_add bounds.1, bounds.2, ?_⟩
    · refine congrArg some (priceVerdict_eq_near_iff.mpr ⟨differs, ?_⟩)
      rw [goesUp]
      simp [BitVec.lt_def]
    · rw [recorded]
      cases isBid <;> simp_all
  · rename_i goesDown
    refine .inr ⟨?_, bounds.2, Machine.eq_of_sub bounds.1, ?_⟩
    · refine congrArg some (goesDown_iff_past.mpr ⟨differs, ?_⟩)
      rw [Bool.eq_not_of_ne goesDown]
      simp [BitVec.lt_def]
    · rw [recorded]
      cases isBid <;> simp_all

/-- A round in range is a round of the bisection. -/
theorem interval_of_searchBody
    (inRange :
      (config.builtSearch pool isBid target baseReserve quoteReserve
        moves).InRange (2 ^ w) state.interval)
    (stepped :
      config.searchBody pool isBid target baseReserve quoteReserve state =
        .ok (.inl next)) :
    (config.builtSearch pool isBid target baseReserve quoteReserve
          moves).probe state.interval.middle = some .near ∧
        next.interval =
          (config.builtSearch pool isBid target baseReserve quoteReserve
            moves).raise state.interval ∨
      (config.builtSearch pool isBid target baseReserve quoteReserve
            moves).probe state.interval.middle = some .past ∧
        next.interval =
          (config.builtSearch pool isBid target baseReserve quoteReserve
            moves).lower state.interval := by
  obtain ⟨_, mid, step, _, midExact, stepExact, _,
    ⟨probed, minNext, maxNext, kept⟩ | ⟨probed, minNext, maxNext, kept⟩⟩ :=
    searchBody_moves wide moves inRange.sum stepped
  · have fits : state.interval.middle + pool.searchStep < 2 ^ w :=
      inRange.raised probed
    rw [← midExact, ← stepExact] at fits
    have raised :
        next.min.toNat = state.interval.middle + pool.searchStep := by
      rw [minNext, BitVec.toNat_add, Nat.mod_eq_of_lt fits, midExact,
        stepExact]
    refine .inl ⟨probed, ?_⟩
    rw [SearchState.interval, raised, maxNext, kept]
    cases isBid with
    | true =>
        rw [if_pos rfl, midExact]
        rfl
    | false =>
        rfl
  · have fits : pool.searchStep ≤ state.interval.middle :=
      inRange.lowered probed
    rw [← midExact, ← stepExact] at fits
    have lowered :
        next.max.toNat = state.interval.middle - pool.searchStep := by
      rw [maxNext, BitVec.toNat_sub_of_le (BitVec.le_def.mpr fits), midExact,
        stepExact]
    refine .inr ⟨probed, ?_⟩
    rw [SearchState.interval, lowered, minNext, kept]
    cases isBid with
    | true =>
        rfl
    | false =>
        rw [if_neg Bool.false_ne_true, midExact]
        rfl

/-- A search whose rounds are all in range ends. -/
theorem ends_of_inRange
    {state : SearchState w}
    {interval : Interval}
    (inRange :
      ∀ visited ∈
        (config.builtSearch pool isBid target baseReserve quoteReserve
          moves).visited interval,
        (config.builtSearch pool isBid target baseReserve quoteReserve
          moves).InRange (2 ^ w) visited)
    (same : state.interval = interval) :
    Loop.Ends
      (config.searchBody pool isBid target baseReserve quoteReserve)
      state := by
  refine .of_round fun next stepped => ?_
  have nonempty : interval.low < interval.high :=
    same ▸ (searchBody_goesOn stepped).1
  have here := inRange interval (Search.mem_visited nonempty _)
  rw [← same] at here
  -- the interval that is left is the next one of the bisection
  rcases interval_of_searchBody wide moves here stepped with
    ⟨probed, leaves⟩ | ⟨probed, leaves⟩
  · rw [same] at probed leaves
    have shrinks := Search.raise_shrinks
      (config.builtSearch pool isBid target baseReserve quoteReserve moves)
      nonempty
    rw [Search.visited_of_near nonempty probed] at inRange
    exact ends_of_inRange (List.forall_mem_cons.mp inRange).2 leaves
  · rw [same] at probed leaves
    have shrinks := Search.lower_shrinks
      (config.builtSearch pool isBid target baseReserve quoteReserve moves)
      nonempty
    rw [Search.visited_of_past nonempty probed] at inRange
    exact ends_of_inRange (List.forall_mem_cons.mp inRange).2 leaves
termination_by interval.high - interval.low

/-- Without overflow checks, a round whose probe has not met goes on. -/
theorem exists_searchBody_of_probe
    (unchecked : config.overflowChecks = false)
    (nonempty : state.interval.low < state.interval.high)
    (sum : state.interval.low + state.interval.high + 1 < 2 ^ w)
    {verdict : Verdict}
    (probed :
      (config.builtSearch pool isBid target baseReserve quoteReserve
        moves).probe state.interval.middle = some verdict)
    (differs : verdict ≠ .met) :
    ∃ next,
      config.searchBody pool isBid target baseReserve quoteReserve state =
        .ok (.inl next) := by
  obtain ⟨mid, computed, midExact⟩ := config.middle_of_fits wide sum
  rw [← midExact, builtSearch_probe, Option.map_eq_some_iff] at probed
  obtain ⟨price, priced, rfl⟩ := probed
  have unmet : price ≠ target := fun met =>
    differs (priceVerdict_eq_met_iff.mpr (congrArg BitVec.toNat met))
  obtain ⟨step, normalized⟩ :=
    normalize_unchecked (1 : BitVec w) (some pool.baseDecimals)
  rw [searchBody_of_price (interval_nonempty_iff.mp nonempty) computed
    (toOption_eq_some_iff.mp priced) unmet, unchecked, normalized, ok_bind]
  split
  · exact ⟨_, rfl⟩
  · exact ⟨_, rfl⟩

/-- A search of which some round is not in range gets to such a round. -/
theorem exists_round_of_not_inRange
    (unchecked : config.overflowChecks = false)
    {state : SearchState w}
    {interval visited : Interval}
    (member :
      visited ∈
        (config.builtSearch pool isBid target baseReserve quoteReserve
          moves).visited interval)
    (outside :
      ¬ (config.builtSearch pool isBid target baseReserve quoteReserve
        moves).InRange (2 ^ w) visited)
    (same : state.interval = interval) :
    ∃ count reached,
      Loop.rounds
          (config.searchBody pool isBid target baseReserve quoteReserve)
          count state = some reached ∧
        reached.min < reached.max ∧
        ¬ (config.builtSearch pool isBid target baseReserve quoteReserve
          moves).InRange (2 ^ w) reached.interval := by
  by_cases nonempty : interval.low < interval.high
  swap
  · rw [Search.visited_of_empty nonempty] at member
    cases member
  subst same
  by_cases here :
      (config.builtSearch pool isBid target baseReserve quoteReserve
        moves).InRange (2 ^ w) state.interval
  swap
  · exact ⟨0, state, rfl, interval_nonempty_iff.mp nonempty, here⟩
  have later : visited ≠ state.interval := fun same => outside (same ▸ here)
  -- a round in range is followed by the rest of the bisection
  cases probed :
      (config.builtSearch pool isBid target baseReserve quoteReserve
        moves).probe state.interval.middle with
  | none =>
      rw [Search.visited_of_none nonempty probed] at member
      exact absurd (List.mem_singleton.mp member) later
  | some verdict =>
      by_cases met : verdict = .met
      · rw [met] at probed
        rw [Search.visited_of_met nonempty probed] at member
        exact absurd (List.mem_singleton.mp member) later
      obtain ⟨next, stepped⟩ := exists_searchBody_of_probe wide moves
        unchecked nonempty here.sum probed met
      have follows :
          ∃ rest,
            next.interval = rest ∧
              rest.high - rest.low <
                state.interval.high - state.interval.low ∧
              visited ∈
                (config.builtSearch pool isBid target baseReserve
                  quoteReserve moves).visited rest := by
        rcases interval_of_searchBody wide moves here stepped with
          ⟨raised, leaves⟩ | ⟨lowered, leaves⟩
        · rw [Search.visited_of_near nonempty raised] at member
          exact ⟨_, leaves, Search.raise_shrinks _ nonempty,
            (List.mem_cons.mp member).resolve_left later⟩
        · rw [Search.visited_of_past nonempty lowered] at member
          exact ⟨_, leaves, Search.lower_shrinks _ nonempty,
            (List.mem_cons.mp member).resolve_left later⟩
      obtain ⟨rest, leaves, shrinks, member⟩ := follows
      obtain ⟨count, reached, goes, unfinished, wraps⟩ :=
        exists_round_of_not_inRange unchecked member outside leaves
      exact ⟨count + 1, reached,
        Loop.rounds_succ_eq_some_iff.mpr ⟨next, stepped, goes⟩, unfinished,
        wraps⟩
termination_by interval.high - interval.low

end Follows

section Refused

variable (config pool target baseReserve quoteReserve)

/--
A bid that has come down from the top of its interval and wrapped no bound:
the lower bound has not moved yet, or it is at least one base asset.
-/
structure ComesDown
    (moves : 0 < pool.searchStep)
    (total : Nat)
    (state : SearchState w) : Prop where
  half : 2 * state.max.toNat < 2 ^ w
  low :
    pool.searchStep ≤ state.min.toNat ∨
      state.min.toNat = 0 ∧
        (0 < state.max.toNat →
          (config.builtSearch pool true target baseReserve quoteReserve
                moves).descend state.interval.middle =
            (config.builtSearch pool true target baseReserve quoteReserve
              moves).lowest total)

/-- A bid whose upper bound has wrapped to the top of the range. -/
structure Wrapped (state : SearchState w) : Prop where
  low : state.min.toNat = 0
  high : 2 ^ w ≤ state.max.toNat + pool.searchStep
  sum : state.max.toNat + 1 < 2 ^ w

variable {config pool target baseReserve quoteReserve}

/-- The pool sells less than its base reserve. -/
theorem lt_of_priceAfter
    {quantity price : BitVec w}
    (priced :
      config.priceAfter pool true baseReserve quoteReserve quantity =
        .ok price) :
    quantity.toNat < baseReserve.toNat := by
  obtain ⟨amount, swapped, _⟩ := bind_eq_ok_iff.mp priced
  exact lt_of_getAmountIn swapped

variable (wide : 64 ≤ w) (moves : 0 < pool.searchStep)
  (reserve : 2 * (baseReserve.toNat + pool.searchStep) ≤ 2 ^ w)

include wide moves reserve

/-- The probe after a wrapped bound asks for more than the pool has. -/
theorem ends_of_wrapped (wrapped : Wrapped pool state) :
    Loop.Ends (config.searchBody pool true target baseReserve quoteReserve)
      state := by
  refine .of_round fun next stepped => ?_
  have sum : state.interval.low + state.interval.high + 1 < 2 ^ w := by
    change state.min.toNat + state.max.toNat + 1 < 2 ^ w
    have low := wrapped.low
    have sum := wrapped.sum
    omega
  obtain ⟨_, mid, step, price, midExact, _, priced, _⟩ :=
    searchBody_moves wide moves sum stepped
  have available := lt_of_priceAfter priced
  have half : mid.toNat = (state.min.toNat + state.max.toNat + 1) / 2 :=
    midExact
  have low := wrapped.low
  have high := wrapped.high
  omega

/-- A round comes down further, or wraps the upper bound. -/
theorem comesDown_of_searchBody
    {total : Nat}
    (lowest :
      (config.builtSearch pool true target baseReserve quoteReserve
          moves).probe
          ((config.builtSearch pool true target baseReserve quoteReserve
            moves).lowest total) = some .past →
        (config.builtSearch pool true target baseReserve quoteReserve
          moves).lowest total + 1 ≠ pool.searchStep)
    (down :
      config.ComesDown pool target baseReserve quoteReserve moves total
        state)
    (stepped :
      config.searchBody pool true target baseReserve quoteReserve state =
        .ok (.inl next)) :
    config.ComesDown pool target baseReserve quoteReserve moves total
          next ∧
        next.width < state.width ∨
      Wrapped pool next := by
  have half := down.half
  have unfinished : state.min.toNat < state.max.toNat :=
    BitVec.lt_def.mp (searchBody_goesOn stepped).1
  have sum : state.interval.low + state.interval.high + 1 < 2 ^ w := by
    change state.min.toNat + state.max.toNat + 1 < 2 ^ w
    omega
  obtain ⟨_, mid, step, price, midExact, stepExact, priced, moved⟩ :=
    searchBody_moves wide moves sum stepped
  have middle :
      state.interval.middle = (state.min.toNat + state.max.toNat + 1) / 2 :=
    rfl
  rcases moved with
    ⟨_, minNext, maxNext, _⟩ | ⟨probed, minNext, maxNext, _⟩
  · -- the pool sells the middle, so that the lower bound does not wrap
    have available := lt_of_priceAfter priced
    have raised : next.min.toNat = mid.toNat + pool.searchStep := by
      rw [minNext, BitVec.toNat_add, stepExact]
      exact Nat.mod_eq_of_lt (by omega)
    refine .inl ⟨⟨maxNext ▸ half, .inl (by omega)⟩, ?_⟩
    rw [SearchState.width, SearchState.width, raised, maxNext]
    omega
  · by_cases wraps : mid.toNat < pool.searchStep
    · -- the lower bound has not moved, and the middle is the smallest probe
      obtain above | ⟨low, descends⟩ := down.low
      · omega
      have bottom :
          (config.builtSearch pool true target baseReserve quoteReserve
            moves).lowest total = state.interval.middle := by
        rw [← descends (by omega)]
        refine Search.descend_of_stop fun lowers => ?_
        have above : pool.searchStep < state.interval.middle := lowers.2
        omega
      rw [bottom] at lowest
      have exception := lowest probed
      have wrapped :
          next.max.toNat + pool.searchStep = 2 ^ w + mid.toNat := by
        have stepFits := stepExact ▸ step.isLt
        rw [maxNext, BitVec.toNat_sub, stepExact, Nat.mod_eq_of_lt] <;> omega
      exact .inr ⟨minNext ▸ low, by omega, by omega⟩
    · have lowered : next.max.toNat = mid.toNat - pool.searchStep := by
        rw [maxNext, BitVec.toNat_sub_of_le, stepExact]
        rw [BitVec.le_def, stepExact]
        exact Nat.le_of_not_lt wraps
      refine .inl ⟨⟨by omega, ?_⟩, ?_⟩
      · rw [minNext]
        refine down.low.imp_right fun ⟨low, descends⟩ => ⟨low, fun more => ?_⟩
        have leaves :
            next.interval.middle =
              ((config.builtSearch pool true target baseReserve quoteReserve
                moves).lower state.interval).middle := by
          change (next.min.toNat + next.max.toNat + 1) / 2 =
            (state.min.toNat +
              (state.interval.middle - pool.searchStep) + 1) / 2
          rw [minNext, lowered, midExact]
        rw [← descends (by omega), leaves]
        refine (Search.descend_of_lower low probed ?_).symm
        change state.min.toNat < state.interval.middle - pool.searchStep
        omega
      · rw [SearchState.width, SearchState.width, lowered, minNext]
        omega

/-- A bid that has wrapped no bound ends. -/
theorem ends_of_comesDown
    {state : SearchState w}
    {total : Nat}
    (lowest :
      (config.builtSearch pool true target baseReserve quoteReserve
          moves).probe
          ((config.builtSearch pool true target baseReserve quoteReserve
            moves).lowest total) = some .past →
        (config.builtSearch pool true target baseReserve quoteReserve
          moves).lowest total + 1 ≠ pool.searchStep)
    (down :
      config.ComesDown pool target baseReserve quoteReserve moves total
        state) :
    Loop.Ends (config.searchBody pool true target baseReserve quoteReserve)
      state := by
  refine .of_round fun next stepped => ?_
  rcases comesDown_of_searchBody wide moves reserve lowest down stepped with
    ⟨further, narrower⟩ | wrapped
  · exact ends_of_comesDown lowest further
  · exact ends_of_wrapped wide moves reserve wrapped
termination_by state.width

end Refused

section Returns

variable {quantity : BitVec w}

theorem returns_searchBody :
    Returns
      (config.searchBody pool isBid target baseReserve quoteReserve
        state) := by
  have raises {mid step : BitVec w}
      {rest : BitVec w → Outcome (SearchState w ⊕ BitVec w)}
      (returns : ∀ bound, Returns (rest bound)) :
      Returns (Machine.add config.overflowChecks mid step >>= rest) :=
    .bind (returns_of_panic (Machine.failsOnly_add _ _ _)) returns
  have lowers {mid step : BitVec w}
      {rest : BitVec w → Outcome (SearchState w ⊕ BitVec w)}
      (returns : ∀ bound, Returns (rest bound)) :
      Returns (Machine.sub config.overflowChecks mid step >>= rest) :=
    .bind (returns_of_panic (Machine.failsOnly_sub _ _ _)) returns
  unfold searchBody
  split
  · refine .bind (returns_of_panic failsOnly_middle) fun mid => ?_
    refine .bind returns_priceAfter fun price => ?_
    split
    · exact failsOnly_ok _ _
    refine .bind (returns_of_panic (failsOnly_normalize _ _ _))
      fun step => ?_
    split
    · split
      · exact raises fun _ => failsOnly_ok _ _
      · exact lowers fun _ => failsOnly_ok _ _
    · split
      · exact lowers fun _ => failsOnly_ok _ _
      · exact raises fun _ => failsOnly_ok _ _
  · exact failsOnly_ok _ _

end Returns

section Whole

variable (config : Config w Account Asset) (pool : Pool w Account)
  (isBid : Bool) (target baseReserve quoteReserve : BitVec w)

/-- The fuel of the model is enough to see whether the search ends. -/
theorem searchLoop_diverges_iff (remainOrders : BitVec w) :
    config.searchLoop pool isBid target baseReserve quoteReserve
        remainOrders = .error .diverge ↔
      ¬ config.SearchEnds pool isBid target baseReserve quoteReserve
        remainOrders := by
  have words : Nat.card (BitVec w) = 2 ^ w :=
    Nat.card_eq_of_equiv_fin BitVec.equivFin.toEquiv
  have finite : Finite (BitVec w) := .of_equiv _ BitVec.equivFin.symm.toEquiv
  have states : Finite (SearchState w) :=
    .of_injective _ SearchState.triple_injective
  have fewer : Nat.card (SearchState w) ≤ 2 ^ (3 * w) + 1 := by
    calc
      Nat.card (SearchState w) ≤
          Nat.card (BitVec w × BitVec w × BitVec w) :=
        Nat.card_le_card_of_injective _ SearchState.triple_injective
      _ = 2 ^ w * (2 ^ w * 2 ^ w) := by
        rw [Nat.card_prod, Nat.card_prod, words]
      _ = 2 ^ (3 * w) := by
        ring
      _ ≤ 2 ^ (3 * w) + 1 := Nat.le_succ _
  constructor
  · intro diverges ends
    have ended := Loop.rounds_eq_none_of_le fewer
      (Loop.ends_iff_of_finite.mp ends)
    obtain ⟨_, state, _, outcome⟩ := Loop.loop_of_rounds_eq_none ended
    rw [searchLoop] at diverges
    rw [diverges] at outcome
    exact returns_searchBody.ne_diverge outcome.symm
  · intro goesOn
    obtain ⟨state, reached⟩ :=
      Option.ne_none_iff_exists'.mp fun ended => goesOn ⟨_, ended⟩
    exact Loop.loop_of_rounds_eq_some reached

variable {config pool isBid target baseReserve quoteReserve}
  (wide : 64 ≤ w) {remainOrders : BitVec w}

theorem ends_of_not_lt (empty : ¬ state.min < state.max) :
    Loop.Ends (config.searchBody pool isBid target baseReserve quoteReserve)
      state :=
  .of_round fun _ stepped => absurd (searchBody_goesOn stepped).1 empty

include wide

/-- Every round of a search is in range if the ends are. -/
theorem forall_inRange_of_positive
    (moves : 0 < pool.searchStep)
    (positive : (0 : BitVec w) < remainOrders) :
    (∀ interval ∈
        (config.builtSearch pool isBid target baseReserve quoteReserve
          moves).visited (.upTo remainOrders.toNat),
        (config.builtSearch pool isBid target baseReserve quoteReserve
          moves).InRange (2 ^ w) interval) ↔
      (config.builtSearch pool isBid target baseReserve quoteReserve
        moves).EndsInRange (2 ^ w) remainOrders.toNat := by
  refine Search.forall_inRange_iff _ (dvd_pow_self 2 (by omega)) ?_
  simpa [BitVec.lt_def] using positive

/-- A search without wrapped bounds ends. -/
theorem ends_of_boundsFit
    (fits :
      config.BoundsFit pool isBid target baseReserve quoteReserve
        remainOrders) :
    config.SearchEnds pool isBid target baseReserve quoteReserve
      remainOrders := by
  by_cases positive : (0 : BitVec w) < remainOrders
  swap
  · exact ends_of_not_lt positive
  rcases fits with rfl | ⟨moves, ends⟩
  · exact absurd positive (BitVec.lt_irrefl _)
  · exact ends_of_inRange wide moves
      ((forall_inRange_of_positive wide moves positive).mpr ends)
      (SearchState.interval_start _)

/-- A bid that is refused when its upper bound has wrapped ends. -/
theorem ends_of_refusedWhenWrapped
    (refused :
      config.RefusedWhenWrapped pool isBid target baseReserve quoteReserve
        remainOrders) :
    config.SearchEnds pool isBid target baseReserve quoteReserve
      remainOrders := by
  obtain ⟨rfl, half, reserve, moves, lowest⟩ := refused
  refine ends_of_comesDown wide moves reserve lowest ⟨half, .inr ?_⟩
  refine ⟨BitVec.toNat_zero, fun _ => ?_⟩
  rw [SearchState.interval_start]
  simp [Search.lowest, Interval.middle, Interval.upTo]

/-- Any other search comes to a round that is not in range. -/
theorem exists_wrap_of_not_boundsFit
    (unchecked : config.overflowChecks = false)
    (outside :
      ¬ config.BoundsFit pool isBid target baseReserve quoteReserve
        remainOrders) :
    ∃ count state,
      Loop.rounds
          (config.searchBody pool isBid target baseReserve quoteReserve)
          count ⟨0, remainOrders, 0⟩ = some state ∧
        state.min < state.max ∧
        ¬ config.StaysInRange pool isBid target baseReserve quoteReserve
          state := by
  have positive : (0 : BitVec w) < remainOrders := by
    refine BitVec.not_le.mp fun zero => outside (.inl ?_)
    exact BitVec.le_zero_iff.mp zero
  by_cases moves : 0 < pool.searchStep
  swap
  · exact ⟨0, _, rfl, positive, fun ⟨positive, _⟩ => moves positive⟩
  have notAll := mt
    (forall_inRange_of_positive wide moves positive).mp
    fun ends => outside (.inr ⟨moves, ends⟩)
  simp only [not_forall] at notAll
  obtain ⟨visited, member, wraps⟩ := notAll
  obtain ⟨count, reached, goes, unfinished, wraps⟩ :=
    exists_round_of_not_inRange wide moves unchecked member wraps
      (SearchState.interval_start _)
  exact ⟨count, reached, goes, unfinished, fun ⟨_, inRange⟩ =>
    wraps inRange⟩

/-- The bounds fit for less than half the range of a base without decimals. -/
theorem boundsFit_of_wholeAssets
    (whole : pool.baseDecimals = 0)
    (half : 2 * remainOrders.toNat < 2 ^ w) :
    config.BoundsFit pool isBid target baseReserve quoteReserve
      remainOrders := by
  have unit : pool.searchStep = 1 := by
    have fits : 1 < 2 ^ w := Nat.one_lt_two_pow (by omega)
    simp [Pool.searchStep, wrappedScale, whole, Nat.mod_eq_of_lt fits]
  have moves : 0 < pool.searchStep := unit ▸ Nat.one_pos
  rcases Nat.eq_zero_or_pos remainOrders.toNat with zero | positive
  · exact .inl (BitVec.eq_of_toNat_eq (by simpa using zero))
  have top := Search.bounds_of_mem_probes
    (Search.isHighest_highest
      (config.builtSearch pool isBid target baseReserve quoteReserve moves)
      positive).mem
  have bottom := Search.bounds_of_mem_probes
    (Search.isLowest_lowest
      (config.builtSearch pool isBid target baseReserve quoteReserve moves)
      positive).mem
  have steps :
      (config.builtSearch pool isBid target baseReserve quoteReserve
        moves).step = 1 := unit
  simp only [Interval.upTo] at top bottom
  exact .inr ⟨moves, by omega, fun _ => by omega, fun _ => by omega⟩

end Whole

end Config

end HybridOrderbook
