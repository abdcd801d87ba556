import HybridOrderbook.Library.Bisection

namespace Library.Bisection.Search

/-!
# The ends of a bisection

Which quantities a bisection probes depends on all of its verdicts, but the
largest and the smallest one do not.  As long as every probe raises, the
middles follow from the total and the step alone, and the first of them that
does not raise is the largest quantity of the whole search; below, it is the
first one that does not lower.  What fits at these two fits in every round.
-/

variable (search : Search)

/-- The last middle of the rounds that raise, from a given one on. -/
def climb (total middle : Nat) : Nat :=
  if search.probe middle = some .near ∧ middle + search.step < total then
    climb total ((middle + search.step + total + 1) / 2)
  else
    middle
termination_by total - middle
decreasing_by
  have positive := search.positive
  omega

/-- The last middle of the rounds that lower, from a given one on. -/
def descend (middle : Nat) : Nat :=
  if search.probe middle = some .past ∧ search.step < middle then
    descend ((middle - search.step + 1) / 2)
  else
    middle
termination_by middle
decreasing_by
  have positive := search.positive
  omega

/-- The largest quantity that is probed. -/
def highest (total : Nat) : Nat :=
  search.climb total ((total + 1) / 2)

/-- The smallest quantity that is probed. -/
def lowest (total : Nat) : Nat :=
  search.descend ((total + 1) / 2)

/-- A probe has an answer. -/
def Answers (quantity : Nat) : Prop :=
  ∃ answer, search.probe quantity = some answer

/-- A quantity is the largest one that is probed in an interval. -/
structure IsHighest (interval : Interval) (top : Nat) : Prop where
  mem : top ∈ search.probes interval
  le : ∀ quantity ∈ search.probes interval, quantity ≤ top
  raised :
    ∀ quantity ∈ search.probes interval,
      quantity < top → search.probe quantity = some .near →
        quantity + search.step ≤ top
  answers :
    ∀ quantity ∈ search.probes interval,
      quantity < top → search.Answers quantity ∨ search.Answers top

/-- A quantity is the smallest one that is probed in an interval. -/
structure IsLowest (interval : Interval) (bottom : Nat) : Prop where
  mem : bottom ∈ search.probes interval
  le : ∀ quantity ∈ search.probes interval, bottom ≤ quantity
  lowered :
    ∀ quantity ∈ search.probes interval,
      bottom < quantity → search.step ≤ quantity
  answers :
    ∀ quantity ∈ search.probes interval,
      bottom < quantity → search.Answers quantity ∨ search.Answers bottom

variable {search} {interval : Interval}

theorem climb_of_raise
    (probed : search.probe interval.middle = some .near)
    (nonempty : (search.raise interval).low < (search.raise interval).high) :
    search.climb interval.high interval.middle =
      search.climb (search.raise interval).high
        (search.raise interval).middle := by
  rw [climb, if_pos ⟨probed, nonempty⟩]
  rfl

theorem climb_of_stop
    (stops :
      ¬ (search.probe interval.middle = some .near ∧
        (search.raise interval).low < (search.raise interval).high)) :
    search.climb interval.high interval.middle = interval.middle := by
  rw [climb]
  exact if_neg stops

theorem descend_of_lower
    (bottom : interval.low = 0)
    (probed : search.probe interval.middle = some .past)
    (nonempty : (search.lower interval).low < (search.lower interval).high) :
    search.descend interval.middle =
      search.descend (search.lower interval).middle := by
  have above : search.step < interval.middle := by
    simp only [lower] at nonempty
    omega
  have next :
      (search.lower interval).middle =
        (interval.middle - search.step + 1) / 2 := by
    change (interval.low + (interval.middle - search.step) + 1) / 2 = _
    rw [bottom, Nat.zero_add]
  rw [descend, if_pos ⟨probed, above⟩, next]

theorem descend_of_stop
    (stops :
      ¬ (search.probe interval.middle = some .past ∧
        search.step < interval.middle)) :
    search.descend interval.middle = interval.middle := by
  rw [descend, if_neg stops]

/-- An interval with one probe has it at both ends. -/
theorem isHighest_of_singleton
    {only : Nat}
    (probes : search.probes interval = [only]) :
    search.IsHighest interval only := by
  refine ⟨?_, ?_, ?_, ?_⟩ <;>
    simp [probes]

theorem isLowest_of_singleton
    {only : Nat}
    (probes : search.probes interval = [only]) :
    search.IsLowest interval only := by
  refine ⟨?_, ?_, ?_, ?_⟩ <;>
    simp [probes]

/-- Where the rounds stop raising is the largest quantity. -/
theorem isHighest_climb
    (search : Search)
    (nonempty : interval.low < interval.high) :
    search.IsHighest interval
      (search.climb interval.high interval.middle) := by
  fun_induction search.visited interval with
  | case1 interval nonempty probed inductionHypothesis =>
      by_cases goesOn :
          (search.raise interval).low < (search.raise interval).high
      · have later := inductionHypothesis goesOn
        have above :
            interval.middle + search.step <
              search.climb (search.raise interval).high
                (search.raise interval).middle :=
          (bounds_of_mem_probes later.mem).1
        rw [climb_of_raise probed goesOn]
        refine ⟨?_, ?_, ?_, ?_⟩ <;>
          rw [probes_of_near nonempty probed]
        · exact List.mem_cons_of_mem _ later.mem
        · exact List.forall_mem_cons.mpr ⟨by omega, later.le⟩
        · exact List.forall_mem_cons.mpr
            ⟨fun _ _ => Nat.le_of_lt above, later.raised⟩
        · exact List.forall_mem_cons.mpr
            ⟨fun _ => .inl ⟨_, probed⟩, later.answers⟩
      · rw [climb_of_stop fun raises => goesOn raises.2]
        refine isHighest_of_singleton ?_
        rw [probes_of_near nonempty probed, probes_of_empty goesOn]
  | case2 interval nonempty probed =>
      -- all that is probed after this round is below it by a step
      have below (quantity : Nat)
          (member : quantity ∈ search.probes (search.lower interval)) :
          quantity + search.step ≤ interval.middle := by
        have bounds := bounds_of_mem_probes member
        simp only [lower] at bounds
        omega
      rw [climb_of_stop (by simp [probed])]
      refine ⟨?_, ?_, ?_, ?_⟩ <;>
        rw [probes_of_past nonempty probed]
      · exact List.mem_cons_self ..
      · refine List.forall_mem_cons.mpr ⟨Nat.le_refl _, ?_⟩
        exact fun quantity member =>
          (Nat.le_add_right ..).trans (below quantity member)
      · refine List.forall_mem_cons.mpr
          ⟨fun less => absurd less (Nat.lt_irrefl _), ?_⟩
        exact fun quantity member _ _ => below quantity member
      · exact fun _ _ _ => .inr ⟨_, probed⟩
  | case3 interval nonempty probed =>
      rw [climb_of_stop (by simp [probed])]
      exact isHighest_of_singleton (probes_of_met nonempty probed)
  | case4 interval nonempty probed =>
      rw [climb_of_stop (by simp [probed])]
      exact isHighest_of_singleton
        (by rw [probes, visited_of_none nonempty probed]; rfl)
  | case5 interval empty =>
      exact absurd nonempty empty

/-- Where the rounds stop lowering is the smallest quantity. -/
theorem isLowest_descend
    (search : Search)
    (bottom : interval.low = 0)
    (nonempty : interval.low < interval.high) :
    search.IsLowest interval (search.descend interval.middle) := by
  fun_induction search.visited interval with
  | case1 interval nonempty probed =>
      -- all that is probed after this round is above it by a step
      have above (quantity : Nat)
          (member : quantity ∈ search.probes (search.raise interval)) :
          interval.middle + search.step < quantity :=
        (bounds_of_mem_probes member).1
      rw [descend_of_stop (by simp [probed])]
      refine ⟨?_, ?_, ?_, ?_⟩ <;>
        rw [probes_of_near nonempty probed]
      · exact List.mem_cons_self ..
      · refine List.forall_mem_cons.mpr ⟨Nat.le_refl _, ?_⟩
        exact fun quantity member => by
          have := above quantity member
          omega
      · refine List.forall_mem_cons.mpr
          ⟨fun less => absurd less (Nat.lt_irrefl _), ?_⟩
        exact fun quantity member _ => by
          have := above quantity member
          omega
      · exact fun _ _ _ => .inr ⟨_, probed⟩
  | case2 interval nonempty probed inductionHypothesis =>
      by_cases goesOn :
          (search.lower interval).low < (search.lower interval).high
      · have later := inductionHypothesis bottom goesOn
        have below :
            search.descend (search.lower interval).middle ≤
              interval.middle - search.step :=
          (bounds_of_mem_probes later.mem).2
        have above : interval.low < interval.middle - search.step := goesOn
        rw [descend_of_lower bottom probed goesOn]
        refine ⟨?_, ?_, ?_, ?_⟩ <;>
          rw [probes_of_past nonempty probed]
        · exact List.mem_cons_of_mem _ later.mem
        · exact List.forall_mem_cons.mpr ⟨by omega, later.le⟩
        · exact List.forall_mem_cons.mpr
            ⟨fun _ => by omega, later.lowered⟩
        · exact List.forall_mem_cons.mpr
            ⟨fun _ => .inl ⟨_, probed⟩, later.answers⟩
      · rw [descend_of_stop fun lowers => goesOn (by
          simp only [lower]
          omega)]
        refine isLowest_of_singleton ?_
        rw [probes_of_past nonempty probed, probes_of_empty goesOn]
  | case3 interval nonempty probed =>
      rw [descend_of_stop (by simp [probed])]
      exact isLowest_of_singleton (probes_of_met nonempty probed)
  | case4 interval nonempty probed =>
      rw [descend_of_stop (by simp [probed])]
      exact isLowest_of_singleton
        (by rw [probes, visited_of_none nonempty probed]; rfl)
  | case5 interval empty =>
      exact absurd nonempty empty

section Whole

variable (search : Search) {total : Nat} (positive : 0 < total)

include positive

theorem isHighest_highest :
    search.IsHighest (.upTo total) (search.highest total) := by
  have ends := isHighest_climb search
    (show (Interval.upTo total).low < (Interval.upTo total).high from
      positive)
  have first : (Interval.upTo total).middle = (total + 1) / 2 := by
    simp [Interval.middle, Interval.upTo]
  rw [first] at ends
  exact ends

theorem isLowest_lowest :
    search.IsLowest (.upTo total) (search.lowest total) := by
  have ends := isLowest_descend search
    (show (Interval.upTo total).low = 0 from rfl) positive
  have first : (Interval.upTo total).middle = (total + 1) / 2 := by
    simp [Interval.middle, Interval.upTo]
  rw [first] at ends
  exact ends

/--
What holds of every quantity with an answer, and between two of them, holds
of all quantities that are probed if it holds of the two at the ends.
-/
theorem forall_probes_iff
    {fits : Nat → Prop}
    (ofAnswer : ∀ quantity, search.Answers quantity → fits quantity)
    (between :
      ∀ quantity,
        search.Answers (search.lowest total) →
          search.Answers (search.highest total) →
            search.lowest total ≤ quantity →
              quantity ≤ search.highest total → fits quantity) :
    (∀ quantity ∈ search.probes (.upTo total), fits quantity) ↔
      fits (search.lowest total) ∧ fits (search.highest total) := by
  have top := isHighest_highest search positive
  have bottom := isLowest_lowest search positive
  constructor
  · intro all
    exact ⟨all _ bottom.mem, all _ top.mem⟩
  · rintro ⟨lowest, highest⟩ quantity member
    have above := bottom.le quantity member
    have below := top.le quantity member
    rcases Nat.eq_or_lt_of_le above with same | more
    · exact same ▸ lowest
    rcases Nat.eq_or_lt_of_le below with same | less
    · exact same ▸ highest
    rcases bottom.answers quantity member more with answered | low
    · exact ofAnswer quantity answered
    rcases top.answers quantity member less with answered | high
    · exact ofAnswer quantity answered
    · exact between quantity low high above below

end Whole

/-- The bounds of an interval stay in range when a round moves them. -/
structure InRange
    (search : Search)
    (limit : Nat)
    (interval : Interval) : Prop where
  sum : interval.low + interval.high + 1 < limit
  raised :
    search.probe interval.middle = some .near →
      interval.middle + search.step < limit
  lowered :
    search.probe interval.middle = some .past →
      search.step ≤ interval.middle

/-- The largest and the smallest probe move the bounds within the range. -/
structure EndsInRange
    (search : Search)
    (limit total : Nat) : Prop where
  sum : 2 * search.highest total < limit
  raised :
    search.probe (search.highest total) = some .near →
      search.highest total + search.step < limit
  lowered :
    search.probe (search.lowest total) = some .past →
      search.step ≤ search.lowest total

/-- Below an even limit, the sum of the bounds is in range if the middle is. -/
theorem sum_lt_iff_of_even
    {limit : Nat}
    (even : 2 ∣ limit) :
    interval.low + interval.high + 1 < limit ↔
      2 * interval.middle < limit := by
  unfold Interval.middle
  omega

/-- Every round is in range if and only if those at the ends are. -/
theorem forall_inRange_iff
    (search : Search)
    {limit total : Nat}
    (even : 2 ∣ limit)
    (positive : 0 < total) :
    (∀ interval ∈ search.visited (.upTo total),
        search.InRange limit interval) ↔
      search.EndsInRange limit total := by
  have top := isHighest_highest search positive
  have bottom := isLowest_lowest search positive
  constructor
  · intro all
    obtain ⟨highest, visitedHigh, atTop⟩ := List.mem_map.mp top.mem
    obtain ⟨lowest, visitedLow, atBottom⟩ := List.mem_map.mp bottom.mem
    have high := all highest visitedHigh
    have low := all lowest visitedLow
    have sum := (sum_lt_iff_of_even even).mp high.sum
    exact ⟨atTop ▸ sum, atTop ▸ high.raised, atBottom ▸ low.lowered⟩
  · intro ends interval visited
    have member := List.mem_map_of_mem (f := Interval.middle) visited
    have below := top.le _ member
    have above := bottom.le _ member
    have sum := ends.sum
    refine ⟨(sum_lt_iff_of_even even).mpr (by omega), fun near => ?_,
      fun past => ?_⟩
    · rcases Nat.eq_or_lt_of_le below with same | less
      · rw [same] at near ⊢
        exact ends.raised near
      · have stays := top.raised _ member less near
        have positive := search.positive
        omega
    · rcases Nat.eq_or_lt_of_le above with same | more
      · rw [← same] at past ⊢
        exact ends.lowered past
      · exact bottom.lowered _ member more

/-- A search that moves a bound does so in its first round. -/
theorem moves_first
    {quantity : Nat}
    {verdict : Verdict}
    (nonempty : interval.low < interval.high)
    (member : quantity ∈ search.probes interval)
    (probed : search.probe quantity = some verdict)
    (moves : verdict ≠ .met) :
    ∃ first, search.probe interval.middle = some first ∧ first ≠ .met := by
  cases answer : search.probe interval.middle with
  | none =>
      rw [probes, visited_of_none nonempty answer, List.map_singleton,
        List.mem_singleton] at member
      rw [member, answer] at probed
      cases probed
  | some first =>
      refine ⟨first, rfl, ?_⟩
      rintro rfl
      rw [probes_of_met nonempty answer, List.mem_singleton] at member
      rw [member, answer] at probed
      exact moves (Option.some.inj probed).symm

end Library.Bisection.Search
