import Mathlib.Tactic

namespace Library.Bisection

/-!
# Bisection with steps

A search for the largest quantity that does not go past a target.  Every
round probes the middle of an interval, and moves one of its ends past the
middle by a fixed step.  The search ends when it meets the target, and
otherwise returns the last quantity with the verdict that it keeps.

A search that keeps the quantities on the near side of the target finds the
largest one if it probes it.  One that keeps those past the target finds it
only by meeting the target.
-/

/-- What a probe says about a quantity. -/
inductive Verdict where
  | near
  | met
  | past
  deriving Repr, DecidableEq

/-- A bisection; a probe may fail and end it. -/
structure Search where
  probe : Nat → Option Verdict
  step : Nat
  positive : 0 < step
  kept : Verdict

/-- The interval that is left, and the quantity that was kept last. -/
structure Interval where
  low : Nat
  high : Nat
  best : Nat
  deriving Repr, DecidableEq

/-- The middle of an interval, rounded up. -/
def Interval.middle (interval : Interval) : Nat :=
  (interval.low + interval.high + 1) / 2

theorem Interval.low_lt_middle
    {interval : Interval}
    (nonempty : interval.low < interval.high) :
    interval.low < interval.middle := by
  unfold middle
  omega

theorem Interval.middle_le_high
    {interval : Interval}
    (nonempty : interval.low < interval.high) :
    interval.middle ≤ interval.high := by
  unfold middle
  omega

namespace Search

variable (search : Search)

/-- Go on above the middle. -/
def raise (interval : Interval) : Interval where
  low := interval.middle + search.step
  high := interval.high
  best := if search.kept = .near then interval.middle else interval.best

/-- Go on below the middle. -/
def lower (interval : Interval) : Interval where
  low := interval.low
  high := interval.middle - search.step
  best := if search.kept = .past then interval.middle else interval.best

theorem raise_shrinks
    {interval : Interval}
    (nonempty : interval.low < interval.high) :
    (search.raise interval).high - (search.raise interval).low <
      interval.high - interval.low := by
  have above := Interval.low_lt_middle nonempty
  simp only [raise]
  omega

theorem lower_shrinks
    {interval : Interval}
    (nonempty : interval.low < interval.high) :
    (search.lower interval).high - (search.lower interval).low <
      interval.high - interval.low := by
  have below := Interval.middle_le_high nonempty
  have positive := search.positive
  simp only [lower]
  omega

/-- The intervals whose middle is probed. -/
def visited (interval : Interval) : List Interval :=
  if _ : interval.low < interval.high then
    match search.probe interval.middle with
    | some .near => interval :: visited (search.raise interval)
    | some .past => interval :: visited (search.lower interval)
    | some .met => [interval]
    | none => [interval]
  else
    []
termination_by interval.high - interval.low
decreasing_by
  · exact search.raise_shrinks ‹_›
  · exact search.lower_shrinks ‹_›

/-- The quantity that the search ends with, if no probe fails. -/
def result (interval : Interval) : Option Nat :=
  if _ : interval.low < interval.high then
    match search.probe interval.middle with
    | some .near => result (search.raise interval)
    | some .past => result (search.lower interval)
    | some .met => some interval.middle
    | none => none
  else
    some interval.best
termination_by interval.high - interval.low
decreasing_by
  · exact search.raise_shrinks ‹_›
  · exact search.lower_shrinks ‹_›

/-- The quantities that are probed. -/
def probes (interval : Interval) : List Nat :=
  (search.visited interval).map Interval.middle

/-- The verdicts that probes give, and that no larger quantity is nearer. -/
structure Reports (search : Search) (verdict : Nat → Verdict) : Prop where
  agrees :
    ∀ {quantity answer},
      search.probe quantity = some answer → verdict quantity = answer
  past_of_le :
    ∀ {quantity larger},
      quantity ≤ larger → verdict quantity = .past → verdict larger = .past

variable {search} {verdict : Nat → Verdict} {interval : Interval}
  {quantity found : Nat}

theorem visited_of_empty (empty : ¬ interval.low < interval.high) :
    search.visited interval = [] := by
  rw [visited, dif_neg empty]

theorem probes_of_empty (empty : ¬ interval.low < interval.high) :
    search.probes interval = [] := by
  rw [probes, visited_of_empty empty, List.map_nil]

section Round

variable (nonempty : interval.low < interval.high)

include nonempty

theorem visited_of_near (probed : search.probe interval.middle = some .near) :
    search.visited interval =
      interval :: search.visited (search.raise interval) := by
  rw [visited, dif_pos nonempty, probed]

theorem visited_of_past (probed : search.probe interval.middle = some .past) :
    search.visited interval =
      interval :: search.visited (search.lower interval) := by
  rw [visited, dif_pos nonempty, probed]

theorem visited_of_met (probed : search.probe interval.middle = some .met) :
    search.visited interval = [interval] := by
  rw [visited, dif_pos nonempty, probed]

theorem visited_of_none (probed : search.probe interval.middle = none) :
    search.visited interval = [interval] := by
  rw [visited, dif_pos nonempty, probed]

theorem mem_visited (search : Search) :
    interval ∈ search.visited interval := by
  rw [visited, dif_pos nonempty]
  split <;> exact List.mem_cons_self ..

theorem probes_of_near (probed : search.probe interval.middle = some .near) :
    search.probes interval =
      interval.middle :: search.probes (search.raise interval) := by
  rw [probes, visited_of_near nonempty probed, List.map_cons, probes]

theorem probes_of_past (probed : search.probe interval.middle = some .past) :
    search.probes interval =
      interval.middle :: search.probes (search.lower interval) := by
  rw [probes, visited_of_past nonempty probed, List.map_cons, probes]

theorem probes_of_met (probed : search.probe interval.middle = some .met) :
    search.probes interval = [interval.middle] := by
  rw [probes, visited_of_met nonempty probed, List.map_cons, List.map_nil]

theorem middle_mem_probes (search : Search) :
    interval.middle ∈ search.probes interval :=
  List.mem_map_of_mem (mem_visited nonempty search)

end Round

/-- Every probe lies in the interval. -/
theorem bounds_of_mem_visited
    {other : Interval}
    (member : other ∈ search.visited interval) :
    interval.low ≤ other.low ∧ other.low < other.high ∧
      other.high ≤ interval.high := by
  fun_induction search.visited interval with
  | case1 interval nonempty probed inductionHypothesis =>
      rcases List.mem_cons.mp member with rfl | later
      · exact ⟨Nat.le_refl _, nonempty, Nat.le_refl _⟩
      · have bounds := inductionHypothesis later
        have above := Interval.low_lt_middle nonempty
        simp only [raise] at bounds
        omega
  | case2 interval nonempty probed inductionHypothesis =>
      rcases List.mem_cons.mp member with rfl | later
      · exact ⟨Nat.le_refl _, nonempty, Nat.le_refl _⟩
      · have bounds := inductionHypothesis later
        have below := Interval.middle_le_high nonempty
        simp only [lower] at bounds
        omega
  | case3 interval nonempty probed =>
      rw [List.mem_singleton.mp member]
      exact ⟨Nat.le_refl _, nonempty, Nat.le_refl _⟩
  | case4 interval nonempty probed =>
      rw [List.mem_singleton.mp member]
      exact ⟨Nat.le_refl _, nonempty, Nat.le_refl _⟩
  | case5 interval empty =>
      cases member

theorem bounds_of_mem_probes (member : quantity ∈ search.probes interval) :
    interval.low < quantity ∧ quantity ≤ interval.high := by
  obtain ⟨other, visitedOther, rfl⟩ := List.mem_map.mp member
  obtain ⟨low, nonempty, high⟩ := bounds_of_mem_visited visitedOther
  exact ⟨Nat.lt_of_le_of_lt low (Interval.low_lt_middle nonempty),
    Nat.le_trans (Interval.middle_le_high nonempty) high⟩

section Returned

variable (returned : search.result interval = some found)

include returned

/-- The result is a quantity that was probed, or the one kept before. -/
theorem result_mem :
    found = interval.best ∨ found ∈ search.probes interval := by
  fun_induction search.result interval with
  | case1 interval nonempty probed inductionHypothesis =>
      rw [probes_of_near nonempty probed]
      rcases inductionHypothesis returned with same | later
      · rw [raise] at same
        split at same
        · exact .inr (same ▸ List.mem_cons_self ..)
        · exact .inl same
      · exact .inr (List.mem_cons_of_mem _ later)
  | case2 interval nonempty probed inductionHypothesis =>
      rw [probes_of_past nonempty probed]
      rcases inductionHypothesis returned with same | later
      · rw [lower] at same
        split at same
        · exact .inr (same ▸ List.mem_cons_self ..)
        · exact .inl same
      · exact .inr (List.mem_cons_of_mem _ later)
  | case3 interval nonempty probed =>
      rw [probes_of_met nonempty probed]
      exact .inr (List.mem_singleton.mpr (Option.some.inj returned).symm)
  | case4 interval nonempty probed =>
      cases returned
  | case5 interval empty =>
      exact .inl (Option.some.inj returned).symm

/-- A search that returns has had an answer to each of its probes. -/
theorem exists_probe_of_mem (member : quantity ∈ search.probes interval) :
    ∃ answer, search.probe quantity = some answer := by
  fun_induction search.result interval with
  | case1 interval nonempty probed inductionHypothesis =>
      rw [probes_of_near nonempty probed] at member
      rcases List.mem_cons.mp member with rfl | later
      · exact ⟨_, probed⟩
      · exact inductionHypothesis returned later
  | case2 interval nonempty probed inductionHypothesis =>
      rw [probes_of_past nonempty probed] at member
      rcases List.mem_cons.mp member with rfl | later
      · exact ⟨_, probed⟩
      · exact inductionHypothesis returned later
  | case3 interval nonempty probed =>
      rw [probes_of_met nonempty probed] at member
      exact ⟨_, List.mem_singleton.mp member ▸ probed⟩
  | case4 interval nonempty probed =>
      cases returned
  | case5 interval empty =>
      rw [probes_of_empty empty] at member
      cases member

end Returned

/-- A search returns if and only if all its probes have an answer. -/
theorem exists_result_iff :
    (∃ found, search.result interval = some found) ↔
      ∀ quantity ∈ search.probes interval,
        ∃ answer, search.probe quantity = some answer := by
  constructor
  · rintro ⟨found, returned⟩ quantity member
    exact exists_probe_of_mem returned member
  · intro answered
    fun_induction search.result interval with
    | case1 interval nonempty probed inductionHypothesis =>
        rw [probes_of_near nonempty probed] at answered
        exact inductionHypothesis (List.forall_mem_cons.mp answered).2
    | case2 interval nonempty probed inductionHypothesis =>
        rw [probes_of_past nonempty probed] at answered
        exact inductionHypothesis (List.forall_mem_cons.mp answered).2
    | case3 interval nonempty probed =>
        exact ⟨_, rfl⟩
    | case4 interval nonempty probed =>
        obtain ⟨_, answer⟩ := answered _ (middle_mem_probes nonempty search)
        rw [probed] at answer
        cases answer
    | case5 interval empty =>
        exact ⟨_, rfl⟩

/-- A search with the same answers and more returns the same. -/
theorem result_of_agrees
    {other : Search}
    (returned : search.result interval = some found)
    (sameStep : other.step = search.step)
    (sameKept : other.kept = search.kept)
    (agrees :
      ∀ quantity answer,
        search.probe quantity = some answer →
          other.probe quantity = some answer) :
    other.result interval = some found := by
  fun_induction search.result interval with
  | case1 interval nonempty probed inductionHypothesis =>
      have same : other.raise interval = search.raise interval := by
        simp only [raise, sameStep, sameKept]
      rw [result, dif_pos nonempty, agrees _ _ probed]
      exact (congrArg other.result same).trans (inductionHypothesis returned)
  | case2 interval nonempty probed inductionHypothesis =>
      have same : other.lower interval = search.lower interval := by
        simp only [lower, sameStep, sameKept]
      rw [result, dif_pos nonempty, agrees _ _ probed]
      exact (congrArg other.result same).trans (inductionHypothesis returned)
  | case3 interval nonempty probed =>
      rw [result, dif_pos nonempty, agrees _ _ probed]
      exact returned
  | case4 interval nonempty probed =>
      cases returned
  | case5 interval empty =>
      rw [result, dif_neg empty]
      exact returned

section Result

variable (reports : search.Reports verdict)
  (returned : search.result interval = some found)

include reports returned

/-- A search that meets the target returns where it did. -/
theorem result_of_met
    (member : quantity ∈ search.probes interval)
    (met : verdict quantity = .met) :
    found = quantity := by
  fun_induction search.result interval with
  | case1 interval nonempty probed inductionHypothesis =>
      rw [probes_of_near nonempty probed] at member
      rcases List.mem_cons.mp member with rfl | later
      · rw [reports.agrees probed] at met
        cases met
      · exact inductionHypothesis returned later
  | case2 interval nonempty probed inductionHypothesis =>
      rw [probes_of_past nonempty probed] at member
      rcases List.mem_cons.mp member with rfl | later
      · rw [reports.agrees probed] at met
        cases met
      · exact inductionHypothesis returned later
  | case3 interval nonempty probed =>
      rw [probes_of_met nonempty probed] at member
      rw [List.mem_singleton.mp member]
      exact (Option.some.inj returned).symm
  | case4 interval nonempty probed =>
      cases returned
  | case5 interval empty =>
      rw [probes_of_empty empty] at member
      cases member

/-- A search that keeps the near side returns no quantity past the target. -/
theorem result_of_keepsNear (kept : search.kept = .near) :
    found = interval.best ∨
      found ∈ search.probes interval ∧ verdict found ≠ .past := by
  fun_induction search.result interval with
  | case1 interval nonempty probed inductionHypothesis =>
      rw [probes_of_near nonempty probed]
      rcases inductionHypothesis returned with same | ⟨later, notPast⟩
      · rw [raise, kept] at same
        refine .inr ⟨same ▸ List.mem_cons_self .., ?_⟩
        simp [same, reports.agrees probed]
      · exact .inr ⟨List.mem_cons_of_mem _ later, notPast⟩
  | case2 interval nonempty probed inductionHypothesis =>
      rw [probes_of_past nonempty probed]
      rcases inductionHypothesis returned with same | ⟨later, notPast⟩
      · rw [lower, kept] at same
        exact .inl same
      · exact .inr ⟨List.mem_cons_of_mem _ later, notPast⟩
  | case3 interval nonempty probed =>
      rw [probes_of_met nonempty probed]
      cases returned
      exact .inr ⟨List.mem_singleton_self _, by simp [reports.agrees probed]⟩
  | case4 interval nonempty probed =>
      cases returned
  | case5 interval empty =>
      exact .inl (Option.some.inj returned).symm

/-- It returns the largest quantity that it may if it probes that one. -/
theorem result_of_largest_probed
    (kept : search.kept = .near)
    (member : quantity ∈ search.probes interval)
    (notPast : verdict quantity ≠ .past)
    (largest :
      ∀ larger, quantity < larger → larger ≤ interval.high →
        verdict larger = .past) :
    found = quantity := by
  fun_induction search.result interval with
  | case1 interval nonempty probed inductionHypothesis =>
      rw [probes_of_near nonempty probed] at member
      rcases List.mem_cons.mp member with rfl | later
      · -- whatever is probed from here on is larger, and past the target
        rcases result_of_keepsNear reports returned kept with same |
          ⟨later, laterNotPast⟩
        · rw [same, raise, kept]
          rfl
        · obtain ⟨above, below⟩ := bounds_of_mem_probes later
          simp only [raise] at above below
          exact absurd (largest found (by omega) below) laterNotPast
      · exact inductionHypothesis returned later largest
  | case2 interval nonempty probed inductionHypothesis =>
      rw [probes_of_past nonempty probed] at member
      rcases List.mem_cons.mp member with rfl | later
      · exact absurd (reports.agrees probed) notPast
      · refine inductionHypothesis returned later fun larger less below => ?_
        have inside := Interval.middle_le_high nonempty
        simp only [lower] at below
        exact largest larger less (by omega)
  | case3 interval nonempty probed =>
      rw [probes_of_met nonempty probed] at member
      rw [List.mem_singleton.mp member]
      exact (Option.some.inj returned).symm
  | case4 interval nonempty probed =>
      cases returned
  | case5 interval empty =>
      rw [probes_of_empty empty] at member
      cases member

/--
A search that keeps the far side meets the target, or returns a quantity past
it, or has probed none.
-/
theorem result_of_keepsPast (kept : search.kept = .past) :
    (found ∈ search.probes interval ∧ verdict found = .met) ∨
      (∀ probed ∈ search.probes interval, verdict probed ≠ .met) ∧
        ((found ∈ search.probes interval ∧ verdict found = .past) ∨
          found = interval.best ∧
            ∀ probed ∈ search.probes interval, verdict probed ≠ .past) := by
  fun_induction search.result interval with
  | case1 interval nonempty probed inductionHypothesis =>
      have notMet : verdict interval.middle ≠ .met := by
        simp [reports.agrees probed]
      have notPast : verdict interval.middle ≠ .past := by
        simp [reports.agrees probed]
      rw [probes_of_near nonempty probed]
      rcases inductionHypothesis returned with ⟨later, met⟩ | ⟨noneMet,
        ⟨later, past⟩ | ⟨same, nonePast⟩⟩
      · exact .inl ⟨List.mem_cons_of_mem _ later, met⟩
      · refine .inr ⟨?_, .inl ⟨List.mem_cons_of_mem _ later, past⟩⟩
        exact List.forall_mem_cons.mpr ⟨notMet, noneMet⟩
      · rw [raise, kept] at same
        refine .inr ⟨?_, .inr ⟨same, ?_⟩⟩
        · exact List.forall_mem_cons.mpr ⟨notMet, noneMet⟩
        · exact List.forall_mem_cons.mpr ⟨notPast, nonePast⟩
  | case2 interval nonempty probed inductionHypothesis =>
      have notMet : verdict interval.middle ≠ .met := by
        simp [reports.agrees probed]
      rw [probes_of_past nonempty probed]
      rcases inductionHypothesis returned with ⟨later, met⟩ | ⟨noneMet,
        ⟨later, past⟩ | ⟨same, _⟩⟩
      · exact .inl ⟨List.mem_cons_of_mem _ later, met⟩
      · refine .inr ⟨?_, .inl ⟨List.mem_cons_of_mem _ later, past⟩⟩
        exact List.forall_mem_cons.mpr ⟨notMet, noneMet⟩
      · rw [lower, kept] at same
        refine .inr ⟨?_, .inl ⟨same ▸ List.mem_cons_self .., ?_⟩⟩
        · exact List.forall_mem_cons.mpr ⟨notMet, noneMet⟩
        · rw [same]
          exact reports.agrees probed
  | case3 interval nonempty probed =>
      rw [probes_of_met nonempty probed]
      cases returned
      exact .inl ⟨List.mem_singleton_self _, reports.agrees probed⟩
  | case4 interval nonempty probed =>
      cases returned
  | case5 interval empty =>
      rw [probes_of_empty empty]
      exact .inr ⟨nofun, .inr ⟨(Option.some.inj returned).symm, nofun⟩⟩

/-- It returns the end of its interval if that is probed, and past. -/
theorem result_of_end_past
    (kept : search.kept = .past)
    {total : Nat}
    (bounded : interval.high ≤ total)
    (member : total ∈ search.probes interval)
    (past : verdict total = .past) :
    found = total := by
  fun_induction search.result interval with
  | case1 interval nonempty probed inductionHypothesis =>
      rw [probes_of_near nonempty probed] at member
      rcases List.mem_cons.mp member with rfl | later
      · rw [reports.agrees probed] at past
        cases past
      · exact inductionHypothesis returned bounded later
  | case2 interval nonempty probed inductionHypothesis =>
      rw [probes_of_past nonempty probed] at member
      have inside := Interval.middle_le_high nonempty
      rcases List.mem_cons.mp member with rfl | later
      · -- the interval had one more quantity, so that none is left
        have positive := search.positive
        have last : ¬ (search.lower interval).low <
            (search.lower interval).high := by
          simp only [lower]
          unfold Interval.middle at bounded ⊢
          omega
        rw [result, dif_neg last, lower, kept] at returned
        exact (Option.some.inj returned).symm
      · refine inductionHypothesis returned ?_ later
        simp only [lower]
        omega
  | case3 interval nonempty probed =>
      rw [probes_of_met nonempty probed, List.mem_singleton] at member
      rw [member, reports.agrees probed] at past
      cases past
  | case4 interval nonempty probed =>
      cases returned
  | case5 interval empty =>
      rw [probes_of_empty empty] at member
      cases member

end Result

end Search

/-- The interval of all quantities up to a total, with nothing kept yet. -/
def Interval.upTo (total : Nat) : Interval := ⟨0, total, 0⟩

/-- The largest quantity up to a total that is none or not past the target. -/
def Largest (verdict : Nat → Verdict) (total quantity : Nat) : Prop :=
  quantity < total →
    (quantity = 0 ∨ verdict quantity ≠ .past) ∧
      ∀ larger, quantity < larger → larger ≤ total → verdict larger = .past

/-- Nothing more can be taken without going past the target. -/
def Boundary (verdict : Nat → Verdict) (total quantity : Nat) : Prop :=
  verdict quantity ≠ .past ∧
    (quantity = total ∨ verdict (quantity + 1) = .past)

instance (verdict : Nat → Verdict) (total quantity : Nat) :
    Decidable (Boundary verdict total quantity) :=
  inferInstanceAs (Decidable (_ ∧ _))

namespace Search

variable {search : Search} {verdict : Nat → Verdict} {total found : Nat}

theorem Reports.largest_of_boundary
    (reports : search.Reports verdict)
    (boundary : Boundary verdict total found) :
    Largest verdict total found := by
  intro less
  refine ⟨.inr boundary.1, fun larger more _ => ?_⟩
  rcases boundary.2 with rfl | past
  · exact absurd less (Nat.lt_irrefl _)
  · exact reports.past_of_le more past

/-- A probed quantity is the largest one exactly if it is at the boundary. -/
theorem Reports.largest_iff_boundary
    (reports : search.Reports verdict)
    (member : found ∈ search.probes (.upTo total))
    (notPast : verdict found ≠ .past) :
    Largest verdict total found ↔ Boundary verdict total found := by
  refine ⟨fun largest => ⟨notPast, ?_⟩, reports.largest_of_boundary⟩
  rcases Nat.lt_or_eq_of_le (bounds_of_mem_probes member).2 with less | same
  · exact .inr ((largest less).2 (found + 1) (Nat.lt_succ_self _) less)
  · exact .inl same

section Whole

variable (reports : search.Reports verdict)
  (returned : search.result (.upTo total) = some found)

include reports returned

/-- Keeping the near side finds the largest quantity if it is probed. -/
theorem largest_iff_of_keepsNear (kept : search.kept = .near) :
    Largest verdict total found ↔
      total = 0 ∨ verdict 1 = .past ∨
        ∃ probed ∈ search.probes (.upTo total),
          Boundary verdict total probed := by
  have cases := result_of_keepsNear reports returned kept
  constructor
  · intro largest
    rcases cases with rfl | ⟨member, notPast⟩
    · rcases Nat.eq_zero_or_pos total with none | some
      · exact .inl none
      · exact .inr (.inl ((largest some).2 1 Nat.zero_lt_one some))
    · exact .inr (.inr ⟨found, member,
        (reports.largest_iff_boundary member notPast).mp largest⟩)
  · rintro (none | past | ⟨probed, member, boundary⟩)
    · exact fun less => absurd (none ▸ less) (Nat.not_lt_zero _)
    · -- every quantity is past the target, so that none was kept
      intro _
      rcases cases with rfl | ⟨member, notPast⟩
      · exact ⟨.inl rfl, fun larger more _ => reports.past_of_le more past⟩
      · exact absurd
          (reports.past_of_le (bounds_of_mem_probes member).1 past) notPast
    · have same :=
        result_of_largest_probed reports returned kept member boundary.1
          fun larger more below =>
            (reports.largest_of_boundary boundary
              (Nat.lt_of_lt_of_le more below)).2 larger more below
      rw [same]
      exact reports.largest_of_boundary boundary

/--
Keeping the far side finds the largest quantity if that meets the target, or
if all that was left to take is past it.
-/
theorem largest_iff_of_keepsPast (kept : search.kept = .past) :
    Largest verdict total found ↔
      total = 0 ∨
        (∃ probed ∈ search.probes (.upTo total),
          verdict probed = .met ∧ Boundary verdict total probed) ∨
        (total ∈ search.probes (.upTo total) ∧ verdict total = .past) := by
  have cases := result_of_keepsPast reports returned kept
  constructor
  · intro largest
    rcases cases with ⟨member, met⟩ | ⟨_, ⟨member, past⟩ | ⟨none, nonePast⟩⟩
    · have notPast : verdict found ≠ .past := by simp [met]
      exact .inr (.inl ⟨found, member, met,
        (reports.largest_iff_boundary member notPast).mp largest⟩)
    · obtain ⟨some, bounded⟩ := bounds_of_mem_probes member
      rcases Nat.lt_or_eq_of_le bounded with less | rfl
      · rcases (largest less).1 with zero | notPast
        · exact absurd zero (Nat.ne_of_gt some)
        · exact absurd past notPast
      · exact .inr (.inr ⟨member, past⟩)
    · rcases Nat.eq_zero_or_pos total with empty | nonempty
      · exact .inl empty
      · -- the first probe is past the target, but none was
        have first := middle_mem_probes
          (show (Interval.upTo total).low < (Interval.upTo total).high from
            nonempty) search
        obtain ⟨some, bounded⟩ := bounds_of_mem_probes first
        have zero : found = 0 := none
        rw [zero] at largest
        exact absurd ((largest nonempty).2 _ some bounded)
          (nonePast _ first)
  · rintro (none | ⟨probed, member, met, boundary⟩ | ⟨member, past⟩)
    · exact fun less => absurd (none ▸ less) (Nat.not_lt_zero _)
    · rw [result_of_met reports returned member met]
      exact reports.largest_of_boundary boundary
    · rw [result_of_end_past reports returned kept (Nat.le_refl _) member
        past]
      exact fun less => absurd less (Nat.lt_irrefl _)

/-- Keeping the far side goes past the target unless it meets it. -/
theorem notPast_iff_of_keepsPast (kept : search.kept = .past) :
    (found = 0 ∨ verdict found ≠ .past) ↔
      (∃ probed ∈ search.probes (.upTo total), verdict probed = .met) ∨
        ∀ probed ∈ search.probes (.upTo total), verdict probed ≠ .past := by
  rcases result_of_keepsPast reports returned kept with ⟨member, met⟩ |
    ⟨noneMet, ⟨member, past⟩ | ⟨none, nonePast⟩⟩
  · exact iff_of_true (.inr (by simp [met])) (.inl ⟨found, member, met⟩)
  · refine iff_of_false ?_ ?_
    · rintro (zero | notPast)
      · exact absurd zero (Nat.ne_of_gt (bounds_of_mem_probes member).1)
      · exact notPast past
    · rintro (⟨probed, probedHere, met⟩ | nonePast)
      · exact noneMet probed probedHere met
      · exact nonePast found member past
  · exact iff_of_true (.inl none) (.inr nonePast)

omit reports in
/-- The quantity found is one of those that there are. -/
theorem result_le : found ≤ total := by
  rcases result_mem returned with rfl | member
  · exact Nat.zero_le _
  · exact (bounds_of_mem_probes member).2

end Whole

end Search

end Library.Bisection
