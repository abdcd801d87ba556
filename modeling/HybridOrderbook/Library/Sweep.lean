import Mathlib.Data.List.Sort

namespace Library.Sweep

/-!
# Sweeping a ladder

An order is filled from a ladder of price levels together with a venue that
trades between the levels.  In each round the venue takes a part of what is
left before the next price, and then the level fills as much as it holds.
When the ladder is used up, the venue takes the rest.
-/

/-- A level of a ladder. -/
structure Level where
  price : Nat
  volume : Nat
  deriving Repr, DecidableEq

/-- An order of prices, the best one first. -/
structure Ranks (before : Nat → Nat → Bool) : Prop where
  trans :
    ∀ first second third,
      before first second = true → before second third = true →
        before first third = true
  total :
    ∀ first second, (before first second || before second first) = true
  antisymm :
    ∀ first second,
      before first second = true → before second first = true →
        first = second

/-- Levels in the order of their prices. -/
def inOrder (before : Nat → Nat → Bool) (levels : List Level) : List Level :=
  levels.mergeSort fun first second => before first.price second.price

section Order

variable {before : Nat → Nat → Bool} {levels others : List Level}

theorem inOrder_perm (before : Nat → Nat → Bool) (levels : List Level) :
    (inOrder before levels).Perm levels :=
  List.mergeSort_perm levels _

variable (ranks : Ranks before)

include ranks

theorem pairwise_inOrder (levels : List Level) :
    (inOrder before levels).Pairwise fun first second =>
      before first.price second.price = true := by
  have sorted :=
    @List.pairwise_mergeSort Level
      (fun first second => before first.price second.price)
      (fun first second third =>
        ranks.trans first.price second.price third.price)
      (fun first second => ranks.total first.price second.price) levels
  exact sorted

variable
  (distinct :
    ∀ first ∈ levels, ∀ second ∈ levels,
      first.price = second.price → first = second)

include distinct

/-- With distinct prices, the order of the levels is determined. -/
theorem inOrder_eq
    (sorted :
      others.Pairwise fun first second =>
        before first.price second.price = true)
    (perm : levels.Perm others) :
    inOrder before levels = others := by
  refine List.Perm.eq_of_pairwise ?_ (pairwise_inOrder ranks levels) sorted
    ((inOrder_perm before levels).trans perm)
  intro first second firstListed secondListed closer farther
  exact distinct first ((inOrder_perm before levels).mem_iff.mp firstListed)
    second (perm.mem_iff.mpr secondListed)
    (ranks.antisymm _ _ closer farther)

theorem inOrder_eq_of_perm (perm : levels.Perm others) :
    inOrder before levels = inOrder before others :=
  inOrder_eq ranks distinct (pairwise_inOrder ranks others)
    (perm.trans (inOrder_perm before others).symm)

/-- The best of the prices comes first. -/
theorem inOrder_cons
    {best : Level}
    (perm : levels.Perm (best :: others))
    (first : ∀ level ∈ others, before best.price level.price = true) :
    inOrder before levels = best :: inOrder before others := by
  refine inOrder_eq ranks distinct (List.pairwise_cons.mpr
    ⟨fun level member => ?_, pairwise_inOrder ranks others⟩)
    (perm.trans ((inOrder_perm before others).symm.cons best))
  exact first level ((inOrder_perm before others).mem_iff.mp member)

end Order

/-- A venue: what it takes before a price, and what a trade does to it. -/
structure Venue (State : Type) where
  take : State → (price left : Nat) → Nat
  take_le : ∀ state price left, take state price left ≤ left
  trade : State → Nat → State
  trade_zero : ∀ state, trade state 0 = state

/-- What is done at a level, and the venue afterwards. -/
structure Round (State : Type) where
  level : Level
  taken : Nat
  filled : Nat
  state : State
  deriving Repr, DecidableEq

variable {State : Type} (venue : Venue State)

/-- The round at a level. -/
def round (level : Level) (state : State) (left : Nat) : Round State where
  level := level
  taken := venue.take state level.price left
  filled := min level.volume (left - venue.take state level.price left)
  state := venue.trade state (venue.take state level.price left)

/-- What a round leaves of the order. -/
def leftAfter (level : Level) (state : State) (left : Nat) : Nat :=
  left - (round venue level state left).taken -
    (round venue level state left).filled

/-- The rounds of an order, until nothing of it is left. -/
def rounds : List Level → State → Nat → List (Round State)
  | [], _, _ => []
  | level :: ladder, state, left =>
      if left = 0 then
        []
      else
        round venue level state left ::
          rounds ladder (round venue level state left).state
            (leftAfter venue level state left)

/-- The venue when the whole order is filled. -/
def final : List Level → State → Nat → State
  | [], state, left => venue.trade state left
  | level :: ladder, state, left =>
      if left = 0 then
        state
      else
        final ladder (round venue level state left).state
          (leftAfter venue level state left)

/-- What the venue takes of an order, over all rounds. -/
def traded : List Level → State → Nat → Nat
  | [], _, left => left
  | level :: ladder, state, left =>
      if left = 0 then
        0
      else
        (round venue level state left).taken +
          traded ladder (round venue level state left).state
            (leftAfter venue level state left)

/-- The levels from the one on that fills the last part of the order. -/
def leftover : List Level → State → Nat → List Level
  | [], _, _ => []
  | level :: ladder, state, left =>
      if leftAfter venue level state left = 0 then
        ⟨level.price,
          level.volume - (round venue level state left).filled⟩ :: ladder
      else
        leftover ladder (round venue level state left).state
          (leftAfter venue level state left)

variable {venue} {ladder : List Level} {level : Level} {state : State}
  {left : Nat}

@[simp] theorem rounds_zero (ladder : List Level) (state : State) :
    rounds venue ladder state 0 = [] := by
  cases ladder <;> simp [rounds]

@[simp] theorem final_zero (ladder : List Level) (state : State) :
    final venue ladder state 0 = state := by
  cases ladder <;> simp [final, venue.trade_zero]

theorem rounds_cons (unfinished : 0 < left) :
    rounds venue (level :: ladder) state left =
      round venue level state left ::
        rounds venue ladder (round venue level state left).state
          (leftAfter venue level state left) := by
  rw [rounds, if_neg (Nat.pos_iff_ne_zero.mp unfinished)]

theorem final_cons (unfinished : 0 < left) :
    final venue (level :: ladder) state left =
      final venue ladder (round venue level state left).state
        (leftAfter venue level state left) := by
  rw [final, if_neg (Nat.pos_iff_ne_zero.mp unfinished)]

@[simp] theorem traded_zero (ladder : List Level) (state : State) :
    traded venue ladder state 0 = 0 := by
  cases ladder <;> simp [traded]

theorem traded_cons (unfinished : 0 < left) :
    traded venue (level :: ladder) state left =
      (round venue level state left).taken +
        traded venue ladder (round venue level state left).state
          (leftAfter venue level state left) := by
  rw [traded, if_neg (Nat.pos_iff_ne_zero.mp unfinished)]

@[simp] theorem leftover_zero (ladder : List Level) (state : State) :
    leftover venue ladder state 0 = ladder := by
  cases ladder <;> simp [leftover, leftAfter, round]

theorem leftover_of_done
    (done : leftAfter venue level state left = 0) :
    leftover venue (level :: ladder) state left =
      ⟨level.price, level.volume - (round venue level state left).filled⟩ ::
        ladder := by
  rw [leftover, if_pos done]

theorem leftover_of_more
    (more : 0 < leftAfter venue level state left) :
    leftover venue (level :: ladder) state left =
      leftover venue ladder (round venue level state left).state
        (leftAfter venue level state left) := by
  rw [leftover, if_neg (Nat.pos_iff_ne_zero.mp more)]

/-- The levels that are left are at prices of the ladder. -/
theorem price_mem_of_mem_leftover
    {rest : Level}
    (member : rest ∈ leftover venue ladder state left) :
    ∃ level ∈ ladder, level.price = rest.price := by
  induction ladder generalizing state left with
  | nil =>
      cases member
  | cons level ladder inductionHypothesis =>
      rcases Nat.eq_zero_or_pos (leftAfter venue level state left) with
        done | more
      · rw [leftover_of_done done] at member
        rcases List.mem_cons.mp member with rfl | later
        · exact ⟨level, List.mem_cons_self, rfl⟩
        · exact ⟨rest, List.mem_cons_of_mem _ later, rfl⟩
      · rw [leftover_of_more more] at member
        obtain ⟨other, listed, same⟩ := inductionHypothesis member
        exact ⟨other, List.mem_cons_of_mem _ listed, same⟩

/-- What a round has left of its level, if it has not used it up. -/
theorem volume_of_mem_leftover
    (distinct : ladder.Pairwise fun first second =>
      first.price ≠ second.price)
    {done : Round State}
    (visited : done ∈ rounds venue ladder state left)
    {rest : Level}
    (member : rest ∈ leftover venue ladder state left)
    (same : rest.price = done.level.price) :
    rest.volume = done.level.volume - done.filled := by
  induction ladder generalizing state left with
  | nil =>
      cases member
  | cons level ladder inductionHypothesis =>
      obtain ⟨apart, distinct⟩ := List.pairwise_cons.mp distinct
      rcases Nat.eq_zero_or_pos left with rfl | unfinished
      · rw [rounds_zero] at visited
        cases visited
      rw [rounds_cons unfinished] at visited
      rcases Nat.eq_zero_or_pos (leftAfter venue level state left) with
        last | more
      · -- the round at this level is the last one
        rw [last, rounds_zero, List.mem_singleton] at visited
        subst visited
        rw [leftover_of_done last] at member
        rcases List.mem_cons.mp member with rfl | later
        · rfl
        · exact absurd same.symm (apart rest later)
      · rw [leftover_of_more more] at member
        rcases List.mem_cons.mp visited with rfl | later
        · -- a level that is used up is not left
          obtain ⟨other, listed, price⟩ := price_mem_of_mem_leftover member
          exact absurd (same.symm.trans price.symm) (apart other listed)
        · exact inductionHypothesis distinct later member

section Reach

variable {reaches : State → State → Prop} (refl : ∀ state, reaches state state)
  (trans :
    ∀ {first second third},
      reaches first second → reaches second third → reaches first third)
  (trades : ∀ state quantity, reaches state (venue.trade state quantity))

include refl trans trades

/-- What every trade respects, a whole order respects. -/
theorem reaches_final
    (ladder : List Level)
    (state : State)
    (left : Nat) :
    reaches state (final venue ladder state left) := by
  induction ladder generalizing state left with
  | nil =>
      exact trades state left
  | cons level ladder inductionHypothesis =>
      rw [final]
      split
      · exact refl state
      · exact trans (trades state _) (inductionHypothesis _ _)

/-- And from each of its rounds on. -/
theorem reaches_final_of_mem
    {done : Round State}
    (member : done ∈ rounds venue ladder state left) :
    reaches done.state (final venue ladder state left) := by
  induction ladder generalizing state left with
  | nil =>
      cases member
  | cons level ladder inductionHypothesis =>
      rcases Nat.eq_zero_or_pos left with rfl | unfinished
      · rw [rounds_zero] at member
        cases member
      · rw [rounds_cons unfinished] at member
        rw [final_cons unfinished]
        rcases List.mem_cons.mp member with rfl | later
        · exact reaches_final refl trans trades ladder _ _
        · exact inductionHypothesis later

end Reach

end Library.Sweep
