import HybridOrderbook.Library.Bisection
import HybridOrderbook.Library.Run

namespace Library.Bisection.Search

/-!
# Loops that bisect

A loop over machine words carries out a bisection of the natural numbers for
as long as its arithmetic fits.  `Realized` says so of one round, and
`Realized.outcome` of the whole loop.
-/

variable {σ ε α : Type} (search : Search) (fits : Interval → Prop)
  (view : σ → Interval) (value : α → Nat)

/-- Each round of a loop is a round of the search if it fits. -/
structure Realized (body : σ → Except (Fault ε) (σ ⊕ α)) : Prop where
  ends :
    ∀ state,
      ¬ (view state).low < (view state).high →
        ∃ result,
          body state = .ok (.inr result) ∧ value result = (view state).best
  panics :
    ∀ state,
      (view state).low < (view state).high →
        ¬ fits (view state) → body state = .error .panic
  raises :
    ∀ state,
      (view state).low < (view state).high →
        fits (view state) →
          search.probe (view state).middle = some .near →
            ∃ next,
              body state = .ok (.inl next) ∧
                view next = search.raise (view state)
  lowers :
    ∀ state,
      (view state).low < (view state).high →
        fits (view state) →
          search.probe (view state).middle = some .past →
            ∃ next,
              body state = .ok (.inl next) ∧
                view next = search.lower (view state)
  meets :
    ∀ state,
      (view state).low < (view state).high →
        fits (view state) →
          search.probe (view state).middle = some .met →
            ∃ result,
              body state = .ok (.inr result) ∧
                value result = (view state).middle
  refuses :
    ∀ state,
      (view state).low < (view state).high →
        fits (view state) →
          search.probe (view state).middle = none →
            ∃ error, body state = .error (.error error)

/-- An outcome is the answer of a search, or an error if there is none. -/
def Yields (answer : Option Nat) (outcome : Except (Fault ε) α) : Prop :=
  match answer with
  | some quantity => ∃ result, outcome = .ok result ∧ value result = quantity
  | none => ∃ error, outcome = .error (.error error)

variable {search fits view value} {body : σ → Except (Fault ε) (σ ⊕ α)}

/-- What fails to yield an answer fails with an error of its own. -/
theorem Yields.exists_error
    {answer : Option Nat}
    {fault : Fault ε}
    (yields : Yields value answer (.error fault : Except (Fault ε) α)) :
    ∃ error, fault = .error error := by
  cases answer with
  | none =>
      obtain ⟨error, failed⟩ := yields
      exact ⟨error, Except.error.inj failed⟩
  | some quantity =>
      obtain ⟨_, failed, _⟩ := yields
      cases failed

/--
A loop with enough fuel panics if some round of the search does not fit, and
otherwise yields the result of the search.
-/
theorem Realized.outcome
    (realized : search.Realized fits view value body)
    {fuel : Nat}
    {start : σ}
    (enough : (view start).high - (view start).low < fuel) :
    (∃ interval ∈ search.visited (view start), ¬ fits interval) ∧
        Loop.loop body fuel start = .error .panic ∨
      (∀ interval ∈ search.visited (view start), fits interval) ∧
        Yields value (search.result (view start))
          (Loop.loop body fuel start) := by
  induction fuel generalizing start with
  | zero =>
      exact absurd enough (Nat.not_lt_zero _)
  | succ fuel inductionHypothesis =>
      rw [Loop.loop]
      by_cases nonempty : (view start).low < (view start).high
      · by_cases fitting : fits (view start)
        · cases probed : search.probe (view start).middle with
          | none =>
              obtain ⟨error, stepped⟩ :=
                realized.refuses start nonempty fitting probed
              rw [visited_of_none nonempty probed, result, dif_pos nonempty,
                probed, stepped]
              exact .inr ⟨by simpa using fitting, error, rfl⟩
          | some verdict =>
              cases verdict with
              | near =>
                  obtain ⟨next, stepped, same⟩ :=
                    realized.raises start nonempty fitting probed
                  have shrinks := search.raise_shrinks nonempty
                  rw [visited_of_near nonempty probed, result,
                    dif_pos nonempty, probed, stepped, ← same]
                  rw [← same] at shrinks
                  have fewer : (view next).high - (view next).low < fuel := by
                    omega
                  simpa [fitting] using inductionHypothesis fewer
              | past =>
                  obtain ⟨next, stepped, same⟩ :=
                    realized.lowers start nonempty fitting probed
                  have shrinks := search.lower_shrinks nonempty
                  rw [visited_of_past nonempty probed, result,
                    dif_pos nonempty, probed, stepped, ← same]
                  rw [← same] at shrinks
                  have fewer : (view next).high - (view next).low < fuel := by
                    omega
                  simpa [fitting] using inductionHypothesis fewer
              | met =>
                  obtain ⟨found, stepped, same⟩ :=
                    realized.meets start nonempty fitting probed
                  rw [visited_of_met nonempty probed, result,
                    dif_pos nonempty, probed, stepped]
                  exact .inr ⟨by simpa using fitting, found, rfl, same⟩
        · rw [realized.panics start nonempty fitting]
          exact .inl ⟨⟨_, mem_visited nonempty search, fitting⟩, rfl⟩
      · obtain ⟨found, stepped, same⟩ := realized.ends start nonempty
        rw [visited_of_empty nonempty, result, dif_neg nonempty, stepped]
        exact .inr ⟨by simp, found, rfl, same⟩

section Rules

variable (realized : search.Realized fits view value body) {fuel : Nat}
  {start : σ} (enough : (view start).high - (view start).low < fuel)

include realized enough

theorem Realized.loop_panics_iff :
    Loop.loop body fuel start = .error .panic ↔
      ∃ interval ∈ search.visited (view start), ¬ fits interval := by
  rcases realized.outcome enough with ⟨overflow, panicked⟩ | ⟨fitting, yields⟩
  · exact iff_of_true panicked overflow
  · refine iff_of_false ?_ ?_
    · intro panicked
      rw [panicked] at yields
      obtain ⟨_, impossible⟩ := yields.exists_error
      cases impossible
    · rintro ⟨interval, member, overflow⟩
      exact overflow (fitting interval member)

/-- What the loop returns is the result of the search. -/
theorem Realized.result_of_loop
    {found : α}
    (looped : Loop.loop body fuel start = .ok found) :
    search.result (view start) = some (value found) := by
  rcases realized.outcome enough with ⟨_, panicked⟩ | ⟨_, yields⟩
  · rw [looped] at panicked
    cases panicked
  · rw [looped] at yields
    cases answer : search.result (view start) with
    | none =>
        simp [answer, Yields] at yields
    | some quantity =>
        simp only [answer, Yields, Except.ok.injEq, exists_eq_left'] at yields
        rw [yields]

/-- Whether it fits or not, the loop ends. -/
theorem Realized.loop_ne_diverge :
    Loop.loop body fuel start ≠ .error .diverge := by
  intro diverged
  rcases realized.outcome enough with ⟨_, panicked⟩ | ⟨_, yields⟩
  · rw [diverged] at panicked
    cases panicked
  · rw [diverged] at yields
    obtain ⟨_, impossible⟩ := yields.exists_error
    cases impossible

end Rules

end Library.Bisection.Search
