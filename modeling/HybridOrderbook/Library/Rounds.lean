import HybridOrderbook.Library.Run
import Mathlib.SetTheory.Cardinal.Finite

namespace Library.Loop

/-!
# The rounds of a loop

A loop ends if it does not go on for every number of rounds.  Fuel decides
nothing here: `rounds` follows the states of a loop without asking for its
result, and a loop over finitely many states that does not end within as many
rounds comes back to a state and never ends.
-/

variable {σ ε α : Type} {body : σ → Except (Fault ε) (σ ⊕ α)}
  {start state final : σ}

/-- The state that a round hands on, if the loop goes on. -/
def handedOn (outcome : Except (Fault ε) (σ ⊕ α)) : Option σ :=
  match outcome with
  | .ok (.inl next) => some next
  | _ => none

@[simp] theorem handedOn_eq_some_iff
    {outcome : Except (Fault ε) (σ ⊕ α)}
    {next : σ} :
    handedOn outcome = some next ↔ outcome = .ok (.inl next) := by
  unfold handedOn
  split
  · simp
  · rename_i stops
    simpa using stops next

/-- The state after a number of rounds, if the loop goes on for so long. -/
def rounds (body : σ → Except (Fault ε) (σ ⊕ α)) : Nat → σ → Option σ
  | 0, state => some state
  | count + 1, state => (handedOn (body state)).bind (rounds body count)

/-- The loop does not go on for ever. -/
def Ends (body : σ → Except (Fault ε) (σ ⊕ α)) (start : σ) : Prop :=
  ∃ count, rounds body count start = none

theorem rounds_succ_eq_some_iff
    {count : Nat} :
    rounds body (count + 1) start = some final ↔
      ∃ next,
        body start = .ok (.inl next) ∧
          rounds body count next = some final := by
  simp [rounds, Option.bind_eq_some_iff]

theorem rounds_add
    (first later : Nat)
    (start : σ) :
    rounds body (first + later) start =
      (rounds body first start).bind (rounds body later) := by
  induction first generalizing start with
  | zero =>
      rw [Nat.zero_add]
      rfl
  | succ first inductionHypothesis =>
      rw [Nat.succ_add]
      simp only [rounds, Option.bind_assoc]
      congr 1
      funext next
      exact inductionHypothesis next

theorem rounds_eq_none_of_le
    {short long : Nat}
    (shorter : short ≤ long)
    (ended : rounds body short start = none) :
    rounds body long start = none := by
  obtain ⟨more, rfl⟩ := Nat.exists_eq_add_of_le shorter
  rw [rounds_add, ended]
  rfl

/-- What a round preserves, every number of rounds preserves. -/
theorem rounds_invariant
    {invariant : σ → Prop}
    (preserved :
      ∀ state next,
        invariant state → body state = .ok (.inl next) → invariant next)
    {count : Nat}
    (initial : invariant start)
    (reached : rounds body count start = some final) : invariant final := by
  induction count generalizing start with
  | zero =>
      exact Option.some.inj reached ▸ initial
  | succ count inductionHypothesis =>
      obtain ⟨next, stepped, later⟩ := rounds_succ_eq_some_iff.mp reached
      exact inductionHypothesis (preserved start next initial stepped) later

/-- A loop ends if it ends from a state that it reaches. -/
theorem Ends.of_rounds
    {count : Nat}
    (reached : rounds body count start = some state)
    (ends : Ends body state) : Ends body start := by
  obtain ⟨later, ended⟩ := ends
  refine ⟨count + later, ?_⟩
  rw [rounds_add, reached]
  exact ended

/-- A loop ends if it ends from the state that its first round leaves. -/
theorem Ends.of_round
    (ends : ∀ next, body start = .ok (.inl next) → Ends body next) :
    Ends body start := by
  rcases goesOn : handedOn (body start) with _ | next
  · exact ⟨1, by simp [rounds, goesOn]⟩
  · have stepped := handedOn_eq_some_iff.mp goesOn
    have reached : rounds body 1 start = some next :=
      rounds_succ_eq_some_iff.mpr ⟨next, stepped, rfl⟩
    exact .of_rounds reached (ends next stepped)

/-- A loop ends in fewer rounds than a measure that its rounds decrease. -/
theorem rounds_eq_none_of_measure
    {measure : σ → Nat}
    {invariant : σ → Prop}
    (decreases :
      ∀ state next,
        invariant state → body state = .ok (.inl next) →
          invariant next ∧ measure next < measure state)
    {count : Nat}
    (initial : invariant start)
    (enough : measure start < count) : rounds body count start = none := by
  induction count generalizing start with
  | zero =>
      exact absurd enough (Nat.not_lt_zero _)
  | succ count inductionHypothesis =>
      rcases goesOn : handedOn (body start) with _ | next
      · simp [rounds, goesOn]
      · simp only [rounds, goesOn, Option.bind_some]
        obtain ⟨kept, less⟩ := decreases start next initial
          (handedOn_eq_some_iff.mp goesOn)
        exact inductionHypothesis kept (by omega)

section Cycles

variable {lead period : Nat}

theorem rounds_of_cycle
    (cycle : rounds body period state = some state)
    (turns : Nat) :
    rounds body (turns * period) state = some state := by
  induction turns with
  | zero =>
      rw [Nat.zero_mul]
      rfl
  | succ turns inductionHypothesis =>
      rw [Nat.succ_mul, rounds_add, inductionHypothesis]
      exact cycle

/-- A loop that comes back to a state never ends. -/
theorem not_ends_of_cycle
    (leads : rounds body lead start = some state)
    (positive : 0 < period)
    (cycle : rounds body period state = some state) :
    ¬ Ends body start := by
  rintro ⟨count, ended⟩
  have longer : count ≤ lead + count * period :=
    (Nat.le_mul_of_pos_right count positive).trans (Nat.le_add_left ..)
  have stopped := rounds_eq_none_of_le longer ended
  rw [rounds_add, leads, Option.bind_some, rounds_of_cycle cycle] at stopped
  cases stopped

/-- Over finitely many states a loop ends within as many rounds, or never. -/
theorem ends_iff_of_finite [Finite σ] :
    Ends body start ↔ rounds body (Nat.card σ) start = none := by
  refine ⟨fun ends => ?_, fun ended => ⟨_, ended⟩⟩
  by_contra goesOn
  have reaches (round : Fin (Nat.card σ + 1)) :
      ∃ state, rounds body round start = some state := by
    refine Option.ne_none_iff_exists'.mp fun ended => goesOn ?_
    exact rounds_eq_none_of_le (Nat.lt_succ_iff.mp round.isLt) ended
  choose visited visits using reaches
  have repeats : ¬ Function.Injective visited := by
    intro injective
    have fewer := Nat.card_le_card_of_injective visited injective
    rw [Nat.card_fin] at fewer
    exact Nat.not_succ_le_self _ fewer
  simp only [Function.Injective, not_forall] at repeats
  obtain ⟨first, second, same, different⟩ := repeats
  wlog earlier : first < second generalizing first second
  · exact this second first same.symm (Ne.symm different)
      (lt_of_le_of_ne (not_lt.mp earlier) (Ne.symm different))
  have split : (second : Nat) = first + (second - first) :=
    (Nat.add_sub_of_le (Fin.le_def.mp earlier.le)).symm
  have again := visits second
  rw [split, rounds_add, visits first, Option.bind_some, ← same] at again
  exact not_ends_of_cycle (visits first) (Nat.sub_pos_of_lt earlier) again
    ends

end Cycles

/-- The loop is out of fuel if it goes on for that many rounds. -/
theorem loop_of_rounds_eq_some
    {fuel : Nat}
    (goesOn : rounds body fuel start = some state) :
    loop body fuel start = .error .diverge := by
  induction fuel generalizing start with
  | zero =>
      rfl
  | succ fuel inductionHypothesis =>
      obtain ⟨next, stepped, later⟩ := rounds_succ_eq_some_iff.mp goesOn
      rw [loop, stepped]
      exact inductionHypothesis later

/-- Otherwise the outcome is the one of the round that ends it. -/
theorem loop_of_rounds_eq_none
    {fuel : Nat}
    (ended : rounds body fuel start = none) :
    ∃ count state,
      rounds body count start = some state ∧
        (loop body fuel start).map .inr = body state := by
  induction fuel generalizing start with
  | zero =>
      cases ended
  | succ fuel inductionHypothesis =>
      rw [loop]
      rcases outcome : body start with fault | next | result
      · exact ⟨0, start, rfl, outcome.symm⟩
      · simp only [rounds, outcome, handedOn, Option.bind_some] at ended
        obtain ⟨count, state, reached, last⟩ := inductionHypothesis ended
        exact ⟨count + 1, state,
          rounds_succ_eq_some_iff.mpr ⟨next, outcome, reached⟩, last⟩
      · exact ⟨0, start, rfl, outcome.symm⟩

end Library.Loop
