import HybridOrderbook.Library.Fallible

namespace Library.Run

/-!
# Runs of fallible actions

A run is a list of actions each of which succeeds from the state the ones
before it reached.  Invariants and simulations are shown for one action and
carried to every run by the two rules below.
-/

variable {σ τ A ε α : Type}

/-- The state after a successful computation, if it was one. -/
def succeeded (outcome : Except (Fault ε) α × σ) : Option σ :=
  match outcome with
  | (.ok _, reached) => some reached
  | (.error _, _) => none

theorem succeeded_eq_some_iff
    {outcome : Except (Fault ε) α × σ}
    {reached : σ} :
    succeeded outcome = some reached ↔
      ∃ value, outcome = (.ok value, reached) := by
  rcases outcome with ⟨result, state⟩
  cases result with
  | error fault =>
      simp [succeeded]
  | ok value =>
      simp [succeeded]

/-- Run a list of actions, all of which have to succeed. -/
def run (step : A → σ → Option σ) : List A → σ → Option σ
  | [], state => some state
  | action :: rest, state => (step action state).bind (run step rest)

theorem run_cons_eq_some_iff
    {step : A → σ → Option σ}
    {action : A}
    {rest : List A}
    {start final : σ} :
    run step (action :: rest) start = some final ↔
      ∃ middle,
        step action start = some middle ∧
          run step rest middle = some final := by
  simp [run, Option.bind_eq_some_iff]

/-- Every action of a run meets a condition on the state it starts from. -/
def Along (step : A → σ → Option σ) (condition : A → σ → Prop) :
    List A → σ → Prop
  | [], _ => True
  | action :: rest, state =>
      condition action state ∧
        ∀ next, step action state = some next →
          Along step condition rest next

theorem Along.cons
    {step : A → σ → Option σ}
    {condition : A → σ → Prop}
    {action : A}
    {rest : List A}
    {start next : σ}
    (here : condition action start)
    (stepped : step action start = some next)
    (later : Along step condition rest next) :
    Along step condition (action :: rest) start := by
  refine ⟨here, fun other stepsTo => ?_⟩
  rw [stepped, Option.some.injEq] at stepsTo
  exact stepsTo ▸ later

instance decidableAlong
    (step : A → σ → Option σ)
    (condition : A → σ → Prop)
    [∀ action state, Decidable (condition action state)] :
    ∀ actions start, Decidable (Along step condition actions start)
  | [], _ => .isTrue trivial
  | action :: rest, start =>
      match stepped : step action start with
      | none =>
          decidable_of_iff (condition action start) (by simp [Along, stepped])
      | some next =>
          let _ := decidableAlong step condition rest next
          decidable_of_iff
            (condition action start ∧ Along step condition rest next)
            (by simp [Along, stepped])

/-- The invariant rule, for runs whose actions all meet a condition. -/
theorem run_invariant_along
    {step : A → σ → Option σ}
    {condition : A → σ → Prop}
    {invariant : σ → Prop}
    (preserved :
      ∀ action state next,
        invariant state → condition action state →
          step action state = some next → invariant next)
    {actions : List A}
    {start final : σ}
    (initial : invariant start)
    (along : Along step condition actions start)
    (ran : run step actions start = some final) :
    invariant final := by
  induction actions generalizing start with
  | nil =>
      have same : start = final := by simpa [run] using ran
      exact same ▸ initial
  | cons action rest inductionHypothesis =>
      obtain ⟨middle, stepped, remaining⟩ := run_cons_eq_some_iff.mp ran
      obtain ⟨here, later⟩ := along
      exact inductionHypothesis
        (preserved action start middle initial here stepped)
        (later middle stepped) remaining

/-- A condition that all actions meet everywhere is met along every run. -/
theorem along_of_forall
    {step : A → σ → Option σ}
    {condition : A → σ → Prop}
    {actions : List A}
    (holds : ∀ action ∈ actions, ∀ state, condition action state)
    (start : σ) : Along step condition actions start := by
  induction actions generalizing start with
  | nil =>
      trivial
  | cons action rest inductionHypothesis =>
      refine ⟨holds action (List.mem_cons_self ..) start, fun next _ => ?_⟩
      exact inductionHypothesis
        (fun later member => holds later (List.mem_cons_of_mem _ member)) next

/-- What every successful action preserves, every run preserves. -/
theorem run_invariant
    {step : A → σ → Option σ}
    {invariant : σ → Prop}
    (preserved :
      ∀ action state next,
        invariant state → step action state = some next → invariant next)
    {actions : List A}
    {start final : σ}
    (initial : invariant start)
    (ran : run step actions start = some final) :
    invariant final :=
  run_invariant_along
    (fun action state next holds (_ : True) =>
      preserved action state next holds)
    initial (along_of_forall (fun _ _ _ => trivial) start) ran

/-- Some run leads from one state to the other. -/
def Reaches (step : A → σ → Option σ) (start final : σ) : Prop :=
  ∃ actions, run step actions start = some final

theorem Reaches.refl (step : A → σ → Option σ) (state : σ) :
    Reaches step state state :=
  ⟨[], rfl⟩

theorem Reaches.head
    {step : A → σ → Option σ}
    {start middle final : σ}
    (action : A)
    (stepped : step action start = some middle)
    (reaches : Reaches step middle final) : Reaches step start final := by
  obtain ⟨actions, ran⟩ := reaches
  exact ⟨action :: actions, run_cons_eq_some_iff.mpr ⟨middle, stepped, ran⟩⟩

theorem Reaches.trans
    {step : A → σ → Option σ}
    {start middle final : σ}
    (first : Reaches step start middle)
    (second : Reaches step middle final) : Reaches step start final := by
  obtain ⟨actions, ran⟩ := first
  induction actions generalizing start with
  | nil =>
      cases ran
      exact second
  | cons action rest inductionHypothesis =>
      obtain ⟨next, stepped, ranRest⟩ := run_cons_eq_some_iff.mp ran
      exact .head action stepped (inductionHypothesis ranRest)

/-- An amount, added up over the actions of a run. -/
def total (step : A → σ → Option σ) (amount : A → σ → Nat) :
    List A → σ → Nat
  | [], _ => 0
  | action :: rest, state =>
      amount action state +
        match step action state with
        | some next => total step amount rest next
        | none => 0

theorem total_cons
    {step : A → σ → Option σ}
    {amount : A → σ → Nat}
    {action : A}
    {rest : List A}
    {start next : σ}
    (stepped : step action start = some next) :
    total step amount (action :: rest) start =
      amount action start + total step amount rest next := by
  simp [total, stepped]

theorem total_add
    (step : A → σ → Option σ)
    (first second : A → σ → Nat)
    (actions : List A)
    (start : σ) :
    total step (fun action state => first action state + second action state)
        actions start =
      total step first actions start + total step second actions start := by
  induction actions generalizing start with
  | nil =>
      rfl
  | cons action rest inductionHypothesis =>
      unfold total
      split
      · rw [inductionHypothesis]
        omega
      · rfl

/-- The balance rule: what every action adds and takes, every run does. -/
theorem run_balance
    {step : A → σ → Option σ}
    {invariant : σ → Prop}
    {stock : σ → Nat}
    {gain loss : A → σ → Nat}
    (preserved :
      ∀ action state next,
        invariant state → step action state = some next → invariant next)
    (balanced :
      ∀ action state next,
        invariant state → step action state = some next →
          stock next + loss action state = stock state + gain action state)
    {actions : List A}
    {start final : σ}
    (initial : invariant start)
    (ran : run step actions start = some final) :
    stock final + total step loss actions start =
      stock start + total step gain actions start := by
  induction actions generalizing start with
  | nil =>
      have same : start = final := by simpa [run] using ran
      simp [same, total]
  | cons action rest inductionHypothesis =>
      obtain ⟨middle, stepped, remaining⟩ := run_cons_eq_some_iff.mp ran
      have here := balanced action start middle initial stepped
      have later := inductionHypothesis
        (preserved action start middle initial stepped) remaining
      rw [total_cons stepped, total_cons stepped]
      omega

/-- A step-by-step simulation by total actions holds along every run. -/
theorem run_simulates
    {step : A → σ → Option σ}
    {other : A → τ → τ}
    {related : σ → τ → Prop}
    (matched :
      ∀ action state next abstract,
        related state abstract → step action state = some next →
          related next (other action abstract))
    {actions : List A}
    {start final : σ}
    {abstract : τ}
    (initial : related start abstract)
    (ran : run step actions start = some final) :
    related final
      (actions.foldl (fun state action => other action state) abstract) := by
  induction actions generalizing start abstract with
  | nil =>
      have same : start = final := by simpa [run] using ran
      exact same ▸ initial
  | cons action rest inductionHypothesis =>
      obtain ⟨middle, stepped, remaining⟩ := run_cons_eq_some_iff.mp ran
      exact inductionHypothesis
        (matched action start middle abstract initial stepped) remaining

/-- What every item of a fallible fold preserves, the fold preserves. -/
theorem foldlM_invariant
    {step : σ → A → Except (Fault ε) σ}
    {items : List A}
    {invariant : σ → Prop}
    (preserved :
      ∀ item ∈ items, ∀ state next,
        invariant state → step state item = .ok next → invariant next)
    {start final : σ}
    (initial : invariant start)
    (folded : items.foldlM step start = .ok final) :
    invariant final := by
  induction items generalizing start with
  | nil =>
      cases folded
      exact initial
  | cons item rest inductionHypothesis =>
      rw [List.foldlM_cons, bind_eq_ok_iff] at folded
      obtain ⟨middle, first, remaining⟩ := folded
      obtain ⟨here, later⟩ := List.forall_mem_cons.mp preserved
      exact inductionHypothesis later (here start middle initial first)
        remaining

end Library.Run

namespace Library.Loop

/-!
# Loops with fuel

A loop body either hands on a next state or leaves the loop with a result.
`passes` observes the states at the head of the body.
-/

variable {σ ε α : Type}

/-- Run a loop body until it leaves the loop or the fuel is used up. -/
def loop (body : σ → Except (Fault ε) (σ ⊕ α)) :
    Nat → σ → Except (Fault ε) α
  | 0, _ => .error .diverge
  | fuel + 1, state =>
      match body state with
      | .ok (.inl next) => loop body fuel next
      | .ok (.inr result) => .ok result
      | .error fault => .error fault

/-- Whether the loop meets a state of some kind. -/
def passes (kind : σ → Bool) (body : σ → Except (Fault ε) (σ ⊕ α)) :
    Nat → σ → Bool
  | 0, _ => false
  | fuel + 1, state =>
      kind state ||
        match body state with
        | .ok (.inl next) => passes kind body fuel next
        | _ => false

/-- The invariant rule. -/
theorem loop_invariant
    {body : σ → Except (Fault ε) (σ ⊕ α)}
    (invariant : σ → Prop)
    (post : α → Prop)
    (preserved :
      ∀ state next,
        invariant state → body state = .ok (.inl next) → invariant next)
    (finished :
      ∀ state result,
        invariant state → body state = .ok (.inr result) → post result)
    {fuel : Nat}
    {start : σ}
    {result : α}
    (initial : invariant start)
    (looped : loop body fuel start = .ok result) :
    post result := by
  induction fuel generalizing start with
  | zero =>
      simp [loop] at looped
  | succ fuel inductionHypothesis =>
      unfold loop at looped
      split at looped
      · rename_i next stepped
        exact inductionHypothesis (preserved start next initial stepped)
          looped
      · rename_i returned stepped
        cases looped
        exact finished start result initial stepped
      · cases looped

/-- A loop never meets the states that its invariant rules out. -/
theorem passes_eq_false
    {body : σ → Except (Fault ε) (σ ⊕ α)}
    {kind : σ → Bool}
    {invariant : σ → Prop}
    (preserved :
      ∀ state next,
        invariant state → body state = .ok (.inl next) → invariant next)
    (excluded : ∀ state, invariant state → kind state = false)
    (fuel : Nat)
    {start : σ}
    (initial : invariant start) :
    passes kind body fuel start = false := by
  induction fuel generalizing start with
  | zero =>
      rfl
  | succ fuel inductionHypothesis =>
      simp only [passes, excluded start initial, Bool.false_or]
      split
      · rename_i next stepped
        exact inductionHypothesis (preserved start next initial stepped)
      · rfl

end Library.Loop
