import HybridOrderbook.Library.Run

namespace Library

/-!
# Computations that fail alike

`Alike related first second` says that two computations fail with the same
fault, or return related results.  A simulation is shown for one action and
carried to runs in which actions that fail leave the state as it was.
-/

variable {ε ζ α β γ δ σ τ A : Type}

/-- Both computations fail alike, or return related results. -/
inductive Alike (related : α → β → Prop) : Except ε α → Except ε β → Prop where
  | ok {value : α} {other : β} (holds : related value other) :
      Alike related (.ok value) (.ok other)
  | error (fault : ε) : Alike related (.error fault) (.error fault)

theorem optionRel_mono
    {related weaker : α → β → Prop}
    {option : Option α}
    {other : Option β}
    (found : Option.Rel related option other)
    (implies : ∀ value other, related value other → weaker value other) :
    Option.Rel weaker option other := by
  cases found with
  | some holds =>
      exact .some (implies _ _ holds)
  | none =>
      exact .none

namespace Alike

variable {related : α → β → Prop} {relatedLater : γ → δ → Prop}
  {first : Except ε α} {second : Except ε β}

theorem symm
    (alike : Alike related first second) :
    Alike (fun other value => related value other) second first := by
  cases alike with
  | ok holds =>
      exact .ok holds
  | error fault =>
      exact .error fault

theorem mono
    {weaker : α → β → Prop}
    (alike : Alike related first second)
    (implies : ∀ value other, related value other → weaker value other) :
    Alike weaker first second := by
  cases alike with
  | ok holds =>
      exact .ok (implies _ _ holds)
  | error fault =>
      exact .error fault

theorem bind
    {next : α → Except ε γ}
    {other : β → Except ε δ}
    (alike : Alike related first second)
    (later :
      ∀ value otherValue, related value otherValue →
        Alike relatedLater (next value) (other otherValue)) :
    Alike relatedLater (first >>= next) (second >>= other) := by
  cases alike with
  | ok holds =>
      exact later _ _ holds
  | error fault =>
      exact .error fault

/-- Only the first computation goes on, without failing. -/
theorem map_left
    {change : α → γ}
    {relatedLater : γ → β → Prop}
    (alike :
      Alike (fun value other => relatedLater (change value) other) first
        second) :
    Alike relatedLater (first >>= fun value => .ok (change value))
      second := by
  cases alike with
  | ok holds =>
      exact .ok holds
  | error fault =>
      exact .error fault

/-- Only the second computation goes on, without failing. -/
theorem map_right
    {change : β → δ}
    {relatedLater : α → δ → Prop}
    (alike :
      Alike (fun value other => relatedLater value (change other)) first
        second) :
    Alike relatedLater first
      (second >>= fun other => .ok (change other)) := by
  cases alike with
  | ok holds =>
      exact .ok holds
  | error fault =>
      exact .error fault

/-- Both computations start with the same one. -/
theorem bind_same
    {computation : Except ε α}
    {next : α → Except ε γ}
    {other : α → Except ε δ}
    (later :
      ∀ value, computation = .ok value →
        Alike relatedLater (next value) (other value)) :
    Alike relatedLater (computation >>= next) (computation >>= other) := by
  cases computation with
  | ok value =>
      exact later value rfl
  | error fault =>
      exact .error fault

theorem ite
    {condition : Prop}
    [Decidable condition]
    {otherFirst : Except ε α}
    {otherSecond : Except ε β}
    (positive : condition → Alike related first second)
    (negative : ¬ condition → Alike related otherFirst otherSecond) :
    Alike related (if condition then first else otherFirst)
      (if condition then second else otherSecond) := by
  split
  · exact positive ‹_›
  · exact negative ‹_›

theorem mapErr
    {change : ε → ζ}
    {first : Except (Fault ε) α}
    {second : Except (Fault ε) β}
    (alike : Alike related first second) :
    Alike related (Library.mapErr change first)
      (Library.mapErr change second) := by
  cases alike with
  | ok holds =>
      exact .ok holds
  | error fault =>
      cases fault with
      | error error => exact .error _
      | panic => exact .error _
      | diverge => exact .error _

theorem okOr
    {option : Option α}
    {other : Option β}
    (found : Option.Rel related option other)
    (error : ε) :
    Alike related (Library.okOr option error) (Library.okOr other error) := by
  cases found with
  | some holds =>
      exact .ok holds
  | none =>
      exact .error _

/-- Loops whose bodies are alike at related states. -/
theorem loop
    {related : σ → τ → Prop}
    {finished : α → β → Prop}
    {body : σ → Except (Fault ε) (σ ⊕ α)}
    {other : τ → Except (Fault ε) (τ ⊕ β)}
    (alike :
      ∀ state otherState, related state otherState →
        Alike (Sum.LiftRel related finished) (body state)
          (other otherState))
    (fuel : Nat)
    {start : σ}
    {otherStart : τ}
    (initial : related start otherStart) :
    Alike finished (Loop.loop body fuel start)
      (Loop.loop other fuel otherStart) := by
  induction fuel generalizing start otherStart with
  | zero =>
      exact .error _
  | succ fuel inductionHypothesis =>
      unfold Loop.loop
      have round := alike start otherStart initial
      revert round
      generalize body start = outcome
      generalize other otherStart = otherOutcome
      intro round
      cases round with
      | error fault =>
          exact .error fault
      | ok holds =>
          cases holds with
          | inl stays => exact inductionHypothesis stays
          | inr leaves => exact .ok leaves

end Alike

namespace Run

/--
Carry out all actions, each from where the ones before it led.  An action
that fails leaves the state as it was; its fault is kept.
-/
def attempt (step : A → σ → Except ε σ) :
    List A → σ → List (Option ε) × σ
  | [], state => ([], state)
  | action :: rest, state =>
      match step action state with
      | .ok next =>
          let (faults, final) := attempt step rest next
          (none :: faults, final)
      | .error fault =>
          let (faults, final) := attempt step rest state
          (some fault :: faults, final)

/--
The simulation rule.  The relation may depend on the number of actions so
far, and only has to be kept below a bound.
-/
theorem attempt_alike
    {step : A → σ → Except ε σ}
    {other : A → τ → Except ε τ}
    {related : Nat → σ → τ → Prop}
    {bound : Nat}
    (later :
      ∀ {count state otherState},
        related count state otherState →
          related (count + 1) state otherState)
    (alike :
      ∀ {count state otherState} action,
        count < bound → related count state otherState →
          Alike (related (count + 1)) (step action state)
            (other action otherState))
    {actions : List A}
    {count : Nat}
    (within : count + actions.length ≤ bound)
    {start : σ}
    {otherStart : τ}
    (initial : related count start otherStart) :
    (attempt step actions start).1 = (attempt other actions otherStart).1 ∧
      related (count + actions.length) (attempt step actions start).2
        (attempt other actions otherStart).2 := by
  induction actions generalizing count start otherStart with
  | nil =>
      exact ⟨rfl, initial⟩
  | cons action rest inductionHypothesis =>
      rw [List.length_cons] at within ⊢
      have here : Alike (related (count + 1)) (step action start)
          (other action otherStart) :=
        alike action (by omega) initial
      have shift : count + (rest.length + 1) = count + 1 + rest.length := by
        omega
      unfold attempt
      rw [shift]
      revert here
      generalize step action start = outcome
      generalize other action otherStart = otherOutcome
      intro here
      cases here with
      | ok holds =>
          obtain ⟨sameFaults, final⟩ :=
            inductionHypothesis (by omega) holds
          exact ⟨congrArg (none :: ·) sameFaults, final⟩
      | error fault =>
          obtain ⟨sameFaults, final⟩ :=
            inductionHypothesis (by omega) (later initial)
          exact ⟨congrArg (some fault :: ·) sameFaults, final⟩

end Run

end Library
