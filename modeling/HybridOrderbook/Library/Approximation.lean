import HybridOrderbook.Library.Run

namespace Library

/-!
# Computations that return what others return

`Approximates first second` says that whatever the first computation returns,
the second one returns, and `Agrees first second` that they come to the same
unless the first one panics.  A build with overflow checks agrees with the
build without them: it panics where the other one wraps.
-/

variable {ε ζ α β σ : Type}

/-- Whatever the first computation returns, the second one returns. -/
structure Approximates (first second : Except ε α) : Prop where
  returns : ∀ {value}, first = .ok value → second = .ok value

namespace Approximates

variable {first second : Except ε α}

theorem refl (computation : Except ε α) :
    Approximates computation computation :=
  ⟨fun computed => computed⟩

/-- If both return, they return the same. -/
theorem unique
    (approximates : Approximates first second)
    {value other : α}
    (computed : first = .ok value)
    (otherComputed : second = .ok other) : other = value := by
  rw [approximates.returns computed, Except.ok.injEq] at otherComputed
  exact otherComputed.symm

theorem bind
    {next other : α → Except ε β}
    (approximates : Approximates first second)
    (later : ∀ value, Approximates (next value) (other value)) :
    Approximates (first >>= next) (second >>= other) := by
  refine ⟨fun computed => ?_⟩
  obtain ⟨value, computedFirst, computedNext⟩ := bind_eq_ok_iff.mp computed
  exact bind_eq_ok_iff.mpr
    ⟨value, approximates.returns computedFirst,
      (later value).returns computedNext⟩

theorem ite
    {condition : Prop}
    [Decidable condition]
    {other otherSecond : Except ε α}
    (positive : Approximates first second)
    (negative : Approximates other otherSecond) :
    Approximates (if condition then first else other)
      (if condition then second else otherSecond) := by
  split
  · exact positive
  · exact negative

theorem mapErr
    {first second : Except (Fault ε) α}
    (change : ε → ζ)
    (approximates : Approximates first second) :
    Approximates (mapErr change first) (Library.mapErr change second) :=
  ⟨fun computed => mapErr_eq_ok_iff.mpr
    (approximates.returns (mapErr_eq_ok_iff.mp computed))⟩

theorem foldlM
    {step other : β → α → Except ε β}
    (approximates :
      ∀ state item, Approximates (step state item) (other state item))
    (items : List α)
    (start : β) :
    Approximates (items.foldlM step start) (items.foldlM other start) := by
  induction items generalizing start with
  | nil =>
      exact refl _
  | cons item rest inductionHypothesis =>
      rw [List.foldlM_cons, List.foldlM_cons]
      exact (approximates start item).bind inductionHypothesis

theorem loop
    {body other : σ → Except (Fault ε) (σ ⊕ α)}
    (approximates : ∀ state, Approximates (body state) (other state))
    (fuel : Nat)
    (start : σ) :
    Approximates (Loop.loop body fuel start)
      (Loop.loop other fuel start) := by
  induction fuel generalizing start with
  | zero =>
      exact refl _
  | succ fuel inductionHypothesis =>
      refine ⟨fun looped => ?_⟩
      unfold Loop.loop at looped ⊢
      split at looped
      · rename_i next stepped
        rw [(approximates start).returns stepped]
        exact (inductionHypothesis next).returns looped
      · rename_i returned stepped
        rw [(approximates start).returns stepped]
        exact looped
      · cases looped

end Approximates

/-- Both computations come to the same, unless the first one panics. -/
structure Agrees (first second : Except (Fault ε) α) : Prop where
  same : first ≠ .error .panic → second = first

namespace Agrees

variable {first second : Except (Fault ε) α}

theorem refl (computation : Except (Fault ε) α) :
    Agrees computation computation :=
  ⟨fun _ => rfl⟩

theorem approximates
    (agrees : Agrees first second) : Approximates first second := by
  refine ⟨fun computed => ?_⟩
  rw [agrees.same (by rw [computed]; nofun), computed]

theorem bind
    {next other : α → Except (Fault ε) β}
    (agrees : Agrees first second)
    (later : ∀ value, Agrees (next value) (other value)) :
    Agrees (first >>= next) (second >>= other) := by
  refine ⟨fun avoided => ?_⟩
  rw [agrees.same fun panicked =>
    avoided (bind_eq_error_iff.mpr (.inl panicked))]
  cases first with
  | error fault =>
      rfl
  | ok value =>
      exact (later value).same avoided

theorem ite
    {condition : Prop}
    [Decidable condition]
    {other otherSecond : Except (Fault ε) α}
    (positive : Agrees first second)
    (negative : Agrees other otherSecond) :
    Agrees (if condition then first else other)
      (if condition then second else otherSecond) := by
  split
  · exact positive
  · exact negative

theorem loop
    {body other : σ → Except (Fault ε) (σ ⊕ α)}
    (agrees : ∀ state, Agrees (body state) (other state))
    (fuel : Nat)
    (start : σ) :
    Agrees (Loop.loop body fuel start) (Loop.loop other fuel start) := by
  induction fuel generalizing start with
  | zero =>
      exact refl _
  | succ fuel inductionHypothesis =>
      refine ⟨fun avoided => ?_⟩
      unfold Loop.loop at avoided ⊢
      have same := (agrees start).same fun panicked =>
        avoided (by rw [panicked])
      rw [same]
      rcases stepped : body start with fault | next | result
      · rfl
      · rw [stepped] at avoided
        exact (inductionHypothesis next).same avoided
      · rfl

/-- A check that is made in one build only. -/
theorem check
    (checks : Bool)
    {overflow : Prop}
    [Decidable overflow]
    (computation : Except (Fault ε) α) :
    Agrees
      (if true = true ∧ overflow then .error .panic else computation)
      (if checks = true ∧ overflow then .error .panic else computation) := by
  refine ⟨fun avoided => ?_⟩
  by_cases overflows : overflow
  · exact absurd (if_pos ⟨rfl, overflows⟩) avoided
  · rw [if_neg fun fails => overflows fails.2,
      if_neg fun fails => overflows fails.2]

end Agrees

namespace Machine

variable {width : Nat}

theorem add_agrees (checks : Bool) (a b : BitVec width) :
    Agrees (add true a b : Except (Fault ε) _) (add checks a b) :=
  .check checks _

theorem sub_agrees (checks : Bool) (a b : BitVec width) :
    Agrees (sub true a b : Except (Fault ε) _) (sub checks a b) :=
  .check checks _

theorem mul_agrees (checks : Bool) (a b : BitVec width) :
    Agrees (mul true a b : Except (Fault ε) _) (mul checks a b) :=
  .check checks _

theorem pow_agrees (checks : Bool) (base exponent : Nat) :
    Agrees
      (pow true base exponent : Except (Fault ε) (BitVec width))
      (pow checks base exponent) :=
  .check checks _

end Machine

end Library
