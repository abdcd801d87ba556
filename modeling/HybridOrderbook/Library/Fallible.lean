import Mathlib.Tactic

namespace Library

/-!
# Fallible computations and machine arithmetic

Two small vocabularies shared by every model of imperative code.

`Proc` is a computation over mutable state that may fail.  Unlike a state
monad over `Except`, a failing `Proc` keeps the state it had reached, because
a failed method leaves its partial writes in the object it was called on.

`Machine` is fixed-width arithmetic as a compiler emits it: with overflow
checks a lossy operation panics, without them the result wraps.
-/

/-- The ways a computation can fail to return a value. -/
inductive Fault (ε : Type) where
  | error : ε → Fault ε
  | panic
  | diverge
  deriving Repr, DecidableEq

/-- A fallible computation over a state that survives failure. -/
def Proc (σ ε α : Type) : Type :=
  σ → Except (Fault ε) α × σ

namespace Proc

/-- Return a value and leave the state alone. -/
def pure (value : α) : Proc σ ε α :=
  fun state => (.ok value, state)

/-- Run a second computation on the state the first one reached. -/
def bind (first : Proc σ ε α) (next : α → Proc σ ε β) : Proc σ ε β :=
  fun state =>
    match first state with
    | (.ok value, reached) => next value reached
    | (.error fault, reached) => (.error fault, reached)

instance : Monad (Proc σ ε) where
  pure := Proc.pure
  bind := Proc.bind

/-- Read the current state. -/
def get : Proc σ ε σ :=
  fun state => (.ok state, state)

/-- Replace the current state. -/
def put (next : σ) : Proc σ ε Unit :=
  fun _ => (.ok (), next)

/-- Change the current state. -/
def modify (change : σ → σ) : Proc σ ε Unit :=
  fun state => (.ok (), change state)

/-- Fail with one of the computation's own errors. -/
def throw (error : ε) : Proc σ ε α :=
  fun state => (.error (.error error), state)

/-- Run a read-only computation on the current state. -/
def read (query : σ → Except (Fault ε) α) : Proc σ ε α :=
  fun state => (query state, state)

/-- Continue with the value of an option, or fail with the given error. -/
def okOr (option : Option α) (error : ε) : Proc σ ε α :=
  match option with
  | some value => Proc.pure value
  | none => throw error

/-- Running a bind runs its first half and looks at the outcome. -/
theorem bind_apply
    (first : Proc σ ε α)
    (next : α → Proc σ ε β)
    (state : σ) :
    (first >>= next) state =
      match first state with
      | (.ok value, reached) => next value reached
      | (.error fault, reached) => (.error fault, reached) :=
  rfl

/-- A bind whose first half succeeds continues from the reached state. -/
theorem bind_ok
    {first : Proc σ ε α}
    {next : α → Proc σ ε β}
    {state reached : σ}
    {value : α}
    (succeeded : first state = (.ok value, reached)) :
    (first >>= next) state = next value reached := by
  change Proc.bind first next state = _
  simp [Proc.bind, succeeded]

/-- A bind whose first half fails stops there. -/
theorem bind_error
    {first : Proc σ ε α}
    {next : α → Proc σ ε β}
    {state reached : σ}
    {fault : Fault ε}
    (failed : first state = (.error fault, reached)) :
    (first >>= next) state = (.error fault, reached) := by
  change Proc.bind first next state = _
  simp [Proc.bind, failed]

/-- A successful bind is two successful halves. -/
theorem bind_eq_ok_iff
    {first : Proc σ ε α}
    {next : α → Proc σ ε β}
    {state final : σ}
    {result : β} :
    (first >>= next) state = (.ok result, final) ↔
      ∃ value reached,
        first state = (.ok value, reached) ∧
          next value reached = (.ok result, final) := by
  change Proc.bind first next state = _ ↔ _
  unfold Proc.bind
  rcases first state with ⟨outcome, reached⟩
  cases outcome with
  | error fault =>
      simp
  | ok value =>
      simp

@[simp] theorem pure_apply (value : α) (state : σ) :
    (Pure.pure value : Proc σ ε α) state = (.ok value, state) :=
  rfl

@[simp] theorem get_apply (state : σ) :
    (get : Proc σ ε σ) state = (.ok state, state) :=
  rfl

@[simp] theorem put_apply (next state : σ) :
    (put next : Proc σ ε Unit) state = (.ok (), next) :=
  rfl

@[simp] theorem modify_apply (change : σ → σ) (state : σ) :
    (modify change : Proc σ ε Unit) state = (.ok (), change state) :=
  rfl

@[simp] theorem throw_apply (error : ε) (state : σ) :
    (throw error : Proc σ ε α) state = (.error (.error error), state) :=
  rfl

@[simp] theorem read_apply
    (query : σ → Except (Fault ε) α) (state : σ) :
    (read query : Proc σ ε α) state = (query state, state) :=
  rfl

@[simp] theorem okOr_some (value : α) (error : ε) (state : σ) :
    (okOr (some value) error : Proc σ ε α) state = (.ok value, state) :=
  rfl

@[simp] theorem okOr_none (error : ε) (state : σ) :
    (okOr (none : Option α) error : Proc σ ε α) state =
      (.error (.error error), state) :=
  rfl

/-- Changing the value that is returned leaves the state as it is. -/
theorem snd_bind_pure
    (first : Proc σ ε α)
    (value : α → β)
    (state : σ) :
    ((first >>= fun result => (Pure.pure (value result) : Proc σ ε β))
        state).2 = (first state).2 := by
  rw [bind_apply]
  rcases first state with ⟨outcome, reached⟩
  cases outcome <;> rfl

/-- A computation leaves a part of the state alone, even if it fails. -/
def Keeps (part : σ → τ) (computation : Proc σ ε α) : Prop :=
  ∀ state, part (computation state).2 = part state

section Keeps

variable {part : σ → τ}

/-- A second half that keeps a part leaves what the first one made of it. -/
theorem part_bind
    {first : Proc σ ε α}
    {next : α → Proc σ ε β}
    (nextKeeps : ∀ value, Keeps part (next value))
    (state : σ) :
    part ((first >>= next) state).2 = part (first state).2 := by
  rw [bind_apply]
  rcases first state with ⟨outcome, reached⟩
  cases outcome with
  | error fault =>
      rfl
  | ok value =>
      exact nextKeeps value reached

theorem Keeps.bind
    {first : Proc σ ε α}
    {next : α → Proc σ ε β}
    (firstKeeps : Keeps part first)
    (nextKeeps : ∀ value, Keeps part (next value)) :
    Keeps part (first >>= next) :=
  fun state => (part_bind nextKeeps state).trans (firstKeeps state)

/-- What is written may depend on the state that was read. -/
theorem keeps_get_bind
    {next : σ → Proc σ ε β}
    (kept : ∀ state, part (next state state).2 = part state) :
    Keeps part (get >>= next) :=
  kept

theorem keeps_put_bind
    {state reached : σ}
    {rest : Unit → Proc σ ε β}
    (same : part reached = part state)
    (kept : Keeps part (rest ())) :
    part ((put reached >>= rest) state).2 = part state :=
  (kept reached).trans same

theorem keeps_throw (error : ε) : Keeps part (throw error : Proc σ ε α) :=
  fun _ => rfl

theorem keeps_read (query : σ → Except (Fault ε) α) :
    Keeps part (read query) :=
  fun _ => rfl

theorem keeps_okOr (option : Option α) (error : ε) :
    Keeps part (okOr option error : Proc σ ε α) := by
  intro state
  cases option <;> rfl

theorem keeps_modify
    {change : σ → σ}
    (kept : ∀ state, part (change state) = part state) :
    Keeps part (modify change : Proc σ ε Unit) :=
  kept

end Keeps

/-- What is left, in terms of a part of the state that was there before. -/
def Leaves
    (part : σ → τ)
    (relation : τ → σ → Prop)
    (computation : Proc σ ε α) : Prop :=
  ∀ state, relation (part state) (computation state).2

/-- What the second half leaves, as long as the first one keeps the part. -/
theorem Keeps.bind_leaves
    {part : σ → τ}
    {relation : τ → σ → Prop}
    {first : Proc σ ε α}
    {next : α → Proc σ ε β}
    (keeps : Keeps part first)
    (same : ∀ state, relation (part state) state)
    (leaves : ∀ value, Leaves part relation (next value)) :
    Leaves part relation (first >>= next) := by
  intro state
  have kept := keeps state
  rw [bind_apply]
  revert kept
  rcases first state with ⟨outcome, reached⟩
  intro kept
  cases outcome with
  | error fault =>
      exact kept ▸ same reached
  | ok value =>
      exact kept ▸ leaves value reached

end Proc

/-- A successful bind of plain outcomes is two successful halves. -/
theorem bind_eq_ok_iff
    {first : Except ε α}
    {next : α → Except ε β}
    {result : β} :
    (first >>= next) = .ok result ↔
      ∃ value, first = .ok value ∧ next value = .ok result := by
  cases first with
  | error fault =>
      simp [bind, Except.bind]
  | ok value =>
      simp [bind, Except.bind]

/-- A bind fails in its first half or in its second. -/
theorem bind_eq_error_iff
    {first : Except ε α}
    {next : α → Except ε β}
    {fault : ε} :
    (first >>= next) = .error fault ↔
      first = .error fault ∨
        ∃ value, first = .ok value ∧ next value = .error fault := by
  cases first with
  | error other =>
      simp [bind, Except.bind]
  | ok value =>
      simp [bind, Except.bind]

theorem ok_bind
    (value : α)
    (next : α → Except ε β) : (Except.ok value >>= next) = next value :=
  rfl

/-- A computation that succeeds has a result. -/
theorem exists_ok_of_isOk
    {outcome : Except ε α}
    (succeeds : outcome.isOk = true) : ∃ value, outcome = .ok value := by
  cases outcome with
  | error fault =>
      cases succeeds
  | ok value =>
      exact ⟨value, rfl⟩

/-- Replace the error of a computation; faults that are no errors stay. -/
def mapErr (change : ε → ζ) :
    Except (Fault ε) α → Except (Fault ζ) α
  | .ok value => .ok value
  | .error (.error error) => .error (.error (change error))
  | .error .panic => .error .panic
  | .error .diverge => .error .diverge

/-- Replacing errors does not change what succeeds. -/
@[simp] theorem mapErr_eq_ok_iff
    {change : ε → ζ}
    {outcome : Except (Fault ε) α}
    {value : α} :
    mapErr change outcome = .ok value ↔ outcome = .ok value := by
  unfold mapErr
  split <;> simp

/-- The same for an arbitrary replacement of faults. -/
@[simp] theorem mapError_eq_ok_iff
    {change : ε → ζ}
    {outcome : Except ε α}
    {value : α} :
    outcome.mapError change = .ok value ↔ outcome = .ok value := by
  cases outcome <;> simp [Except.mapError]

/-- Pass the value of an option on, or fail with the given error. -/
def okOr (option : Option α) (error : ε) : Except (Fault ε) α :=
  match option with
  | some value => .ok value
  | none => .error (.error error)

/-- An option passed on successfully held the value. -/
@[simp] theorem okOr_eq_ok_iff
    {option : Option α}
    {error : ε}
    {value : α} :
    okOr option error = .ok value ↔ option = some value := by
  cases option with
  | none =>
      simp [okOr]
  | some held =>
      simp [okOr]

/-- Continue only when a condition holds, as the `ensure!` macro does. -/
def ensure (condition : Prop) [Decidable condition] (error : ε) :
    Except (Fault ε) Unit :=
  if condition then .ok () else .error (.error error)

/-- An `ensure` that passes establishes its condition. -/
@[simp] theorem ensure_eq_ok_iff
    {condition : Prop}
    [Decidable condition]
    {error : ε}
    {value : Unit} :
    ensure condition error = .ok value ↔ condition := by
  by_cases holds : condition <;> simp [ensure, holds]

/-- Dropping the fault keeps the successful outcomes. -/
theorem toOption_eq_some_iff
    {outcome : Except ε α}
    {value : α} :
    outcome.toOption = some value ↔ outcome = .ok value := by
  cases outcome <;> simp [Except.toOption]

instance decidableForallFound
    (outcome : Except (Fault ε) (Option α))
    (property : α → Prop)
    [DecidablePred property] :
    Decidable (∀ value, outcome = .ok (some value) → property value) :=
  match outcome with
  | .ok (some value) => decidable_of_iff (property value) (by simp)
  | .ok none => .isTrue (by simp)
  | .error _ => .isTrue (by simp)

/-- An `ensure` fails with its own error. -/
theorem ensure_eq_error_iff
    {condition : Prop}
    [Decidable condition]
    {error : ε}
    {fault : Fault ε} :
    ensure condition error = .error fault ↔
      ¬ condition ∧ .error error = fault := by
  by_cases holds : condition <;> simp [ensure, holds]

/-- The faults that a computation can end with. -/
def FailsOnly (allowed : ε → Prop) (outcome : Except ε α) : Prop :=
  ∀ fault, outcome = .error fault → allowed fault

namespace FailsOnly

variable {allowed other : ε → Prop} {first : Except ε α}
  {next : α → Except ε β}

/-- The second half only runs on what the first one returned. -/
theorem bind_of_ok
    (firstFails : FailsOnly allowed first)
    (nextFails :
      ∀ value, first = .ok value → FailsOnly allowed (next value)) :
    FailsOnly allowed (first >>= next) := by
  intro fault failed
  rcases bind_eq_error_iff.mp failed with failed | ⟨value, returned, failed⟩
  · exact firstFails fault failed
  · exact nextFails value returned fault failed

theorem bind
    (firstFails : FailsOnly allowed first)
    (nextFails : ∀ value, FailsOnly allowed (next value)) :
    FailsOnly allowed (first >>= next) :=
  firstFails.bind_of_ok fun value _ => nextFails value

theorem mono
    (fails : FailsOnly allowed first)
    (included : ∀ fault, allowed fault → other fault) :
    FailsOnly other first :=
  fun fault failed => included fault (fails fault failed)

/-- A computation that can fail in one way, and does not, has a result. -/
theorem exists_ok
    {fault : ε}
    (fails : FailsOnly (· = fault) first)
    (avoided : first ≠ .error fault) : ∃ value, first = .ok value := by
  cases first with
  | error found =>
      exact absurd (congrArg Except.error (fails found rfl)) avoided
  | ok value =>
      exact ⟨value, rfl⟩

/-- The same for the first half of a bind, and the second has not failed. -/
theorem exists_ok_of_bind
    {fault : ε}
    (fails : FailsOnly (· = fault) first)
    (avoided : (first >>= next) ≠ .error fault) :
    ∃ value, first = .ok value ∧ next value ≠ .error fault := by
  obtain ⟨value, succeeded⟩ := fails.exists_ok fun failed =>
    avoided (bind_eq_error_iff.mpr (.inl failed))
  exact ⟨value, succeeded, fun failed =>
    avoided (bind_eq_error_iff.mpr (.inr ⟨value, succeeded, failed⟩))⟩

end FailsOnly

/-- A computation that does not run for ever. -/
abbrev Returns (outcome : Except (Fault ε) α) : Prop :=
  FailsOnly (· ≠ .diverge) outcome

theorem returns_of_error
    {error : ε}
    {outcome : Except (Fault ε) α}
    (fails : FailsOnly (· = .error error) outcome) : Returns outcome := by
  refine fails.mono ?_
  rintro _ rfl
  nofun

theorem returns_of_panic
    {outcome : Except (Fault ε) α}
    (fails : FailsOnly (· = .panic) outcome) : Returns outcome := by
  refine fails.mono ?_
  rintro _ rfl
  nofun

theorem returns_of_ne_diverge
    {outcome : Except (Fault ε) α}
    (returned : outcome ≠ .error .diverge) : Returns outcome := by
  rintro fault failed rfl
  exact returned failed

theorem Returns.ne_diverge
    {outcome : Except (Fault ε) α}
    (returns : Returns outcome) : outcome ≠ .error .diverge :=
  fun diverged => returns _ diverged rfl

theorem failsOnly_ok (allowed : ε → Prop) (value : α) :
    FailsOnly allowed (.ok value : Except ε α) :=
  nofun

theorem failsOnly_ensure
    (condition : Prop)
    [Decidable condition]
    (error : ε) :
    FailsOnly (· = .error error) (ensure condition error) :=
  fun _ failed => (ensure_eq_error_iff.mp failed).2.symm

theorem failsOnly_okOr (option : Option α) (error : ε) :
    FailsOnly (· = .error error) (okOr option error) := by
  cases option with
  | none =>
      exact fun _ failed => (Except.error.inj failed).symm
  | some value =>
      exact failsOnly_ok _ value

theorem returns_ensure
    {condition : Prop}
    [Decidable condition]
    {error : ε} : Returns (ensure condition error) :=
  returns_of_error (failsOnly_ensure condition error)

theorem returns_okOr
    {option : Option α}
    {error : ε} : Returns (okOr option error) :=
  returns_of_error (failsOnly_okOr option error)

theorem Returns.mapErr
    {change : ε → ζ}
    {outcome : Except (Fault ε) α}
    (returns : Returns outcome) :
    Returns (Library.mapErr change outcome) := by
  cases outcome with
  | ok value =>
      exact failsOnly_ok _ value
  | error fault =>
      cases fault with
      | error error =>
          exact fun _ failed => Except.error.inj failed ▸ nofun
      | panic =>
          exact fun _ failed => Except.error.inj failed ▸ nofun
      | diverge =>
          exact absurd rfl returns.ne_diverge

namespace Machine

variable {ε : Type} {width : Nat}

/-- Addition: panics on overflow under checks, wraps otherwise. -/
def add (checks : Bool) (a b : BitVec width) :
    Except (Fault ε) (BitVec width) :=
  if checks = true ∧ 2 ^ width ≤ a.toNat + b.toNat then
    .error .panic
  else
    .ok (a + b)

/-- Subtraction: panics on underflow under checks, wraps otherwise. -/
def sub (checks : Bool) (a b : BitVec width) :
    Except (Fault ε) (BitVec width) :=
  if checks = true ∧ a < b then .error .panic else .ok (a - b)

/-- Multiplication: panics on overflow under checks, wraps otherwise. -/
def mul (checks : Bool) (a b : BitVec width) :
    Except (Fault ε) (BitVec width) :=
  if checks = true ∧ 2 ^ width ≤ a.toNat * b.toNat then
    .error .panic
  else
    .ok (a * b)

/-- Power: panics on overflow under checks, wraps otherwise. -/
def pow (checks : Bool) (base exponent : Nat) :
    Except (Fault ε) (BitVec width) :=
  if checks = true ∧ 2 ^ width ≤ base ^ exponent then
    .error .panic
  else
    .ok (BitVec.ofNat width (base ^ exponent))

/-- Division: a zero divisor panics whatever the build. -/
def div (a b : BitVec width) : Except (Fault ε) (BitVec width) :=
  if b = 0 then .error .panic else .ok (a / b)

/-- Remainder: a zero divisor panics whatever the build. -/
def rem (a b : BitVec width) : Except (Fault ε) (BitVec width) :=
  if b = 0 then .error .panic else .ok (a % b)

/--
Left shift: a count of the whole width or more panics under checks and is
taken modulo the width otherwise.
-/
def shl (checks : Bool) (a : BitVec width) (count : BitVec n) :
    Except (Fault ε) (BitVec width) :=
  if checks = true ∧ width ≤ count.toNat then
    .error .panic
  else
    .ok (a <<< (count.toNat % width))

section Panics

variable (checks : Bool) (a b : BitVec width)

/-- All that a check of arithmetic can do is panic. -/
theorem failsOnly_check
    {condition : Prop}
    [Decidable condition]
    (value : BitVec width) :
    FailsOnly (· = .panic)
      (if condition then .error .panic else .ok value :
        Except (Fault ε) (BitVec width)) := by
  intro fault failed
  split at failed
  · cases failed
    rfl
  · cases failed

theorem failsOnly_add :
    FailsOnly (· = .panic) (add checks a b : Except (Fault ε) _) :=
  failsOnly_check _

theorem failsOnly_sub :
    FailsOnly (· = .panic) (sub checks a b : Except (Fault ε) _) :=
  failsOnly_check _

theorem failsOnly_mul :
    FailsOnly (· = .panic) (mul checks a b : Except (Fault ε) _) :=
  failsOnly_check _

theorem failsOnly_pow (base exponent : Nat) :
    FailsOnly (· = .panic)
      (pow checks base exponent : Except (Fault ε) (BitVec width)) :=
  failsOnly_check _

theorem failsOnly_div :
    FailsOnly (· = .panic) (div a b : Except (Fault ε) _) :=
  failsOnly_check _

end Panics

/-- Whatever the build, an addition that succeeds is the word's own. -/
theorem eq_of_add
    {checks : Bool}
    {a b c : BitVec width}
    (added : (add checks a b : Except (Fault ε) _) = .ok c) :
    c = a + b := by
  unfold add at added
  split at added <;> simp_all

/-- Whatever the build, a subtraction that succeeds is the word's own. -/
theorem eq_of_sub
    {checks : Bool}
    {a b c : BitVec width}
    (subtracted : (sub checks a b : Except (Fault ε) _) = .ok c) :
    c = a - b := by
  unfold sub at subtracted
  split at subtracted <;> simp_all

/-- Whatever the build, a multiplication that succeeds is the word's own. -/
theorem eq_of_mul
    {checks : Bool}
    {a b c : BitVec width}
    (multiplied : (mul checks a b : Except (Fault ε) _) = .ok c) :
    c = a * b := by
  unfold mul at multiplied
  split at multiplied <;> simp_all

/-- Whatever the build, a power that succeeds is the word's own. -/
theorem eq_of_pow
    {checks : Bool}
    {base exponent : Nat}
    {c : BitVec width}
    (raised :
      (pow checks base exponent : Except (Fault ε) (BitVec width)) = .ok c) :
    c = BitVec.ofNat width (base ^ exponent) := by
  unfold pow at raised
  split at raised <;> simp_all

/-- A sum that fits is computed exactly by either build. -/
theorem add_of_lt
    {checks : Bool}
    {a b : BitVec width}
    (fits : a.toNat + b.toNat < 2 ^ width) :
    (add checks a b : Except (Fault ε) _) = .ok (a + b) := by
  have noOverflow : ¬ 2 ^ width ≤ a.toNat + b.toNat := Nat.not_le.mpr fits
  simp [add, noOverflow]

/-- A successful checked addition is exact. -/
theorem toNat_of_add_checked
    {a b c : BitVec width}
    (added : (add true a b : Except (Fault ε) _) = .ok c) :
    c.toNat = a.toNat + b.toNat := by
  unfold add at added
  split at added
  · cases added
  · rename_i fits
    cases added
    rw [BitVec.toNat_add]
    exact Nat.mod_eq_of_lt (by simpa using fits)

/-- A successful checked subtraction is exact. -/
theorem toNat_of_sub_checked
    {a b c : BitVec width}
    (subtracted : (sub true a b : Except (Fault ε) _) = .ok c) :
    b.toNat ≤ a.toNat ∧ c.toNat = a.toNat - b.toNat := by
  unfold sub at subtracted
  split at subtracted
  · cases subtracted
  · rename_i fits
    cases subtracted
    have ordered : b ≤ a := by simpa using fits
    exact ⟨ordered, BitVec.toNat_sub_of_le ordered⟩

/-- A difference that fits is computed exactly by either build. -/
theorem sub_of_le
    {checks : Bool}
    {a b : BitVec width}
    (fits : b.toNat ≤ a.toNat) :
    (sub checks a b : Except (Fault ε) _) = .ok (a - b) := by
  have noUnderflow : ¬ a < b := BitVec.not_lt.mpr fits
  simp [sub, noUnderflow]

/-- A difference of small numbers is that of the naturals. -/
theorem sub_ofNat
    {checks : Bool}
    {a b : Nat}
    (ordered : b ≤ a)
    (fits : a < 2 ^ width) :
    (sub checks (BitVec.ofNat width a) (BitVec.ofNat width b) :
        Except (Fault ε) _) =
      .ok (BitVec.ofNat width (a - b)) := by
  have first : (BitVec.ofNat width a).toNat = a := by
    rw [BitVec.toNat_ofNat, Nat.mod_eq_of_lt fits]
  have second : (BitVec.ofNat width b).toNat = b := by
    rw [BitVec.toNat_ofNat, Nat.mod_eq_of_lt (ordered.trans_lt fits)]
  rw [sub_of_le (by rw [first, second]; exact ordered),
    BitVec.ofNat_sub_ofNat_of_le a b (ordered.trans_lt fits) ordered]

/-- A shift by less than the width is computed exactly by either build. -/
theorem shl_of_lt
    {checks : Bool}
    {a : BitVec width}
    {count : BitVec n}
    (inside : count.toNat < width) :
    (shl checks a count : Except (Fault ε) _) =
      .ok (a <<< count.toNat) := by
  have legal : ¬ width ≤ count.toNat := Nat.not_le.mpr inside
  simp [shl, legal, Nat.mod_eq_of_lt inside]

/-- A product that fits is computed exactly by either build. -/
theorem mul_of_lt
    {checks : Bool}
    {a b : BitVec width}
    (fits : a.toNat * b.toNat < 2 ^ width) :
    (mul checks a b : Except (Fault ε) _) = .ok (a * b) := by
  have noOverflow : ¬ 2 ^ width ≤ a.toNat * b.toNat := Nat.not_le.mpr fits
  simp [mul, noOverflow]

/-- A successful checked multiplication is exact. -/
theorem toNat_of_mul_checked
    {a b c : BitVec width}
    (multiplied : (mul true a b : Except (Fault ε) _) = .ok c) :
    c.toNat = a.toNat * b.toNat := by
  unfold mul at multiplied
  split at multiplied
  · cases multiplied
  · rename_i fits
    cases multiplied
    rw [BitVec.toNat_mul]
    exact Nat.mod_eq_of_lt (by simpa using fits)

/-- A power that fits is computed exactly by either build. -/
theorem pow_of_lt
    {checks : Bool}
    {base exponent : Nat}
    (fits : base ^ exponent < 2 ^ width) :
    (pow checks base exponent : Except (Fault ε) (BitVec width)) =
      .ok (BitVec.ofNat width (base ^ exponent)) := by
  have noOverflow : ¬ 2 ^ width ≤ base ^ exponent := Nat.not_le.mpr fits
  simp [pow, noOverflow]

/-- A successful checked power is exact. -/
theorem toNat_of_pow_checked
    {base exponent : Nat}
    {c : BitVec width}
    (raised :
      (pow true base exponent : Except (Fault ε) (BitVec width)) = .ok c) :
    c.toNat = base ^ exponent := by
  unfold pow at raised
  split at raised
  · cases raised
  · rename_i fits
    cases raised
    rw [BitVec.toNat_ofNat]
    exact Nat.mod_eq_of_lt (by simpa using fits)

/-- A successful division had a nonzero divisor. -/
theorem div_eq_ok_iff {a b c : BitVec width} :
    (div a b : Except (Fault ε) _) = .ok c ↔ b ≠ 0 ∧ a / b = c := by
  unfold div
  split <;> simp_all

/-- A successful remainder had a nonzero divisor. -/
theorem rem_eq_ok_iff {a b c : BitVec width} :
    (rem a b : Except (Fault ε) _) = .ok c ↔ b ≠ 0 ∧ a % b = c := by
  unfold rem
  split <;> simp_all

end Machine

end Library
