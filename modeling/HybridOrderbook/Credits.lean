import HybridOrderbook.Orientation

namespace HybridOrderbook.Config

open Library

/-!
# What a failed credit swap gives back

The swaps of `SwapCredit` run in a transaction of their own and hand their
input back with every error.  The swap for an exact amount splits its input
before the pool is asked; from there on only the part that was to be swapped
is handed back, and the change is dropped.
-/

variable {w : Nat} {Account Asset : Type} [DecidableEq Account]
  [DecidableEq Asset]

/-- Keep what a computation wrote only if it succeeded. -/
def withTransaction
    {α : Type}
    (computation :
      Ledger w Account Asset →
        Except (Credit w Asset × Fault PalletError)
          (α × Ledger w Account Asset))
    (ledger : Ledger w Account Asset) :
    Except (Credit w Asset × Fault PalletError) α ×
      Ledger w Account Asset :=
  match computation ledger with
  | .ok (value, next) => (.ok value, next)
  | .error failed => (.error failed, ledger)

section Functions

variable (config : Config w Account Asset)

/-- `SwapCredit::swap_exact_tokens_for_tokens`. -/
def swapExactTokensForTokens
    (path : List Asset)
    (creditIn : Credit w Asset)
    (amountOutMin : Option (BitVec w)) :
    Ledger w Account Asset →
      Except (Credit w Asset × Fault PalletError) (Credit w Asset) ×
        Ledger w Account Asset :=
  withTransaction
    (config.doSwapExactCreditTokensForTokens path creditIn amountOutMin)

/-- `SwapCredit::swap_tokens_for_exact_tokens`. -/
def swapTokensForExactTokens
    (path : List Asset)
    (creditIn : Credit w Asset)
    (amountOut : BitVec w) :
    Ledger w Account Asset →
      Except (Credit w Asset × Fault PalletError)
          (Credit w Asset × Credit w Asset) ×
        Ledger w Account Asset :=
  withTransaction
    (config.doSwapCreditTokensForExactTokens path creditIn amountOut)

end Functions

variable {config : Config w Account Asset} {ledger : Ledger w Account Asset}
  {creditIn returned : Credit w Asset} {fault : Fault PalletError}

/-- Every failure of a credit swap returns the credit it was given. -/
theorem creditSwap_eq_error
    {isBid : Bool}
    {path : BalancePath w Asset}
    (failed :
      config.creditSwap isBid creditIn path ledger =
        .error (returned, fault)) :
    returned = creditIn := by
  unfold creditSwap at failed
  split at failed
  · simp only at failed
    split at failed
    · cases failed
      rfl
    · split at failed
      · cases failed
        rfl
      · split at failed
        · cases failed
          rfl
        · cases failed
  · cases failed
    rfl

omit [DecidableEq Account] [DecidableEq Asset] in
/-- A transaction fails as its computation does. -/
theorem withTransaction_eq_error
    {α : Type}
    {computation :
      Ledger w Account Asset →
        Except (Credit w Asset × Fault PalletError)
          (α × Ledger w Account Asset)} :
    (withTransaction computation ledger).1 = .error (returned, fault) ↔
      computation ledger = .error (returned, fault) := by
  unfold withTransaction
  cases computation ledger with
  | error failed =>
      simp
  | ok value =>
      simp

theorem doSwapExactCreditTokensForTokens_eq_error
    {path : List Asset}
    {amountOutMin : Option (BitVec w)}
    (failed :
      config.doSwapExactCreditTokensForTokens path creditIn amountOutMin
        ledger = .error (returned, fault)) :
    returned = creditIn := by
  unfold doSwapExactCreditTokensForTokens at failed
  split at failed
  · cases failed
    rfl
  · exact creditSwap_eq_error failed

omit [DecidableEq Account] in
/-- The inspected amount is covered, so the split takes off just that. -/
theorem split_of_inspectPathToAmount
    {path : List Asset}
    {amountOut amountIn : BitVec w}
    {balances : BalancePath w Asset}
    (inspected :
      config.inspectPathToAmount path creditIn amountOut ledger =
        .ok (balances, amountIn)) :
    amountIn ≤ creditIn.amount ∧
      (creditIn.split amountIn).1 = ⟨creditIn.asset, amountIn⟩ := by
  simp only [inspectPathToAmount, bind_eq_ok_iff, ensure_eq_ok_iff,
    exists_const, Except.ok.injEq, Prod.mk.injEq] at inspected
  obtain ⟨_, _, _, _, _, _, _, ⟨_, _⟩, _, covered, _, rfl⟩ := inspected
  exact ⟨covered, by simp [Credit.split, covered]⟩

/-- A swap for an exact amount fails before the split or after it. -/
theorem doSwapCreditTokensForExactTokens_eq_error_iff
    {path : List Asset}
    {amountOut : BitVec w} :
    config.doSwapCreditTokensForExactTokens path creditIn amountOut ledger =
        .error (returned, fault) ↔
      (config.inspectPathToAmount path creditIn amountOut ledger =
            .error fault ∧
          returned = creditIn) ∨
        ∃ balances amountIn,
          config.inspectPathToAmount path creditIn amountOut ledger =
              .ok (balances, amountIn) ∧
            config.creditSwap false ⟨creditIn.asset, amountIn⟩ balances
                ledger = .error (returned, fault) := by
  unfold doSwapCreditTokensForExactTokens
  cases inspected :
    config.inspectPathToAmount path creditIn amountOut ledger with
  | error problem =>
      simp [and_comm, eq_comm]
  | ok answer =>
      obtain ⟨balances, amountIn⟩ := answer
      obtain ⟨_, part⟩ := split_of_inspectPathToAmount inspected
      simp only [part, reduceCtorEq, false_and, false_or, Except.ok.injEq,
        Prod.mk.injEq, ↓existsAndEq, true_and]
      cases config.creditSwap false ⟨creditIn.asset, amountIn⟩ balances
        ledger with
      | error failed =>
          simp
      | ok value =>
          simp

/--
If a swap for an exact amount finds that part of the credit is enough, the
pool takes that part and pays.
-/
def PartSwaps
    (config : Config w Account Asset)
    (path : List Asset)
    (creditIn : Credit w Asset)
    (amountOut : BitVec w)
    (ledger : Ledger w Account Asset) : Prop :=
  ∀ balances amountIn,
    config.inspectPathToAmount path creditIn amountOut ledger =
        .ok (balances, amountIn) →
      amountIn < creditIn.amount →
        (config.creditSwap false ⟨creditIn.asset, amountIn⟩ balances
          ledger).isOk = true

/--
A failed swap of an exact credit returns it whole.  A failed swap for an
exact amount does so if and only if it does not fail after the split of the
credit, or the split left no change.
-/
theorem failedSwaps_return_credit_iff
    (config : Config w Account Asset)
    (path : List Asset)
    (creditIn : Credit w Asset)
    (ledger : Ledger w Account Asset) :
    (∀ amountOutMin returned fault,
      (config.swapExactTokensForTokens path creditIn amountOutMin ledger).1 =
          .error (returned, fault) →
        returned = creditIn) ∧
      ∀ amountOut,
        (∀ returned fault,
          (config.swapTokensForExactTokens path creditIn amountOut
              ledger).1 = .error (returned, fault) →
            returned = creditIn) ↔
          config.PartSwaps path creditIn amountOut ledger := by
  simp only [swapExactTokensForTokens, swapTokensForExactTokens,
    withTransaction_eq_error]
  refine ⟨fun _ _ _ failed =>
    doSwapExactCreditTokensForTokens_eq_error failed, fun amountOut => ?_⟩
  simp only [doSwapCreditTokensForExactTokens_eq_error_iff]
  constructor
  · intro returnsCredit balances amountIn inspected less
    cases swapped :
      config.creditSwap false ⟨creditIn.asset, amountIn⟩ balances ledger with
    | ok value =>
        rfl
    | error failed =>
        have part := creditSwap_eq_error swapped
        have whole := returnsCredit failed.1 failed.2
          (.inr ⟨balances, amountIn, inspected, swapped⟩)
        rw [part] at whole
        rw [← whole] at less
        exact absurd less (BitVec.lt_irrefl _)
  · rintro partSwaps returned fault (⟨_, whole⟩ | ⟨balances, amountIn,
      inspected, swapped⟩)
    · exact whole
    · obtain ⟨covered, _⟩ := split_of_inspectPathToAmount inspected
      have part := creditSwap_eq_error swapped
      rcases Nat.lt_or_eq_of_le (BitVec.le_def.mp covered) with less | same
      · have succeeds :=
          partSwaps balances amountIn inspected (BitVec.lt_def.mpr less)
        rw [swapped] at succeeds
        cases succeeds
      · rw [part, BitVec.eq_of_toNat_eq same]

/--
A credit of 1000 is offered for 10 units of the other asset.  28 would be
enough, but the pool that the swap is executed with is empty; 28 are returned.
-/
theorem failedSwap_drops_change :
    (match mock.swapTokensForExactTokens [1, 0] ⟨1, 1000⟩ 10
        (Storage.mock (Pool.new 0 1 1 0 0 0) 100 250).ledger with
      | (.error (returned, fault), _) => some (returned, fault)
      | _ => none) = some (⟨1, 28⟩, .error .notExpendable) := by
  decide

end HybridOrderbook.Config
