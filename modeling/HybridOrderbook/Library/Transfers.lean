import Mathlib.Algebra.BigOperators.Group.Finset.Basic
import Mathlib.Tactic

namespace Library

/-!
# Holdings and transfers

Accounts hold amounts of assets.  `Transfer.Moves transfers before after` says
that a list of transfers leads from one state of the holdings to another one:
each account ends up with what it had, less what it paid, and what it
received.  Transfers keep the total of every asset, and whoever does not pay
has no less afterwards.
-/

/-- An amount of an asset that goes from one account to another. -/
structure Transfer (Account Asset : Type) where
  asset : Asset
  source : Account
  dest : Account
  amount : Nat

namespace Transfer

variable {Account Asset : Type} [DecidableEq Account] [DecidableEq Asset]

/-- What an account pays of an asset. -/
def paid
    (transfers : List (Transfer Account Asset))
    (asset : Asset)
    (who : Account) : Nat :=
  (transfers.map fun transfer =>
    if asset = transfer.asset ∧ who = transfer.source then
      transfer.amount
    else
      0).sum

/-- What an account receives of an asset. -/
def received
    (transfers : List (Transfer Account Asset))
    (asset : Asset)
    (who : Account) : Nat :=
  (transfers.map fun transfer =>
    if asset = transfer.asset ∧ who = transfer.dest then
      transfer.amount
    else
      0).sum

/-- The transfers lead from the holdings before to those after. -/
def Moves
    (transfers : List (Transfer Account Asset))
    (before after : Asset → Account → Nat) : Prop :=
  ∀ asset who,
    after asset who + paid transfers asset who =
      before asset who + received transfers asset who

variable {transfers later : List (Transfer Account Asset)}
  {before middle after : Asset → Account → Nat}

theorem Moves.append
    (first : Moves transfers before middle)
    (second : Moves later middle after) :
    Moves (transfers ++ later) before after := by
  intro asset who
  have here := first asset who
  have there := second asset who
  simp only [paid, received, List.map_append, List.sum_append] at here there ⊢
  omega

/-- Whoever pays nothing has no less afterwards. -/
theorem Moves.le
    (moves : Moves transfers before after)
    {who : Account}
    (others : ∀ transfer ∈ transfers, transfer.source ≠ who)
    (asset : Asset) : before asset who ≤ after asset who := by
  have nothing : paid transfers asset who = 0 := by
    refine List.sum_eq_zero fun amount member => ?_
    obtain ⟨transfer, listed, rfl⟩ := List.mem_map.mp member
    exact if_neg fun pays => others transfer listed pays.2.symm
  have moved := moves asset who
  rw [nothing] at moved
  omega

/-- What all accounts pay is what all accounts receive. -/
theorem sum_paid
    [Fintype Account]
    (transfers : List (Transfer Account Asset))
    (asset : Asset) :
    ∑ who, paid transfers asset who =
      ∑ who, received transfers asset who := by
  induction transfers with
  | nil =>
      rfl
  | cons transfer rest inductionHypothesis =>
      have here :
          (∑ who, if asset = transfer.asset ∧ who = transfer.source then
              transfer.amount else 0) =
            ∑ who, if asset = transfer.asset ∧ who = transfer.dest then
              transfer.amount else 0 := by
        by_cases same : asset = transfer.asset
        · simp [same]
        · simp [same]
      simp only [paid, received, List.map_cons, List.sum_cons,
        Finset.sum_add_distrib] at inductionHypothesis ⊢
      rw [here, inductionHypothesis]

/-- Transfers keep the total of every asset. -/
theorem Moves.total
    [Fintype Account]
    (moves : Moves transfers before after)
    (asset : Asset) :
    ∑ who, after asset who = ∑ who, before asset who := by
  have moved :
      ∑ who, (after asset who + paid transfers asset who) =
        ∑ who, (before asset who + received transfers asset who) :=
    Finset.sum_congr rfl fun who _ => moves asset who
  rw [Finset.sum_add_distrib, Finset.sum_add_distrib, sum_paid] at moved
  exact Nat.add_right_cancel moved

end Transfer

end Library
