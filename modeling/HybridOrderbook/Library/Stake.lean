import Mathlib.Tactic
import Mathlib.Algebra.BigOperators.Ring.Finset

namespace Library

/-!
# Shares of a pair of reserves

Two reserves are owned in shares.  The square of what a share is worth is the
product of the reserves over the square of the supply; `Stake.Sustains` says
that it does not fall, without dividing.

The rules are about the roundings of the operations on such a pair: shares
are issued and redeemed rounded down, and trades leave the product of the
reserves at least where it was.
-/

/-- Two reserves, and the supply of shares in them. -/
structure Stake where
  base : Nat
  quote : Nat
  supply : Nat

namespace Stake

variable {stake middle next : Stake}

/-- A share is worth no less afterwards. -/
def Sustains (stake next : Stake) : Prop :=
  stake.base * stake.quote * next.supply ^ 2 ≤
    next.base * next.quote * stake.supply ^ 2

theorem Sustains.trans
    (first : stake.Sustains middle)
    (second : middle.Sustains next)
    (issued : 0 < middle.supply) : stake.Sustains next := by
  refine Nat.le_of_mul_le_mul_right ?_ (pow_pos issued 2)
  calc
    stake.base * stake.quote * next.supply ^ 2 * middle.supply ^ 2 =
        stake.base * stake.quote * middle.supply ^ 2 * next.supply ^ 2 := by
      ring
    _ ≤ middle.base * middle.quote * stake.supply ^ 2 *
          next.supply ^ 2 := Nat.mul_le_mul_right _ first
    _ = middle.base * middle.quote * next.supply ^ 2 *
          stake.supply ^ 2 := by
      ring
    _ ≤ next.base * next.quote * middle.supply ^ 2 *
          stake.supply ^ 2 := Nat.mul_le_mul_right _ second
    _ = next.base * next.quote * stake.supply ^ 2 * middle.supply ^ 2 := by
      ring

/-- Trades keep the supply, and the product of the reserves does not fall. -/
theorem sustains_of_product
    (sameSupply : next.supply = stake.supply)
    (product : stake.base * stake.quote ≤ next.base * next.quote) :
    stake.Sustains next := by
  rw [Sustains, sameSupply]
  exact Nat.mul_le_mul_right _ product

/-- A share has no less of either reserve afterwards. -/
structure KeepsParts (stake next : Stake) : Prop where
  base : stake.base * next.supply ≤ next.base * stake.supply
  quote : stake.quote * next.supply ≤ next.quote * stake.supply

theorem KeepsParts.sustains (keeps : stake.KeepsParts next) :
    stake.Sustains next := by
  calc
    stake.base * stake.quote * next.supply ^ 2 =
        (stake.base * next.supply) * (stake.quote * next.supply) := by
      ring
    _ ≤ (next.base * stake.supply) * (next.quote * stake.supply) :=
      Nat.mul_le_mul keeps.base keeps.quote
    _ = next.base * next.quote * stake.supply ^ 2 := by
      ring

theorem part_le_trans
    {part supply middlePart middleSupply nextPart nextSupply : Nat}
    (first : part * middleSupply ≤ middlePart * supply)
    (second : middlePart * nextSupply ≤ nextPart * middleSupply)
    (issued : 0 < middleSupply) :
    part * nextSupply ≤ nextPart * supply := by
  refine Nat.le_of_mul_le_mul_right ?_ issued
  calc
    part * nextSupply * middleSupply = part * middleSupply * nextSupply := by
      ring
    _ ≤ middlePart * supply * nextSupply := Nat.mul_le_mul_right _ first
    _ = middlePart * nextSupply * supply := by
      ring
    _ ≤ nextPart * middleSupply * supply := Nat.mul_le_mul_right _ second
    _ = nextPart * supply * middleSupply := by
      ring

theorem KeepsParts.refl (stake : Stake) : stake.KeepsParts stake :=
  ⟨le_rfl, le_rfl⟩

theorem KeepsParts.trans
    (first : stake.KeepsParts middle)
    (second : middle.KeepsParts next)
    (issued : 0 < middle.supply) : stake.KeepsParts next where
  base := part_le_trans first.base second.base issued
  quote := part_le_trans first.quote second.quote issued

/-- With as many shares as before, there is no less of either reserve. -/
theorem KeepsParts.reserves_le
    (keeps : stake.KeepsParts next)
    (issued : 0 < stake.supply)
    (supply : stake.supply ≤ next.supply) :
    stake.base ≤ next.base ∧ stake.quote ≤ next.quote := by
  constructor
  · refine Nat.le_of_mul_le_mul_right ?_ issued
    exact (Nat.mul_le_mul_left _ supply).trans keeps.base
  · refine Nat.le_of_mul_le_mul_right ?_ issued
    exact (Nat.mul_le_mul_left _ supply).trans keeps.quote

/-- The reserves are worth the shares: as for a first deposit. -/
def Backed (stake : Stake) : Prop :=
  stake.supply ^ 2 ≤ stake.base * stake.quote

theorem Backed.sustained
    (backed : stake.Backed)
    (sustains : stake.Sustains next)
    (issued : 0 < stake.supply) : next.Backed := by
  refine Nat.le_of_mul_le_mul_right ?_ (pow_pos issued 2)
  calc
    next.supply ^ 2 * stake.supply ^ 2 =
        stake.supply ^ 2 * next.supply ^ 2 := Nat.mul_comm _ _
    _ ≤ stake.base * stake.quote * next.supply ^ 2 :=
      Nat.mul_le_mul_right _ backed
    _ ≤ next.base * next.quote * stake.supply ^ 2 := sustains

/-- Neither reserve runs dry as long as there are shares. -/
theorem Backed.positive
    (backed : stake.Backed)
    (issued : 0 < stake.supply) : 0 < stake.base ∧ 0 < stake.quote := by
  have product : 0 < stake.base * stake.quote :=
    (pow_pos issued 2).trans_le backed
  exact ⟨Nat.pos_of_mul_pos_right product, Nat.pos_of_mul_pos_left product⟩

/-- Without shares being issued or burnt, not both reserves fall. -/
theorem Sustains.eq_of_le
    (sustains : stake.Sustains next)
    (sameSupply : next.supply = stake.supply)
    (issued : 0 < stake.supply)
    (positive : 0 < stake.base ∧ 0 < stake.quote)
    (baseLe : next.base ≤ stake.base)
    (quoteLe : next.quote ≤ stake.quote) :
    next.base = stake.base ∧ next.quote = stake.quote := by
  have product : stake.base * stake.quote ≤ next.base * next.quote := by
    rw [Sustains, sameSupply] at sustains
    exact Nat.le_of_mul_le_mul_right sustains (pow_pos issued 2)
  constructor
  · refine Nat.le_antisymm baseLe (Nat.le_of_not_lt fun less => ?_)
    exact absurd product (Nat.not_le.mpr
      (Nat.mul_lt_mul_of_lt_of_le less quoteLe positive.2))
  · refine Nat.le_antisymm quoteLe (Nat.le_of_not_lt fun less => ?_)
    exact absurd product (Nat.not_le.mpr
      (Nat.mul_lt_mul_of_le_of_lt baseLe less positive.1))

end Stake

section Roundings

variable {reserve supply amount minted redeemed burned paid : Nat}

/-- Shares for a deposit, rounded down. -/
theorem reserve_mul_le_of_minted
    (rounded : minted ≤ amount * supply / reserve) :
    reserve * (supply + minted) ≤ (reserve + amount) * supply := by
  have share : minted * reserve ≤ amount * supply :=
    (Nat.mul_le_mul_right reserve rounded).trans (Nat.div_mul_le_self _ _)
  calc
    reserve * (supply + minted) = reserve * supply + minted * reserve := by
      ring
    _ ≤ reserve * supply + amount * supply := Nat.add_le_add_left share _
    _ = (reserve + amount) * supply := by
      ring

/-- An amount is worth no more than an offer that is worth more than it. -/
theorem worth_le_of_lt_worth
    {offer otherReserve : Nat}
    (less : amount < offer * otherReserve / reserve) :
    amount * reserve / otherReserve ≤ offer := by
  refine Nat.div_le_of_le_mul ?_
  calc
    amount * reserve ≤ offer * otherReserve / reserve * reserve :=
      Nat.mul_le_mul_right reserve less.le
    _ ≤ offer * otherReserve := Nat.div_mul_le_self _ _
    _ = otherReserve * offer := Nat.mul_comm _ _

/-- What is paid for shares, rounded down and after a fee. -/
theorem reserve_mul_le_of_redeemed
    (rounded : paid ≤ redeemed * reserve / supply)
    (fee : redeemed ≤ burned) :
    reserve * (supply - burned) ≤ (reserve - paid) * supply := by
  have share : paid * supply ≤ burned * reserve :=
    ((Nat.mul_le_mul_right supply rounded).trans
      (Nat.div_mul_le_self _ _)).trans (Nat.mul_le_mul_right reserve fee)
  rw [Nat.mul_sub, Nat.sub_mul, Nat.mul_comm reserve burned]
  exact Nat.sub_le_sub_left share _

end Roundings

section Holdings

variable {Account : Type} {holdings : Account → Nat} {supply amount : Nat}
  {who : Account}

/-- No accounts hold more together than there is. -/
def Covers (supply : Nat) (holdings : Account → Nat) : Prop :=
  ∀ holders : Finset Account, ∑ holder ∈ holders, holdings holder ≤ supply

theorem Covers.le
    (covers : Covers supply holdings)
    (who : Account) : holdings who ≤ supply := by
  simpa using covers {who}

variable [DecidableEq Account]

theorem Covers.add
    (covers : Covers supply holdings) :
    Covers (supply + amount)
      (Function.update holdings who (holdings who + amount)) := by
  intro holders
  by_cases holds : who ∈ holders
  · have counted := covers holders
    rw [← Finset.add_sum_erase _ _ holds] at counted
    rw [Finset.sum_update_of_mem holds, Finset.sdiff_singleton_eq_erase]
    omega
  · rw [Finset.sum_update_of_notMem holds]
    exact (covers holders).trans (Nat.le_add_right ..)

theorem Covers.sub
    (covers : Covers supply holdings)
    (covered : amount ≤ holdings who) :
    Covers (supply - amount)
      (Function.update holdings who (holdings who - amount)) := by
  intro holders
  have counted := covers (insert who holders)
  rw [← Finset.add_sum_erase _ _ (Finset.mem_insert_self who holders)]
    at counted
  by_cases holds : who ∈ holders
  · rw [Finset.insert_eq_of_mem holds] at counted
    rw [Finset.sum_update_of_mem holds, Finset.sdiff_singleton_eq_erase]
    omega
  · rw [Finset.erase_insert holds] at counted
    rw [Finset.sum_update_of_notMem holds]
    omega

end Holdings

end Library
