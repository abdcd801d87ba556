import HybridOrderbook.Shares

namespace HybridOrderbook

open Library

/-!
# Deposits

`add_liquidity` takes all of one desired amount, and of the other asset what
that is worth at the price of the reserves, rounded down.  Which of the two
amounts is taken whole is decided by one rounded quotient, and the other
quotient is only computed when the first one was too high; the rounding never
lets both exceed what is desired.
-/

variable {w : Nat} {Account Asset : Type}

/-- A deposit in the proportion of the reserves, within the given bounds. -/
structure ProportionalDeposit
    (reserves desired least taken : Nat × Nat) : Prop where
  base : least.1 ≤ taken.1 ∧ taken.1 ≤ desired.1
  quote : least.2 ≤ taken.2 ∧ taken.2 ≤ desired.2
  -- one amount is taken whole, the other is its worth rounded down
  proportion :
    taken.1 = desired.1 ∧ taken.2 = taken.1 * reserves.2 / reserves.1 ∨
      taken.2 = desired.2 ∧ taken.1 = taken.2 * reserves.1 / reserves.2

namespace Config

section Amounts

variable
  {baseReserve quoteReserve baseDesired quoteDesired baseMin quoteMin
    baseAmount quoteAmount : BitVec w}

/-- The second quotient is only asked for when it stays within the offer. -/
theorem failsOnly_depositAmounts :
    FailsOnly (· ≠ .error .optimalAmountLessThanDesired)
      (depositAmounts baseReserve quoteReserve baseDesired quoteDesired
        baseMin quoteMin) := by
  have quoteFails (amount reserve1 reserve2 : BitVec w) :
      FailsOnly (· ≠ .error .optimalAmountLessThanDesired)
        (quote amount reserve1 reserve2) :=
    (failsOnly_mulDiv _ _ _).mono (by simp)
  unfold depositAmounts
  split
  · exact failsOnly_ok _ _
  refine (quoteFails _ _ _).bind_of_ok fun quoteOptimal quoted => ?_
  split
  · refine .bind ((failsOnly_ensure _ _).mono (by simp)) fun _ => ?_
    exact failsOnly_ok _ _
  rename_i exceeds
  refine (quoteFails _ _ _).bind_of_ok fun baseOptimal baseQuoted => ?_
  have within : baseOptimal ≤ baseDesired := by
    have less := BitVec.lt_def.mp (BitVec.not_le.mp exceeds)
    rw [(toNat_of_mulDiv quoted).2] at less
    rw [BitVec.le_def, (toNat_of_mulDiv baseQuoted).2]
    exact worth_le_of_lt_worth less
  refine .bind (fun _ failed => ?_) fun _ => ?_
  · exact absurd within (ensure_eq_error_iff.mp failed).1
  refine .bind ((failsOnly_ensure _ _).mono (by simp)) fun _ => ?_
  exact failsOnly_ok _ _

/-- What a deposit takes, when there are reserves. -/
theorem proportional_of_depositAmounts
    (baseNonzero : baseReserve ≠ 0)
    (quoteNonzero : quoteReserve ≠ 0)
    (baseBounds : baseMin ≤ baseDesired)
    (quoteBounds : quoteMin ≤ quoteDesired)
    (taken :
      depositAmounts baseReserve quoteReserve baseDesired quoteDesired
        baseMin quoteMin = .ok (baseAmount, quoteAmount)) :
    ProportionalDeposit (baseReserve.toNat, quoteReserve.toNat)
      (baseDesired.toNat, quoteDesired.toNat)
      (baseMin.toNat, quoteMin.toNat)
      (baseAmount.toNat, quoteAmount.toNat) := by
  simp only [depositAmounts, baseNonzero, quoteNonzero, or_self, ↓reduceIte,
    bind_eq_ok_iff] at taken
  obtain ⟨quoteOptimal, quoted, taken⟩ := taken
  have quoteWorth := (toNat_of_mulDiv quoted).2
  split at taken
  · -- the base asset is taken whole
    rename_i within
    simp only [bind_eq_ok_iff, ensure_eq_ok_iff, exists_const,
      Except.ok.injEq, Prod.mk.injEq] at taken
    obtain ⟨least, rfl, rfl⟩ := taken
    exact ⟨⟨baseBounds, le_rfl⟩, ⟨least, within⟩, .inl ⟨rfl, quoteWorth⟩⟩
  · simp only [bind_eq_ok_iff, ensure_eq_ok_iff, exists_const,
      Except.ok.injEq, Prod.mk.injEq] at taken
    obtain ⟨baseOptimal, baseQuoted, within, least, rfl, rfl⟩ := taken
    have baseWorth := (toNat_of_mulDiv baseQuoted).2
    exact ⟨⟨least, within⟩, ⟨quoteBounds, le_rfl⟩, .inr ⟨rfl, baseWorth⟩⟩

end Amounts

variable [DecidableEq Account] [DecidableEq Asset]
  (config : Config w Account Asset)

/-- The registry calls of a deposit: two transfers and the issue of shares. -/
def Deposits
    (base quote : Asset)
    (lpToken : Nat)
    (sender mintTo : Account)
    (baseAmount quoteAmount minted : BitVec w)
    (ledger next : Ledger w Account Asset) : Prop :=
  ∃ basePaid bothPaid,
    config.transfer base sender (config.address (base, quote)) baseAmount
        .preserve ledger = .ok basePaid ∧
      config.transfer quote sender (config.address (base, quote)) quoteAmount
        .preserve basePaid = .ok bothPaid ∧
      config.mintInto lpToken mintTo minted bothPaid = .ok next

variable {config} {base quote : Asset} {lpToken : Nat}
  {sender mintTo : Account} {baseAmount quoteAmount minted : BitVec w}
  {ledger next : Ledger w Account Asset}

/-- What a deposit does to the books. -/
theorem Deposits.effect
    (deposits :
      config.Deposits base quote lpToken sender mintTo baseAmount quoteAmount
        minted ledger next) :
    ledger.Moves next
        (Ledger.flow base sender baseAmount.toNat +
          Ledger.flow quote sender quoteAmount.toNat)
        (Ledger.flow base (config.address (base, quote)) baseAmount.toNat +
          Ledger.flow quote (config.address (base, quote))
            quoteAmount.toNat) ∧
      next.supply lpToken = ledger.supply lpToken + minted.toNat := by
  obtain ⟨basePaid, bothPaid, paidBase, paidQuote, issues⟩ := deposits
  have paid := (transfer_moves paidBase).1.trans (transfer_moves paidQuote).1
  have shares :=
    (transfer_sameShares paidBase).trans (transfer_sameShares paidQuote)
  constructor
  · intro asset who
    rw [(mintInto_eq_ok issues).1]
    exact paid asset who
  · rw [← shares.supply lpToken]
    exact issuance_of_mintInto issues

section AddLiquidity

variable {pool : Pool w Account} {storage : Storage w Account Asset}
  {baseReserve quoteReserve baseDesired quoteDesired baseMin quoteMin :
    BitVec w}

theorem failsOnly_addLiquidity :
    FailsOnly (· ≠ .error .optimalAmountLessThanDesired)
      (config.addLiquidity sender base quote baseDesired quoteDesired
        baseMin quoteMin mintTo storage) := by
  have transferFails {asset source dest} {amount : BitVec w} {ledger} :
      FailsOnly (· ≠ .error .optimalAmountLessThanDesired)
        (config.transfer asset source dest amount .preserve ledger) :=
    failsOnly_transfer.mono (by simp)
  have mintFails {lpToken who} {amount : BitVec w} {ledger} :
      FailsOnly (· ≠ .error .optimalAmountLessThanDesired)
        (config.mintInto lpToken who amount ledger) :=
    failsOnly_mintInto.mono (by simp)
  have ensureFails
      {condition : Prop}
      [Decidable condition]
      {error : PalletError}
      (other : error ≠ .optimalAmountLessThanDesired) :
      FailsOnly (· ≠ .error .optimalAmountLessThanDesired)
        (ensure condition error) :=
    (failsOnly_ensure _ _).mono (by simpa using other)
  have mulDivFails {a b c : BitVec w} :
      FailsOnly (· ≠ .error .optimalAmountLessThanDesired) (mulDiv a b c) :=
    (failsOnly_mulDiv _ _ _).mono (by simp)
  refine .bind ((failsOnly_poolId _ _).mono (by simp)) fun id => ?_
  refine .bind (ensureFails (by decide)) fun _ => ?_
  refine .bind ((failsOnly_okOr _ _).mono (by simp)) fun pool => ?_
  refine .bind failsOnly_depositAmounts fun amounts => ?_
  refine .bind (ensureFails (by decide)) fun _ => ?_
  refine .bind (ensureFails (by decide)) fun _ => ?_
  refine .bind transferFails fun basePaid => ?_
  refine .bind transferFails fun bothPaid => ?_
  have issueFails (issue : BitVec w × Ledger w Account Asset) :
      FailsOnly (· ≠ .error .optimalAmountLessThanDesired)
        (do
          ensure (issue.1 > config.mintMinLiquidity)
            .insufficientLiquidityMinted
          let ledger ← config.mintInto pool.lpToken mintTo issue.1 issue.2
          .ok { storage with ledger := ledger }) := by
    refine .bind (ensureFails (by decide)) fun _ => ?_
    exact .bind mintFails fun _ => failsOnly_ok _ _
  dsimp only
  split
  · refine .bind ?_ fun amount => ?_
    · refine .bind ((failsOnly_higher _).mono (by simp)) fun product => ?_
      refine .bind (ensureFails (by decide)) fun _ => ?_
      exact (failsOnly_tryIntoUnit _).mono (by simp)
    refine .bind mintFails fun locked => ?_
    exact .bind (failsOnly_ok _ _) issueFails
  · refine .bind mulDivFails fun side1 => ?_
    refine .bind mulDivFails fun side2 => ?_
    exact .bind (failsOnly_ok _ _) issueFails

/-- Shares that are issued on the smaller side are worth no more. -/
theorem minted_mul_le
    {amount supply reserve side minted : BitVec w}
    (share : mulDiv amount supply reserve = .ok side)
    (within : minted.toNat ≤ side.toNat) :
    minted.toNat * reserve.toNat ≤ amount.toNat * supply.toNat := by
  rw [(toNat_of_mulDiv share).2] at within
  exact (Nat.mul_le_mul_right _ within).trans (Nat.div_mul_le_self _ _)

/--
A deposit into a pool with reserves never fails for an optimal amount beyond
the desired one, and takes amounts in the proportion of the reserves, within
the bounds of the caller.  The issued shares are at most the share of either
amount in its reserve.
-/
theorem addLiquidity_proportional
    (config : Config w Account Asset)
    (found : storage.pools (base, quote) = some pool)
    (reserves :
      config.getReserves storage.ledger base quote =
        .ok (baseReserve, quoteReserve))
    (issued : storage.ledger.supply pool.lpToken ≠ 0)
    (baseBounds : baseMin ≤ baseDesired)
    (quoteBounds : quoteMin ≤ quoteDesired)
    (sender mintTo : Account) :
    config.addLiquidity sender base quote baseDesired quoteDesired baseMin
        quoteMin mintTo storage ≠
          .error (.error .optimalAmountLessThanDesired) ∧
      ∀ next,
        config.addLiquidity sender base quote baseDesired quoteDesired
            baseMin quoteMin mintTo storage = .ok next →
          ∃ baseAmount quoteAmount minted : BitVec w,
            config.Deposits base quote pool.lpToken sender mintTo baseAmount
                quoteAmount minted storage.ledger next.ledger ∧
              storage.ledger.Moves next.ledger
                (Ledger.flow base sender baseAmount.toNat +
                  Ledger.flow quote sender quoteAmount.toNat)
                (Ledger.flow base (config.address (base, quote))
                    baseAmount.toNat +
                  Ledger.flow quote (config.address (base, quote))
                    quoteAmount.toNat) ∧
              next.ledger.supply pool.lpToken =
                storage.ledger.supply pool.lpToken + minted.toNat ∧
              ProportionalDeposit (baseReserve.toNat, quoteReserve.toNat)
                (baseDesired.toNat, quoteDesired.toNat)
                (baseMin.toNat, quoteMin.toNat)
                (baseAmount.toNat, quoteAmount.toNat) ∧
              minted.toNat * baseReserve.toNat ≤
                baseAmount.toNat * storage.ledger.supply pool.lpToken ∧
              minted.toNat * quoteReserve.toNat ≤
                quoteAmount.toNat * storage.ledger.supply pool.lpToken := by
  refine ⟨fun failed => failsOnly_addLiquidity _ failed rfl,
    fun next added => ?_⟩
  obtain ⟨_, baseNonzero, quoteNonzero, rfl, rfl⟩ :=
    getReserves_eq_ok_iff.mp reserves
  simp only [addLiquidity, bind_eq_ok_iff, ensure_eq_ok_iff, exists_const,
    poolId_eq_ok_iff, okOr_eq_ok_iff] at added
  obtain ⟨_, ⟨_, rfl⟩, _, other, otherFound, ⟨baseAmount, quoteAmount⟩,
    taken, _, _, basePaid, paidBase, bothPaid, paidQuote, issues⟩ := added
  obtain rfl : other = pool := Option.some.inj (otherFound.symm.trans found)
  have supply :=
    ((transfer_sameShares paidBase).trans
      (transfer_sameShares paidQuote)).supply other.lpToken
  have already : bothPaid.lpIssuance other.lpToken ≠ 0 := by
    intro unissued
    refine issued ?_
    rw [← supply, Ledger.supply, unissued]
    exact BitVec.toNat_zero
  simp only [already, ↓reduceIte, bind_eq_ok_iff, ensure_eq_ok_iff,
    exists_const, Except.ok.injEq, exists_eq_left'] at issues
  obtain ⟨side1, baseShare, side2, quoteShare, _, final, minted, rfl⟩ :=
    issues
  obtain ⟨leBase, leQuote⟩ := toNat_smaller_le side1 side2
  have deposits :
      config.Deposits base quote other.lpToken sender mintTo baseAmount
        quoteAmount _ storage.ledger final :=
    ⟨basePaid, bothPaid, paidBase, paidQuote, minted⟩
  refine ⟨baseAmount, quoteAmount, _, deposits, deposits.effect.1,
    deposits.effect.2,
    proportional_of_depositAmounts baseNonzero quoteNonzero baseBounds
      quoteBounds taken, ?_, ?_⟩
  · rw [← supply]
    exact minted_mul_le baseShare leBase
  · rw [← supply]
    exact minted_mul_le quoteShare leQuote

/-- A second deposit, which takes all of the offered base asset. -/
theorem addLiquidity_proportional_mock :
    ∃ storage next,
      mock.addLiquidity (.inl 1) 0 1 10000 1000000 0 0 (.inl 1)
          (Storage.mock (Pool.new 0 1 1 0 0 0) 0 0) = .ok storage ∧
        mock.addLiquidity (.inl 2) 0 1 100 20000 50 5000 (.inl 2) storage =
          .ok next ∧
        ∃ baseAmount quoteAmount minted : BitVec 64,
          mock.Deposits 0 1 0 (.inl 2) (.inl 2) baseAmount quoteAmount minted
              storage.ledger next.ledger ∧
            ProportionalDeposit (10000, 1000000) (100, 20000) (50, 5000)
              (baseAmount.toNat, quoteAmount.toNat) ∧
            minted.toNat * 10000 ≤ baseAmount.toNat * 100000 := by
  have succeeds :
      ((mock.addLiquidity (.inl 1) 0 1 10000 1000000 0 0 (.inl 1)
          (Storage.mock (Pool.new 0 1 1 0 0 0) 0 0)).toOption.bind
        fun storage =>
          (mock.addLiquidity (.inl 2) 0 1 100 20000 50 5000 (.inl 2)
              storage).toOption.map fun _ =>
            ((mock.getReserves storage.ledger 0 1).toOption,
              (storage.pools (0, 1)).map Pool.lpToken,
              storage.ledger.supply 0)) =
        some (some (10000, 1000000), some 0, 100000) := by
    decide +kernel
  simp only [Option.bind_eq_some_iff, Option.map_eq_some_iff,
    toOption_eq_some_iff, Prod.mk.injEq] at succeeds
  obtain ⟨storage, first, next, second, reserves, ⟨pool, found, token⟩,
    supply⟩ := succeeds
  obtain ⟨baseAmount, quoteAmount, minted, deposits, _, _, proportional,
    baseShare, _⟩ :=
    (addLiquidity_proportional mock found reserves
      (by rw [token, supply]; decide) (by decide) (by decide) (.inl 2)
      (.inl 2)).2 next second
  rw [token] at deposits
  rw [token, supply] at baseShare
  exact ⟨storage, next, first, second, baseAmount, quoteAmount, minted,
    deposits, proportional, baseShare⟩

end AddLiquidity

end Config

end HybridOrderbook
