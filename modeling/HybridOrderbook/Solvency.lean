import HybridOrderbook.Isolation

namespace HybridOrderbook

open Library

/-!
# Pools do not run dry

The first deposit issues as many shares as the root of the product of what
was deposited.  From then on the square of the supply stays below the product
of the reserves, so that neither reserve of a pool with shares runs dry, and
what users take of one asset they have paid for in the other.
-/

variable {w : Nat} {Account Asset : Type} [DecidableEq Account]
  [DecidableEq Asset] {config : Config w Account Asset}

namespace Config

variable {base quote : Asset} {lpToken : Nat} {signer : Account}
  {storage next : Storage w Account Asset}

/-- The first shares are backed by what was deposited for them. -/
theorem backed_of_firstDeposit
    (holding : config.Shareholding base quote lpToken storage)
    (otherSigner : signer ≠ config.address (base, quote))
    (unissued : storage.ledger.supply lpToken = 0)
    {baseDesired quoteDesired baseMin quoteMin : BitVec w}
    {mintTo : Account}
    (added :
      config.addLiquidity signer base quote baseDesired quoteDesired baseMin
        quoteMin mintTo storage = .ok next) :
    (config.stake base quote lpToken next.ledger).Backed := by
  simp only [addLiquidity, bind_eq_ok_iff, ensure_eq_ok_iff, exists_const,
    poolId_eq_ok_iff, okOr_eq_ok_iff] at added
  obtain ⟨_, ⟨different, rfl⟩, _, pool, found, ⟨baseAmount, quoteAmount⟩, _,
    _, _, basePaid, paidBase, bothPaid, paidQuote, issues⟩ := added
  obtain rfl := holding.token pool found
  have paid :=
    (transfer_moves paidBase).1.trans (transfer_moves paidQuote).1
  have sameSupply :=
    ((transfer_sameShares paidBase).trans
      (transfer_sameShares paidQuote)).supply pool.lpToken
  have zero : bothPaid.lpIssuance pool.lpToken = 0 :=
    BitVec.eq_of_toNat_eq (sameSupply.trans unissued)
  simp only [zero, ↓reduceIte, bind_eq_ok_iff, ensure_eq_ok_iff,
    exists_const, Except.ok.injEq, exists_eq_left',
    calcLpAmountForZeroSupply, higher_eq_ok_iff] at issues
  obtain ⟨amount, ⟨product, ⟨_, rfl⟩, enough, narrowed⟩, locked, locks, _,
    final, minted, rfl⟩ := issues
  have supply :
      final.supply pool.lpToken =
        (baseAmount.toNat * quoteAmount.toNat).sqrt := by
    rw [issuance_of_mintInto minted, issuance_of_mintInto locks, sameSupply,
      unissued, toNat_of_tryIntoUnit narrowed]
    omega
  have baseAfter := paid base (config.address (base, quote))
  have quoteAfter := paid quote (config.address (base, quote))
  simp only [Pi.add_apply, Ledger.flow, different, different.symm,
    otherSigner.symm, and_true, and_false, and_self, ↓reduceIte,
    Nat.add_zero, Nat.zero_add] at baseAfter quoteAfter
  have balance : final.balance = bothPaid.balance :=
    (mintInto_eq_ok minted).1.trans (mintInto_eq_ok locks).1
  simp only [Stake.Backed, stake]
  rw [supply, balance, baseAfter, quoteAfter]
  calc
    (baseAmount.toNat * quoteAmount.toNat).sqrt ^ 2 ≤
        baseAmount.toNat * quoteAmount.toNat := Nat.sqrt_le' _
    _ ≤ _ := Nat.mul_le_mul (Nat.le_add_left _ _) (Nat.le_add_left _ _)

/-- A call on the pool keeps its shares backed. -/
theorem Shareholding.backed_step
    (wide : 64 ≤ w)
    (lawful : config.Lawful)
    (fee : config.lpFee ≤ 1000)
    {liquidityWithdrawalFee : BitVec w → BitVec w}
    {call : PoolCall w Account Asset}
    (holding : config.Shareholding base quote lpToken storage)
    (backed : (config.stake base quote lpToken storage.ledger).Backed)
    (named : call.poolId = (base, quote))
    (otherSigner : call.signer ≠ config.address (base, quote))
    (stepped :
      config.poolStep liquidityWithdrawalFee call storage = some next) :
    (config.stake base quote lpToken next.ledger).Backed := by
  rcases Nat.eq_zero_or_pos (storage.ledger.supply lpToken) with unissued |
    issued
  · -- without shares, only a deposit can issue some
    have none_of_same
        (same : storage.ledger.SameShares next.ledger) :
        (config.stake base quote lpToken next.ledger).Backed := by
      have still : next.ledger.supply lpToken = 0 :=
        (same.supply lpToken).trans unissued
      simp [Stake.Backed, stake, still]
    cases call with
    | removeLiquidity signer callBase callQuote lpTokenBurn baseMinReceive
        quoteMinReceive withdrawTo =>
        obtain ⟨rfl, rfl⟩ := Prod.mk.inj named
        have removed := toOption_eq_some_iff.mp stepped
        simp only [Config.removeLiquidity, bind_eq_ok_iff, ensure_eq_ok_iff,
          exists_const, poolId_eq_ok_iff, okOr_eq_ok_iff,
          Except.ok.injEq] at removed
        obtain ⟨_, ⟨_, rfl⟩, positive, pool, found, _, _, _, _, _, _, _, _, _,
          burns, _⟩ := removed
        obtain rfl := holding.token pool found
        have held := (supply_of_burnFrom burns).2.1.trans
          (holding.issued.le signer)
        rw [unissued] at held
        exact absurd (BitVec.lt_def.mp positive) (Nat.not_lt.mpr held)
    | dispatch extrinsic =>
        cases effect_of_step stepped with
        | deposited called =>
            have dispatched := toOption_eq_some_iff.mp stepped
            rw [PoolCall.poolId, called] at named
            obtain ⟨rfl, rfl⟩ := Prod.mk.inj named
            rw [dispatch, called] at dispatched
            exact backed_of_firstDeposit holding otherSigner unissued
              dispatched
        | @matched callBase callQuote _ _ _ _ _ called _ found matched
            settled updated =>
            have same : (callBase, callQuote) = (base, quote) := by
              rcases called with called | ⟨_, called, _⟩
              · rw [PoolCall.poolId, called] at named
                exact named
              · rw [PoolCall.poolId, called] at named
                exact named
            obtain ⟨rfl, rfl⟩ := Prod.mk.inj same
            obtain ⟨books, keeps⟩ := holding.owners _ _ found
            subst updated
            exact none_of_same (sustains_of_matchOrders (by omega) lawful fee
              otherSigner keeps matched settled lpToken).1
        | placed called found reserves priced rests places updated =>
            subst updated
            exact none_of_same (doPlaceOrder_sameShares places)
        | canceled called found cancels updated =>
            subst updated
            exact none_of_same (Ledger.SameShares.refl _)
  · have kept := holding.step wide lawful fee named otherSigner stepped
    exact backed.sustained (kept.2 issued).2 issued

omit [DecidableEq Account] [DecidableEq Asset] in
theorem backed_of_poolKept
    {id : Asset × Asset}
    (backed : (config.stake id.1 id.2 lpToken storage.ledger).Backed)
    (kept : storage.PoolKept config id lpToken next) :
    (config.stake id.1 id.2 lpToken next.ledger).Backed := by
  have supply : next.ledger.supply lpToken = storage.ledger.supply lpToken :=
    congrArg BitVec.toNat kept.issuance
  simp only [Stake.Backed, stake] at backed ⊢
  rw [supply]
  exact backed.trans
    (Nat.mul_le_mul (kept.reserves id.1) (kept.reserves id.2))

end Config

namespace Pallet

variable {setup : Setup w Account Asset} {call : Dispatchable w Account Asset}
  {pallet next final : Pallet w Account Asset}

/-- The shares of all pools are backed. -/
def Funded
    (config : Config w Account Asset)
    (pallet : Pallet w Account Asset) : Prop :=
  ∀ id pool, pallet.storage.pools id = some pool →
    (config.stake id.1 id.2 pool.lpToken pallet.storage.ledger).Backed

theorem Sound.funded_step
    (wide : 64 ≤ w)
    (lawful : config.Lawful)
    (setupLawful : setup.Lawful)
    (fee : config.lpFee ≤ 1000)
    (sound : pallet.Sound config)
    (funded : pallet.Funded config)
    (user : config.SignedByUser call)
    (stepped : pallet.step config setup call = some next) :
    next.Funded config := by
  have keepsPools := (sound.registered.step wide setupLawful stepped).2
  intro id nextPool found
  cases earlier : pallet.storage.pools id with
  | some pool =>
      obtain ⟨kept, foundKept, terms⟩ := keepsPools id pool earlier
      rw [found, Option.some.injEq] at foundKept
      rw [foundKept, terms.lpToken]
      by_cases named : call.poolId = some id
      · cases effect_of_step setupLawful stepped with
        | created called =>
            rw [called] at named
            cases named
        | touched called =>
            rw [called] at named
            cases named
        | onPool called poolStepped next_eq =>
            subst called next_eq
            exact (sound.holdings id pool earlier).backed_step wide lawful fee
              (funded id pool earlier) (Option.some.inj named) (user id)
              poolStepped
      · exact Config.backed_of_poolKept (funded id pool earlier)
          (sound.registered.poolKept wide lawful setupLawful
            (sound.owners id) earlier (user id) named stepped)
  | none =>
      have unissued := (sound.registered.new_unissued wide setupLawful earlier
        found stepped).1
      simp [Stake.Backed, Config.stake, Ledger.supply, unissued]

section Runs

variable {ledger : Ledger w Account Asset} {lpAssets : Nat → Bool}

theorem funded_of_run
    (wide : 64 ≤ w)
    (lawful : config.Lawful)
    (setupLawful : setup.Lawful)
    (fee : config.lpFee ≤ 1000)
    (unissued : Unissued ledger lpAssets)
    {calls : List (Dispatchable w Account Asset)}
    (users : ∀ call ∈ calls, config.SignedByUser call)
    (ran :
      Run.run (step config setup) calls (genesis ledger lpAssets) =
        some pallet) : pallet.Sound config ∧ pallet.Funded config := by
  have preserved :
      ∀ call (state next : Pallet w Account Asset),
        (state.Sound config ∧ state.Funded config) →
          config.SignedByUser call →
            state.step config setup call = some next →
              next.Sound config ∧ next.Funded config := by
    rintro call state next ⟨sound, funded⟩ user stepped
    exact ⟨(sound.step wide lawful setupLawful fee user stepped).1,
      sound.funded_step wide lawful setupLawful fee funded user stepped⟩
  have initial :
      (genesis ledger lpAssets).Sound config ∧
        (genesis ledger lpAssets).Funded config :=
    ⟨sound_genesis unissued, fun _ _ found => by cases found⟩
  exact Run.run_invariant_along preserved initial
    (Run.along_of_forall (fun call member _ => users call member) _) ran

/--
Whatever users do after a state in which shares of a pool are issued, neither
reserve of the pool runs dry: the square of the supply stays below the
product of the reserves.  If the supply is the same in the end, users have
not taken of one reserve without paying into the other.
-/
theorem reserves_of_run
    (wide : 64 ≤ w)
    (config : Config w Account Asset)
    (lawful : config.Lawful)
    (setup : Setup w Account Asset)
    (setupLawful : setup.Lawful)
    (fee : config.lpFee ≤ 1000)
    (locks : 0 < config.mintMinLiquidity)
    (unissued : Unissued ledger lpAssets)
    (calls later : List (Dispatchable w Account Asset))
    (users : ∀ call ∈ calls ++ later, config.SignedByUser call)
    (ran :
      Run.run (Pallet.step config setup) calls (genesis ledger lpAssets) =
        some pallet)
    (ranLater :
      Run.run (Pallet.step config setup) later pallet = some final)
    {id : Asset × Asset}
    {pool : Pool w Account}
    (found : pallet.storage.pools id = some pool)
    (issued : 0 < pallet.storage.ledger.supply pool.lpToken)
    {before after : Stake}
    (isBefore :
      before = config.stake id.1 id.2 pool.lpToken pallet.storage.ledger)
    (isAfter :
      after = config.stake id.1 id.2 pool.lpToken final.storage.ledger) :
    after.supply ^ 2 ≤ after.base * after.quote ∧
      (0 < after.base ∧ 0 < after.quote) ∧
      (after.supply = before.supply →
        after.base ≤ before.base → after.quote ≤ before.quote →
          after.base = before.base ∧ after.quote = before.quote) := by
  obtain ⟨usersBefore, usersLater⟩ := List.forall_mem_append.mp users
  obtain ⟨sound, funded⟩ :=
    funded_of_run wide lawful setupLawful fee unissued usersBefore ran
  obtain ⟨stillIssued, sustains⟩ :=
    sound.sharesKept_of_run wide lawful setupLawful fee locks usersLater
      ranLater found issued
  have backed := funded id pool found
  have stillBacked := backed.sustained sustains issued
  subst isBefore isAfter
  exact ⟨stillBacked, stillBacked.positive stillIssued,
    fun sameSupply => sustains.eq_of_le sameSupply issued
      (backed.positive issued)⟩

/-- Trades with the pool and a redemption leave reserves behind. -/
theorem reserves_of_run_mock :
    ∃ pallet final : Pallet 64 Config.MockAccount Nat,
      Run.run (Pallet.step Config.mock (.mock (.inl 0)))
          (mockCreation (.inl 1))
          (genesis (.mock Sum.isLeft) fun _ => false) = some pallet ∧
        Run.run (Pallet.step Config.mock (.mock (.inl 0)))
          (mockTrading (.inl 1) (.inr (1, 0))) pallet = some final ∧
        0 < (Config.mock.stake 0 1 0 final.storage.ledger).base ∧
        0 < (Config.mock.stake 0 1 0 final.storage.ledger).quote := by
  have succeeds :
      ((Run.run (Pallet.step Config.mock (.mock (.inl 0)))
          (mockCreation (.inl 1))
          (genesis (.mock Sum.isLeft) fun _ => false)).bind fun pallet =>
        (Run.run (Pallet.step Config.mock (.mock (.inl 0)))
          (mockTrading (.inl 1) (.inr (1, 0))) pallet).map fun _ =>
            ((pallet.storage.pools (0, 1)).map (·.lpToken),
              pallet.storage.ledger.supply 0)) =
        some (some 0, 31622) := by
    decide +kernel
  obtain ⟨pallet, ran, continues⟩ := Option.bind_eq_some_iff.mp succeeds
  obtain ⟨final, ranLater, facts⟩ := Option.map_eq_some_iff.mp continues
  rw [Prod.mk.injEq] at facts
  obtain ⟨pool, found, token⟩ := Option.map_eq_some_iff.mp facts.1
  have issued : 0 < pallet.storage.ledger.supply pool.lpToken := by
    rw [token, facts.2]
    decide
  have reserves := reserves_of_run (by decide) Config.mock Config.mock_lawful
    (.mock (.inl 0)) (Setup.mock_lawful _) (by decide) (by decide)
    (unissued_mock _) _ _ users_mock ran ranLater found issued rfl rfl
  rw [token] at reserves
  exact ⟨pallet, final, ran, ranLater, reserves.2.1⟩

end Runs

end Pallet

/-! ## Deposits and redemptions -/

/-- Whoever is paid, the payer and another account have no more together. -/
theorem Ledger.Moves.together_le
    {ledger next : Ledger w Account Asset}
    {base quote : Asset}
    {payer payee other : Account}
    {baseAmount quoteAmount : Nat}
    (moves :
      ledger.Moves next
        (Ledger.flow base payer baseAmount +
          Ledger.flow quote payer quoteAmount)
        (Ledger.flow base payee baseAmount +
          Ledger.flow quote payee quoteAmount))
    (different : payer ≠ other)
    (asset : Asset) :
    (next.balance asset payer).toNat + (next.balance asset other).toNat ≤
      (ledger.balance asset payer).toNat +
        (ledger.balance asset other).toNat := by
  have paid := moves asset payer
  have received := moves asset other
  simp only [Pi.add_apply, Ledger.flow, different.symm, and_true, and_false,
    ↓reduceIte, Nat.add_zero] at paid received
  by_cases paysBack : payee = payer
  · subst paysBack
    simp only [different.symm, and_true, and_false, ↓reduceIte,
      Nat.add_zero] at paid received
    omega
  · simp only [Ne.symm paysBack, and_false, ↓reduceIte, Nat.add_zero] at paid
    have upTo :
        (if asset = base ∧ other = payee then baseAmount else 0) +
            (if asset = quote ∧ other = payee then quoteAmount else 0) ≤
          (if asset = base then baseAmount else 0) +
            (if asset = quote then quoteAmount else 0) := by
      refine Nat.add_le_add ?_ ?_
      · split_ifs <;> simp_all
      · split_ifs <;> simp_all
    omega

namespace Config

/--
No share has less of either reserve, and the user has received no more than
the pool has paid.
-/
structure PartsKept
    (config : Config w Account Asset)
    (user : Account)
    (base quote : Asset)
    (lpToken : Nat)
    (ledger next : Ledger w Account Asset) : Prop where
  parts :
    (config.stake base quote lpToken ledger).KeepsParts
      (config.stake base quote lpToken next)
  together :
    ∀ asset,
      (next.balance asset user).toNat +
          (next.balance asset (config.address (base, quote))).toNat ≤
        (ledger.balance asset user).toNat +
          (ledger.balance asset (config.address (base, quote))).toNat

section PartsKept

variable {user : Account} {base quote : Asset} {lpToken : Nat}
  {ledger middle next : Ledger w Account Asset}

omit [DecidableEq Account] [DecidableEq Asset] in
theorem PartsKept.trans
    (first : config.PartsKept user base quote lpToken ledger middle)
    (second : config.PartsKept user base quote lpToken middle next)
    (issued : 0 < middle.supply lpToken) :
    config.PartsKept user base quote lpToken ledger next where
  parts := first.parts.trans second.parts issued
  together asset := (second.together asset).trans (first.together asset)

omit [DecidableEq Account] [DecidableEq Asset] in
/-- With as many shares as before, the user has no more than before. -/
theorem PartsKept.balances_le
    (kept : config.PartsKept user base quote lpToken ledger next)
    (issued : 0 < ledger.supply lpToken)
    (supply : ledger.supply lpToken ≤ next.supply lpToken) :
    (next.balance base user).toNat ≤ (ledger.balance base user).toNat ∧
      (next.balance quote user).toNat ≤
        (ledger.balance quote user).toNat := by
  obtain ⟨baseLe, quoteLe⟩ := kept.parts.reserves_le issued supply
  have baseTogether := kept.together base
  have quoteTogether := kept.together quote
  simp only [stake] at baseLe quoteLe
  omega

end PartsKept

variable {base quote : Asset} {pool : Pool w Account} {signer : Account}
  {storage next : Storage w Account Asset}

/-- A deposit pays for its shares with their parts of both reserves. -/
theorem parts_of_addLiquidity
    (lawful : config.Lawful)
    (found : storage.pools (base, quote) = some pool)
    (issued : 0 < storage.ledger.supply pool.lpToken)
    (user : signer ≠ config.address (base, quote))
    {baseDesired quoteDesired baseMin quoteMin : BitVec w}
    {mintTo : Account}
    (added :
      config.addLiquidity signer base quote baseDesired quoteDesired baseMin
        quoteMin mintTo storage = .ok next) :
    config.PartsKept signer base quote pool.lpToken storage.ledger
      next.ledger := by
  simp only [addLiquidity, bind_eq_ok_iff, ensure_eq_ok_iff, exists_const,
    poolId_eq_ok_iff, okOr_eq_ok_iff] at added
  obtain ⟨_, ⟨different, rfl⟩, _, other, otherFound,
    ⟨baseAmount, quoteAmount⟩, _, _, _, basePaid, paidBase, bothPaid,
    paidQuote, issues⟩ := added
  obtain rfl : other = pool := Option.some.inj (otherFound.symm.trans found)
  have sameSupply :=
    ((transfer_sameShares paidBase).trans
      (transfer_sameShares paidQuote)).supply other.lpToken
  have already : bothPaid.lpIssuance other.lpToken ≠ 0 := by
    intro zero
    rw [← sameSupply, Ledger.supply, zero] at issued
    exact absurd issued (by simp)
  simp only [already, ↓reduceIte, bind_eq_ok_iff, ensure_eq_ok_iff,
    exists_const, Except.ok.injEq, exists_eq_left'] at issues
  obtain ⟨side1, baseShare, side2, quoteShare, _, final, minted, rfl⟩ :=
    issues
  obtain ⟨leBase, leQuote⟩ := toNat_smaller_le side1 side2
  rw [(toNat_of_mulDiv baseShare).2, getBalance,
    lawful.poolBalance] at leBase
  rw [(toNat_of_mulDiv quoteShare).2, getBalance,
    lawful.poolBalance] at leQuote
  have paid : storage.ledger.Moves final _ _ := fun asset who => by
    rw [(mintInto_eq_ok minted).1]
    exact ((transfer_moves paidBase).1.trans (transfer_moves paidQuote).1)
      asset who
  have totalSupply :
      (bothPaid.lpIssuance other.lpToken).toNat =
        storage.ledger.supply other.lpToken := sameSupply
  rw [totalSupply] at leBase leQuote
  have supply := issuance_of_mintInto minted
  rw [sameSupply] at supply
  exact ⟨parts_of_deposit different user paid supply leBase leQuote,
    paid.together_le user⟩

/-- A redemption is paid with no more than their parts of both reserves. -/
theorem parts_of_removeLiquidity
    (lawful : config.Lawful)
    (found : storage.pools (base, quote) = some pool)
    (user : signer ≠ config.address (base, quote))
    {liquidityWithdrawalFee : BitVec w → BitVec w}
    {lpTokenBurn baseMinReceive quoteMinReceive : BitVec w}
    {withdrawTo : Account}
    (removed :
      config.removeLiquidity liquidityWithdrawalFee signer base quote
        lpTokenBurn baseMinReceive quoteMinReceive withdrawTo storage =
          .ok next) :
    config.PartsKept signer base quote pool.lpToken storage.ledger
      next.ledger := by
  simp only [removeLiquidity, bind_eq_ok_iff, ensure_eq_ok_iff,
    exists_const, poolId_eq_ok_iff, okOr_eq_ok_iff,
    Except.ok.injEq] at removed
  obtain ⟨_, ⟨different, rfl⟩, _, other, otherFound, baseAmount, baseShare,
    quoteAmount, quoteShare, _, _, _, _, burnt, burns, first, paidBase,
    second, paidQuote, rfl⟩ := removed
  obtain rfl : other = pool := Option.some.inj (otherFound.symm.trans found)
  obtain ⟨sameBalance, _, burntSupply, _⟩ := supply_of_burnFrom burns
  have supply :
      second.supply other.lpToken =
        storage.ledger.supply other.lpToken - lpTokenBurn.toNat := by
    rw [((transfer_sameShares paidBase).trans
      (transfer_sameShares paidQuote)).supply, burntSupply]
  have paid : storage.ledger.Moves second _ _ := fun asset who => by
    rw [← sameBalance]
    exact ((transfer_moves paidBase).1.trans (transfer_moves paidQuote).1)
      asset who
  have baseRounded := (toNat_of_mulDiv baseShare).2.le
  have quoteRounded := (toNat_of_mulDiv quoteShare).2.le
  rw [getBalance, lawful.poolBalance] at baseRounded quoteRounded
  refine ⟨parts_of_redemption different (saturatingSub_le _ _) withdrawTo paid
    supply baseRounded quoteRounded, fun asset => ?_⟩
  rw [Nat.add_comm, Nat.add_comm (storage.ledger.balance asset signer).toNat]
  exact paid.together_le user.symm asset

end Config

namespace Dispatchable

/-- A deposit or a redemption of the given user, on the given pool. -/
inductive IsLiquidityCall
    (user : Account)
    (base quote : Asset) : Dispatchable w Account Asset → Prop where
  | addLiquidity
      (blockNumber : Nat)
      (baseDesired quoteDesired baseMin quoteMin : BitVec w)
      (mintTo : Account) :
      IsLiquidityCall user base quote
        (.onPool (.dispatch ⟨user, blockNumber, .addLiquidity base quote
          baseDesired quoteDesired baseMin quoteMin mintTo⟩))
  | removeLiquidity
      (lpTokenBurn baseMinReceive quoteMinReceive : BitVec w)
      (withdrawTo : Account) :
      IsLiquidityCall user base quote
        (.onPool (.removeLiquidity user base quote lpTokenBurn baseMinReceive
          quoteMinReceive withdrawTo))

end Dispatchable

namespace Pallet

variable {setup : Setup w Account Asset} {call : Dispatchable w Account Asset}
  {pallet next final : Pallet w Account Asset} {user : Account}
  {base quote : Asset} {pool : Pool w Account}

/-- One deposit or redemption. -/
theorem parts_of_step
    (lawful : config.Lawful)
    (found : pallet.storage.pools (base, quote) = some pool)
    (issued : 0 < pallet.storage.ledger.supply pool.lpToken)
    (notPool : user ≠ config.address (base, quote))
    (isLiquidityCall : call.IsLiquidityCall user base quote)
    (stepped : pallet.step config setup call = some next) :
    config.PartsKept user base quote pool.lpToken pallet.storage.ledger
      next.storage.ledger := by
  have dispatched := toOption_eq_some_iff.mp stepped
  cases isLiquidityCall with
  | addLiquidity =>
      simp only [dispatch, bind_eq_ok_iff, mapErr_eq_ok_iff,
        Except.ok.injEq] at dispatched
      obtain ⟨storage, added, rfl⟩ := dispatched
      exact Config.parts_of_addLiquidity lawful found issued notPool added
  | removeLiquidity =>
      simp only [dispatch, bind_eq_ok_iff, mapErr_eq_ok_iff,
        Except.ok.injEq] at dispatched
      obtain ⟨storage, removed, rfl⟩ := dispatched
      exact Config.parts_of_removeLiquidity lawful found notPool removed

/--
From every state that calls have reached with shares of a pool issued, after
any deposits and redemptions of a user on the pool no share has less of either
reserve.  If the supply is not lower in the end, the user has no more of
either asset than before.
-/
theorem liquidity_of_run
    {ledger : Ledger w Account Asset}
    {lpAssets : Nat → Bool}
    (wide : 64 ≤ w)
    (config : Config w Account Asset)
    (lawful : config.Lawful)
    (setup : Setup w Account Asset)
    (setupLawful : setup.Lawful)
    (fee : config.lpFee ≤ 1000)
    (locks : 0 < config.mintMinLiquidity)
    (unissued : Unissued ledger lpAssets)
    (calls later : List (Dispatchable w Account Asset))
    (users : ∀ call ∈ calls, config.SignedByUser call)
    (ran :
      Run.run (Pallet.step config setup) calls (genesis ledger lpAssets) =
        some pallet)
    (user : Account)
    (notPool : ∀ id, user ≠ config.address id)
    (liquidityCalls : ∀ call ∈ later, call.IsLiquidityCall user base quote)
    (ranLater :
      Run.run (Pallet.step config setup) later pallet = some final)
    (found : pallet.storage.pools (base, quote) = some pool)
    (issued : 0 < pallet.storage.ledger.supply pool.lpToken) :
    (config.stake base quote pool.lpToken pallet.storage.ledger).KeepsParts
        (config.stake base quote pool.lpToken final.storage.ledger) ∧
      (pallet.storage.ledger.supply pool.lpToken ≤
          final.storage.ledger.supply pool.lpToken →
        (final.storage.ledger.balance base user).toNat ≤
            (pallet.storage.ledger.balance base user).toNat ∧
          (final.storage.ledger.balance quote user).toNat ≤
            (pallet.storage.ledger.balance quote user).toNat) := by
  have preserved :
      ∀ call (state next : Pallet w Account Asset),
        (state.Sound config ∧ pallet.KeepsPools state ∧
          0 < state.storage.ledger.supply pool.lpToken ∧
          config.PartsKept user base quote pool.lpToken
            pallet.storage.ledger state.storage.ledger) →
          call.IsLiquidityCall user base quote →
            state.step config setup call = some next →
              next.Sound config ∧ pallet.KeepsPools next ∧
                0 < next.storage.ledger.supply pool.lpToken ∧
                config.PartsKept user base quote pool.lpToken
                  pallet.storage.ledger next.storage.ledger := by
    rintro call state next ⟨sound, kept, positive, parts⟩ isCall stepped
    have signed : config.SignedByUser call := by
      cases isCall <;> exact notPool
    obtain ⟨here, foundHere, terms⟩ := kept _ _ found
    obtain ⟨soundNext, sharesKept⟩ :=
      sound.step wide lawful setupLawful fee signed stepped
    have shares := sharesKept _ _ foundHere
    have step := parts_of_step lawful foundHere
      (by rw [terms.lpToken]; exact positive) (notPool _) isCall stepped
    rw [terms.lpToken] at shares step
    exact ⟨soundNext,
      kept.trans (sound.registered.step wide setupLawful stepped).2,
      (shares positive).1 locks, parts.trans step positive⟩
  obtain ⟨_, _, _, parts⟩ := Run.run_invariant_along preserved
    ⟨sound_of_run wide lawful setupLawful fee unissued users ran, .refl pallet,
      issued, .refl _, fun _ => le_rfl⟩
    (Run.along_of_forall (fun call member _ => liquidityCalls call member) _)
    ranLater
  exact ⟨parts.parts, parts.balances_le issued⟩

/-- A deposit that is redeemed in two parts, one of them for someone else. -/
theorem liquidity_of_run_mock :
    ∃ pallet final : Pallet 64 Config.MockAccount Nat,
      Run.run (Pallet.step Config.mock (.mock (.inl 0)))
          (mockCreation (.inl 1))
          (genesis (.mock Sum.isLeft) fun _ => false) = some pallet ∧
        Run.run (Pallet.step Config.mock (.mock (.inl 0)))
          [.onPool (.dispatch ⟨.inl 1, 2,
              .addLiquidity 0 1 1000 10000 0 0 (.inl 1)⟩),
            .onPool (.removeLiquidity (.inl 1) 0 1 1000 1 1 (.inl 1)),
            .onPool (.removeLiquidity (.inl 1) 0 1 2162 1 1 (.inl 2))]
          pallet = some final ∧
        (final.storage.ledger.balance 0 (.inl 1)).toNat ≤
          (pallet.storage.ledger.balance 0 (.inl 1)).toNat ∧
        (final.storage.ledger.balance 1 (.inl 1)).toNat ≤
          (pallet.storage.ledger.balance 1 (.inl 1)).toNat := by
  have succeeds :
      ((Run.run (Pallet.step Config.mock (.mock (.inl 0)))
          (mockCreation (.inl 1))
          (genesis (.mock Sum.isLeft) fun _ => false)).bind fun pallet =>
        (Run.run (Pallet.step Config.mock (.mock (.inl 0)))
          [.onPool (.dispatch ⟨.inl 1, 2,
              .addLiquidity 0 1 1000 10000 0 0 (.inl 1)⟩),
            .onPool (.removeLiquidity (.inl 1) 0 1 1000 1 1 (.inl 1)),
            .onPool (.removeLiquidity (.inl 1) 0 1 2162 1 1 (.inl 2))]
          pallet).map fun final =>
            ((pallet.storage.pools (0, 1)).map (·.lpToken),
              pallet.storage.ledger.supply 0,
              final.storage.ledger.supply 0)) =
        some (some 0, 31622, 31622) := by
    decide +kernel
  obtain ⟨pallet, ran, continues⟩ := Option.bind_eq_some_iff.mp succeeds
  obtain ⟨final, ranLater, facts⟩ := Option.map_eq_some_iff.mp continues
  rw [Prod.mk.injEq, Prod.mk.injEq] at facts
  obtain ⟨listed, supply, finalSupply⟩ := facts
  obtain ⟨pool, found, token⟩ := Option.map_eq_some_iff.mp listed
  have users : ∀ call ∈ mockCreation (.inl 1 : Config.MockAccount),
      Config.mock.SignedByUser call :=
    fun call member => users_mock call (List.mem_append_left _ member)
  have liquidity := liquidity_of_run (by decide) Config.mock
    Config.mock_lawful (.mock (.inl 0)) (Setup.mock_lawful _) (by decide)
    (by decide) (unissued_mock _) _ _ users ran (.inl 1)
    (fun _ same => by cases same)
    (by
      intro call member
      simp only [List.mem_cons, List.not_mem_nil, or_false] at member
      rcases member with rfl | rfl | rfl
      · exact .addLiquidity ..
      · exact .removeLiquidity ..
      · exact .removeLiquidity ..)
    ranLater found (by rw [token, supply]; decide)
  refine ⟨pallet, final, ran, ranLater, liquidity.2 ?_⟩
  rw [token, supply, finalSupply]

end Pallet

end HybridOrderbook
