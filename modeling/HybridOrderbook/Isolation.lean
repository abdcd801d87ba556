import HybridOrderbook.Registry

namespace HybridOrderbook

open Library

/-!
# Pools do not take from each other

Calls on all pools interleave.  A call on one pool takes nothing from the
account of another one and issues none of its liquidity tokens, so what a
share of a pool is worth survives whatever happens elsewhere.
-/

variable {w : Nat} {Account Asset : Type} [DecidableEq Account]
  [DecidableEq Asset]

/-- Only the account that is charged has less afterwards. -/
theorem Ledger.Charges.le
    {ledger next : Ledger w Account Asset}
    {who other : Account}
    (charges : ledger.Charges next who)
    (different : who ≠ other)
    (asset : Asset) :
    (ledger.balance asset other).toNat ≤
      (next.balance asset other).toNat := by
  obtain ⟨_, _, moves, _⟩ := charges.balances
  have moved := moves asset other
  simp only [different.symm, if_false] at moved
  omega

/-- What a pool cannot lose: its record, its shares and its reserves. -/
structure Storage.PoolKept
    (config : Config w Account Asset)
    (id : Asset × Asset)
    (lpToken : Nat)
    (storage next : Storage w Account Asset) : Prop where
  record : next.pools id = storage.pools id
  issuance : next.ledger.lpIssuance lpToken = storage.ledger.lpIssuance lpToken
  holders : next.ledger.lpBalance lpToken = storage.ledger.lpBalance lpToken
  reserves :
    ∀ asset,
      (storage.ledger.balance asset (config.address id)).toNat ≤
        (next.ledger.balance asset (config.address id)).toNat

section PoolKept

variable {config : Config w Account Asset} {id : Asset × Asset}
  {lpToken : Nat} {storage middle next : Storage w Account Asset}

omit [DecidableEq Account] [DecidableEq Asset] in
theorem Storage.PoolKept.trans
    (first : storage.PoolKept config id lpToken middle)
    (second : middle.PoolKept config id lpToken next) :
    storage.PoolKept config id lpToken next where
  record := second.record.trans first.record
  issuance := second.issuance.trans first.issuance
  holders := second.holders.trans first.holders
  reserves asset := (first.reserves asset).trans (second.reserves asset)

omit [DecidableEq Account] [DecidableEq Asset] in
/-- Shares of a pool that is kept are kept, and worth no less. -/
theorem Config.Shareholding.kept
    (holding : config.Shareholding id.1 id.2 lpToken storage)
    (kept : storage.PoolKept config id lpToken next)
    (owners :
      next.Keeps fun _ _ owner _ => owner ≠ config.address id) :
    config.Shareholding id.1 id.2 lpToken next ∧
      config.SharesKept id.1 id.2 lpToken storage.ledger next.ledger := by
  have supply : next.ledger.supply lpToken = storage.ledger.supply lpToken :=
    congrArg BitVec.toNat kept.issuance
  have shares : next.ledger.shares lpToken = storage.ledger.shares lpToken := by
    unfold Ledger.shares
    rw [kept.holders]
  refine ⟨⟨fun pool found => ?_, ?_, ?_, owners⟩, fun positive =>
    ⟨fun _ => by rwa [supply], ?_⟩⟩
  · exact holding.token pool (kept.record ▸ found)
  · rw [Ledger.Issued, supply, shares]
    exact holding.issued
  · rw [supply, shares]
    exact holding.locked
  · refine Stake.sustains_of_product supply (Nat.mul_le_mul ?_ ?_)
    · exact kept.reserves id.1
    · exact kept.reserves id.2

end PoolKept

namespace Pallet

variable {config : Config w Account Asset} {setup : Setup w Account Asset}
  {call : Dispatchable w Account Asset}
  {pallet next final : Pallet w Account Asset}

/-- No account of a pool owns an order, and all shares are accounted for. -/
structure Sound
    (config : Config w Account Asset)
    (pallet : Pallet w Account Asset) : Prop where
  registered : pallet.Registered
  owners :
    ∀ id, pallet.storage.Keeps fun _ _ owner _ => owner ≠ config.address id
  holdings :
    ∀ id pool, pallet.storage.pools id = some pool →
      config.Shareholding id.1 id.2 pool.lpToken pallet.storage

omit [DecidableEq Account] [DecidableEq Asset] in
theorem sound_genesis
    {ledger : Ledger w Account Asset}
    {lpAssets : Nat → Bool}
    (unissued : Unissued ledger lpAssets) :
    (genesis ledger lpAssets).Sound config where
  registered := registered_genesis unissued
  owners _ _ _ found := by cases found
  holdings _ _ found := by cases found

/-- A call that does not name the pool keeps it. -/
theorem Registered.poolKept
    (wide : 64 ≤ w)
    (lawful : config.Lawful)
    (setupLawful : setup.Lawful)
    (registered : pallet.Registered)
    {id : Asset × Asset}
    {pool : Pool w Account}
    (owners :
      pallet.storage.Keeps fun _ _ owner _ => owner ≠ config.address id)
    (found : pallet.storage.pools id = some pool)
    (user : call.signer ≠ config.address id)
    (elsewhere : call.poolId ≠ some id)
    (stepped : pallet.step config setup call = some next) :
    pallet.storage.PoolKept config id pool.lpToken next.storage := by
  cases effect_of_step setupLawful stepped with
  | created _ _ _ _ absent _ _ charges next_eq =>
      subst next_eq
      have other : id ≠ _ := fun here => by
        rw [here, absent] at found
        cases found
      refine ⟨Storage.pools_update_of_ne other, ?_, ?_, charges.le user⟩
      · rw [Storage.ledger_update, charges.shares.issuance]
      · rw [Storage.ledger_update, charges.shares.balances]
  | touched _ _ charges next_eq =>
      subst next_eq
      refine ⟨rfl, ?_, ?_, charges.le user⟩
      · simp only [charges.shares.issuance]
      · simp only [charges.shares.balances]
  | @onPool poolCall _ called poolStepped next_eq =>
      subst called next_eq
      have different : poolCall.poolId ≠ id :=
        fun here => elsewhere (congrArg some here)
      have frame := Config.callFrame_of_poolStep wide owners user
        (fun same => different (lawful.addressInjective same)) poolStepped
      obtain ⟨calledPool, calledFound, beside⟩ := frame.shares
      obtain ⟨issuance, holders⟩ := beside pool.lpToken fun same =>
        different (registered.ownTokens _ _ _ _ calledFound found same.symm)
      exact ⟨frame.pools id different.symm, issuance, holders,
        frame.paid.le⟩

/-- A pool that was not there before has a liquidity token without shares. -/
theorem Registered.new_unissued
    (wide : 64 ≤ w)
    (setupLawful : setup.Lawful)
    (registered : pallet.Registered)
    {id : Asset × Asset}
    {pool : Pool w Account}
    (earlier : pallet.storage.pools id = none)
    (found : next.storage.pools id = some pool)
    (stepped : pallet.step config setup call = some next) :
    next.storage.ledger.lpIssuance pool.lpToken = 0 ∧
      ∀ who, next.storage.ledger.lpBalance pool.lpToken who = 0 := by
  cases effect_of_step setupLawful stepped with
  | created _ _ _ _ _ _ unused charges next_eq =>
      subst next_eq
      rcases pools_of_created found with ⟨rfl, rfl⟩ | ⟨_, there⟩
      · obtain ⟨unissued, unheld⟩ := registered.unissued _ unused
        rw [Storage.ledger_update, charges.shares.issuance,
          charges.shares.balances]
        exact ⟨unissued, unheld⟩
      · rw [earlier] at there
        cases there
  | touched _ _ _ next_eq =>
      subst next_eq
      rw [earlier] at found
      cases found
  | onPool _ poolStepped next_eq =>
      subst next_eq
      obtain ⟨origin, there, _⟩ :=
        (registered.books.sameTerms_poolStep wide poolStepped).origin found
      rw [earlier] at there
      cases there

/-- The books of all pools are left to users. -/
theorem Sound.owners_step
    (wide : 64 ≤ w)
    (setupLawful : setup.Lawful)
    (sound : pallet.Sound config)
    (user : config.SignedByUser call)
    (stepped : pallet.step config setup call = some next)
    (id : Asset × Asset) :
    next.storage.Keeps fun _ _ owner _ => owner ≠ config.address id := by
  cases effect_of_step setupLawful stepped with
  | created _ _ _ _ _ _ _ _ next_eq =>
      subst next_eq
      refine (sound.owners id).update ⟨fun _ => ∅, fun side => ?_,
        fun _ => PriceMap.all_empty⟩ _
      cases side <;> exact CritbitTree.refines_new
  | touched _ _ _ next_eq =>
      subst next_eq
      exact sound.owners id
  | onPool called poolStepped next_eq =>
      subst called next_eq
      exact (sound.owners id).poolStep wide (user id) poolStepped

/-- Whatever the call is, the shares of all pools are sustained. -/
theorem Sound.step
    (wide : 64 ≤ w)
    (lawful : config.Lawful)
    (setupLawful : setup.Lawful)
    (fee : config.lpFee ≤ 1000)
    (sound : pallet.Sound config)
    (user : config.SignedByUser call)
    (stepped : pallet.step config setup call = some next) :
    next.Sound config ∧
      ∀ id pool, pallet.storage.pools id = some pool →
        config.SharesKept id.1 id.2 pool.lpToken pallet.storage.ledger
          next.storage.ledger := by
  obtain ⟨registered, keepsPools⟩ :=
    sound.registered.step wide setupLawful stepped
  have owners := sound.owners_step wide setupLawful user stepped
  -- a pool that was there before is the one that is called, or kept
  have before :
      ∀ id pool, pallet.storage.pools id = some pool →
        config.Shareholding id.1 id.2 pool.lpToken next.storage ∧
          config.SharesKept id.1 id.2 pool.lpToken pallet.storage.ledger
            next.storage.ledger := by
    intro id pool found
    by_cases named : call.poolId = some id
    · cases effect_of_step setupLawful stepped with
      | created called =>
          rw [called] at named
          cases named
      | touched called =>
          rw [called] at named
          cases named
      | onPool called poolStepped next_eq =>
          subst called next_eq
          exact (sound.holdings id pool found).step wide lawful fee
            (Option.some.inj named) (user id) poolStepped
    · exact (sound.holdings id pool found).kept
        (sound.registered.poolKept wide lawful setupLawful (sound.owners id)
          found (user id) named stepped) (owners id)
  refine ⟨⟨registered, owners, fun id nextPool found => ?_⟩,
    fun id pool found => (before id pool found).2⟩
  cases earlier : pallet.storage.pools id with
  | some pool =>
      obtain ⟨kept, foundKept, terms⟩ := keepsPools id pool earlier
      rw [found, Option.some.injEq] at foundKept
      rw [foundKept, terms.lpToken]
      exact (before id pool earlier).1
  | none =>
      obtain ⟨unissued, unheld⟩ :=
        sound.registered.new_unissued wide setupLawful earlier found stepped
      refine ⟨fun pool here => ?_, ?_, ?_, owners _⟩
      · rw [found, Option.some.injEq] at here
        rw [here]
      · intro holders
        simp [Ledger.shares, unheld]
      · intro supplied
        simp [Ledger.supply, unissued] at supplied

section Runs

variable {ledger : Ledger w Account Asset} {lpAssets : Nat → Bool}

theorem sound_of_run
    (wide : 64 ≤ w)
    (lawful : config.Lawful)
    (setupLawful : setup.Lawful)
    (fee : config.lpFee ≤ 1000)
    (unissued : Unissued ledger lpAssets)
    {calls : List (Dispatchable w Account Asset)}
    (users : ∀ call ∈ calls, config.SignedByUser call)
    (ran :
      Run.run (step config setup) calls (genesis ledger lpAssets) =
        some pallet) : pallet.Sound config :=
  Run.run_invariant_along
    (fun _ _ _ sound (user : config.SignedByUser _) stepped =>
      (sound.step wide lawful setupLawful fee user stepped).1)
    (sound_genesis unissued)
    (Run.along_of_forall (fun call member _ => users call member) _) ran

/-- The shares of a pool are kept by all calls of users. -/
theorem Sound.sharesKept_of_run
    (wide : 64 ≤ w)
    (lawful : config.Lawful)
    (setupLawful : setup.Lawful)
    (fee : config.lpFee ≤ 1000)
    (locks : 0 < config.mintMinLiquidity)
    (sound : pallet.Sound config)
    {later : List (Dispatchable w Account Asset)}
    (users : ∀ call ∈ later, config.SignedByUser call)
    (ran : Run.run (Pallet.step config setup) later pallet = some final)
    {id : Asset × Asset}
    {pool : Pool w Account}
    (found : pallet.storage.pools id = some pool)
    (issued : 0 < pallet.storage.ledger.supply pool.lpToken) :
    0 < final.storage.ledger.supply pool.lpToken ∧
      (config.stake id.1 id.2 pool.lpToken pallet.storage.ledger).Sustains
        (config.stake id.1 id.2 pool.lpToken final.storage.ledger) := by
  have preserved :
      ∀ call (state next : Pallet w Account Asset),
        (state.Sound config ∧ pallet.KeepsPools state ∧
          0 < state.storage.ledger.supply pool.lpToken ∧
          (config.stake id.1 id.2 pool.lpToken
            pallet.storage.ledger).Sustains
              (config.stake id.1 id.2 pool.lpToken state.storage.ledger)) →
          config.SignedByUser call →
            state.step config setup call = some next →
              next.Sound config ∧ pallet.KeepsPools next ∧
                0 < next.storage.ledger.supply pool.lpToken ∧
                (config.stake id.1 id.2 pool.lpToken
                  pallet.storage.ledger).Sustains
                    (config.stake id.1 id.2 pool.lpToken
                      next.storage.ledger) := by
    intro call state next ⟨holds, kept, positive, sustained⟩ user stepped
    obtain ⟨soundNext, sharesKept⟩ :=
      holds.step wide lawful setupLawful fee user stepped
    obtain ⟨here, foundHere, terms⟩ := kept id pool found
    have shares := sharesKept id here foundHere
    rw [terms.lpToken] at shares
    obtain ⟨positiveNext, sustains⟩ := shares positive
    exact ⟨soundNext,
      kept.trans (holds.registered.step wide setupLawful stepped).2,
      positiveNext locks, sustained.trans sustains positive⟩
  have reached := Run.run_invariant_along preserved
    ⟨sound, .refl pallet, issued, Stake.sustains_of_product rfl le_rfl⟩
    (Run.along_of_forall (fun call member _ => users call member) _)
    ran
  exact reached.2.2

/--
Whatever users do to any pools after a state that calls have reached, the
shares of a pool that are issued there are worth no less afterwards, and not
all of them are burnt.
-/
theorem shareValue_of_run
    (wide : 64 ≤ w)
    (config : Config w Account Asset)
    (lawful : config.Lawful)
    (setup : Setup w Account Asset)
    (setupLawful : setup.Lawful)
    (fee : config.lpFee ≤ 1000)
    (locks : 0 < config.mintMinLiquidity)
    (unissued : Unissued ledger lpAssets)
    (calls later : List (Dispatchable w Account Asset))
    (users : ∀ call ∈ calls ++ later, config.SignedByUser call)
    (ran :
      Run.run (Pallet.step config setup) calls (genesis ledger lpAssets) =
        some pallet)
    (ranLater :
      Run.run (Pallet.step config setup) later pallet = some final)
    {id : Asset × Asset}
    {pool : Pool w Account}
    (found : pallet.storage.pools id = some pool)
    (issued : 0 < pallet.storage.ledger.supply pool.lpToken) :
    0 < final.storage.ledger.supply pool.lpToken ∧
      (config.stake id.1 id.2 pool.lpToken pallet.storage.ledger).Sustains
        (config.stake id.1 id.2 pool.lpToken final.storage.ledger) := by
  obtain ⟨usersBefore, usersLater⟩ := List.forall_mem_append.mp users
  have sound := sound_of_run wide lawful setupLawful fee unissued usersBefore
    ran
  exact sound.sharesKept_of_run wide lawful setupLawful fee locks usersLater
    ranLater found issued

theorem users_mock :
    ∀ call ∈ mockCreation (.inl 1 : Config.MockAccount) ++
        mockTrading (.inl 1) (.inr (1, 0)),
      Config.mock.SignedByUser call := by
  intro call member id signs
  simp only [mockCreation, mockTrading, List.cons_append, List.nil_append,
    List.mem_cons, List.not_mem_nil, or_false] at member
  rcases member with rfl | rfl | rfl | rfl | rfl | rfl <;> cases signs

/-- Trades with the pool and a redemption. -/
theorem shareValue_of_run_mock :
    ∃ pallet final : Pallet 64 Config.MockAccount Nat,
      Run.run (Pallet.step Config.mock (.mock (.inl 0)))
          (mockCreation (.inl 1))
          (genesis (.mock Sum.isLeft) fun _ => false) = some pallet ∧
        Run.run (Pallet.step Config.mock (.mock (.inl 0)))
          (mockTrading (.inl 1) (.inr (1, 0))) pallet = some final ∧
        0 < final.storage.ledger.supply 0 ∧
        (Config.mock.stake 0 1 0 pallet.storage.ledger).Sustains
          (Config.mock.stake 0 1 0 final.storage.ledger) := by
  have succeeds :
      ((Run.run (Pallet.step Config.mock (.mock (.inl 0)))
          (mockCreation (.inl 1))
          (genesis (.mock Sum.isLeft) fun _ => false)).bind fun pallet =>
        (Run.run (Pallet.step Config.mock (.mock (.inl 0)))
          (mockTrading (.inl 1) (.inr (1, 0))) pallet).map fun _ =>
            ((pallet.storage.pools (0, 1)).map (·.lpToken),
              pallet.storage.ledger.supply 0)) =
        some (some 0, 31622) := by
    decide +kernel
  obtain ⟨pallet, ran, continues⟩ := Option.bind_eq_some_iff.mp succeeds
  obtain ⟨final, ranLater, facts⟩ := Option.map_eq_some_iff.mp continues
  rw [Prod.mk.injEq] at facts
  obtain ⟨pool, found, token⟩ := Option.map_eq_some_iff.mp facts.1
  have issued : 0 < pallet.storage.ledger.supply pool.lpToken := by
    rw [token, facts.2]
    decide
  have kept := shareValue_of_run (by decide) Config.mock Config.mock_lawful
    (.mock (.inl 0)) (Setup.mock_lawful _) (by decide) (by decide)
    (unissued_mock _) _ _ users_mock ran ranLater found issued
  rw [token] at kept
  exact ⟨pallet, final, ran, ranLater, kept⟩

/--
Calls that name other pools leave a pool exactly as it is, with its books and
its shares, and take nothing from its reserves.
-/
theorem poolKept_of_run
    (wide : 64 ≤ w)
    (config : Config w Account Asset)
    (lawful : config.Lawful)
    (setup : Setup w Account Asset)
    (setupLawful : setup.Lawful)
    (fee : config.lpFee ≤ 1000)
    (unissued : Unissued ledger lpAssets)
    (calls later : List (Dispatchable w Account Asset))
    (users : ∀ call ∈ calls ++ later, config.SignedByUser call)
    (ran :
      Run.run (Pallet.step config setup) calls (genesis ledger lpAssets) =
        some pallet)
    (ranLater :
      Run.run (Pallet.step config setup) later pallet = some final)
    {id : Asset × Asset}
    {pool : Pool w Account}
    (found : pallet.storage.pools id = some pool)
    (elsewhere : ∀ call ∈ later, call.poolId ≠ some id) :
    pallet.storage.PoolKept config id pool.lpToken final.storage := by
  obtain ⟨usersBefore, usersLater⟩ := List.forall_mem_append.mp users
  have sound := sound_of_run wide lawful setupLawful fee unissued usersBefore
    ran
  have preserved :
      ∀ call (state next : Pallet w Account Asset),
        (state.Sound config ∧
          pallet.storage.PoolKept config id pool.lpToken state.storage) →
          (config.SignedByUser call ∧ call.poolId ≠ some id) →
            state.step config setup call = some next →
              next.Sound config ∧
                pallet.storage.PoolKept config id pool.lpToken
                  next.storage := by
    intro call state next ⟨holds, kept⟩ ⟨user, other⟩ stepped
    have here : state.storage.pools id = some pool :=
      kept.record.trans found
    exact ⟨(holds.step wide lawful setupLawful fee user stepped).1,
      kept.trans (holds.registered.poolKept wide lawful setupLawful
        (holds.owners id) here (user id) other stepped)⟩
  exact (Run.run_invariant_along preserved
    ⟨sound, rfl, rfl, rfl, fun _ => le_rfl⟩
    (Run.along_of_forall
      (fun call member _ => ⟨usersLater call member, elsewhere call member⟩)
      _) ranLater).2

/-- A redemption from one pool is paid to the account of the other one. -/
theorem poolKept_of_run_mock :
    ∃ pallet final : Pallet 64 Config.MockAccount Nat,
      Run.run (Pallet.step Config.mock (.mock (.inl 0)))
          (mockCreation (.inl 1))
          (genesis (.mock Sum.isLeft) fun _ => false) = some pallet ∧
        Run.run (Pallet.step Config.mock (.mock (.inl 0)))
          (mockTrading (.inl 1) (.inr (1, 0))) pallet = some final ∧
        pallet.storage.PoolKept Config.mock (1, 0) 1 final.storage := by
  have succeeds :
      ((Run.run (Pallet.step Config.mock (.mock (.inl 0)))
          (mockCreation (.inl 1))
          (genesis (.mock Sum.isLeft) fun _ => false)).bind fun pallet =>
        (Run.run (Pallet.step Config.mock (.mock (.inl 0)))
          (mockTrading (.inl 1) (.inr (1, 0))) pallet).map fun _ =>
            (pallet.storage.pools (1, 0)).map (·.lpToken)) =
        some (some 1) := by
    decide +kernel
  obtain ⟨pallet, ran, continues⟩ := Option.bind_eq_some_iff.mp succeeds
  obtain ⟨final, ranLater, facts⟩ := Option.map_eq_some_iff.mp continues
  obtain ⟨pool, found, token⟩ := Option.map_eq_some_iff.mp facts
  have kept := poolKept_of_run (by decide) Config.mock Config.mock_lawful
    (.mock (.inl 0)) (Setup.mock_lawful _) (by decide) (unissued_mock _) _ _
    users_mock ran ranLater found (by decide)
  rw [token] at kept
  exact ⟨pallet, final, ran, ranLater, kept⟩

end Runs

end Pallet

end HybridOrderbook
