import HybridOrderbook.PalletRuns

namespace HybridOrderbook

open Library

/-!
# Invariants of the whole pallet

The calls on all pools, the creation of pools and `touch` are run in any
order, from a state without pools.  Every pool that such a run reaches is
well formed and has a liquidity token of its own, calls on one pool do not
take from another one, and no call makes assets.
-/

variable {w : Nat} {Account Asset : Type} [DecidableEq Account]
  [DecidableEq Asset]

/-- No account of a pool signs the call. -/
def Config.SignedByUser
    (config : Config w Account Asset)
    (call : Dispatchable w Account Asset) : Prop :=
  ∀ id, call.signer ≠ config.address id

section PoolCalls

variable {config : Config w Account Asset}
  {liquidityWithdrawalFee : BitVec w → BitVec w}
  {call : PoolCall w Account Asset} {storage next : Storage w Account Asset}
  {property : Bool → BitVec w → Account → Nat → Prop}

omit [DecidableEq Account] [DecidableEq Asset] in
theorem Storage.SameTerms.kept
    (same : storage.SameTerms next)
    {id : Asset × Asset}
    {pool : Pool w Account}
    (found : storage.pools id = some pool) :
    ∃ nextPool, next.pools id = some nextPool ∧ pool.SameTerms nextPool := by
  have related := same id
  rw [found] at related
  generalize next.pools id = reached at related
  cases related with
  | some sameTerms =>
      exact ⟨_, rfl, sameTerms⟩

/-- Calls on pools neither add nor lose pools, and keep their parameters. -/
theorem Storage.Keeps.sameTerms_poolStep
    (wide : 64 ≤ w)
    (keeps : storage.Keeps fun _ _ _ _ => True)
    (stepped :
      config.poolStep liquidityWithdrawalFee call storage = some next) :
    storage.SameTerms next := by
  cases call with
  | removeLiquidity signer base quote lpTokenBurn baseMinReceive
      quoteMinReceive withdrawTo =>
      exact Storage.SameTerms.of_pools_eq
        (Config.removeLiquidity_keeps (toOption_eq_some_iff.mp stepped)).1
  | dispatch extrinsic =>
      exact keeps.sameTerms_step wide downward_true stepped

end PoolCalls

namespace Pallet

variable {config : Config w Account Asset} {setup : Setup w Account Asset}
  {call : Dispatchable w Account Asset} {pallet next : Pallet w Account Asset}

/-- What holds of the pools in every state that a run reaches. -/
structure Registered (pallet : Pallet w Account Asset) : Prop where
  pairs :
    ∀ id pool, pallet.storage.pools id = some pool → id.1 ≠ id.2
  sizes :
    ∀ id pool, pallet.storage.pools id = some pool →
      0 < pool.tickSize ∧ 0 < pool.lotSize
  tokens :
    ∀ id pool, pallet.storage.pools id = some pool →
      pool.lpToken < pallet.nextPoolAssetId.getD 0 ∧
        pallet.lpAssets pool.lpToken = true
  ownTokens :
    ∀ id pool other otherPool,
      pallet.storage.pools id = some pool →
        pallet.storage.pools other = some otherPool →
          pool.lpToken = otherPool.lpToken → id = other
  -- a liquidity token that does not exist is not held
  unissued :
    ∀ lpToken, pallet.lpAssets lpToken = false →
      pallet.storage.ledger.lpIssuance lpToken = 0 ∧
        ∀ who, pallet.storage.ledger.lpBalance lpToken who = 0
  books : pallet.storage.Keeps fun _ _ _ _ => True

/-- The liquidity tokens that do not exist before the run are not held. -/
def Unissued
    (ledger : Ledger w Account Asset)
    (lpAssets : Nat → Bool) : Prop :=
  ∀ lpToken, lpAssets lpToken = false →
    ledger.lpIssuance lpToken = 0 ∧ ∀ who, ledger.lpBalance lpToken who = 0

omit [DecidableEq Account] [DecidableEq Asset] in
theorem registered_genesis
    {ledger : Ledger w Account Asset}
    {lpAssets : Nat → Bool}
    (unissued : Unissued ledger lpAssets) :
    (genesis ledger lpAssets).Registered where
  pairs _ _ found := by cases found
  sizes _ _ found := by cases found
  tokens _ _ found := by cases found
  ownTokens _ _ _ _ found := by cases found
  unissued := unissued
  books _ _ found := by cases found

/-- Pools stay, with the parameters that they were created with. -/
def KeepsPools (pallet next : Pallet w Account Asset) : Prop :=
  ∀ id pool, pallet.storage.pools id = some pool →
    ∃ nextPool,
      next.storage.pools id = some nextPool ∧ pool.SameTerms nextPool

omit [DecidableEq Account] [DecidableEq Asset] in
theorem KeepsPools.refl (pallet : Pallet w Account Asset) :
    pallet.KeepsPools pallet :=
  fun _ pool found => ⟨pool, found, .refl pool⟩

omit [DecidableEq Account] [DecidableEq Asset] in
theorem KeepsPools.trans
    {middle : Pallet w Account Asset}
    (first : pallet.KeepsPools middle)
    (second : middle.KeepsPools next) : pallet.KeepsPools next := by
  intro id pool found
  obtain ⟨middlePool, foundMiddle, terms⟩ := first id pool found
  obtain ⟨nextPool, foundNext, laterTerms⟩ := second id middlePool foundMiddle
  exact ⟨nextPool, foundNext, terms.trans laterTerms⟩

section Created

variable {base quote : Asset} {tickSize lotSize : BitVec w}
  {poolDecimals baseDecimals quoteDecimals : BitVec 8} {lpToken : Nat}
  {ledger : Ledger w Account Asset}

omit [DecidableEq Account] in
/-- A pool of the new state is the created one or was there before. -/
theorem pools_of_created
    {id : Asset × Asset}
    {pool new : Pool w Account}
    (found :
      (pallet.storage.update (base, quote) new ledger).pools id =
        some pool) :
    (id = (base, quote) ∧ pool = new) ∨
      (id ≠ (base, quote) ∧ pallet.storage.pools id = some pool) := by
  by_cases here : id = (base, quote)
  · subst here
    rw [Storage.pools_update_self, Option.some.injEq] at found
    exact .inl ⟨rfl, found.symm⟩
  · rw [Storage.pools_update_of_ne here] at found
    exact .inr ⟨here, found⟩

omit [DecidableEq Account] in
/-- Creating a pool with the next liquidity token. -/
theorem Registered.created
    (registered : pallet.Registered)
    (differentAssets : base ≠ quote)
    (tickSizePositive : 0 < tickSize)
    (lotSizePositive : 0 < lotSize)
    (drawn : lpToken = pallet.nextPoolAssetId.getD 0)
    (shares : pallet.storage.ledger.SameShares ledger) :
    Registered
      { storage :=
          pallet.storage.update (base, quote)
            (Pool.new lpToken tickSize lotSize poolDecimals baseDecimals
              quoteDecimals)
            ledger
        nextPoolAssetId := some (lpToken + 1)
        lpAssets := Function.update pallet.lpAssets lpToken true } := by
  -- earlier liquidity tokens were drawn before
  have earlier :
      ∀ id pool, pallet.storage.pools id = some pool →
        pool.lpToken < lpToken := by
    intro id pool found
    rw [drawn]
    exact (registered.tokens id pool found).1
  constructor
  · intro id pool found
    rcases pools_of_created found with ⟨rfl, _⟩ | ⟨_, before⟩
    · exact differentAssets
    · exact registered.pairs id pool before
  · intro id pool found
    rcases pools_of_created found with ⟨_, rfl⟩ | ⟨_, before⟩
    · exact ⟨tickSizePositive, lotSizePositive⟩
    · exact registered.sizes id pool before
  · intro id pool found
    rcases pools_of_created found with ⟨_, rfl⟩ | ⟨_, before⟩
    · exact ⟨Nat.lt_succ_self _, Function.update_self ..⟩
    · have less := earlier id pool before
      refine ⟨Nat.lt_succ_of_lt less, ?_⟩
      simpa only [Function.update_of_ne less.ne] using
        (registered.tokens id pool before).2
  · intro id pool other otherPool found otherFound same
    rcases pools_of_created found with ⟨rfl, rfl⟩ | ⟨_, before⟩
    · rcases pools_of_created otherFound with ⟨rfl, _⟩ | ⟨_, otherBefore⟩
      · rfl
      · exact absurd same (earlier other otherPool otherBefore).ne'
    · rcases pools_of_created otherFound with ⟨_, rfl⟩ | ⟨_, otherBefore⟩
      · exact absurd same (earlier id pool before).ne
      · exact registered.ownTokens id pool other otherPool before
          otherBefore same
  · intro other absent
    have before : pallet.lpAssets other = false := by
      by_cases here : other = lpToken
      · subst here
        simp at absent
      · simpa [Function.update_of_ne here] using absent
    simp only [Storage.ledger_update, shares.issuance, shares.balances]
    exact registered.unissued other before
  · intro id pool found
    rcases pools_of_created found with ⟨_, rfl⟩ | ⟨_, before⟩
    · exact ⟨_, Pool.refines_of_new ⟨rfl, rfl⟩,
        fun _ => PriceMap.all_empty⟩
    · exact registered.books id pool before

end Created

omit [DecidableEq Account] [DecidableEq Asset] in
/-- A change of the ledger alone, that leaves liquidity tokens as they are. -/
theorem Registered.charged
    (registered : pallet.Registered)
    {ledger : Ledger w Account Asset}
    (shares : pallet.storage.ledger.SameShares ledger) :
    Registered
      { pallet with storage := { pallet.storage with ledger := ledger } } where
  pairs := registered.pairs
  sizes := registered.sizes
  tokens := registered.tokens
  ownTokens := registered.ownTokens
  unissued lpToken absent := by
    simp only [shares.issuance, shares.balances]
    exact registered.unissued lpToken absent
  books := registered.books

/-- Calls on pools change no parameters, and issue only existing tokens. -/
theorem Registered.onPool
    (wide : 64 ≤ w)
    (registered : pallet.Registered)
    {poolCall : PoolCall w Account Asset}
    {storage : Storage w Account Asset}
    (stepped :
      config.poolStep setup.liquidityWithdrawalFee poolCall
        pallet.storage = some storage) :
    Registered { pallet with storage := storage } := by
  have sameTerms := registered.books.sameTerms_poolStep wide stepped
  have frame : Config.CallFrame (fun _ => True) poolCall pallet.storage
      storage :=
    Config.callFrame_of_poolStep wide registered.books trivial trivial stepped
  constructor
  · intro id pool found
    obtain ⟨origin, before, _⟩ := sameTerms.origin found
    exact registered.pairs id origin before
  · intro id pool found
    obtain ⟨origin, before, terms⟩ := sameTerms.origin found
    rw [terms.tickSize, terms.lotSize]
    exact registered.sizes id origin before
  · intro id pool found
    obtain ⟨origin, before, terms⟩ := sameTerms.origin found
    rw [terms.lpToken]
    exact registered.tokens id origin before
  · intro id pool other otherPool found otherFound same
    obtain ⟨origin, before, terms⟩ := sameTerms.origin found
    obtain ⟨otherOrigin, otherBefore, otherTerms⟩ :=
      sameTerms.origin otherFound
    rw [terms.lpToken, otherTerms.lpToken] at same
    exact registered.ownTokens id origin other otherOrigin before otherBefore
      same
  · intro lpToken absent
    obtain ⟨pool, found, beside⟩ := frame.shares
    have different : lpToken ≠ pool.lpToken := by
      rintro rfl
      rw [(registered.tokens _ pool found).2] at absent
      cases absent
    obtain ⟨issuance, balances⟩ := beside lpToken different
    simp only [issuance, balances]
    exact registered.unissued lpToken absent
  · exact registered.books.poolStep wide trivial stepped

theorem Registered.step
    (wide : 64 ≤ w)
    (lawful : setup.Lawful)
    (registered : pallet.Registered)
    (stepped : pallet.step config setup call = some next) :
    next.Registered ∧ pallet.KeepsPools next := by
  cases effect_of_step lawful stepped with
  | created _ different tick lot absent drawn unused charges next_eq =>
      subst next_eq
      refine ⟨registered.created different tick lot drawn charges.shares,
        fun id pool found => ⟨pool, ?_, .refl pool⟩⟩
      have other : id ≠ _ := fun here => by
        rw [here, absent] at found
        cases found
      exact (Storage.pools_update_of_ne other).trans found
  | touched _ _ charges next_eq =>
      subst next_eq
      exact ⟨registered.charged charges.shares, .refl pallet⟩
  | onPool _ called next_eq =>
      subst next_eq
      have sameTerms := registered.books.sameTerms_poolStep wide called
      exact ⟨registered.onPool wide called, fun _ _ => sameTerms.kept⟩

section Runs

variable {ledger : Ledger w Account Asset} {lpAssets : Nat → Bool}
  {final : Pallet w Account Asset}

theorem registered_of_run
    (wide : 64 ≤ w)
    (lawful : setup.Lawful)
    (unissued : Unissued ledger lpAssets)
    {calls : List (Dispatchable w Account Asset)}
    (ran :
      Run.run (step config setup) calls (genesis ledger lpAssets) =
        some pallet) : pallet.Registered :=
  Run.run_invariant
    (fun _ _ _ registered stepped => (registered.step wide lawful stepped).1)
    (registered_genesis unissued) ran

theorem Registered.keepsPools_of_run
    (wide : 64 ≤ w)
    (lawful : setup.Lawful)
    (registered : pallet.Registered)
    {calls : List (Dispatchable w Account Asset)}
    (ran : Run.run (Pallet.step config setup) calls pallet = some final) :
    pallet.KeepsPools final := by
  have preserved :
      ∀ call (state next : Pallet w Account Asset),
        (state.Registered ∧ pallet.KeepsPools state) →
          state.step config setup call = some next →
            next.Registered ∧ pallet.KeepsPools next := by
    intro call state next ⟨holds, kept⟩ stepped
    obtain ⟨registeredNext, keptNext⟩ := holds.step wide lawful stepped
    exact ⟨registeredNext, kept.trans keptNext⟩
  exact (Run.run_invariant preserved ⟨registered, .refl pallet⟩ ran).2

omit [DecidableEq Account] [DecidableEq Asset] in
/-- The checks of orders divide by the tick size and the lot size. -/
theorem Registered.checks_return
    (registered : pallet.Registered)
    {id : Asset × Asset}
    {pool : Pool w Account}
    (found : pallet.storage.pools id = some pool)
    (price quantity : BitVec w) :
    (∃ valid, pool.isValidOrderPrice price = .ok valid) ∧
      ∃ valid, pool.isValidOrderQuantity quantity = .ok valid := by
  obtain ⟨tick, lot⟩ := registered.sizes id pool found
  have tickNonzero : pool.tickSize ≠ 0 := (BitVec.ne_of_lt tick).symm
  have lotNonzero : pool.lotSize ≠ 0 := (BitVec.ne_of_lt lot).symm
  constructor
  · unfold Pool.isValidOrderPrice
    split
    · exact ⟨_, by simp only [Machine.rem, tickNonzero, if_false]; rfl⟩
    · exact ⟨_, rfl⟩
  · unfold Pool.isValidOrderQuantity
    split
    · exact ⟨_, by simp only [Machine.rem, lotNonzero, if_false]; rfl⟩
    · exact ⟨_, rfl⟩

/--
In every state that calls reach from a state without pools, each pool is of
two different assets, has positive tick and lot sizes and a liquidity token
that no other pool has.  Later calls keep the pool and its parameters, and
no check of an order divides by zero.
-/
theorem pools_of_run
    (wide : 64 ≤ w)
    (config : Config w Account Asset)
    (setup : Setup w Account Asset)
    (lawful : setup.Lawful)
    (ledger : Ledger w Account Asset)
    (lpAssets : Nat → Bool)
    (unissued : Unissued ledger lpAssets)
    (calls later : List (Dispatchable w Account Asset))
    (ran :
      Run.run (step config setup) calls (genesis ledger lpAssets) =
        some pallet)
    (ranLater : Run.run (step config setup) later pallet = some final) :
    pallet.Registered ∧ pallet.KeepsPools final ∧
      ∀ id pool price quantity,
        pallet.storage.pools id = some pool →
          (∃ valid, pool.isValidOrderPrice price = .ok valid) ∧
            ∃ valid, pool.isValidOrderQuantity quantity = .ok valid := by
  have registered := registered_of_run wide lawful unissued ran
  exact ⟨registered, registered.keepsPools_of_run wide lawful ranLater,
    fun _ _ price quantity found =>
      registered.checks_return found price quantity⟩

omit [DecidableEq Account] in
theorem unissued_mock (users : Account → Bool) :
    Unissued (Ledger.mock users) fun _ => false :=
  fun _ _ => ⟨rfl, fun _ => rfl⟩

/-- Two pools of the same two assets, and liquidity for the first of them. -/
def mockCreation
    (user : Account) : List (Dispatchable 64 Account Nat) :=
  [.createPool user 0 0 1 0 1 1 0, .createPool user 1 0 0 0 1 1 0,
    .onPool (.dispatch ⟨user, 1, .addLiquidity 0 1 10000 100000 0 0 user⟩)]

/-- A market order, a limit order that rests, and a redemption. -/
def mockTrading
    (user withdrawTo : Account) : List (Dispatchable 64 Account Nat) :=
  [.onPool (.dispatch ⟨user, 2, .marketOrder 0 1 10 true⟩),
    .onPool (.dispatch ⟨user, 2, .limitOrder 0 1 false 200 5⟩),
    .onPool (.removeLiquidity user 0 1 500 1 1 withdrawTo)]

/-- A redemption is paid to the account of the other pool. -/
theorem pools_of_run_mock :
    ∃ pallet final : Pallet 64 Config.MockAccount Nat,
      Run.run (step Config.mock (.mock (.inl 0))) (mockCreation (.inl 1))
          (genesis (.mock Sum.isLeft) fun _ => false) = some pallet ∧
        Run.run (step Config.mock (.mock (.inl 0)))
          (mockTrading (.inl 1) (.inr (1, 0))) pallet = some final ∧
        pallet.nextPoolAssetId = some 2 ∧
        pallet.Registered ∧ pallet.KeepsPools final := by
  have succeeds :
      ((Run.run (step Config.mock (.mock (.inl 0))) (mockCreation (.inl 1))
          (genesis (.mock Sum.isLeft) fun _ => false)).bind fun pallet =>
        (Run.run (step Config.mock (.mock (.inl 0)))
          (mockTrading (.inl 1) (.inr (1, 0))) pallet).map
            fun _ => pallet.nextPoolAssetId) = some (some 2) := by
    decide +kernel
  obtain ⟨pallet, ran, continues⟩ := Option.bind_eq_some_iff.mp succeeds
  obtain ⟨final, ranLater, drawn⟩ := Option.map_eq_some_iff.mp continues
  obtain ⟨registered, keepsPools, _⟩ :=
    pools_of_run (by decide) Config.mock (.mock (.inl 0))
      (Setup.mock_lawful _) _ _ (unissued_mock _) _ _ ran ranLater
  exact ⟨pallet, final, ran, ranLater, drawn, registered, keepsPools⟩

end Runs

end Pallet

section Totals

variable [Fintype Account]

/-- What all accounts together hold of an asset. -/
def Ledger.total (ledger : Ledger w Account Asset) (asset : Asset) : Nat :=
  ∑ who, (ledger.balance asset who).toNat

variable {ledger next : Ledger w Account Asset}

theorem Ledger.PaidBy.total_eq
    {pays : Account → Prop}
    (paid : ledger.PaidBy pays next)
    (asset : Asset) : next.total asset = ledger.total asset := by
  obtain ⟨transfers, _, moves⟩ := paid
  exact moves.total asset

/-- What is charged and not received by anyone is lost. -/
theorem Ledger.Charges.total_le
    {who : Account}
    (charges : ledger.Charges next who)
    (asset : Asset) : next.total asset ≤ ledger.total asset := by
  obtain ⟨charged, received, moves, covered⟩ := charges.balances
  have moved :
      ∑ other, ((next.balance asset other).toNat +
          if other = who then charged asset else 0) =
        ∑ other, ((ledger.balance asset other).toNat +
          received asset other) :=
    Finset.sum_congr rfl fun other _ => moves asset other
  have bound : ∑ other, received asset other ≤ charged asset := by
    rcases covered with rfl | ⟨feeAsset, target, amount, rfl, le⟩
    · simp
    · by_cases same : asset = feeAsset
      · subst same
        simpa [Ledger.flow] using le
      · simp [Ledger.flow, same]
  simp only [Finset.sum_add_distrib, Finset.sum_ite_eq', Finset.mem_univ,
    if_true] at moved
  unfold Ledger.total
  omega

namespace Pallet

variable {config : Config w Account Asset} {setup : Setup w Account Asset}
  {call : Dispatchable w Account Asset}
  {pallet next final : Pallet w Account Asset}

/-- No call makes assets, and calls on pools lose none. -/
theorem Registered.total_step
    (wide : 64 ≤ w)
    (lawful : setup.Lawful)
    (registered : pallet.Registered)
    (stepped : pallet.step config setup call = some next)
    (asset : Asset) :
    next.storage.ledger.total asset ≤ pallet.storage.ledger.total asset ∧
      (call.poolId ≠ none →
        next.storage.ledger.total asset =
          pallet.storage.ledger.total asset) := by
  cases effect_of_step lawful stepped with
  | created called _ _ _ _ _ _ charges next_eq =>
      subst next_eq
      refine ⟨charges.total_le asset, fun onPool => ?_⟩
      rw [called] at onPool
      exact absurd rfl onPool
  | touched called _ charges next_eq =>
      subst next_eq
      refine ⟨charges.total_le asset, fun onPool => ?_⟩
      rw [called] at onPool
      exact absurd rfl onPool
  | @onPool poolCall storage _ poolStepped next_eq =>
      subst next_eq
      have frame : Config.CallFrame (fun _ => True) poolCall pallet.storage
          storage :=
        Config.callFrame_of_poolStep wide registered.books trivial trivial
          poolStepped
      have same := frame.paid.total_eq asset
      exact ⟨same.le, fun _ => same⟩

/--
From every state that calls reach, no calls make assets: what all accounts
together hold of an asset does not grow.  Calls on pools leave it as it is;
only the fee and the deposits for a new pool can leave the accounts.
-/
theorem totals_of_run
    (wide : 64 ≤ w)
    (config : Config w Account Asset)
    (setup : Setup w Account Asset)
    (lawful : setup.Lawful)
    (ledger : Ledger w Account Asset)
    (lpAssets : Nat → Bool)
    (unissued : Unissued ledger lpAssets)
    (calls later : List (Dispatchable w Account Asset))
    (ran :
      Run.run (step config setup) calls (genesis ledger lpAssets) =
        some pallet)
    (ranLater : Run.run (step config setup) later pallet = some final)
    (asset : Asset) :
    final.storage.ledger.total asset ≤ pallet.storage.ledger.total asset ∧
      ((∀ call ∈ later, call.poolId ≠ none) →
        final.storage.ledger.total asset =
          pallet.storage.ledger.total asset) := by
  have registered := registered_of_run wide lawful unissued ran
  constructor
  · have preserved :
        ∀ call (state next : Pallet w Account Asset),
          (state.Registered ∧ state.storage.ledger.total asset ≤
              pallet.storage.ledger.total asset) →
            state.step config setup call = some next →
              next.Registered ∧ next.storage.ledger.total asset ≤
                pallet.storage.ledger.total asset := by
      intro call state next ⟨holds, le⟩ stepped
      exact ⟨(holds.step wide lawful stepped).1,
        (holds.total_step wide lawful stepped asset).1.trans le⟩
    exact (Run.run_invariant preserved ⟨registered, le_rfl⟩ ranLater).2
  · intro onPools
    have preserved :
        ∀ call (state next : Pallet w Account Asset),
          (state.Registered ∧ state.storage.ledger.total asset =
              pallet.storage.ledger.total asset) →
            call.poolId ≠ none →
              state.step config setup call = some next →
                next.Registered ∧ next.storage.ledger.total asset =
                  pallet.storage.ledger.total asset := by
      intro call state next ⟨holds, same⟩ onPool stepped
      exact ⟨(holds.step wide lawful stepped).1,
        ((holds.total_step wide lawful stepped asset).2 onPool).trans same⟩
    exact (Run.run_invariant_along preserved ⟨registered, rfl⟩
      (Run.along_of_forall (fun call member _ => onPools call member) _)
      ranLater).2

/-- Accounts 4 to 7 are those of pools. -/
def mockAddress (id : Nat × Nat) : Fin 8 :=
  if id = (0, 1) then 4 else if id = (1, 0) then 5 else 6

/-- The test runtime with eight accounts. -/
def mockConfig : Config 64 (Fin 8) Nat where
  overflowChecks := false
  lpFee := 3
  mintMinLiquidity := 100
  orderExpiration := 100
  maxSwapPathLength := 4
  minimumBalance _ := 1
  address := mockAddress
  reducibleBalance ledger asset who _ := ledger.balance asset who
  allows _ _ := true

/-- The fee is received, and the six deposits for two pools are not. -/
theorem totals_of_run_mock :
    ∃ pallet final : Pallet 64 (Fin 8) Nat,
      Run.run (step mockConfig (.mock 0)) (mockCreation 1)
          (genesis (.mock (· < 4)) fun _ => false) = some pallet ∧
        Run.run (step mockConfig (.mock 0)) (mockTrading 1 5) pallet =
          some final ∧
        pallet.storage.ledger.total 0 = 3999994 ∧
        final.storage.ledger.total 0 = pallet.storage.ledger.total 0 := by
  have succeeds :
      ((Run.run (step mockConfig (.mock 0)) (mockCreation 1)
          (genesis (.mock (· < 4)) fun _ => false)).bind fun pallet =>
        (Run.run (step mockConfig (.mock 0)) (mockTrading 1 5) pallet).map
          fun _ => pallet.storage.ledger.total 0) = some 3999994 := by
    decide +kernel
  obtain ⟨pallet, ran, continues⟩ := Option.bind_eq_some_iff.mp succeeds
  obtain ⟨final, ranLater, total⟩ := Option.map_eq_some_iff.mp continues
  exact ⟨pallet, final, ran, ranLater, total,
    (totals_of_run (by decide) mockConfig (.mock 0) (Setup.mock_lawful _) _ _
      (unissued_mock _) _ _ ran ranLater 0).2 (by decide)⟩

end Pallet

end Totals

end HybridOrderbook
