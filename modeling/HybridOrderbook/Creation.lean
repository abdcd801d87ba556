import HybridOrderbook.Shares

namespace HybridOrderbook

open Library

/-!
# The whole pallet

`create_pool` registers a pool, with empty books and a new liquidity token,
and `touch` puts the accounts of a pool in place.  Together with the calls on
pools they are all dispatchables of the pallet.  Its runs start from a state
without pools.
-/

variable {w : Nat} {Account Asset : Type} [DecidableEq Account]
  [DecidableEq Asset]

/-- What an account can be put in place for: an asset or a liquidity token. -/
inductive AssetClass (Asset : Type) where
  | asset (asset : Asset)
  | lpToken (lpToken : Nat)
  deriving Repr, DecidableEq

/-- The constants of pool creation, and what the registries do for it. -/
structure Setup (w : Nat) (Account Asset : Type) where
  poolSetupFee : BitVec w
  poolSetupFeeAsset : Asset
  -- the account that `PoolSetupFeeTarget` resolves the fee to
  poolSetupFeeTarget : Account
  -- what `LiquidityWithdrawalFee` takes of an amount
  liquidityWithdrawalFee : BitVec w → BitVec w
  -- the largest `PoolAssetId`
  maxPoolAssetId : Nat
  shouldTouch :
    Ledger w Account Asset → AssetClass Asset → Account → Bool
  -- put an account in place, at the expense of the last account
  touch :
    AssetClass Asset → Account → Account → Ledger w Account Asset →
      Option (Ledger w Account Asset)

/-- Putting accounts in place takes no more than a deposit of the depositor. -/
structure Setup.Lawful (setup : Setup w Account Asset) : Prop where
  touched :
    ∀ {target who depositor ledger next},
      setup.touch target who depositor ledger = some next →
        (∃ asset deposit,
          ledger.Moves next (Ledger.flow asset depositor deposit) 0) ∧
          next.frozen = ledger.frozen ∧
          ledger.SameShares next

/-- The state of the pallet, and the liquidity tokens that exist. -/
structure Pallet (w : Nat) (Account Asset : Type) where
  storage : Storage w Account Asset
  nextPoolAssetId : Option Nat
  lpAssets : Nat → Bool

/-- The dispatchables of the pallet, with their signers. -/
inductive Dispatchable (w : Nat) (Account Asset : Type) where
  | createPool
      (signer : Account)
      (base : Asset)
      (baseDecimals : BitVec 8)
      (quote : Asset)
      (quoteDecimals : BitVec 8)
      (tickSize lotSize : BitVec w)
      (poolDecimals : BitVec 8)
  | touch (signer : Account) (base quote : Asset)
  | onPool (call : PoolCall w Account Asset)
  deriving Repr, DecidableEq

/-- The account that signs a call. -/
def Dispatchable.signer : Dispatchable w Account Asset → Account
  | .createPool signer _ _ _ _ _ _ _ => signer
  | .touch signer _ _ => signer
  | .onPool call => call.signer

/-- The pool that a call trades with or provides for. -/
def Dispatchable.poolId :
    Dispatchable w Account Asset → Option (Asset × Asset)
  | .onPool call => some call.poolId
  | _ => none

/-- The errors of the calls, those of `create_pool` alone among them. -/
inductive DispatchError where
  | pallet (error : PalletError)
  | invalidTickSize
  | invalidLotSize
  | poolExists
  | incorrectPoolAssetId
  deriving Repr, DecidableEq

/-- The pallet before any call: there are no pools. -/
def Pallet.genesis
    (ledger : Ledger w Account Asset)
    (lpAssets : Nat → Bool) : Pallet w Account Asset where
  storage := { pools := fun _ => none, ledger := ledger }
  nextPoolAssetId := none
  lpAssets := lpAssets

/--
The constants of the test runtime.  Every account has to be put in place, for
a deposit of one unit of asset 0.
-/
def Setup.mock (target : Account) : Setup 64 Account Nat where
  poolSetupFee := 100
  poolSetupFeeAsset := 0
  poolSetupFeeTarget := target
  liquidityWithdrawalFee _ := 0
  maxPoolAssetId := 2 ^ 32 - 1
  shouldTouch _ _ _ := true
  touch _ _ depositor ledger :=
    if 1 ≤ ledger.balance 0 depositor then
      some (ledger.debit 0 depositor 1)
    else
      none

theorem Setup.mock_lawful (target : Account) : (Setup.mock target).Lawful where
  touched := by
    intro touchedClass who depositor ledger next touched
    simp only [Setup.mock, Option.ite_none_right_eq_some,
      Option.some.injEq] at touched
    obtain ⟨covered, rfl⟩ := touched
    exact ⟨⟨0, 1, Ledger.debit_moves covered⟩, rfl, ⟨rfl, rfl⟩⟩

/-- Users of the test runtime own a million units of everything. -/
def Ledger.mock (users : Account → Bool) : Ledger 64 Account Nat where
  balance _ who := if users who then 1000000 else 0
  frozen _ _ := 0
  lpIssuance _ := 0
  lpBalance _ _ := 0

namespace Setup

variable (setup : Setup w Account Asset)

/-- `Incrementable::increment` of the ids of liquidity tokens. -/
def increment (lpToken : Nat) : Option Nat :=
  if lpToken < setup.maxPoolAssetId then some (lpToken + 1) else none

/-- Put an account in place unless it is; says whether it was not. -/
def touchIfNeeded
    (target : AssetClass Asset)
    (who depositor : Account)
    (ledger : Ledger w Account Asset) :
    Outcome (Bool × Ledger w Account Asset) :=
  if setup.shouldTouch ledger target who then do
    let ledger ← okOr (setup.touch target who depositor ledger) .refused
    .ok (true, ledger)
  else
    .ok (false, ledger)

/-- What becomes of the setup fee; a fee that is refused is dropped. -/
def onUnbalanced
    (config : Config w Account Asset)
    (fee : Credit w Asset)
    (ledger : Ledger w Account Asset) : Ledger w Account Asset :=
  match config.resolve setup.poolSetupFeeTarget fee ledger with
  | .ok ledger => ledger
  | .error _ => ledger

end Setup

namespace Pallet

variable (config : Config w Account Asset) (setup : Setup w Account Asset)

/-- Creates an empty pool and a new liquidity token. -/
def createPool
    (sender : Account)
    (base : Asset)
    (baseDecimals : BitVec 8)
    (quote : Asset)
    (quoteDecimals : BitVec 8)
    (tickSize lotSize : BitVec w)
    (poolDecimals : BitVec 8)
    (pallet : Pallet w Account Asset) :
    Except (Fault DispatchError) (Pallet w Account Asset) := do
  ensure (base ≠ quote) (.pallet .invalidAssetPair)
  ensure (tickSize > 0) .invalidTickSize
  ensure (lotSize > 0) .invalidLotSize
  let id ← mapErr .pallet (HybridOrderbook.poolId base quote)
  ensure ((pallet.storage.pools id).isNone) .poolExists
  let poolAccount := config.address id
  -- pay the setup fee
  let (fee, ledger) ← mapErr .pallet (config.withdraw setup.poolSetupFeeAsset
    sender setup.poolSetupFee true pallet.storage.ledger)
  let ledger := setup.onUnbalanced config fee ledger
  let (_, ledger) ← mapErr .pallet
    (setup.touchIfNeeded (.asset base) poolAccount sender ledger)
  let (_, ledger) ← mapErr .pallet
    (setup.touchIfNeeded (.asset quote) poolAccount sender ledger)
  -- `initial_value` of the ids is zero
  let lpToken := pallet.nextPoolAssetId.getD 0
  let nextLpToken ← okOr (setup.increment lpToken) .incorrectPoolAssetId
  -- `T::PoolAssets::create` refuses an id that is in use
  ensure (pallet.lpAssets lpToken = false) (.pallet .refused)
  let (_, ledger) ← mapErr .pallet
    (setup.touchIfNeeded (.lpToken lpToken) poolAccount sender ledger)
  let pool := Pool.new lpToken tickSize lotSize poolDecimals baseDecimals
    quoteDecimals
  .ok {
    storage := pallet.storage.update id pool ledger
    nextPoolAssetId := some nextLpToken
    lpAssets := Function.update pallet.lpAssets lpToken true }

/--
Puts the accounts of a pool in place, and says how many were not; the weight
that is not charged depends on it.
-/
def touch
    (who : Account)
    (base quote : Asset)
    (pallet : Pallet w Account Asset) :
    Outcome (Nat × Pallet w Account Asset) := do
  let id ← HybridOrderbook.poolId base quote
  let pool ← okOr (pallet.storage.pools id) .poolNotFound
  let poolAccount := config.address id
  let (first, ledger) ← setup.touchIfNeeded (.asset base) poolAccount who
    pallet.storage.ledger
  let (second, ledger) ←
    setup.touchIfNeeded (.asset quote) poolAccount who ledger
  let (third, ledger) ←
    setup.touchIfNeeded (.lpToken pool.lpToken) poolAccount who ledger
  .ok (first.toNat + second.toNat + third.toNat,
    { pallet with storage := { pallet.storage with ledger := ledger } })

/-- Dispatch a call. -/
def dispatch
    (call : Dispatchable w Account Asset)
    (pallet : Pallet w Account Asset) :
    Except (Fault DispatchError) (Pallet w Account Asset) :=
  match call with
  | .createPool signer base baseDecimals quote quoteDecimals tickSize lotSize
      poolDecimals =>
      pallet.createPool config setup signer base baseDecimals quote
        quoteDecimals tickSize lotSize poolDecimals
  | .touch signer base quote => do
      let (_, pallet) ←
        mapErr .pallet (pallet.touch config setup signer base quote)
      .ok pallet
  | .onPool (.dispatch extrinsic) => do
      let storage ←
        mapErr .pallet (config.dispatch extrinsic pallet.storage)
      .ok { pallet with storage := storage }
  | .onPool (.removeLiquidity signer base quote lpTokenBurn baseMinReceive
      quoteMinReceive withdrawTo) => do
      let storage ← mapErr .pallet
        (config.removeLiquidity setup.liquidityWithdrawalFee signer base
          quote lpTokenBurn baseMinReceive quoteMinReceive withdrawTo
          pallet.storage)
      .ok { pallet with storage := storage }

/-- Dispatch a call, keeping the state only if it succeeds. -/
def step
    (call : Dispatchable w Account Asset)
    (pallet : Pallet w Account Asset) : Option (Pallet w Account Asset) :=
  (pallet.dispatch config setup call).toOption

end Pallet

/-- Only the given account is charged, and what is received was charged. -/
structure Ledger.Charges
    (ledger next : Ledger w Account Asset)
    (who : Account) : Prop where
  balances :
    ∃ (charged : Asset → Nat) (received : Asset → Account → Nat),
      ledger.Moves next
          (fun asset other => if other = who then charged asset else 0)
          received ∧
        (received = 0 ∨
          ∃ asset target amount,
            received = Ledger.flow asset target amount ∧
              amount ≤ charged asset)
  frozen : next.frozen = ledger.frozen
  shares : ledger.SameShares next

section Charges

variable {config : Config w Account Asset} {setup : Setup w Account Asset}
  {ledger middle next : Ledger w Account Asset} {who signer : Account}

theorem Ledger.Charges.refl (ledger : Ledger w Account Asset) (who : Account) :
    ledger.Charges ledger who where
  balances := ⟨fun _ => 0, 0, fun _ _ => by simp, .inl rfl⟩
  frozen := rfl
  shares := .refl ledger

/-- A deposit is charged on top. -/
theorem Ledger.Charges.touched
    (lawful : setup.Lawful)
    (charges : ledger.Charges middle signer)
    {target : AssetClass Asset}
    {new : Bool}
    (touched :
      setup.touchIfNeeded target who signer middle = .ok (new, next)) :
    ledger.Charges next signer := by
  unfold Setup.touchIfNeeded at touched
  split at touched
  · simp only [bind_eq_ok_iff, okOr_eq_ok_iff, Except.ok.injEq,
      Prod.mk.injEq] at touched
    obtain ⟨_, touches, _, rfl⟩ := touched
    obtain ⟨⟨asset, deposit, moves⟩, frozen, shares⟩ :=
      lawful.touched touches
    obtain ⟨charged, received, balances, covered⟩ := charges.balances
    refine ⟨⟨fun other => charged other + if other = asset then deposit else 0,
      received, fun other account => ?_, ?_⟩, frozen.trans charges.frozen,
      charges.shares.trans shares⟩
    · have both := (balances.trans moves) other account
      by_cases here : account = signer
      · simpa [Ledger.flow, here] using both
      · simpa [Ledger.flow, here] using both
    · rcases covered with none | ⟨paidAsset, account, amount, same, le⟩
      · exact .inl none
      · exact .inr ⟨paidAsset, account, amount, same,
          le.trans (Nat.le_add_right _ _)⟩
  · simp only [Except.ok.injEq, Prod.mk.injEq] at touched
    exact touched.2 ▸ charges

/-- The setup fee is charged, and goes to its target or nowhere. -/
theorem Ledger.charges_setupFee
    {asset : Asset}
    {amount : BitVec w}
    {fee : Credit w Asset}
    (withdrawn :
      config.withdraw asset signer amount true ledger =
        .ok (fee, middle)) :
    ledger.Charges (setup.onUnbalanced config fee middle) signer := by
  obtain ⟨rfl, paid, frozen⟩ := Config.withdraw_moves withdrawn
  have shares := Config.withdraw_sameShares withdrawn
  have charged :
      Ledger.flow asset signer amount.toNat =
        fun other account =>
          if account = signer then
            if other = asset then amount.toNat else 0
          else
            0 := by
    funext other account
    by_cases here : account = signer
    · simp [Ledger.flow, here]
    · simp [Ledger.flow, here]
  rw [charged] at paid
  unfold Setup.onUnbalanced
  split
  · rename_i resolved
    obtain ⟨received, sameFrozen⟩ := Config.resolve_moves resolved
    have both := paid.trans received
    rw [add_zero, zero_add] at both
    exact ⟨⟨_, _, both, .inr ⟨_, _, _, rfl, by simp⟩⟩,
      sameFrozen.trans frozen,
      shares.trans (Config.resolve_sameShares resolved)⟩
  · exact ⟨⟨_, 0, paid, .inl rfl⟩, frozen, shares⟩

end Charges

namespace Pallet

/-- The effect of a call that succeeds. -/
inductive Effect
    (config : Config w Account Asset)
    (setup : Setup w Account Asset)
    (call : Dispatchable w Account Asset)
    (pallet next : Pallet w Account Asset) : Prop where
  | created
      {base quote : Asset}
      {tickSize lotSize : BitVec w}
      {poolDecimals baseDecimals quoteDecimals : BitVec 8}
      {lpToken : Nat}
      {ledger : Ledger w Account Asset}
      (called :
        call = .createPool call.signer base baseDecimals quote quoteDecimals
          tickSize lotSize poolDecimals)
      (differentAssets : base ≠ quote)
      (tickSizePositive : 0 < tickSize)
      (lotSizePositive : 0 < lotSize)
      (absent : pallet.storage.pools (base, quote) = none)
      (drawn : lpToken = pallet.nextPoolAssetId.getD 0)
      (unused : pallet.lpAssets lpToken = false)
      (charges : pallet.storage.ledger.Charges ledger call.signer)
      (next_eq :
        next =
          { storage :=
              pallet.storage.update (base, quote)
                (Pool.new lpToken tickSize lotSize poolDecimals baseDecimals
                  quoteDecimals)
                ledger
            nextPoolAssetId := some (lpToken + 1)
            lpAssets := Function.update pallet.lpAssets lpToken true })
  | touched
      {base quote : Asset}
      {pool : Pool w Account}
      {ledger : Ledger w Account Asset}
      (called : call = .touch call.signer base quote)
      (found : pallet.storage.pools (base, quote) = some pool)
      (charges : pallet.storage.ledger.Charges ledger call.signer)
      (next_eq :
        next =
          { pallet with
            storage := { pallet.storage with ledger := ledger } })
  | onPool
      {poolCall : PoolCall w Account Asset}
      {storage : Storage w Account Asset}
      (called : call = .onPool poolCall)
      (stepped :
        config.poolStep setup.liquidityWithdrawalFee poolCall
          pallet.storage = some storage)
      (next_eq : next = { pallet with storage := storage })

variable {config : Config w Account Asset} {setup : Setup w Account Asset}
  {call : Dispatchable w Account Asset} {pallet next : Pallet w Account Asset}

theorem effect_of_createPool
    (lawful : setup.Lawful)
    {base quote : Asset}
    {tickSize lotSize : BitVec w}
    {poolDecimals baseDecimals quoteDecimals : BitVec 8}
    (called :
      call = .createPool call.signer base baseDecimals quote quoteDecimals
        tickSize lotSize poolDecimals)
    (created :
      pallet.createPool config setup call.signer base baseDecimals quote
        quoteDecimals tickSize lotSize poolDecimals = .ok next) :
    Effect config setup call pallet next := by
  simp only [createPool, bind_eq_ok_iff, ensure_eq_ok_iff, exists_const,
    mapErr_eq_ok_iff, Config.poolId_eq_ok_iff, okOr_eq_ok_iff,
    Except.ok.injEq] at created
  obtain ⟨different, tick, lot, _, ⟨_, rfl⟩, absent, ⟨fee, first⟩, withdrawn,
    ⟨_, second⟩, touchedBase, ⟨_, third⟩, touchedQuote, nextLpToken,
    increments, unused, ⟨_, ledger⟩, touchedLp, rfl⟩ := created
  have following : nextLpToken = pallet.nextPoolAssetId.getD 0 + 1 := by
    unfold Setup.increment at increments
    split at increments
    · exact (Option.some.inj increments).symm
    · cases increments
  have charges := (((Ledger.charges_setupFee withdrawn).touched lawful
    touchedBase).touched lawful touchedQuote).touched lawful touchedLp
  exact .created called different tick lot (Option.isNone_iff_eq_none.mp absent)
    rfl unused charges (by rw [following])

/-- Every call that succeeds creates a pool, touches one or is a pool call. -/
theorem effect_of_step
    (lawful : setup.Lawful)
    (stepped : pallet.step config setup call = some next) :
    Effect config setup call pallet next := by
  have dispatched := toOption_eq_some_iff.mp stepped
  unfold dispatch at dispatched
  split at dispatched
  · exact effect_of_createPool lawful rfl dispatched
  · simp only [touch, bind_eq_ok_iff, mapErr_eq_ok_iff, okOr_eq_ok_iff,
      Config.poolId_eq_ok_iff, Except.ok.injEq] at dispatched
    obtain ⟨_, ⟨_, ⟨_, rfl⟩, pool, found, ⟨_, first⟩, touchedBase,
      ⟨_, second⟩, touchedQuote, ⟨_, third⟩, touchedLp, rfl⟩, rfl⟩ := dispatched
    exact .touched rfl found ((((Ledger.Charges.refl _ _).touched lawful
      touchedBase).touched lawful touchedQuote).touched lawful touchedLp) rfl
  · simp only [bind_eq_ok_iff, mapErr_eq_ok_iff, Except.ok.injEq] at dispatched
    obtain ⟨storage, called, rfl⟩ := dispatched
    exact .onPool rfl (toOption_eq_some_iff.mpr called) rfl
  · simp only [bind_eq_ok_iff, mapErr_eq_ok_iff, Except.ok.injEq] at dispatched
    obtain ⟨storage, called, rfl⟩ := dispatched
    exact .onPool rfl (toOption_eq_some_iff.mpr called) rfl

end Pallet

end HybridOrderbook
