import HybridOrderbook.Library.Transfers
import HybridOrderbook.Creation

namespace HybridOrderbook

open Library

/-!
# What a call leaves alone

A call on a pool changes balances by transfers only.  They are paid by its
signer, by the account of the pool and by owners of orders in its books.  It
issues and burns no liquidity token but the one of the pool, and leaves all
other pools as they are.
-/

variable {w : Nat} {Account Asset : Type} [DecidableEq Account]
  [DecidableEq Asset]

namespace Ledger

/-- What the accounts hold. -/
def holdings (ledger : Ledger w Account Asset) : Asset → Account → Nat :=
  fun asset who => (ledger.balance asset who).toNat

/-- Balances change by transfers that only some accounts pay. -/
def PaidBy
    (pays : Account → Prop)
    (ledger next : Ledger w Account Asset) : Prop :=
  ∃ transfers : List (Transfer Account Asset),
    (∀ transfer ∈ transfers, pays transfer.source) ∧
      Transfer.Moves transfers ledger.holdings next.holdings

/-- At most one liquidity token is issued or burnt. -/
def SharesBeside
    (lpToken : Nat)
    (ledger next : Ledger w Account Asset) : Prop :=
  ∀ other, other ≠ lpToken →
    next.lpIssuance other = ledger.lpIssuance other ∧
      next.lpBalance other = ledger.lpBalance other

variable {pays : Account → Prop} {ledger middle next : Ledger w Account Asset}

theorem PaidBy.of_balance_eq
    (same : next.balance = ledger.balance) : ledger.PaidBy pays next := by
  refine ⟨[], List.forall_mem_nil _, fun asset who => ?_⟩
  simp [holdings, same, Transfer.paid, Transfer.received]

theorem PaidBy.trans
    (first : ledger.PaidBy pays middle)
    (second : middle.PaidBy pays next) : ledger.PaidBy pays next := by
  obtain ⟨transfers, sources, moves⟩ := first
  obtain ⟨later, laterSources, laterMoves⟩ := second
  exact ⟨transfers ++ later,
    List.forall_mem_append.mpr ⟨sources, laterSources⟩,
    moves.append laterMoves⟩

theorem PaidBy.of_flow
    {asset : Asset}
    {source dest : Account}
    {amount : Nat}
    (payer : pays source)
    (moves :
      ledger.Moves next (flow asset source amount)
        (flow asset dest amount)) : ledger.PaidBy pays next := by
  refine ⟨[⟨asset, source, dest, amount⟩],
    List.forall_mem_singleton.mpr payer, fun other who => ?_⟩
  simpa [holdings, Transfer.paid, Transfer.received, flow] using
    moves other who

/-- A trade is paid by both sides. -/
theorem PaidBy.of_trades
    {base quote : Asset}
    {buyer seller : Account}
    {quantity amount : Nat}
    (buys : pays buyer)
    (sells : pays seller)
    (trades : ledger.Trades next base quote buyer seller quantity amount) :
    ledger.PaidBy pays next := by
  refine ⟨[⟨base, seller, buyer, quantity⟩, ⟨quote, buyer, seller, amount⟩],
    by simp [buys, sells], fun other who => ?_⟩
  simpa [holdings, Transfer.paid, Transfer.received, flow] using
    trades other who

/-- Whoever does not pay has no less afterwards. -/
theorem PaidBy.le
    {who : Account}
    (paid : ledger.PaidBy (· ≠ who) next)
    (asset : Asset) :
    (ledger.balance asset who).toNat ≤ (next.balance asset who).toNat := by
  obtain ⟨transfers, sources, moves⟩ := paid
  exact moves.le sources asset

omit [DecidableEq Account] [DecidableEq Asset] in
theorem SameShares.beside
    (same : ledger.SameShares next)
    (lpToken : Nat) : ledger.SharesBeside lpToken next := by
  intro other _
  rw [same.issuance, same.balances]
  exact ⟨rfl, rfl⟩

omit [DecidableEq Account] [DecidableEq Asset] in
theorem SharesBeside.trans
    {lpToken : Nat}
    (first : ledger.SharesBeside lpToken middle)
    (second : middle.SharesBeside lpToken next) :
    ledger.SharesBeside lpToken next := by
  intro other different
  obtain ⟨issuance, balances⟩ := first other different
  obtain ⟨laterIssuance, laterBalances⟩ := second other different
  exact ⟨laterIssuance.trans issuance, laterBalances.trans balances⟩

end Ledger

namespace Config

variable {config : Config w Account Asset}
  {ledger next : Ledger w Account Asset} {pays : Account → Prop}
  {base quote : Asset} {isBid : Bool} {orderer : Account}
  {quantity : BitVec w} {pool : Pool w Account} {lpToken : Nat}
  {who : Account} {amount : BitVec w}

section Matching

theorem doFillPool_paidBy
    (takes : pays orderer)
    (account : pays (config.address (base, quote)))
    (filled :
      config.doFillPool isBid orderer quantity base quote ledger =
        .ok next) : ledger.PaidBy pays next := by
  obtain ⟨_, _, _, _, _, trades, _⟩ := doFillPool_eq_ok filled
  cases isBid with
  | true =>
      exact .of_trades takes account trades
  | false =>
      exact .of_trades account takes trades

theorem handleFilledOrders_paidBy
    {fills : FilledOrders w Account}
    (takes : pays orderer)
    (owners : ∀ fill ∈ fills, pays fill.1)
    (settled :
      config.handleFilledOrders isBid orderer base quote pool fills ledger =
        .ok next) : ledger.PaidBy pays next := by
  have preserved :
      ∀ fill ∈ fills, ∀ state later,
        ledger.PaidBy pays state →
          config.settleFill isBid orderer base quote pool state fill =
              .ok later →
            ledger.PaidBy pays later := by
    rintro ⟨owner, price, part⟩ member state later paid settledFill
    obtain ⟨_, _, trades, _⟩ := settleFill_eq_ok settledFill
    have owns : pays owner := owners _ member
    refine paid.trans ?_
    cases isBid with
    | true =>
        exact .of_trades takes owns trades
    | false =>
        exact .of_trades owns takes trades
  exact Run.foldlM_invariant preserved (.of_balance_eq rfl) settled

/-- Matching moves what the taker, the pool and the owners of fills pay. -/
theorem matched_frame
    (width : 0 < w)
    {books : Bool → PriceMap w Account}
    (keeps : pool.Keeps (fun _ _ owner _ => pays owner) books)
    (takes : pays orderer)
    (account : pays (config.address (base, quote)))
    {state : MatchState w Account Asset}
    (matched :
      config.matchOrders isBid orderer base quote pool quantity ledger =
        .ok state)
    (settled :
      config.handleFilledOrders isBid orderer base quote state.pool
        state.filledOrders state.ledger = .ok next) :
    ledger.PaidBy pays next ∧ ledger.SameShares next := by
  have swapped :
      ledger.PaidBy pays state.ledger ∧ ledger.SameShares state.ledger := by
    refine matchOrders_invariant
      (fun state : MatchState w Account Asset =>
        ledger.PaidBy pays state.ledger ∧ ledger.SameShares state.ledger)
      ?_ ?_ ⟨.of_balance_eq rfl, .refl ledger⟩ matched
    · intro state next quantity ⟨paid, same⟩ _ filled
      obtain ⟨fromPool, _⟩ := fillFromPool_eq_ok filled
      exact ⟨paid.trans (doFillPool_paidBy takes account fromPool),
        same.trans (doFillPool_sameShares fromPool)⟩
    · intro state next price index holds _ _ filled
      rw [ledger_of_doFillBook filled]
      exact holds
  have matching := keeps.matchOrders width (fun _ _ _ _ _ _ owns => owns)
    matched
  exact ⟨swapped.1.trans (handleFilledOrders_paidBy takes matching.fills
    settled), swapped.2.trans (handleFilledOrders_sameShares settled)⟩

end Matching

section Liquidity

omit [DecidableEq Asset] in
theorem mintInto_sharesBeside
    (minted : config.mintInto lpToken who amount ledger = .ok next) :
    ledger.SharesBeside lpToken next := by
  simp only [mintInto, bind_eq_ok_iff, ensure_eq_ok_iff, exists_const,
    Except.ok.injEq] at minted
  obtain ⟨_, _, rfl⟩ := minted
  intro other different
  refine ⟨Function.update_of_ne different .., ?_⟩
  funext account
  simp [Ledger.write, different]

omit [DecidableEq Asset] in
theorem burnFrom_sharesBeside
    (burnt : config.burnFrom lpToken who amount ledger = .ok next) :
    ledger.SharesBeside lpToken next := by
  simp only [burnFrom, bind_eq_ok_iff, ensure_eq_ok_iff, exists_const,
    Except.ok.injEq] at burnt
  obtain ⟨_, _, _, rfl⟩ := burnt
  intro other different
  refine ⟨Function.update_of_ne different .., ?_⟩
  funext account
  simp [Ledger.write, different]

variable {storage nextStorage : Storage w Account Asset} {sender : Account}

/-- A deposit issues the liquidity token of the pool only. -/
theorem addLiquidity_sharesBeside
    {baseDesired quoteDesired baseMin quoteMin : BitVec w}
    {mintTo : Account}
    (added :
      config.addLiquidity sender base quote baseDesired quoteDesired baseMin
        quoteMin mintTo storage = .ok nextStorage) :
    ∃ pool,
      storage.pools (base, quote) = some pool ∧
        storage.ledger.SharesBeside pool.lpToken nextStorage.ledger := by
  simp only [addLiquidity, bind_eq_ok_iff, ensure_eq_ok_iff, exists_const,
    poolId_eq_ok_iff, okOr_eq_ok_iff] at added
  obtain ⟨_, ⟨_, rfl⟩, _, pool, found, _, _, _, _, _, paidBase, _, paidQuote,
    issued⟩ := added
  refine ⟨pool, found, ?_⟩
  have paid := ((transfer_sameShares paidBase).trans
    (transfer_sameShares paidQuote)).beside pool.lpToken
  split at issued
  · simp only [bind_eq_ok_iff, ensure_eq_ok_iff, exists_const,
      Except.ok.injEq, exists_eq_left'] at issued
    obtain ⟨_, _, _, locked, _, _, minted, rfl⟩ := issued
    exact (paid.trans (mintInto_sharesBeside locked)).trans
      (mintInto_sharesBeside minted)
  · simp only [bind_eq_ok_iff, ensure_eq_ok_iff, exists_const,
      Except.ok.injEq, exists_eq_left'] at issued
    obtain ⟨_, _, _, _, _, _, minted, rfl⟩ := issued
    exact paid.trans (mintInto_sharesBeside minted)

variable {liquidityWithdrawalFee : BitVec w → BitVec w}
  {lpTokenBurn baseMinReceive quoteMinReceive : BitVec w}
  {withdrawTo : Account}

/-- A redemption leaves the pools and all freezes as they are. -/
theorem removeLiquidity_keeps
    (removed :
      config.removeLiquidity liquidityWithdrawalFee sender base quote
        lpTokenBurn baseMinReceive quoteMinReceive withdrawTo storage =
          .ok nextStorage) :
    nextStorage.pools = storage.pools ∧
      nextStorage.ledger.frozen = storage.ledger.frozen := by
  simp only [removeLiquidity, bind_eq_ok_iff, Except.ok.injEq] at removed
  obtain ⟨_, _, _, _, _, _, _, _, _, _, _, _, _, _, _, _, _, _, burnt, burns,
    first, paidBase, second, paidQuote, rfl⟩ := removed
  have burntFrozen : burnt.frozen = storage.ledger.frozen := by
    simp only [burnFrom, bind_eq_ok_iff, ensure_eq_ok_iff, exists_const,
      Except.ok.injEq] at burns
    obtain ⟨_, _, _, rfl⟩ := burns
    rfl
  exact ⟨rfl, (transfer_moves paidQuote).2.trans
    ((transfer_moves paidBase).2.trans burntFrozen)⟩

/-- A redemption burns the liquidity token of the pool, which pays for it. -/
theorem removeLiquidity_frame
    (account : pays (config.address (base, quote)))
    (removed :
      config.removeLiquidity liquidityWithdrawalFee sender base quote
        lpTokenBurn baseMinReceive quoteMinReceive withdrawTo storage =
          .ok nextStorage) :
    storage.ledger.PaidBy pays nextStorage.ledger ∧
      ∃ pool,
        storage.pools (base, quote) = some pool ∧
          storage.ledger.SharesBeside pool.lpToken nextStorage.ledger := by
  simp only [removeLiquidity, bind_eq_ok_iff, ensure_eq_ok_iff,
    exists_const, poolId_eq_ok_iff, okOr_eq_ok_iff,
    Except.ok.injEq] at removed
  obtain ⟨_, ⟨_, rfl⟩, _, pool, found, _, _, _, _, _, _, _, _, burnt, burns,
    first, paidBase, second, paidQuote, rfl⟩ := removed
  have paid : storage.ledger.PaidBy pays burnt :=
    .of_balance_eq (supply_of_burnFrom burns).1
  refine ⟨(paid.trans (.of_flow account (transfer_moves paidBase).1)).trans
    (.of_flow account (transfer_moves paidQuote).1), pool, found, ?_⟩
  exact (burnFrom_sharesBeside burns).trans (((transfer_sameShares
    paidBase).trans (transfer_sameShares paidQuote)).beside pool.lpToken)

end Liquidity

/-- What a call on a pool leaves alone. -/
structure CallFrame
    (pays : Account → Prop)
    (call : PoolCall w Account Asset)
    (storage next : Storage w Account Asset) : Prop where
  paid : storage.ledger.PaidBy pays next.ledger
  pools :
    ∀ other, other ≠ call.poolId → next.pools other = storage.pools other
  shares :
    ∃ pool,
      storage.pools call.poolId = some pool ∧
        storage.ledger.SharesBeside pool.lpToken next.ledger

/-- Whatever a call on a pool is, it stays within its frame. -/
theorem callFrame_of_poolStep
    (wide : 64 ≤ w)
    {liquidityWithdrawalFee : BitVec w → BitVec w}
    {call : PoolCall w Account Asset}
    {storage next : Storage w Account Asset}
    (owners : storage.Keeps fun _ _ owner _ => pays owner)
    (signs : pays call.signer)
    (account : pays (config.address call.poolId))
    (stepped :
      config.poolStep liquidityWithdrawalFee call storage = some next) :
    CallFrame pays call storage next := by
  cases call with
  | removeLiquidity signer base quote lpTokenBurn baseMinReceive
      quoteMinReceive withdrawTo =>
      have removed := toOption_eq_some_iff.mp stepped
      obtain ⟨paid, shares⟩ := removeLiquidity_frame account removed
      exact ⟨paid, fun other _ =>
        congrFun (removeLiquidity_keeps removed).1 other, shares⟩
  | dispatch extrinsic =>
      simp only [PoolCall.poolId, PoolCall.signer] at signs account
      cases effect_of_step stepped with
      | @deposited base quote _ _ _ _ _ baseAmount quoteAmount called _ _
          moves _ samePools =>
          have dispatched := toOption_eq_some_iff.mp stepped
          rw [dispatch, called] at dispatched
          refine ⟨?_, fun other _ => congrFun samePools other, ?_⟩
          · refine ⟨[⟨base, extrinsic.signer, config.address (base, quote),
                baseAmount.toNat⟩,
              ⟨quote, extrinsic.signer, config.address (base, quote),
                quoteAmount.toNat⟩], by simp [signs],
              fun other who => ?_⟩
            simpa [Ledger.holdings, Transfer.paid, Transfer.received,
              Ledger.flow] using moves other who
          · rw [PoolCall.poolId, called]
            exact addLiquidity_sharesBeside dispatched
      | @matched base quote _ _ pool _ _ called _ found matched settled
          updated =>
          have named : extrinsic.call.poolId = (base, quote) := by
            rcases called with called | ⟨_, called, _⟩
            · rw [called]
              rfl
            · rw [called]
              rfl
          rw [named] at account
          obtain ⟨books, keeps⟩ := owners _ _ found
          obtain ⟨paid, same⟩ := matched_frame (by omega) keeps signs
            account matched settled
          subst updated
          refine ⟨paid, fun other different => ?_, pool, ?_,
            same.beside _⟩
          · rw [PoolCall.poolId, named] at different
            exact Storage.pools_update_of_ne different
          · rw [PoolCall.poolId, named]
            exact found
      | @placed base quote _ _ _ pool _ _ _ _ _ called found _ _ _ places
          updated =>
          have named : extrinsic.call.poolId = (base, quote) := by
            rw [called]
            rfl
          subst updated
          refine ⟨.of_balance_eq (doPlaceOrder_eq_ok wide places).2.1,
            fun other different => ?_, pool, ?_,
            (doPlaceOrder_sameShares places).beside _⟩
          · rw [PoolCall.poolId, named] at different
            exact Storage.pools_update_of_ne different
          · rw [PoolCall.poolId, named]
            exact found
      | @canceled base quote _ _ _ _ pool _ called found _ updated =>
          have named : extrinsic.call.poolId = (base, quote) := by
            rw [called]
            rfl
          subst updated
          refine ⟨.of_balance_eq rfl, fun other different => ?_, pool, ?_,
            (Ledger.SameShares.refl _).beside _⟩
          · rw [PoolCall.poolId, named] at different
            exact Storage.pools_update_of_ne different
          · rw [PoolCall.poolId, named]
            exact found

end Config

end HybridOrderbook
