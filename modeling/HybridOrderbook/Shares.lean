import HybridOrderbook.Library.Stake
import HybridOrderbook.Amounts
import HybridOrderbook.Effects
import HybridOrderbook.Settlement

namespace HybridOrderbook

open Library

/-!
# Liquidity tokens

Liquidity tokens are shares of the reserves of a pool.  `remove_liquidity`
redeems them; together with the other calls on a pool it makes the runs over
which the worth of a share is followed.
-/

variable {w : Nat} {Account Asset : Type} [DecidableEq Account]
  [DecidableEq Asset]

/-- A call on a pool: one of the dispatched calls, or a redemption. -/
inductive PoolCall (w : Nat) (Account Asset : Type) where
  | dispatch (extrinsic : Extrinsic w Account Asset)
  | removeLiquidity
      (signer : Account)
      (base quote : Asset)
      (lpTokenBurn baseMinReceive quoteMinReceive : BitVec w)
      (withdrawTo : Account)
  deriving Repr, DecidableEq

/-- The pool that a call names. -/
def Call.poolId : Call w Account Asset → Asset × Asset
  | .addLiquidity base quote _ _ _ _ _ => (base, quote)
  | .marketOrder base quote _ _ => (base, quote)
  | .limitOrder base quote _ _ _ => (base, quote)
  | .cancelOrder base quote _ _ _ => (base, quote)

namespace PoolCall

def signer : PoolCall w Account Asset → Account
  | .dispatch extrinsic => extrinsic.signer
  | .removeLiquidity signer _ _ _ _ _ _ => signer

def poolId : PoolCall w Account Asset → Asset × Asset
  | .dispatch extrinsic => extrinsic.call.poolId
  | .removeLiquidity _ base quote _ _ _ _ => (base, quote)

end PoolCall

/-- Subtraction that stops at zero. -/
def saturatingSub (a b : BitVec w) : BitVec w :=
  if b ≤ a then a - b else 0

theorem saturatingSub_le (a b : BitVec w) :
    (saturatingSub a b).toNat ≤ a.toNat := by
  unfold saturatingSub
  split
  · rename_i covered
    rw [BitVec.toNat_sub_of_le covered]
    exact Nat.sub_le _ _
  · exact Nat.zero_le _

namespace Config

section Model

-- what `LiquidityWithdrawalFee` takes of an amount
variable (config : Config w Account Asset)
  (liquidityWithdrawalFee : BitVec w → BitVec w)

/-- Redeem liquidity tokens; the fee stays in the pool. -/
def removeLiquidity
    (sender : Account)
    (base quote : Asset)
    (lpTokenBurn baseMinReceive quoteMinReceive : BitVec w)
    (withdrawTo : Account)
    (storage : Storage w Account Asset) :
    Outcome (Storage w Account Asset) := do
  let id ← HybridOrderbook.poolId base quote
  ensure (lpTokenBurn > 0) .zeroLiquidity
  let pool ← okOr (storage.pools id) .poolNotFound
  let poolAccount := config.address id
  let ledger := storage.ledger
  let baseReserve := config.getBalance ledger poolAccount base
  let quoteReserve := config.getBalance ledger poolAccount quote
  let totalSupply := ledger.lpIssuance pool.lpToken
  let lpRedeemAmount :=
    saturatingSub lpTokenBurn (liquidityWithdrawalFee lpTokenBurn)
  let baseAmount ← mulDiv lpRedeemAmount baseReserve totalSupply
  let quoteAmount ← mulDiv lpRedeemAmount quoteReserve totalSupply
  ensure (baseAmount ≠ 0 ∧ baseAmount ≥ baseMinReceive)
    .assetOneWithdrawalDidNotMeetMinimum
  ensure (quoteAmount ≠ 0 ∧ quoteAmount ≥ quoteMinReceive)
    .assetTwoWithdrawalDidNotMeetMinimum
  ensure (saturatingSub baseReserve baseAmount ≥ config.minimumBalance base)
    .reserveLeftLessThanMinimal
  ensure (saturatingSub quoteReserve quoteAmount ≥
    config.minimumBalance quote) .reserveLeftLessThanMinimal
  -- burn the provided lp token amount that includes the fee
  let ledger ← config.burnFrom pool.lpToken sender lpTokenBurn ledger
  let ledger ← config.transfer base poolAccount withdrawTo baseAmount
    .expendable ledger
  let ledger ← config.transfer quote poolAccount withdrawTo quoteAmount
    .expendable ledger
  .ok { storage with ledger := ledger }

/-- Dispatch a call on a pool, keeping the storage only if it succeeds. -/
def poolStep
    (call : PoolCall w Account Asset)
    (storage : Storage w Account Asset) :
    Option (Storage w Account Asset) :=
  match call with
  | .dispatch extrinsic => config.step extrinsic storage
  | .removeLiquidity signer base quote lpTokenBurn baseMinReceive
      quoteMinReceive withdrawTo =>
      (config.removeLiquidity liquidityWithdrawalFee signer base quote
        lpTokenBurn baseMinReceive quoteMinReceive withdrawTo
        storage).toOption

end Model

end Config

namespace Ledger

/-- The supply of a liquidity token. -/
def supply (ledger : Ledger w Account Asset) (lpToken : Nat) : Nat :=
  (ledger.lpIssuance lpToken).toNat

/-- Who holds how much of a liquidity token. -/
def shares (ledger : Ledger w Account Asset) (lpToken : Nat) :
    Account → Nat :=
  fun who => (ledger.lpBalance lpToken who).toNat

/-- No more of a liquidity token is held than was issued. -/
def Issued (ledger : Ledger w Account Asset) (lpToken : Nat) : Prop :=
  Covers (ledger.supply lpToken) (ledger.shares lpToken)

/-- No liquidity tokens were issued, burnt or moved. -/
structure SameShares (ledger next : Ledger w Account Asset) : Prop where
  issuance : next.lpIssuance = ledger.lpIssuance
  balances : next.lpBalance = ledger.lpBalance

variable {ledger middle next : Ledger w Account Asset} {lpToken : Nat}

omit [DecidableEq Account] [DecidableEq Asset] in
theorem SameShares.refl (ledger : Ledger w Account Asset) :
    ledger.SameShares ledger :=
  ⟨rfl, rfl⟩

omit [DecidableEq Account] [DecidableEq Asset] in
theorem SameShares.trans
    (first : ledger.SameShares middle)
    (second : middle.SameShares next) : ledger.SameShares next :=
  ⟨second.issuance.trans first.issuance,
    second.balances.trans first.balances⟩

omit [DecidableEq Account] [DecidableEq Asset] in
theorem SameShares.supply
    (same : ledger.SameShares next)
    (lpToken : Nat) : next.supply lpToken = ledger.supply lpToken := by
  rw [Ledger.supply, Ledger.supply, same.issuance]

omit [DecidableEq Account] [DecidableEq Asset] in
theorem SameShares.shares
    (same : ledger.SameShares next)
    (lpToken : Nat) : next.shares lpToken = ledger.shares lpToken := by
  funext who
  rw [Ledger.shares, Ledger.shares, same.balances]

omit [DecidableEq Account] [DecidableEq Asset] in
theorem SameShares.issued
    (same : ledger.SameShares next)
    (issued : ledger.Issued lpToken) : next.Issued lpToken := by
  rw [Issued, same.supply, same.shares]
  exact issued

end Ledger

namespace Config

variable {config : Config w Account Asset}
  {ledger next : Ledger w Account Asset} {lpToken : Nat} {who : Account}
  {amount : BitVec w}

section Supply

omit [DecidableEq Asset] in
theorem issuance_of_mintInto
    (minted : config.mintInto lpToken who amount ledger = .ok next) :
    next.supply lpToken = ledger.supply lpToken + amount.toNat := by
  simp only [mintInto, bind_eq_ok_iff, ensure_eq_ok_iff, exists_const,
    Except.ok.injEq] at minted
  obtain ⟨_, fits, rfl⟩ := minted
  simp only [Ledger.supply]
  rw [Function.update_self, BitVec.toNat_add, Nat.mod_eq_of_lt fits]

omit [DecidableEq Asset] in
theorem supply_of_mintInto
    (issued : ledger.Issued lpToken)
    (minted : config.mintInto lpToken who amount ledger = .ok next) :
    next.supply lpToken = ledger.supply lpToken + amount.toNat ∧
      next.shares lpToken =
        Function.update (ledger.shares lpToken) who
          (ledger.shares lpToken who + amount.toNat) := by
  refine ⟨issuance_of_mintInto minted, ?_⟩
  simp only [mintInto, bind_eq_ok_iff, ensure_eq_ok_iff, exists_const,
    Except.ok.injEq] at minted
  obtain ⟨_, fits, rfl⟩ := minted
  have held : ledger.shares lpToken who ≤ ledger.supply lpToken :=
    issued.le who
  simp only [Ledger.shares, Ledger.supply] at held ⊢
  funext other
  by_cases same : other = who
  · subst same
    have shareFits :
        (ledger.lpBalance lpToken other).toNat + amount.toNat < 2 ^ w := by
      omega
    simp [Ledger.shares, Ledger.write, BitVec.toNat_add,
      Nat.mod_eq_of_lt shareFits]
  · simp [Ledger.shares, Ledger.write, same]

omit [DecidableEq Asset] in
theorem issued_of_mintInto
    (issued : ledger.Issued lpToken)
    (minted : config.mintInto lpToken who amount ledger = .ok next) :
    next.Issued lpToken := by
  obtain ⟨supply, shares⟩ := supply_of_mintInto issued minted
  rw [Ledger.Issued, supply, shares]
  exact issued.add

omit [DecidableEq Asset] in
theorem le_shares_of_mintInto
    (issued : ledger.Issued lpToken)
    (minted : config.mintInto lpToken who amount ledger = .ok next)
    (other : Account) :
    ledger.shares lpToken other ≤ next.shares lpToken other := by
  rw [(supply_of_mintInto issued minted).2]
  by_cases same : other = who
  · subst same
    rw [Function.update_self]
    exact Nat.le_add_right _ _
  · rw [Function.update_of_ne same]

omit [DecidableEq Asset] in
theorem supply_of_burnFrom
    (burnt : config.burnFrom lpToken who amount ledger = .ok next) :
    next.balance = ledger.balance ∧
      amount.toNat ≤ ledger.shares lpToken who ∧
      next.supply lpToken = ledger.supply lpToken - amount.toNat ∧
      next.shares lpToken =
        Function.update (ledger.shares lpToken) who
          (ledger.shares lpToken who - amount.toNat) := by
  simp only [burnFrom, bind_eq_ok_iff, ensure_eq_ok_iff, exists_const,
    Except.ok.injEq] at burnt
  obtain ⟨_, held, issued, rfl⟩ := burnt
  refine ⟨rfl, BitVec.le_def.mp held, ?_, ?_⟩
  · simp [Ledger.supply, BitVec.toNat_sub_of_le issued]
  · funext other
    by_cases same : other = who
    · subst same
      simp [Ledger.shares, Ledger.write, BitVec.toNat_sub_of_le held]
    · simp [Ledger.shares, Ledger.write, same]

end Supply

section Untouched

variable {asset base quote : Asset} {preservation : Preservation}
  {isBid : Bool} {orderer : Account} {quantity : BitVec w}
  {pool : Pool w Account}

theorem transfer_sameShares
    {source dest : Account}
    (transferred :
      config.transfer asset source dest amount preservation ledger =
        .ok next) : ledger.SameShares next := by
  simp only [transfer, bind_eq_ok_iff, ensure_eq_ok_iff, exists_const,
    Except.ok.injEq] at transferred
  obtain ⟨_, _, _, rfl⟩ := transferred
  exact ⟨rfl, rfl⟩

theorem withdraw_sameShares
    {keepAlive : Bool}
    {credit : Credit w Asset}
    (withdrawn :
      config.withdraw asset who amount keepAlive ledger =
        .ok (credit, next)) : ledger.SameShares next := by
  simp only [withdraw, withdrawExact, bind_eq_ok_iff, ensure_eq_ok_iff,
    exists_const, Except.ok.injEq, Prod.mk.injEq] at withdrawn
  obtain ⟨_, _, _, _, rfl⟩ := withdrawn
  exact ⟨rfl, rfl⟩

theorem resolve_sameShares
    {credit : Credit w Asset}
    (resolved : config.resolve who credit ledger = .ok next) :
    ledger.SameShares next := by
  simp only [resolve, bind_eq_ok_iff, ensure_eq_ok_iff, exists_const,
    Except.ok.injEq] at resolved
  obtain ⟨_, _, rfl⟩ := resolved
  exact ⟨rfl, rfl⟩

theorem increaseFrozen_sameShares
    (increased : config.increaseFrozen asset who amount ledger = .ok next) :
    ledger.SameShares next := by
  simp only [increaseFrozen, bind_eq_ok_iff, ensure_eq_ok_iff, exists_const,
    Except.ok.injEq] at increased
  obtain ⟨_, _, rfl⟩ := increased
  exact ⟨rfl, rfl⟩

theorem decreaseFrozen_sameShares
    (decreased : config.decreaseFrozen asset who amount ledger = .ok next) :
    ledger.SameShares next := by
  simp only [decreaseFrozen, bind_eq_ok_iff, ensure_eq_ok_iff, exists_const,
    Except.ok.injEq] at decreased
  obtain ⟨_, _, rfl⟩ := decreased
  exact ⟨rfl, rfl⟩

theorem swap_sameShares
    {sender sendTo : Account}
    {keepAlive : Bool}
    {asset1 asset2 : Asset}
    {amountIn amountOut : BitVec w}
    (swapped :
      config.swap isBid sender [(asset1, amountIn), (asset2, amountOut)]
        sendTo keepAlive ledger = .ok next) : ledger.SameShares next := by
  obtain ⟨_, _, _, _, _, _, _, senderPaid, poolPaid, poolResolved,
    resolved⟩ := swap_eq_ok swapped
  exact (((withdraw_sameShares senderPaid).trans
    (withdraw_sameShares poolPaid)).trans
      (resolve_sameShares poolResolved)).trans (resolve_sameShares resolved)

theorem doFillPool_sameShares
    (filled :
      config.doFillPool isBid orderer quantity base quote ledger =
        .ok next) : ledger.SameShares next := by
  obtain ⟨_, _, _, _, _, swapped⟩ := swap_of_doFillPool filled
  cases isBid with
  | true =>
      exact swap_sameShares swapped
  | false =>
      exact swap_sameShares swapped

theorem settleFill_sameShares
    {fill : Account × BitVec w × BitVec w}
    (settled :
      config.settleFill isBid orderer base quote pool ledger fill =
        .ok next) : ledger.SameShares next := by
  cases isBid with
  | true =>
      simp only [settleFill, ↓reduceIte, bind_eq_ok_iff,
        Except.ok.injEq] at settled
      obtain ⟨_, _, _, thawed, _, first, second⟩ := settled
      exact ((decreaseFrozen_sameShares thawed).trans
        (transfer_sameShares first)).trans (transfer_sameShares second)
  | false =>
      simp only [settleFill, Bool.false_eq_true, ↓reduceIte,
        bind_eq_ok_iff] at settled
      obtain ⟨_, _, _, thawed, _, first, second⟩ := settled
      exact ((decreaseFrozen_sameShares thawed).trans
        (transfer_sameShares first)).trans (transfer_sameShares second)

theorem doPlaceOrder_sameShares
    {blockNumber : Nat}
    {price : BitVec w}
    {nextPool : Pool w Account}
    (placed :
      config.doPlaceOrder blockNumber isBid orderer base quote price quantity
        pool ledger = .ok (nextPool, next)) : ledger.SameShares next := by
  cases isBid with
  | true =>
      simp only [doPlaceOrder, ↓reduceIte, bind_eq_ok_iff, Except.ok.injEq,
        Prod.mk.injEq] at placed
      obtain ⟨_, _, _, increased, _, _, _, rfl⟩ := placed
      exact increaseFrozen_sameShares increased
  | false =>
      simp only [doPlaceOrder, Bool.false_eq_true, ↓reduceIte,
        bind_eq_ok_iff, Except.ok.injEq, Prod.mk.injEq] at placed
      obtain ⟨_, increased, _, _, _, rfl⟩ := placed
      exact increaseFrozen_sameShares increased

end Untouched

/-- The balances of a pool's account, and the supply of its shares. -/
def stake
    (config : Config w Account Asset)
    (base quote : Asset)
    (lpToken : Nat)
    (ledger : Ledger w Account Asset) : Stake where
  base := (ledger.balance base (config.address (base, quote))).toNat
  quote := (ledger.balance quote (config.address (base, quote))).toNat
  supply := ledger.supply lpToken

section Trading

variable {base quote : Asset} {isBid : Bool} {orderer : Account}
  {quantity : BitVec w} {pool : Pool w Account}

/-- No fill from the pool lowers the product of the reserves. -/
theorem product_le_of_doFillPool
    (lawful : config.Lawful)
    (fee : config.lpFee ≤ 1000)
    (otherOrderer : orderer ≠ config.address (base, quote))
    (filled :
      config.doFillPool isBid orderer quantity base quote ledger =
        .ok next)
    (lpToken : Nat) :
    (config.stake base quote lpToken ledger).base *
        (config.stake base quote lpToken ledger).quote ≤
      (config.stake base quote lpToken next).base *
        (config.stake base quote lpToken next).quote := by
  obtain ⟨baseReserve, quoteReserve, amount, _, priced, baseHeld, quoteHeld,
    baseAfter, quoteAfter⟩ := balances_of_doFillPool lawful otherOrderer filled
  simp only [stake]
  rw [baseHeld, quoteHeld, baseAfter, quoteAfter]
  cases isBid with
  | true =>
      obtain ⟨less, divides, rounded⟩ := toNat_of_getAmountIn fee priced
      rw [Nat.mul_comm, Nat.mul_comm (ite ..)]
      exact ConstantProduct.product_le_of_amountIn (Nat.sub_le ..) less divides
        rounded
  | false =>
      exact ConstantProduct.product_le_of_amountOut (Nat.sub_le ..)
        (toNat_of_getAmountOut fee priced).2.le

theorem handleFilledOrders_sameShares
    {fills : FilledOrders w Account}
    (settled :
      config.handleFilledOrders isBid orderer base quote pool fills ledger =
        .ok next) : ledger.SameShares next := by
  have preserved :
      ∀ fill ∈ fills, ∀ state later,
        ledger.SameShares state →
          config.settleFill isBid orderer base quote pool state fill =
              .ok later →
            ledger.SameShares later :=
    fun _ _ _ _ same settledFill =>
      same.trans (settleFill_sameShares settledFill)
  exact Run.foldlM_invariant preserved (Ledger.SameShares.refl ledger) settled

/-- Matching an order leaves the shares alone, and sustains them. -/
theorem sustains_of_matchOrders
    (width : 0 < w)
    (lawful : config.Lawful)
    (fee : config.lpFee ≤ 1000)
    (otherOrderer : orderer ≠ config.address (base, quote))
    {books : Bool → PriceMap w Account}
    (keeps :
      pool.Keeps (fun _ _ owner _ => owner ≠ config.address (base, quote))
        books)
    {state : MatchState w Account Asset}
    (matched :
      config.matchOrders isBid orderer base quote pool quantity ledger =
        .ok state)
    (settled :
      config.handleFilledOrders isBid orderer base quote state.pool
        state.filledOrders state.ledger = .ok next)
    (lpToken : Nat) :
    ledger.SameShares next ∧
      (config.stake base quote lpToken ledger).Sustains
        (config.stake base quote lpToken next) := by
  have matching := keeps.matchOrders width (fun _ _ _ _ _ _ other => other)
    matched
  have swapped :
      ledger.SameShares state.ledger ∧
        (config.stake base quote lpToken ledger).base *
            (config.stake base quote lpToken ledger).quote ≤
          (config.stake base quote lpToken state.ledger).base *
            (config.stake base quote lpToken state.ledger).quote := by
    refine matchOrders_invariant
      (fun state : MatchState w Account Asset =>
        ledger.SameShares state.ledger ∧
          (config.stake base quote lpToken ledger).base *
              (config.stake base quote lpToken ledger).quote ≤
            (config.stake base quote lpToken state.ledger).base *
              (config.stake base quote lpToken state.ledger).quote)
      ?_ ?_ ⟨Ledger.SameShares.refl ledger, le_rfl⟩ matched
    · intro state next quantity ⟨same, product⟩ _ filled
      obtain ⟨fromPool, _⟩ := fillFromPool_eq_ok filled
      exact ⟨same.trans (doFillPool_sameShares fromPool),
        product.trans (product_le_of_doFillPool lawful fee otherOrderer
          fromPool lpToken)⟩
    · intro state next price index holds _ _ filled
      rw [ledger_of_doFillBook filled]
      exact holds
  have untouched :=
    balance_of_handleFilledOrders otherOrderer matching.fills settled
  have same := swapped.1.trans (handleFilledOrders_sameShares settled)
  refine ⟨same, Stake.sustains_of_product (same.supply lpToken) ?_⟩
  have product := swapped.2
  simp only [stake] at product ⊢
  rw [untouched, untouched]
  exact product

end Trading

section Steps

/--
What calls on a pool maintain: no more shares are held than were issued, the
pool's account keeps the first ones, and it owns no orders.
-/
structure Shareholding
    (config : Config w Account Asset)
    (base quote : Asset)
    (lpToken : Nat)
    (storage : Storage w Account Asset) : Prop where
  token :
    ∀ pool, storage.pools (base, quote) = some pool → pool.lpToken = lpToken
  issued : storage.ledger.Issued lpToken
  locked :
    storage.ledger.supply lpToken ≠ 0 →
      config.mintMinLiquidity.toNat ≤
        storage.ledger.shares lpToken (config.address (base, quote))
  owners :
    storage.Keeps fun _ _ owner _ => owner ≠ config.address (base, quote)

/-- Shares that are issued are sustained, and not all of them are burnt. -/
def SharesKept
    (config : Config w Account Asset)
    (base quote : Asset)
    (lpToken : Nat)
    (ledger next : Ledger w Account Asset) : Prop :=
  0 < ledger.supply lpToken →
    (0 < config.mintMinLiquidity → 0 < next.supply lpToken) ∧
      (config.stake base quote lpToken ledger).Sustains
        (config.stake base quote lpToken next)

variable {base quote : Asset} {storage nextStorage : Storage w Account Asset}
  {signer : Account}

/-- A deposit that is paid into the pool, with shares for no more than it. -/
theorem parts_of_deposit
    (different : base ≠ quote)
    (otherSigner : signer ≠ config.address (base, quote))
    {baseAmount quoteAmount minted : Nat}
    (paid :
      ledger.Moves next
        (Ledger.flow base signer baseAmount +
          Ledger.flow quote signer quoteAmount)
        (Ledger.flow base (config.address (base, quote)) baseAmount +
          Ledger.flow quote (config.address (base, quote)) quoteAmount))
    (supply : next.supply lpToken = ledger.supply lpToken + minted)
    (baseShare :
      minted ≤
        baseAmount * ledger.supply lpToken /
          (ledger.balance base (config.address (base, quote))).toNat)
    (quoteShare :
      minted ≤
        quoteAmount * ledger.supply lpToken /
          (ledger.balance quote (config.address (base, quote))).toNat) :
    (config.stake base quote lpToken ledger).KeepsParts
      (config.stake base quote lpToken next) := by
  have baseAfter := paid base (config.address (base, quote))
  have quoteAfter := paid quote (config.address (base, quote))
  simp only [Pi.add_apply, Ledger.flow, different, different.symm,
    otherSigner.symm, and_true, and_false, and_self, ↓reduceIte,
    Nat.add_zero, Nat.zero_add] at baseAfter quoteAfter
  constructor
  · simp only [stake]
    rw [supply, baseAfter]
    exact reserve_mul_le_of_minted baseShare
  · simp only [stake]
    rw [supply, quoteAfter]
    exact reserve_mul_le_of_minted quoteShare

omit [DecidableEq Account] [DecidableEq Asset] in
theorem toNat_smaller_le (first second : BitVec w) :
    (if first ≤ second then first else second).toNat ≤ first.toNat ∧
      (if first ≤ second then first else second).toNat ≤ second.toNat := by
  split
  · rename_i le
    exact ⟨le_rfl, BitVec.le_def.mp le⟩
  · rename_i notLe
    exact ⟨(BitVec.lt_def.mp (BitVec.not_le.mp notLe)).le, le_rfl⟩

/-- Depositing issues shares, rounded down on both sides. -/
theorem Shareholding.addLiquidity
    (lawful : config.Lawful)
    (holding : config.Shareholding base quote lpToken storage)
    (otherSigner : signer ≠ config.address (base, quote))
    {baseDesired quoteDesired baseMin quoteMin : BitVec w}
    {mintTo : Account}
    (added :
      config.addLiquidity signer base quote baseDesired quoteDesired baseMin
        quoteMin mintTo storage = .ok nextStorage) :
    config.Shareholding base quote lpToken nextStorage ∧
      config.SharesKept base quote lpToken storage.ledger
        nextStorage.ledger := by
  simp only [Config.addLiquidity, bind_eq_ok_iff, ensure_eq_ok_iff,
    exists_const, poolId_eq_ok_iff, okOr_eq_ok_iff] at added
  obtain ⟨_, ⟨different, rfl⟩, _, pool, found, ⟨baseAmount, quoteAmount⟩, _,
    _, _, first, paidBase, second, paidQuote, issues⟩ := added
  obtain rfl := holding.token pool found
  have paidShares :=
    (transfer_sameShares paidBase).trans (transfer_sameShares paidQuote)
  have paid :=
    (transfer_moves paidBase).1.trans (transfer_moves paidQuote).1
  have issued := paidShares.issued holding.issued
  split at issues
  · -- the first deposit
    rename_i unissued
    simp only [bind_eq_ok_iff, ensure_eq_ok_iff, exists_const,
      Except.ok.injEq, exists_eq_left'] at issues
    obtain ⟨_, _, locked, locks, _, _, minted, rfl⟩ := issues
    have lockedIssued := issued_of_mintInto issued locks
    refine ⟨⟨holding.token, issued_of_mintInto lockedIssued minted,
      fun _ => ?_, holding.owners⟩, fun positive => ?_⟩
    · refine Nat.le_trans ?_ (le_shares_of_mintInto lockedIssued minted _)
      rw [(supply_of_mintInto issued locks).2, Function.update_self]
      exact Nat.le_add_left _ _
    · rw [← paidShares.supply, Ledger.supply, unissued] at positive
      simp at positive
  · rename_i already
    simp only [bind_eq_ok_iff, ensure_eq_ok_iff, exists_const,
      Except.ok.injEq, exists_eq_left'] at issues
    obtain ⟨side1, baseShare, side2, quoteShare, _, final, minted, rfl⟩ :=
      issues
    have supplied : storage.ledger.supply pool.lpToken ≠ 0 := by
      rw [← paidShares.supply]
      exact fun zero => already (BitVec.eq_of_toNat_eq zero)
    obtain ⟨supply, _⟩ := supply_of_mintInto issued minted
    rw [paidShares.supply] at supply
    refine ⟨⟨holding.token, issued_of_mintInto issued minted,
      fun _ => ?_, holding.owners⟩, fun positive => ⟨fun _ => ?_, ?_⟩⟩
    · have kept := holding.locked supplied
      rw [← paidShares.shares] at kept
      exact kept.trans (le_shares_of_mintInto issued minted _)
    · simp only
      omega
    · obtain ⟨leBase, leQuote⟩ := toNat_smaller_le side1 side2
      rw [(toNat_of_mulDiv baseShare).2, getBalance,
        lawful.poolBalance] at leBase
      rw [(toNat_of_mulDiv quoteShare).2, getBalance,
        lawful.poolBalance] at leQuote
      have totalSupply :
          (second.lpIssuance pool.lpToken).toNat =
            storage.ledger.supply pool.lpToken := paidShares.supply _
      rw [totalSupply] at leBase leQuote
      refine (parts_of_deposit different otherSigner (fun asset who => ?_)
        supply leBase leQuote).sustains
      rw [(mintInto_eq_ok minted).1]
      exact paid asset who

/-- A redemption that is paid by the pool, of no more than its shares. -/
theorem parts_of_redemption
    (different : base ≠ quote)
    {baseAmount quoteAmount redeemed burned : Nat}
    (fee : redeemed ≤ burned)
    (withdrawTo : Account)
    (paid :
      ledger.Moves next
        (Ledger.flow base (config.address (base, quote)) baseAmount +
          Ledger.flow quote (config.address (base, quote)) quoteAmount)
        (Ledger.flow base withdrawTo baseAmount +
          Ledger.flow quote withdrawTo quoteAmount))
    (supply : next.supply lpToken = ledger.supply lpToken - burned)
    (baseShare :
      baseAmount ≤
        redeemed *
            (ledger.balance base (config.address (base, quote))).toNat /
          ledger.supply lpToken)
    (quoteShare :
      quoteAmount ≤
        redeemed *
            (ledger.balance quote (config.address (base, quote))).toNat /
          ledger.supply lpToken) :
    (config.stake base quote lpToken ledger).KeepsParts
      (config.stake base quote lpToken next) := by
  have baseAfter := paid base (config.address (base, quote))
  have quoteAfter := paid quote (config.address (base, quote))
  simp only [Pi.add_apply, Ledger.flow, different, different.symm,
    and_true, false_and, and_self, true_and, ↓reduceIte, Nat.add_zero,
    Nat.zero_add] at baseAfter quoteAfter
  constructor
  · simp only [stake]
    rw [supply]
    refine (reserve_mul_le_of_redeemed baseShare fee).trans
      (Nat.mul_le_mul_right _ ?_)
    omega
  · simp only [stake]
    rw [supply]
    refine (reserve_mul_le_of_redeemed quoteShare fee).trans
      (Nat.mul_le_mul_right _ ?_)
    omega

/-- Redeeming pays for shares, rounded down on both sides. -/
theorem Shareholding.removeLiquidity
    (lawful : config.Lawful)
    {liquidityWithdrawalFee : BitVec w → BitVec w}
    (holding : config.Shareholding base quote lpToken storage)
    (otherSigner : signer ≠ config.address (base, quote))
    {lpTokenBurn baseMinReceive quoteMinReceive : BitVec w}
    {withdrawTo : Account}
    (removed :
      config.removeLiquidity liquidityWithdrawalFee signer base quote
        lpTokenBurn baseMinReceive quoteMinReceive withdrawTo storage =
          .ok nextStorage) :
    config.Shareholding base quote lpToken nextStorage ∧
      config.SharesKept base quote lpToken storage.ledger
        nextStorage.ledger := by
  simp only [Config.removeLiquidity, bind_eq_ok_iff, ensure_eq_ok_iff,
    exists_const, poolId_eq_ok_iff, okOr_eq_ok_iff,
    Except.ok.injEq] at removed
  obtain ⟨_, ⟨different, rfl⟩, _, pool, found, baseAmount, baseShare,
    quoteAmount, quoteShare, _, _, _, _, burnt, burns, first, paidBase,
    second, paidQuote, rfl⟩ := removed
  obtain rfl := holding.token pool found
  have paidShares :=
    (transfer_sameShares paidBase).trans (transfer_sameShares paidQuote)
  have paid :=
    (transfer_moves paidBase).1.trans (transfer_moves paidQuote).1
  obtain ⟨sameBalance, covered, supply, shares⟩ := supply_of_burnFrom burns
  have issued : burnt.Issued pool.lpToken := by
    rw [Ledger.Issued, supply, shares]
    exact holding.issued.sub covered
  have poolShares :
      second.shares pool.lpToken (config.address (base, quote)) =
        storage.ledger.shares pool.lpToken
          (config.address (base, quote)) := by
    rw [paidShares.shares, shares, Function.update_of_ne otherSigner.symm]
  have supplied : second.supply pool.lpToken ≠ 0 → _ :=
    fun some => holding.locked fun zero => some (by
      rw [paidShares.supply, supply, zero, Nat.zero_sub])
  refine ⟨⟨holding.token, paidShares.issued issued, fun some => ?_,
    holding.owners⟩, fun positive => ⟨fun some => ?_, ?_⟩⟩
  · rw [poolShares]
    exact supplied some
  · have kept := holding.locked positive.ne'
    have bound : second.shares pool.lpToken
        (config.address (base, quote)) ≤ second.supply pool.lpToken :=
      (paidShares.issued issued).le _
    rw [poolShares] at bound
    exact (BitVec.lt_def.mp some).trans_le (kept.trans bound)
  · have baseRounded := (toNat_of_mulDiv baseShare).2.le
    have quoteRounded := (toNat_of_mulDiv quoteShare).2.le
    rw [getBalance, lawful.poolBalance] at baseRounded quoteRounded
    refine (parts_of_redemption different (saturatingSub_le _ _) withdrawTo
      (fun asset who => ?_) ?_ baseRounded quoteRounded).sustains
    · rw [← sameBalance]
      exact paid asset who
    · rw [paidShares.supply, supply]

omit [DecidableEq Account] [DecidableEq Asset] in
/-- Trading leaves the shares as they are. -/
theorem Shareholding.traded
    (holding : config.Shareholding base quote lpToken storage)
    (sameTerms : storage.SameTerms nextStorage)
    (owners :
      nextStorage.Keeps fun _ _ owner _ =>
        owner ≠ config.address (base, quote))
    (same : storage.ledger.SameShares nextStorage.ledger)
    (sustains :
      (config.stake base quote lpToken storage.ledger).Sustains
        (config.stake base quote lpToken nextStorage.ledger)) :
    config.Shareholding base quote lpToken nextStorage ∧
      config.SharesKept base quote lpToken storage.ledger
        nextStorage.ledger := by
  refine ⟨⟨fun pool found => ?_, same.issued holding.issued, ?_, owners⟩,
    fun positive => ⟨fun _ => ?_, sustains⟩⟩
  · obtain ⟨origin, foundOrigin, terms⟩ := sameTerms.origin found
    exact terms.lpToken.trans (holding.token origin foundOrigin)
  · rw [same.supply, same.shares]
    exact holding.locked
  · rw [same.supply]
    exact positive

/-- A call on the pool sustains its shares. -/
theorem Shareholding.step
    (wide : 64 ≤ w)
    (lawful : config.Lawful)
    (fee : config.lpFee ≤ 1000)
    {liquidityWithdrawalFee : BitVec w → BitVec w}
    {call : PoolCall w Account Asset}
    (holding : config.Shareholding base quote lpToken storage)
    (named : call.poolId = (base, quote))
    (otherSigner : call.signer ≠ config.address (base, quote))
    (stepped :
      config.poolStep liquidityWithdrawalFee call storage =
        some nextStorage) :
    config.Shareholding base quote lpToken nextStorage ∧
      config.SharesKept base quote lpToken storage.ledger
        nextStorage.ledger := by
  cases call with
  | removeLiquidity signer callBase callQuote lpTokenBurn baseMinReceive
      quoteMinReceive withdrawTo =>
      obtain ⟨rfl, rfl⟩ := Prod.mk.inj named
      exact holding.removeLiquidity lawful otherSigner
        (toOption_eq_some_iff.mp stepped)
  | dispatch extrinsic =>
      have ownersAfter := holding.owners.step wide
        (fun _ _ _ _ _ _ other => other)
        (fun _ _ _ _ _ _ _ => otherSigner) stepped
      have sameTerms := holding.owners.sameTerms_step wide
        (fun _ _ _ _ _ _ other => other) stepped
      have traded := holding.traded sameTerms ownersAfter
      cases effect_of_step stepped with
      | deposited called =>
          have dispatched := toOption_eq_some_iff.mp stepped
          rw [PoolCall.poolId, called] at named
          obtain ⟨rfl, rfl⟩ := Prod.mk.inj named
          rw [dispatch, called] at dispatched
          exact holding.addLiquidity lawful otherSigner dispatched
      | @matched callBase callQuote _ _ _ _ _ called different found matched
          settled updated =>
          have same : (callBase, callQuote) = (base, quote) := by
            rcases called with called | ⟨_, called, _⟩
            · rw [PoolCall.poolId, called] at named
              exact named
            · rw [PoolCall.poolId, called] at named
              exact named
          obtain ⟨rfl, rfl⟩ := Prod.mk.inj same
          obtain ⟨books, keeps⟩ := holding.owners _ _ found
          obtain ⟨sameShares, sustains⟩ := sustains_of_matchOrders
            (by omega) lawful fee otherSigner keeps matched settled lpToken
          subst updated
          exact traded sameShares sustains
      | placed called found reserves priced rests places updated =>
          subst updated
          have sameBalances := (doPlaceOrder_eq_ok wide places).2.1
          have sameShares := doPlaceOrder_sameShares places
          refine traded sameShares (Stake.sustains_of_product
            (sameShares.supply lpToken) ?_)
          simp only [stake, Storage.ledger_update, sameBalances, le_refl]
      | canceled called found cancels updated =>
          subst updated
          exact traded (Ledger.SameShares.refl _)
            (Stake.sustains_of_product rfl le_rfl)

end Steps

section Runs

variable {base quote : Asset} {start storage final : Storage w Account Asset}
  {liquidityWithdrawalFee : BitVec w → BitVec w}
  {calls : List (PoolCall w Account Asset)}

/-- Calls on the pool that its own account does not sign. -/
def OnPool
    (config : Config w Account Asset)
    (base quote : Asset)
    (call : PoolCall w Account Asset) : Prop :=
  call.poolId = (base, quote) ∧
    call.signer ≠ config.address (base, quote)

instance decidableOnPool
    (config : Config w Account Asset)
    (base quote : Asset) : DecidablePred (config.OnPool base quote) :=
  fun _ => inferInstanceAs (Decidable (_ ∧ _))

/-- The pool is newly created, and its liquidity token with it. -/
structure NewPool
    (base quote : Asset)
    (lpToken : Nat)
    (start : Storage w Account Asset) : Prop where
  created : start.Created
  token :
    ∀ pool, start.pools (base, quote) = some pool → pool.lpToken = lpToken
  noShares : ∀ who, start.ledger.lpBalance lpToken who = 0
  unissued : start.ledger.lpIssuance lpToken = 0

omit [DecidableEq Account] [DecidableEq Asset] in
theorem NewPool.shareholding
    (new : NewPool base quote lpToken start) :
    config.Shareholding base quote lpToken start where
  token := new.token
  issued holders := by
    simp [Ledger.shares, new.noShares]
  locked supplied := by
    simp [Ledger.supply, new.unissued] at supplied
  owners := new.created.keeps

theorem shareholding_of_run
    (wide : 64 ≤ w)
    (lawful : config.Lawful)
    (fee : config.lpFee ≤ 1000)
    (holding : config.Shareholding base quote lpToken start)
    (onPool : ∀ call ∈ calls, config.OnPool base quote call)
    (ran :
      Run.run (config.poolStep liquidityWithdrawalFee) calls start =
        some storage) :
    config.Shareholding base quote lpToken storage :=
  Run.run_invariant_along
    (fun _ _ _ holding (onPool : config.OnPool base quote _) stepped =>
      (holding.step wide lawful fee onPool.1 onPool.2 stepped).1)
    holding (Run.along_of_forall (fun call member _ => onPool call member) _)
    ran

/--
In every run of calls on a pool from its creation on, each call that finds
shares issued leaves them worth no less, and not all of them are burnt.  No
fill from the pool lowers the product of its reserves.
-/
theorem shareValue_never_falls
    (wide : 64 ≤ w)
    (config : Config w Account Asset)
    (lawful : config.Lawful)
    (fee : config.lpFee ≤ 1000)
    (liquidityWithdrawalFee : BitVec w → BitVec w)
    (new : NewPool base quote lpToken start)
    (calls : List (PoolCall w Account Asset))
    (call : PoolCall w Account Asset)
    (onPool : ∀ each ∈ call :: calls, config.OnPool base quote each)
    (ran :
      Run.run (config.poolStep liquidityWithdrawalFee) calls start =
        some storage)
    (stepped :
      config.poolStep liquidityWithdrawalFee call storage = some final) :
    (0 < storage.ledger.supply lpToken →
      (config.stake base quote lpToken storage.ledger).Sustains
          (config.stake base quote lpToken final.ledger) ∧
        (0 < config.mintMinLiquidity →
          0 < final.ledger.supply lpToken)) ∧
      ∀ isBid orderer quantity (ledger after : Ledger w Account Asset),
        orderer ≠ config.address (base, quote) →
          config.doFillPool isBid orderer quantity base quote ledger =
              .ok after →
            (config.stake base quote lpToken ledger).base *
                (config.stake base quote lpToken ledger).quote ≤
              (config.stake base quote lpToken after).base *
                (config.stake base quote lpToken after).quote := by
  obtain ⟨⟨named, otherSigner⟩, earlier⟩ := List.forall_mem_cons.mp onPool
  have holding := shareholding_of_run wide lawful fee new.shareholding
    earlier ran
  refine ⟨fun positive => ?_, ?_⟩
  · obtain ⟨issued, sustains⟩ :=
      (holding.step wide lawful fee named otherSigner stepped).2 positive
    exact ⟨sustains, issued⟩
  · intro isBid orderer quantity ledger after otherOrderer filled
    exact product_le_of_doFillPool lawful fee otherOrderer filled lpToken

/-- A deposit, a trade with the pool, a resting order and a redemption. -/
theorem shareValue_never_falls_mock :
    ∃ storage final,
      Run.run (Config.mock.poolStep fun _ => 7)
          [.dispatch ⟨.inl 1, 1, .addLiquidity 0 1 10000 1000000 0 0
            (.inl 1)⟩,
            .dispatch ⟨.inl 2, 1, .marketOrder 0 1 10 true⟩,
            .dispatch ⟨.inl 2, 1, .limitOrder 0 1 false 200 5⟩]
          (Storage.mock (Pool.new 0 1 1 0 0 0) 0 0) = some storage ∧
        storage.ledger.supply 0 = 100000 ∧
        Config.mock.poolStep (fun _ => 7)
          (.removeLiquidity (.inl 1) 0 1 500 1 1 (.inl 3)) storage =
            some final ∧
        (Config.mock.stake 0 1 0 storage.ledger).Sustains
          (Config.mock.stake 0 1 0 final.ledger) ∧
        0 < final.ledger.supply 0 := by
  have succeeds :
      ((Run.run (Config.mock.poolStep fun _ => 7)
          [.dispatch ⟨.inl 1, 1, .addLiquidity 0 1 10000 1000000 0 0
            (.inl 1)⟩,
            .dispatch ⟨.inl 2, 1, .marketOrder 0 1 10 true⟩,
            .dispatch ⟨.inl 2, 1, .limitOrder 0 1 false 200 5⟩]
          (Storage.mock (Pool.new 0 1 1 0 0 0) 0 0)).bind fun storage =>
        (Config.mock.poolStep (fun _ => 7)
          (.removeLiquidity (.inl 1) 0 1 500 1 1 (.inl 3)) storage).map
            fun _ => storage.ledger.supply 0) = some 100000 := by
    decide +kernel
  obtain ⟨storage, ran, redeems⟩ := Option.bind_eq_some_iff.mp succeeds
  obtain ⟨final, redeemed, supply⟩ := Option.map_eq_some_iff.mp redeems
  have positive : 0 < storage.ledger.supply 0 := by
    rw [supply]
    decide
  have new :
      NewPool 0 1 0 (Storage.mock (Pool.new 0 1 1 0 0 0) 0 0) := by
    refine ⟨Storage.created_mock 0 1 1 0 0 0 0 0, fun pool found => ?_,
      fun _ => rfl, rfl⟩
    exact Option.some.inj found ▸ rfl
  obtain ⟨sustains, issued⟩ :=
    (shareValue_never_falls (by decide) Config.mock Config.mock_lawful
      (by decide) (fun _ => 7) new _ _ (by decide) ran redeemed).1 positive
  exact ⟨storage, final, ran, supply, redeemed, sustains, issued (by decide)⟩

end Runs

end Config

end HybridOrderbook
