import HybridOrderbook.Pricing

namespace HybridOrderbook

open Library

/-!
# Swapping against a pool

A swap withdraws from the sender, withdraws from the account of the pool,
pays the first credit into the pool and the second one to the recipient.
Which pool that is follows from the path, read backwards for a bid.
-/

variable {w : Nat} {Account Asset : Type} [DecidableEq Account]
  [DecidableEq Asset]

/-- A path with the amount of each asset on it. -/
abbrev BalancePath (w : Nat) (Asset : Type) := List (Asset × BitVec w)

/-- Id of the pool of two assets: base asset first, and different assets. -/
def poolId (base quote : Asset) : Outcome (Asset × Asset) :=
  if base = quote then
    .error (.error .invalidAssetPair)
  else
    .ok (base, quote)

namespace Config

variable (config : Config w Account Asset)

/-- The account of the pool of two assets. -/
def poolAddress (asset1 asset2 : Asset) : Outcome Account := do
  let id ← poolId asset1 asset2
  .ok (config.address id)

/-- Get the `owner`'s balance of `asset`. -/
def getBalance
    (ledger : Ledger w Account Asset)
    (owner : Account)
    (asset : Asset) : BitVec w :=
  config.reducibleBalance ledger asset owner .expendable

/-- Returns the balance of each asset in the pool. -/
def getReserves
    (ledger : Ledger w Account Asset)
    (asset1 asset2 : Asset) : Outcome (BitVec w × BitVec w) := do
  let poolAccount ← config.poolAddress asset1 asset2
  let balance1 := config.getBalance ledger poolAccount asset1
  let balance2 := config.getBalance ledger poolAccount asset2
  ensure (¬ (balance1 = 0 ∨ balance2 = 0)) .zeroLiquidity
  .ok (balance1, balance2)

/-- Removes `value` balance of `asset` from `who` account if possible. -/
def withdraw
    (asset : Asset)
    (who : Account)
    (value : BitVec w)
    (keepAlive : Bool)
    (ledger : Ledger w Account Asset) :
    Outcome (Credit w Asset × Ledger w Account Asset) := do
  let preservation : Preservation :=
    if keepAlive then .preserve else .expendable
  ensure (preservation = .preserve →
    config.reducibleBalance ledger asset who preservation ≥ value)
    .notExpendable
  config.withdrawExact asset who value preservation ledger

/-- The loop of `balance_path_from_amount_out`, on the reversed path. -/
def balancePathBack
    (ledger : Ledger w Account Asset) :
    BitVec w → List Asset → Outcome (BalancePath w Asset)
  | _, [] => .ok []
  | amountIn, [asset2] => .ok [(asset2, amountIn)]
  | amountIn, asset2 :: asset1 :: rest => do
      let (baseReserve, quoteReserve) ←
        config.getReserves ledger asset2 asset1
      let nextAmount ← config.getAmountIn amountIn quoteReserve baseReserve
      let balancePath ← balancePathBack ledger nextAmount (asset1 :: rest)
      .ok ((asset2, amountIn) :: balancePath)

/-- Leading to an amount at the end of a `path`, get the amounts in. -/
def balancePathFromAmountOut
    (ledger : Ledger w Account Asset)
    (amountOut : BitVec w)
    (path : List Asset) : Outcome (BalancePath w Asset) := do
  let balancePath ← config.balancePathBack ledger amountOut path.reverse
  .ok balancePath.reverse

/-- Following an amount into a `path`, get the corresponding amounts out. -/
def balancePathFromAmountIn
    (ledger : Ledger w Account Asset) :
    BitVec w → List Asset → Outcome (BalancePath w Asset)
  | _, [] => .ok []
  | amountOut, [asset1] => .ok [(asset1, amountOut)]
  | amountOut, asset1 :: asset2 :: rest => do
      let (reserveIn, reserveOut) ← config.getReserves ledger asset1 asset2
      let nextAmount ← config.getAmountOut amountOut reserveIn reserveOut
      let balancePath ←
        balancePathFromAmountIn ledger nextAmount (asset2 :: rest)
      .ok ((asset1, amountOut) :: balancePath)

/-- The pools of neighbouring assets are valid and met only once. -/
def validatePools :
    List (Asset × Asset) → List Asset → Outcome Unit
  | pools, asset1 :: asset2 :: rest => do
      let id ← poolId asset1 asset2
      ensure (id ∉ pools) .nonUniquePath
      validatePools (id :: pools) (asset2 :: rest)
  | _, _ => .ok ()

/-- Ensure that a path is valid. -/
def validateSwapPath (path : List Asset) : Outcome Unit := do
  ensure (path.length ≥ 2) .invalidPath
  ensure (path.length ≤ config.maxSwapPathLength) .invalidPath
  validatePools [] path

/-- The pool account of the first two assets of a path. -/
def pathPool (isBid : Bool) (asset1 asset2 : Asset) : Outcome Account :=
  if isBid then
    config.poolAddress asset2 asset1
  else
    config.poolAddress asset1 asset2

/--
Swap assets along the specified `path`, consuming `creditIn` and producing a
credit of what the pool pays.  An error comes with the credit to return.

The loop over the positions of the path returns at its first pair, so a
longer path pays out the second asset already.
-/
def creditSwap
    (isBid : Bool)
    (creditIn : Credit w Asset)
    (path : BalancePath w Asset)
    (ledger : Ledger w Account Asset) :
    Except (Credit w Asset × Fault PalletError)
      (Credit w Asset × Ledger w Account Asset) :=
  match path with
  | (asset1, _) :: (asset2, amountOut) :: _ =>
      let resolvePath : Outcome _ := do
        let poolFrom ← config.pathPool isBid asset1 asset2
        config.withdraw asset2 poolFrom amountOut true ledger
      match resolvePath with
      | .error fault => .error (creditIn, fault)
      | .ok (creditOut, ledger) =>
          match config.pathPool isBid asset1 asset2 with
          | .error fault => .error (creditIn, fault)
          | .ok poolTo =>
              match config.resolve poolTo creditIn ledger with
              | .error _ => .error (creditIn, .error .belowMinimum)
              | .ok ledger => .ok (creditOut, ledger)
  | _ => .error (creditIn, .error .invalidPath)

/-- Swap assets along the `path`, withdrawing from `sender`. -/
def swap
    (isBid : Bool)
    (sender : Account)
    (path : BalancePath w Asset)
    (sendTo : Account)
    (keepAlive : Bool)
    (ledger : Ledger w Account Asset) :
    Outcome (Ledger w Account Asset) := do
  let (assetIn, amountIn) ← okOr path.head? .invalidPath
  let (creditIn, ledger) ←
    config.withdraw assetIn sender amountIn keepAlive ledger
  let (creditOut, ledger) ←
    (config.creditSwap isBid creditIn path ledger).mapError Prod.snd
  mapErr (fun _ => .belowMinimum) (config.resolve sendTo creditOut ledger)

/-- Swap exactly `amountIn` of asset `path[0]` for asset `path[1]`. -/
def doSwapExactTokensForTokens
    (sender : Account)
    (path : List Asset)
    (amountIn : BitVec w)
    (amountOutMin : Option (BitVec w))
    (sendTo : Account)
    (keepAlive : Bool)
    (ledger : Ledger w Account Asset) :
    Outcome (BitVec w × Ledger w Account Asset) := do
  ensure (amountIn > 0) .zeroAmount
  ensure (amountOutMin.all (· > 0) = true) .zeroAmount
  config.validateSwapPath path
  let path ← config.balancePathFromAmountIn ledger amountIn path
  let (_, amountOut) ← okOr path.getLast? .invalidPath
  ensure (amountOutMin.all (amountOut ≥ ·) = true)
    .providedMinimumNotSufficientForSwap
  let ledger ← config.swap false sender path sendTo keepAlive ledger
  .ok (amountOut, ledger)

/-- Swap some amount of `path[0]` for `amountOut` of the `path[1]`. -/
def doSwapTokensForExactTokens
    (sender : Account)
    (path : List Asset)
    (amountOut : BitVec w)
    (amountInMax : Option (BitVec w))
    (sendTo : Account)
    (keepAlive : Bool)
    (ledger : Ledger w Account Asset) :
    Outcome (BitVec w × Ledger w Account Asset) := do
  ensure (amountOut > 0) .zeroAmount
  ensure (amountInMax.all (· > 0) = true) .zeroAmount
  config.validateSwapPath path
  let path ← config.balancePathFromAmountOut ledger amountOut path
  let (_, amountIn) ← okOr path.head? .invalidPath
  ensure (amountInMax.all (amountIn ≤ ·) = true)
    .providedMaximumNotSufficientForSwap
  let ledger ← config.swap true sender path sendTo keepAlive ledger
  .ok (amountIn, ledger)

/--
The quote asset that swapping `quantity` of base asset takes: in for a bid,
out for an ask.
-/
def swapAmount
    (isBid : Bool)
    (quantity baseReserve quoteReserve : BitVec w) : Outcome (BitVec w) :=
  if isBid then
    config.getAmountIn quantity quoteReserve baseReserve
  else
    config.getAmountOut quantity baseReserve quoteReserve

/-- Fill `quantity` of base asset from the pool. -/
def doFillPool
    (isBid : Bool)
    (orderer : Account)
    (quantity : BitVec w)
    (base quote : Asset)
    (ledger : Ledger w Account Asset) :
    Outcome (Ledger w Account Asset) :=
  if isBid then do
    let (_, ledger) ← config.doSwapTokensForExactTokens orderer
      [quote, base] quantity none orderer false ledger
    .ok ledger
  else do
    let (_, ledger) ← config.doSwapExactTokensForTokens orderer
      [base, quote] quantity none orderer false ledger
    .ok ledger

section Effects

variable {config} {ledger next : Ledger w Account Asset}

theorem poolId_eq_ok_iff
    {base quote : Asset}
    {id : Asset × Asset} :
    poolId base quote = .ok id ↔ base ≠ quote ∧ (base, quote) = id := by
  unfold poolId
  split <;> simp_all

theorem failsOnly_poolId
    (base quote : Asset) :
    FailsOnly (· = .error .invalidAssetPair) (poolId base quote) := by
  unfold poolId
  split
  · exact fun _ failed => (Except.error.inj failed).symm
  · exact failsOnly_ok _ _

omit [DecidableEq Account] in
theorem getReserves_eq_ok_iff
    {base quote : Asset}
    {baseReserve quoteReserve : BitVec w} :
    config.getReserves ledger base quote =
        .ok (baseReserve, quoteReserve) ↔
      base ≠ quote ∧ baseReserve ≠ 0 ∧ quoteReserve ≠ 0 ∧
        config.getBalance ledger (config.address (base, quote)) base =
          baseReserve ∧
        config.getBalance ledger (config.address (base, quote)) quote =
          quoteReserve := by
  simp only [getReserves, poolAddress, bind_eq_ok_iff, poolId_eq_ok_iff,
    ensure_eq_ok_iff, exists_const, Except.ok.injEq, Prod.mk.injEq]
  constructor
  · rintro ⟨_, ⟨_, ⟨different, rfl⟩, rfl⟩, nonzero, rfl, rfl⟩
    rw [not_or] at nonzero
    exact ⟨different, nonzero.1, nonzero.2, rfl, rfl⟩
  · rintro ⟨different, baseNonzero, quoteNonzero, rfl, rfl⟩
    exact ⟨_, ⟨_, ⟨different, rfl⟩, rfl⟩,
      not_or.mpr ⟨baseNonzero, quoteNonzero⟩, rfl, rfl⟩

theorem withdraw_moves
    {asset : Asset}
    {who : Account}
    {value : BitVec w}
    {keepAlive : Bool}
    {credit : Credit w Asset}
    (withdrawn :
      config.withdraw asset who value keepAlive ledger =
        .ok (credit, next)) :
    credit = ⟨asset, value⟩ ∧
      ledger.Moves next (Ledger.flow asset who value.toNat) 0 ∧
      next.frozen = ledger.frozen := by
  simp only [withdraw, bind_eq_ok_iff, ensure_eq_ok_iff,
    exists_const] at withdrawn
  exact withdrawExact_moves withdrawn.2

/-- A credit swap withdraws from the pool and resolves into it. -/
theorem creditSwap_eq_ok
    {isBid : Bool}
    {creditIn creditOut : Credit w Asset}
    {asset1 asset2 : Asset}
    {amountIn amountOut : BitVec w}
    {rest : BalancePath w Asset}
    (swapped :
      config.creditSwap isBid creditIn
        ((asset1, amountIn) :: (asset2, amountOut) :: rest) ledger =
          .ok (creditOut, next)) :
    ∃ pool middle,
      config.pathPool isBid asset1 asset2 = .ok pool ∧
        config.withdraw asset2 pool amountOut true ledger =
          .ok (creditOut, middle) ∧
        config.resolve pool creditIn middle = .ok next := by
  cases located : config.pathPool isBid asset1 asset2 with
  | error fault =>
      simp [creditSwap, located, bind, Except.bind] at swapped
  | ok pool =>
      cases withdrawn : config.withdraw asset2 pool amountOut true ledger with
      | error fault =>
          simp [creditSwap, located, withdrawn, bind, Except.bind] at swapped
      | ok outcome =>
          rcases outcome with ⟨credit, middle⟩
          cases resolved : config.resolve pool creditIn middle with
          | error fault =>
              simp [creditSwap, located, withdrawn, resolved, bind,
                Except.bind] at swapped
          | ok final =>
              simp only [creditSwap, located, withdrawn, resolved, bind,
                Except.bind, Except.ok.injEq, Prod.mk.injEq] at swapped
              obtain ⟨rfl, rfl⟩ := swapped
              exact ⟨pool, middle, rfl, withdrawn, resolved⟩

/-- A swap is a payment by the sender and one by the pool. -/
theorem swap_eq_ok
    {isBid keepAlive : Bool}
    {sender sendTo : Account}
    {asset1 asset2 : Asset}
    {amountIn amountOut : BitVec w}
    {rest : BalancePath w Asset}
    (swapped :
      config.swap isBid sender
        ((asset1, amountIn) :: (asset2, amountOut) :: rest) sendTo keepAlive
        ledger = .ok next) :
    ∃ pool creditIn creditOut afterSender middle afterPool,
      config.pathPool isBid asset1 asset2 = .ok pool ∧
        config.withdraw asset1 sender amountIn keepAlive ledger =
          .ok (creditIn, afterSender) ∧
        config.withdraw asset2 pool amountOut true afterSender =
          .ok (creditOut, middle) ∧
        config.resolve pool creditIn middle = .ok afterPool ∧
        config.resolve sendTo creditOut afterPool = .ok next := by
  simp only [swap, List.head?_cons, okOr_eq_ok_iff, Option.some.injEq,
    bind_eq_ok_iff, mapErr_eq_ok_iff, mapError_eq_ok_iff,
    exists_eq_left'] at swapped
  obtain ⟨⟨creditIn, afterSender⟩, senderPaid, ⟨creditOut, afterPool⟩,
    credited, resolved⟩ := swapped
  obtain ⟨pool, middle, located, poolPaid, poolResolved⟩ :=
    creditSwap_eq_ok credited
  exact ⟨pool, creditIn, creditOut, afterSender, middle, afterPool, located,
    senderPaid, poolPaid, poolResolved, resolved⟩

/-- Paying along the first pair of a path, with the pool on the other side. -/
theorem swap_moves
    {isBid keepAlive : Bool}
    {sender sendTo : Account}
    {asset1 asset2 : Asset}
    {amountIn amountOut : BitVec w}
    {rest : BalancePath w Asset}
    (swapped :
      config.swap isBid sender
        ((asset1, amountIn) :: (asset2, amountOut) :: rest) sendTo keepAlive
        ledger = .ok next) :
    ∃ pool,
      config.pathPool isBid asset1 asset2 = .ok pool ∧
        ledger.Moves next
          (Ledger.flow asset1 sender amountIn.toNat +
            Ledger.flow asset2 pool amountOut.toNat)
          (Ledger.flow asset1 pool amountIn.toNat +
            Ledger.flow asset2 sendTo amountOut.toNat) ∧
        next.frozen = ledger.frozen := by
  obtain ⟨pool, _, _, _, _, _, located, senderPaid, poolPaid, poolResolved,
    resolved⟩ := swap_eq_ok swapped
  obtain ⟨rfl, senderMoves, senderFrozen⟩ := withdraw_moves senderPaid
  obtain ⟨rfl, poolMoves, poolFrozen⟩ := withdraw_moves poolPaid
  obtain ⟨receivedMoves, receivedFrozen⟩ := resolve_moves poolResolved
  obtain ⟨finalMoves, finalFrozen⟩ := resolve_moves resolved
  refine ⟨pool, located, ?_, ?_⟩
  · have moved := ((senderMoves.trans poolMoves).trans receivedMoves).trans
      finalMoves
    simpa only [add_zero, zero_add] using moved
  · rw [finalFrozen, receivedFrozen, poolFrozen, senderFrozen]

omit [DecidableEq Account] in
/-- The amounts on a bid's path. -/
theorem balancePathFromAmountOut_pair
    {base quote : Asset}
    {amountOut : BitVec w}
    {path : BalancePath w Asset}
    (computed :
      config.balancePathFromAmountOut ledger amountOut [quote, base] =
        .ok path) :
    ∃ baseReserve quoteReserve amountIn,
      config.getReserves ledger base quote =
          .ok (baseReserve, quoteReserve) ∧
        config.getAmountIn amountOut quoteReserve baseReserve =
          .ok amountIn ∧
        path = [(quote, amountIn), (base, amountOut)] := by
  simp only [balancePathFromAmountOut, List.reverse_cons, List.reverse_nil,
    List.nil_append, List.cons_append, balancePathBack, bind_eq_ok_iff,
    Except.ok.injEq] at computed
  obtain ⟨_, ⟨⟨baseReserve, quoteReserve⟩, reserves, amountIn, priced, _,
    rfl, rfl⟩, rfl⟩ := computed
  exact ⟨baseReserve, quoteReserve, amountIn, reserves, priced, rfl⟩

omit [DecidableEq Account] in
/-- The amounts on an ask's path. -/
theorem balancePathFromAmountIn_pair
    {base quote : Asset}
    {amountIn : BitVec w}
    {path : BalancePath w Asset}
    (computed :
      config.balancePathFromAmountIn ledger amountIn [base, quote] =
        .ok path) :
    ∃ baseReserve quoteReserve amountOut,
      config.getReserves ledger base quote =
          .ok (baseReserve, quoteReserve) ∧
        config.getAmountOut amountIn baseReserve quoteReserve =
          .ok amountOut ∧
        path = [(base, amountIn), (quote, amountOut)] := by
  simp only [balancePathFromAmountIn, bind_eq_ok_iff,
    Except.ok.injEq] at computed
  obtain ⟨⟨baseReserve, quoteReserve⟩, reserves, amountOut, priced, _, rfl,
    rfl⟩ := computed
  exact ⟨baseReserve, quoteReserve, amountOut, reserves, priced, rfl⟩

/-- The pool of two neighbouring assets: read backwards for a bid. -/
def hopPool
    (config : Config w Account Asset)
    (isBid : Bool)
    (asset1 asset2 : Asset) : Account :=
  config.address (if isBid then (asset2, asset1) else (asset1, asset2))

omit [DecidableEq Account] in
theorem hopPool_of_pathPool
    {isBid : Bool}
    {asset1 asset2 : Asset}
    {pool : Account}
    (located : config.pathPool isBid asset1 asset2 = .ok pool) :
    pool = config.hopPool isBid asset1 asset2 := by
  cases isBid <;>
    simp only [pathPool, Bool.false_eq_true, ↓reduceIte, poolAddress,
      bind_eq_ok_iff, poolId_eq_ok_iff, Except.ok.injEq] at located
  all_goals
    obtain ⟨_, ⟨_, rfl⟩, rfl⟩ := located
    rfl

omit [DecidableEq Account] in
/-- The pool of a path is the one of base and quote asset on either side. -/
theorem address_of_pathPool
    {isBid : Bool}
    {base quote : Asset}
    {pool : Account}
    (located :
      config.pathPool isBid (if isBid then quote else base)
        (if isBid then base else quote) = .ok pool) :
    pool = config.address (base, quote) := by
  rw [hopPool_of_pathPool located]
  cases isBid <;> rfl

/-- Filling from the pool is one swap along the path of the side. -/
theorem swap_of_doFillPool
    {isBid : Bool}
    {orderer : Account}
    {quantity : BitVec w}
    {base quote : Asset}
    (filled :
      config.doFillPool isBid orderer quantity base quote ledger =
        .ok next) :
    ∃ baseReserve quoteReserve amount,
      config.getReserves ledger base quote =
          .ok (baseReserve, quoteReserve) ∧
        config.swapAmount isBid quantity baseReserve quoteReserve =
          .ok amount ∧
        config.swap isBid orderer
          (if isBid then [(quote, amount), (base, quantity)]
            else [(base, quantity), (quote, amount)])
          orderer false ledger = .ok next := by
  cases isBid with
  | true =>
      simp only [doFillPool, ↓reduceIte, doSwapTokensForExactTokens,
        bind_eq_ok_iff, Except.ok.injEq] at filled
      obtain ⟨_, ⟨_, _, _, _, _, _, path, computed, _, _, _, _, _, swapped,
        rfl⟩, rfl⟩ := filled
      obtain ⟨baseReserve, quoteReserve, amount, reserves, priced, rfl⟩ :=
        balancePathFromAmountOut_pair computed
      exact ⟨baseReserve, quoteReserve, amount, reserves, priced, swapped⟩
  | false =>
      simp only [doFillPool, Bool.false_eq_true, ↓reduceIte,
        doSwapExactTokensForTokens, bind_eq_ok_iff,
        Except.ok.injEq] at filled
      obtain ⟨_, ⟨_, _, _, _, _, _, path, computed, _, _, _, _, _, swapped,
        rfl⟩, rfl⟩ := filled
      obtain ⟨baseReserve, quoteReserve, amount, reserves, priced, rfl⟩ :=
        balancePathFromAmountIn_pair computed
      exact ⟨baseReserve, quoteReserve, amount, reserves, priced, swapped⟩

/-- Filling from the pool is a trade between the orderer and the pool. -/
theorem doFillPool_eq_ok
    {isBid : Bool}
    {orderer : Account}
    {quantity : BitVec w}
    {base quote : Asset}
    (filled :
      config.doFillPool isBid orderer quantity base quote ledger =
        .ok next) :
    ∃ baseReserve quoteReserve amount,
      config.getReserves ledger base quote =
          .ok (baseReserve, quoteReserve) ∧
        config.swapAmount isBid quantity baseReserve quoteReserve =
          .ok amount ∧
        ledger.Trades next base quote
          (if isBid then orderer else config.address (base, quote))
          (if isBid then config.address (base, quote) else orderer)
          quantity.toNat amount.toNat ∧
        next.frozen = ledger.frozen := by
  obtain ⟨baseReserve, quoteReserve, amount, reserves, priced, swapped⟩ :=
    swap_of_doFillPool filled
  cases isBid with
  | true =>
      obtain ⟨pool, located, moved, frozen⟩ := swap_moves swapped
      rw [address_of_pathPool located] at moved
      refine ⟨baseReserve, quoteReserve, amount, reserves, priced, ?_, frozen⟩
      rw [add_comm, add_comm (Ledger.flow quote _ _)] at moved
      exact moved
  | false =>
      obtain ⟨pool, located, moved, frozen⟩ := swap_moves swapped
      rw [address_of_pathPool located] at moved
      exact ⟨baseReserve, quoteReserve, amount, reserves, priced, moved,
        frozen⟩

/-- The pool does not fill an empty quantity. -/
theorem ne_zero_of_doFillPool
    {isBid : Bool}
    {orderer : Account}
    {quantity : BitVec w}
    {base quote : Asset}
    (filled :
      config.doFillPool isBid orderer quantity base quote ledger =
        .ok next) : quantity ≠ 0 := by
  rintro rfl
  cases isBid <;>
    simp [doFillPool, doSwapTokensForExactTokens,
      doSwapExactTokensForTokens, bind_eq_ok_iff] at filled

omit [DecidableEq Account] [DecidableEq Asset] in
/-- A swap never takes all that the pool has. -/
theorem lt_of_getAmountIn
    {amountOut reserveIn reserveOut amountIn : BitVec w}
    (priced :
      config.getAmountIn amountOut reserveIn reserveOut = .ok amountIn) :
    amountOut.toNat < reserveOut.toNat := by
  simp only [getAmountIn, bind_eq_ok_iff, ensure_eq_ok_iff,
    exists_const] at priced
  exact BitVec.lt_def.mp (BitVec.not_le.mp priced.2.1)

/-- A swap leaves the accounts of others alone. -/
theorem balance_of_doFillPool
    {isBid : Bool}
    {orderer who : Account}
    {quantity : BitVec w}
    {base quote : Asset}
    (otherOrderer : orderer ≠ who)
    (otherPool : config.address (base, quote) ≠ who)
    (filled :
      config.doFillPool isBid orderer quantity base quote ledger = .ok next)
    (asset : Asset) :
    next.balance asset who = ledger.balance asset who := by
  obtain ⟨_, _, _, _, _, trades, _⟩ := doFillPool_eq_ok filled
  have moved := trades asset who
  refine BitVec.eq_of_toNat_eq ?_
  cases isBid <;>
    simpa [Ledger.flow, otherOrderer.symm, otherPool.symm] using moved

/-- The balances of the pool before and after it filled a quantity. -/
theorem balances_of_doFillPool
    (lawful : config.Lawful)
    {isBid : Bool}
    {orderer : Account}
    {quantity : BitVec w}
    {base quote : Asset}
    (otherOrderer : orderer ≠ config.address (base, quote))
    (filled :
      config.doFillPool isBid orderer quantity base quote ledger =
        .ok next) :
    ∃ baseReserve quoteReserve amount,
      config.getReserves ledger base quote =
          .ok (baseReserve, quoteReserve) ∧
        config.swapAmount isBid quantity baseReserve quoteReserve =
          .ok amount ∧
        ledger.balance base (config.address (base, quote)) =
          baseReserve ∧
        ledger.balance quote (config.address (base, quote)) =
          quoteReserve ∧
        (next.balance base (config.address (base, quote))).toNat =
          (if isBid then baseReserve.toNat - quantity.toNat
          else baseReserve.toNat + quantity.toNat) ∧
        (next.balance quote (config.address (base, quote))).toNat =
          if isBid then quoteReserve.toNat + amount.toNat
          else quoteReserve.toNat - amount.toNat := by
  obtain ⟨baseReserve, quoteReserve, amount, reserves, priced, trades, _⟩ :=
    doFillPool_eq_ok filled
  obtain ⟨different, _, _, baseHeld, quoteHeld⟩ :=
    getReserves_eq_ok_iff.mp reserves
  rw [getBalance, lawful.poolBalance] at baseHeld quoteHeld
  have baseMoved := trades base (config.address (base, quote))
  have quoteMoved := trades quote (config.address (base, quote))
  refine ⟨baseReserve, quoteReserve, amount, reserves, priced, baseHeld,
    quoteHeld, ?_⟩
  cases isBid <;>
    simp only [Bool.false_eq_true, ↓reduceIte, Pi.add_apply, Ledger.flow,
      different, different.symm, otherOrderer.symm, and_true, and_false,
      and_self, Nat.add_zero, baseHeld, quoteHeld]
      at baseMoved quoteMoved ⊢ <;>
    omega

end Effects

end Config

end HybridOrderbook
