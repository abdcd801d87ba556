import HybridOrderbook.Calls

namespace HybridOrderbook

open Library

/-!
# The two pools of a pair of assets

With the locator of the runtime, the pool of `(a, b)` and the pool of
`(b, a)` are different accounts.  The functions that price a path, the one
that executes it and the quotes for clients each choose one of the two.
-/

variable {w : Nat} {Account Asset : Type} [DecidableEq Account]
  [DecidableEq Asset]

omit [DecidableEq Asset] in
/-- Split a credit in two. -/
def Credit.split (credit : Credit w Asset) (amount : BitVec w) :
    Credit w Asset × Credit w Asset :=
  let first := if amount ≤ credit.amount then amount else credit.amount
  (⟨credit.asset, first⟩, ⟨credit.asset, credit.amount - first⟩)

namespace Config

section Functions

variable (config : Config w Account Asset)

/-- The closure `inspect_path` of the swap of an exact credit. -/
def inspectPathFromCredit
    (path : List Asset)
    (creditIn : Credit w Asset)
    (amountOutMin : Option (BitVec w))
    (ledger : Ledger w Account Asset) :
    Outcome (BalancePath w Asset × BitVec w) := do
  ensure (path.head? = some creditIn.asset) .invalidPath
  ensure (creditIn.amount ≠ 0) .zeroAmount
  ensure (amountOutMin.all (· ≠ 0) = true) .zeroAmount
  config.validateSwapPath path
  let path ← config.balancePathFromAmountIn ledger creditIn.amount path
  let (_, amountOut) ← okOr path.getLast? .invalidPath
  ensure (amountOutMin.all (amountOut ≥ ·) = true)
    .providedMinimumNotSufficientForSwap
  .ok (path, amountOut)

/--
Swap exactly `creditIn` of asset `path[0]` for asset `path[last]`.  An error
comes with the credit to return.
-/
def doSwapExactCreditTokensForTokens
    (path : List Asset)
    (creditIn : Credit w Asset)
    (amountOutMin : Option (BitVec w))
    (ledger : Ledger w Account Asset) :
    Except (Credit w Asset × Fault PalletError)
      (Credit w Asset × Ledger w Account Asset) :=
  match config.inspectPathFromCredit path creditIn amountOutMin ledger with
  | .error fault => .error (creditIn, fault)
  | .ok (path, _) => config.creditSwap true creditIn path ledger

/-- The closure `inspect_path` of the swap for an exact amount. -/
def inspectPathToAmount
    (path : List Asset)
    (creditIn : Credit w Asset)
    (amountOut : BitVec w)
    (ledger : Ledger w Account Asset) :
    Outcome (BalancePath w Asset × BitVec w) := do
  ensure (path.head? = some creditIn.asset) .invalidPath
  ensure (creditIn.amount > 0) .zeroAmount
  ensure (amountOut > 0) .zeroAmount
  config.validateSwapPath path
  let path ← config.balancePathFromAmountOut ledger amountOut path
  let (_, amountIn) ← okOr path.head? .invalidPath
  ensure (amountIn ≤ creditIn.amount) .providedMaximumNotSufficientForSwap
  .ok (path, amountIn)

/--
Swap a portion of `creditIn` of asset `path[0]` for `amountOut` of asset
`path[last]`, and give back the change.
-/
def doSwapCreditTokensForExactTokens
    (path : List Asset)
    (creditIn : Credit w Asset)
    (amountOut : BitVec w)
    (ledger : Ledger w Account Asset) :
    Except (Credit w Asset × Fault PalletError)
      ((Credit w Asset × Credit w Asset) × Ledger w Account Asset) :=
  match config.inspectPathToAmount path creditIn amountOut ledger with
  | .error fault => .error (creditIn, fault)
  | .ok (path, amountIn) =>
      let (creditIn, creditChange) := creditIn.split amountIn
      match config.creditSwap false creditIn path ledger with
      | .error failed => .error failed
      | .ok (creditOut, ledger) => .ok ((creditOut, creditChange), ledger)

/-- What an amount would be swapped for. -/
def quotePriceExactTokensForTokens
    (ledger : Ledger w Account Asset)
    (asset1 asset2 : Asset)
    (amount : BitVec w)
    (includeFee : Bool) : Option (BitVec w) := do
  let poolAccount ← (config.poolAddress asset1 asset2).toOption
  let balance1 := config.getBalance ledger poolAccount asset1
  let balance2 := config.getBalance ledger poolAccount asset2
  if balance1 ≠ 0 then
    if includeFee then
      (config.getAmountOut amount balance1 balance2).toOption
    else
      (quote amount balance1 balance2).toOption
  else
    none

/-- What would be swapped for an amount. -/
def quotePriceTokensForExactTokens
    (ledger : Ledger w Account Asset)
    (asset1 asset2 : Asset)
    (amount : BitVec w)
    (includeFee : Bool) : Option (BitVec w) := do
  let poolAccount ← (config.poolAddress asset1 asset2).toOption
  let balance1 := config.getBalance ledger poolAccount asset1
  let balance2 := config.getBalance ledger poolAccount asset2
  if balance1 ≠ 0 then
    if includeFee then
      (config.getAmountIn amount balance1 balance2).toOption
    else
      (quote amount balance2 balance1).toOption
  else
    none

end Functions

variable {config : Config w Account Asset}
  {ledger next : Ledger w Account Asset} {asset1 asset2 : Asset}

section Credits

/--
A swap of credits trades with one pool: it pays out, it receives the credit,
the product of its reserves does not fall, and no other pool is touched.
-/
structure TradesWith
    (config : Config w Account Asset)
    (ledger next : Ledger w Account Asset)
    (pool : Account)
    (asset1 asset2 : Asset)
    (amountIn amountOut : BitVec w) : Prop where
  moves :
    ledger.Moves next (Ledger.flow asset2 pool amountOut.toNat)
      (Ledger.flow asset1 pool amountIn.toNat)
  product :
    (ledger.balance asset1 pool).toNat * (ledger.balance asset2 pool).toNat ≤
      (next.balance asset1 pool).toNat * (next.balance asset2 pool).toNat
  others :
    ∀ id asset, config.address id ≠ pool →
      next.balance asset (config.address id) =
        ledger.balance asset (config.address id)

/-- Executing a pair of assets moves both amounts at one pool. -/
theorem creditSwap_moves
    {isBid : Bool}
    {creditOut : Credit w Asset}
    {amountIn amountOut : BitVec w}
    (swapped :
      config.creditSwap isBid ⟨asset1, amountIn⟩
        [(asset1, amountIn), (asset2, amountOut)] ledger =
          .ok (creditOut, next)) :
    creditOut = ⟨asset2, amountOut⟩ ∧ asset1 ≠ asset2 ∧
      ledger.Moves next
        (Ledger.flow asset2
          (config.address
            (if isBid then (asset2, asset1) else (asset1, asset2)))
          amountOut.toNat)
        (Ledger.flow asset1
          (config.address
            (if isBid then (asset2, asset1) else (asset1, asset2)))
          amountIn.toNat) := by
  obtain ⟨pool, middle, located, paid, received⟩ := creditSwap_eq_ok swapped
  obtain ⟨rfl, paidMoves, _⟩ := withdraw_moves paid
  obtain ⟨receivedMoves, _⟩ := resolve_moves received
  have moved := paidMoves.trans receivedMoves
  rw [add_zero, zero_add] at moved
  cases isBid <;>
    simp only [pathPool, Bool.false_eq_true, ↓reduceIte, poolAddress,
      bind_eq_ok_iff, poolId_eq_ok_iff, Except.ok.injEq] at located ⊢
  all_goals
    obtain ⟨_, ⟨different, rfl⟩, rfl⟩ := located
  · exact ⟨trivial, different, moved⟩
  · exact ⟨trivial, different.symm, moved⟩

/-- A trade with one pool is not a trade with another. -/
theorem not_tradesWith
    {pool other : Account}
    {amountIn amountOut : BitVec w}
    (different : other ≠ pool)
    (assets : asset1 ≠ asset2)
    (some : amountIn ≠ 0)
    (moves :
      ledger.Moves next (Ledger.flow asset2 pool amountOut.toNat)
        (Ledger.flow asset1 pool amountIn.toNat)) :
    ¬ config.TradesWith ledger next other asset1 asset2 amountIn
      amountOut := by
  intro trades
  have here := moves asset1 other
  have there := trades.moves asset1 other
  have nonzero : amountIn.toNat ≠ 0 := fun zero =>
    some (BitVec.eq_of_toNat_eq zero)
  simp only [Ledger.flow, assets, different, and_false, false_and, and_self,
    ↓reduceIte] at here there
  omega

omit [DecidableEq Account] [DecidableEq Asset] in
/-- An amount in is never zero. -/
theorem getAmountIn_ne_zero
    {amountOut reserveIn reserveOut amountIn : BitVec w}
    (priced :
      config.getAmountIn amountOut reserveIn reserveOut = .ok amountIn) :
    amountIn ≠ 0 := by
  simp only [getAmountIn, bind_eq_ok_iff, higher_eq_ok_iff] at priced
  obtain ⟨_, _, _, _, _, _, _, _, _, _, _, _, quotient, _, result, ⟨_, rfl⟩,
    converted⟩ := priced
  rintro rfl
  have zero := toNat_of_tryIntoUnit converted
  simp at zero

/-- An exact credit is priced by one pool and paid into the other. -/
theorem doSwapExactCreditTokensForTokens_eq_ok
    {creditIn creditOut : Credit w Asset}
    {amountOutMin : Option (BitVec w)}
    (swapped :
      config.doSwapExactCreditTokensForTokens [asset1, asset2] creditIn
        amountOutMin ledger = .ok (creditOut, next)) :
    ∃ reserveIn reserveOut,
      asset1 ≠ asset2 ∧ creditIn.amount ≠ 0 ∧
        config.getReserves ledger asset1 asset2 =
          .ok (reserveIn, reserveOut) ∧
        config.getAmountOut creditIn.amount reserveIn reserveOut =
          .ok creditOut.amount ∧
        ledger.Moves next
          (Ledger.flow asset2 (config.address (asset2, asset1))
            creditOut.amount.toNat)
          (Ledger.flow asset1 (config.address (asset2, asset1))
            creditIn.amount.toNat) := by
  unfold doSwapExactCreditTokensForTokens at swapped
  split at swapped
  · cases swapped
  · rename_i path _ inspected
    simp only [inspectPathFromCredit, bind_eq_ok_iff, ensure_eq_ok_iff,
      exists_const, List.head?_cons, Option.some.injEq, Except.ok.injEq,
      Prod.mk.injEq] at inspected
    obtain ⟨sameAsset, some, _, _, _, _, priced, _, _, _, rfl, _⟩ := inspected
    obtain ⟨reserveIn, reserveOut, amountOut, reserves, amounts, rfl⟩ :=
      balancePathFromAmountIn_pair priced
    rcases creditIn with ⟨asset, amount⟩
    cases sameAsset
    obtain ⟨rfl, different, moved⟩ := creditSwap_moves swapped
    exact ⟨reserveIn, reserveOut, different, some, reserves, amounts, moved⟩

/-- Credit for an exact amount is priced by one pool, paid into the other. -/
theorem doSwapCreditTokensForExactTokens_eq_ok
    {creditIn creditOut creditChange : Credit w Asset}
    {amountOut : BitVec w}
    (swapped :
      config.doSwapCreditTokensForExactTokens [asset1, asset2] creditIn
        amountOut ledger = .ok ((creditOut, creditChange), next)) :
    ∃ reserveIn reserveOut amountIn,
      asset1 ≠ asset2 ∧ amountIn ≠ 0 ∧ amountIn ≤ creditIn.amount ∧
        creditOut.amount = amountOut ∧
        creditChange.amount = creditIn.amount - amountIn ∧
        config.getReserves ledger asset2 asset1 =
          .ok (reserveOut, reserveIn) ∧
        config.getAmountIn amountOut reserveIn reserveOut = .ok amountIn ∧
        ledger.Moves next
          (Ledger.flow asset2 (config.address (asset1, asset2))
            amountOut.toNat)
          (Ledger.flow asset1 (config.address (asset1, asset2))
            amountIn.toNat) := by
  unfold doSwapCreditTokensForExactTokens at swapped
  split at swapped
  · cases swapped
  · rename_i path amountIn inspected
    simp only [inspectPathToAmount, bind_eq_ok_iff, ensure_eq_ok_iff,
      exists_const, List.head?_cons, Option.some.injEq, Except.ok.injEq,
      Prod.mk.injEq, okOr_eq_ok_iff] at inspected
    obtain ⟨sameAsset, _, _, _, _, _, priced, ⟨_, _⟩, first, covered, rfl,
      rfl⟩ := inspected
    obtain ⟨reserveOut, reserveIn, amountIn, reserves, amounts, rfl⟩ :=
      balancePathFromAmountOut_pair priced
    simp only [List.head?_cons, Option.some.injEq, Prod.mk.injEq] at first
    obtain ⟨rfl, rfl⟩ := first
    simp only [Credit.split, covered, ↓reduceIte, sameAsset] at swapped
    split at swapped
    · cases swapped
    · rename_i executed
      cases swapped
      rw [← sameAsset] at executed
      obtain ⟨rfl, different, moved⟩ := creditSwap_moves executed
      exact ⟨reserveIn, reserveOut, amountIn, different,
        getAmountIn_ne_zero amounts, covered, rfl, rfl, reserves, amounts,
        moved⟩

/--
A credit swap on a pair of assets never trades with the pool that priced it:
it trades with the pool of the pair in the other order.
-/
theorem creditSwaps_not_tradesWith_pricedPool
    (lawful : config.Lawful)
    (asset1 asset2 : Asset)
    (creditIn : Credit w Asset)
    (ledger next : Ledger w Account Asset) :
    (∀ amountOutMin creditOut,
      config.doSwapExactCreditTokensForTokens [asset1, asset2] creditIn
          amountOutMin ledger = .ok (creditOut, next) →
        ∃ reserveIn reserveOut,
          config.getReserves ledger asset1 asset2 =
              .ok (reserveIn, reserveOut) ∧
            config.getAmountOut creditIn.amount reserveIn reserveOut =
              .ok creditOut.amount ∧
            ledger.Moves next
              (Ledger.flow asset2 (config.address (asset2, asset1))
                creditOut.amount.toNat)
              (Ledger.flow asset1 (config.address (asset2, asset1))
                creditIn.amount.toNat) ∧
            ¬ config.TradesWith ledger next
              (config.address (asset1, asset2)) asset1 asset2
              creditIn.amount creditOut.amount) ∧
      ∀ amountOut creditOut creditChange,
        config.doSwapCreditTokensForExactTokens [asset1, asset2] creditIn
            amountOut ledger = .ok ((creditOut, creditChange), next) →
          ∃ reserveIn reserveOut amountIn,
            config.getReserves ledger asset2 asset1 =
                .ok (reserveOut, reserveIn) ∧
              config.getAmountIn amountOut reserveIn reserveOut =
                .ok amountIn ∧
              ledger.Moves next
                (Ledger.flow asset2 (config.address (asset1, asset2))
                  amountOut.toNat)
                (Ledger.flow asset1 (config.address (asset1, asset2))
                  amountIn.toNat) ∧
              ¬ config.TradesWith ledger next
                (config.address (asset2, asset1)) asset1 asset2 amountIn
                amountOut := by
  have accounts :
      asset1 ≠ asset2 →
        config.address (asset1, asset2) ≠ config.address (asset2, asset1) :=
    fun different same =>
      different (Prod.mk.inj (lawful.addressInjective same)).1
  constructor
  · intro amountOutMin creditOut swapped
    obtain ⟨reserveIn, reserveOut, different, some, reserves, amounts,
      moved⟩ := doSwapExactCreditTokensForTokens_eq_ok swapped
    exact ⟨reserveIn, reserveOut, reserves, amounts, moved,
      not_tradesWith (accounts different) different some moved⟩
  · intro amountOut creditOut creditChange swapped
    obtain ⟨reserveIn, reserveOut, amountIn, different, some, _, _, _,
      reserves, amounts, moved⟩ :=
      doSwapCreditTokensForExactTokens_eq_ok swapped
    exact ⟨reserveIn, reserveOut, amountIn, reserves, amounts, moved,
      not_tradesWith (accounts different).symm different some moved⟩

/-- Both pools of assets 0 and 1, with the given reserves of each. -/
def mockPools
    (reserves reversed : BitVec 64 × BitVec 64) :
    Ledger 64 MockAccount Nat where
  balance asset who :=
    if who = .inr (0, 1) then
      if asset = 0 then reserves.1 else if asset = 1 then reserves.2 else 0
    else if who = .inr (1, 0) then
      if asset = 0 then reversed.1 else if asset = 1 then reversed.2 else 0
    else
      1000000
  frozen _ _ := 0
  lpIssuance _ := 0
  lpBalance _ _ := 0

/-- A swap that the pool (0, 1) priced drains the pool (1, 0). -/
theorem creditSwap_drains_other_pool :
    ∃ (creditOut : Credit 64 Nat) (next : Ledger 64 MockAccount Nat),
      mock.doSwapExactCreditTokensForTokens [0, 1] ⟨0, 100⟩ none
          (mockPools (1000, 1000) (10000, 100)) = .ok (creditOut, next) ∧
        creditOut.amount = 90 ∧
        next.balance 1 (mock.address (0, 1)) = 1000 ∧
        next.balance 0 (mock.address (1, 0)) = 10100 ∧
        next.balance 1 (mock.address (1, 0)) = 10 ∧
        ¬ mock.TradesWith (mockPools (1000, 1000) (10000, 100)) next
          (mock.address (0, 1)) 0 1 100 creditOut.amount := by
  have observed :
      (mock.doSwapExactCreditTokensForTokens [0, 1] ⟨0, 100⟩ none
          (mockPools (1000, 1000) (10000, 100))).toOption.map
        (fun result => (result.1.amount,
          result.2.balance 1 (mock.address (0, 1)),
          result.2.balance 0 (mock.address (1, 0)),
          result.2.balance 1 (mock.address (1, 0)))) =
        some (90, 1000, 10100, 10) := by
    decide
  obtain ⟨⟨creditOut, next⟩, swapped, seen⟩ :=
    Option.map_eq_some_iff.mp observed
  simp only [Prod.mk.injEq] at seen
  obtain ⟨amount, priced, received, paid⟩ := seen
  refine ⟨creditOut, next, toOption_eq_some_iff.mp swapped, amount, priced,
    received, paid, fun trades => ?_⟩
  have untouched := trades.others (1, 0) 1 (by decide)
  rw [paid] at untouched
  exact absurd untouched (by decide)

/-- Swaps in both directions, each priced by one pool and paid by the other. -/
theorem creditSwaps_not_tradesWith_pricedPool_mock :
    ∃ (creditOut paid change : Credit 64 Nat)
        (next after : Ledger 64 MockAccount Nat),
      mock.doSwapExactCreditTokensForTokens [0, 1] ⟨0, 100⟩ none
          (mockPools (1000, 1000) (10000, 100)) = .ok (creditOut, next) ∧
        ¬ mock.TradesWith (mockPools (1000, 1000) (10000, 100)) next
          (mock.address (0, 1)) 0 1 100 creditOut.amount ∧
        mock.doSwapCreditTokensForExactTokens [0, 1] ⟨0, 20000⟩ 50
          (mockPools (1000, 1000) (10000, 100)) =
            .ok ((paid, change), after) ∧
        ∃ amountIn,
          ¬ mock.TradesWith (mockPools (1000, 1000) (10000, 100)) after
            (mock.address (1, 0)) 0 1 amountIn 50 := by
  have exactIn :
      (mock.doSwapExactCreditTokensForTokens [0, 1] ⟨0, 100⟩ none
        (mockPools (1000, 1000) (10000, 100))).isOk = true := by
    decide
  have exactOut :
      (mock.doSwapCreditTokensForExactTokens [0, 1] ⟨0, 20000⟩ 50
        (mockPools (1000, 1000) (10000, 100))).isOk = true := by
    decide
  obtain ⟨⟨creditOut, next⟩, swapped⟩ := exists_ok_of_isOk exactIn
  obtain ⟨⟨⟨paid, change⟩, after⟩, swappedBack⟩ := exists_ok_of_isOk exactOut
  obtain ⟨_, _, _, _, _, notPriced⟩ :=
    (creditSwaps_not_tradesWith_pricedPool mock_lawful 0 1 ⟨0, 100⟩ _
      next).1 none creditOut swapped
  obtain ⟨_, _, amountIn, _, _, _, notPricedBack⟩ :=
    (creditSwaps_not_tradesWith_pricedPool mock_lawful 0 1 ⟨0, 20000⟩ _
      after).2 50 paid change swappedBack
  exact ⟨creditOut, paid, change, next, after, swapped, notPriced,
    swappedBack, amountIn, notPricedBack⟩

end Credits

section Quotes

omit [DecidableEq Account] in
theorem poolAddress_of_ne
    (different : asset1 ≠ asset2) :
    config.poolAddress asset1 asset2 =
      .ok (config.address (asset1, asset2)) := by
  simp [poolAddress, poolId, different, bind, Except.bind]

omit [DecidableEq Account] in
/-- Quotes are amounts at the pool of the two assets in this order. -/
theorem quotes_of_ne
    (different : asset1 ≠ asset2)
    (amount : BitVec w) :
    config.quotePriceExactTokensForTokens ledger asset1 asset2 amount true =
        (config.getAmountOut amount
          (config.getBalance ledger (config.address (asset1, asset2)) asset1)
          (config.getBalance ledger (config.address (asset1, asset2))
            asset2)).toOption ∧
      config.quotePriceTokensForExactTokens ledger asset1 asset2 amount
          true =
        (config.getAmountIn amount
          (config.getBalance ledger (config.address (asset1, asset2)) asset1)
          (config.getBalance ledger (config.address (asset1, asset2))
            asset2)).toOption := by
  have located :
      config.poolAddress asset1 asset2 =
        .ok (config.address (asset1, asset2)) := poolAddress_of_ne different
  unfold quotePriceExactTokensForTokens quotePriceTokensForExactTokens
  by_cases empty :
      config.getBalance ledger (config.address (asset1, asset2)) asset1 = 0#w
  · simp [located, Except.toOption, empty, getAmountOut, getAmountIn, ensure,
      bind, Except.bind]
  · simp [located, Except.toOption, empty]

/-- The reserves that swapping a pair for an exact amount is priced by. -/
theorem doSwapTokensForExactTokens_eq_ok
    {sender sendTo : Account}
    {amount amountIn : BitVec w}
    {amountInMax : Option (BitVec w)}
    {keepAlive : Bool}
    (swapped :
      config.doSwapTokensForExactTokens sender [asset1, asset2] amount
        amountInMax sendTo keepAlive ledger = .ok (amountIn, next)) :
    ∃ reserve1 reserve2,
      config.getReserves ledger asset2 asset1 = .ok (reserve2, reserve1) ∧
        config.getAmountIn amount reserve1 reserve2 = .ok amountIn := by
  simp only [doSwapTokensForExactTokens, bind_eq_ok_iff, Except.ok.injEq,
    Prod.mk.injEq, okOr_eq_ok_iff] at swapped
  obtain ⟨_, _, _, _, _, _, path, computed, ⟨_, _⟩, first, _, _, _, _, rfl,
    _⟩ := swapped
  obtain ⟨reserve2, reserve1, found, reserves, priced, rfl⟩ :=
    balancePathFromAmountOut_pair computed
  simp only [List.head?_cons, Option.some.injEq, Prod.mk.injEq] at first
  obtain ⟨_, rfl⟩ := first
  exact ⟨reserve1, reserve2, reserves, priced⟩

/-- The reserves that swapping an exact amount of a pair is priced by. -/
theorem doSwapExactTokensForTokens_eq_ok
    {sender sendTo : Account}
    {amount amountOut : BitVec w}
    {amountOutMin : Option (BitVec w)}
    {keepAlive : Bool}
    (swapped :
      config.doSwapExactTokensForTokens sender [asset1, asset2] amount
        amountOutMin sendTo keepAlive ledger = .ok (amountOut, next)) :
    ∃ reserve1 reserve2,
      config.getReserves ledger asset1 asset2 = .ok (reserve1, reserve2) ∧
        config.getAmountOut amount reserve1 reserve2 = .ok amountOut := by
  simp only [doSwapExactTokensForTokens, bind_eq_ok_iff, Except.ok.injEq,
    Prod.mk.injEq, okOr_eq_ok_iff] at swapped
  obtain ⟨_, _, _, _, _, _, path, computed, ⟨_, _⟩, last, _, _, _, _, rfl,
    _⟩ := swapped
  obtain ⟨reserve1, reserve2, found, reserves, priced, rfl⟩ :=
    balancePathFromAmountIn_pair computed
  simp only [List.getLast?_cons_cons, List.getLast?_singleton,
    Option.some.injEq, Prod.mk.injEq] at last
  obtain ⟨_, rfl⟩ := last
  exact ⟨reserve1, reserve2, reserves, priced⟩

/--
The pools of both orders of the assets ask the same for an amount of the
second asset.
-/
def QuotesAgree
    (config : Config w Account Asset)
    (ledger : Ledger w Account Asset)
    (asset1 asset2 : Asset)
    (amount : BitVec w) : Prop :=
  config.getAmountIn amount
      (config.getBalance ledger (config.address (asset1, asset2)) asset1)
      (config.getBalance ledger (config.address (asset1, asset2)) asset2) =
    config.getAmountIn amount
      (config.getBalance ledger (config.address (asset2, asset1)) asset1)
      (config.getBalance ledger (config.address (asset2, asset1)) asset2)

/--
A quote for an exact amount in is what the swap returns; a quote for an exact
amount out is what the swap returns if and only if both pools of the pair ask
the same.
-/
theorem quotes_eq_swaps_iff
    (config : Config w Account Asset)
    (ledger : Ledger w Account Asset)
    (asset1 asset2 : Asset)
    (amount : BitVec w)
    (sender sendTo : Account)
    (keepAlive : Bool) :
    (∀ amountOutMin amountOut next,
      config.doSwapExactTokensForTokens sender [asset1, asset2] amount
          amountOutMin sendTo keepAlive ledger = .ok (amountOut, next) →
        config.quotePriceExactTokensForTokens ledger asset1 asset2 amount
          true = some amountOut) ∧
      ∀ amountInMax amountIn next,
        config.doSwapTokensForExactTokens sender [asset1, asset2] amount
            amountInMax sendTo keepAlive ledger = .ok (amountIn, next) →
          (config.quotePriceTokensForExactTokens ledger asset1 asset2 amount
              true = some amountIn ↔
            config.QuotesAgree ledger asset1 asset2 amount) := by
  constructor
  · intro amountOutMin amountOut next swapped
    obtain ⟨reserve1, reserve2, reserves, priced⟩ :=
      doSwapExactTokensForTokens_eq_ok swapped
    obtain ⟨different, _, _, rfl, rfl⟩ := getReserves_eq_ok_iff.mp reserves
    rw [(quotes_of_ne different amount).1, priced]
    rfl
  · intro amountInMax amountIn next swapped
    obtain ⟨reserve1, reserve2, reserves, priced⟩ :=
      doSwapTokensForExactTokens_eq_ok swapped
    obtain ⟨different, _, _, rfl, rfl⟩ := getReserves_eq_ok_iff.mp reserves
    rw [(quotes_of_ne different.symm amount).2, QuotesAgree, priced,
      toOption_eq_some_iff]

/-- Both quotes at pools that agree. -/
theorem quotes_eq_swaps_mock :
    mock.quotePriceExactTokensForTokens (mockPools (1000, 1000) (1000, 1000))
        0 1 100 true = some 90 ∧
      mock.quotePriceTokensForExactTokens
        (mockPools (1000, 1000) (1000, 1000)) 0 1 100 true = some 112 := by
  have exactIn :
      (mock.doSwapExactTokensForTokens (.inl 1) [0, 1] 100 none (.inl 2) true
        (mockPools (1000, 1000) (1000, 1000))).toOption.map Prod.fst =
        some 90 := by
    decide
  have exactOut :
      (mock.doSwapTokensForExactTokens (.inl 1) [0, 1] 100 none (.inl 2) true
        (mockPools (1000, 1000) (1000, 1000))).toOption.map Prod.fst =
        some 112 := by
    decide
  obtain ⟨⟨amountOut, next⟩, swapped, rfl⟩ :=
    Option.map_eq_some_iff.mp exactIn
  obtain ⟨⟨amountIn, after⟩, swappedBack, rfl⟩ :=
    Option.map_eq_some_iff.mp exactOut
  have quotes := quotes_eq_swaps_iff mock
    (mockPools (1000, 1000) (1000, 1000)) 0 1 100 (.inl 1) (.inl 2) true
  exact ⟨quotes.1 none _ next (toOption_eq_some_iff.mp swapped),
    (quotes.2 none _ after (toOption_eq_some_iff.mp swappedBack)).mpr rfl⟩

/-- The quote asks the pool (0, 1) and the swap pays the pool (1, 0). -/
theorem quote_differs_from_swap :
    (mock.doSwapTokensForExactTokens (.inl 1) [0, 1] 50 none (.inl 2) true
        (mockPools (1000, 1000) (10000, 100))).toOption.map Prod.fst =
      some 10031 ∧
      mock.quotePriceTokensForExactTokens
        (mockPools (1000, 1000) (10000, 100)) 0 1 50 true = some 53 := by
  decide

end Quotes

end Config

end HybridOrderbook
