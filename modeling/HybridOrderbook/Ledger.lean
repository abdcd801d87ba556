import HybridOrderbook.Pool

namespace HybridOrderbook

open Library

/-!
# The asset registries

The pallet keeps no funds itself.  It calls three registries of the runtime:
`T::Assets` for balances, `T::AssetsFreezer` for the amounts frozen under
`FreezeReason::LimitOrder`, and `T::PoolAssets` for liquidity tokens.

Their code is not part of the pallet.  Here each call either does exactly
what its interface promises or fails.  When a registry refuses is left open:
`Config.allows` decides it, from the call and the books of all registries.
-/

/-- Whether an account may be reaped by a withdrawal. -/
inductive Preservation where
  | expendable
  | preserve
  deriving Repr, DecidableEq

/-- The books of the three registries. -/
structure Ledger (w : Nat) (Account Asset : Type) where
  balance : Asset → Account → BitVec w
  -- what is frozen under `FreezeReason::LimitOrder`
  frozen : Asset → Account → BitVec w
  lpIssuance : Nat → BitVec w
  lpBalance : Nat → Account → BitVec w

/-- The calls that change the registries. -/
inductive LedgerOp (w : Nat) (Account Asset : Type) where
  | transfer
      (asset : Asset)
      (source dest : Account)
      (amount : BitVec w)
      (preservation : Preservation)
  | withdraw
      (asset : Asset)
      (who : Account)
      (value : BitVec w)
      (preservation : Preservation)
  | resolve (asset : Asset) (who : Account) (value : BitVec w)
  | increaseFrozen (asset : Asset) (who : Account) (amount : BitVec w)
  | decreaseFrozen (asset : Asset) (who : Account) (amount : BitVec w)
  | mintInto (lpToken : Nat) (who : Account) (amount : BitVec w)
  | burnFrom (lpToken : Nat) (who : Account) (amount : BitVec w)
  deriving Repr, DecidableEq

/-- The pallet's configuration, and the behaviour of the registries. -/
structure Config (w : Nat) (Account Asset : Type) where
  -- whether the build panics on overflow or wraps
  overflowChecks : Bool
  lpFee : Nat
  mintMinLiquidity : BitVec w
  orderExpiration : Nat
  maxSwapPathLength : Nat
  minimumBalance : Asset → BitVec w
  -- the account derived from a pool id
  address : Asset × Asset → Account
  reducibleBalance :
    Ledger w Account Asset → Asset → Account → Preservation → BitVec w
  allows : LedgerOp w Account Asset → Ledger w Account Asset → Bool

/-- An amount that was withdrawn and has to be resolved. -/
structure Credit (w : Nat) (Asset : Type) where
  asset : Asset
  amount : BitVec w
  deriving Repr, DecidableEq

namespace Ledger

variable {w : Nat} {Account Asset : Type} [DecidableEq Account]
  [DecidableEq Asset]

/-- Overwrite one entry of a registry's book. -/
def write
    (entries : Asset → Account → BitVec w)
    (asset : Asset)
    (who : Account)
    (value : BitVec w) : Asset → Account → BitVec w :=
  fun otherAsset other =>
    if otherAsset = asset ∧ other = who then
      value
    else
      entries otherAsset other

/-- Take an amount off a balance. -/
def debit
    (ledger : Ledger w Account Asset)
    (asset : Asset)
    (who : Account)
    (amount : BitVec w) : Ledger w Account Asset :=
  { ledger with
    balance := write ledger.balance asset who
      (ledger.balance asset who - amount) }

/-- Add an amount to a balance. -/
def credit
    (ledger : Ledger w Account Asset)
    (asset : Asset)
    (who : Account)
    (amount : BitVec w) : Ledger w Account Asset :=
  { ledger with
    balance := write ledger.balance asset who
      (ledger.balance asset who + amount) }

end Ledger

namespace Config

variable {w : Nat} {Account Asset : Type} [DecidableEq Account]
  [DecidableEq Asset] (config : Config w Account Asset)

/-- Move an amount between two accounts. -/
def transfer
    (asset : Asset)
    (source dest : Account)
    (amount : BitVec w)
    (preservation : Preservation)
    (ledger : Ledger w Account Asset) :
    Outcome (Ledger w Account Asset) := do
  ensure (config.allows (.transfer asset source dest amount preservation)
    ledger = true) .refused
  ensure (amount ≤ ledger.balance asset source) .refused
  let debited := ledger.debit asset source amount
  ensure ((debited.balance asset dest).toNat + amount.toNat < 2 ^ w) .refused
  .ok (debited.credit asset dest amount)

/-- Take an amount out of an account, as `T::Assets::withdraw` does. -/
def withdrawExact
    (asset : Asset)
    (who : Account)
    (value : BitVec w)
    (preservation : Preservation)
    (ledger : Ledger w Account Asset) :
    Outcome (Credit w Asset × Ledger w Account Asset) := do
  ensure (config.allows (.withdraw asset who value preservation)
    ledger = true) .refused
  ensure (value ≤ ledger.balance asset who) .refused
  .ok (⟨asset, value⟩, ledger.debit asset who value)

/-- Put a withdrawn amount into an account. -/
def resolve
    (who : Account)
    (credit : Credit w Asset)
    (ledger : Ledger w Account Asset) :
    Outcome (Ledger w Account Asset) := do
  ensure (config.allows (.resolve credit.asset who credit.amount)
    ledger = true) .refused
  ensure ((ledger.balance credit.asset who).toNat + credit.amount.toNat <
    2 ^ w) .refused
  .ok (ledger.credit credit.asset who credit.amount)

/-- Freeze an additional amount. -/
def increaseFrozen
    (asset : Asset)
    (who : Account)
    (amount : BitVec w)
    (ledger : Ledger w Account Asset) :
    Outcome (Ledger w Account Asset) := do
  ensure ((ledger.frozen asset who).toNat + amount.toNat < 2 ^ w)
    .arithmeticOverflow
  ensure (config.allows (.increaseFrozen asset who amount) ledger = true)
    .refused
  .ok { ledger with
    frozen := Ledger.write ledger.frozen asset who
      (ledger.frozen asset who + amount) }

/-- Thaw a frozen amount. -/
def decreaseFrozen
    (asset : Asset)
    (who : Account)
    (amount : BitVec w)
    (ledger : Ledger w Account Asset) :
    Outcome (Ledger w Account Asset) := do
  ensure (amount ≤ ledger.frozen asset who) .arithmeticUnderflow
  ensure (config.allows (.decreaseFrozen asset who amount) ledger = true)
    .refused
  .ok { ledger with
    frozen := Ledger.write ledger.frozen asset who
      (ledger.frozen asset who - amount) }

/-- Mint liquidity tokens. -/
def mintInto
    (lpToken : Nat)
    (who : Account)
    (amount : BitVec w)
    (ledger : Ledger w Account Asset) :
    Outcome (Ledger w Account Asset) := do
  ensure (config.allows (.mintInto lpToken who amount) ledger = true) .refused
  ensure ((ledger.lpIssuance lpToken).toNat + amount.toNat < 2 ^ w)
    .arithmeticOverflow
  .ok { ledger with
    lpIssuance := Function.update ledger.lpIssuance lpToken
      (ledger.lpIssuance lpToken + amount)
    lpBalance := Ledger.write ledger.lpBalance lpToken who
      (ledger.lpBalance lpToken who + amount) }

/-- Burn liquidity tokens. -/
def burnFrom
    (lpToken : Nat)
    (who : Account)
    (amount : BitVec w)
    (ledger : Ledger w Account Asset) :
    Outcome (Ledger w Account Asset) := do
  ensure (config.allows (.burnFrom lpToken who amount) ledger = true) .refused
  ensure (amount ≤ ledger.lpBalance lpToken who) .refused
  ensure (amount ≤ ledger.lpIssuance lpToken) .arithmeticOverflow
  .ok { ledger with
    lpIssuance := Function.update ledger.lpIssuance lpToken
      (ledger.lpIssuance lpToken - amount)
    lpBalance := Ledger.write ledger.lpBalance lpToken who
      (ledger.lpBalance lpToken who - amount) }

/--
What the pools rely on: the accounts of different pools are different, and a
pool can spend all it holds.
-/
structure Lawful (config : Config w Account Asset) : Prop where
  addressInjective : Function.Injective config.address
  poolBalance :
    ∀ (ledger : Ledger w Account Asset) (asset : Asset) (id : Asset × Asset),
      config.reducibleBalance ledger asset (config.address id) .expendable =
        ledger.balance asset (config.address id)

end Config

namespace Ledger

variable {w : Nat} {Account Asset : Type} [DecidableEq Account]
  [DecidableEq Asset]

/-- An amount at one entry of a book, and nothing elsewhere. -/
def flow (asset : Asset) (who : Account) (amount : Nat) :
    Asset → Account → Nat :=
  fun otherAsset other =>
    if otherAsset = asset ∧ other = who then amount else 0

@[simp] theorem flow_zero (asset : Asset) (who : Account) :
    flow asset who 0 = 0 := by
  funext otherAsset other
  simp [flow]

/-- Balances change by what is paid and what is received. -/
def Moves
    (ledger next : Ledger w Account Asset)
    (paid received : Asset → Account → Nat) : Prop :=
  ∀ asset who,
    (next.balance asset who).toNat + paid asset who =
      (ledger.balance asset who).toNat + received asset who

/-- A quantity of base asset is sold for an amount of quote asset. -/
def Trades
    (ledger next : Ledger w Account Asset)
    (base quote : Asset)
    (buyer seller : Account)
    (quantity amount : Nat) : Prop :=
  ledger.Moves next
    (flow base seller quantity + flow quote buyer amount)
    (flow base buyer quantity + flow quote seller amount)

variable {ledger middle next : Ledger w Account Asset}
  {paid received laterPaid laterReceived : Asset → Account → Nat}
  {asset : Asset} {who : Account} {amount : BitVec w}

omit [DecidableEq Account] [DecidableEq Asset] in
theorem Moves.trans
    (first : ledger.Moves middle paid received)
    (second : middle.Moves next laterPaid laterReceived) :
    ledger.Moves next (paid + laterPaid) (received + laterReceived) := by
  intro asset who
  have before := first asset who
  have after := second asset who
  simp only [Pi.add_apply]
  omega

omit [DecidableEq Account] [DecidableEq Asset] in
/-- The flows that describe the same change of balances. -/
theorem Moves.iff
    (moves : ledger.Moves next paid received) :
    ledger.Moves next laterPaid laterReceived ↔
      ∀ asset who,
        paid asset who + laterReceived asset who =
          laterPaid asset who + received asset who := by
  refine forall₂_congr fun asset who => ?_
  have moved := moves asset who
  omega

theorem debit_moves
    (covered : amount ≤ ledger.balance asset who) :
    ledger.Moves (ledger.debit asset who amount)
      (flow asset who amount.toNat) 0 := by
  intro otherAsset other
  by_cases same : otherAsset = asset ∧ other = who
  · obtain ⟨rfl, rfl⟩ := same
    have exact := BitVec.toNat_sub_of_le covered
    rw [BitVec.le_def] at covered
    simp only [debit, write, flow, and_self, ↓reduceIte, Pi.zero_apply]
    omega
  · simp [debit, write, flow, same]

theorem credit_moves
    (fits : (ledger.balance asset who).toNat + amount.toNat < 2 ^ w) :
    ledger.Moves (ledger.credit asset who amount) 0
      (flow asset who amount.toNat) := by
  intro otherAsset other
  by_cases same : otherAsset = asset ∧ other = who
  · obtain ⟨rfl, rfl⟩ := same
    simp [credit, write, flow, BitVec.toNat_add, Nat.mod_eq_of_lt fits]
  · simp [credit, write, flow, same]

end Ledger

namespace Config

variable {w : Nat} {Account Asset : Type} [DecidableEq Account]
  [DecidableEq Asset] {config : Config w Account Asset}
  {ledger next : Ledger w Account Asset} {asset : Asset} {who : Account}
  {amount : BitVec w} {preservation : Preservation}

theorem transfer_moves
    {source dest : Account}
    (transferred :
      config.transfer asset source dest amount preservation ledger =
        .ok next) :
    ledger.Moves next (Ledger.flow asset source amount.toNat)
        (Ledger.flow asset dest amount.toNat) ∧
      next.frozen = ledger.frozen := by
  simp only [transfer, bind_eq_ok_iff, ensure_eq_ok_iff, exists_const,
    Except.ok.injEq] at transferred
  obtain ⟨_, covered, fits, rfl⟩ := transferred
  have moved :=
    (Ledger.debit_moves covered).trans (Ledger.credit_moves fits)
  rw [add_zero, zero_add] at moved
  exact ⟨moved, rfl⟩

theorem withdrawExact_moves
    {credit : Credit w Asset}
    (withdrawn :
      config.withdrawExact asset who amount preservation ledger =
        .ok (credit, next)) :
    credit = ⟨asset, amount⟩ ∧
      ledger.Moves next (Ledger.flow asset who amount.toNat) 0 ∧
      next.frozen = ledger.frozen := by
  simp only [withdrawExact, bind_eq_ok_iff, ensure_eq_ok_iff, exists_const,
    Except.ok.injEq, Prod.mk.injEq] at withdrawn
  obtain ⟨_, covered, rfl, rfl⟩ := withdrawn
  exact ⟨rfl, Ledger.debit_moves covered, rfl⟩

theorem resolve_moves
    {credit : Credit w Asset}
    (resolved : config.resolve who credit ledger = .ok next) :
    ledger.Moves next 0
        (Ledger.flow credit.asset who credit.amount.toNat) ∧
      next.frozen = ledger.frozen := by
  simp only [resolve, bind_eq_ok_iff, ensure_eq_ok_iff, exists_const,
    Except.ok.injEq] at resolved
  obtain ⟨_, fits, rfl⟩ := resolved
  exact ⟨Ledger.credit_moves fits, rfl⟩

theorem increaseFrozen_eq_ok
    (increased : config.increaseFrozen asset who amount ledger = .ok next) :
    next.balance = ledger.balance ∧
      ∀ otherAsset other,
        (next.frozen otherAsset other).toNat =
          (ledger.frozen otherAsset other).toNat +
            Ledger.flow asset who amount.toNat otherAsset other := by
  simp only [increaseFrozen, bind_eq_ok_iff, ensure_eq_ok_iff, exists_const,
    Except.ok.injEq] at increased
  obtain ⟨fits, _, rfl⟩ := increased
  refine ⟨rfl, fun otherAsset other => ?_⟩
  by_cases same : otherAsset = asset ∧ other = who
  · obtain ⟨rfl, rfl⟩ := same
    simp [Ledger.write, Ledger.flow, BitVec.toNat_add, Nat.mod_eq_of_lt fits]
  · simp [Ledger.write, Ledger.flow, same]

theorem decreaseFrozen_eq_ok
    (decreased : config.decreaseFrozen asset who amount ledger = .ok next) :
    next.balance = ledger.balance ∧
      ∀ otherAsset other,
        (next.frozen otherAsset other).toNat +
            Ledger.flow asset who amount.toNat otherAsset other =
          (ledger.frozen otherAsset other).toNat := by
  simp only [decreaseFrozen, bind_eq_ok_iff, ensure_eq_ok_iff, exists_const,
    Except.ok.injEq] at decreased
  obtain ⟨covered, _, rfl⟩ := decreased
  refine ⟨rfl, fun otherAsset other => ?_⟩
  by_cases same : otherAsset = asset ∧ other = who
  · obtain ⟨rfl, rfl⟩ := same
    have exact := BitVec.toNat_sub_of_le covered
    rw [BitVec.le_def] at covered
    simp only [Ledger.write, Ledger.flow, and_self, ↓reduceIte]
    omega
  · simp [Ledger.write, Ledger.flow, same]

omit [DecidableEq Asset] in
theorem mintInto_eq_ok
    {lpToken : Nat}
    (minted : config.mintInto lpToken who amount ledger = .ok next) :
    next.balance = ledger.balance ∧ next.frozen = ledger.frozen := by
  simp only [mintInto, bind_eq_ok_iff, ensure_eq_ok_iff, exists_const,
    Except.ok.injEq] at minted
  obtain ⟨_, _, rfl⟩ := minted
  exact ⟨rfl, rfl⟩

theorem failsOnly_transfer
    {source dest : Account} :
    FailsOnly (· = .error .refused)
      (config.transfer asset source dest amount preservation ledger) := by
  refine .bind (failsOnly_ensure _ _) fun _ => ?_
  refine .bind (failsOnly_ensure _ _) fun _ => ?_
  refine .bind (failsOnly_ensure _ _) fun _ => ?_
  exact failsOnly_ok _ _

omit [DecidableEq Asset] in
theorem failsOnly_mintInto
    {lpToken : Nat} :
    FailsOnly
      (fun fault => fault = .error .refused ∨
        fault = .error .arithmeticOverflow)
      (config.mintInto lpToken who amount ledger) := by
  refine .bind ((failsOnly_ensure _ _).mono fun _ => .inl) fun _ => ?_
  refine .bind ((failsOnly_ensure _ _).mono fun _ => .inr) fun _ => ?_
  exact failsOnly_ok _ _

/-- Accounts of a test runtime: users, and one account for each pool. -/
abbrev MockAccount := Nat ⊕ (Nat × Nat)

/-- The constants of the test runtime, with registries that never refuse. -/
def mock : Config 64 MockAccount Nat where
  overflowChecks := false
  lpFee := 3
  mintMinLiquidity := 100
  orderExpiration := 100
  maxSwapPathLength := 4
  minimumBalance _ := 1
  address id := .inr id
  reducibleBalance ledger asset who _ := ledger.balance asset who
  allows _ _ := true

/-- The same runtime with units of 128 bits. -/
def mock128 : Config 128 MockAccount Nat where
  overflowChecks := false
  lpFee := 3
  mintMinLiquidity := 100
  orderExpiration := 100
  maxSwapPathLength := 4
  minimumBalance _ := 1
  address id := .inr id
  reducibleBalance ledger asset who _ := ledger.balance asset who
  allows _ _ := true

theorem mock_lawful : mock.Lawful where
  addressInjective _ _ same := Sum.inr.inj same
  poolBalance _ _ _ := rfl

end Config

end HybridOrderbook
