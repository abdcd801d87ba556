import HybridOrderbook.Collateral
import HybridOrderbook.PalletRuns
import HybridOrderbook.PoolRuns

namespace HybridOrderbook

open Library

/-!
# Cancelling

A cancel takes quantity off one order of its signer, and fails without a
trace if there is no such order.

It does not touch the collateral of the order.  Placing an order freezes an
amount for it; cancelling takes quantity off the order and calls no registry.
So the freezes after a run of placements and cancels are what they were
before, plus all that was ever frozen.
-/

variable {w : Nat} {Account Asset : Type} [DecidableEq Account]
  [DecidableEq Asset]

/-- What is in storage after a call: a call that fails writes nothing. -/
def Config.after
    (config : Config w Account Asset)
    (extrinsic : Extrinsic w Account Asset)
    (storage : Storage w Account Asset) : Storage w Account Asset :=
  (config.step extrinsic storage).getD storage

namespace Pool

variable {pool : Pool w Account} {books : Bool → PriceMap w Account}

/-- A cancel concerns one order, its signer, and nothing else. -/
structure CancelsExactly
    (pool : Pool w Account)
    (who : Account)
    (price : BitVec w)
    (orderId : OrderId)
    (quantity : BitVec w) : Prop where
  succeeds_iff :
    (∃ answer next,
      pool.cancelOrder who price orderId quantity = .ok (answer, next)) ↔
      ∃ order,
        pool.HoldsOrder orderId.isBid price orderId order ∧
          order.owner = who ∧ quantity ≤ order.quantity
  -- an order with nothing left disappears
  order :
    ∀ answer next,
      pool.cancelOrder who price orderId quantity = .ok (answer, next) →
        ∀ left,
          next.HoldsOrder orderId.isBid price orderId left ↔
            ∃ order,
              pool.HoldsOrder orderId.isBid price orderId order ∧
                left.quantity.toNat + quantity.toNat = order.quantity.toNat ∧
                left.quantity ≠ 0 ∧ left.owner = order.owner ∧
                left.expiredAt = order.expiredAt
  others :
    ∀ answer next,
      pool.cancelOrder who price orderId quantity = .ok (answer, next) →
        ∀ side otherPrice otherId other,
          ¬ (side = orderId.isBid ∧ otherPrice = price ∧ otherId = orderId) →
            (next.HoldsOrder side otherPrice otherId other ↔
              pool.HoldsOrder side otherPrice otherId other)
  counters :
    ∀ answer next,
      pool.cancelOrder who price orderId quantity = .ok (answer, next) →
        next.nextBidOrderId = pool.nextBidOrderId ∧
          next.nextAskOrderId = pool.nextAskOrderId
  -- the books that a failed cancel leaves behind
  fails :
    ∀ fault,
      pool.cancelOrder who price orderId quantity = .error fault →
        (CritbitTree.cancelOrder who price orderId quantity
          (pool.getOrderbook orderId.isBid)).2 =
            pool.getOrderbook orderId.isBid

theorem Refines.cancelOrder_succeeds_iff
    (width : 0 < w)
    (refines : pool.Refines books)
    (who : Account)
    (price : BitVec w)
    (orderId : OrderId)
    (quantity : BitVec w) :
    (∃ answer next,
      pool.cancelOrder who price orderId quantity = .ok (answer, next)) ↔
      ((books orderId.isBid).cancelOrder who price orderId quantity).1 =
        .ok () := by
  constructor
  · rintro ⟨answer, next, canceled⟩
    exact (refines.cancelOrder_eq_ok width canceled).1
  · intro succeeds
    obtain ⟨reached, executed, _⟩ :=
      (refines orderId.isBid).cancelOrder_eq width who price orderId quantity
    refine ⟨orderId, pool.setOrderbook orderId.isBid reached, ?_⟩
    rw [cancelOrder_side, executed, succeeds]
    rfl

/-- A cancel that fails in the pool fails in the book. -/
theorem book_of_cancelOrder_error
    {who : Account}
    {price quantity : BitVec w}
    {orderId : OrderId}
    {fault : Fault PalletError}
    (failed :
      pool.cancelOrder who price orderId quantity = .error fault) :
    (CritbitTree.cancelOrder who price orderId quantity
      (pool.getOrderbook orderId.isBid)).2 =
        pool.getOrderbook orderId.isBid := by
  rw [cancelOrder_side] at failed
  cases executed :
    CritbitTree.cancelOrder who price orderId quantity
      (pool.getOrderbook orderId.isBid) with
  | mk outcome reached =>
      rw [executed] at failed
      cases outcome with
      | error problem =>
          exact CritbitTree.cancelOrder_of_error executed
      | ok _ =>
          cases failed

theorem Refines.cancelsExactly
    (width : 0 < w)
    (refines : pool.Refines books)
    (who : Account)
    (price : BitVec w)
    (orderId : OrderId)
    (quantity : BitVec w) :
    pool.CancelsExactly who price orderId quantity where
  succeeds_iff := by
    simp only [refines.cancelOrder_succeeds_iff width,
      PriceMap.cancelOrder_eq_ok_iff, refines.holdsOrder_iff width]
  order answer next canceled left := by
    obtain ⟨succeeded, _, _, nextRefines⟩ :=
      refines.cancelOrder_eq_ok width canceled
    obtain ⟨order, resting, _, covered⟩ :=
      PriceMap.cancelOrder_eq_ok_iff.mp succeeded
    have less := BitVec.toNat_sub_of_le covered
    rw [BitVec.le_def] at covered
    rw [nextRefines.holdsOrder_iff width, Function.update_self,
      PriceMap.orderAt_cancelOrder_eq succeeded, if_pos ⟨rfl, rfl⟩, resting,
      Option.bind_some]
    simp only [refines.holdsOrder_iff width, resting, Option.some.injEq,
      exists_eq_left']
    by_cases whole : order.quantity = quantity
    · rw [if_pos whole]
      refine ⟨nofun, fun ⟨sum, notZero, _⟩ => absurd ?_ notZero⟩
      rw [whole] at sum
      exact BitVec.eq_of_toNat_eq (Nat.add_eq_right.mp sum)
    · rw [if_neg whole, Option.some.injEq]
      constructor
      · rintro rfl
        refine ⟨by simp only [less]; omega, fun zero => whole ?_, rfl, rfl⟩
        have nothing : (order.quantity - quantity).toNat = 0 := by
          rw [show order.quantity - quantity = 0#w from zero]
          rfl
        exact BitVec.eq_of_toNat_eq (by omega)
      · rintro ⟨sum, _, sameOwner, sameExpiry⟩
        rcases left with ⟨leftQuantity, leftOwner, leftExpiry⟩
        simp only at sum sameOwner sameExpiry
        rw [Order.mk.injEq]
        exact ⟨BitVec.eq_of_toNat_eq (by omega), sameOwner.symm,
          sameExpiry.symm⟩
  others answer next canceled side otherPrice otherId other elsewhere := by
    obtain ⟨succeeded, _, _, nextRefines⟩ :=
      refines.cancelOrder_eq_ok width canceled
    rw [nextRefines.holdsOrder_iff width, refines.holdsOrder_iff width]
    by_cases same : side = orderId.isBid
    · subst same
      rw [Function.update_self, PriceMap.orderAt_cancelOrder_eq succeeded,
        if_neg fun here => elsewhere ⟨rfl, here⟩]
    · rw [Function.update_of_ne same]
  counters answer next canceled := by
    obtain ⟨_, counters, _⟩ := refines.cancelOrder_eq_ok width canceled
    exact ⟨congrFun counters true, congrFun counters false⟩
  fails fault failed := book_of_cancelOrder_error failed

end Pool

/--
In every pool that placements, fills and cancels reach from a new pool, a
cancel concerns one order and its owner only, and a storage with that pool
keeps it if the cancel fails.
-/
theorem cancelsExactly_of_run
    (width : 0 < w)
    (config : Config w Account Asset)
    (lpToken : Nat)
    (tickSize lotSize : BitVec w)
    (poolDecimals baseDecimals quoteDecimals : BitVec 8)
    (ops : List (PoolOp w Account))
    {pool : Pool w Account}
    (ran :
      Run.run PoolOp.step ops
          (Pool.new lpToken tickSize lotSize poolDecimals baseDecimals
            quoteDecimals) =
        some pool)
    (who : Account)
    (price : BitVec w)
    (orderId : OrderId)
    (quantity : BitVec w) :
    pool.CancelsExactly who price orderId quantity ∧
      ∀ blockNumber base quote storage fault,
        storage.pools (base, quote) = some pool →
          pool.cancelOrder who price orderId quantity = .error fault →
            config.after
                ⟨who, blockNumber,
                  .cancelOrder base quote price orderId quantity⟩ storage =
              storage := by
  obtain ⟨books, numbered⟩ := Pool.numbered_of_run width ran
  refine ⟨numbered.refines.cancelsExactly width who price orderId quantity,
    fun blockNumber base quote storage fault found failed => ?_⟩
  unfold Config.after
  cases stepped :
    config.step
      ⟨who, blockNumber, .cancelOrder base quote price orderId quantity⟩
      storage with
  | none =>
      rfl
  | some next =>
      simp only [Config.step, Config.dispatch, Config.doCancelOrder,
        toOption_eq_some_iff, bind_eq_ok_iff, Config.poolId_eq_ok_iff,
        okOr_eq_ok_iff, mapErr_eq_ok_iff] at stepped
      obtain ⟨_, ⟨_, rfl⟩, other, same, _, canceled, _⟩ := stepped
      cases found.symm.trans same
      cases failed.symm.trans canceled

/-- After a placement and a fill on each side, part of a bid is cancelled. -/
theorem cancelsExactly_of_short_run :
    ∃ pool : Pool 64 Config.MockAccount,
      Run.run PoolOp.step
          [.placeOrder 100 true (.inl 1) 7 10,
            .placeOrder 100 false (.inl 2) 9 6, .fillOrder false 7 2,
            .fillOrder true 9 1]
          (Pool.new 0 1 1 0 0 0) = some pool ∧
        (∃ answer next,
          pool.cancelOrder (.inl 1) 7 (OrderId.new true) 3 =
            .ok (answer, next)) ∧
        pool.CancelsExactly (.inl 1) 7 (OrderId.new true) 3 := by
  have observed :
      ((Run.run PoolOp.step
          [.placeOrder 100 true (.inl 1) 7 10,
            .placeOrder 100 false (.inl 2) 9 6, .fillOrder false 7 2,
            .fillOrder true 9 1]
          (Pool.new 0 1 1 0 0 0 : Pool 64 Config.MockAccount)).bind
        fun pool =>
          (pool.cancelOrder (.inl 1) 7 (OrderId.new true) 3).toOption.map
            fun _ => ()) = some () := by
    decide
  simp only [Option.bind_eq_some_iff, Option.map_eq_some_iff,
    toOption_eq_some_iff] at observed
  obtain ⟨pool, ran, ⟨answer, next⟩, canceled, _⟩ := observed
  have exactly := (cancelsExactly_of_run (by decide) Config.mock 0 1 1 0 0 0
    _ ran (.inl 1) 7 (OrderId.new true) 3).1
  exact ⟨pool, ran, ⟨answer, next, canceled⟩, exactly⟩


/-- The collateral that cancelling part of an order sets free. -/
def Pool.freed
    (pool : Pool w Account)
    (isBid : Bool)
    (price remaining canceled : Nat) : Nat :=
  pool.collateral isBid price remaining -
    pool.collateral isBid price (remaining - canceled)

/-- The call cancels an order, or places one that does not cross. -/
def Config.PlacesOrCancels
    (config : Config w Account Asset)
    (extrinsic : Extrinsic w Account Asset)
    (storage : Storage w Account Asset) : Prop :=
  match extrinsic.call with
  | .limitOrder base quote isBid price _ =>
      config.Rests storage base quote isBid price
  | .cancelOrder _ _ _ _ _ => True
  | _ => False

/-- What a call freezes if it places an order. -/
def Storage.freezes
    (storage : Storage w Account Asset)
    (extrinsic : Extrinsic w Account Asset) : Asset → Account → Nat :=
  match extrinsic.call with
  | .limitOrder base quote isBid price quantity =>
      match storage.pools (base, quote) with
      | some pool =>
          Ledger.flow (collateralAsset isBid (base, quote)) extrinsic.signer
            (pool.freezeAmount isBid price.toNat quantity.toNat)
      | none => 0
  | _ => 0

/-- What the placements among the calls freeze in total. -/
def Storage.totalFreezes
    (storage : Storage w Account Asset)
    (extrinsics : List (Extrinsic w Account Asset))
    (asset : Asset)
    (who : Account) : Nat :=
  (extrinsics.map fun extrinsic => storage.freezes extrinsic asset who).sum

section Cancel

variable {config : Config w Account Asset}
  {extrinsic : Extrinsic w Account Asset}
  {storage next : Storage w Account Asset}

/-- The amounts depend on the parameters of the pools only. -/
theorem Storage.SameTerms.freezes
    (same : storage.SameTerms next)
    (extrinsic : Extrinsic w Account Asset) :
    next.freezes extrinsic = storage.freezes extrinsic := by
  unfold Storage.freezes
  split
  · rename_i base quote isBid price quantity _
    have related := same (base, quote)
    generalize storage.pools (base, quote) = before at related
    generalize next.pools (base, quote) = after at related
    cases related with
    | none =>
        rfl
    | some sameTerms =>
        simp only [Pool.freezeAmount, Pool.wrappedValue, Pool.quoteShift,
          sameTerms.poolDecimals, sameTerms.baseDecimals,
          sameTerms.quoteDecimals]
  · rfl

/-- A placement freezes its amount; a cancel leaves the freezes alone. -/
theorem Config.frozen_of_step
    (wide : 64 ≤ w)
    (condition : config.PlacesOrCancels extrinsic storage)
    (stepped : config.step extrinsic storage = some next)
    (asset : Asset)
    (who : Account) :
    (next.ledger.frozen asset who).toNat =
      (storage.ledger.frozen asset who).toNat +
        storage.freezes extrinsic asset who := by
  cases Config.effect_of_step stepped with
  | deposited called =>
      simp [PlacesOrCancels, called] at condition
  | matched called =>
      rcases called with called | ⟨price, called, crosses⟩
      · simp [PlacesOrCancels, called] at condition
      · simp only [PlacesOrCancels, called] at condition
        cases crosses.unique condition
  | placed called found _ _ _ places updated =>
      obtain ⟨_, _, frozen⟩ := doPlaceOrder_eq_ok wide places
      simp only [updated, Storage.ledger_update, frozen, Storage.freezes,
        called, found]
  | canceled called _ _ updated =>
      simp [updated, Storage.freezes, called]

/-- Over a run of placements and cancels the freezes only add up. -/
theorem Config.frozen_of_run
    (wide : 64 ≤ w)
    {extrinsics : List (Extrinsic w Account Asset)}
    {final : Storage w Account Asset}
    (keeps : storage.Keeps fun _ _ _ _ => True)
    (along : Run.Along config.step config.PlacesOrCancels extrinsics storage)
    (ran : Run.run config.step extrinsics storage = some final)
    (asset : Asset)
    (who : Account) :
    (final.ledger.frozen asset who).toNat =
      (storage.ledger.frozen asset who).toNat +
        storage.totalFreezes extrinsics asset who := by
  induction extrinsics generalizing storage with
  | nil =>
      have same : storage = final := by simpa [Run.run] using ran
      simp [same, Storage.totalFreezes]
  | cons extrinsic rest inductionHypothesis =>
      obtain ⟨middle, stepped, remaining⟩ := Run.run_cons_eq_some_iff.mp ran
      obtain ⟨condition, later⟩ := along
      have middleKeeps := keeps.step wide downward_true
        (fun _ _ _ _ _ _ _ => trivial) stepped
      have sameTerms := keeps.sameTerms_step wide downward_true stepped
      have here := frozen_of_step wide condition stepped asset who
      have after :=
        inductionHypothesis middleKeeps (later middle stepped) remaining
      simp only [Storage.totalFreezes, sameTerms.freezes, List.map_cons,
        List.sum_cons] at after ⊢
      omega

/-- A cancel names an order of the signer, and leaves the registries alone. -/
theorem Config.order_of_cancel
    (wide : 64 ≤ w)
    (keeps : storage.Keeps fun _ _ _ _ => True)
    {owner : Account}
    {blockNumber : Nat}
    {base quote : Asset}
    {price quantity : BitVec w}
    {orderId : OrderId}
    (stepped :
      config.step
        ⟨owner, blockNumber, .cancelOrder base quote price orderId quantity⟩
        storage = some next) :
    next.ledger = storage.ledger ∧
      ∃ pool tick order,
        storage.pools (base, quote) = some pool ∧
          (pool.getOrderbook orderId.isBid).openOrdersAt price =
            .ok (some tick) ∧
          tick.openOrders[orderId]? = some order ∧
          order.owner = owner ∧ quantity ≤ order.quantity := by
  have width : 0 < w := by omega
  cases Config.effect_of_step stepped with
  | deposited called =>
      cases called
  | matched called =>
      rcases called with called | ⟨_, called, _⟩ <;> cases called
  | placed called =>
      cases called
  | canceled called found cancels updated =>
      simp only [Call.cancelOrder.injEq] at called
      obtain ⟨rfl, rfl, rfl, rfl, rfl⟩ := called
      obtain ⟨books, poolKeeps⟩ := keeps _ _ found
      obtain ⟨succeeded, _⟩ :=
        poolKeeps.refines.cancelOrder_eq_ok width cancels
      obtain ⟨tick, changed, bound, canceled, _⟩ :=
        PriceMap.cancelOrder_eq_ok succeeded
      obtain ⟨order, named, owned, covered, _⟩ :=
        Tick.canceled_eq_ok canceled
      refine ⟨by rw [updated, Storage.ledger_update], _, tick, order, found,
        ?_, named, owned, covered⟩
      rw [(poolKeeps.refines orderId.isBid).openOrdersAt_eq width, bound]

/--
Cancelling releases the collateral that it sets free if and only if it sets
none free, and a run of placements and cancels restores the freezes of an
account if and only if the placements froze nothing for it.
-/
theorem frozen_of_cancels_iff
    (wide : 64 ≤ w)
    (config : Config w Account Asset)
    (setup : Setup w Account Asset)
    {start pallet : Pallet w Account Asset}
    (created : start.storage.Created)
    (calls : List (Dispatchable w Account Asset))
    (ran : Run.run (Pallet.step config setup) calls start = some pallet) :
    (∀ owner blockNumber base quote price orderId quantity next,
      config.step
          ⟨owner, blockNumber,
            .cancelOrder base quote price orderId quantity⟩
          pallet.storage = some next →
        ∃ pool tick order,
          pallet.storage.pools (base, quote) = some pool ∧
            (pool.getOrderbook orderId.isBid).openOrdersAt price =
              .ok (some tick) ∧
            tick.openOrders[orderId]? = some order ∧
            order.owner = owner ∧ quantity ≤ order.quantity ∧
            ((next.ledger.frozen
                    (collateralAsset orderId.isBid (base, quote))
                    owner).toNat +
                  pool.freed orderId.isBid price.toNat
                    order.quantity.toNat quantity.toNat =
                (pallet.storage.ledger.frozen
                  (collateralAsset orderId.isBid (base, quote))
                  owner).toNat ↔
              pool.freed orderId.isBid price.toNat order.quantity.toNat
                quantity.toNat = 0)) ∧
      ∀ later final,
        Run.Along config.step config.PlacesOrCancels later pallet.storage →
          Run.run config.step later pallet.storage = some final →
            ∀ asset who,
              final.ledger.frozen asset who =
                  pallet.storage.ledger.frozen asset who ↔
                pallet.storage.totalFreezes later asset who = 0 := by
  have keeps := Pallet.keeps_of_run wide created ran
  constructor
  · intro owner blockNumber base quote price orderId quantity next stepped
    obtain ⟨sameLedger, pool, tick, order, found, listed, named, owned,
      covered⟩ := Config.order_of_cancel wide keeps stepped
    refine ⟨pool, tick, order, found, listed, named, owned, covered, ?_⟩
    rw [sameLedger]
    omega
  · intro later final along laterRan asset who
    have total := Config.frozen_of_run wide keeps along laterRan asset who
    rw [← BitVec.toNat_inj]
    omega

/-- Restoring the freezes after an ask was placed and liquidity withdrawn. -/
theorem frozen_of_cancels_after_ask :
    ∃ pallet : Pallet 64 Config.MockAccount Nat,
      Run.run (Pallet.step Config.mock (.mock (.inl 0)))
          (Pallet.mockOpening (.inl 1) 1000 100000 ++
            [.onPool (.dispatch ⟨.inl 1, 1, .limitOrder 0 1 false 200 5⟩),
              .onPool (.removeLiquidity (.inl 1) 0 1 1000 1 1 (.inl 1))])
          (.genesis (.mock Sum.isLeft) fun _ => false) = some pallet ∧
        ∀ later final,
          Run.Along Config.mock.step Config.mock.PlacesOrCancels later
              pallet.storage →
            Run.run Config.mock.step later pallet.storage = some final →
              ∀ asset who,
                final.ledger.frozen asset who =
                    pallet.storage.ledger.frozen asset who ↔
                  pallet.storage.totalFreezes later asset who = 0 := by
  have succeeds :
      (Run.run (Pallet.step Config.mock (.mock (.inl 0)))
          (Pallet.mockOpening (.inl 1) 1000 100000 ++
            [.onPool (.dispatch ⟨.inl 1, 1, .limitOrder 0 1 false 200 5⟩),
              .onPool (.removeLiquidity (.inl 1) 0 1 1000 1 1 (.inl 1))])
          (.genesis (.mock Sum.isLeft) fun _ => false)).isSome = true := by
    decide +kernel
  have ran := (Option.some_get succeeds).symm
  exact ⟨_, ran, (frozen_of_cancels_iff (by decide) Config.mock
    (.mock (.inl 0)) (Pallet.created_genesis _ _) _ ran).2⟩

/-- An ask of 5 is cancelled in full; its 5 base units stay frozen. -/
theorem cancel_leaves_collateral_frozen :
    (Run.run Config.mock.step
        [⟨.inl 1, 1, .limitOrder 0 1 false 200 5⟩,
          ⟨.inl 1, 2, .cancelOrder 0 1 200 OrderId.startAskId 5⟩]
        (Storage.mock (Pool.new 0 1 1 0 0 0) 100 10000)).map
      (fun storage => (storage.ledger.frozen 0 (.inl 1),
        (storage.pools (0, 1)).map fun pool =>
          pool.asks.leaves.toList.map fun leaf =>
            leaf.2.value.openOrders.toList.map fun order =>
              order.2.quantity)) =
      some (5, some [[]]) := by
  decide

end Cancel

end HybridOrderbook
