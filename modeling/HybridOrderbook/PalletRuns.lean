import HybridOrderbook.Frames

namespace HybridOrderbook

open Library

/-!
# Runs of the whole pallet

Whatever calls are dispatched, to create pools, to provide and withdraw
liquidity, to trade and to cancel, the books of every pool refine price maps.
-/

variable {w : Nat} {Account Asset : Type} [DecidableEq Account]
  [DecidableEq Asset]

/-- Calls on pools keep what owners of all orders have and signers bring. -/
theorem Storage.Keeps.poolStep
    (wide : 64 ≤ w)
    {config : Config w Account Asset}
    {liquidityWithdrawalFee : BitVec w → BitVec w}
    {call : PoolCall w Account Asset}
    {storage next : Storage w Account Asset}
    {pays : Account → Prop}
    (owners : storage.Keeps fun _ _ owner _ => pays owner)
    (signs : pays call.signer)
    (stepped :
      config.poolStep liquidityWithdrawalFee call storage = some next) :
    next.Keeps fun _ _ owner _ => pays owner := by
  cases call with
  | removeLiquidity signer base quote lpTokenBurn baseMinReceive
      quoteMinReceive withdrawTo =>
      exact Storage.EachPool.of_pools_eq owners
        (Config.removeLiquidity_keeps (toOption_eq_some_iff.mp stepped)).1
  | dispatch extrinsic =>
      exact owners.step wide (fun _ _ _ _ _ _ owns => owns)
        (fun _ _ _ _ _ _ _ => signs) stepped

namespace Pallet

variable {config : Config w Account Asset} {setup : Setup w Account Asset}
  {call : Dispatchable w Account Asset}
  {start pallet next : Pallet w Account Asset}
  {calls : List (Dispatchable w Account Asset)}

/-- What a call does to the pools, whatever it does to accounts. -/
theorem pools_of_step
    (stepped : pallet.step config setup call = some next) :
    (∃ id pool ledger,
      next.storage = pallet.storage.update id pool ledger ∧
        pool.bids = CritbitTree.new ∧ pool.asks = CritbitTree.new) ∨
      next.storage.pools = pallet.storage.pools ∨
      ∃ poolCall,
        config.poolStep setup.liquidityWithdrawalFee poolCall
          pallet.storage = some next.storage := by
  have dispatched := toOption_eq_some_iff.mp stepped
  unfold dispatch at dispatched
  split at dispatched
  · simp only [createPool, bind_eq_ok_iff, ensure_eq_ok_iff, exists_const,
      Except.ok.injEq] at dispatched
    obtain ⟨_, _, _, id, _, _, _, _, _, _, _, _, _, _, _, ledger, _, rfl⟩ :=
      dispatched
    exact .inl ⟨id, _, _, rfl, rfl, rfl⟩
  · simp only [touch, bind_eq_ok_iff, mapErr_eq_ok_iff,
      Except.ok.injEq] at dispatched
    obtain ⟨_, ⟨_, _, _, _, _, _, _, _, _, _, rfl⟩, rfl⟩ := dispatched
    exact .inr (.inl rfl)
  · simp only [bind_eq_ok_iff, mapErr_eq_ok_iff, Except.ok.injEq] at dispatched
    obtain ⟨storage, called, rfl⟩ := dispatched
    exact .inr (.inr ⟨.dispatch _, toOption_eq_some_iff.mpr called⟩)
  · simp only [bind_eq_ok_iff, mapErr_eq_ok_iff, Except.ok.injEq] at dispatched
    obtain ⟨storage, called, rfl⟩ := dispatched
    exact .inr (.inr ⟨.removeLiquidity .., toOption_eq_some_iff.mpr called⟩)

theorem keeps_of_step
    (wide : 64 ≤ w)
    (keeps : pallet.storage.Keeps fun _ _ _ _ => True)
    (stepped : pallet.step config setup call = some next) :
    next.storage.Keeps fun _ _ _ _ => True := by
  rcases pools_of_step stepped with
    ⟨id, pool, ledger, updated, new⟩ | same | ⟨poolCall, called⟩
  · rw [updated]
    exact keeps.update
      ⟨_, Pool.refines_of_new new, fun _ => PriceMap.all_empty⟩ ledger
  · exact Storage.EachPool.of_pools_eq keeps same
  · exact keeps.poolStep wide trivial called

/-- The books of every pallet that a run reaches refine price maps. -/
theorem keeps_of_run
    (wide : 64 ≤ w)
    (created : start.storage.Created)
    (ran : Run.run (step config setup) calls start = some pallet) :
    pallet.storage.Keeps fun _ _ _ _ => True :=
  Run.run_invariant (fun _ _ _ keeps stepped =>
    keeps_of_step wide keeps stepped) created.keeps ran

/-- A match that is seen to succeed after a run, with all that it reads. -/
theorem exists_match_of_isSome
    {isBid : Bool}
    {orderer : Account}
    {base quote : Asset}
    {orderQuantity : BitVec w}
    (succeeds :
      ((Run.run (step config setup) calls start).bind
        fun pallet => (pallet.storage.pools (base, quote)).bind
          fun pool => (config.doMatchOrder isBid orderer base quote pool
            orderQuantity pallet.storage.ledger).toOption).isSome = true) :
    ∃ pallet pool nextPool after,
      Run.run (step config setup) calls start = some pallet ∧
        pallet.storage.pools (base, quote) = some pool ∧
          config.doMatchOrder isBid orderer base quote pool orderQuantity
            pallet.storage.ledger = .ok (nextPool, after) := by
  obtain ⟨⟨nextPool, after⟩, reached⟩ := Option.isSome_iff_exists.mp succeeds
  obtain ⟨pallet, ran, matched⟩ := Option.bind_eq_some_iff.mp reached
  obtain ⟨pool, found, executed⟩ := Option.bind_eq_some_iff.mp matched
  exact ⟨pallet, pool, nextPool, after, ran, found,
    toOption_eq_some_iff.mp executed⟩

omit [DecidableEq Account] [DecidableEq Asset] in
theorem created_genesis
    (ledger : Ledger w Account Asset)
    (lpAssets : Nat → Bool) : (genesis ledger lpAssets).storage.Created := by
  intro id pool found
  cases found

/-- A pool with units of one, and its first liquidity. -/
def mockOpening
    (user : Account)
    (baseReserve quoteReserve : BitVec 64) :
    List (Dispatchable 64 Account Nat) :=
  [.createPool user 0 0 1 0 1 1 0,
    .onPool (.dispatch
      ⟨user, 1, .addLiquidity 0 1 baseReserve quoteReserve 0 0 user⟩)]

end Pallet

end HybridOrderbook
