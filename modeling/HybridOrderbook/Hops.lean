import HybridOrderbook.Orientation

namespace HybridOrderbook

open Library

/-!
# Paths of several hops

The amounts of a path are computed hop by hop, over as many hops as the path
has.  The execution stops after the first one.
-/

variable {w : Nat} {Account Asset : Type} [DecidableEq Account]
  [DecidableEq Asset]

section Paths

/-- Neighbouring assets of a path. -/
def hops : List Asset → List (Asset × Asset)
  | asset1 :: asset2 :: rest => (asset1, asset2) :: hops (asset2 :: rest)
  | _ => []

/-- A valid path has hops between different assets, and none of them twice. -/
theorem Config.validatePools_eq_ok
    {pools : List (Asset × Asset)}
    {path : List Asset}
    (valid : Config.validatePools pools path = .ok ()) :
    (hops path).Nodup ∧
      ∀ hop ∈ hops path, hop ∉ pools ∧ hop.1 ≠ hop.2 := by
  fun_induction Config.validatePools pools path with
  | case1 pools asset1 asset2 rest inductionHypothesis =>
      simp only [bind_eq_ok_iff, Config.poolId_eq_ok_iff, ensure_eq_ok_iff,
        exists_const] at valid
      obtain ⟨_, ⟨different, rfl⟩, new, validRest⟩ := valid
      obtain ⟨distinct, unseen⟩ := inductionHypothesis _ validRest
      refine ⟨List.nodup_cons.mpr ⟨fun again => ?_, distinct⟩, ?_⟩
      · exact (unseen _ again).1 (List.mem_cons_self ..)
      · intro hop member
        rcases List.mem_cons.mp member with rfl | later
        · exact ⟨new, different⟩
        · obtain ⟨notSeen, differs⟩ := unseen hop later
          exact ⟨fun seen => notSeen (List.mem_cons_of_mem _ seen), differs⟩
  | case2 path pools notPair =>
      have none : hops path = [] := by
        rcases path with _ | ⟨asset1, _ | ⟨asset2, rest⟩⟩
        · rfl
        · rfl
        · exact absurd rfl (notPair asset1 asset2 rest)
      simp [none]

end Paths

namespace Config

section Flows

variable (config : Config w Account Asset) (isBid : Bool)

/-- What the pools on a path pay. -/
def hopsPaid : BalancePath w Asset → Asset → Account → Nat
  | (asset1, _) :: (asset2, amountOut) :: rest =>
      Ledger.flow asset2 (config.hopPool isBid asset1 asset2)
          amountOut.toNat +
        hopsPaid ((asset2, amountOut) :: rest)
  | _ => 0

/-- What the pools on a path receive. -/
def hopsReceived : BalancePath w Asset → Asset → Account → Nat
  | (asset1, amountIn) :: (asset2, amountOut) :: rest =>
      Ledger.flow asset1 (config.hopPool isBid asset1 asset2)
          amountIn.toNat +
        hopsReceived ((asset2, amountOut) :: rest)
  | _ => 0

/--
The sender pays the first amount of the path, the recipient gets the last one,
and every pool on the path gets the amount into its hop and pays the amount
out of it.
-/
def Delivers
    (sender sendTo : Account)
    (path : BalancePath w Asset)
    (ledger next : Ledger w Account Asset) : Prop :=
  ∃ first last,
    path.head? = some first ∧ path.getLast? = some last ∧
      ledger.Moves next
        (Ledger.flow first.1 sender first.2.toNat +
          config.hopsPaid isBid path)
        (Ledger.flow last.1 sendTo last.2.toNat +
          config.hopsReceived isBid path)

/--
The first hop is all there is to do: the path has one hop, or nothing comes
out of it, or what comes out goes to the second pool and the second hop was
the last or pays nothing.
-/
def FirstHopSuffices (sendTo : Account) : BalancePath w Asset → Prop
  | [_, _] => True
  | [_, (asset1, amount1), (asset2, _)] =>
      amount1 = 0 ∨ sendTo = config.hopPool isBid asset1 asset2
  | _ :: (asset1, amount1) :: (asset2, amount2) :: _ :: _ =>
      amount1 = 0 ∨
        (sendTo = config.hopPool isBid asset1 asset2 ∧ amount2 = 0)
  | _ => False

variable {config isBid}

/-- Pools that are not on a path neither pay nor receive. -/
theorem hops_elsewhere
    {path : BalancePath w Asset}
    {who : Account}
    (elsewhere :
      ∀ hop ∈ hops (path.map Prod.fst),
        who ≠ config.hopPool isBid hop.1 hop.2)
    (asset : Asset) :
    config.hopsPaid isBid path asset who = 0 ∧
      config.hopsReceived isBid path asset who = 0 := by
  fun_induction config.hopsPaid isBid path with
  | case1 asset1 amountIn asset2 amountOut rest inductionHypothesis =>
      have here := elsewhere (asset1, asset2) (by simp [hops])
      obtain ⟨paid, received⟩ := inductionHypothesis fun hop member =>
        elsewhere hop (by simpa [hops] using .inr (by simpa using member))
      simp [hopsReceived, Ledger.flow, here, paid, received]
  | case2 path notPair =>
      rcases path with _ | ⟨first, _ | ⟨second, rest⟩⟩
      · simp [hopsReceived]
      · simp [hopsReceived]
      · exact absurd rfl (notPair _ _ _ _ _)

/-- Hops of amount zero move nothing. -/
theorem hops_of_zero
    {path : BalancePath w Asset}
    (zero : ∀ binding ∈ path, binding.2 = 0) :
    config.hopsPaid isBid path = 0 ∧
      config.hopsReceived isBid path = 0 := by
  fun_induction config.hopsPaid isBid path with
  | case1 asset1 amountIn asset2 amountOut rest inductionHypothesis =>
      have first : amountIn = 0 := zero (asset1, amountIn) (by simp)
      have second : amountOut = 0 := zero (asset2, amountOut) (by simp)
      obtain ⟨paid, received⟩ := inductionHypothesis fun binding member =>
        zero binding (List.mem_cons_of_mem _ member)
      rw [hopsReceived, paid, received, first, second]
      simp
  | case2 path notPair =>
      rcases path with _ | ⟨first, _ | ⟨second, rest⟩⟩
      · simp [hopsReceived]
      · simp [hopsReceived]
      · exact absurd rfl (notPair _ _ _ _ _)

end Flows

variable {config : Config w Account Asset} {isBid : Bool}
  {sender sendTo : Account} {ledger next : Ledger w Account Asset}
  {asset0 asset1 asset2 : Asset} {amount0 amount1 amount2 : BitVec w}
  {rest : BalancePath w Asset}

/-- Once an amount of the path is zero, all later ones are. -/
def ZeroesLast (path : BalancePath w Asset) : Prop :=
  path.Pairwise fun earlier later => earlier.2 = 0 → later.2 = 0

/-- What is left to compare after the first hop. -/
theorem delivers_iff
    {last : Asset × BitVec w}
    (lastOf :
      ((asset1, amount1) :: rest).getLast? = some last)
    (moves :
      ledger.Moves next
        (Ledger.flow asset0 sender amount0.toNat +
          Ledger.flow asset1 (config.hopPool isBid asset0 asset1)
            amount1.toNat)
        (Ledger.flow asset0 (config.hopPool isBid asset0 asset1)
            amount0.toNat +
          Ledger.flow asset1 sendTo amount1.toNat)) :
    config.Delivers isBid sender sendTo
        ((asset0, amount0) :: (asset1, amount1) :: rest) ledger next ↔
      ∀ asset who,
        Ledger.flow last.1 sendTo last.2.toNat asset who +
            config.hopsReceived isBid ((asset1, amount1) :: rest) asset
              who =
          config.hopsPaid isBid ((asset1, amount1) :: rest) asset who +
            Ledger.flow asset1 sendTo amount1.toNat asset who := by
  have allMoves :
      config.Delivers isBid sender sendTo
          ((asset0, amount0) :: (asset1, amount1) :: rest) ledger next ↔
        ledger.Moves next
          (Ledger.flow asset0 sender amount0.toNat +
            config.hopsPaid isBid
              ((asset0, amount0) :: (asset1, amount1) :: rest))
          (Ledger.flow last.1 sendTo last.2.toNat +
            config.hopsReceived isBid
              ((asset0, amount0) :: (asset1, amount1) :: rest)) := by
    constructor
    · rintro ⟨first, _, firstOf, lastOfAll, moved⟩
      rw [List.head?_cons, Option.some.injEq] at firstOf
      rw [List.getLast?_cons_cons, lastOf, Option.some.injEq] at lastOfAll
      subst firstOf lastOfAll
      exact moved
    · intro moved
      exact ⟨_, last, rfl, lastOf, moved⟩
  rw [allMoves, moves.iff]
  refine forall₂_congr fun asset who => ?_
  simp only [hopsPaid, hopsReceived, Pi.add_apply]
  omega

/-- Two hops: the second pool is skipped. -/
theorem delivers_two_hops_iff
    (different : asset1 ≠ asset2)
    (zeroesLast : amount1 = 0 → amount2 = 0)
    (moves :
      ledger.Moves next
        (Ledger.flow asset0 sender amount0.toNat +
          Ledger.flow asset1 (config.hopPool isBid asset0 asset1)
            amount1.toNat)
        (Ledger.flow asset0 (config.hopPool isBid asset0 asset1)
            amount0.toNat +
          Ledger.flow asset1 sendTo amount1.toNat)) :
    config.Delivers isBid sender sendTo
        [(asset0, amount0), (asset1, amount1), (asset2, amount2)] ledger
        next ↔
      amount1 = 0 ∨ sendTo = config.hopPool isBid asset1 asset2 := by
  rw [delivers_iff rfl moves]
  simp only [hopsPaid, hopsReceived, Pi.add_apply, Pi.zero_apply,
    Nat.add_zero]
  constructor
  · intro same
    have here := same asset1 (config.hopPool isBid asset1 asset2)
    by_cases skipped : sendTo = config.hopPool isBid asset1 asset2
    · exact .inr skipped
    · refine .inl (BitVec.eq_of_toNat_eq ?_)
      simpa [Ledger.flow, different, Ne.symm skipped] using here
  · rintro (zero | rfl)
    · simp [zero, zeroesLast zero]
    · simp

/-- More hops: the second pool and all later ones are skipped. -/
theorem delivers_more_hops_iff
    {asset3 : Asset}
    {amount3 : BitVec w}
    {last : Asset × BitVec w}
    (lastOf : ((asset3, amount3) :: rest).getLast? = some last)
    (different : asset1 ≠ asset2)
    (differentNext : asset2 ≠ asset3)
    (pools :
      config.hopPool isBid asset1 asset2 ≠
        config.hopPool isBid asset2 asset3)
    (firstElsewhere :
      ∀ hop ∈ hops (((asset3, amount3) :: rest).map Prod.fst),
        config.hopPool isBid asset1 asset2 ≠
          config.hopPool isBid hop.1 hop.2)
    (secondElsewhere :
      ∀ hop ∈ hops (((asset3, amount3) :: rest).map Prod.fst),
        config.hopPool isBid asset2 asset3 ≠
          config.hopPool isBid hop.1 hop.2)
    (zeroesLast :
      ZeroesLast
        ((asset1, amount1) :: (asset2, amount2) :: (asset3, amount3) ::
          rest))
    (moves :
      ledger.Moves next
        (Ledger.flow asset0 sender amount0.toNat +
          Ledger.flow asset1 (config.hopPool isBid asset0 asset1)
            amount1.toNat)
        (Ledger.flow asset0 (config.hopPool isBid asset0 asset1)
            amount0.toNat +
          Ledger.flow asset1 sendTo amount1.toNat)) :
    config.Delivers isBid sender sendTo
        ((asset0, amount0) :: (asset1, amount1) :: (asset2, amount2) ::
          (asset3, amount3) :: rest) ledger next ↔
      amount1 = 0 ∨
        (sendTo = config.hopPool isBid asset1 asset2 ∧ amount2 = 0) := by
  rw [ZeroesLast, List.pairwise_cons, List.pairwise_cons] at zeroesLast
  obtain ⟨zeroFirst, zeroSecond, _⟩ := zeroesLast
  have lastMember := List.mem_of_getLast? lastOf
  have lastOfAll :
      ((asset1, amount1) :: (asset2, amount2) :: (asset3, amount3) ::
        rest).getLast? = some last := by
    rw [List.getLast?_cons_cons, List.getLast?_cons_cons, lastOf]
  rw [delivers_iff lastOfAll moves]
  simp only [hopsPaid, hopsReceived, Pi.add_apply]
  constructor
  · intro same
    by_cases skipped : sendTo = config.hopPool isBid asset1 asset2
    · obtain ⟨paid, received⟩ := hops_elsewhere secondElsewhere asset2
      have here := same asset2 (config.hopPool isBid asset2 asset3)
      refine .inr ⟨skipped, BitVec.eq_of_toNat_eq ?_⟩
      simpa [Ledger.flow, skipped, pools.symm, differentNext, paid, received]
        using here
    · obtain ⟨paid, received⟩ := hops_elsewhere firstElsewhere asset1
      have here := same asset1 (config.hopPool isBid asset1 asset2)
      refine .inl (BitVec.eq_of_toNat_eq ?_)
      simpa [Ledger.flow, Ne.symm skipped, pools, different, paid, received]
        using here
  · have zeroFrom :
        amount2 = 0 →
          last.2 = 0 ∧ amount3 = 0 ∧
            config.hopsPaid isBid ((asset3, amount3) :: rest) = 0 ∧
            config.hopsReceived isBid ((asset3, amount3) :: rest) = 0 :=
      fun zero =>
        ⟨zeroSecond last lastMember zero,
          zeroSecond _ (List.mem_cons_self ..) zero,
          hops_of_zero fun binding member => zeroSecond binding member zero⟩
    rintro (zero | ⟨rfl, zero⟩)
    · have second : amount2 = 0 := zeroFirst _ (List.mem_cons_self ..) zero
      obtain ⟨lastZero, third, paid, received⟩ := zeroFrom second
      simp only [paid, received]
      simp [zero, second, lastZero, third]
    · obtain ⟨lastZero, third, paid, received⟩ := zeroFrom zero
      simp only [paid, received]
      simp [zero, lastZero, third]

omit [DecidableEq Account] [DecidableEq Asset] in
/-- Nothing comes out of a pool that nothing goes into. -/
theorem getAmountOut_of_zero
    {reserveIn reserveOut amountOut : BitVec w}
    (priced : config.getAmountOut 0 reserveIn reserveOut = .ok amountOut) :
    amountOut = 0 := by
  simp only [getAmountOut, bind_eq_ok_iff, higher_eq_ok_iff,
    higherDiv_eq_ok_iff] at priced
  obtain ⟨_, _, _, _, _, ⟨_, rfl⟩, _, ⟨_, rfl⟩, _, _, _, _, _, ⟨_, rfl⟩,
    converted⟩ := priced
  refine BitVec.eq_of_toNat_eq ?_
  simpa using toNat_of_tryIntoUnit converted

omit [DecidableEq Account] in
/-- The amounts out of a path, from the amount into it. -/
theorem balancePathFromAmountIn_eq_ok
    {amountIn : BitVec w}
    {path : List Asset}
    {balances : BalancePath w Asset}
    (computed :
      config.balancePathFromAmountIn ledger amountIn path = .ok balances) :
    balances.map Prod.fst = path ∧ ZeroesLast balances ∧
      (amountIn = 0 → ∀ binding ∈ balances, binding.2 = 0) := by
  fun_induction config.balancePathFromAmountIn ledger amountIn path
    generalizing balances with
  | case1 amountIn =>
      obtain rfl := Except.ok.inj computed
      simp [ZeroesLast]
  | case2 amountIn asset1 =>
      obtain rfl := Except.ok.inj computed
      simp [ZeroesLast]
  | case3 amountIn asset1 asset2 rest inductionHypothesis =>
      simp only [bind_eq_ok_iff, Except.ok.injEq] at computed
      obtain ⟨⟨reserveIn, reserveOut⟩, _, nextAmount, priced, later,
        computedRest, rfl⟩ := computed
      obtain ⟨assets, zeroesLast, zeroes⟩ :=
        inductionHypothesis _ computedRest
      have zeroLater :
          amountIn = 0 → ∀ binding ∈ later, binding.2 = 0 := by
        rintro rfl
        exact zeroes (getAmountOut_of_zero priced)
      refine ⟨by rw [List.map_cons, assets], ?_, fun zero => ?_⟩
      · exact List.pairwise_cons.mpr
          ⟨fun binding member zero => zeroLater zero binding member,
            zeroesLast⟩
      · exact List.forall_mem_cons.mpr ⟨zero, zeroLater zero⟩

omit [DecidableEq Account] in
/-- The amounts into a path, from the amount out of it: none of them zero. -/
theorem balancePathBack_eq_ok
    {amountOut : BitVec w}
    {path : List Asset}
    {balances : BalancePath w Asset}
    (computed :
      config.balancePathBack ledger amountOut path = .ok balances)
    (some : amountOut ≠ 0) :
    balances.map Prod.fst = path ∧
      ∀ binding ∈ balances, binding.2 ≠ 0 := by
  fun_induction config.balancePathBack ledger amountOut path
    generalizing balances with
  | case1 amountOut =>
      obtain rfl := Except.ok.inj computed
      simp
  | case2 amountOut asset2 =>
      obtain rfl := Except.ok.inj computed
      simpa using some
  | case3 amountOut asset2 asset1 rest inductionHypothesis =>
      simp only [bind_eq_ok_iff, Except.ok.injEq] at computed
      obtain ⟨⟨baseReserve, quoteReserve⟩, _, nextAmount, priced, earlier,
        computedRest, rfl⟩ := computed
      obtain ⟨assets, nonzero⟩ :=
        inductionHypothesis _ computedRest (getAmountIn_ne_zero priced)
      exact ⟨by rw [List.map_cons, assets],
        List.forall_mem_cons.mpr ⟨some, nonzero⟩⟩

omit [DecidableEq Account] [DecidableEq Asset] in
/-- Different pairs of assets have different pools. -/
theorem hopPool_ne
    (lawful : config.Lawful)
    {first second third fourth : Asset}
    (differ : (first, second) ≠ (third, fourth)) :
    config.hopPool isBid first second ≠
      config.hopPool isBid third fourth := by
  intro same
  have ids := lawful.addressInjective same
  cases isBid <;> simp_all

/-- The execution stops after the first hop. -/
theorem swap_delivers_iff
    (lawful : config.Lawful)
    {balances : BalancePath w Asset}
    {keepAlive : Bool}
    (valid : config.validateSwapPath (balances.map Prod.fst) = .ok ())
    (zeroesLast : ZeroesLast balances)
    (swapped :
      config.swap isBid sender balances sendTo keepAlive ledger =
        .ok next) :
    config.Delivers isBid sender sendTo balances ledger next ↔
      config.FirstHopSuffices isBid sendTo balances := by
  simp only [validateSwapPath, bind_eq_ok_iff, ensure_eq_ok_iff,
    exists_const] at valid
  obtain ⟨long, _, pools⟩ := valid
  obtain ⟨distinct, assets⟩ := validatePools_eq_ok pools
  rcases balances with
    _ | ⟨⟨asset0, amount0⟩, _ | ⟨⟨asset1, amount1⟩, rest⟩⟩
  · simp at long
  · simp at long
  obtain ⟨pool, located, moves, _⟩ := swap_moves swapped
  obtain rfl := hopPool_of_pathPool located
  rw [ZeroesLast, List.pairwise_cons] at zeroesLast
  rcases rest with
    _ | ⟨⟨asset2, amount2⟩, _ | ⟨⟨asset3, amount3⟩, rest⟩⟩
  · rw [delivers_iff rfl moves]
    simp [hopsPaid, hopsReceived, FirstHopSuffices]
  · simp only [List.map_cons, List.map_nil, hops, List.forall_mem_cons]
      at assets
    refine delivers_two_hops_iff assets.2.1.2 (fun zero => ?_) moves
    exact (List.pairwise_cons.mp zeroesLast.2).1 _ (List.mem_cons_self ..)
      zero
  · simp only [List.map_cons, hops, List.forall_mem_cons] at assets
    simp only [List.map_cons, hops, List.nodup_cons, List.mem_cons,
      not_or] at distinct
    obtain ⟨last, lastOf⟩ := Option.isSome_iff_exists.mp
      (List.getLast?_isSome.mpr (List.cons_ne_nil (asset3, amount3) rest))
    refine delivers_more_hops_iff lastOf assets.2.1.2 assets.2.2.1.2
      (hopPool_ne lawful distinct.2.1.1) ?_ ?_
      zeroesLast.2 moves
    · intro hop member
      refine hopPool_ne lawful fun same => distinct.2.1.2 ?_
      exact same ▸ member
    · intro hop member
      refine hopPool_ne lawful fun same => distinct.2.2.1 ?_
      exact same ▸ member

/--
A swap reports the amount at the end of the path that it computes.  It moves
the amounts of that path if and only if its first hop is all there is to do.
-/
theorem swaps_deliver_iff
    (lawful : config.Lawful)
    (path : List Asset)
    (amount reported : BitVec w)
    (sender sendTo : Account)
    (keepAlive : Bool)
    (ledger next : Ledger w Account Asset) :
    (∀ amountOutMin,
      config.doSwapExactTokensForTokens sender path amount amountOutMin
          sendTo keepAlive ledger = .ok (reported, next) →
        ∃ balances,
          config.balancePathFromAmountIn ledger amount path =
              .ok balances ∧
            balances.getLast?.map Prod.snd = some reported ∧
            (config.Delivers false sender sendTo balances ledger next ↔
              config.FirstHopSuffices false sendTo balances)) ∧
      ∀ amountInMax,
        config.doSwapTokensForExactTokens sender path amount amountInMax
            sendTo keepAlive ledger = .ok (reported, next) →
          ∃ balances,
            config.balancePathFromAmountOut ledger amount path =
                .ok balances ∧
              balances.head?.map Prod.snd = some reported ∧
              (config.Delivers true sender sendTo balances ledger next ↔
                config.FirstHopSuffices true sendTo balances) := by
  constructor
  · intro amountOutMin swapped
    simp only [doSwapExactTokensForTokens, bind_eq_ok_iff, okOr_eq_ok_iff,
      Except.ok.injEq, Prod.mk.injEq] at swapped
    obtain ⟨_, _, _, _, _, valid, balances, computed, ⟨_, _⟩, lastOf, _, _, _,
      moved, rfl, rfl⟩ := swapped
    obtain ⟨assets, zeroesLast, _⟩ := balancePathFromAmountIn_eq_ok computed
    rw [← assets] at valid
    exact ⟨balances, computed, by rw [lastOf]; rfl,
      swap_delivers_iff lawful valid zeroesLast moved⟩
  · intro amountInMax swapped
    simp only [doSwapTokensForExactTokens, bind_eq_ok_iff, ensure_eq_ok_iff,
      exists_const, okOr_eq_ok_iff, Except.ok.injEq,
      Prod.mk.injEq] at swapped
    obtain ⟨some, _, _, valid, balances, computed, ⟨_, _⟩, firstOf, _, _,
      moved, rfl, rfl⟩ := swapped
    have computedBack := computed
    simp only [balancePathFromAmountOut, bind_eq_ok_iff,
      Except.ok.injEq] at computedBack
    obtain ⟨back, reversed, rfl⟩ := computedBack
    obtain ⟨assets, nonzero⟩ :=
      balancePathBack_eq_ok reversed fun zero => by simp [zero] at some
    have assetsOf : back.reverse.map Prod.fst = path := by
      rw [List.map_reverse, assets, List.reverse_reverse]
    have zeroesLast : ZeroesLast back.reverse :=
      List.pairwise_of_forall_mem_list fun binding member _ _ zero =>
        absurd zero (nonzero binding (List.mem_reverse.mp member))
    rw [← assetsOf] at valid
    exact ⟨back.reverse, computed, by rw [firstOf]; rfl,
      swap_delivers_iff lawful valid zeroesLast moved⟩

/-- Every pool holds 1000 of both of its assets. -/
def mockChain : Ledger 64 MockAccount Nat where
  balance asset
    | .inl _ => 1000000
    | .inr (base, quote) =>
        if asset = base ∨ asset = quote then 1000 else 0
  frozen _ _ := 0
  lpIssuance _ := 0
  lpBalance _ _ := 0

/--
On a path of two hops the recipient is paid the 90 of asset 1 from the first
pool, and 82 of asset 2 are reported.
-/
theorem swap_stops_after_first_hop :
    ∃ next balances,
      mock.doSwapExactTokensForTokens (.inl 1) [0, 1, 2] 100 none (.inl 2)
          true mockChain = .ok (82, next) ∧
        mock.balancePathFromAmountIn mockChain 100 [0, 1, 2] =
          .ok balances ∧
        balances = [(0, 100), (1, 90), (2, 82)] ∧
        next.balance 1 (.inl 2) = 1000090 ∧
        next.balance 2 (.inl 2) = 1000000 ∧
        ¬ mock.Delivers false (.inl 1) (.inl 2) balances mockChain next := by
  have observed :
      (mock.doSwapExactTokensForTokens (.inl 1) [0, 1, 2] 100 none (.inl 2)
          true mockChain).toOption.map
        (fun result => (result.1, result.2.balance 1 (.inl 2),
          result.2.balance 2 (.inl 2))) =
        some (82, 1000090, 1000000) := by
    decide
  obtain ⟨⟨amountOut, next⟩, swapped, seen⟩ :=
    Option.map_eq_some_iff.mp observed
  simp only [Prod.mk.injEq] at seen
  obtain ⟨rfl, paid, unpaid⟩ := seen
  refine ⟨next, [(0, 100), (1, 90), (2, 82)],
    toOption_eq_some_iff.mp swapped, by decide, rfl, paid, unpaid, ?_⟩
  rintro ⟨first, last, firstOf, lastOf, moved⟩
  obtain rfl := Option.some.inj firstOf
  obtain rfl := Option.some.inj lastOf
  have credited := moved 2 (.inl 2)
  rw [unpaid] at credited
  exact absurd credited (by decide)

/-- Paths of one hop, in both directions. -/
theorem swaps_deliver_one_hop :
    ∃ (amountOut amountIn : BitVec 64) (next after : Ledger 64 MockAccount Nat)
        (balances balancesBack : BalancePath 64 Nat),
      mock.doSwapExactTokensForTokens (.inl 1) [0, 1] 100 none (.inl 2) true
          mockChain = .ok (amountOut, next) ∧
        mock.Delivers false (.inl 1) (.inl 2) balances mockChain next ∧
        mock.doSwapTokensForExactTokens (.inl 1) [0, 1] 100 none (.inl 2)
          true mockChain = .ok (amountIn, after) ∧
        mock.Delivers true (.inl 1) (.inl 2) balancesBack mockChain
          after := by
  have exactIn :
      (mock.doSwapExactTokensForTokens (.inl 1) [0, 1] 100 none (.inl 2) true
        mockChain).isOk = true := by
    decide
  have exactOut :
      (mock.doSwapTokensForExactTokens (.inl 1) [0, 1] 100 none (.inl 2) true
        mockChain).isOk = true := by
    decide
  obtain ⟨⟨amountOut, next⟩, swapped⟩ := exists_ok_of_isOk exactIn
  obtain ⟨⟨amountIn, after⟩, swappedBack⟩ := exists_ok_of_isOk exactOut
  obtain ⟨balances, computed, _, delivers⟩ :=
    (swaps_deliver_iff mock_lawful [0, 1] 100 amountOut (.inl 1) (.inl 2) true
      mockChain next).1 none swapped
  obtain ⟨balancesBack, computedBack, _, deliversBack⟩ :=
    (swaps_deliver_iff mock_lawful [0, 1] 100 amountIn (.inl 1) (.inl 2) true
      mockChain after).2 none swappedBack
  obtain ⟨_, _, _, _, _, rfl⟩ := balancePathFromAmountIn_pair computed
  obtain ⟨_, _, _, _, _, rfl⟩ := balancePathFromAmountOut_pair computedBack
  exact ⟨amountOut, amountIn, next, after, _, _, swapped,
    delivers.mpr trivial, swappedBack, deliversBack.mpr trivial⟩

end Config

end HybridOrderbook
