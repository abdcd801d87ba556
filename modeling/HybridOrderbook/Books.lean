import HybridOrderbook.Levels
import HybridOrderbook.Matching

namespace HybridOrderbook

open Library

/-!
# Pools as pairs of price maps

`pool.Refines books` gives both books of a pool as finite maps, `books true`
the bids and `books false` the asks.  The operations of the pool and the two
actions of the matching loop are described on these maps.
-/

variable {w : Nat} {Account Asset : Type}

namespace Pool

/-- Both books of the pool refine price maps. -/
def Refines
    (pool : Pool w Account)
    (books : Bool → PriceMap w Account) : Prop :=
  ∀ isBid, (pool.getOrderbook isBid).Refines (books isBid)

/-- The parameters that a pool was created with. -/
structure SameTerms (pool next : Pool w Account) : Prop where
  lpToken : next.lpToken = pool.lpToken
  tickSize : next.tickSize = pool.tickSize
  lotSize : next.lotSize = pool.lotSize
  poolDecimals : next.poolDecimals = pool.poolDecimals
  baseDecimals : next.baseDecimals = pool.baseDecimals
  quoteDecimals : next.quoteDecimals = pool.quoteDecimals

theorem SameTerms.refl (pool : Pool w Account) : pool.SameTerms pool :=
  ⟨rfl, rfl, rfl, rfl, rfl, rfl⟩

theorem SameTerms.trans
    {pool middle next : Pool w Account}
    (first : pool.SameTerms middle)
    (second : middle.SameTerms next) : pool.SameTerms next where
  lpToken := second.lpToken.trans first.lpToken
  tickSize := second.tickSize.trans first.tickSize
  lotSize := second.lotSize.trans first.lotSize
  poolDecimals := second.poolDecimals.trans first.poolDecimals
  baseDecimals := second.baseDecimals.trans first.baseDecimals
  quoteDecimals := second.quoteDecimals.trans first.quoteDecimals

theorem SameTerms.bookScale
    {pool next : Pool w Account}
    (same : pool.SameTerms next) : next.bookScale = pool.bookScale := by
  simp only [Pool.bookScale, Pool.quoteShift, same.poolDecimals,
    same.baseDecimals, same.quoteDecimals]

theorem SameTerms.exactPrice
    {pool next : Pool w Account}
    (same : pool.SameTerms next)
    (base quote : Nat) :
    next.exactPrice base quote = pool.exactPrice base quote := by
  simp only [Pool.exactPrice, Pool.quoteShift, Pool.baseShift,
    same.poolDecimals, same.baseDecimals, same.quoteDecimals]

theorem SameTerms.poolPrice_eq
    {Asset : Type}
    {config : Config w Account Asset}
    {pool next : Pool w Account}
    (same : pool.SameTerms next)
    (base quote : BitVec w) :
    config.poolPrice next base quote = config.poolPrice pool base quote := by
  simp only [Config.poolPrice, Pool.decimalAdjustment, same.poolDecimals,
    same.baseDecimals, same.quoteDecimals]

/-- Replace the book of a side. -/
def setOrderbook
    (pool : Pool w Account)
    (isBid : Bool)
    (book : OrderBook w Account) : Pool w Account :=
  if isBid then { pool with bids := book } else { pool with asks := book }

theorem sameTerms_setOrderbook
    (pool : Pool w Account)
    (isBid : Bool)
    (book : OrderBook w Account) :
    pool.SameTerms (pool.setOrderbook isBid book) := by
  cases isBid with
  | true =>
      exact ⟨rfl, rfl, rfl, rfl, rfl, rfl⟩
  | false =>
      exact ⟨rfl, rfl, rfl, rfl, rfl, rfl⟩

variable {pool next : Pool w Account} {books : Bool → PriceMap w Account}
  {isBid : Bool} {owner : Account} {price quantity : BitVec w}

/-- Changing one book leaves the other one refined as it was. -/
theorem Refines.setOrderbook
    (refines : pool.Refines books)
    {isBid : Bool}
    {book : OrderBook w Account}
    {map : PriceMap w Account}
    (changed : book.Refines map) :
    (pool.setOrderbook isBid book).Refines
      (Function.update books isBid map) := by
  intro side
  by_cases same : side = isBid
  · subst same
    have found : (pool.setOrderbook side book).getOrderbook side = book := by
      cases side <;> rfl
    rw [Function.update_self, found]
    exact changed
  · have kept : (pool.setOrderbook isBid book).getOrderbook side =
        pool.getOrderbook side := by
      cases side <;> cases isBid <;> first | rfl | exact absurd rfl same
    rw [Function.update_of_ne same, kept]
    exact refines side

/-- The id that the next order of a side gets. -/
def nextOrderId (pool : Pool w Account) (isBid : Bool) : OrderId :=
  if isBid then pool.nextBidOrderId else pool.nextAskOrderId

@[simp] theorem nextOrderId_setOrderbook
    (pool : Pool w Account)
    (isBid : Bool)
    (book : OrderBook w Account) :
    (pool.setOrderbook isBid book).nextOrderId = pool.nextOrderId := by
  funext side
  cases isBid <;> rfl

/-- Take the next id of a side. -/
def drawNextOrderId (pool : Pool w Account) (isBid : Bool) :
    Outcome (OrderId × Pool w Account) :=
  if isBid then pool.drawNextBidOrderId else pool.drawNextAskOrderId

/-- Drawing an id advances one counter and changes nothing else. -/
theorem drawNextOrderId_eq_ok
    {orderId : OrderId}
    (drawn : pool.drawNextOrderId isBid = .ok (orderId, next)) :
    orderId = pool.nextOrderId isBid ∧
      (∃ following,
        orderId.checkedIncrease = some following ∧
          next.nextOrderId =
            Function.update pool.nextOrderId isBid following) ∧
      pool.SameTerms next ∧
      ∀ side, next.getOrderbook side = pool.getOrderbook side := by
  cases isBid with
  | true =>
      simp only [drawNextOrderId, ↓reduceIte, drawNextBidOrderId,
        bind_eq_ok_iff, okOr_eq_ok_iff, Except.ok.injEq,
        Prod.mk.injEq] at drawn
      obtain ⟨following, increased, rfl, rfl⟩ := drawn
      refine ⟨rfl, ⟨following, increased, ?_⟩,
        ⟨rfl, rfl, rfl, rfl, rfl, rfl⟩, fun _ => rfl⟩
      funext side
      cases side <;> rfl
  | false =>
      simp only [drawNextOrderId, Bool.false_eq_true, ↓reduceIte,
        drawNextAskOrderId, bind_eq_ok_iff, okOr_eq_ok_iff,
        Except.ok.injEq, Prod.mk.injEq] at drawn
      obtain ⟨following, increased, rfl, rfl⟩ := drawn
      refine ⟨rfl, ⟨following, increased, ?_⟩,
        ⟨rfl, rfl, rfl, rfl, rfl, rfl⟩, fun _ => rfl⟩
      funext side
      cases side <;> rfl

/-- Placing, for either side at once. -/
theorem placeOrder_side
    (pool : Pool w Account)
    (expiredAt : Nat)
    (isBid : Bool)
    (owner : Account)
    (price quantity : BitVec w) :
    pool.placeOrder expiredAt isBid owner price quantity = (do
      let (orderId, drawn) ← pool.drawNextOrderId isBid
      let (placed, book) := CritbitTree.placeOrder orderId owner price
        quantity expiredAt (drawn.getOrderbook isBid)
      mapErr (fun _ => .errorOnPlaceOrder) placed
      .ok ((price, orderId), drawn.setOrderbook isBid book)) := by
  cases isBid <;> rfl

/-- Filling, for either side at once. -/
theorem fillOrder_side
    (pool : Pool w Account)
    (isBid : Bool)
    (price quantity : BitVec w) :
    pool.fillOrder isBid price quantity = (do
      let (filled, book) := CritbitTree.fillOrder price quantity
        (pool.getOrderbook !isBid)
      let filled ← mapErr (fun _ => .errorOnFillOrder) filled
      .ok (filled, pool.setOrderbook (!isBid) book)) := by
  cases isBid <;> rfl

/-- Cancelling, for either side at once. -/
theorem cancelOrder_side
    [DecidableEq Account]
    (pool : Pool w Account)
    (maybeOwner : Account)
    (price : BitVec w)
    (orderId : OrderId)
    (quantity : BitVec w) :
    pool.cancelOrder maybeOwner price orderId quantity = (do
      let (canceled, book) := CritbitTree.cancelOrder maybeOwner price
        orderId quantity (pool.getOrderbook orderId.isBid)
      mapErr (fun _ => .errorOnCancelOrder) canceled
      .ok (orderId, pool.setOrderbook orderId.isBid book)) := by
  cases side : orderId.isBid <;>
    simp only [cancelOrder, side, Bool.false_eq_true, ↓reduceIte,
      getOrderbook, setOrderbook]

/-- A placed order gets the next id of its side. -/
theorem Refines.placeOrder_draws
    (width : 0 < w)
    {expiredAt : Nat}
    {answer : BitVec w × OrderId}
    (refines : pool.Refines books)
    (placed :
      pool.placeOrder expiredAt isBid owner price quantity =
        .ok (answer, next)) :
    answer = (price, pool.nextOrderId isBid) ∧
      (∃ following,
        (pool.nextOrderId isBid).checkedIncrease = some following ∧
          next.nextOrderId =
            Function.update pool.nextOrderId isBid following) ∧
      pool.SameTerms next ∧
      next.Refines (Function.update books isBid
        ((books isBid).placeOrder (pool.nextOrderId isBid) owner price
          quantity expiredAt)) := by
  simp only [placeOrder_side, bind_eq_ok_iff, mapErr_eq_ok_iff,
    Except.ok.injEq, Prod.mk.injEq] at placed
  obtain ⟨⟨orderId, drawn⟩, drew, _, succeeded, rfl, rfl⟩ := placed
  obtain ⟨rfl, ⟨following, increased, counters⟩, sameTerms, sameBooks⟩ :=
    drawNextOrderId_eq_ok drew
  have drawnRefines : drawn.Refines books := by
    intro side
    rw [sameBooks]
    exact refines side
  refine ⟨rfl, ⟨following, increased, ?_⟩,
    sameTerms.trans (sameTerms_setOrderbook _ _ _), ?_⟩
  · rw [nextOrderId_setOrderbook, counters]
  · rcases (drawnRefines isBid).placeOrder_eq width
        (pool.nextOrderId isBid) owner price quantity expiredAt with
      ⟨reached, executed, reachedRefines⟩ | ⟨_, _, refused⟩
    · rw [executed]
      exact drawnRefines.setOrderbook reachedRefines
    · rw [succeeded] at refused
      cases refused

theorem Refines.placeOrder_eq_ok
    (width : 0 < w)
    {expiredAt : Nat}
    {answer : BitVec w × OrderId}
    (refines : pool.Refines books)
    (placed :
      pool.placeOrder expiredAt isBid owner price quantity =
        .ok (answer, next)) :
    pool.SameTerms next ∧
      ∃ orderId,
        next.Refines (Function.update books isBid
          ((books isBid).placeOrder orderId owner price quantity
            expiredAt)) := by
  obtain ⟨_, _, sameTerms, nextRefines⟩ :=
    refines.placeOrder_draws width placed
  exact ⟨sameTerms, _, nextRefines⟩

theorem Refines.fillOrder_eq
    (width : 0 < w)
    (refines : pool.Refines books)
    (isBid : Bool)
    (price quantity : BitVec w) :
    ∃ next,
      pool.fillOrder isBid price quantity =
          .ok (((books !isBid).fillOrder price quantity).1, next) ∧
        next.nextOrderId = pool.nextOrderId ∧
        pool.SameTerms next ∧
        next.Refines (Function.update books (!isBid)
          ((books !isBid).fillOrder price quantity).2) := by
  obtain ⟨reached, executed, reachedRefines⟩ :=
    (refines !isBid).fillOrder_eq width price quantity
  refine ⟨pool.setOrderbook (!isBid) reached, ?_,
    nextOrderId_setOrderbook _ _ _, sameTerms_setOrderbook _ _ _,
    refines.setOrderbook reachedRefines⟩
  rw [fillOrder_side, executed]
  rfl

theorem Refines.cancelOrder_eq_ok
    [DecidableEq Account]
    (width : 0 < w)
    {orderId answer : OrderId}
    (refines : pool.Refines books)
    (canceled :
      pool.cancelOrder owner price orderId quantity = .ok (answer, next)) :
    ((books orderId.isBid).cancelOrder owner price orderId quantity).1 =
        .ok () ∧
      next.nextOrderId = pool.nextOrderId ∧
      pool.SameTerms next ∧
      next.Refines (Function.update books orderId.isBid
        ((books orderId.isBid).cancelOrder owner price orderId
          quantity).2) := by
  obtain ⟨reached, executed, reachedRefines⟩ :=
    (refines orderId.isBid).cancelOrder_eq width owner price orderId quantity
  simp only [cancelOrder_side, executed, bind_eq_ok_iff, mapErr_eq_ok_iff,
    Except.ok.injEq, Prod.mk.injEq] at canceled
  obtain ⟨_, succeeded, _, rfl⟩ := canceled
  exact ⟨succeeded, nextOrderId_setOrderbook _ _ _,
    sameTerms_setOrderbook _ _ _, refines.setOrderbook reachedRefines⟩

/-- A taker meets the best level of the opposite book. -/
theorem Refines.nextOrder_eq
    [DecidableEq Account]
    (refines : pool.Refines books)
    (isBid : Bool) :
    (books (!isBid) = ∅ ∧ pool.nextOrder isBid = none) ∨
      ∃ price index,
        pool.nextOrder isBid = some (price, index) ∧
          price ∈ books (!isBid) ∧
          ∀ other ∈ books (!isBid),
            WithinLimit isBid other.toNat price.toNat := by
  cases isBid with
  | true =>
      have asks : pool.asks.Refines (books false) := refines false
      rcases asks.minLeaf_eq with
        ⟨empty, answered⟩ | ⟨key, index, _, _, answered, _, bound, least⟩
      · refine .inl ⟨empty, ?_⟩
        simp [nextOrder, nextAskOrder, CritbitTree.minOrder, answered]
      · refine .inr ⟨key, index, ?_, TreeMap.mem_of_getElem? bound, least⟩
        simp [nextOrder, nextAskOrder, CritbitTree.minOrder, answered]
  | false =>
      have bids : pool.bids.Refines (books true) := refines true
      rcases bids.maxLeaf_eq with
        ⟨empty, answered⟩ | ⟨key, index, _, _, answered, _, bound, greatest⟩
      · refine .inl ⟨empty, ?_⟩
        simp [nextOrder, nextBidOrder, CritbitTree.maxOrder, answered]
      · refine .inr
          ⟨key, index, ?_, TreeMap.mem_of_getElem? bound, greatest⟩
        simp [nextOrder, nextBidOrder, CritbitTree.maxOrder, answered]

theorem Refines.nextOrder_eq_none_iff
    [DecidableEq Account]
    (refines : pool.Refines books) :
    pool.nextOrder isBid = none ↔ books (!isBid) = ∅ := by
  rcases refines.nextOrder_eq isBid with
    ⟨empty, none⟩ | ⟨price, index, some, member, _⟩
  · exact ⟨fun _ => empty, fun _ => none⟩
  · constructor
    · intro none
      rw [none] at some
      cases some
    · intro empty
      rw [empty] at member
      simp at member

theorem Refines.best_of_nextOrder
    [DecidableEq Account]
    (refines : pool.Refines books)
    {index : BitVec w}
    (best : pool.nextOrder isBid = some (price, index)) :
    price ∈ books (!isBid) ∧
      ∀ other ∈ books (!isBid),
        WithinLimit isBid other.toNat price.toNat := by
  rcases refines.nextOrder_eq isBid with
    ⟨_, none⟩ | ⟨found, _, answered, member, least⟩
  · rw [none] at best
    cases best
  · rw [best, Option.some.injEq, Prod.mk.injEq] at answered
    obtain ⟨rfl, _⟩ := answered
    exact ⟨member, least⟩

/--
Both books refine price maps in which every order has a property of its side,
price, owner and quantity.
-/
structure Keeps
    (property : Bool → BitVec w → Account → Nat → Prop)
    (pool : Pool w Account)
    (books : Bool → PriceMap w Account) : Prop where
  refines : pool.Refines books
  all : ∀ side, (books side).All (property side)

variable {property : Bool → BitVec w → Account → Nat → Prop}

theorem Keeps.update
    (keeps : pool.Keeps property books)
    {side : Bool}
    {map : PriceMap w Account}
    (refines : next.Refines (Function.update books side map))
    (all : map.All (property side)) :
    next.Keeps property (Function.update books side map) where
  refines := refines
  all other := by
    by_cases same : other = side
    · subst same
      rw [Function.update_self]
      exact all
    · rw [Function.update_of_ne same]
      exact keeps.all other

theorem Keeps.placeOrder
    (width : 0 < w)
    {expiredAt : Nat}
    {answer : BitVec w × OrderId}
    (keeps : pool.Keeps property books)
    (holds : property isBid price owner quantity.toNat)
    (placed :
      pool.placeOrder expiredAt isBid owner price quantity =
        .ok (answer, next)) :
    ∃ books, next.Keeps property books := by
  obtain ⟨_, orderId, refines⟩ := keeps.refines.placeOrder_eq_ok width placed
  exact ⟨_, keeps.update refines ((keeps.all isBid).placeOrder holds)⟩

theorem Keeps.cancelOrder
    [DecidableEq Account]
    (width : 0 < w)
    {amount : Nat → Prop}
    (splits : ∀ side key, Tick.Splits (property side key) amount)
    {orderId answer : OrderId}
    (keeps : pool.Keeps property books)
    (fits : amount quantity.toNat)
    (canceled :
      pool.cancelOrder owner price orderId quantity = .ok (answer, next)) :
    ∃ books, next.Keeps property books := by
  obtain ⟨_, _, _, refines⟩ :=
    keeps.refines.cancelOrder_eq_ok width canceled
  exact ⟨_, keeps.update refines
    ((keeps.all orderId.isBid).cancelOrder (splits orderId.isBid) fits)⟩

/-- A book of the pool has a level at a price. -/
def HasLevel
    (pool : Pool w Account)
    (isBid : Bool)
    (price : BitVec w) : Prop :=
  ∃ index : BitVec w, ∃ leaf,
    (pool.getOrderbook isBid).leaves[index]? = some leaf ∧ leaf.key = price

/-- Both books refine price maps whose levels have a property. -/
structure LevelsKeep
    (property : Bool → BitVec w → Prop)
    (pool : Pool w Account)
    (books : Bool → PriceMap w Account) : Prop where
  refines : pool.Refines books
  levels : ∀ side, ∀ level ∈ books side, property side level

section Levels

variable {property : Bool → BitVec w → Prop}

theorem LevelsKeep.hasLevel
    (keeps : pool.LevelsKeep property books)
    {side : Bool}
    {level : BitVec w}
    (has : pool.HasLevel side level) : property side level := by
  obtain ⟨index, leaf, stored, rfl⟩ := has
  exact keeps.levels side _
    (TreeMap.mem_of_getElem? ((keeps.refines side).bound_of_leaf stored))

/-- A book that gets no levels without the property. -/
theorem LevelsKeep.update
    (keeps : pool.LevelsKeep property books)
    {side : Bool}
    {map : PriceMap w Account}
    (refines : next.Refines (Function.update books side map))
    (levels : ∀ level ∈ map, level ∈ books side ∨ property side level) :
    next.LevelsKeep property (Function.update books side map) where
  refines := refines
  levels other level member := by
    by_cases same : other = side
    · subst same
      rw [Function.update_self] at member
      rcases levels level member with old | new
      · exact keeps.levels other level old
      · exact new
    · rw [Function.update_of_ne same] at member
      exact keeps.levels other level member

theorem LevelsKeep.placeOrder
    (width : 0 < w)
    {expiredAt : Nat}
    {answer : BitVec w × OrderId}
    (keeps : pool.LevelsKeep property books)
    (holds : property isBid price)
    (placed :
      pool.placeOrder expiredAt isBid owner price quantity =
        .ok (answer, next)) :
    ∃ books, next.LevelsKeep property books := by
  obtain ⟨_, orderId, refines⟩ := keeps.refines.placeOrder_eq_ok width placed
  refine ⟨_, keeps.update refines fun level member => ?_⟩
  rcases PriceMap.mem_placeOrder member with rfl | known
  · exact .inr holds
  · exact .inl known

theorem LevelsKeep.cancelOrder
    [DecidableEq Account]
    (width : 0 < w)
    {orderId answer : OrderId}
    (keeps : pool.LevelsKeep property books)
    (canceled :
      pool.cancelOrder owner price orderId quantity = .ok (answer, next)) :
    ∃ books, next.LevelsKeep property books := by
  obtain ⟨_, _, _, refines⟩ :=
    keeps.refines.cancelOrder_eq_ok width canceled
  exact ⟨_, keeps.update refines fun _ member =>
    .inl (PriceMap.mem_of_mem_cancelOrder member)⟩

end Levels

end Pool

theorem Fills.toNat_sum
    {fills : Fills w Account}
    (fits : Tick.fillsWorth (fun _ part => part) fills < 2 ^ w) :
    (Fills.sum fills).toNat = Tick.fillsWorth (fun _ part => part) fills := by
  have wraps :
      ∀ start : BitVec w,
        (fills.foldl (fun total fill => total + fill.2) start).toNat =
          (start.toNat + Tick.fillsWorth (fun _ part => part) fills) %
            2 ^ w := by
    clear fits
    induction fills with
    | nil =>
        intro start
        simp [Tick.fillsWorth, Nat.mod_eq_of_lt start.isLt]
    | cons fill rest inductionHypothesis =>
        intro start
        rw [List.foldl_cons, inductionHypothesis, BitVec.toNat_add,
          Nat.mod_add_mod]
        simp [Tick.fillsWorth, Nat.add_assoc]
  simp [Fills.sum, wraps, Nat.mod_eq_of_lt fits]

section Actions

variable [DecidableEq Account] [DecidableEq Asset]
  {config : Config w Account Asset} {isBid : Bool} {orderer : Account}
  {base quote : Asset} {books : Bool → PriceMap w Account}
  {state next : MatchState w Account Asset} {price : BitVec w}

/-- Filling from the book changes one side of the books, and no funds. -/
structure FillsBook
    (isBid : Bool)
    (books : Bool → PriceMap w Account)
    (price : BitVec w)
    (state next : MatchState w Account Asset) : Prop where
  ledger : next.ledger = state.ledger
  swaps : next.swaps = state.swaps
  sameTerms : state.pool.SameTerms next.pool
  refines :
    next.pool.Refines (Function.update books (!isBid)
      ((books !isBid).fillOrder price state.remainOrders).2)
  filledOrders :
    next.filledOrders =
      state.filledOrders ++
        ((books !isBid).fillsAt price state.remainOrders).map
          fun fill => (fill.1, price, fill.2)
  remainOrders :
    next.remainOrders.toNat +
        Tick.fillsWorth (fun _ part => part)
          ((books !isBid).fillsAt price state.remainOrders) =
      state.remainOrders.toNat

omit [DecidableEq Account] [DecidableEq Asset] in
theorem fillsBook_of_doFillBook
    (width : 0 < w)
    (refines : state.pool.Refines books)
    (filled : doFillBook isBid price state = .ok next) :
    FillsBook isBid books price state next := by
  obtain ⟨pool, executed, _, sameTerms, nextRefines⟩ :=
    refines.fillOrder_eq width isBid price state.remainOrders
  simp only [doFillBook, executed, bind_eq_ok_iff, mapErr_eq_ok_iff,
    Except.ok.injEq, exists_eq_left'] at filled
  subst filled
  refine ⟨rfl, rfl, sameTerms, nextRefines, rfl, ?_⟩
  have bounded :=
    (books !isBid).fillsWorth_fillsAt_le price state.remainOrders
  have counted := Fills.toNat_sum
    (Nat.lt_of_le_of_lt bounded state.remainOrders.isLt)
  have covered :
      Fills.sum ((books !isBid).fillsAt price state.remainOrders) ≤
        state.remainOrders := by
    rw [BitVec.le_def, counted]
    exact bounded
  have exact := BitVec.toNat_sub_of_le covered
  rw [counted] at exact
  have left :
      (state.remainOrders -
          Fills.sum ((books !isBid).fillsAt price
            state.remainOrders)).toNat +
        Tick.fillsWorth (fun _ part => part)
          ((books !isBid).fillsAt price state.remainOrders) =
      state.remainOrders.toNat := by
    omega
  exact left

omit [DecidableEq Account] [DecidableEq Asset] in
/-- Filling from the book leaves the funds to be settled. -/
theorem ledger_of_doFillBook
    {price : BitVec w}
    (filled : doFillBook isBid price state = .ok next) :
    next.ledger = state.ledger := by
  simp only [doFillBook, bind_eq_ok_iff, Except.ok.injEq] at filled
  obtain ⟨_, _, rfl⟩ := filled
  rfl

/-- Filling from the pool changes funds, and none of the books. -/
theorem Config.fillFromPool_eq_ok
    {quantity : BitVec w}
    (filled :
      config.fillFromPool isBid orderer base quote quantity state =
        .ok next) :
    config.doFillPool isBid orderer quantity base quote state.ledger =
        .ok next.ledger ∧
      next =
        { state with
          remainOrders := state.remainOrders - quantity
          ledger := next.ledger
          swaps := state.swaps ++ [(quantity, next.ledger)] } := by
  simp only [Config.fillFromPool, bind_eq_ok_iff, Except.ok.injEq] at filled
  obtain ⟨ledger, swapped, rfl⟩ := filled
  exact ⟨swapped, rfl⟩

/-- The quantities that matching takes from the pool in a given state. -/
def Config.TakesFromPool
    (config : Config w Account Asset)
    (isBid : Bool)
    (base quote : Asset)
    (state : MatchState w Account Asset)
    (quantity : BitVec w) : Prop :=
  (state.pool.nextOrder isBid = none ∧ quantity = state.remainOrders) ∨
    ∃ targetPrice index maxSwapQuantity,
      state.pool.nextOrder isBid = some (targetPrice, index) ∧
        config.findMaxSwapQuantity state.pool isBid targetPrice state.ledger
          base quote state.remainOrders = .ok maxSwapQuantity ∧
        (quantity = maxSwapQuantity ∧
            maxSwapQuantity < state.remainOrders ∨
          quantity = state.remainOrders ∧
            state.remainOrders ≤ maxSwapQuantity)

omit [DecidableEq Account] in
theorem Config.TakesFromPool.le
    {quantity : BitVec w}
    (takes : config.TakesFromPool isBid base quote state quantity) :
    quantity ≤ state.remainOrders := by
  rcases takes with ⟨_, rfl⟩ | ⟨_, _, _, _, _, ⟨rfl, less⟩ | ⟨rfl, _⟩⟩
  · exact BitVec.le_refl _
  · exact BitVec.le_of_lt less
  · exact BitVec.le_refl _

/-- What a round that goes on has done. -/
theorem Config.matchBody_round
    (stepped :
      config.matchBody isBid orderer base quote state = .ok (.inl next)) :
    0 < state.remainOrders ∧
      ∃ targetPrice index maxSwapQuantity,
        state.pool.nextOrder isBid = some (targetPrice, index) ∧
          config.findMaxSwapQuantity state.pool isBid targetPrice
            state.ledger base quote state.remainOrders =
              .ok maxSwapQuantity ∧
          (state.remainOrders ≤ maxSwapQuantity ∧
              config.fillFromPool isBid orderer base quote
                state.remainOrders state = .ok next ∨
            maxSwapQuantity < state.remainOrders ∧
              ∃ middle,
                (maxSwapQuantity = 0 ∧ middle = state ∨
                  config.fillFromPool isBid orderer base quote
                    maxSwapQuantity state = .ok middle) ∧
                  doFillBook isBid targetPrice middle = .ok next) := by
  unfold Config.matchBody at stepped
  by_cases unfinished : state.remainOrders > 0
  · refine ⟨unfinished, ?_⟩
    simp only [unfinished, ↓reduceIte] at stepped
    split at stepped
    · rename_i targetPrice index best
      simp only [bind_eq_ok_iff] at stepped
      obtain ⟨maxSwapQuantity, found, stepped⟩ := stepped
      refine ⟨targetPrice, index, maxSwapQuantity, best, found, ?_⟩
      by_cases enough : state.remainOrders ≤ maxSwapQuantity
      · simp only [enough, ↓reduceIte, bind_eq_ok_iff, Except.ok.injEq,
          Sum.inl.injEq] at stepped
        obtain ⟨_, filled, rfl⟩ := stepped
        exact .inl ⟨enough, filled⟩
      · refine .inr ⟨BitVec.not_le.mp enough, ?_⟩
        simp only [enough, ↓reduceIte] at stepped
        split at stepped
        · simp only [bind_eq_ok_iff, Except.ok.injEq, Sum.inl.injEq]
            at stepped
          obtain ⟨middle, reached, _, filled, rfl⟩ := stepped
          exact ⟨middle, .inr reached, filled⟩
        · rename_i none
          simp only [bind_eq_ok_iff, Except.ok.injEq, Sum.inl.injEq,
            exists_eq_left'] at stepped
          obtain ⟨_, filled, rfl⟩ := stepped
          exact ⟨state, .inl ⟨not_not.mp none, rfl⟩, filled⟩
    · simp at stepped
  · simp only [unfinished, ↓reduceIte, Except.ok.injEq, reduceCtorEq]
      at stepped

/-- A round that goes on takes from the pool, from the book, or from both. -/
theorem Config.matchBody_next
    (stepped :
      config.matchBody isBid orderer base quote state = .ok (.inl next)) :
    ∃ targetPrice index maxSwapQuantity,
      state.pool.nextOrder isBid = some (targetPrice, index) ∧
        config.findMaxSwapQuantity state.pool isBid targetPrice state.ledger
          base quote state.remainOrders = .ok maxSwapQuantity ∧
        ((∃ quantity,
          config.TakesFromPool isBid base quote state quantity ∧
            config.fillFromPool isBid orderer base quote quantity state =
              .ok next) ∨
        ∃ middle,
          (middle = state ∨
            ∃ quantity,
              config.TakesFromPool isBid base quote state quantity ∧
                config.fillFromPool isBid orderer base quote quantity
                  state = .ok middle) ∧
            0 < middle.remainOrders ∧
            doFillBook isBid targetPrice middle = .ok next) := by
  obtain ⟨unfinished, targetPrice, index, maxSwapQuantity, best, found,
    round⟩ := Config.matchBody_round stepped
  refine ⟨targetPrice, index, maxSwapQuantity, best, found, ?_⟩
  rcases round with
    ⟨enough, filled⟩ | ⟨less, middle, ⟨_, rfl⟩ | reached, filled⟩
  · exact .inl ⟨_, .inr ⟨targetPrice, index, maxSwapQuantity, best,
      found, .inr ⟨rfl, enough⟩⟩, filled⟩
  · exact .inr ⟨middle, .inl rfl, unfinished, filled⟩
  · refine .inr ⟨middle, .inr ⟨maxSwapQuantity, .inr ⟨targetPrice, index,
      maxSwapQuantity, best, found, .inl ⟨rfl, less⟩⟩, reached⟩, ?_, filled⟩
    rw [(Config.fillFromPool_eq_ok reached).2]
    have left : 0 < state.remainOrders - maxSwapQuantity := by
      rw [BitVec.lt_def, BitVec.toNat_sub_of_le (BitVec.le_of_lt less)]
      exact Nat.sub_pos_of_lt (BitVec.lt_def.mp less)
    exact left

theorem Config.matchBody_done
    {result : MatchState w Account Asset}
    (stepped :
      config.matchBody isBid orderer base quote state =
        .ok (.inr result)) :
    result = state ∧
      (0 < state.remainOrders → state.pool.nextOrder isBid = none) := by
  unfold Config.matchBody at stepped
  by_cases unfinished : state.remainOrders > 0
  · simp only [unfinished, ↓reduceIte] at stepped
    split at stepped
    · simp only [bind_eq_ok_iff] at stepped
      obtain ⟨_, _, stepped⟩ := stepped
      exfalso
      split at stepped
      · simp [bind_eq_ok_iff] at stepped
      · split at stepped <;> simp [bind_eq_ok_iff] at stepped
    · rename_i none
      simp only [Except.ok.injEq, Sum.inr.injEq] at stepped
      exact ⟨stepped.symm, fun _ => none⟩
  · simp only [unfinished, ↓reduceIte, Except.ok.injEq, Sum.inr.injEq]
      at stepped
    exact ⟨stepped.symm, fun more => absurd more unfinished⟩

/-- What both ways of filling preserve, a round preserves. -/
theorem Config.matchBody_invariant
    (invariant : MatchState w Account Asset → Prop)
    (fromPool :
      ∀ state next quantity,
        invariant state →
          config.TakesFromPool isBid base quote state quantity →
            config.fillFromPool isBid orderer base quote quantity state =
              .ok next → invariant next)
    (fromBook :
      ∀ state next price index,
        invariant state →
          state.pool.nextOrder isBid = some (price, index) →
            0 < state.remainOrders →
              doFillBook isBid price state = .ok next → invariant next)
    (holds : invariant state)
    (stepped :
      config.matchBody isBid orderer base quote state = .ok (.inl next)) :
    invariant next := by
  obtain ⟨targetPrice, index, _, best, _,
    ⟨quantity, takes, filled⟩ | ⟨middle, reached, unfinished, filled⟩⟩ :=
    Config.matchBody_next stepped
  · exact fromPool state next quantity holds takes filled
  · rcases reached with rfl | ⟨quantity, takes, swapped⟩
    · exact fromBook middle next targetPrice index holds best unfinished
        filled
    · have samePool : middle.pool = state.pool := by
        rw [(Config.fillFromPool_eq_ok swapped).2]
      exact fromBook middle next targetPrice index
        (fromPool state middle quantity holds takes swapped)
        (samePool ▸ best) unfinished filled

/-- A round leaves a pool that represents its books. -/
theorem Config.refines_of_matchBody
    (width : 0 < w)
    (known : ∃ books, state.pool.Refines books)
    (stepped :
      config.matchBody isBid orderer base quote state = .ok (.inl next)) :
    ∃ books, next.pool.Refines books := by
  refine Config.matchBody_invariant
    (fun state => ∃ books, state.pool.Refines books) ?_ ?_ known stepped
  · rintro state next quantity ⟨books, refines⟩ _ filled
    rw [(Config.fillFromPool_eq_ok filled).2]
    exact ⟨books, refines⟩
  · rintro state next price index ⟨books, refines⟩ _ _ filled
    exact ⟨_, (fillsBook_of_doFillBook width refines filled).refines⟩

/--
The rule for matching: what both ways of filling preserve, matching preserves.
-/
theorem Config.matchOrders_invariant
    (invariant : MatchState w Account Asset → Prop)
    (fromPool :
      ∀ state next quantity,
        invariant state →
          config.TakesFromPool isBid base quote state quantity →
            config.fillFromPool isBid orderer base quote quantity state =
              .ok next → invariant next)
    (fromBook :
      ∀ state next price index,
        invariant state →
          state.pool.nextOrder isBid = some (price, index) →
            0 < state.remainOrders →
              doFillBook isBid price state = .ok next → invariant next)
    {pool : Pool w Account}
    {orderQuantity : BitVec w}
    {ledger : Ledger w Account Asset}
    {final : MatchState w Account Asset}
    (initial : invariant ⟨orderQuantity, pool, ledger, [], []⟩)
    (matched :
      config.matchOrders isBid orderer base quote pool orderQuantity
        ledger = .ok final) : invariant final := by
  simp only [Config.matchOrders, bind_eq_ok_iff] at matched
  obtain ⟨left, looped, finished⟩ := matched
  have atExit :
      invariant left ∧
        (0 < left.remainOrders → left.pool.nextOrder isBid = none) := by
    refine Loop.loop_invariant invariant
      (fun left => invariant left ∧
        (0 < left.remainOrders → left.pool.nextOrder isBid = none))
      ?_ ?_ initial looped
    · intro state next holds stepped
      exact Config.matchBody_invariant invariant fromPool fromBook holds
        stepped
    · intro state result holds stepped
      obtain ⟨rfl, done⟩ := Config.matchBody_done stepped
      exact ⟨holds, done⟩
  obtain ⟨holds, done⟩ := atExit
  by_cases unfinished : left.remainOrders > 0
  · simp only [unfinished, ↓reduceIte] at finished
    exact fromPool left final left.remainOrders holds
      (.inl ⟨done unfinished, rfl⟩) finished
  · simp only [unfinished, ↓reduceIte, Except.ok.injEq] at finished
    exact finished ▸ holds

/-- While an order is matched, resting orders and fills have the property. -/
structure MatchKeeps
    (property : Bool → BitVec w → Account → Nat → Prop)
    (isBid : Bool)
    (pool : Pool w Account)
    (state : MatchState w Account Asset) : Prop where
  keeps : ∃ books, state.pool.Keeps property books
  sameTerms : pool.SameTerms state.pool
  fills :
    ∀ fill ∈ state.filledOrders,
      property (!isBid) fill.2.1 fill.1 fill.2.2.toNat

variable {property : Bool → BitVec w → Account → Nat → Prop}
  {pool : Pool w Account}

omit [DecidableEq Account] [DecidableEq Asset] in
theorem MatchKeeps.doFillBook
    (width : 0 < w)
    (downward : ∀ side key, Tick.Downward (property side key))
    (matching : MatchKeeps property isBid pool state)
    (filled : HybridOrderbook.doFillBook isBid price state = .ok next) :
    MatchKeeps property isBid pool next := by
  obtain ⟨books, keeps⟩ := matching.keeps
  have fills := fillsBook_of_doFillBook width keeps.refines filled
  obtain ⟨stay, given⟩ := (keeps.all (!isBid)).fillOrder
    (fun key => (downward (!isBid) key).splits) price state.remainOrders
    trivial
  refine ⟨⟨_, keeps.update fills.refines stay⟩,
    matching.sameTerms.trans fills.sameTerms, ?_⟩
  intro fill member
  rw [fills.filledOrders] at member
  rcases List.mem_append.mp member with earlier | new
  · exact matching.fills fill earlier
  · obtain ⟨part, listed, rfl⟩ := List.mem_map.mp new
    exact given part listed

theorem MatchKeeps.fillFromPool
    {quantity : BitVec w}
    (matching : MatchKeeps property isBid pool state)
    (filled :
      config.fillFromPool isBid orderer base quote quantity state =
        .ok next) : MatchKeeps property isBid pool next := by
  rw [(Config.fillFromPool_eq_ok filled).2]
  exact ⟨matching.keeps, matching.sameTerms, matching.fills⟩

omit [DecidableEq Account] [DecidableEq Asset] in
theorem Pool.Keeps.matching
    {books : Bool → PriceMap w Account}
    (keeps : pool.Keeps property books)
    (isBid : Bool)
    (orderQuantity : BitVec w)
    (ledger : Ledger w Account Asset) :
    MatchKeeps property isBid pool ⟨orderQuantity, pool, ledger, [], []⟩ :=
  ⟨⟨books, keeps⟩, Pool.SameTerms.refl pool, fun _ member => by cases member⟩

/-- Matching keeps what all resting orders have. -/
theorem Pool.Keeps.matchOrders
    (width : 0 < w)
    (downward : ∀ side key, Tick.Downward (property side key))
    {books : Bool → PriceMap w Account}
    (keeps : pool.Keeps property books)
    {orderQuantity : BitVec w}
    {ledger : Ledger w Account Asset}
    {final : MatchState w Account Asset}
    (matched :
      config.matchOrders isBid orderer base quote pool orderQuantity
        ledger = .ok final) :
    MatchKeeps property isBid pool final := by
  refine Config.matchOrders_invariant (MatchKeeps property isBid pool)
    ?_ ?_ (keeps.matching isBid orderQuantity ledger) matched
  · intro state next quantity matching _ filled
    exact matching.fillFromPool filled
  · intro state next price index matching _ _ filled
    exact matching.doFillBook width downward filled

theorem Pool.Refines.sameTerms_matchOrders
    (width : 0 < w)
    {books : Bool → PriceMap w Account}
    (refines : pool.Refines books)
    {orderQuantity : BitVec w}
    {ledger : Ledger w Account Asset}
    {final : MatchState w Account Asset}
    (matched :
      config.matchOrders isBid orderer base quote pool orderQuantity
        ledger = .ok final) :
    pool.SameTerms final.pool := by
  have keeps : pool.Keeps (fun _ _ _ _ => True) books :=
    ⟨refines, fun _ _ _ _ _ _ _ => trivial⟩
  exact (keeps.matchOrders width (fun _ _ _ _ _ _ _ => trivial)
    matched).sameTerms

/-- Matching opens no level. -/
theorem Pool.LevelsKeep.matchOrders
    (width : 0 < w)
    {levelProperty : Bool → BitVec w → Prop}
    {books : Bool → PriceMap w Account}
    (keeps : pool.LevelsKeep levelProperty books)
    {orderQuantity : BitVec w}
    {ledger : Ledger w Account Asset}
    {final : MatchState w Account Asset}
    (matched :
      config.matchOrders isBid orderer base quote pool orderQuantity
        ledger = .ok final) :
    ∃ books, final.pool.LevelsKeep levelProperty books := by
  refine Config.matchOrders_invariant
    (fun state => ∃ books, state.pool.LevelsKeep levelProperty books)
    ?_ ?_ ⟨books, keeps⟩ matched
  · intro state next quantity reached _ filled
    rw [(Config.fillFromPool_eq_ok filled).2]
    exact reached
  · rintro state next price index ⟨books, reached⟩ _ _ filled
    have fills := fillsBook_of_doFillBook width reached.refines filled
    exact ⟨_, reached.update fills.refines fun _ member =>
      .inl (PriceMap.mem_of_mem_fillOrder member)⟩

end Actions

end HybridOrderbook
