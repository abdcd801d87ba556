import HybridOrderbook.Library.TreeMap

namespace HybridOrderbook

open Library

/-!
# Orders and ticks

A tick holds the open orders at one price.  They are kept in order of their
ids, so that iterating over them is serving them first come, first served.
-/

/-- Order id of the hybrid orderbook, a 64-bit word. -/
abbrev OrderId := BitVec 64

namespace OrderId

/-- Ids of bids count up from zero. -/
def startBidId : OrderId := 0

/-- Ids of asks count up from the top bit. -/
def startAskId : OrderId := 1#64 <<< 63

/-- An id is a bid's when its top bit is clear. -/
def isBid (orderId : OrderId) : Bool :=
  orderId &&& startAskId == 0

/-- First id of a side. -/
def new (bid : Bool) : OrderId :=
  if bid then startBidId else startAskId

/-- The id after this one on the same side, if there is one. -/
def checkedIncrease (orderId : OrderId) : Option OrderId :=
  let maxIndex := if orderId.isBid then startAskId else BitVec.allOnes 64
  if orderId = maxIndex - 1 then none else some (orderId + 1)

/-- Ids are compared as words, which makes them keys of a sorted map. -/
instance instTransCmp :
    Std.TransCmp (compare : OrderId → OrderId → Ordering) :=
  inferInstance

end OrderId

/-- The order of the orderbook. -/
structure Order (w : Nat) (Account : Type) where
  quantity : BitVec w
  owner : Account
  expiredAt : Nat
  deriving Repr, DecidableEq

/-- Errors of operations on one order. -/
inductive OrderError where
  | orderNotExist
  | notOwner
  | underflow
  deriving Repr, DecidableEq

/-- All open orders at one price, by order id. -/
structure Tick (w : Nat) (Account : Type) where
  openOrders : Std.ExtTreeMap OrderId (Order w Account)

/-- Owners and quantities of the orders that a fill consumed. -/
abbrev Fills (w : Nat) (Account : Type) := List (Account × BitVec w)

namespace Tick

variable {w : Nat} {Account : Type}

/-- Create new instance of `Tick` with one order. -/
def new
    (orderId : OrderId)
    (owner : Account)
    (quantity : BitVec w)
    (expiredAt : Nat) : Tick w Account where
  openOrders := (∅ : Std.ExtTreeMap OrderId (Order w Account)).insert orderId
    ⟨quantity, owner, expiredAt⟩

/-- Whether there are no open orders. -/
def isEmpty (tick : Tick w Account) : Bool :=
  tick.openOrders.isEmpty

/-- Add an order. -/
def placed
    (tick : Tick w Account)
    (orderId : OrderId)
    (owner : Account)
    (quantity : BitVec w)
    (expiredAt : Nat) : Tick w Account where
  openOrders := tick.openOrders.insert orderId ⟨quantity, owner, expiredAt⟩

/-- What the loop of `filled` has accumulated. -/
structure Filling (w : Nat) (Account : Type) where
  openOrders : Std.ExtTreeMap OrderId (Order w Account)
  filled : BitVec w
  toRemove : List OrderId
  res : Fills w Account

/-- An order that is larger than what is left to fill is filled in part. -/
def Filling.fillPart
    (state : Filling w Account)
    (id : OrderId)
    (order : Order w Account)
    (remain : BitVec w) : Filling w Account :=
  { state with
    openOrders := state.openOrders.insert id
      { order with quantity := order.quantity - remain }
    filled := state.filled + remain
    res := state.res ++ [(order.owner, remain)] }

/-- A smaller order is filled as a whole and marked for removal. -/
def Filling.fillWhole
    (state : Filling w Account)
    (id : OrderId)
    (order : Order w Account) : Filling w Account :=
  { state with
    filled := state.filled + order.quantity
    toRemove := state.toRemove ++ [id]
    res := state.res ++ [(order.owner, order.quantity)] }

/-- The loop of `filled` over the open orders. -/
def fillLoop (quantity : BitVec w) :
    List (OrderId × Order w Account) →
      Filling w Account → Filling w Account
  | [], state => state
  | (id, order) :: rest, state =>
      let remain := quantity - state.filled
      if remain = 0 then
        state
      else if order.quantity ≥ remain then
        fillLoop quantity rest (state.fillPart id order remain)
      else
        fillLoop quantity rest (state.fillWhole id order)

/-- The loop of `filled` from its initial accumulators. -/
def filling (tick : Tick w Account) (quantity : BitVec w) :
    Filling w Account :=
  fillLoop quantity tick.openOrders.toList ⟨tick.openOrders, 0, [], []⟩

/--
Fill orders with the given quantity, first come first served.

An order whose quantity is met exactly stays in the tick with quantity zero.
-/
def filled (tick : Tick w Account) (quantity : BitVec w) :
    Option (Fills w Account) × Tick w Account :=
  let state := tick.filling quantity
  (if state.filled = 0 then none else some state.res,
    ⟨TreeMap.eraseAll state.openOrders state.toRemove⟩)

/-- Take `quantity` off an order, and the order away when nothing is left. -/
def canceled
    [DecidableEq Account]
    (tick : Tick w Account)
    (maybeOwner : Account)
    (orderId : OrderId)
    (quantity : BitVec w) : Except OrderError (Tick w Account) :=
  match tick.openOrders[orderId]? with
  | none => .error .orderNotExist
  | some order =>
      if order.owner ≠ maybeOwner then
        .error .notOwner
      else if order.quantity < quantity then
        .error .underflow
      else if order.quantity - quantity = 0 then
        .ok ⟨tick.openOrders.erase orderId⟩
      else
        .ok ⟨tick.openOrders.insert orderId
          { order with quantity := order.quantity - quantity }⟩

section Specification

/-- The orders that will be left once the marked ones are removed. -/
def Filling.pending (state : Filling w Account) :
    Std.ExtTreeMap OrderId (Order w Account) :=
  TreeMap.eraseAll state.openOrders state.toRemove

/-- The loop has not yet reached the listed orders. -/
structure Filling.Ahead
    (state : Filling w Account)
    (rest : List (OrderId × Order w Account)) : Prop where
  distinct : (rest.map Prod.fst).Nodup
  untouched :
    ∀ binding ∈ rest, state.pending[binding.1]? = some binding.2

variable {state : Filling w Account} {id : OrderId} {order : Order w Account}
  {rest : List (OrderId × Order w Account)}

theorem Filling.Ahead.head
    (ahead : state.Ahead ((id, order) :: rest)) :
    state.pending[id]? = some order :=
  ahead.untouched (id, order) (by simp)

theorem Filling.Ahead.not_removed
    (ahead : state.Ahead ((id, order) :: rest)) :
    id ∉ state.toRemove := by
  intro removed
  have found := ahead.head
  rw [Filling.pending, TreeMap.getElem?_eraseAll, if_pos removed] at found
  cases found

theorem Filling.pending_fillPart
    (ahead : state.Ahead ((id, order) :: rest))
    (remain : BitVec w) :
    (state.fillPart id order remain).pending =
      state.pending.insert id
        { order with quantity := order.quantity - remain } :=
  TreeMap.eraseAll_insert _ ahead.not_removed _

theorem Filling.pending_fillWhole :
    (state.fillWhole id order).pending = state.pending.erase id :=
  TreeMap.eraseAll_concat _ _ _

theorem Filling.Ahead.tail_ne
    (ahead : state.Ahead ((id, order) :: rest))
    {binding : OrderId × Order w Account}
    (member : binding ∈ rest) : id ≠ binding.1 := by
  intro same
  have notInRest := (List.nodup_cons.mp ahead.distinct).1
  exact notInRest (List.mem_map.mpr ⟨binding, member, same.symm⟩)

theorem Filling.Ahead.fillPart
    (ahead : state.Ahead ((id, order) :: rest))
    (remain : BitVec w) :
    (state.fillPart id order remain).Ahead rest where
  distinct := (List.nodup_cons.mp ahead.distinct).2
  untouched binding member := by
    rw [pending_fillPart ahead, Std.ExtTreeMap.getElem?_insert]
    simp [ahead.tail_ne member,
      ahead.untouched binding (List.mem_cons_of_mem _ member)]

theorem Filling.Ahead.fillWhole
    (ahead : state.Ahead ((id, order) :: rest)) :
    (state.fillWhole id order).Ahead rest where
  distinct := (List.nodup_cons.mp ahead.distinct).2
  untouched binding member := by
    rw [pending_fillWhole, Std.ExtTreeMap.getElem?_erase]
    simp [ahead.tail_ne member,
      ahead.untouched binding (List.mem_cons_of_mem _ member)]

theorem Filling.toNat_remain
    {quantity : BitVec w}
    (bounded : state.filled ≤ quantity) :
    (quantity - state.filled).toNat =
      quantity.toNat - state.filled.toNat :=
  BitVec.toNat_sub_of_le bounded

theorem Filling.toNat_filled_fillPart
    {quantity : BitVec w}
    (id : OrderId)
    (order : Order w Account)
    (bounded : state.filled ≤ quantity) :
    (state.fillPart id order (quantity - state.filled)).filled.toNat =
      quantity.toNat := by
  have room := quantity.isLt
  rw [BitVec.le_def] at bounded
  rw [fillPart, BitVec.toNat_add, toNat_remain bounded,
    Nat.add_sub_cancel' bounded, Nat.mod_eq_of_lt room]

theorem Filling.toNat_filled_fillWhole
    {quantity : BitVec w}
    (id : OrderId)
    (bounded : state.filled ≤ quantity)
    (small : order.quantity < quantity - state.filled) :
    (state.fillWhole id order).filled.toNat =
      state.filled.toNat + order.quantity.toNat := by
  have room := quantity.isLt
  rw [BitVec.lt_def, toNat_remain bounded] at small
  rw [fillWhole, BitVec.toNat_add, Nat.mod_eq_of_lt (by omega)]

theorem Filling.filled_fillWhole_le
    {quantity : BitVec w}
    (id : OrderId)
    (bounded : state.filled ≤ quantity)
    (small : order.quantity < quantity - state.filled) :
    (state.fillWhole id order).filled ≤ quantity := by
  rw [BitVec.le_def, toNat_filled_fillWhole id bounded small]
  rw [BitVec.lt_def, toNat_remain bounded] at small
  omega

/-- What both ways of filling an order preserve holds after the loop. -/
theorem fillLoop_invariant
    {quantity : BitVec w}
    {invariant : Filling w Account → Prop}
    (part :
      ∀ state id order rest,
        state.Ahead ((id, order) :: rest) → state.filled < quantity →
          quantity - state.filled ≤ order.quantity → invariant state →
            invariant (state.fillPart id order (quantity - state.filled)))
    (whole :
      ∀ state id order rest,
        state.Ahead ((id, order) :: rest) → state.filled < quantity →
          order.quantity < quantity - state.filled → invariant state →
            invariant (state.fillWhole id order))
    (ahead : state.Ahead rest)
    (bounded : state.filled ≤ quantity)
    (initial : invariant state) :
    invariant (fillLoop quantity rest state) := by
  induction rest generalizing state with
  | nil =>
      exact initial
  | cons binding rest inductionHypothesis =>
      rcases binding with ⟨id, order⟩
      unfold fillLoop
      by_cases done : quantity - state.filled = 0
      · simpa [done] using initial
      · have unfinished : state.filled < quantity := by
          refine BitVec.not_le.mp fun covered => done ?_
          rw [BitVec.le_antisymm bounded covered, BitVec.sub_self]
          rfl
        by_cases enough : order.quantity ≥ quantity - state.filled
        · simp only [done, enough, ↓reduceIte]
          refine inductionHypothesis (ahead.fillPart _) ?_
            (part state id order rest ahead unfinished enough initial)
          rw [BitVec.le_def, Filling.toNat_filled_fillPart id order bounded]
        · simp only [done, enough, ↓reduceIte]
          have small := BitVec.not_le.mp enough
          exact inductionHypothesis ahead.fillWhole
            (Filling.filled_fillWhole_le id bounded small)
            (whole state id order rest ahead unfinished small initial)

theorem ahead_toList (tick : Tick w Account) :
    Filling.Ahead ⟨tick.openOrders, 0, [], []⟩ tick.openOrders.toList where
  distinct := List.pairwise_map.mpr
    (Std.ExtTreeMap.distinct_keys_toList.imp fun different same =>
      different (by simp [same]))
  untouched binding member :=
    Std.ExtTreeMap.mem_toList_iff_getElem?_eq_some.mp member

/-- The loop rule, started on a whole tick. -/
theorem filling_invariant
    (tick : Tick w Account)
    (quantity : BitVec w)
    (invariant : Filling w Account → Prop)
    (part :
      ∀ state id order rest,
        state.Ahead ((id, order) :: rest) → state.filled < quantity →
          quantity - state.filled ≤ order.quantity → invariant state →
            invariant (state.fillPart id order (quantity - state.filled)))
    (whole :
      ∀ state id order rest,
        state.Ahead ((id, order) :: rest) → state.filled < quantity →
          order.quantity < quantity - state.filled → invariant state →
            invariant (state.fillWhole id order))
    (initial : invariant ⟨tick.openOrders, 0, [], []⟩) :
    invariant (tick.filling quantity) :=
  fillLoop_invariant part whole tick.ahead_toList
    (by simp [BitVec.le_def]) initial

/-- What every order of a tick is worth, added up. -/
def worth (weight : Account → Nat → Nat) (tick : Tick w Account) : Nat :=
  TreeMap.total
    (fun _ order => weight order.owner order.quantity.toNat) tick.openOrders

/-- What a list of fills is worth. -/
def fillsWorth
    (weight : Account → Nat → Nat)
    (fills : Fills w Account) : Nat :=
  (fills.map fun fill => weight fill.1 fill.2.toNat).sum

/-- Total quantity on offer in a tick. -/
def volume (tick : Tick w Account) : Nat :=
  tick.worth fun _ quantity => quantity

theorem fillsWorth_concat
    (weight : Account → Nat → Nat)
    (fills : Fills w Account)
    (fill : Account × BitVec w) :
    fillsWorth weight (fills ++ [fill]) =
      fillsWorth weight fills + weight fill.1 fill.2.toNat := by
  simp [fillsWorth]

/-- What one order of a tick contributes. -/
theorem worth_of_bound
    (weight : Account → Nat → Nat)
    {orders : Std.ExtTreeMap OrderId (Order w Account)}
    (bound : orders[id]? = some order) :
    (Tick.mk orders).worth weight =
      weight order.owner order.quantity.toNat +
        (Tick.mk (orders.erase id)).worth weight :=
  TreeMap.total_of_bound _ bound

theorem worth_insert
    (weight : Account → Nat → Nat)
    (orders : Std.ExtTreeMap OrderId (Order w Account)) :
    (Tick.mk (orders.insert id order)).worth weight =
      weight order.owner order.quantity.toNat +
        (Tick.mk (orders.erase id)).worth weight :=
  TreeMap.total_insert _ _ _ _

/-- Worth left in the book plus worth filled, after a partial fill. -/
theorem Filling.worth_fillPart
    (weight : Account → Nat → Nat)
    (ahead : state.Ahead ((id, order) :: rest))
    (remain : BitVec w) :
    ∃ others,
      (Tick.mk state.pending).worth weight =
          weight order.owner order.quantity.toNat + others ∧
        (Tick.mk (state.fillPart id order remain).pending).worth weight +
            fillsWorth weight (state.fillPart id order remain).res =
          weight order.owner (order.quantity - remain).toNat + others +
            (fillsWorth weight state.res +
              weight order.owner remain.toNat) := by
  refine ⟨(Tick.mk (state.pending.erase id)).worth weight,
    worth_of_bound weight ahead.head, ?_⟩
  rw [pending_fillPart ahead, worth_insert, fillPart, fillsWorth_concat]

/-- Worth left in the book plus worth filled, after a whole fill. -/
theorem Filling.worth_fillWhole
    (weight : Account → Nat → Nat)
    (ahead : state.Ahead ((id, order) :: rest)) :
    (Tick.mk (state.fillWhole id order).pending).worth weight +
        fillsWorth weight (state.fillWhole id order).res =
      (Tick.mk state.pending).worth weight +
        fillsWorth weight state.res := by
  rw [worth_of_bound weight ahead.head, pending_fillWhole, fillWhole,
    fillsWorth_concat]
  simp only
  omega

/--
Filling splits each served order into the part that is filled and the part
that stays, so what a superadditive weight counts never grows.
-/
theorem worth_filled_le
    {weight : Account → Nat → Nat}
    (superadditive :
      ∀ owner first second,
        weight owner first + weight owner second ≤
          weight owner (first + second))
    (tick : Tick w Account)
    (quantity : BitVec w) :
    (tick.filled quantity).2.worth weight +
        fillsWorth weight (tick.filling quantity).res ≤
      tick.worth weight := by
  refine tick.filling_invariant quantity
    (fun state => (Tick.mk state.pending).worth weight +
      fillsWorth weight state.res ≤ tick.worth weight) ?_ ?_ ?_
  · intro state id order rest ahead unfinished enough bounded
    obtain ⟨others, before, after⟩ :=
      Filling.worth_fillPart weight ahead (quantity - state.filled)
    have split := superadditive order.owner
      (order.quantity - (quantity - state.filled)).toNat
      (quantity - state.filled).toNat
    rw [BitVec.toNat_sub_of_le enough] at split
    rw [BitVec.le_def] at enough
    rw [Nat.sub_add_cancel enough] at split
    rw [after, BitVec.toNat_sub_of_le (BitVec.le_def.mpr enough)]
    omega
  · intro state id order rest ahead unfinished small bounded
    rw [Filling.worth_fillWhole weight ahead]
    exact bounded
  · simp [Filling.pending, TreeMap.eraseAll, fillsWorth]

/-- Quantities are only moved from the tick to the fills. -/
theorem volume_filled
    (tick : Tick w Account)
    (quantity : BitVec w) :
    (tick.filled quantity).2.volume +
        fillsWorth (fun _ part => part) (tick.filling quantity).res =
      tick.volume := by
  refine tick.filling_invariant quantity
    (fun state => (Tick.mk state.pending).volume +
      fillsWorth (fun _ part => part) state.res = tick.volume) ?_ ?_ ?_
  · intro state id order rest ahead unfinished enough conserved
    obtain ⟨others, before, after⟩ := Filling.worth_fillPart
      (fun _ part => part) ahead (quantity - state.filled)
    unfold volume at conserved ⊢
    rw [after, BitVec.toNat_sub_of_le enough]
    rw [BitVec.le_def] at enough
    omega
  · intro state id order rest ahead unfinished small conserved
    unfold volume at conserved ⊢
    rw [Filling.worth_fillWhole _ ahead]
    exact conserved
  · simp [Filling.pending, TreeMap.eraseAll, fillsWorth, volume]

/-- The loop's counter is the total of its fills and stays within bounds. -/
theorem toNat_filling_filled
    (tick : Tick w Account)
    (quantity : BitVec w) :
    (tick.filling quantity).filled.toNat =
        fillsWorth (fun _ part => part) (tick.filling quantity).res ∧
      (tick.filling quantity).filled ≤ quantity := by
  refine tick.filling_invariant quantity
    (fun state => state.filled.toNat =
      fillsWorth (fun _ part => part) state.res ∧ state.filled ≤ quantity)
    ?_ ?_ ?_
  · intro state id order rest ahead unfinished enough counted
    have total := Filling.toNat_filled_fillPart id order counted.2
    refine ⟨?_, BitVec.le_def.mpr (Nat.le_of_eq total)⟩
    rw [total, Filling.fillPart, fillsWorth_concat, ← counted.1,
      Filling.toNat_remain counted.2]
    rw [BitVec.lt_def] at unfinished
    omega
  · intro state id order rest ahead unfinished small counted
    refine ⟨?_, Filling.filled_fillWhole_le id counted.2 small⟩
    rw [Filling.toNat_filled_fillWhole id counted.2 small, Filling.fillWhole,
      fillsWorth_concat, ← counted.1]
  · simp [fillsWorth, BitVec.le_def]

theorem fillLoop_complete
    (rest : List (OrderId × Order w Account))
    (state : Filling w Account) :
    fillLoop state.filled rest state = state := by
  cases rest with
  | nil =>
      rfl
  | cons binding rest =>
      simp [fillLoop]

/-- The loop goes no further than an order that fills all that is left. -/
theorem fillLoop_fillPart
    {quantity : BitVec w}
    (bounded : state.filled ≤ quantity) :
    fillLoop quantity rest
        (state.fillPart id order (quantity - state.filled)) =
      state.fillPart id order (quantity - state.filled) := by
  have complete :
      (state.fillPart id order (quantity - state.filled)).filled = quantity :=
    BitVec.eq_of_toNat_eq (Filling.toNat_filled_fillPart id order bounded)
  have stopped := fillLoop_complete rest
    (state.fillPart id order (quantity - state.filled))
  rw [complete] at stopped
  exact stopped

/-- The loop stops early only when everything is filled. -/
theorem fillLoop_exhausts
    {quantity : BitVec w}
    (ahead : state.Ahead rest)
    (bounded : state.filled ≤ quantity) :
    (fillLoop quantity rest state).filled = quantity ∨
      ∀ key ∈ (fillLoop quantity rest state).pending,
        key ∈ state.pending ∧ key ∉ rest.map Prod.fst := by
  induction rest generalizing state with
  | nil =>
      exact .inr fun key member => ⟨member, by simp⟩
  | cons binding rest inductionHypothesis =>
      rcases binding with ⟨id, order⟩
      unfold fillLoop
      by_cases done : quantity - state.filled = 0
      · refine .inl ?_
        simp only [done, ↓reduceIte]
        have covered := Filling.toNat_remain bounded
        simp only [done, BitVec.ofNat_eq_ofNat, BitVec.toNat_zero] at covered
        rw [BitVec.le_def] at bounded
        exact BitVec.eq_of_toNat_eq (by omega)
      · by_cases enough : order.quantity ≥ quantity - state.filled
        · simp only [done, enough, ↓reduceIte, fillLoop_fillPart bounded]
          exact .inl (BitVec.eq_of_toNat_eq
            (Filling.toNat_filled_fillPart id order bounded))
        · have small := BitVec.not_le.mp enough
          simp only [done, enough, ↓reduceIte]
          rcases inductionHypothesis ahead.fillWhole
            (Filling.filled_fillWhole_le id bounded small) with
            complete | exhausted
          · exact .inl complete
          · refine .inr fun key member => ?_
            obtain ⟨kept, notInRest⟩ := exhausted key member
            rw [Filling.pending_fillWhole, Std.ExtTreeMap.mem_erase] at kept
            refine ⟨kept.2, ?_⟩
            simp only [List.map_cons, List.mem_cons, not_or]
            exact ⟨fun same => kept.1 (by simp [same]), notInRest⟩

/-- A tick that cannot fill the whole quantity is left without orders. -/
theorem filled_exhausts
    (tick : Tick w Account)
    (quantity : BitVec w) :
    (tick.filling quantity).filled = quantity ∨
      (tick.filled quantity).2.isEmpty = true := by
  rcases fillLoop_exhausts tick.ahead_toList
    (show (0 : BitVec w) ≤ quantity by simp [BitVec.le_def]) with
    complete | exhausted
  · exact .inl complete
  · refine .inr (Std.ExtTreeMap.isEmpty_iff.mpr
      (TreeMap.eq_empty_of_not_mem fun key member => ?_))
    obtain ⟨before, notListed⟩ := exhausted key member
    refine notListed ?_
    have bound : key ∈ tick.openOrders := by
      simpa [Filling.pending, TreeMap.eraseAll] using before
    rw [Std.ExtTreeMap.map_fst_toList_eq_keys]
    exact Std.ExtTreeMap.mem_keys.mpr bound

end Specification

section Queue

/-!
The loop of `filled`, described on the queue of orders alone.
-/

variable {state : Filling w Account} {id : OrderId} {order : Order w Account}
  {rest : List (OrderId × Order w Account)}

/-- The fills of a queue of orders, with the ids of the orders. -/
def serve (remain : BitVec w) :
    List (OrderId × Order w Account) → List (OrderId × Account × BitVec w)
  | [] => []
  | (id, order) :: rest =>
      if remain = 0 then
        []
      else if order.quantity ≥ remain then
        [(id, order.owner, remain)]
      else
        (id, order.owner, order.quantity) ::
          serve (remain - order.quantity) rest

/-- What is left of the queue. -/
def unserved (remain : BitVec w) :
    List (OrderId × Order w Account) → List (OrderId × Order w Account)
  | [] => []
  | (id, order) :: rest =>
      if remain = 0 then
        (id, order) :: rest
      else if order.quantity ≥ remain then
        (id, { order with quantity := order.quantity - remain }) :: rest
      else
        unserved (remain - order.quantity) rest

/-- An order is still ahead of the loop or the loop is past it. -/
theorem Filling.Ahead.pending_iff
    (ahead : state.Ahead rest)
    (key : OrderId)
    (value : Order w Account) :
    state.pending[key]? = some value ↔
      (key, value) ∈ rest ∨
        (key ∉ rest.map Prod.fst ∧ state.pending[key]? = some value) := by
  constructor
  · intro bound
    by_cases listed : key ∈ rest.map Prod.fst
    · obtain ⟨⟨_, other⟩, member, rfl⟩ := List.mem_map.mp listed
      have found := ahead.untouched _ member
      rw [bound, Option.some.injEq] at found
      exact .inl (found ▸ member)
    · exact .inr ⟨listed, bound⟩
  · rintro (member | ⟨_, bound⟩)
    · exact ahead.untouched _ member
    · exact bound

/-- The loop serves the queue from the front. -/
theorem fillLoop_serves
    {quantity : BitVec w}
    (ahead : state.Ahead rest)
    (bounded : state.filled ≤ quantity) :
    (fillLoop quantity rest state).res =
        state.res ++
          (serve (quantity - state.filled) rest).map Prod.snd ∧
      ∀ key value,
        (fillLoop quantity rest state).pending[key]? = some value ↔
          (key, value) ∈ unserved (quantity - state.filled) rest ∨
            (key ∉ rest.map Prod.fst ∧
              state.pending[key]? = some value) := by
  induction rest generalizing state with
  | nil =>
      simp [fillLoop, serve, unserved]
  | cons binding rest inductionHypothesis =>
      rcases binding with ⟨id, order⟩
      unfold fillLoop serve unserved
      by_cases done : quantity - state.filled = 0
      · simp only [done, ↓reduceIte]
        exact ⟨by simp, ahead.pending_iff⟩
      · by_cases enough : order.quantity ≥ quantity - state.filled
        · simp only [done, enough, ↓reduceIte, fillLoop_fillPart bounded]
          refine ⟨by simp [Filling.fillPart], fun key value => ?_⟩
          rw [(ahead.fillPart _).pending_iff,
            Filling.pending_fillPart ahead, Std.ExtTreeMap.getElem?_insert]
          have notInRest := (List.nodup_cons.mp ahead.distinct).1
          by_cases same : id = key
          · subst same
            simpa [notInRest, eq_comm] using or_comm
          · simp [same, Ne.symm same]
        · have small := BitVec.not_le.mp enough
          have remaining :
              quantity - (state.fillWhole id order).filled =
                quantity - state.filled - order.quantity := by
            rw [Filling.fillWhole, BitVec.sub_sub]
          simp only [done, enough, ↓reduceIte]
          obtain ⟨results, orders⟩ :=
            inductionHypothesis ahead.fillWhole
              (Filling.filled_fillWhole_le id bounded small)
          rw [remaining] at results orders
          refine ⟨results.trans (by simp [Filling.fillWhole]),
            fun key value => ?_⟩
          rw [orders, Filling.pending_fillWhole,
            Std.ExtTreeMap.getElem?_erase]
          by_cases same : id = key
          · subst same
            simp
          · simp [same, Ne.symm same]

/-- Filling a tick serves its orders in the order of their ids. -/
theorem filling_serves (tick : Tick w Account) (quantity : BitVec w) :
    (tick.filling quantity).res =
        (serve quantity tick.openOrders.toList).map Prod.snd ∧
      ∀ key value,
        (tick.filled quantity).2.openOrders[key]? = some value ↔
          (key, value) ∈ unserved quantity tick.openOrders.toList := by
  have whole : quantity - (0 : BitVec w) = quantity := BitVec.sub_zero _
  obtain ⟨results, orders⟩ := fillLoop_serves tick.ahead_toList
    (show (0 : BitVec w) ≤ quantity by simp [BitVec.le_def])
  rw [whole] at results orders
  refine ⟨results, fun key value => (orders key value).trans ?_⟩
  refine or_iff_left fun unlisted => unlisted.1 ?_
  have bound : tick.openOrders[key]? = some value := by
    simpa [Filling.pending, TreeMap.eraseAll] using unlisted.2
  exact List.mem_map.mpr
    ⟨_, Std.ExtTreeMap.mem_toList_iff_getElem?_eq_some.mpr bound, rfl⟩

/-- Orders are kept in the order of their ids. -/
theorem pairwise_ids (tick : Tick w Account) :
    (tick.openOrders.toList.map Prod.fst).Pairwise (· < ·) := by
  have ordered := Std.ExtTreeMap.ordered_keys_toList (t := tick.openOrders)
  refine List.pairwise_map.mpr (ordered.imp ?_)
  intro first second less
  exact compareOfLessAndEq_eq_lt.mp less

end Queue

end Tick

end HybridOrderbook
