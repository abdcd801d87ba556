import HybridOrderbook.PalletRuns
import HybridOrderbook.PoolRuns

namespace HybridOrderbook

open Library

/-!
# Price-time priority

The fills of a match carry the owners of the filled orders but not their ids.
A trace adds the ids: it is tied to the books by what it takes from each
order, and ordered by price and then by id.
-/

variable {w : Nat} {Account Asset : Type}

namespace Tick

/-- Quantity of the order with an id, in a queue. -/
def quantityIn (id : OrderId) (orders : List (OrderId × Order w Account)) :
    Nat :=
  (orders.map fun binding =>
    if binding.1 = id then binding.2.quantity.toNat else 0).sum

/-- Quantity that fills take from the order with an id. -/
def servedTo
    (id : OrderId)
    (fills : List (OrderId × Account × BitVec w)) : Nat :=
  (fills.map fun fill => if fill.1 = id then fill.2.2.toNat else 0).sum

/-- The quantity of every order falls by what it is served. -/
theorem quantityIn_unserved
    (id : OrderId)
    (remain : BitVec w)
    (orders : List (OrderId × Order w Account)) :
    quantityIn id (unserved remain orders) +
        servedTo id (serve remain orders) =
      quantityIn id orders := by
  fun_induction serve remain orders with
  | case1 =>
      rfl
  | case2 =>
      simp [unserved, servedTo]
  | case3 remain key order rest done enough =>
      have left := BitVec.toNat_sub_of_le enough
      have covered := BitVec.le_def.mp enough
      simp only [unserved, done, enough, ↓reduceIte, quantityIn, servedTo,
        List.map_cons, List.sum_cons, List.map_nil, List.sum_nil, left]
      split <;> omega
  | case4 remain key order rest done small inductionHypothesis =>
      simp only [unserved, done, small, ↓reduceIte, quantityIn, servedTo,
        List.map_cons, List.sum_cons] at inductionHypothesis ⊢
      omega

theorem map_fst_serve
    (remain : BitVec w)
    (orders : List (OrderId × Order w Account)) :
    ((serve remain orders).map Prod.fst).Sublist
      (orders.map Prod.fst) := by
  fun_induction serve remain orders with
  | case1 =>
      exact .slnil
  | case2 =>
      exact List.nil_sublist _
  | case3 =>
      simp
  | case4 remain key order rest done small inductionHypothesis =>
      exact inductionHypothesis.cons_cons key

theorem map_fst_unserved
    (remain : BitVec w)
    (orders : List (OrderId × Order w Account)) :
    ((unserved remain orders).map Prod.fst).Sublist
      (orders.map Prod.fst) := by
  fun_induction unserved remain orders with
  | case1 =>
      exact .slnil
  | case2 =>
      exact .refl _
  | case3 =>
      exact .refl _
  | case4 remain key order rest done small inductionHypothesis =>
      exact inductionHypothesis.cons key

/-- An order that is left is not in front of one that was served. -/
theorem serve_le_unserved
    (remain : BitVec w)
    {orders : List (OrderId × Order w Account)}
    (sorted : (orders.map Prod.fst).Pairwise (· < ·)) :
    ∀ fill ∈ serve remain orders,
      ∀ binding ∈ unserved remain orders, fill.1 ≤ binding.1 := by
  fun_induction serve remain orders with
  | case1 =>
      simp
  | case2 =>
      simp
  | case3 remain key order rest done enough =>
      rw [List.map_cons, List.pairwise_cons] at sorted
      simp only [unserved, done, enough, ↓reduceIte, List.mem_singleton]
      rintro _ rfl binding left
      rcases List.mem_cons.mp left with rfl | later
      · exact BitVec.le_refl _
      · exact BitVec.le_of_lt (sorted.1 _ (List.mem_map_of_mem later))
  | case4 remain key order rest done small inductionHypothesis =>
      rw [List.map_cons, List.pairwise_cons] at sorted
      simp only [unserved, done, small, ↓reduceIte, List.mem_cons,
        forall_eq_or_imp]
      refine ⟨fun other left => ?_, inductionHypothesis sorted.2⟩
      have listed := (map_fst_unserved _ rest).subset
        (List.mem_map_of_mem left)
      exact BitVec.le_of_lt (sorted.1 other.1 listed)

/-- Fills are paid to the owners of the orders. -/
theorem owner_of_serve
    (remain : BitVec w)
    (orders : List (OrderId × Order w Account)) :
    ∀ fill ∈ serve remain orders,
      ∃ order, (fill.1, order) ∈ orders ∧ order.owner = fill.2.1 := by
  fun_induction serve remain orders with
  | case1 =>
      simp
  | case2 =>
      simp
  | case3 remain key order rest done enough =>
      rintro _ member
      rw [List.mem_singleton] at member
      subst member
      exact ⟨order, List.mem_cons_self .., rfl⟩
  | case4 remain key order rest done small inductionHypothesis =>
      intro fill member
      rcases List.mem_cons.mp member with rfl | later
      · exact ⟨order, List.mem_cons_self .., rfl⟩
      · obtain ⟨other, listed, owned⟩ := inductionHypothesis fill later
        exact ⟨other, List.mem_cons_of_mem _ listed, owned⟩

/-- Quantity that is left of the order with an id. -/
def quantityOf (tick : Tick w Account) (id : OrderId) : Nat :=
  (tick.openOrders[id]?.map fun order => order.quantity.toNat).getD 0

theorem quantityIn_of_not_mem
    {id : OrderId}
    {orders : List (OrderId × Order w Account)}
    (absent : id ∉ orders.map Prod.fst) : quantityIn id orders = 0 := by
  refine List.sum_eq_zero fun value member => ?_
  obtain ⟨binding, listed, rfl⟩ := List.mem_map.mp member
  rw [if_neg]
  rintro rfl
  exact absent (List.mem_map_of_mem listed)

/-- A queue without repeated ids, read as a tick. -/
theorem quantityOf_eq_quantityIn
    {tick : Tick w Account}
    {orders : List (OrderId × Order w Account)}
    (distinct : (orders.map Prod.fst).Pairwise (· < ·))
    (same :
      ∀ (key : OrderId) (value : Order w Account),
        tick.openOrders[key]? = some value ↔ (key, value) ∈ orders)
    (id : OrderId) : tick.quantityOf id = quantityIn id orders := by
  cases bound : tick.openOrders[id]? with
  | none =>
      rw [quantityOf, bound, quantityIn_of_not_mem]
      · rfl
      · intro listed
        obtain ⟨⟨_, order⟩, member, rfl⟩ := List.mem_map.mp listed
        rw [(same _ order).mpr member] at bound
        cases bound
  | some order =>
      obtain ⟨before, after, rfl⟩ :=
        List.append_of_mem ((same id order).mp bound)
      rw [List.map_append, List.map_cons, List.pairwise_append,
        List.pairwise_cons] at distinct
      obtain ⟨_, ⟨first, _⟩, last⟩ := distinct
      have notBefore : id ∉ before.map Prod.fst := fun listed =>
        BitVec.lt_irrefl _ (last id listed id (List.mem_cons_self ..))
      have notAfter : id ∉ after.map Prod.fst := fun listed =>
        BitVec.lt_irrefl _ (first id listed)
      have none := quantityIn_of_not_mem notBefore
      have noneLater := quantityIn_of_not_mem notAfter
      simp only [quantityIn] at none noneLater ⊢
      simp [quantityOf, bound, none, noneLater]

/-- The fills that a fill reports, with the ids of the orders. -/
def reported (tick : Tick w Account) (quantity : BitVec w) :
    List (OrderId × Account × BitVec w) :=
  if (tick.filling quantity).filled = 0 then []
  else serve quantity tick.openOrders.toList

theorem map_snd_reported (tick : Tick w Account) (quantity : BitVec w) :
    (tick.reported quantity).map Prod.snd =
      (tick.filled quantity).1.getD [] := by
  unfold reported filled
  by_cases nothing : (tick.filling quantity).filled = 0
  · simp [nothing]
  · simp only [nothing, ↓reduceIte, Option.getD_some]
    exact (tick.filling_serves quantity).1.symm

theorem mem_serve_of_mem_reported
    {tick : Tick w Account}
    {quantity : BitVec w}
    {fill : OrderId × Account × BitVec w}
    (member : fill ∈ tick.reported quantity) :
    fill ∈ serve quantity tick.openOrders.toList := by
  unfold reported at member
  split at member
  · cases member
  · exact member

theorem servedTo_le
    (id : OrderId)
    (fills : List (OrderId × Account × BitVec w)) :
    servedTo id fills ≤
      fillsWorth (fun _ part => part) (fills.map Prod.snd) := by
  unfold servedTo fillsWorth
  rw [List.map_map]
  refine List.sum_le_sum fun fill _ => ?_
  split
  · exact Nat.le_refl _
  · exact Nat.zero_le _

/-- What a fill does not report is nothing. -/
theorem servedTo_reported
    (tick : Tick w Account)
    (quantity : BitVec w)
    (id : OrderId) :
    servedTo id (tick.reported quantity) =
      servedTo id (serve quantity tick.openOrders.toList) := by
  unfold reported
  split
  · rename_i nothing
    have bounded := servedTo_le id (serve quantity tick.openOrders.toList)
    rw [← (tick.filling_serves quantity).1,
      ← (tick.toNat_filling_filled quantity).1, nothing] at bounded
    exact (Nat.le_zero.mp bounded).symm
  · rfl

/-- A fill takes from every order what it reports for it. -/
theorem quantityOf_filled
    (tick : Tick w Account)
    (quantity : BitVec w)
    (id : OrderId) :
    (tick.filled quantity).2.quantityOf id +
        servedTo id (tick.reported quantity) =
      tick.quantityOf id := by
  have sorted := tick.pairwise_ids
  rw [servedTo_reported,
    quantityOf_eq_quantityIn
      (sorted.sublist (map_fst_unserved quantity _))
      (tick.filling_serves quantity).2,
    quantityIn_unserved]
  refine (quantityOf_eq_quantityIn sorted (fun key value => ?_) id).symm
  exact Std.ExtTreeMap.mem_toList_iff_getElem?_eq_some.symm

end Tick

namespace PriceMap

variable {map : PriceMap w Account} {key quantity : BitVec w}

/-- Quantity that is left of an order at a price. -/
def quantityAt
    (map : PriceMap w Account)
    (price : BitVec w)
    (id : OrderId) : Nat :=
  ((map.orderAt price id).map fun order => order.quantity.toNat).getD 0

/-- The fills that filling a book reports, with the ids of the orders. -/
def servedAt (map : PriceMap w Account) (key quantity : BitVec w) :
    List (OrderId × Account × BitVec w) :=
  match map[key]? with
  | some tick => tick.reported quantity
  | none => []

theorem map_snd_servedAt
    (map : PriceMap w Account)
    (key quantity : BitVec w) :
    (map.servedAt key quantity).map Prod.snd = map.fillsAt key quantity := by
  unfold servedAt PriceMap.fillsAt PriceMap.fillOrder
  cases map[key]? with
  | none =>
      rfl
  | some tick =>
      exact tick.map_snd_reported quantity

/-- Filling at a price leaves the other prices alone. -/
theorem orderAt_fillOrder_of_ne
    (map : PriceMap w Account)
    {price : BitVec w}
    (different : key ≠ price)
    (id : OrderId) :
    (map.fillOrder key quantity).2.orderAt price id =
      map.orderAt price id := by
  unfold PriceMap.fillOrder
  split
  · split
    · simp [orderAt, Std.ExtTreeMap.getElem?_erase, different]
    · simp [orderAt_insert, different]
  · rfl

/-- Filling at a price leaves the filled tick there, or nothing. -/
theorem orderAt_fillOrder_self
    (map : PriceMap w Account)
    (id : OrderId) :
    (map.fillOrder key quantity).2.orderAt key id =
      map[key]?.bind fun tick =>
        (tick.filled quantity).2.openOrders[id]? := by
  unfold PriceMap.fillOrder
  cases bound : map[key]? with
  | none =>
      simp [orderAt, bound]
  | some tick =>
      by_cases emptied : (tick.filled quantity).2.isEmpty = true
      · have empty := Std.ExtTreeMap.isEmpty_iff.mp emptied
        simp [orderAt, emptied, empty]
      · simp [orderAt_insert, emptied]

/-- A fill takes from every order what it reports for it. -/
theorem quantityAt_fillOrder
    (map : PriceMap w Account)
    (key quantity price : BitVec w)
    (id : OrderId) :
    (map.fillOrder key quantity).2.quantityAt price id +
        (if key = price then
          Tick.servedTo id (map.servedAt key quantity)
        else 0) =
      map.quantityAt price id := by
  by_cases same : key = price
  · subst same
    simp only [quantityAt, orderAt_fillOrder_self, servedAt, ↓reduceIte]
    cases bound : map[key]? with
    | none =>
        simp [orderAt, bound, Tick.servedTo]
    | some tick =>
        simpa [orderAt, bound, Tick.quantityOf] using
          tick.quantityOf_filled quantity id
  · simp [quantityAt, orderAt_fillOrder_of_ne map same, same]

theorem mem_of_orderAt
    {price : BitVec w}
    {id : OrderId}
    {order : Order w Account}
    (resting : map.orderAt price id = some order) : price ∈ map := by
  obtain ⟨tick, bound, _⟩ := orderAt_eq_some_iff.mp resting
  exact TreeMap.mem_of_getElem? bound

/-- A level that cannot fill the whole quantity is removed. -/
theorem not_mem_fillOrder
    (short :
      Tick.fillsWorth (fun _ part => part) (map.fillsAt key quantity) <
        quantity.toNat) : key ∉ (map.fillOrder key quantity).2 := by
  unfold PriceMap.fillsAt PriceMap.fillOrder at *
  cases bound : map[key]? with
  | none =>
      simp [Std.ExtTreeMap.mem_iff_isSome_getElem?, bound]
  | some tick =>
      simp only [bound, Tick.fillsWorth_filled] at short
      rcases tick.filled_exhausts quantity with complete | emptied
      · rw [complete] at short
        exact absurd short (Nat.lt_irrefl _)
      · simp [emptied]

/-- The fills at a level are in the order of the ids. -/
theorem pairwise_servedAt
    (map : PriceMap w Account)
    (key quantity : BitVec w) :
    (map.servedAt key quantity).Pairwise
      fun first second => first.1 < second.1 := by
  unfold servedAt Tick.reported
  split
  · rename_i tick _
    split
    · exact .nil
    · exact List.pairwise_map.mp
        (tick.pairwise_ids.sublist (Tick.map_fst_serve quantity _))
  · exact .nil

/-- A fill is of an order at the level, and the orders left come after it. -/
theorem order_of_mem_servedAt
    {fill : OrderId × Account × BitVec w}
    (served : fill ∈ map.servedAt key quantity) :
    (∃ order,
      map.orderAt key fill.1 = some order ∧ order.owner = fill.2.1) ∧
      ∀ (id : OrderId) (order : Order w Account),
        (map.fillOrder key quantity).2.orderAt key id = some order →
          fill.1 ≤ id := by
  unfold servedAt at served
  split at served
  · rename_i tick bound
    have member := Tick.mem_serve_of_mem_reported served
    obtain ⟨order, listed, owned⟩ := Tick.owner_of_serve _ _ fill member
    rw [Std.ExtTreeMap.mem_toList_iff_getElem?_eq_some] at listed
    refine ⟨⟨order, orderAt_eq_some_iff.mpr ⟨tick, bound, listed⟩, owned⟩, ?_⟩
    intro id left resting
    rw [orderAt_fillOrder_self, bound, Option.bind_some,
      (tick.filling_serves quantity).2] at resting
    exact Tick.serve_le_unserved quantity tick.pairwise_ids fill member
      (id, left) resting
  · cases served

end PriceMap

/-- A fill of the book, with the id of the order that it fills. -/
structure TracedFill (w : Nat) (Account : Type) where
  price : BitVec w
  orderId : OrderId
  owner : Account
  quantity : BitVec w
  deriving Repr, DecidableEq

/-- The fill as matching keeps it. -/
def TracedFill.untraced (fill : TracedFill w Account) :
    Account × BitVec w × BitVec w :=
  (fill.owner, fill.price, fill.quantity)

/-- Add a price to the fills at one level. -/
def TracedFill.at
    (price : BitVec w)
    (fill : OrderId × Account × BitVec w) : TracedFill w Account :=
  ⟨price, fill.1, fill.2.1, fill.2.2⟩

/-- A price is strictly better, for the taker of the given side. -/
def Better (isBid : Bool) (price other : BitVec w) : Prop :=
  if isBid then price < other else other < price

/-- The first fill is at a better price, or of an earlier order. -/
def Precedes
    (isBid : Bool)
    (first second : TracedFill w Account) : Prop :=
  Better isBid first.price second.price ∨
    (first.price = second.price ∧ first.orderId < second.orderId)

/-- Quantity that a trace takes from an order. -/
def takenFrom
    (trace : List (TracedFill w Account))
    (price : BitVec w)
    (id : OrderId) : Nat :=
  (trace.map fun fill =>
    if fill.price = price ∧ fill.orderId = id then fill.quantity.toNat
    else 0).sum

theorem Better.asymm
    {isBid : Bool}
    {first second : BitVec w}
    (closer : Better isBid first second) : ¬ Better isBid second first := by
  cases isBid with
  | true =>
      exact BitVec.lt_asymm closer
  | false =>
      exact BitVec.lt_asymm closer

theorem Better.ne
    {isBid : Bool}
    {first second : BitVec w}
    (closer : Better isBid first second) : first ≠ second := by
  rintro rfl
  exact closer.asymm closer

/-- Prices within a best price are that price or worse. -/
theorem better_of_withinLimit
    {isBid : Bool}
    {best price : BitVec w}
    (within : WithinLimit isBid price.toNat best.toNat)
    (different : best ≠ price) : Better isBid best price := by
  cases isBid with
  | true =>
      exact BitVec.not_le.mp fun reverse =>
        different (BitVec.le_antisymm (BitVec.le_def.mpr within) reverse)
  | false =>
      exact BitVec.not_le.mp fun reverse =>
        different (BitVec.le_antisymm reverse (BitVec.le_def.mpr within))

/-- What more fills at one price take. -/
theorem takenFrom_append
    (trace : List (TracedFill w Account))
    (served : List (OrderId × Account × BitVec w))
    (key price : BitVec w)
    (id : OrderId) :
    takenFrom (trace ++ served.map (TracedFill.at key)) price id =
      takenFrom trace price id +
        if key = price then Tick.servedTo id served else 0 := by
  unfold takenFrom Tick.servedTo
  by_cases same : key = price
  · simp [TracedFill.at, same, Function.comp_def]
  · simp [TracedFill.at, same, Function.comp_def]

/-- More fills at a worse price, in the order of their ids. -/
theorem pairwise_append
    {isBid : Bool}
    {trace : List (TracedFill w Account)}
    {served : List (OrderId × Account × BitVec w)}
    {key : BitVec w}
    (ordered : trace.Pairwise (Precedes isBid))
    (increasing : served.Pairwise fun first second => first.1 < second.1)
    (earlier : ∀ fill ∈ trace, Better isBid fill.price key) :
    (trace ++ served.map (TracedFill.at key)).Pairwise
      (Precedes isBid) := by
  refine List.pairwise_append.mpr ⟨ordered, ?_, ?_⟩
  · exact List.pairwise_map.mpr
      (increasing.imp fun smaller => .inr ⟨rfl, smaller⟩)
  · intro fill listed later member
    obtain ⟨part, _, rfl⟩ := List.mem_map.mp member
    exact .inl (earlier fill listed)

/-- The trace of the fills that were made so far, against the books. -/
structure Traced
    (isBid : Bool)
    (books current : Bool → PriceMap w Account)
    (state : MatchState w Account Asset)
    (trace : List (TracedFill w Account)) : Prop where
  refines : state.pool.Refines current
  fills : state.filledOrders = trace.map TracedFill.untraced
  ordered : trace.Pairwise (Precedes isBid)
  taken :
    ∀ price id,
      (current !isBid).quantityAt price id + takenFrom trace price id =
        (books !isBid).quantityAt price id
  kept :
    ∀ price (id : OrderId) order,
      (current !isBid).orderAt price id = some order →
        ∃ before,
          (books !isBid).orderAt price id = some before ∧
            order.owner = before.owner
  owned :
    ∀ fill ∈ trace,
      ∃ order,
        (books !isBid).orderAt fill.price fill.orderId = some order ∧
          order.owner = fill.owner
  -- all orders that are left come after the fills
  behind :
    ∀ fill ∈ trace, ∀ price (id : OrderId) order,
      (current !isBid).orderAt price id = some order →
        Better isBid fill.price price ∨
          (fill.price = price ∧ fill.orderId ≤ id)
  -- a level that could not fill the rest of the order is gone
  exhausted :
    0 < state.remainOrders →
      ∀ fill ∈ trace, ∀ price ∈ current !isBid,
        Better isBid fill.price price

section Matching

variable [DecidableEq Account] [DecidableEq Asset]
  {config : Config w Account Asset} {isBid : Bool} {orderer : Account}
  {base quote : Asset} {books current : Bool → PriceMap w Account}
  {state next : MatchState w Account Asset}
  {trace : List (TracedFill w Account)}

theorem Traced.fillFromPool
    {quantity : BitVec w}
    (traced : Traced isBid books current state trace)
    (takes : quantity ≤ state.remainOrders)
    (filled :
      config.fillFromPool isBid orderer base quote quantity state =
        .ok next) :
    Traced isBid books current next trace := by
  obtain ⟨_, shape⟩ := Config.fillFromPool_eq_ok filled
  have samePool : next.pool = state.pool := by rw [shape]
  have sameFills : next.filledOrders = state.filledOrders := by rw [shape]
  have remains : next.remainOrders = state.remainOrders - quantity := by
    rw [shape]
  refine { traced with
    refines := samePool ▸ traced.refines
    fills := sameFills.trans traced.fills
    exhausted := fun unfinished => traced.exhausted ?_ }
  rw [remains, BitVec.lt_def, BitVec.toNat_sub_of_le takes] at unfinished
  rw [BitVec.lt_def]
  exact Nat.lt_of_lt_of_le unfinished (Nat.sub_le _ _)

omit [DecidableEq Asset] in
theorem Traced.doFillBook
    (width : 0 < w)
    {price index : BitVec w}
    (traced : Traced isBid books current state trace)
    (next_eq : state.pool.nextOrder isBid = some (price, index))
    (unfinished : 0 < state.remainOrders)
    (filled : HybridOrderbook.doFillBook isBid price state = .ok next) :
    ∃ after more, Traced isBid books after next more := by
  have fills := fillsBook_of_doFillBook width traced.refines filled
  obtain ⟨member, best⟩ :
      price ∈ current (!isBid) ∧
        ∀ other ∈ current (!isBid), price ≠ other →
          Better isBid price other := by
    obtain ⟨member, within⟩ := traced.refines.best_of_nextOrder next_eq
    exact ⟨member, fun other listed different =>
      better_of_withinLimit (within other listed) different⟩
  have earlier :
      ∀ fill ∈ trace, Better isBid fill.price price :=
    fun fill listed => traced.exhausted unfinished fill listed price member
  have stays :
      ∀ other ∈ ((current !isBid).fillOrder price state.remainOrders).2,
        other ∈ current (!isBid) :=
    fun other listed => PriceMap.mem_of_mem_fillOrder listed
  refine ⟨_, trace ++ ((current !isBid).servedAt price
    state.remainOrders).map (TracedFill.at price), fills.refines, ?_,
    pairwise_append traced.ordered (PriceMap.pairwise_servedAt ..) earlier,
    ?_, ?_, ?_, ?_, ?_⟩
  all_goals try rw [Function.update_self]
  · rw [fills.filledOrders, traced.fills, ← PriceMap.map_snd_servedAt,
      List.map_append, List.map_map, List.map_map]
    rfl
  · intro other id
    have here := (current !isBid).quantityAt_fillOrder price
      state.remainOrders other id
    have before := traced.taken other id
    rw [takenFrom_append]
    omega
  · intro other id order resting
    obtain ⟨middle, found, sameOwner, _⟩ :=
      PriceMap.orderAt_fillOrder resting
    obtain ⟨before, origin, owned⟩ := traced.kept other id middle found
    exact ⟨before, origin, sameOwner.trans owned⟩
  · intro fill listed
    rcases List.mem_append.mp listed with old | new
    · exact traced.owned fill old
    · obtain ⟨part, served, rfl⟩ := List.mem_map.mp new
      obtain ⟨⟨order, resting, owned⟩, _⟩ :=
        PriceMap.order_of_mem_servedAt served
      obtain ⟨before, origin, sameOwner⟩ :=
        traced.kept price part.1 order resting
      exact ⟨before, origin, sameOwner.symm.trans owned⟩
  · intro fill listed other id order resting
    have known := stays other (PriceMap.mem_of_orderAt resting)
    rcases List.mem_append.mp listed with old | new
    · exact .inl (traced.exhausted unfinished fill old other known)
    · obtain ⟨part, served, rfl⟩ := List.mem_map.mp new
      by_cases same : price = other
      · subst same
        exact .inr ⟨rfl,
          (PriceMap.order_of_mem_servedAt served).2 id order resting⟩
      · exact .inl (best other known same)
  · intro stillUnfinished fill listed other left
    have known := stays other left
    have short := fills.remainOrders
    rw [BitVec.lt_def] at stillUnfinished
    have gone : price ≠ other := by
      rintro rfl
      exact PriceMap.not_mem_fillOrder (by simp at stillUnfinished; omega)
        left
    rcases List.mem_append.mp listed with old | new
    · exact traced.exhausted unfinished fill old other known
    · obtain ⟨part, _, rfl⟩ := List.mem_map.mp new
      exact best other known gone

/-- Every match has a trace. -/
theorem traced_of_matchOrders
    (width : 0 < w)
    {pool : Pool w Account}
    (refines : pool.Refines books)
    {orderQuantity : BitVec w}
    {ledger : Ledger w Account Asset}
    {final : MatchState w Account Asset}
    (matched :
      config.matchOrders isBid orderer base quote pool orderQuantity
        ledger = .ok final) :
    ∃ current trace, Traced isBid books current final trace := by
  refine Config.matchOrders_invariant
    (fun state => ∃ current trace, Traced isBid books current state trace)
    ?_ ?_ ?_ matched
  · rintro state next quantity ⟨current, trace, traced⟩ takes filled
    exact ⟨current, trace, traced.fillFromPool takes.le filled⟩
  · rintro state next price index ⟨current, trace, traced⟩ best unfinished
      filled
    exact traced.doFillBook width best unfinished filled
  · exact ⟨books, [],
      { refines := refines
        fills := rfl
        ordered := .nil
        taken := fun _ _ => rfl
        kept := fun _ _ order resting => ⟨order, resting, rfl⟩
        owned := by simp
        behind := by simp
        exhausted := by simp }⟩

end Matching

/-- Quantity that is left of an order of a pool. -/
def Pool.quantityOf
    (pool : Pool w Account)
    (isBid : Bool)
    (price : BitVec w)
    (id : OrderId) : Nat :=
  match (pool.getOrderbook isBid).openOrdersAt price with
  | .ok (some tick) => tick.quantityOf id
  | _ => 0

theorem Pool.Refines.quantityOf_eq
    (width : 0 < w)
    {pool : Pool w Account}
    {books : Bool → PriceMap w Account}
    (refines : pool.Refines books)
    (isBid : Bool)
    (price : BitVec w)
    (id : OrderId) :
    pool.quantityOf isBid price id = (books isBid).quantityAt price id := by
  rw [Pool.quantityOf, (refines isBid).openOrdersAt_eq width,
    PriceMap.quantityAt, PriceMap.orderAt]
  cases (books isBid)[price]? <;> rfl

/--
The fills of a match, in the order in which they were made, are a trace that
passes over no order.
-/
structure PriceTimePriority
    (isBid : Bool)
    (pool nextPool : Pool w Account)
    (filledOrders : FilledOrders w Account)
    (trace : List (TracedFill w Account)) : Prop where
  fills : filledOrders = trace.map TracedFill.untraced
  owned :
    ∀ fill ∈ trace,
      ∃ order,
        pool.HoldsOrder (!isBid) fill.price fill.orderId order ∧
          order.owner = fill.owner
  taken :
    ∀ price id,
      nextPool.quantityOf (!isBid) price id + takenFrom trace price id =
        pool.quantityOf (!isBid) price id
  ordered : trace.Pairwise (Precedes isBid)
  notPassedOver :
    ∀ fill ∈ trace, ∀ price id order,
      nextPool.HoldsOrder (!isBid) price id order → order.quantity ≠ 0 →
        ¬ Better isBid price fill.price ∧
          ¬ (price = fill.price ∧ id < fill.orderId)

theorem Traced.priceTimePriority
    (width : 0 < w)
    {isBid : Bool}
    {books current : Bool → PriceMap w Account}
    {pool : Pool w Account}
    {state : MatchState w Account Asset}
    {trace : List (TracedFill w Account)}
    (refines : pool.Refines books)
    (traced : Traced isBid books current state trace) :
    PriceTimePriority isBid pool state.pool state.filledOrders trace where
  fills := traced.fills
  owned fill listed := by
    obtain ⟨order, resting, owned⟩ := traced.owned fill listed
    exact ⟨order, (refines.holdsOrder_iff width ..).mpr resting, owned⟩
  taken price id := by
    rw [traced.refines.quantityOf_eq width, refines.quantityOf_eq width]
    exact traced.taken price id
  ordered := traced.ordered
  notPassedOver fill listed price id order holds _ := by
    have resting := (traced.refines.holdsOrder_iff width ..).mp holds
    rcases traced.behind fill listed price id order resting with
      worse | ⟨same, later⟩
    · exact ⟨worse.asymm, fun ⟨same, _⟩ => worse.ne same.symm⟩
    · refine ⟨fun better => better.ne same.symm, fun ⟨_, earlier⟩ => ?_⟩
      exact BitVec.not_lt.mpr later earlier

/--
In every state that calls of the pallet reach from new pools, the book fills
of a match that succeeds respect price-time priority.
-/
theorem priceTimePriority_of_doMatchOrder
    [DecidableEq Account]
    [DecidableEq Asset]
    (wide : 64 ≤ w)
    (config : Config w Account Asset)
    (setup : Setup w Account Asset)
    {start pallet : Pallet w Account Asset}
    (created : start.storage.Created)
    (calls : List (Dispatchable w Account Asset))
    (ran : Run.run (Pallet.step config setup) calls start = some pallet)
    (isBid : Bool)
    (orderer : Account)
    (base quote : Asset)
    (orderQuantity : BitVec w)
    {pool nextPool : Pool w Account}
    {after : Ledger w Account Asset}
    (found : pallet.storage.pools (base, quote) = some pool)
    (executed :
      config.doMatchOrder isBid orderer base quote pool orderQuantity
        pallet.storage.ledger = .ok (nextPool, after)) :
    ∃ final trace,
      config.matchOrders isBid orderer base quote pool orderQuantity
          pallet.storage.ledger = .ok final ∧
        PriceTimePriority isBid pool nextPool final.filledOrders trace := by
  have width : 0 < w := by omega
  obtain ⟨books, keeps⟩ := Pallet.keeps_of_run wide created ran _ _ found
  obtain ⟨final, matched, _, rfl⟩ :=
    Config.doMatchOrder_eq_ok_iff.mp executed
  obtain ⟨current, trace, traced⟩ :=
    traced_of_matchOrders width keeps.refines matched
  exact ⟨final, trace, matched,
    traced.priceTimePriority width keeps.refines⟩

/--
After a withdrawal of liquidity, a bid fills two asks at one price and part of
an ask at a higher one.
-/
theorem priceTimePriority_of_bid :
    ∃ (pallet : Pallet 64 Config.MockAccount Nat)
        (pool nextPool : Pool 64 Config.MockAccount)
        (after : Ledger 64 Config.MockAccount Nat)
        (final : MatchState 64 Config.MockAccount Nat)
        (trace : List (TracedFill 64 Config.MockAccount)),
      Run.run (Pallet.step Config.mock (.mock (.inl 0)))
          (Pallet.mockOpening (.inl 1) 1000 100000 ++
            [.onPool (.dispatch ⟨.inl 1, 1, .limitOrder 0 1 false 104 30⟩),
              .onPool (.dispatch ⟨.inl 2, 2, .limitOrder 0 1 false 106 20⟩),
              .onPool (.dispatch ⟨.inl 3, 3, .limitOrder 0 1 false 104 5⟩),
              .onPool (.removeLiquidity (.inl 1) 0 1 1000 1 1 (.inl 1))])
          (.genesis (.mock Sum.isLeft) fun _ => false) = some pallet ∧
      pallet.storage.pools (0, 1) = some pool ∧
      Config.mock.doMatchOrder true (.inl 4) 0 1 pool 80
        pallet.storage.ledger = .ok (nextPool, after) ∧
      Config.mock.matchOrders true (.inl 4) 0 1 pool 80
        pallet.storage.ledger = .ok final ∧
      PriceTimePriority true pool nextPool final.filledOrders trace := by
  have succeeds :
      ((Run.run (Pallet.step Config.mock (.mock (.inl 0)))
          (Pallet.mockOpening (.inl 1) 1000 100000 ++
            [.onPool (.dispatch ⟨.inl 1, 1, .limitOrder 0 1 false 104 30⟩),
              .onPool (.dispatch ⟨.inl 2, 2, .limitOrder 0 1 false 106 20⟩),
              .onPool (.dispatch ⟨.inl 3, 3, .limitOrder 0 1 false 104 5⟩),
              .onPool (.removeLiquidity (.inl 1) 0 1 1000 1 1 (.inl 1))])
          (.genesis (.mock Sum.isLeft) fun _ => false)).bind
        fun pallet => (pallet.storage.pools (0, 1)).bind
          fun pool => (Config.mock.doMatchOrder true (.inl 4) 0 1 pool 80
            pallet.storage.ledger).toOption).isSome = true := by
    decide +kernel
  obtain ⟨pallet, pool, nextPool, after, ran, found, executed⟩ :=
    Pallet.exists_match_of_isSome succeeds
  obtain ⟨final, trace, filled, priority⟩ := priceTimePriority_of_doMatchOrder
    (by decide) Config.mock (.mock (.inl 0)) (Pallet.created_genesis _ _) _
    ran true (.inl 4) 0 1 80 found executed
  exact ⟨pallet, pool, nextPool, after, final, trace, ran, found, executed,
    filled, priority⟩

end HybridOrderbook
