import HybridOrderbook.OrderBook

namespace HybridOrderbook

open Library

/-!
# All orders of a book

Two ways to speak about every resting order at once: a property that all of
them have, and a weight that is added up over them.  For each operation of a
book it is shown what happens to both.
-/

variable {w : Nat} {Account : Type}

namespace Tick

/-- Every order of the tick has the property. -/
def All (property : Account → Nat → Prop) (tick : Tick w Account) : Prop :=
  ∀ (id : OrderId) (order : Order w Account),
    tick.openOrders[id]? = some order →
      property order.owner order.quantity.toNat

/-- A property that an order keeps when its quantity falls. -/
def Downward (property : Account → Nat → Prop) : Prop :=
  ∀ owner less more, less ≤ more → property owner more → property owner less

/--
A property that an order keeps, and its fills have, when it is filled with
amounts of some kind.  What is left of such an amount after a whole order is
an amount of that kind again.
-/
structure Splits
    (property : Account → Nat → Prop)
    (amount : Nat → Prop) : Prop where
  taken :
    ∀ owner quantity part,
      amount part → part ≤ quantity → property owner quantity →
        property owner part
  kept :
    ∀ owner quantity part,
      amount part → part ≤ quantity → property owner quantity →
        property owner (quantity - part)
  left :
    ∀ owner quantity total,
      amount total → quantity ≤ total → property owner quantity →
        amount (total - quantity)

theorem Downward.splits
    {property : Account → Nat → Prop}
    (downward : Downward property) : Splits property fun _ => True where
  taken owner _ _ _ less := downward owner _ _ less
  kept owner _ _ _ _ := downward owner _ _ (Nat.sub_le _ _)
  left _ _ _ _ _ _ := trivial

theorem splits_dvd (lot : Nat) :
    Splits (fun (_ : Account) quantity => lot ∣ quantity) (lot ∣ ·) where
  taken _ _ _ multiple _ _ := multiple
  kept _ _ _ multiple _ whole := Nat.dvd_sub whole multiple
  left _ _ _ multiple _ whole := Nat.dvd_sub multiple whole

variable {amount : Nat → Prop} {property : Account → Nat → Prop}
  {tick : Tick w Account}
  {orderId : OrderId} {owner : Account} {quantity : BitVec w}
  {expiredAt : Nat}

theorem All.insert
    {orders : Std.ExtTreeMap OrderId (Order w Account)}
    {order : Order w Account}
    (all : (Tick.mk orders).All property)
    (holds : property order.owner order.quantity.toNat) :
    (Tick.mk (orders.insert orderId order)).All property := by
  intro id found bound
  rw [Std.ExtTreeMap.getElem?_insert] at bound
  split at bound
  · cases bound
    exact holds
  · exact all id found bound

theorem All.erase
    {orders : Std.ExtTreeMap OrderId (Order w Account)}
    (all : (Tick.mk orders).All property) :
    (Tick.mk (orders.erase orderId)).All property := by
  intro id found bound
  rw [Std.ExtTreeMap.getElem?_erase] at bound
  split at bound
  · cases bound
  · exact all id found bound

theorem all_new
    (holds : property owner quantity.toNat) :
    (Tick.new orderId owner quantity expiredAt).All property := by
  refine All.insert ?_ holds
  intro id found bound
  simp at bound

theorem All.placed
    (all : tick.All property)
    (holds : property owner quantity.toNat) :
    (tick.placed orderId owner quantity expiredAt).All property :=
  All.insert all holds

/-- What all orders have, the fills and the orders that stay have as well. -/
theorem All.filled
    (splits : Splits property amount)
    (all : tick.All property)
    (quantity : BitVec w)
    (fits : amount quantity.toNat) :
    (tick.filled quantity).2.All property ∧
      ∀ fill ∈ (tick.filling quantity).res,
        property fill.1 fill.2.toNat := by
  -- while there is something left to fill, it is an amount of the kind
  have filled := tick.filling_invariant quantity
    (fun state => (Tick.mk state.pending).All property ∧
      (∀ fill ∈ state.res, property fill.1 fill.2.toNat) ∧
      (state.filled < quantity →
        amount (quantity.toNat - state.filled.toNat))) ?_ ?_ ?_
  · exact ⟨filled.1, filled.2.1⟩
  · intro state id order rest ahead unfinished enough ⟨kept, given, left⟩
    have holds := kept id order ahead.head
    have bounded := BitVec.le_of_lt unfinished
    have remain := Filling.toNat_remain bounded
    have fitting := left unfinished
    rw [← remain] at fitting
    refine ⟨?_, ?_, ?_⟩
    · rw [Filling.pending_fillPart ahead]
      refine All.insert kept ?_
      rw [BitVec.toNat_sub_of_le enough]
      exact splits.kept order.owner _ _ fitting enough holds
    · intro fill member
      rcases List.mem_append.mp member with earlier | last
      · exact given fill earlier
      · rw [List.mem_singleton.mp last]
        exact splits.taken order.owner _ _ fitting enough holds
    · intro unfilled
      rw [BitVec.lt_def, Filling.toNat_filled_fillPart id order bounded]
        at unfilled
      exact absurd unfilled (Nat.lt_irrefl _)
  · intro state id order rest ahead unfinished small ⟨kept, given, left⟩
    have holds := kept id order ahead.head
    have bounded := BitVec.le_of_lt unfinished
    refine ⟨?_, ?_, ?_⟩
    · rw [Filling.pending_fillWhole]
      exact All.erase kept
    · intro fill member
      rcases List.mem_append.mp member with earlier | last
      · exact given fill earlier
      · rw [List.mem_singleton.mp last]
        exact holds
    · intro _
      have fewer := BitVec.lt_def.mp small
      rw [Filling.toNat_remain bounded] at fewer
      rw [Filling.toNat_filled_fillWhole id bounded small, Nat.sub_add_eq]
      exact splits.left order.owner _ _ (left unfinished) fewer.le holds
  · exact ⟨all, by simp, fun _ => by simpa using fits⟩

/-- What cancelling does to the one order that it names. -/
theorem canceled_eq_ok
    [DecidableEq Account]
    {changed : Tick w Account}
    (canceled : tick.canceled owner orderId quantity = .ok changed) :
    ∃ order,
      tick.openOrders[orderId]? = some order ∧ order.owner = owner ∧
        quantity ≤ order.quantity ∧
        ((order.quantity = quantity ∧
            changed = ⟨tick.openOrders.erase orderId⟩) ∨
          (order.quantity ≠ quantity ∧
            changed = ⟨tick.openOrders.insert orderId
              { order with quantity := order.quantity - quantity }⟩)) := by
  unfold Tick.canceled at canceled
  split at canceled
  · cases canceled
  · rename_i order found
    by_cases otherOwner : order.owner ≠ owner
    · simp [otherOwner] at canceled
    · by_cases tooMuch : order.quantity < quantity
      · simp [otherOwner, tooMuch] at canceled
      · refine ⟨order, found, not_not.mp otherOwner,
          BitVec.not_lt.mp tooMuch, ?_⟩
        have covered := BitVec.not_lt.mp tooMuch
        by_cases whole : order.quantity - quantity = 0#w
        · refine .inl ⟨?_, ?_⟩
          · have left := BitVec.toNat_sub_of_le covered
            rw [whole, BitVec.toNat_zero] at left
            rw [BitVec.le_def] at covered
            exact BitVec.eq_of_toNat_eq (by omega)
          · simpa [otherOwner, tooMuch, whole] using canceled.symm
        · refine .inr ⟨?_, ?_⟩
          · intro same
            exact whole (by simp [same])
          · simpa [otherOwner, tooMuch, whole] using canceled.symm

theorem All.canceled
    [DecidableEq Account]
    (splits : Splits property amount)
    (all : tick.All property)
    (fits : amount quantity.toNat)
    {changed : Tick w Account}
    (canceled : tick.canceled owner orderId quantity = .ok changed) :
    changed.All property := by
  obtain ⟨order, found, _, covered, ⟨_, rfl⟩ | ⟨_, rfl⟩⟩ :=
    canceled_eq_ok canceled
  · exact All.erase all
  · refine All.insert all ?_
    rw [BitVec.toNat_sub_of_le covered]
    exact splits.kept order.owner _ _ fits covered (all orderId order found)

/-- Filling leaves orders that were there, with no more than they had. -/
theorem order_of_filled
    {order : Order w Account}
    (kept :
      (tick.filled quantity).2.openOrders[orderId]? = some order) :
    ∃ before,
      tick.openOrders[orderId]? = some before ∧
        order.owner = before.owner ∧ order.quantity ≤ before.quantity := by
  have shrinks :
      ∀ (id : OrderId) (order : Order w Account),
        (tick.filling quantity).pending[id]? = some order →
          ∃ before,
            tick.openOrders[id]? = some before ∧
              order.owner = before.owner ∧
              order.quantity ≤ before.quantity := by
    refine tick.filling_invariant quantity
      (fun state => ∀ (id : OrderId) (order : Order w Account),
        state.pending[id]? = some order →
          ∃ before,
            tick.openOrders[id]? = some before ∧
              order.owner = before.owner ∧
              order.quantity ≤ before.quantity) ?_ ?_ ?_
    · intro state id order rest ahead _ enough known otherId other bound
      rw [Filling.pending_fillPart ahead,
        Std.ExtTreeMap.getElem?_insert] at bound
      split at bound
      · rename_i same
        rw [Std.compare_eq_iff_eq] at same
        subst same
        cases bound
        obtain ⟨before, found, sameOwner, smaller⟩ :=
          known id order ahead.head
        refine ⟨before, found, sameOwner, ?_⟩
        rw [BitVec.le_def, BitVec.toNat_sub_of_le enough]
        rw [BitVec.le_def] at smaller
        omega
      · exact known otherId other bound
    · intro state id order rest ahead _ _ known otherId other bound
      rw [Filling.pending_fillWhole,
        Std.ExtTreeMap.getElem?_erase] at bound
      split at bound
      · cases bound
      · exact known otherId other bound
    · intro id order bound
      exact ⟨order, bound, rfl, BitVec.le_refl _⟩
  exact shrinks orderId order kept

variable {weight : Account → Nat → Nat}

theorem worth_new :
    (Tick.new orderId owner quantity expiredAt).worth weight =
      weight owner quantity.toNat := by
  have empty : (∅ : Std.ExtTreeMap OrderId (Order w Account)).erase orderId =
      ∅ := TreeMap.eq_empty_of_not_mem (by simp)
  rw [Tick.new, worth_insert, empty, worth, TreeMap.total_empty, Nat.add_zero]

theorem worth_erase_le (orders : Std.ExtTreeMap OrderId (Order w Account)) :
    (Tick.mk (orders.erase orderId)).worth weight ≤
      (Tick.mk orders).worth weight := by
  cases found : orders[orderId]? with
  | none =>
      exact Nat.le_of_eq (TreeMap.total_of_unbound _ found)
  | some order =>
      rw [worth_of_bound weight found]
      exact Nat.le_add_left _ _

theorem worth_placed_le
    (weight : Account → Nat → Nat)
    (tick : Tick w Account)
    (orderId : OrderId)
    (owner : Account)
    (quantity : BitVec w)
    (expiredAt : Nat) :
    (tick.placed orderId owner quantity expiredAt).worth weight ≤
      tick.worth weight + weight owner quantity.toNat := by
  have erased : (Tick.mk (tick.openOrders.erase orderId)).worth weight ≤
      tick.worth weight := worth_erase_le tick.openOrders
  rw [placed, worth_insert, Nat.add_comm]
  exact Nat.add_le_add_right erased _

/-- An order under a new id adds its weight. -/
theorem worth_placed
    (weight : Account → Nat → Nat)
    (fresh : tick.openOrders[orderId]? = none) :
    (tick.placed orderId owner quantity expiredAt).worth weight =
      tick.worth weight + weight owner quantity.toNat := by
  have erased : (Tick.mk (tick.openOrders.erase orderId)).worth weight =
      tick.worth weight := TreeMap.total_of_unbound _ fresh
  rw [placed, worth_insert, erased, Nat.add_comm]

/-- Splitting never adds weight. -/
def Superadditive (weight : Account → Nat → Nat) : Prop :=
  ∀ owner first second,
    weight owner first + weight owner second ≤ weight owner (first + second)

theorem Superadditive.mono
    (superadditive : Superadditive weight)
    (owner : Account)
    {less more : Nat}
    (ordered : less ≤ more) : weight owner less ≤ weight owner more := by
  have split := superadditive owner less (more - less)
  rw [Nat.add_sub_cancel' ordered] at split
  omega

theorem worth_canceled_le
    [DecidableEq Account]
    (superadditive : Superadditive weight)
    {changed : Tick w Account}
    (canceled : tick.canceled owner orderId quantity = .ok changed) :
    changed.worth weight ≤ tick.worth weight := by
  obtain ⟨order, found, _, covered, ⟨_, rfl⟩ | ⟨_, rfl⟩⟩ :=
    canceled_eq_ok canceled
  · exact worth_erase_le tick.openOrders
  · have lighter : weight order.owner (order.quantity - quantity).toNat ≤
        weight order.owner order.quantity.toNat := by
      rw [BitVec.toNat_sub_of_le covered]
      exact superadditive.mono order.owner (Nat.sub_le _ _)
    have whole : tick.worth weight =
        weight order.owner order.quantity.toNat +
          (Tick.mk (tick.openOrders.erase orderId)).worth weight :=
      worth_of_bound weight found
    rw [worth_insert, whole]
    exact Nat.add_le_add_right lighter _

/-- The volume of orders in lots is in lots. -/
theorem All.dvd_volume
    {lot : Nat}
    (all : tick.All fun _ quantity => lot ∣ quantity) :
    lot ∣ tick.volume := by
  refine List.dvd_sum fun part member => ?_
  obtain ⟨⟨id, order⟩, listed, rfl⟩ := List.mem_map.mp member
  exact all id order (Std.ExtTreeMap.mem_toList_iff_getElem?_eq_some.mp listed)

theorem quantity_le_volume
    {order : Order w Account}
    (listed : tick.openOrders[orderId]? = some order) :
    order.quantity.toNat ≤ tick.volume := by
  unfold volume worth
  rw [TreeMap.total_of_bound _ listed]
  exact Nat.le_add_right _ _

/-- A cancel takes out the quantity that it names. -/
theorem volume_canceled
    [DecidableEq Account]
    {changed : Tick w Account}
    (canceled : tick.canceled owner orderId quantity = .ok changed) :
    changed.volume + quantity.toNat = tick.volume := by
  obtain ⟨order, found, _, covered, ⟨whole, rfl⟩ | ⟨_, rfl⟩⟩ :=
    canceled_eq_ok canceled
  · have before := worth_of_bound (fun _ part => part) found
    unfold volume
    rw [before, whole, Nat.add_comm]
  · have before := worth_of_bound (fun _ part => part) found
    unfold volume
    rw [before, worth_insert, BitVec.toNat_sub_of_le covered]
    rw [BitVec.le_def] at covered
    omega

/-- The fills that a fill reports; none when nothing was filled. -/
theorem filled_fills (tick : Tick w Account) (quantity : BitVec w) :
    (tick.filled quantity).1.getD [] = (tick.filling quantity).res ∨
      (tick.filled quantity).1.getD [] = [] := by
  unfold Tick.filled
  by_cases nothing : (tick.filling quantity).filled = 0#w
  · exact .inr (by simp [nothing])
  · exact .inl (by simp [nothing])

/-- A weight that counts quantities or nothing. -/
theorem worth_ite (counts : Bool) (tick : Tick w Account) :
    tick.worth (fun _ part => if counts then part else 0) =
      if counts then tick.volume else 0 := by
  cases counts with
  | true =>
      rfl
  | false =>
      simp [worth, TreeMap.total]

/-- The reported fills add up to what the loop has counted. -/
theorem fillsWorth_filled (tick : Tick w Account) (quantity : BitVec w) :
    fillsWorth (fun _ part => part) ((tick.filled quantity).1.getD []) =
      (tick.filling quantity).filled.toNat := by
  rw [(tick.toNat_filling_filled quantity).1]
  unfold Tick.filled
  by_cases nothing : (tick.filling quantity).filled = 0#w
  · have counted := (tick.toNat_filling_filled quantity).1
    rw [nothing, BitVec.toNat_zero] at counted
    rw [← counted]
    simp [nothing, fillsWorth]
  · simp [nothing]

end Tick

namespace PriceMap

/-- Every order of the book has the property. -/
def All
    (property : BitVec w → Account → Nat → Prop)
    (map : PriceMap w Account) : Prop :=
  ∀ (key : BitVec w) (tick : Tick w Account),
    map[key]? = some tick → tick.All (property key)

/-- A weight, added up over all orders of the book. -/
def worth
    (weight : BitVec w → Account → Nat → Nat)
    (map : PriceMap w Account) : Nat :=
  TreeMap.total (fun key tick => tick.worth (weight key)) map

/-- The fills that filling a book reports. -/
def fillsAt (map : PriceMap w Account) (key quantity : BitVec w) :
    Fills w Account :=
  (map.fillOrder key quantity).1.getD []

variable {property : BitVec w → Account → Nat → Prop} {amount : Nat → Prop}
  {weight : BitVec w → Account → Nat → Nat} {map : PriceMap w Account}
  {orderId : OrderId} {owner : Account} {key quantity : BitVec w}
  {expiredAt : Nat}

theorem All.insert
    {tick : Tick w Account}
    (all : map.All property)
    (holds : tick.All (property key)) :
    PriceMap.All property (Std.ExtTreeMap.insert map key tick) := by
  intro other found bound
  rw [Std.ExtTreeMap.getElem?_insert] at bound
  by_cases same : key = other
  · subst same
    simp only [Std.compare_self, ↓reduceIte, Option.some.injEq] at bound
    exact bound ▸ holds
  · simp only [Std.compare_eq_iff_eq, same, ↓reduceIte] at bound
    exact all other found bound

theorem All.erase
    (all : map.All property)
    (key : BitVec w) :
    PriceMap.All property (Std.ExtTreeMap.erase map key) := by
  intro other found stays
  rw [Std.ExtTreeMap.getElem?_erase] at stays
  split at stays
  · cases stays
  · exact all other found stays

theorem all_empty : PriceMap.All property (∅ : PriceMap w Account) := by
  intro other found bound
  simp at bound

theorem All.placeOrder
    (all : map.All property)
    (holds : property key owner quantity.toNat) :
    (map.placeOrder orderId owner key quantity expiredAt).All property := by
  unfold PriceMap.placeOrder
  split
  · rename_i tick bound
    exact all.insert ((all key tick bound).placed holds)
  · exact all.insert (Tick.all_new holds)

theorem All.fillOrder
    (splits : ∀ key, Tick.Splits (property key) amount)
    (all : map.All property)
    (key quantity : BitVec w)
    (fits : amount quantity.toNat) :
    (map.fillOrder key quantity).2.All property ∧
      ∀ fill ∈ map.fillsAt key quantity,
        property key fill.1 fill.2.toNat := by
  unfold PriceMap.fillsAt PriceMap.fillOrder
  cases bound : map[key]? with
  | none =>
      exact ⟨all, by simp⟩
  | some tick =>
      obtain ⟨kept, given⟩ :=
        (all key tick bound).filled (splits key) quantity fits
      refine ⟨?_, ?_⟩
      · by_cases emptied : (tick.filled quantity).2.isEmpty = true
        · simp only [emptied, ↓reduceIte]
          exact all.erase key
        · simp only [emptied, Bool.false_eq_true, ↓reduceIte]
          exact all.insert kept
      · rcases tick.filled_fills quantity with same | none
        · simpa only [same] using given
        · simp [none]

theorem All.cancelOrder
    [DecidableEq Account]
    (splits : ∀ key, Tick.Splits (property key) amount)
    (all : map.All property)
    (fits : amount quantity.toNat) :
    (map.cancelOrder owner key orderId quantity).2.All property := by
  unfold PriceMap.cancelOrder
  split
  · rename_i tick bound
    split
    · rename_i changed canceled
      exact all.insert
        ((all key tick bound).canceled (splits key) fits canceled)
    · exact all
  · exact all

@[simp] theorem worth_empty :
    PriceMap.worth weight (∅ : PriceMap w Account) = 0 :=
  TreeMap.total_empty _

theorem worth_of_bound
    {tick : Tick w Account}
    (bound : map[key]? = some tick) :
    map.worth weight =
      tick.worth (weight key) +
        PriceMap.worth weight (Std.ExtTreeMap.erase map key) :=
  TreeMap.total_of_bound _ bound

theorem worth_insert (tick : Tick w Account) :
    PriceMap.worth weight (Std.ExtTreeMap.insert map key tick) =
      tick.worth (weight key) +
        PriceMap.worth weight (Std.ExtTreeMap.erase map key) :=
  TreeMap.total_insert _ _ _ _

theorem worth_placeOrder_le
    (map : PriceMap w Account)
    (weight : BitVec w → Account → Nat → Nat)
    (orderId : OrderId)
    (owner : Account)
    (key quantity : BitVec w)
    (expiredAt : Nat) :
    (map.placeOrder orderId owner key quantity expiredAt).worth weight ≤
      map.worth weight + weight key owner quantity.toNat := by
  unfold PriceMap.placeOrder
  split
  · rename_i tick bound
    rw [worth_insert, worth_of_bound bound]
    have added := Tick.worth_placed_le (weight key) tick orderId owner
      quantity expiredAt
    omega
  · rename_i unbound
    rw [worth_insert, Tick.worth_new, Nat.add_comm]
    exact Nat.add_le_add_right
      (Nat.le_of_eq (TreeMap.total_of_unbound _ unbound)) _

/-- What stays and what is filled together weigh at most what was there. -/
theorem worth_fillOrder_le
    (superadditive : ∀ key, Tick.Superadditive (weight key))
    (map : PriceMap w Account)
    (key quantity : BitVec w) :
    (map.fillOrder key quantity).2.worth weight +
        Tick.fillsWorth (weight key) (map.fillsAt key quantity) ≤
      map.worth weight := by
  unfold PriceMap.fillsAt PriceMap.fillOrder
  cases bound : map[key]? with
  | none =>
      simp [Tick.fillsWorth]
  | some tick =>
      have split := Tick.worth_filled_le (superadditive key) tick quantity
      have given :
          Tick.fillsWorth (weight key)
              ((tick.filled quantity).1.getD []) ≤
            Tick.fillsWorth (weight key) (tick.filling quantity).res := by
        rcases tick.filled_fills quantity with same | none
        · rw [same]
        · simp [none, Tick.fillsWorth]
      rw [worth_of_bound bound]
      by_cases emptied : (tick.filled quantity).2.isEmpty = true
      · simp only [emptied, ↓reduceIte]
        omega
      · simp only [emptied, Bool.false_eq_true, ↓reduceIte]
        rw [worth_insert]
        omega

theorem worth_cancelOrder_le
    [DecidableEq Account]
    (map : PriceMap w Account)
    (superadditive : ∀ key, Tick.Superadditive (weight key))
    (owner : Account)
    (key : BitVec w)
    (orderId : OrderId)
    (quantity : BitVec w) :
    (map.cancelOrder owner key orderId quantity).2.worth weight ≤
      map.worth weight := by
  unfold PriceMap.cancelOrder
  split
  · rename_i tick bound
    split
    · rename_i changed canceled
      rw [worth_insert, worth_of_bound bound]
      exact Nat.add_le_add_right
        (Tick.worth_canceled_le (superadditive key) canceled) _
    · exact Nat.le_refl _
  · exact Nat.le_refl _

/-- A fill never exceeds what was asked for. -/
theorem fillsWorth_fillsAt_le
    (map : PriceMap w Account)
    (key quantity : BitVec w) :
    Tick.fillsWorth (fun _ part => part) (map.fillsAt key quantity) ≤
      quantity.toNat := by
  unfold PriceMap.fillsAt PriceMap.fillOrder
  cases map[key]? with
  | none =>
      simp [Tick.fillsWorth]
  | some tick =>
      simp only [Tick.fillsWorth_filled]
      exact BitVec.le_def.mp (tick.toNat_filling_filled quantity).2

/-- Filling opens no price level. -/
theorem mem_of_mem_fillOrder
    {other : BitVec w}
    (member : other ∈ (map.fillOrder key quantity).2) : other ∈ map := by
  unfold PriceMap.fillOrder at member
  cases bound : map[key]? with
  | none =>
      simpa [bound] using member
  | some tick =>
      have known : key ∈ map := TreeMap.mem_of_getElem? bound
      by_cases emptied : (tick.filled quantity).2.isEmpty = true
      · simp only [bound, emptied, ↓reduceIte] at member
        exact Std.ExtTreeMap.mem_of_mem_erase member
      · simp only [bound, emptied, Bool.false_eq_true, ↓reduceIte,
          Std.ExtTreeMap.mem_insert, Std.compare_eq_iff_eq] at member
        rcases member with rfl | member
        · exact known
        · exact member

/-- A cancel that succeeds changes the tick at its price. -/
theorem cancelOrder_eq_ok
    [DecidableEq Account]
    (succeeded :
      (map.cancelOrder owner key orderId quantity).1 = .ok ()) :
    ∃ tick changed,
      map[key]? = some tick ∧
        tick.canceled owner orderId quantity = .ok changed ∧
        (map.cancelOrder owner key orderId quantity).2 =
          Std.ExtTreeMap.insert map key changed := by
  unfold PriceMap.cancelOrder at succeeded ⊢
  cases bound : map[key]? with
  | none =>
      simp [bound] at succeeded
  | some tick =>
      cases result : tick.canceled owner orderId quantity with
      | error fault =>
          simp [bound, result] at succeeded
      | ok changed =>
          exact ⟨tick, changed, rfl, result, by simp [result]⟩

/-- Cancelling opens no price level. -/
theorem mem_of_mem_cancelOrder
    [DecidableEq Account]
    {other : BitVec w}
    (member : other ∈ (map.cancelOrder owner key orderId quantity).2) :
    other ∈ map := by
  unfold PriceMap.cancelOrder at member
  split at member
  · rename_i tick bound
    split at member
    · simp only [Std.ExtTreeMap.mem_insert, Std.compare_eq_iff_eq] at member
      rcases member with rfl | member
      · exact TreeMap.mem_of_getElem? bound
      · exact member
    · exact member
  · exact member

/-- Placing opens at most the level of the order. -/
theorem mem_placeOrder
    {other : BitVec w}
    (member :
      other ∈ map.placeOrder orderId owner key quantity expiredAt) :
    other = key ∨ other ∈ map := by
  unfold PriceMap.placeOrder at member
  have inserted : key = other ∨ other ∈ map := by
    split at member <;> simpa [Std.ExtTreeMap.mem_insert] using member
  exact inserted.imp_left Eq.symm

/-- The order with an id at a price. -/
def orderAt
    (map : PriceMap w Account)
    (key : BitVec w)
    (orderId : OrderId) : Option (Order w Account) :=
  map[key]?.bind fun tick => tick.openOrders[orderId]?

@[simp] theorem orderAt_empty :
    PriceMap.orderAt (∅ : PriceMap w Account) key orderId = none := by
  simp [orderAt]

theorem orderAt_eq_some_iff
    {order : Order w Account} :
    map.orderAt key orderId = some order ↔
      ∃ tick,
        map[key]? = some tick ∧ tick.openOrders[orderId]? = some order := by
  simp [orderAt, Option.bind_eq_some_iff]

theorem orderAt_insert
    (tick : Tick w Account)
    (other : BitVec w)
    (otherId : OrderId) :
    PriceMap.orderAt (Std.ExtTreeMap.insert map key tick) other otherId =
      if key = other then tick.openOrders[otherId]?
      else map.orderAt other otherId := by
  unfold orderAt
  rw [Std.ExtTreeMap.getElem?_insert]
  by_cases same : key = other
  · simp [same]
  · simp [same]

/-- Placing binds one id at one price. -/
theorem orderAt_placeOrder
    (other : BitVec w)
    (otherId : OrderId) :
    (map.placeOrder orderId owner key quantity expiredAt).orderAt other
        otherId =
      if other = key ∧ otherId = orderId then
        some ⟨quantity, owner, expiredAt⟩
      else
        map.orderAt other otherId := by
  unfold PriceMap.placeOrder
  by_cases samePrice : key = other
  · subst samePrice
    cases bound : map[key]? with
    | none =>
        rw [orderAt_insert, if_pos rfl, Tick.new,
          Std.ExtTreeMap.getElem?_insert]
        simp [orderAt, bound, eq_comm (a := otherId)]
    | some tick =>
        rw [orderAt_insert, if_pos rfl, Tick.placed,
          Std.ExtTreeMap.getElem?_insert]
        simp [orderAt, bound, eq_comm (a := otherId)]
  · have different : ¬ other = key := fun same => samePrice same.symm
    split <;> simp [orderAt_insert, samePrice, different]

/-- Filling leaves orders that were there, with no more than they had. -/
theorem orderAt_fillOrder
    {other : BitVec w}
    {order : Order w Account}
    (kept :
      (map.fillOrder key quantity).2.orderAt other orderId = some order) :
    ∃ before,
      map.orderAt other orderId = some before ∧
        order.owner = before.owner ∧ order.quantity ≤ before.quantity := by
  unfold PriceMap.fillOrder at kept
  cases bound : map[key]? with
  | none =>
      simp only [bound] at kept
      exact ⟨order, kept, rfl, BitVec.le_refl _⟩
  | some tick =>
      simp only [bound] at kept
      split at kept
      · rw [orderAt, Std.ExtTreeMap.getElem?_erase] at kept
        split at kept
        · cases kept
        · exact ⟨order, kept, rfl, BitVec.le_refl _⟩
      · rw [orderAt_insert] at kept
        split at kept
        · rename_i same
          subst same
          obtain ⟨before, found, smaller⟩ := Tick.order_of_filled kept
          exact ⟨before, orderAt_eq_some_iff.mpr ⟨tick, bound, found⟩,
            smaller⟩
        · exact ⟨order, kept, rfl, BitVec.le_refl _⟩

/-- The owner of an order can cancel what is left of it. -/
theorem cancelOrder_of_orderAt
    [DecidableEq Account]
    {order : Order w Account}
    (resting : map.orderAt key orderId = some order)
    (covered : quantity ≤ order.quantity) :
    (map.cancelOrder order.owner key orderId quantity).1 = .ok () := by
  obtain ⟨tick, bound, listed⟩ := orderAt_eq_some_iff.mp resting
  have notTooMuch : ¬ order.quantity < quantity := BitVec.not_lt.mpr covered
  unfold PriceMap.cancelOrder Tick.canceled
  by_cases whole : order.quantity - quantity = 0#w
  · simp [bound, listed, notTooMuch, whole]
  · simp [bound, listed, notTooMuch, whole]

/-- A cancel succeeds for the owner of an order with that much left. -/
theorem cancelOrder_eq_ok_iff
    [DecidableEq Account] :
    (map.cancelOrder owner key orderId quantity).1 = .ok () ↔
      ∃ order,
        map.orderAt key orderId = some order ∧ order.owner = owner ∧
          quantity ≤ order.quantity := by
  constructor
  · intro succeeded
    obtain ⟨tick, changed, bound, canceled, _⟩ := cancelOrder_eq_ok succeeded
    obtain ⟨order, found, owned, covered, _⟩ := Tick.canceled_eq_ok canceled
    exact ⟨order, orderAt_eq_some_iff.mpr ⟨tick, bound, found⟩, owned,
      covered⟩
  · rintro ⟨order, resting, rfl, covered⟩
    exact cancelOrder_of_orderAt resting covered

/-- Cancelling changes one order: it takes the quantity off it. -/
theorem orderAt_cancelOrder_eq
    [DecidableEq Account]
    (succeeded :
      (map.cancelOrder owner key orderId quantity).1 = .ok ())
    (other : BitVec w)
    (otherId : OrderId) :
    (map.cancelOrder owner key orderId quantity).2.orderAt other otherId =
      if other = key ∧ otherId = orderId then
        (map.orderAt key orderId).bind fun order =>
          if order.quantity = quantity then
            none
          else
            some { order with quantity := order.quantity - quantity }
      else
        map.orderAt other otherId := by
  obtain ⟨tick, changed, bound, canceled, shape⟩ :=
    cancelOrder_eq_ok succeeded
  obtain ⟨order, found, _, _, effect⟩ := Tick.canceled_eq_ok canceled
  have resting : map.orderAt key orderId = some order :=
    orderAt_eq_some_iff.mpr ⟨tick, bound, found⟩
  rw [shape, orderAt_insert]
  by_cases samePrice : other = key
  · subst samePrice
    have otherOrders :
        map.orderAt other otherId = tick.openOrders[otherId]? := by
      simp [orderAt, bound]
    rw [if_pos rfl, resting, otherOrders]
    by_cases sameId : otherId = orderId
    · subst sameId
      rcases effect with ⟨whole, rfl⟩ | ⟨partly, rfl⟩
      · simp [whole]
      · simp [partly]
    · have different : ¬ orderId = otherId := fun same => sameId same.symm
      rcases effect with ⟨_, rfl⟩ | ⟨_, rfl⟩
      · simp [sameId, different, Std.ExtTreeMap.getElem?_erase]
      · simp [sameId, different, Std.ExtTreeMap.getElem?_insert]
  · have different : ¬ key = other := fun same => samePrice same.symm
    simp [samePrice, different]

/-- Cancelling leaves orders that were there, with no more than they had. -/
theorem orderAt_cancelOrder
    [DecidableEq Account]
    (succeeded :
      (map.cancelOrder owner key orderId quantity).1 = .ok ())
    {other : BitVec w}
    {otherId : OrderId}
    {order : Order w Account}
    (kept :
      (map.cancelOrder owner key orderId quantity).2.orderAt other otherId =
        some order) :
    ∃ before,
      map.orderAt other otherId = some before ∧
        order.owner = before.owner ∧ order.quantity ≤ before.quantity := by
  obtain ⟨target, resting, _, covered⟩ := cancelOrder_eq_ok_iff.mp succeeded
  rw [orderAt_cancelOrder_eq succeeded] at kept
  split at kept
  · rename_i same
    rw [resting, Option.bind_some] at kept
    split at kept
    · cases kept
    · cases kept
      rw [same.1, same.2]
      refine ⟨target, resting, rfl, ?_⟩
      rw [BitVec.le_def, BitVec.toNat_sub_of_le covered]
      exact Nat.sub_le _ _
  · exact ⟨order, kept, rfl, BitVec.le_refl _⟩

/-- An order under a new id adds its weight. -/
theorem worth_placeOrder
    (weight : BitVec w → Account → Nat → Nat)
    (fresh : map.orderAt key orderId = none) :
    (map.placeOrder orderId owner key quantity expiredAt).worth weight =
      map.worth weight + weight key owner quantity.toNat := by
  unfold PriceMap.placeOrder
  cases bound : map[key]? with
  | none =>
      have erased := TreeMap.total_of_unbound
        (fun key (tick : Tick w Account) => tick.worth (weight key)) bound
      simp only [worth_insert, Tick.worth_new]
      rw [Nat.add_comm]
      exact congrArg (· + _) erased
  | some tick =>
      have freshHere : tick.openOrders[orderId]? = none := by
        simpa [orderAt, bound] using fresh
      simp only [worth_insert, Tick.worth_placed _ freshHere]
      rw [worth_of_bound bound]
      omega

/-- Quantity on offer at the prices of some kind. -/
def volumeAt (inside : BitVec w → Bool) : PriceMap w Account → Nat :=
  PriceMap.worth fun key _ quantity => if inside key then quantity else 0

/-- What a fill takes out of a book, it reports. -/
theorem volumeAt_fillOrder
    (inside : BitVec w → Bool)
    (map : PriceMap w Account)
    (key quantity : BitVec w) :
    (map.fillOrder key quantity).2.volumeAt inside +
        (if inside key then
          Tick.fillsWorth (fun _ part => part) (map.fillsAt key quantity)
        else 0) =
      map.volumeAt inside := by
  unfold PriceMap.fillsAt PriceMap.fillOrder PriceMap.volumeAt
  cases bound : map[key]? with
  | none =>
      simp [Tick.fillsWorth]
  | some tick =>
      have conserved := tick.volume_filled quantity
      have counted := tick.fillsWorth_filled quantity
      rw [← (tick.toNat_filling_filled quantity).1, ← counted] at conserved
      rw [worth_of_bound bound, Tick.worth_ite]
      by_cases emptied : (tick.filled quantity).2.isEmpty = true
      · have nothing : (tick.filled quantity).2.volume = 0 := by
          have isEmpty := Std.ExtTreeMap.isEmpty_iff.mp emptied
          unfold Tick.volume Tick.worth
          rw [isEmpty, TreeMap.total_empty]
        simp only [emptied, ↓reduceIte]
        split <;> omega
      · simp only [emptied, Bool.false_eq_true, ↓reduceIte]
        rw [worth_insert, Tick.worth_ite]
        split <;> omega

/-- What a cancel takes out of a book, it was asked to. -/
theorem volumeAt_cancelOrder
    [DecidableEq Account]
    (inside : BitVec w → Bool)
    (succeeded :
      (map.cancelOrder owner key orderId quantity).1 = .ok ()) :
    (map.cancelOrder owner key orderId quantity).2.volumeAt inside +
        (if inside key then quantity.toNat else 0) =
      map.volumeAt inside := by
  obtain ⟨tick, changed, bound, canceled, shape⟩ :=
    cancelOrder_eq_ok succeeded
  have taken := Tick.volume_canceled canceled
  unfold PriceMap.volumeAt
  rw [shape, worth_insert, worth_of_bound bound, Tick.worth_ite,
    Tick.worth_ite]
  split <;> omega

end PriceMap

namespace CritbitTree

/-- A weight, added up over all orders of the tree. -/
def worth
    (weight : BitVec w → Account → Nat → Nat)
    (book : OrderBook w Account) : Nat :=
  TreeMap.total (fun _ leaf => leaf.value.worth (weight leaf.key)) book.leaves

theorem Refines.worth_eq
    {book : OrderBook w Account}
    {map : PriceMap w Account}
    (refines : book.Refines map)
    (weight : BitVec w → Account → Nat → Nat) :
    book.worth weight = map.worth weight :=
  refines.total_eq fun price tick => tick.worth (weight price)

end CritbitTree

end HybridOrderbook
