import HybridOrderbook.Critbit.SortedMap
import HybridOrderbook.Library.Run
import HybridOrderbook.Tick

namespace HybridOrderbook

open Library

/-!
# The order book

One side of a pool's book is a critbit tree from prices to ticks.  The first
section is the `OrderBook` implementation of `critbit.rs`; the second is the
same three operations on a plain finite map; the rest shows that the tree
behaves as the map does.
-/

/-- One side of the book. -/
abbrev OrderBook (w : Nat) (Account : Type) := CritbitTree w (Tick w Account)

namespace CritbitTree

variable {w : Nat} {Account : Type}

/-- All open orders at a price. -/
def openOrdersAt
    (book : OrderBook w Account)
    (key : BitVec w) : TreeResult (Option (Tick w Account)) := do
  match ← book.findLeaf key with
  | some leafIndex => .ok (book.leaves[leafIndex]?.map LeafNode.value)
  | none => .ok none

/-- The lowest price of the book, with its index. -/
def minOrder (book : OrderBook w Account) : Option (BitVec w × BitVec w) :=
  match book.minLeaf with
  | .ok maybeMin => maybeMin
  | .error _ => none

/-- The highest price of the book, with its index. -/
def maxOrder (book : OrderBook w Account) : Option (BitVec w × BitVec w) :=
  match book.maxLeaf with
  | .ok maybeMax => maybeMax
  | .error _ => none

/-- Add an order at a price, opening the price level if there is none. -/
def placeOrder
    (orderId : OrderId)
    (owner : Account)
    (key quantity : BitVec w)
    (expiredAt : Nat) : TreeProc w (Tick w Account) Unit := do
  match ← Proc.read fun book => book.findLeaf key with
  | some leafIndex =>
      if leafIndex = partitionIndex w then
        Proc.throw .leafNodeShouldExist
      else
        let book ← Proc.get
        let leafNode ← Proc.okOr book.leaves[leafIndex]? .leafNodeShouldExist
        Proc.put (book.setLeaf leafIndex { leafNode with
          value := leafNode.value.placed orderId owner quantity expiredAt })
  | none =>
      insert key (Tick.new orderId owner quantity expiredAt)

/-- Fill orders at a price; a level without orders is removed. -/
def fillOrder (key quantity : BitVec w) :
    TreeProc w (Tick w Account) (Option (Fills w Account)) := do
  match ← Proc.read fun book => book.findLeaf key with
  | some leafIndex =>
      let book ← Proc.get
      match book.leaves[leafIndex]? with
      | some leaf =>
          let (filled, tick) := leaf.value.filled quantity
          Proc.put (book.setLeaf leafIndex { leaf with value := tick })
          if tick.isEmpty then
            let _ ← removeLeafByIndex leafIndex
            pure filled
          else
            pure filled
      | none => pure none
  -- without a level at this price nothing is filled
  | none => pure none

/-- Take a quantity off an order; the level stays even when it is empty. -/
def cancelOrder
    [DecidableEq Account]
    (maybeOwner : Account)
    (key : BitVec w)
    (orderId : OrderId)
    (quantity : BitVec w) : TreeProc w (Tick w Account) Unit := do
  match ← Proc.read fun book => book.findLeaf key with
  | some leafIndex =>
      if leafIndex = partitionIndex w then
        pure ()
      else
        let book ← Proc.get
        match book.leaves[leafIndex]? with
        | some leaf =>
            match leaf.value.canceled maybeOwner orderId quantity with
            | .ok tick =>
                Proc.put (book.setLeaf leafIndex { leaf with value := tick })
            | .error _ => Proc.throw .valueOps
        | none => Proc.throw .notFound
  | none => Proc.throw .notFound

end CritbitTree

/-- A book as a plain finite map. -/
abbrev PriceMap (w : Nat) (Account : Type) :=
  Std.ExtTreeMap (BitVec w) (Tick w Account)

namespace PriceMap

variable {w : Nat} {Account : Type}

/-- Placing inserts the tick at the price or extends it. -/
def placeOrder
    (map : PriceMap w Account)
    (orderId : OrderId)
    (owner : Account)
    (key quantity : BitVec w)
    (expiredAt : Nat) : PriceMap w Account :=
  match map[key]? with
  | some tick =>
      map.insert key (tick.placed orderId owner quantity expiredAt)
  | none => map.insert key (Tick.new orderId owner quantity expiredAt)

/-- Filling fills the tick and deletes the price if nothing is left. -/
def fillOrder (map : PriceMap w Account) (key quantity : BitVec w) :
    Option (Fills w Account) × PriceMap w Account :=
  match map[key]? with
  | some tick =>
      ((tick.filled quantity).1,
        if (tick.filled quantity).2.isEmpty then
          map.erase key
        else
          map.insert key (tick.filled quantity).2)
  | none => (none, map)

/-- Cancelling cancels in the tick. -/
def cancelOrder
    [DecidableEq Account]
    (map : PriceMap w Account)
    (maybeOwner : Account)
    (key : BitVec w)
    (orderId : OrderId)
    (quantity : BitVec w) :
    Except (Fault CritbitTreeError) Unit × PriceMap w Account :=
  match map[key]? with
  | some tick =>
      match tick.canceled maybeOwner orderId quantity with
      | .ok changed => (.ok (), map.insert key changed)
      | .error _ => (.error (.error .valueOps), map)
  | none => (.error (.error .notFound), map)

end PriceMap

namespace CritbitTree

variable {w : Nat} {Account : Type} {book : OrderBook w Account}
  {map : PriceMap w Account}

section Refinement

theorem Refines.openOrdersAt_eq
    (width : 0 < w)
    (refines : book.Refines map)
    (key : BitVec w) :
    book.openOrdersAt key = .ok map[key]? := by
  cases bound : map[key]? with
  | none =>
      have found := refines.findLeaf_of_unbound width bound
      simp [openOrdersAt, found, bind, Except.bind]
  | some tick =>
      obtain ⟨index, parent, found, _, stored⟩ :=
        refines.findLeaf_of_bound width bound
      simp [openOrdersAt, found, bind, Except.bind, stored]

/-- Placing agrees with the map unless the leaf indices are used up. -/
theorem Refines.placeOrder_eq
    (width : 0 < w)
    (refines : book.Refines map)
    (orderId : OrderId)
    (owner : Account)
    (key quantity : BitVec w)
    (expiredAt : Nat) :
    (∃ reached,
      placeOrder orderId owner key quantity expiredAt book =
          (.ok (), reached) ∧
        reached.Refines
          (map.placeOrder orderId owner key quantity expiredAt)) ∨
      (map[key]? = none ∧ ¬ book.nextLeafNodeIndex < capacity w ∧
        (placeOrder orderId owner key quantity expiredAt book).1 =
          .error (.error .exceedCapacity)) := by
  cases bound : map[key]? with
  | none =>
      have found := refines.findLeaf_of_unbound width bound
      have executed :
          placeOrder orderId owner key quantity expiredAt book =
            CritbitTree.insert key
              (Tick.new orderId owner quantity expiredAt) book := by
        simp [placeOrder, Proc.bind_apply, found]
      rw [executed]
      by_cases room : book.nextLeafNodeIndex < capacity w
      · obtain ⟨reached, inserted, reachedRefines⟩ :=
          refines.insert width room bound
            (Tick.new orderId owner quantity expiredAt)
        refine .inl ⟨reached, inserted, ?_⟩
        simpa [PriceMap.placeOrder, bound] using reachedRefines
      · exact .inr ⟨rfl, room, refines.insert_full width room _ _⟩
  | some tick =>
      obtain ⟨index, parent, found, inLeaves, stored⟩ :=
        refines.findLeaf_of_bound width bound
      refine .inl ⟨book.setLeaf index ⟨parent, key,
        tick.placed orderId owner quantity expiredAt⟩, ?_, ?_⟩
      · simp [placeOrder, Proc.bind_apply, found, inLeaves, stored]
      · simpa [PriceMap.placeOrder, bound] using refines.setValue stored
          (tick.placed orderId owner quantity expiredAt)

/-- Filling agrees with the map. -/
theorem Refines.fillOrder_eq
    (width : 0 < w)
    (refines : book.Refines map)
    (key quantity : BitVec w) :
    ∃ reached,
      fillOrder key quantity book =
          (.ok (map.fillOrder key quantity).1, reached) ∧
        reached.Refines (map.fillOrder key quantity).2 := by
  cases bound : map[key]? with
  | none =>
      have found := refines.findLeaf_of_unbound width bound
      refine ⟨book, ?_, ?_⟩
      · simp [fillOrder, Proc.bind_apply, found, PriceMap.fillOrder, bound]
      · simpa [PriceMap.fillOrder, bound] using refines
  | some tick =>
      obtain ⟨index, parent, found, _, stored⟩ :=
        refines.findLeaf_of_bound width bound
      have written := refines.setValue stored (tick.filled quantity).2
      by_cases emptied : (tick.filled quantity).2.isEmpty = true
      · have rewritten :
            (book.setLeaf index
                ⟨parent, key, (tick.filled quantity).2⟩).leaves[index]? =
              some ⟨parent, key, (tick.filled quantity).2⟩ := by
          simp [setLeaf]
        obtain ⟨reached, removed, reachedRefines⟩ :=
          written.remove width rewritten
        refine ⟨reached, ?_, ?_⟩
        · simp [fillOrder, Proc.bind_apply, found, stored,
            PriceMap.fillOrder, bound, emptied, removed]
        · simpa [PriceMap.fillOrder, bound, emptied, TreeMap.erase_insert]
            using reachedRefines
      · refine ⟨book.setLeaf index
          ⟨parent, key, (tick.filled quantity).2⟩, ?_, ?_⟩
        · simp [fillOrder, Proc.bind_apply, found, stored,
            PriceMap.fillOrder, bound, emptied]
        · simpa [PriceMap.fillOrder, bound, emptied] using written

/-- A cancel that fails has not written to the tree. -/
theorem cancelOrder_of_error
    [DecidableEq Account]
    {maybeOwner : Account}
    {key quantity : BitVec w}
    {orderId : OrderId}
    {fault : Fault CritbitTreeError}
    {reached : OrderBook w Account}
    (failed :
      cancelOrder maybeOwner key orderId quantity book =
        (.error fault, reached)) :
    reached = book := by
  cases found : book.findLeaf key with
  | error problem =>
      simp [cancelOrder, Proc.bind_apply, found] at failed
      exact failed.2.symm
  | ok answer =>
      cases answer with
      | none =>
          simp [cancelOrder, Proc.bind_apply, found] at failed
          exact failed.2.symm
      | some leafIndex =>
          by_cases empty : leafIndex = partitionIndex w
          · simp [cancelOrder, Proc.bind_apply, found, empty] at failed
          · cases stored : book.leaves[leafIndex]? with
            | none =>
                simp [cancelOrder, Proc.bind_apply, found, empty,
                  stored] at failed
                exact failed.2.symm
            | some leaf =>
                cases result : leaf.value.canceled maybeOwner orderId
                  quantity with
                | ok tick =>
                    simp [cancelOrder, Proc.bind_apply, found, empty, stored,
                      result] at failed
                | error problem =>
                    simp [cancelOrder, Proc.bind_apply, found, empty, stored,
                      result] at failed
                    exact failed.2.symm

/-- Cancelling agrees with the map. -/
theorem Refines.cancelOrder_eq
    [DecidableEq Account]
    (width : 0 < w)
    (refines : book.Refines map)
    (maybeOwner : Account)
    (key : BitVec w)
    (orderId : OrderId)
    (quantity : BitVec w) :
    ∃ reached,
      cancelOrder maybeOwner key orderId quantity book =
          ((map.cancelOrder maybeOwner key orderId quantity).1, reached) ∧
        reached.Refines
          (map.cancelOrder maybeOwner key orderId quantity).2 := by
  cases bound : map[key]? with
  | none =>
      have found := refines.findLeaf_of_unbound width bound
      refine ⟨book, ?_, ?_⟩
      · simp [cancelOrder, Proc.bind_apply, found, PriceMap.cancelOrder,
          bound]
      · simpa [PriceMap.cancelOrder, bound] using refines
  | some tick =>
      obtain ⟨index, parent, found, inLeaves, stored⟩ :=
        refines.findLeaf_of_bound width bound
      cases outcome : tick.canceled maybeOwner orderId quantity with
      | error error =>
          refine ⟨book, ?_, ?_⟩
          · simp [cancelOrder, Proc.bind_apply, found, inLeaves, stored,
              PriceMap.cancelOrder, bound, outcome]
          · simpa [PriceMap.cancelOrder, bound, outcome] using refines
      | ok changed =>
          refine ⟨book.setLeaf index ⟨parent, key, changed⟩, ?_, ?_⟩
          · simp [cancelOrder, Proc.bind_apply, found, inLeaves, stored,
              PriceMap.cancelOrder, bound, outcome]
          · simpa [PriceMap.cancelOrder, bound, outcome] using
              refines.setValue stored changed

end Refinement

end CritbitTree

/-- The operations of a book. -/
inductive BookOp (w : Nat) (Account : Type) where
  | placeOrder
      (orderId : OrderId)
      (owner : Account)
      (key quantity : BitVec w)
      (expiredAt : Nat)
  | fillOrder (key quantity : BitVec w)
  | cancelOrder
      (maybeOwner : Account)
      (key : BitVec w)
      (orderId : OrderId)
      (quantity : BitVec w)
  deriving Repr, DecidableEq

/-- What an operation answers. -/
inductive BookReply (w : Nat) (Account : Type) where
  | done
  | filled (fills : Option (Fills w Account))
  deriving Repr, DecidableEq

namespace BookOp

variable {w : Nat} {Account : Type} [DecidableEq Account]

/-- Carry out an operation on the tree. -/
def apply :
    BookOp w Account →
      TreeProc w (Tick w Account) (BookReply w Account)
  | .placeOrder orderId owner key quantity expiredAt => do
      CritbitTree.placeOrder orderId owner key quantity expiredAt
      pure .done
  | .fillOrder key quantity => do
      let fills ← CritbitTree.fillOrder key quantity
      pure (.filled fills)
  | .cancelOrder maybeOwner key orderId quantity => do
      CritbitTree.cancelOrder maybeOwner key orderId quantity
      pure .done

/-- Carry out an operation on the plain map. -/
def applyMap :
    BookOp w Account → PriceMap w Account →
      Except (Fault CritbitTreeError) (BookReply w Account) ×
        PriceMap w Account
  | .placeOrder orderId owner key quantity expiredAt, map =>
      (.ok .done, map.placeOrder orderId owner key quantity expiredAt)
  | .fillOrder key quantity, map =>
      (.ok (.filled (map.fillOrder key quantity).1),
        (map.fillOrder key quantity).2)
  | .cancelOrder maybeOwner key orderId quantity, map =>
      ((map.cancelOrder maybeOwner key orderId quantity).1.map
          fun _ => .done,
        (map.cancelOrder maybeOwner key orderId quantity).2)

/-- The operation puts the first order at a price. -/
def OpensLevel : BookOp w Account → PriceMap w Account → Prop
  | .placeOrder _ _ key _ _, map => map[key]? = none
  | .fillOrder _ _, _ => False
  | .cancelOrder _ _ _ _, _ => False

/-- Carry out one operation, keeping the book only if it succeeds. -/
def step (op : BookOp w Account) (book : OrderBook w Account) :
    Option (OrderBook w Account) :=
  Run.succeeded (op.apply book)

/-- The plain map after a list of operations. -/
def runMap (ops : List (BookOp w Account)) : PriceMap w Account :=
  ops.foldl (fun map op => (op.applyMap map).2) ∅

end BookOp

namespace CritbitTree

variable {w : Nat} {Account : Type} [DecidableEq Account]
  {book : OrderBook w Account} {map : PriceMap w Account}

/-- One operation, against the plain map. -/
theorem Refines.apply_eq
    (width : 0 < w)
    (refines : book.Refines map)
    (op : BookOp w Account) :
    (∃ reached,
      op.apply book = ((op.applyMap map).1, reached) ∧
        reached.Refines (op.applyMap map).2) ∨
      (op.OpensLevel map ∧
        (op.apply book).1 = .error (.error .exceedCapacity)) := by
  cases op with
  | placeOrder orderId owner key quantity expiredAt =>
      rcases refines.placeOrder_eq width orderId owner key quantity
          expiredAt with
        ⟨reached, executed, reachedRefines⟩ | ⟨unbound, _, refused⟩
      · exact .inl ⟨reached, Proc.bind_ok executed, reachedRefines⟩
      · refine .inr ⟨unbound, ?_⟩
        have failed :
            placeOrder orderId owner key quantity expiredAt book =
              (.error (.error .exceedCapacity),
                (placeOrder orderId owner key quantity expiredAt book).2) :=
          Prod.ext refused rfl
        rw [BookOp.apply, Proc.bind_error failed]
  | fillOrder key quantity =>
      obtain ⟨reached, executed, reachedRefines⟩ :=
        refines.fillOrder_eq width key quantity
      exact .inl ⟨reached, Proc.bind_ok executed, reachedRefines⟩
  | cancelOrder maybeOwner key orderId quantity =>
      obtain ⟨reached, executed, reachedRefines⟩ :=
        refines.cancelOrder_eq width maybeOwner key orderId quantity
      refine .inl ⟨reached, ?_, reachedRefines⟩
      rw [BookOp.apply, Proc.bind_apply, executed, BookOp.applyMap]
      cases (map.cancelOrder maybeOwner key orderId quantity).1 <;> rfl

/-- The plain map refuses only what it does not hold. -/
theorem applyMap_fault
    {op : BookOp w Account}
    {fault : Fault CritbitTreeError}
    (failed : (op.applyMap map).1 = .error fault) :
    fault = .error .notFound ∨ fault = .error .valueOps := by
  cases op with
  | placeOrder orderId owner key quantity expiredAt =>
      simp [BookOp.applyMap] at failed
  | fillOrder key quantity =>
      simp [BookOp.applyMap] at failed
  | cancelOrder maybeOwner key orderId quantity =>
      simp only [BookOp.applyMap, PriceMap.cancelOrder] at failed
      split at failed
      · split at failed
        · simp [Except.map] at failed
        · exact .inr (by simpa [Except.map] using failed.symm)
      · exact .inl (by simpa [Except.map] using failed.symm)

/-- Every answer of the book is the answer of the plain map. -/
structure BehavesAs
    (book : OrderBook w Account)
    (map : PriceMap w Account) : Prop where
  openOrders : ∀ key, book.openOrdersAt key = .ok map[key]?
  absent : ∀ key, map[key]? = none → book.findLeaf key = .ok none
  found :
    ∀ key tick, map[key]? = some tick →
      ∃ index leaf,
        book.findLeaf key = .ok (some index) ∧
          book.leaves[index]? = some leaf ∧
          leaf.key = key ∧ leaf.value = tick
  size : book.size = map.size
  empty : book.isEmpty = true ↔ map = ∅
  replies :
    ∀ op : BookOp w Account,
      (op.apply book).1 = (op.applyMap map).1 ∨
        (op.OpensLevel map ∧
          (op.apply book).1 = .error (.error .exceedCapacity))
  -- no other error of the tree, no panic and no endless descent
  faults :
    ∀ (op : BookOp w Account) fault,
      (op.apply book).1 = .error fault →
        fault = .error .exceedCapacity ∨ fault = .error .notFound ∨
          fault = .error .valueOps

theorem Refines.behavesAs
    (width : 0 < w)
    (refines : book.Refines map) : book.BehavesAs map where
  openOrders := refines.openOrdersAt_eq width
  absent _ unbound := refines.findLeaf_of_unbound width unbound
  found key tick bound := by
    obtain ⟨index, parent, found, _, stored⟩ :=
      refines.findLeaf_of_bound width bound
    exact ⟨index, _, found, stored, rfl, rfl⟩
  size := refines.size_eq
  empty := refines.isEmpty_iff
  replies op := by
    rcases refines.apply_eq width op with ⟨reached, executed, _⟩ | refused
    · exact .inl (congrArg Prod.fst executed)
    · exact .inr refused
  faults op fault failed := by
    rcases refines.apply_eq width op with
      ⟨reached, executed, _⟩ | ⟨_, refused⟩
    · rw [executed] at failed
      exact .inr (applyMap_fault failed)
    · rw [refused, Except.error.injEq] at failed
      exact .inl failed.symm

/-- A successful operation succeeds on the map, and keeps the relation. -/
theorem Refines.step_eq_some
    (width : 0 < w)
    {op : BookOp w Account}
    {next : OrderBook w Account}
    (refines : book.Refines map)
    (stepped : op.step book = some next) :
    (∃ reply, (op.applyMap map).1 = .ok reply) ∧
      next.Refines (op.applyMap map).2 := by
  obtain ⟨reply, executed⟩ := Run.succeeded_eq_some_iff.mp stepped
  rcases refines.apply_eq width op with
    ⟨reached, expected, reachedRefines⟩ | ⟨_, refused⟩
  · rw [executed, Prod.mk.injEq] at expected
    exact ⟨⟨reply, expected.1.symm⟩, expected.2 ▸ reachedRefines⟩
  · rw [executed] at refused
    cases refused

/-- Every reachable book refines the map that the same operations build. -/
theorem refines_of_run
    (width : 0 < w)
    {ops : List (BookOp w Account)}
    (ran : Run.run BookOp.step ops new = some book) :
    book.Refines (BookOp.runMap ops) :=
  Run.run_simulates
    (fun _ _ _ _ refines stepped => (refines.step_eq_some width stepped).2)
    refines_new ran

/--
Every book that successful operations reach from the empty book behaves as
the plain map on which the same operations were run.
-/
theorem behavesAs_of_run
    (width : 0 < w)
    (ops : List (BookOp w Account))
    (ran : Run.run BookOp.step ops new = some book) :
    book.BehavesAs (BookOp.runMap ops) :=
  (refines_of_run width ran).behavesAs width

/-- Levels at both ends of the key range, a fill that empties one, a cancel. -/
theorem behavesAs_of_short_run :
    ∃ (ops : List (BookOp 64 Nat)) (book : OrderBook 64 Nat),
      ops = [.placeOrder 0 1 0 10 100,
          .placeOrder 1 2 (BitVec.allOnes 64) 5 100,
          .placeOrder 2 1 (BitVec.intMin 64) 7 100, .fillOrder 0 12,
          .cancelOrder 1 (BitVec.intMin 64) 2 3,
          .placeOrder 3 3 (BitVec.allOnes 64) 1 100] ∧
        Run.run BookOp.step ops new = some book ∧
        book.BehavesAs (BookOp.runMap ops) := by
  have succeeds :
      (Run.run BookOp.step
        [.placeOrder 0 1 0 10 100, .placeOrder 1 2 (BitVec.allOnes 64) 5 100,
          .placeOrder 2 1 (BitVec.intMin 64) 7 100, .fillOrder 0 12,
          .cancelOrder 1 (BitVec.intMin 64) 2 3,
          .placeOrder 3 3 (BitVec.allOnes 64) 1 100]
        (new : OrderBook 64 Nat)).isSome = true := by
    decide +kernel
  have ran := (Option.some_get succeeds).symm
  exact ⟨_, _, rfl, ran, behavesAs_of_run (by decide) _ ran⟩

end CritbitTree

end HybridOrderbook
