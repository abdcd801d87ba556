import HybridOrderbook.Library.Fallible
import HybridOrderbook.Tick

namespace HybridOrderbook.Tick

open Library

/-!
# Serving the queue of a tick

`Tick::filled` mutates the orders while it iterates over them, and removes
the marked ones afterwards.  Seen from outside it splits the queue in three:
orders that are taken as a whole, at most one that covers what is still
wanted, and orders that it does not reach.
-/

variable {w : Nat} {Account : Type}

/-- The loop of `filled`, with its arithmetic as the build has it. -/
def fillLoopIn (checks : Bool) (quantity : BitVec w) :
    List (OrderId × Order w Account) →
      Filling w Account → Except (Fault OrderError) (Filling w Account)
  | [], state => .ok state
  | (id, order) :: rest, state => do
      let remain ← Machine.sub checks quantity state.filled
      if remain = 0 then
        .ok state
      else if order.quantity ≥ remain then do
        let left ← Machine.sub checks order.quantity remain
        let filled ← Machine.add checks state.filled remain
        fillLoopIn checks quantity rest
          { state with
            openOrders :=
              state.openOrders.insert id { order with quantity := left }
            filled := filled
            res := state.res ++ [(order.owner, remain)] }
      else do
        let filled ← Machine.add checks state.filled order.quantity
        fillLoopIn checks quantity rest
          { state with
            filled := filled
            toRemove := state.toRemove ++ [id]
            res := state.res ++ [(order.owner, order.quantity)] }

/-- Neither build leaves the range of the unit. -/
theorem fillLoopIn_eq
    (checks : Bool)
    {quantity : BitVec w}
    (queue : List (OrderId × Order w Account))
    {state : Filling w Account}
    (bounded : state.filled ≤ quantity) :
    fillLoopIn checks quantity queue state =
      .ok (fillLoop quantity queue state) := by
  induction queue generalizing state with
  | nil =>
      rfl
  | cons binding rest inductionHypothesis =>
      rcases binding with ⟨id, order⟩
      unfold fillLoopIn fillLoop
      rw [Machine.sub_of_le bounded, ok_bind]
      by_cases done : quantity - state.filled = 0
      · simp only [done, ↓reduceIte]
      · by_cases enough : order.quantity ≥ quantity - state.filled
        · have total := Filling.toNat_filled_fillPart id order bounded
          have fits :
              state.filled.toNat + (quantity - state.filled).toNat < 2 ^ w := by
            rw [Filling.toNat_remain bounded, Nat.add_sub_cancel' bounded]
            exact quantity.isLt
          simp only [done, enough, ↓reduceIte, Machine.sub_of_le enough,
            Machine.add_of_lt fits, ok_bind]
          exact inductionHypothesis (BitVec.le_def.mpr (Nat.le_of_eq total))
        · have small := BitVec.not_le.mp enough
          have fits :
              state.filled.toNat + order.quantity.toNat < 2 ^ w := by
            rw [← Filling.toNat_filled_fillWhole id bounded small]
            exact BitVec.isLt _
          simp only [done, enough, ↓reduceIte, Machine.add_of_lt fits,
            ok_bind]
          exact inductionHypothesis
            (Filling.filled_fillWhole_le id bounded small)

/-- Total quantity of a queue of orders. -/
def queued (queue : List (OrderId × Order w Account)) : Nat :=
  (queue.map fun binding => binding.2.quantity.toNat).sum

/-- What is still wanted after taking some orders as a whole. -/
def wanted
    (quantity : BitVec w)
    (taken : List (OrderId × Order w Account)) : BitVec w :=
  BitVec.ofNat w (quantity.toNat - queued taken)

/--
How a fill splits a queue.  Each order of `taken` is smaller than what was
wanted when its turn came, and `covering` is not smaller.
-/
structure SplitsQueue
    (quantity : BitVec w)
    (queue taken : List (OrderId × Order w Account))
    (covering : Option (OrderId × Order w Account))
    (later : List (OrderId × Order w Account)) : Prop where
  queue_eq : queue = taken ++ covering.toList ++ later
  smaller :
    ∀ before binding after,
      taken = before ++ binding :: after →
        binding.2.quantity < wanted quantity before
  covers :
    ∀ binding,
      covering = some binding →
        0 < wanted quantity taken ∧
          wanted quantity taken ≤ binding.2.quantity
  stops : covering = none → later = [] ∨ quantity = 0

/-- The fills of a split queue, owner by owner. -/
def splitFills
    (quantity : BitVec w)
    (taken : List (OrderId × Order w Account))
    (covering : Option (OrderId × Order w Account)) : Fills w Account :=
  taken.map (fun binding => (binding.2.owner, binding.2.quantity)) ++
    covering.toList.map fun binding =>
      (binding.2.owner, wanted quantity taken)

/-- The orders that a split leaves. -/
def splitLeft
    (quantity : BitVec w)
    (taken : List (OrderId × Order w Account))
    (covering : Option (OrderId × Order w Account))
    (later : List (OrderId × Order w Account)) :
    List (OrderId × Order w Account) :=
  covering.toList.map (fun binding =>
      (binding.1,
        { binding.2 with
          quantity := binding.2.quantity - wanted quantity taken })) ++
    later

section Split

variable {quantity : BitVec w} {id : OrderId} {order : Order w Account}
  {queue taken later : List (OrderId × Order w Account)}
  {covering : Option (OrderId × Order w Account)}

theorem toNat_wanted (quantity : BitVec w)
    (taken : List (OrderId × Order w Account)) :
    (wanted quantity taken).toNat = quantity.toNat - queued taken := by
  rw [wanted, BitVec.toNat_ofNat, Nat.mod_eq_of_lt]
  exact Nat.lt_of_le_of_lt (Nat.sub_le _ _) quantity.isLt

@[simp] theorem wanted_nil (quantity : BitVec w) :
    wanted quantity ([] : List (OrderId × Order w Account)) = quantity := by
  simp [wanted, queued]

/-- Taking a first order leaves less wanted of the others. -/
theorem wanted_cons (small : order.quantity < quantity) :
    wanted quantity ((id, order) :: taken) =
      wanted (quantity - order.quantity) taken := by
  refine BitVec.eq_of_toNat_eq ?_
  rw [toNat_wanted, toNat_wanted,
    BitVec.toNat_sub_of_le (BitVec.le_of_lt small)]
  simp only [queued, List.map_cons, List.sum_cons]
  omega

theorem splitsQueue_of_zero
    (queue : List (OrderId × Order w Account)) :
    SplitsQueue (0 : BitVec w) queue [] none queue where
  queue_eq := rfl
  smaller := by simp
  covers := by simp
  stops _ := .inr rfl

theorem splitsQueue_of_covering
    (positive : 0 < quantity)
    (enough : quantity ≤ order.quantity) :
    SplitsQueue quantity ((id, order) :: queue) [] (some (id, order))
      queue where
  queue_eq := rfl
  smaller := by simp
  covers := by
    rintro binding ⟨⟩
    rw [wanted_nil]
    exact ⟨positive, enough⟩
  stops := by simp

theorem SplitsQueue.cons
    (small : order.quantity < quantity)
    (splits :
      SplitsQueue (quantity - order.quantity) queue taken covering later) :
    SplitsQueue quantity ((id, order) :: queue) ((id, order) :: taken)
      covering later where
  queue_eq := by simp [splits.queue_eq]
  smaller := by
    intro before binding after found
    cases before with
    | nil =>
        obtain ⟨rfl, rfl⟩ := List.cons.inj found
        simpa using small
    | cons first before =>
        obtain ⟨rfl, remaining⟩ := List.cons.inj found
        rw [wanted_cons small]
        exact splits.smaller before binding after remaining
  covers := by
    intro binding found
    rw [wanted_cons small]
    exact splits.covers binding found
  stops none := by
    refine .inl ((splits.stops none).resolve_right fun zero => ?_)
    have left := BitVec.toNat_sub_of_le (BitVec.le_of_lt small)
    rw [zero, BitVec.lt_def] at *
    simp at left
    omega

/-- Serving a queue splits it. -/
theorem serve_splits
    (quantity : BitVec w)
    (queue : List (OrderId × Order w Account)) :
    ∃ taken covering later,
      SplitsQueue quantity queue taken covering later ∧
        (serve quantity queue).map Prod.snd =
          splitFills quantity taken covering ∧
        unserved quantity queue =
          splitLeft quantity taken covering later := by
  induction queue generalizing quantity with
  | nil =>
      refine ⟨[], none, [], ⟨rfl, by simp, by simp, fun _ => .inl rfl⟩, ?_, ?_⟩
      · simp [serve, splitFills]
      · simp [unserved, splitLeft]
  | cons binding rest inductionHypothesis =>
      rcases binding with ⟨id, order⟩
      unfold serve unserved
      by_cases done : quantity = 0
      · subst done
        refine ⟨[], none, (id, order) :: rest, splitsQueue_of_zero _, ?_, ?_⟩
        · simp [splitFills]
        · simp [splitLeft]
      · by_cases enough : order.quantity ≥ quantity
        · have positive : 0 < quantity := by
            simpa [BitVec.lt_def] using BitVec.toNat_pos_of_ne_zero done
          simp only [done, enough, ↓reduceIte]
          refine ⟨[], some (id, order), rest,
            splitsQueue_of_covering positive enough, ?_, ?_⟩
          · simp [splitFills]
          · simp [splitLeft]
        · have small := BitVec.not_le.mp enough
          obtain ⟨taken, covering, later, splits, fills, left⟩ :=
            inductionHypothesis (quantity - order.quantity)
          simp only [done, enough, ↓reduceIte]
          refine ⟨(id, order) :: taken, covering, later, splits.cons small,
            ?_, ?_⟩
          · simp [splitFills, fills, wanted_cons small]
          · simp [splitLeft, left, wanted_cons small]

end Split

/-- A fill takes what is wanted, or all there is. -/
theorem fillsWorth_filling
    (tick : Tick w Account)
    (quantity : BitVec w) :
    fillsWorth (fun _ part => part) (tick.filling quantity).res =
      min quantity.toNat tick.volume := by
  have conserved := tick.volume_filled quantity
  obtain ⟨counted, bounded⟩ := tick.toNat_filling_filled quantity
  rw [BitVec.le_def] at bounded
  rcases tick.filled_exhausts quantity with complete | exhausted
  · rw [complete] at counted
    omega
  · have nothing : (tick.filled quantity).2.volume = 0 := by
      have empty := Std.ExtTreeMap.isEmpty_iff.mp exhausted
      simp [volume, worth, empty]
    omega

/--
Filling a tick serves its orders first come, first served.  It takes the
quantity or all that is open, reports the fills in the order of the ids, and
leaves the covering order reduced and the later ones as they were.
-/
theorem filled_serves_queue
    (tick : Tick w Account)
    (quantity : BitVec w) :
    ∃ taken covering later,
      SplitsQueue quantity tick.openOrders.toList taken covering later ∧
        (tick.openOrders.toList.map Prod.fst).Pairwise (· < ·) ∧
        fillsWorth (fun _ part => part)
            (splitFills quantity taken covering) =
          min quantity.toNat tick.volume ∧
        (tick.filled quantity).2.volume + min quantity.toNat tick.volume =
          tick.volume ∧
        (∀ fills,
          (tick.filled quantity).1 = some fills →
            fills = splitFills quantity taken covering) ∧
        ((tick.filled quantity).1 = none ↔
          min quantity.toNat tick.volume = 0) ∧
        (∀ id order,
          (tick.filled quantity).2.openOrders[id]? = some order ↔
            (id, order) ∈ splitLeft quantity taken covering later) ∧
        ∀ checks,
          fillLoopIn checks quantity tick.openOrders.toList
              ⟨tick.openOrders, 0, [], []⟩ =
            .ok (tick.filling quantity) := by
  obtain ⟨taken, covering, later, splits, fills, left⟩ :=
    serve_splits quantity tick.openOrders.toList
  obtain ⟨results, orders⟩ := tick.filling_serves quantity
  rw [fills] at results
  rw [left] at orders
  have takes := tick.fillsWorth_filling quantity
  have counted := (tick.toNat_filling_filled quantity).1
  have conserved := tick.volume_filled quantity
  rw [takes] at counted conserved
  have nothing :
      (tick.filling quantity).filled = 0 ↔
        min quantity.toNat tick.volume = 0 := by
    rw [← counted]
    constructor
    · intro zero
      simp [zero]
    · intro zero
      exact BitVec.eq_of_toNat_eq (by simpa using zero)
  refine ⟨taken, covering, later, splits, tick.pairwise_ids, results ▸ takes,
    conserved, ?_, ?_, orders, ?_⟩
  · intro reported
    simp only [filled, ite_eq_iff, reduceCtorEq, and_false,
      Option.some.injEq, false_or, and_imp]
    rintro _ rfl
    exact results
  · simp only [filled, ite_eq_left_iff, reduceCtorEq, imp_false, not_not]
    exact nothing
  · intro checks
    exact fillLoopIn_eq checks _ (by simp [BitVec.le_def])

end HybridOrderbook.Tick
