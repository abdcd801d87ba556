import HybridOrderbook.Library.ConstantProduct
import HybridOrderbook.Pricing

namespace HybridOrderbook.Config

open Library
open ConstantProduct (amountIn amountOut)

/-!
# The amounts of a swap

`get_amount_out` and `get_amount_in` compute the two sides of a swap against
a constant product in the higher precision, in which nothing is lost: an
amount that they return is the exact one.
-/

variable {w : Nat} {Account Asset : Type} {config : Config w Account Asset}
  {reserveIn reserveOut : BitVec w}

/-- What `get_amount_out` returns is exact, and there were reserves. -/
theorem toNat_of_getAmountOut
    (fee : config.lpFee ≤ 1000)
    {amount received : BitVec w}
    (priced :
      config.getAmountOut amount reserveIn reserveOut = .ok received) :
    (reserveIn ≠ 0 ∧ reserveOut ≠ 0) ∧
      received.toNat =
        amountOut 1000 (1000 - config.lpFee) reserveIn.toNat reserveOut.toNat
          amount.toNat := by
  simp only [getAmountOut, amountShare, fee, ↓reduceIte, bind_eq_ok_iff,
    ensure_eq_ok_iff, exists_const, Except.ok.injEq, exists_eq_left',
    higher_eq_ok_iff, higherDiv_eq_ok_iff] at priced
  obtain ⟨reserves, _, ⟨_, rfl⟩, _, ⟨_, rfl⟩, _, ⟨_, rfl⟩, _, ⟨_, rfl⟩, _,
    ⟨_, rfl⟩, narrowed⟩ := priced
  exact ⟨not_or.mp reserves, toNat_of_tryIntoUnit narrowed⟩

/-- What `get_amount_in` returns is exact, for less than the reserve. -/
theorem toNat_of_getAmountIn
    (fee : config.lpFee ≤ 1000)
    {amount paid : BitVec w}
    (priced :
      config.getAmountIn amount reserveIn reserveOut = .ok paid) :
    amount.toNat < reserveOut.toNat ∧
      (reserveOut.toNat - amount.toNat) * (1000 - config.lpFee) ≠ 0 ∧
      paid.toNat =
        amountIn 1000 (1000 - config.lpFee) reserveIn.toNat reserveOut.toNat
          amount.toNat := by
  simp only [getAmountIn, amountShare, fee, ↓reduceIte, bind_eq_ok_iff,
    ensure_eq_ok_iff, exists_const, Except.ok.injEq, exists_eq_left',
    higher_eq_ok_iff, higherDiv_eq_ok_iff] at priced
  obtain ⟨_, less, _, ⟨_, rfl⟩, _, ⟨_, rfl⟩, _, ⟨_, rfl⟩, _,
    ⟨nonzero, rfl⟩, _, ⟨_, rfl⟩, narrowed⟩ := priced
  exact ⟨BitVec.lt_def.mp (BitVec.not_le.mp less), nonzero,
    toNat_of_tryIntoUnit narrowed⟩

section Monotone

variable (fee : config.lpFee ≤ 1000) {amount larger : BitVec w}
  (more : amount ≤ larger)

include fee more

theorem getAmountOut_mono
    {received receivedMore : BitVec w}
    (priced : config.getAmountOut amount reserveIn reserveOut = .ok received)
    (pricedMore :
      config.getAmountOut larger reserveIn reserveOut = .ok receivedMore) :
    received ≤ receivedMore := by
  obtain ⟨⟨inNonzero, outNonzero⟩, exact⟩ := toNat_of_getAmountOut fee priced
  obtain ⟨_, exactMore⟩ := toNat_of_getAmountOut fee pricedMore
  rw [BitVec.le_def, exact, exactMore]
  exact ConstantProduct.amountOut_mono
    (Nat.mul_pos (BitVec.toNat_pos_of_ne_zero inNonzero) (by decide))
    (BitVec.toNat_pos_of_ne_zero outNonzero) more

theorem getAmountIn_mono
    {paid paidMore : BitVec w}
    (priced : config.getAmountIn amount reserveIn reserveOut = .ok paid)
    (pricedMore :
      config.getAmountIn larger reserveIn reserveOut = .ok paidMore) :
    paid ≤ paidMore := by
  obtain ⟨_, _, exact⟩ := toNat_of_getAmountIn fee priced
  obtain ⟨available, _, exactMore⟩ := toNat_of_getAmountIn fee pricedMore
  rw [BitVec.le_def, exact, exactMore]
  exact ConstantProduct.amountIn_mono more available

end Monotone

section Failures

/-- With reserves on both sides, `get_amount_out` can only overflow. -/
theorem failsOnly_getAmountOut
    (fee : config.lpFee ≤ 1000)
    (reserves : ¬ (reserveIn = 0 ∨ reserveOut = 0))
    (amount : BitVec w) :
    FailsOnly (· = .error .overflow)
      (config.getAmountOut amount reserveIn reserveOut) := by
  simp only [getAmountOut, ensure, reserves, not_false_eq_true, ↓reduceIte,
    amountShare, fee]
  refine .bind (failsOnly_ok _ _) fun _ => ?_
  refine .bind (failsOnly_ok _ _) fun share => ?_
  refine .bind (failsOnly_higher _) fun withFee => ?_
  refine .bind (failsOnly_higher _) fun numerator => ?_
  refine .bind (failsOnly_higher _) fun scaled => ?_
  refine .bind (failsOnly_higher _) fun denominator => ?_
  refine .bind (failsOnly_higherDiv _ _) fun result => ?_
  exact failsOnly_tryIntoUnit result

theorem failsOnly_amountShare :
    FailsOnly (· = .panic) config.amountShare := by
  unfold amountShare
  split
  · exact failsOnly_ok _ _
  · split
    · exact fun _ failed => (Except.error.inj failed).symm
    · exact failsOnly_ok _ _

/-- For less than the reserve, `get_amount_in` overflows or panics. -/
theorem failsOnly_getAmountIn
    (reserves : ¬ (reserveIn = 0 ∨ reserveOut = 0))
    {amount : BitVec w}
    (available : ¬ amount ≥ reserveOut) :
    FailsOnly (fun fault => fault = .error .overflow ∨ fault = .panic)
      (config.getAmountIn amount reserveIn reserveOut) := by
  have higherFails (value : Nat) :
      FailsOnly (fun fault => fault = .error .overflow ∨ fault = .panic)
        (higher w value) :=
    (failsOnly_higher value).mono fun _ => .inl
  simp only [getAmountIn, ensure, reserves, available, not_false_eq_true,
    ↓reduceIte]
  refine .bind (failsOnly_ok _ _) fun _ => ?_
  refine .bind (failsOnly_ok _ _) fun _ => ?_
  refine .bind (higherFails _) fun product => ?_
  refine .bind (higherFails _) fun numerator => ?_
  refine .bind (failsOnly_amountShare.mono fun _ => .inr) fun share => ?_
  refine .bind (higherFails _) fun denominator => ?_
  refine .bind ((failsOnly_higherDiv _ _).mono fun _ => .inl)
    fun quotient => ?_
  refine .bind (higherFails _) fun result => ?_
  exact (failsOnly_tryIntoUnit result).mono fun _ => .inl

theorem returns_higher (value : Nat) : Returns (higher w value) :=
  returns_of_error (failsOnly_higher value)

variable {amount : BitVec w}

theorem returns_getAmountOut :
    Returns (config.getAmountOut amount reserveIn reserveOut) := by
  refine .bind returns_ensure fun _ => ?_
  refine .bind (returns_of_panic failsOnly_amountShare) fun share => ?_
  refine .bind (returns_higher _) fun withFee => ?_
  refine .bind (returns_higher _) fun numerator => ?_
  refine .bind (returns_higher _) fun scaled => ?_
  refine .bind (returns_higher _) fun denominator => ?_
  refine .bind (returns_of_error (failsOnly_higherDiv _ _)) fun result => ?_
  exact returns_of_error (failsOnly_tryIntoUnit result)

theorem returns_getAmountIn :
    Returns (config.getAmountIn amount reserveIn reserveOut) := by
  refine .bind returns_ensure fun _ => ?_
  refine .bind returns_ensure fun _ => ?_
  refine .bind (returns_higher _) fun product => ?_
  refine .bind (returns_higher _) fun numerator => ?_
  refine .bind (returns_of_panic failsOnly_amountShare) fun share => ?_
  refine .bind (returns_higher _) fun denominator => ?_
  refine .bind (returns_of_error (failsOnly_higherDiv _ _))
    fun quotient => ?_
  refine .bind (returns_higher _) fun result => ?_
  exact returns_of_error (failsOnly_tryIntoUnit result)

end Failures

/--
`get_amount_in` and `get_amount_out` are inverse to each other up to one
unit: the quoted input suffices, two units less do not, and nothing empties
the pool.
-/
theorem getAmountIn_adjoint_getAmountOut
    (fee : config.lpFee < 1000)
    (positiveIn : 0 < reserveIn)
    (positiveOut : 0 < reserveOut)
    {wanted paid : BitVec w}
    (priced : config.getAmountIn wanted reserveIn reserveOut = .ok paid)
    (amount : BitVec w)
    (fits :
      config.getAmountOut amount reserveIn reserveOut ≠
        .error (.error .overflow)) :
    ∃ received,
      config.getAmountOut amount reserveIn reserveOut = .ok received ∧
        received < reserveOut ∧
        (amount = paid → wanted ≤ received) ∧
        (amount.toNat + 2 ≤ paid.toNat → received < wanted) := by
  have reserves : ¬ (reserveIn = 0 ∨ reserveOut = 0) := by
    rintro (rfl | rfl)
    · exact BitVec.lt_irrefl _ positiveIn
    · exact BitVec.lt_irrefl _ positiveOut
  obtain ⟨received, succeeded⟩ :=
    (failsOnly_getAmountOut fee.le reserves amount).exists_ok fits
  obtain ⟨_, received_eq⟩ := toNat_of_getAmountOut fee.le succeeded
  obtain ⟨available, _, paid_eq⟩ := toNat_of_getAmountIn fee.le priced
  have scaled : 0 < reserveIn.toNat * 1000 :=
    Nat.mul_pos (BitVec.lt_def.mp positiveIn) (by decide)
  have shared : 0 < 1000 - config.lpFee := Nat.sub_pos_of_lt fee
  refine ⟨received, succeeded, ?_, ?_, ?_⟩
  · rw [BitVec.lt_def, received_eq]
    exact ConstantProduct.amountOut_lt_reserveOut _ scaled
      (BitVec.lt_def.mp positiveOut) _
  · rintro rfl
    rw [BitVec.le_def, received_eq, paid_eq]
    exact ConstantProduct.le_amountOut_amountIn scaled shared available
  · intro less
    rw [paid_eq] at less
    rw [BitVec.lt_def, received_eq]
    exact ConstantProduct.amountOut_lt_of_add_two_le scaled shared available
      less

/-- At reserves of 1000 and 2000, 10 units cost 6, and 4 units buy 7. -/
theorem getAmountIn_adjoint_getAmountOut_mock :
    ∃ received less : BitVec 64,
      mock.getAmountIn 10 1000 2000 = .ok 6 ∧
        mock.getAmountOut 6 1000 2000 = .ok received ∧ 10 ≤ received ∧
        mock.getAmountOut 4 1000 2000 = .ok less ∧ less < 10 := by
  have priced : mock.getAmountIn 10 1000 2000 = .ok 6 := by decide
  obtain ⟨received, sold, _, enough, _⟩ :=
    getAmountIn_adjoint_getAmountOut (by decide) (by decide) (by decide)
      priced 6 (by decide)
  obtain ⟨less, soldLess, _, _, short⟩ :=
    getAmountIn_adjoint_getAmountOut (by decide) (by decide) (by decide)
      priced 4 (by decide)
  exact ⟨received, less, priced, sold, enough rfl, soldLess,
    short (by decide)⟩

end HybridOrderbook.Config
