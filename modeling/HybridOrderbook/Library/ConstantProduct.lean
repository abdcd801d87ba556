import Mathlib.Tactic

namespace Library.ConstantProduct

/-!
# Swaps against a constant product

A pair of reserves gives an amount of one asset for an amount of the other
such that the product of the reserves does not fall.  Of every `scale` units
that are paid in, `share` count towards the price; the rest is the fee.

`amountOut` is rounded down and `amountIn` is one more than its quotient, so
that the two are inverse to each other up to one unit.
-/

/-- What is paid out for an amount. -/
def amountOut (scale share reserveIn reserveOut amount : Nat) : Nat :=
  amount * share * reserveOut / (reserveIn * scale + amount * share)

/-- What has to be paid in for an amount. -/
def amountIn (scale share reserveIn reserveOut amount : Nat) : Nat :=
  reserveIn * amount * scale / ((reserveOut - amount) * share) + 1

variable {scale share reserveIn reserveOut : Nat}

/-- Enough is paid out when the input covers the exact price. -/
theorem le_amountOut_iff
    (positive : 0 < reserveIn * scale)
    {wanted : Nat}
    (available : wanted ≤ reserveOut)
    (amount : Nat) :
    wanted ≤ amountOut scale share reserveIn reserveOut amount ↔
      reserveIn * wanted * scale ≤
        amount * ((reserveOut - wanted) * share) := by
  obtain ⟨rest, rfl⟩ := Nat.exists_eq_add_of_le available
  unfold amountOut
  rw [Nat.le_div_iff_mul_le (Nat.add_pos_left positive _),
    Nat.add_sub_cancel_left]
  constructor
  · intro covered
    nlinarith
  · intro covered
    nlinarith

/-- The pool is never emptied. -/
theorem amountOut_lt_reserveOut
    (share : Nat)
    (positive : 0 < reserveIn * scale)
    (filled : 0 < reserveOut)
    (amount : Nat) :
    amountOut scale share reserveIn reserveOut amount < reserveOut := by
  rw [← Nat.not_le, le_amountOut_iff positive (Nat.le_refl reserveOut),
    Nat.sub_self, Nat.zero_mul, Nat.mul_zero, Nat.not_le, Nat.mul_right_comm]
  exact Nat.mul_pos positive filled

/-- More is paid out for more. -/
theorem amountOut_mono
    (positive : 0 < reserveIn * scale)
    (filled : 0 < reserveOut)
    {amount more : Nat}
    (larger : amount ≤ more) :
    amountOut scale share reserveIn reserveOut amount ≤
      amountOut scale share reserveIn reserveOut more := by
  have available :=
    (amountOut_lt_reserveOut share positive filled amount).le
  rw [le_amountOut_iff positive available]
  exact ((le_amountOut_iff positive available amount).mp (Nat.le_refl _)).trans
    (Nat.mul_le_mul_right _ larger)

/-- More has to be paid in for more. -/
theorem amountIn_mono
    {amount more : Nat}
    (larger : amount ≤ more)
    (available : more < reserveOut) :
    amountIn scale share reserveIn reserveOut amount ≤
      amountIn scale share reserveIn reserveOut more := by
  rcases Nat.eq_zero_or_pos share with rfl | shared
  · simp [amountIn]
  · unfold amountIn
    refine Nat.succ_le_succ (Nat.div_le_div ?_ ?_ ?_)
    · gcongr
    · gcongr
    · exact (Nat.mul_pos (Nat.sub_pos_of_lt available) shared).ne'

section Adjoint

variable (positive : 0 < reserveIn * scale) (shared : 0 < share)
  {wanted : Nat} (available : wanted < reserveOut)

include shared available in
theorem divisor_pos : 0 < (reserveOut - wanted) * share :=
  Nat.mul_pos (Nat.sub_pos_of_lt available) shared

include positive shared available in
/-- The quoted input suffices. -/
theorem le_amountOut_amountIn :
    wanted ≤
      amountOut scale share reserveIn reserveOut
        (amountIn scale share reserveIn reserveOut wanted) := by
  rw [le_amountOut_iff positive available.le]
  exact (Nat.lt_div_mul_add (divisor_pos shared available)).le.trans_eq
    (Nat.succ_mul ..).symm

include positive shared available in
/-- Two units less than the quoted input do not suffice. -/
theorem amountOut_lt_of_add_two_le
    {amount : Nat}
    (less : amount + 2 ≤ amountIn scale share reserveIn reserveOut wanted) :
    amountOut scale share reserveIn reserveOut amount < wanted := by
  have divisor := divisor_pos shared available
  have quotient :
      amount + 1 ≤
        reserveIn * wanted * scale / ((reserveOut - wanted) * share) :=
    Nat.le_of_succ_le_succ less
  rw [Nat.le_div_iff_mul_le divisor, Nat.succ_mul] at quotient
  rw [← Nat.not_le, le_amountOut_iff positive available.le, Nat.not_le]
  omega

end Adjoint

section Product

variable {given taken : Nat}

/-- What is paid out, rounded down and after a fee, keeps the product. -/
theorem product_le_of_amountOut
    (fee : share ≤ scale)
    (rounded : taken ≤ amountOut scale share reserveIn reserveOut given) :
    reserveIn * reserveOut ≤
      (reserveIn + given) * (reserveOut - taken) := by
  have worth : taken * (reserveIn + given) ≤ given * reserveOut := by
    rcases Nat.eq_zero_or_pos share with rfl | positive
    · simp_all [amountOut]
    · refine Nat.le_of_mul_le_mul_right ?_ positive
      calc
        taken * (reserveIn + given) * share =
            taken * (reserveIn * share + given * share) := by
          ring
        _ ≤ taken * (reserveIn * scale + given * share) := by
          gcongr
        _ ≤ given * share * reserveOut :=
          (Nat.mul_le_mul_right _ rounded).trans (Nat.div_mul_le_self _ _)
        _ = given * reserveOut * share := by
          ring
  rw [Nat.mul_sub, Nat.add_mul, Nat.mul_comm _ taken]
  omega

/-- What is paid in, rounded up and with a fee, keeps the product. -/
theorem product_le_of_amountIn
    (fee : share ≤ scale)
    (less : taken < reserveOut)
    (divides : (reserveOut - taken) * share ≠ 0)
    (rounded : given = amountIn scale share reserveIn reserveOut taken) :
    reserveIn * reserveOut ≤
      (reserveIn + given) * (reserveOut - taken) := by
  have positive : 0 < share :=
    Nat.pos_of_ne_zero fun zero => divides (by rw [zero, Nat.mul_zero])
  have worth : reserveIn * taken ≤ given * (reserveOut - taken) := by
    refine Nat.le_of_mul_le_mul_right ?_ positive
    calc
      reserveIn * taken * share ≤ reserveIn * taken * scale :=
        Nat.mul_le_mul_left _ fee
      _ ≤ (reserveOut - taken) * share * given := by
        rw [rounded]
        exact (Nat.lt_mul_div_succ _ (Nat.pos_of_ne_zero divides)).le
      _ = given * (reserveOut - taken) * share := by
        ring
  calc
    reserveIn * reserveOut =
        reserveIn * (reserveOut - taken) + reserveIn * taken := by
      rw [← Nat.mul_add, Nat.sub_add_cancel less.le]
    _ ≤ reserveIn * (reserveOut - taken) + given * (reserveOut - taken) :=
      Nat.add_le_add_left worth _
    _ = (reserveIn + given) * (reserveOut - taken) := by
      ring

end Product

end Library.ConstantProduct
