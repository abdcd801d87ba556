import HybridOrderbook.Library.Fallible
import HybridOrderbook.Library.Trie

namespace HybridOrderbook

open Library

/-!
# Order-book index words

Keys, masks and tree pointers are words of one width.  Pointers below
`partitionIndex` name internal nodes.  Leaf number `i` is named by the
pointer `maxIndex - i`, which lies above `partitionIndex` as long as `i` is
below `capacity`.

The mask of a new internal node is one bit, found by counting leading zeros.
`newMask` counts in the naturals; `OrderBookIndex.newMask` is the same count
in machine words, for the three word types the tree can be built over.
-/

/-- Maximum index value. -/
def maxIndex (w : Nat) : BitVec w :=
  BitVec.allOnes w

/-- Partition between internal nodes and leaves. -/
def partitionIndex (w : Nat) : BitVec w :=
  1#w <<< (w - 1)

/-- Maximum number of leaf nodes that can be stored in the tree. -/
def capacity (w : Nat) : BitVec w :=
  maxIndex w - partitionIndex w

/-- Number of zero bits above the highest set bit. -/
def leadingZeros (x : BitVec n) : Nat :=
  if x = 0 then n else n - 1 - x.toNat.log2

/--
Mask of the most significant bit at which two keys differ.

The position goes through the leading zeros of the doubled width, as in the
source.
-/
def newMask (key closestKey : BitVec w) : BitVec w :=
  let critbit : BitVec (2 * w) := (key ^^^ closestKey).setWidth (2 * w)
  let pos := w - (leadingZeros critbit - w)
  1#w <<< (pos - 1)

section Bounds

variable {w : Nat}

theorem toNat_maxIndex : (maxIndex w).toNat = 2 ^ w - 1 :=
  BitVec.toNat_allOnes

theorem toNat_partitionIndex (width : 0 < w) :
    (partitionIndex w).toNat = 2 ^ (w - 1) := by
  rw [partitionIndex, ← BitVec.twoPow_eq]
  exact BitVec.toNat_twoPow_of_lt (by omega)

/-- Twice the partition is the size of the index space. -/
theorem two_pow_pred_mul_two (width : 0 < w) :
    2 ^ (w - 1) * 2 = 2 ^ w := by
  rw [← Nat.pow_succ]
  congr 1
  omega

theorem toNat_capacity (width : 0 < w) :
    (capacity w).toNat = 2 ^ (w - 1) - 1 := by
  have half := two_pow_pred_mul_two width
  have ordered : partitionIndex w ≤ maxIndex w := by
    rw [BitVec.le_def, toNat_partitionIndex width, toNat_maxIndex]
    omega
  rw [capacity, BitVec.toNat_sub_of_le ordered, toNat_maxIndex,
    toNat_partitionIndex width]
  omega

theorem toNat_maxIndex_sub (index : BitVec w) :
    (maxIndex w - index).toNat = 2 ^ w - 1 - index.toNat := by
  have bound := index.isLt
  have ordered : index ≤ maxIndex w := by
    rw [BitVec.le_def, toNat_maxIndex]
    omega
  rw [BitVec.toNat_sub_of_le ordered, toNat_maxIndex]

theorem toNat_succ_of_lt
    {index bound : BitVec w}
    (below : index < bound) :
    (index + 1).toNat = index.toNat + 1 := by
  have room := bound.isLt
  rw [BitVec.lt_def] at below
  cases w with
  | zero =>
      simp at room
      omega
  | succ width =>
      have one : (1 : BitVec (width + 1)).toNat = 1 := by simp
      rw [BitVec.toNat_add, one, Nat.mod_eq_of_lt (by omega)]

theorem succ_le_of_lt
    {index bound : BitVec w}
    (below : index < bound) :
    index + 1 ≤ bound := by
  rw [BitVec.le_def, toNat_succ_of_lt below]
  exact below

/-- Encoding a leaf index as a pointer is an involution. -/
@[simp] theorem maxIndex_sub_sub (index : BitVec w) :
    maxIndex w - (maxIndex w - index) = index := by
  have bound := index.isLt
  apply BitVec.eq_of_toNat_eq
  rw [toNat_maxIndex_sub, toNat_maxIndex_sub]
  omega

/-- Distinct leaf indices have distinct pointers. -/
theorem maxIndex_sub_inj {first second : BitVec w} :
    maxIndex w - first = maxIndex w - second ↔ first = second := by
  constructor
  · intro same
    rw [← maxIndex_sub_sub first, same, maxIndex_sub_sub]
  · intro same
    rw [same]

/-- Pointers of leaves below the capacity lie above the partition. -/
theorem partitionIndex_lt_maxIndex_sub
    (width : 0 < w)
    {index : BitVec w}
    (allocated : index < capacity w) :
    partitionIndex w < maxIndex w - index := by
  have half := two_pow_pred_mul_two width
  rw [BitVec.lt_def, toNat_capacity width] at allocated
  rw [BitVec.lt_def, toNat_maxIndex_sub, toNat_partitionIndex width]
  omega

/-- Indices below the capacity lie below the partition. -/
theorem lt_partitionIndex_of_lt_capacity
    (width : 0 < w)
    {index : BitVec w}
    (allocated : index < capacity w) :
    index < partitionIndex w := by
  rw [BitVec.lt_def, toNat_capacity width] at allocated
  rw [BitVec.lt_def, toNat_partitionIndex width]
  omega

end Bounds

/-- The zeros of a widened difference end at the critical bit. -/
theorem leadingZeros_critbit
    {key closestKey : BitVec w}
    (different : key ≠ closestKey)
    {n : Nat}
    (wider : w ≤ n) :
    leadingZeros ((key ^^^ closestKey).setWidth n) =
      n - 1 - criticalBit key closestKey := by
  have widened :
      ((key ^^^ closestKey).setWidth n).toNat =
        (key ^^^ closestKey).toNat := by
    rw [BitVec.toNat_setWidth]
    apply Nat.mod_eq_of_lt
    exact (key ^^^ closestKey).isLt.trans_le
      (Nat.pow_le_pow_right (by omega) wider)
  have nonzero : (key ^^^ closestKey).setWidth n ≠ 0 := by
    intro zero
    apply toNat_xor_ne_zero different
    rw [← widened, zero]
    simp
  rw [leadingZeros, if_neg nonzero, widened]
  rfl

/-- For distinct keys the mask is exactly the critical bit. -/
theorem newMask_eq
    {key closestKey : BitVec w}
    (different : key ≠ closestKey) :
    newMask key closestKey =
      BitVec.twoPow w (criticalBit key closestKey) := by
  have inRange := criticalBit_lt different
  unfold newMask
  simp only
  rw [leadingZeros_critbit different (by omega), BitVec.twoPow_eq]
  congr 1
  omega

/-- Masking a key with one bit tests that bit. -/
theorem twoPow_and_eq_zero_iff
    {bit : Nat}
    (inRange : bit < w)
    (key : BitVec w) :
    BitVec.twoPow w bit &&& key = 0#w ↔ key.getLsbD bit = false := by
  constructor
  · intro cleared
    have tested :
        (BitVec.twoPow w bit &&& key).getLsbD bit = false := by
      rw [cleared]
      simp
    simpa [BitVec.getLsbD_and, BitVec.getLsbD_twoPow, inRange] using tested
  · intro clear
    apply BitVec.eq_of_getLsbD_eq
    intro position _
    rw [BitVec.getLsbD_and, BitVec.getLsbD_twoPow]
    by_cases same : bit = position
    · simp [← same, clear]
    · simp [same]

theorem twoPow_and_beq_zero
    {bit : Nat}
    (inRange : bit < w)
    (key : BitVec w) :
    (BitVec.twoPow w bit &&& key == 0) = !key.getLsbD bit := by
  have clear := twoPow_and_eq_zero_iff inRange key
  cases set : key.getLsbD bit <;> simp_all

/-- Single-bit masks are ordered as their positions. -/
theorem twoPow_lt_iff
    {first second : Nat}
    (firstRange : first < w)
    (secondRange : second < w) :
    BitVec.twoPow w first < BitVec.twoPow w second ↔ first < second := by
  rw [BitVec.lt_def, BitVec.toNat_twoPow_of_lt firstRange,
    BitVec.toNat_twoPow_of_lt secondRange]
  exact Nat.pow_lt_pow_iff_right (by omega)

/-- A mask of one bit, the highest at which two keys differ. -/
structure Isolates (mask key closestKey : BitVec w) (bit : Nat) : Prop where
  inRange : bit < w
  singleBit : mask.toNat = 2 ^ bit
  differ : key.getLsbD bit ≠ closestKey.getLsbD bit
  agree : AgreeAbove bit key closestKey

/-- Such a mask tells which of the two keys is the smaller. -/
theorem Isolates.lt_iff
    {mask key closestKey : BitVec w}
    {bit : Nat}
    (isolates : Isolates mask key closestKey bit) :
    key < closestKey ↔ key &&& mask = 0 := by
  have maskShape : mask = BitVec.twoPow w bit := by
    apply BitVec.eq_of_toNat_eq
    rw [isolates.singleBit, BitVec.toNat_twoPow_of_lt isolates.inRange]
  rw [isolates.agree.lt_iff isolates.differ, maskShape, BitVec.and_comm]
  exact (twoPow_and_eq_zero_iff isolates.inRange key).symm

theorem newMask_isolates
    {key closestKey : BitVec w}
    (different : key ≠ closestKey) :
    Isolates (newMask key closestKey) key closestKey
      (criticalBit key closestKey) where
  inRange := criticalBit_lt different
  singleBit := by
    rw [newMask_eq different,
      BitVec.toNat_twoPow_of_lt (criticalBit_lt different)]
  differ := by simp [criticalBit_differs different]
  agree := criticalBit_agree key closestKey

theorem newMask_comm
    {key closestKey : BitVec w}
    (different : key ≠ closestKey) :
    newMask closestKey key = newMask key closestKey := by
  rw [newMask_eq different, newMask_eq different.symm, criticalBit_comm]

/-- The word types that implement the index trait. -/
inductive OrderBookIndex where
  | u32
  | u64
  | u128
  deriving Repr, DecidableEq

namespace OrderBookIndex

/-- Number of bits of the type. -/
def bits : OrderBookIndex → Nat
  | u32 => 32
  | u64 => 64
  | u128 => 128

/-- Number of bits of the type its masks are computed in. -/
def higherBits : OrderBookIndex → Nat
  | u32 => 64
  | u64 => 128
  | u128 => 256

/--
The mask as the implementation of each type computes it.

Bit counts are words of 32 bits.  With overflow checks each of the three
subtractions panics below zero, and the shift panics at the width of the key.
-/
def newMask
    (index : OrderBookIndex)
    (checks : Bool)
    (key closestKey : BitVec index.bits) :
    Except (Fault Empty) (BitVec index.bits) := do
  let critbit := (key ^^^ closestKey).setWidth index.higherBits
  let bits := BitVec.ofNat 32 index.bits
  let excess ←
    Machine.sub checks (BitVec.ofNat 32 (leadingZeros critbit)) bits
  let pos ← Machine.sub checks bits excess
  let shift ← Machine.sub checks pos 1
  Machine.shl checks 1 shift

theorem higherBits_eq (index : OrderBookIndex) :
    index.higherBits = 2 * index.bits := by
  cases index <;> rfl

/-- Every bit count of the computation fits its word. -/
theorem higherBits_lt (index : OrderBookIndex) :
    index.higherBits < 2 ^ 32 := by
  cases index <;> decide

/--
On distinct keys no step of the computation leaves its range, so that either
build returns the mask of the tree.
-/
theorem newMask_eq_ok
    (index : OrderBookIndex)
    (checks : Bool)
    {key closestKey : BitVec index.bits}
    (different : key ≠ closestKey) :
    index.newMask checks key closestKey =
      .ok (HybridOrderbook.newMask key closestKey) := by
  have inRange := criticalBit_lt different
  have double := index.higherBits_eq
  have small := index.higherBits_lt
  have zeros := leadingZeros_critbit different
    (show index.bits ≤ index.higherBits by omega)
  rw [newMask_eq different, BitVec.twoPow_eq]
  generalize criticalBit key closestKey = bit at inRange zeros ⊢
  have excess :
      (Machine.sub checks
          (BitVec.ofNat 32 (index.higherBits - 1 - bit))
          (BitVec.ofNat 32 index.bits) : Except (Fault Empty) _) =
        .ok (BitVec.ofNat 32 (index.bits - 1 - bit)) := by
    rw [Machine.sub_ofNat (by omega) (by omega)]
    congr 2
    omega
  have pos :
      (Machine.sub checks (BitVec.ofNat 32 index.bits)
          (BitVec.ofNat 32 (index.bits - 1 - bit)) :
            Except (Fault Empty) _) =
        .ok (BitVec.ofNat 32 (bit + 1)) := by
    rw [Machine.sub_ofNat (by omega) (by omega)]
    congr 2
    omega
  have shift :
      (Machine.sub checks (BitVec.ofNat 32 (bit + 1)) 1 :
          Except (Fault Empty) _) =
        .ok (BitVec.ofNat 32 bit) :=
    Machine.sub_ofNat (Nat.le_add_left 1 bit) (by omega)
  have count : (BitVec.ofNat 32 bit).toNat = bit := by
    rw [BitVec.toNat_ofNat, Nat.mod_eq_of_lt (by omega)]
  unfold newMask
  simp only [zeros, excess, pos, shift, bind, Except.bind]
  rw [Machine.shl_of_lt (by omega), count]
  rfl

/--
On equal keys the position is zero and the last subtraction goes below it.
`insert` refuses a key that is already stored before it asks for a mask.
-/
theorem newMask_self
    (index : OrderBookIndex)
    (checks : Bool)
    (key : BitVec index.bits) :
    index.newMask checks key key =
      if checks then .error .panic else .ok (partitionIndex index.bits) := by
  unfold newMask
  rw [BitVec.xor_self]
  cases index <;> cases checks <;> rfl

/-- The computation panics on equal keys only. -/
theorem newMask_panics_iff
    (index : OrderBookIndex)
    (key closestKey : BitVec index.bits) :
    index.newMask true key closestKey = .error .panic ↔
      key = closestKey := by
  constructor
  · intro panicked
    by_contra different
    rw [index.newMask_eq_ok true different] at panicked
    cases panicked
  · rintro rfl
    exact index.newMask_self true key

/--
For every word type and every two distinct keys, either build computes one
mask, in whichever order the keys are given.  The mask isolates the critical
bit, and it is clear in the smaller key.
-/
theorem newMask_isolates_critbit
    (index : OrderBookIndex)
    {key closestKey : BitVec index.bits}
    (different : key ≠ closestKey) :
    ∃ mask bit,
      (∀ checks, index.newMask checks key closestKey = .ok mask) ∧
      (∀ checks, index.newMask checks closestKey key = .ok mask) ∧
      HybridOrderbook.newMask key closestKey = mask ∧
      Isolates mask key closestKey bit ∧
      (key < closestKey ↔ key &&& mask = 0) := by
  have isolates := newMask_isolates different
  refine ⟨_, _, fun checks => index.newMask_eq_ok checks different, ?_,
    rfl, isolates, isolates.lt_iff⟩
  intro checks
  rw [index.newMask_eq_ok checks different.symm, newMask_comm different]

/-- Two keys that differ at the top bit of the widest type. -/
theorem newMask_isolates_critbit_top_bit :
    (0 : BitVec u128.bits) ≠ partitionIndex u128.bits ∧
      ∃ mask bit,
        (∀ checks,
          u128.newMask checks 0 (partitionIndex u128.bits) = .ok mask) ∧
        (∀ checks,
          u128.newMask checks (partitionIndex u128.bits) 0 = .ok mask) ∧
        HybridOrderbook.newMask 0 (partitionIndex u128.bits) = mask ∧
        Isolates mask 0 (partitionIndex u128.bits) bit ∧
        (0 < partitionIndex u128.bits ↔ 0 &&& mask = 0) :=
  have different : (0 : BitVec u128.bits) ≠ partitionIndex u128.bits := by
    decide
  ⟨different, newMask_isolates_critbit u128 different⟩

-- The bottom bit, as in the source's own test of one pair.
example : u64.newMask true 0 1 = .ok 1 := by decide

end OrderBookIndex

end HybridOrderbook
