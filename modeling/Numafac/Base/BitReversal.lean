/-
Module: Numafac.Base.BitReversal
Layer: Base
Purpose: Reversal of the lowest bits of a number, as a loop that sets one bit for each bit that is set. Only
  the lowest `width` bits count, so the reversal is a permutation of the numbers below `2 ^ width` and
  repeats itself from there on.
Trusted boundary: none
Main exports: reverseBits, testBit_reverseBits, reverseBits_lt, reverseBits_eq_iff,
  reverseBits_reverseBits, reverseBits_of_lt
-/
import Mathlib.Data.Nat.Bitwise

namespace Numafac

/-- `for (j = 0; j < width; j++) if (i & (1<<j)) w |= (1<<(width-j-1));`, started at zero. -/
def reverseBits (width i : Nat) : Nat :=
  (List.range width).foldl
    (fun w j => if i &&& 1 <<< j ≠ 0 then w ||| 1 <<< (width - j - 1) else w) 0

/-- `i & (1<<j)` tests one bit. -/
theorem and_shift_ne_zero_iff (i j : Nat) : i &&& 1 <<< j ≠ 0 ↔ i.testBit j = true := by
  rw [Nat.one_shiftLeft, Nat.and_two_pow]
  cases i.testBit j with
  | false => simp
  | true => simp

/-- The bits after the first passes. -/
theorem testBit_foldl (width i t : Nat) {passes : Nat} (inside : passes ≤ width) :
    ((List.range passes).foldl
      (fun w j => if i &&& 1 <<< j ≠ 0 then w ||| 1 <<< (width - j - 1) else w) 0).testBit t =
      (decide (width - passes ≤ t ∧ t < width) && i.testBit (width - 1 - t)) := by
  induction passes with
  | zero =>
      simp
  | succ passes ih =>
      have before := ih (Nat.le_of_succ_le inside)
      rw [List.range_succ, List.foldl_append, List.foldl_cons, List.foldl_nil]
      by_cases here : t = width - passes - 1
      · have position : width - 1 - t = passes := by omega
        have now : width - (passes + 1) ≤ t ∧ t < width := by omega
        have notYet : ¬ (width - passes ≤ t ∧ t < width) := by omega
        rw [decide_eq_false notYet, Bool.false_and] at before
        rw [position, decide_eq_true now, Bool.true_and]
        by_cases set : i.testBit passes = true
        · rw [if_pos ((and_shift_ne_zero_iff i passes).mpr set), Nat.testBit_or, before, set,
            Nat.one_shiftLeft, here, Nat.testBit_two_pow_self, Bool.or_true]
        · rw [if_neg (fun bit => set ((and_shift_ne_zero_iff i passes).mp bit)), before]
          exact (Bool.eq_false_of_not_eq_true set).symm
      · have kept : (width - (passes + 1) ≤ t ∧ t < width) ↔ (width - passes ≤ t ∧ t < width) := by
          omega
        have other : (1 <<< (width - passes - 1)).testBit t = false := by
          rw [Nat.one_shiftLeft]
          exact Nat.testBit_two_pow_of_ne fun same => here same.symm
        rw [decide_eq_decide.mpr kept, ← before]
        split
        · rw [Nat.testBit_or, other, Bool.or_false]
        · rfl

theorem testBit_reverseBits (width i t : Nat) :
    (reverseBits width i).testBit t = (decide (t < width) && i.testBit (width - 1 - t)) := by
  rw [reverseBits, testBit_foldl width i t (Nat.le_refl width)]
  simp

theorem reverseBits_lt (width i : Nat) : reverseBits width i < 2 ^ width := by
  apply Nat.lt_pow_two_of_testBit
  intro t high
  rw [testBit_reverseBits, decide_eq_false (Nat.not_lt.mpr high), Bool.false_and]

/-- Two numbers have the same reversal exactly when their lowest bits agree. -/
theorem reverseBits_eq_iff {width i j : Nat} :
    reverseBits width i = reverseBits width j ↔ i % 2 ^ width = j % 2 ^ width := by
  constructor
  · intro same
    apply Nat.eq_of_testBit_eq
    intro t
    rw [Nat.testBit_mod_two_pow, Nat.testBit_mod_two_pow]
    by_cases inside : t < width
    · have bits := congrArg (Nat.testBit · (width - 1 - t)) same
      simp only [testBit_reverseBits] at bits
      have mirrored : width - 1 - (width - 1 - t) = t := by omega
      rw [mirrored, decide_eq_true (show width - 1 - t < width by omega)] at bits
      rw [decide_eq_true inside]
      exact bits
    · rw [decide_eq_false inside, Bool.false_and, Bool.false_and]
  · intro same
    apply Nat.eq_of_testBit_eq
    intro t
    rw [testBit_reverseBits, testBit_reverseBits]
    by_cases inside : t < width
    · have bits := congrArg (Nat.testBit · (width - 1 - t)) same
      simp only [Nat.testBit_mod_two_pow] at bits
      rw [decide_eq_true (show width - 1 - t < width by omega)] at bits
      rw [decide_eq_true inside]
      exact bits
    · rw [decide_eq_false inside, Bool.false_and, Bool.false_and]

/-- Reversing twice keeps the lowest bits. -/
theorem reverseBits_reverseBits (width i : Nat) : reverseBits width (reverseBits width i) = i % 2 ^ width := by
  apply Nat.eq_of_testBit_eq
  intro t
  rw [testBit_reverseBits, testBit_reverseBits, Nat.testBit_mod_two_pow]
  by_cases inside : t < width
  · have mirrored : width - 1 - (width - 1 - t) = t := by omega
    rw [mirrored, decide_eq_true inside, decide_eq_true (show width - 1 - t < width by omega), Bool.true_and]
  · rw [decide_eq_false inside, Bool.false_and, Bool.false_and]

@[simp] theorem reverseBits_zero (width : Nat) : reverseBits width 0 = 0 := by
  apply Nat.eq_of_testBit_eq
  intro t
  simp [testBit_reverseBits]

/-- The first reversals are multiples of a power of two: the bits above stay clear. -/
theorem reverseBits_of_lt {width low i : Nat} (fewer : low ≤ width) (small : i < 2 ^ low) :
    reverseBits width i = reverseBits low i * 2 ^ (width - low) := by
  apply Nat.eq_of_testBit_eq
  intro t
  rw [testBit_reverseBits, Nat.testBit_mul_two_pow, testBit_reverseBits]
  by_cases below : t < width - low
  · have high : i.testBit (width - 1 - t) = false :=
      Nat.testBit_eq_false_of_lt (small.trans_le (Nat.pow_le_pow_right (by decide) (by omega)))
    rw [high, Bool.and_false, decide_eq_false (Nat.not_le.mpr below), Bool.false_and]
  · rw [decide_eq_true (Nat.not_lt.mp below), Bool.true_and]
    by_cases inside : t < width
    · have position : low - 1 - (t - (width - low)) = width - 1 - t := by omega
      rw [decide_eq_true inside, decide_eq_true (by omega : t - (width - low) < low), position]
    · rw [decide_eq_false inside, decide_eq_false (by omega : ¬ t - (width - low) < low), Bool.false_and,
        Bool.false_and]

end Numafac
