/-
Module: Numafac.Lmbench.RangeLoop
Layer: Lmbench
Purpose: The range loop of `lat_mem_rd`. It measures a growing part of its buffer: from 2048 on the
  ranges are the powers of two and the numbers halfway between them, and a range below the stride is
  skipped. `rangeLoop_getLast` says where the loop ends, and `exists_last` that the range measured last is
  the largest one in the buffer and more than two thirds of it.
Trusted boundary: the translation of `main`, `loads` and `step`; the options in front of the two
  arguments do not change the ranges, and `step` does not leave `size_t`
Main exports: powerAbove, step, loads, rangeLoop, latMemRd, IsRange, isRange_iff_iterate,
  rangeLoop_getLast, exists_last
-/
import Mathlib.Logic.Function.Iterate
import Mathlib.Order.Monotone.Basic
import Numafac.Base.CMemory

namespace Numafac.LatMemRd

/-- `s` after `for (s = 4 * 1024; s <= k; s *= 2);`, started at a positive `s`. -/
def powerAbove (k s : Nat) (pos : 0 < s) : Nat :=
  if s ≤ k then powerAbove k (s * 2) (Nat.mul_pos pos (by decide)) else s
termination_by k + 1 - s

/-- `step`. -/
def step (k : Nat) : Nat :=
  if k < 1024 then k * 2
  else if k < 4 * 1024 then k + 1024
  else k + powerAbove k (4 * 1024) (by decide) / 4

theorem le_powerAbove (k s : Nat) (pos : 0 < s) : s ≤ powerAbove k s pos := by
  fun_induction powerAbove with
  | case1 s pos more ih => omega
  | case2 s pos done => exact Nat.le_refl s

/-- The ranges grow. -/
theorem lt_step {k : Nat} (pos : 0 < k) : k < step k := by
  have large := le_powerAbove k (4 * 1024) (by decide)
  unfold step
  split
  · omega
  · split
    · omega
    · omega

/-- What `loads` measures: nothing when the range is below the stride. A stride of zero divides by zero
before anything is measured. -/
def loads (range stride : Nat) : List Nat :=
  if range < stride ∨ stride = 0 then [] else [range]

/-- `for (range = LOWER; range <= len; range = step(range)) loads(...);`, the measured ranges in order. -/
def rangeLoop (len stride range : Nat) (pos : 0 < range) : List Nat :=
  if range ≤ len then
    loads range stride ++ rangeLoop len stride (step range) (Nat.zero_lt_of_lt (lt_step pos))
  else []
termination_by len + 1 - range
decreasing_by
  have grows := lt_step pos
  omega

/-- `LOWER`. -/
def lower : Nat := 512

/-- `bytes`: a number, in kilobytes or megabytes with that suffix. -/
def bytes (s : Text) : Nat :=
  let n := digitsValue (s.takeWhile Char.isDigit)
  if s.getLast? = some 'k' ∨ s.getLast? = some 'K' then n * 1024
  else if s.getLast? = some 'm' ∨ s.getLast? = some 'M' then n * (1024 * 1024)
  else n

/-- `main` with the arguments `size` and `stride`: the measured ranges. The product is a `size_t`. -/
def latMemRd (size stride : Text) : CResult (List Nat) := do
  let len ← atoi size
  pure (rangeLoop (len * (1024 * 1024) % 2 ^ 64).toNat (bytes stride) lower (by decide))

/-! ### The ranges -/

/-- A power of two from 512 on, or the number halfway to the next one from 3072 on. -/
def IsRange (range : Nat) : Prop :=
  ∃ j, range = 2 ^ (j + 9) ∨ range = 3 * 2 ^ (j + 10)

/-- Started at a power of two, the loop ends at the first one above `k`. -/
theorem powerAbove_eq {k d e : Nat} (low : d ≤ e + 1) (above : 2 ^ e ≤ k) (below : k < 2 ^ (e + 1)) :
    powerAbove k (2 ^ d) (Nat.two_pow_pos d) = 2 ^ (e + 1) := by
  induction hgap : e + 1 - d generalizing d with
  | zero =>
      obtain rfl : d = e + 1 := by omega
      rw [powerAbove, if_neg (by omega)]
  | succ gap ih =>
      have more : 2 ^ d ≤ k := (Nat.pow_le_pow_right (by decide) (by omega : d ≤ e)).trans above
      rw [powerAbove, if_pos more]
      simp only [← Nat.pow_succ]
      exact ih (by omega) (by omega)

theorem step_power (j : Nat) :
    step (2 ^ (j + 9)) = if j = 0 then 2 ^ 10 else if j = 1 then 2 ^ 11 else 3 * 2 ^ (j + 8) := by
  match j with
  | 0 => decide
  | 1 => decide
  | 2 => decide
  | j + 3 =>
      have large : 2 ^ 12 ≤ 2 ^ (j + 12) := Nat.pow_le_pow_right (by decide) (by omega)
      have above : powerAbove (2 ^ (j + 12)) (2 ^ 12) (Nat.two_pow_pos 12) = 2 ^ (j + 13) :=
        powerAbove_eq (by omega) (Nat.le_refl _) (Nat.pow_lt_pow_right (by decide) (by omega))
      have next : step (2 ^ (j + 12)) = 2 ^ (j + 12) + 2 ^ (j + 13) / 4 := by
        rw [step, if_neg (by omega), if_neg (by omega)]
        exact congrArg (fun s => 2 ^ (j + 12) + s / 4) above
      have quarter : 2 ^ (j + 13) / 4 = 2 ^ (j + 11) := by
        rw [show j + 13 = j + 11 + 2 by omega, Nat.pow_add]
        exact Nat.mul_div_cancel _ (by decide)
      rw [if_neg (by omega), if_neg (by omega), next, quarter]
      rw [show j + 12 = j + 11 + 1 by omega, show j + 3 + 8 = j + 11 by omega, Nat.pow_succ]
      omega

theorem step_between (j : Nat) : step (3 * 2 ^ (j + 10)) = 2 ^ (j + 12) := by
  match j with
  | 0 => decide
  | j + 1 =>
      have power : 2 ^ (j + 12) = 2 * 2 ^ (j + 11) := Nat.pow_succ'
      have next' : 2 ^ (j + 13) = 4 * 2 ^ (j + 11) := by rw [Nat.pow_succ', power]; omega
      have large : 2 ^ 11 ≤ 2 ^ (j + 11) := Nat.pow_le_pow_right (by decide) (by omega)
      have above : powerAbove (3 * 2 ^ (j + 11)) (2 ^ 12) (Nat.two_pow_pos 12) = 2 ^ (j + 13) :=
        powerAbove_eq (by omega) (by omega) (by omega)
      have next : step (3 * 2 ^ (j + 11)) = 3 * 2 ^ (j + 11) + 2 ^ (j + 13) / 4 := by
        rw [step, if_neg (by omega), if_neg (by omega)]
        exact congrArg (fun s => 3 * 2 ^ (j + 11) + s / 4) above
      rw [show j + 1 + 10 = j + 11 by omega, show j + 1 + 12 = j + 13 by omega, next, next']
      omega

/-- From 2048 on a step adds at most half. -/
theorem two_mul_step_le {range : Nat} (isRange : IsRange range) (large : 2048 ≤ range) :
    2 * step range ≤ 3 * range := by
  obtain ⟨j, rfl | rfl⟩ := isRange
  · have notFirst : j ≠ 0 := by rintro rfl; omega
    have notSecond : j ≠ 1 := by rintro rfl; omega
    have double : 2 ^ (j + 9) = 2 * 2 ^ (j + 8) := Nat.pow_succ'
    rw [step_power, if_neg notFirst, if_neg notSecond, double]
    omega
  · rw [step_between, show j + 12 = j + 10 + 2 by omega, Nat.pow_add]
    omega

/-- The values that `range` takes. -/
theorem isRange_iff_iterate {range : Nat} : IsRange range ↔ ∃ k, step^[k] lower = range := by
  constructor
  · have powers : ∀ j, ∃ k, step^[k] lower = 2 ^ (j + 9) := by
      intro j
      induction j using Nat.strong_induction_on with
      | _ j ih =>
          match j with
          | 0 => exact ⟨0, rfl⟩
          | 1 => exact ⟨1, step_power 0⟩
          | 2 =>
              obtain ⟨k, reached⟩ := ih 1 (by omega)
              exact ⟨k + 1, by rw [Function.iterate_succ_apply', reached, step_power]; rfl⟩
          | j + 3 =>
              obtain ⟨k, reached⟩ := ih (j + 2) (by omega)
              refine ⟨k + 2, ?_⟩
              rw [Function.iterate_succ_apply', Function.iterate_succ_apply', reached, step_power,
                if_neg (by omega), if_neg (by omega)]
              exact step_between j
    rintro ⟨j, rfl | rfl⟩
    · exact powers j
    · obtain ⟨k, reached⟩ := powers (j + 2)
      exact ⟨k + 1, by
        rw [Function.iterate_succ_apply', reached, step_power, if_neg (by omega), if_neg (by omega)]⟩
  · rintro ⟨k, rfl⟩
    induction k with
    | zero => exact ⟨0, Or.inl rfl⟩
    | succ k ih =>
        rw [Function.iterate_succ_apply']
        obtain ⟨j, power | between⟩ := ih
        · rw [power, step_power]
          split
          · exact ⟨1, Or.inl rfl⟩
          · split
            · exact ⟨2, Or.inl rfl⟩
            · exact ⟨j - 2, Or.inr (by rw [show j - 2 + 10 = j + 8 by omega])⟩
        · rw [between, step_between]
          exact ⟨j + 3, Or.inl rfl⟩

theorem le_iterate_step {range : Nat} (pos : 0 < range) (m : Nat) : range ≤ step^[m] range := by
  induction m with
  | zero => exact Nat.le_refl range
  | succ m ih =>
      rw [Function.iterate_succ_apply']
      exact ih.trans (lt_step (pos.trans_le ih)).le

theorem strictMono_iterate : StrictMono fun k => step^[k] lower := by
  apply strictMono_nat_of_lt_succ
  intro k
  have pos : 0 < step^[k] lower := Nat.lt_of_lt_of_le (by decide) (le_iterate_step (by decide) k)
  rw [Function.iterate_succ_apply']
  exact lt_step pos

/-! ### The last measurement -/

/-- The loop ends at the last range that is not larger than the buffer, and measures it last unless it is
below the stride. -/
theorem rangeLoop_getLast {len stride range : Nat} (pos : 0 < range) (enters : range ≤ len)
    (positive : 0 < stride) : ∃ m, step^[m] range ≤ len ∧ len < step^[m + 1] range ∧
      (rangeLoop len stride range pos).getLast? =
        if stride ≤ step^[m] range then some (step^[m] range) else none := by
  fun_induction rangeLoop with
  | case1 range pos more ih =>
      by_cases further : step range ≤ len
      · obtain ⟨m, low, high, last⟩ := ih further
        refine ⟨m + 1, low, high, ?_⟩
        rw [Function.iterate_succ_apply, List.getLast?_append, last]
        by_cases measured : stride ≤ step^[m] (step range)
        · rw [if_pos measured]
          rfl
        · have grows : range ≤ step^[m] (step range) :=
            (lt_step pos).le.trans (le_iterate_step (pos.trans (lt_step pos)) m)
          have skipped : loads range stride = [] := if_pos (Or.inl (by omega))
          rw [if_neg measured, skipped]
          rfl
      · refine ⟨0, more, Nat.lt_of_not_le further, ?_⟩
        rw [rangeLoop, if_neg further, List.append_nil]
        by_cases measured : stride ≤ range
        · have taken : loads range stride = [range] := if_neg (by omega)
          rw [taken]
          exact (if_pos measured).symm
        · have skipped : loads range stride = [] := if_pos (Or.inl (by omega))
          rw [skipped]
          exact (if_neg measured).symm
  | case2 range pos done => exact absurd enters done

/-- A buffer of at least 2048 bytes has a largest range: it is more than two thirds of the buffer, and it
is the last measurement unless it is below the stride. -/
theorem exists_last {len stride : Nat} (large : 2048 ≤ len) (positive : 0 < stride) :
    ∃ last, IsRange last ∧ last ≤ len ∧ 2 * len < 3 * last ∧
      (∀ range, IsRange range → range ≤ len → range ≤ last) ∧
      (rangeLoop len stride lower (by decide)).getLast? =
        if stride ≤ last then some last else none := by
  have enters : lower ≤ len := Nat.le_trans (by decide) large
  obtain ⟨m, low, high, measured⟩ := rangeLoop_getLast (by decide) enters positive
  have isRange : IsRange (step^[m] lower) := isRange_iff_iterate.mpr ⟨m, rfl⟩
  have largest : ∀ range, IsRange range → range ≤ len → range ≤ step^[m] lower := by
    intro range isRange' fits
    obtain ⟨k, rfl⟩ := isRange_iff_iterate.mp isRange'
    have before : k < m + 1 := strictMono_iterate.lt_iff_lt.mp (Nat.lt_of_le_of_lt fits high)
    exact strictMono_iterate.monotone (Nat.le_of_lt_succ before)
  refine ⟨step^[m] lower, isRange, low, ?_, largest, measured⟩
  have two : 2048 ≤ step^[m] lower := largest 2048 ⟨2, Or.inl rfl⟩ large
  have next := two_mul_step_le isRange two
  rw [Function.iterate_succ_apply'] at high
  omega

end Numafac.LatMemRd
