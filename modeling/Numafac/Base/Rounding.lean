/-
Module: Numafac.Base.Rounding
Layer: Base
Purpose: Rounding to the numbers of a floating-point format, and what it leaves of a printed decimal. A
  format rounds to a nearest number of its own; which of two equally near ones is open.
  `roundedTo_round` says that a number of the format which is printed, read back and printed again gives
  the same decimal both times.
Trusted boundary: that the format rounds to nearest
Main exports: roundHalfEven_error, roundHalfEven_even, roundHalfEven_unique, FloatFormat,
  FloatFormat.Precise, FloatFormat.fixedPoint, Decimal.nonneg, roundedTo_round, FloatFormat.ofNumeral,
  printfLf
-/
import Numafac.Base.Scan

namespace Numafac

/-! ### Rounding to natural numbers -/

/-- Rounding moves a number by at most one half. -/
theorem roundHalfEven_error (q : ℚ≥0) : |(q : ℚ) - roundHalfEven q| ≤ 1 / 2 := by
  obtain ⟨below, low, high, ⟨down, same⟩ | ⟨up, same⟩ | ⟨tie, -, same | same⟩⟩ := roundHalfEven_cases q
  · rw [same, abs_le]
    constructor <;> linarith
  · rw [same, abs_le]
    push_cast
    constructor <;> linarith
  · rw [same, abs_le]
    constructor <;> linarith
  · rw [same, abs_le]
    push_cast
    constructor <;> linarith

/-- Exactly one half means that the even neighbour was chosen. -/
theorem roundHalfEven_even {q : ℚ≥0} (tie : |(q : ℚ) - roundHalfEven q| = 1 / 2) :
    roundHalfEven q % 2 = 0 := by
  obtain ⟨below, low, high, ⟨down, same⟩ | ⟨up, same⟩ | ⟨-, even, -⟩⟩ := roundHalfEven_cases q
  · rw [same, abs_of_nonneg (by linarith)] at tie
    linarith
  · rw [same] at tie
    push_cast at tie
    rw [abs_of_nonpos (by linarith)] at tie
    linarith
  · exact even

/-- Two natural numbers within one half of the same number are neighbours at that distance. -/
theorem tie_of_lt {x : ℚ} {n m : Nat} (low : |x - n| ≤ 1 / 2) (high : |x - m| ≤ 1 / 2) (less : n < m) :
    m = n + 1 ∧ |x - n| = 1 / 2 ∧ |x - m| = 1 / 2 := by
  obtain ⟨-, above⟩ := abs_le.mp low
  obtain ⟨below, -⟩ := abs_le.mp high
  have gap : (n : ℚ) + 1 ≤ m := by exact_mod_cast less
  have close : (m : ℚ) ≤ n + 1 := by linarith
  have close' : m ≤ n + 1 := by exact_mod_cast close
  refine ⟨by omega, ?_, ?_⟩
  · rw [abs_of_nonneg (by linarith)]
    linarith
  · rw [abs_of_nonpos (by linarith)]
    linarith

/-- These two facts determine the rounded number. -/
theorem roundHalfEven_unique {q : ℚ≥0} {m : Nat} (near : |(q : ℚ) - m| ≤ 1 / 2)
    (even : |(q : ℚ) - m| = 1 / 2 → m % 2 = 0) : roundHalfEven q = m := by
  have error := roundHalfEven_error q
  -- neighbours at the same distance would both have to be even
  rcases lt_trichotomy (roundHalfEven q) m with less | same | more
  · obtain ⟨next, tie, tie'⟩ := tie_of_lt error near less
    have both := roundHalfEven_even tie
    have both' := even tie'
    omega
  · exact same
  · obtain ⟨next, tie, tie'⟩ := tie_of_lt near error more
    have both := roundHalfEven_even tie'
    have both' := even tie
    omega

theorem roundHalfEven_natCast (n : Nat) : roundHalfEven n = n :=
  roundHalfEven_unique (by simp) (by simp)

/-- A number that is not further from the result rounds to it as well. -/
theorem roundHalfEven_of_nearer {p q : ℚ≥0}
    (nearer : |(p : ℚ) - roundHalfEven q| ≤ |(q : ℚ) - roundHalfEven q|) :
    roundHalfEven p = roundHalfEven q := by
  have error := roundHalfEven_error q
  apply roundHalfEven_unique (nearer.trans error)
  intro tie
  exact roundHalfEven_even (le_antisymm error (tie ▸ nearer))

/-- No natural number is nearer than the rounded one. -/
theorem roundHalfEven_nearest (q : ℚ≥0) (n : Nat) :
    |(roundHalfEven q : ℚ) - q| ≤ |(n : ℚ) - q| := by
  have error := roundHalfEven_error q
  rw [abs_sub_comm] at error
  by_cases same : roundHalfEven q = n
  · rw [same]
  · by_contra nearer
    apply same
    have closer : |(q : ℚ) - n| < 1 / 2 := by
      rw [abs_sub_comm]
      linarith
    exact roundHalfEven_unique closer.le fun tie => absurd tie closer.ne

/-! ### Formats -/

/-- The nonnegative numbers of a floating-point format, by the rounding to a nearest of them. -/
structure FloatFormat where
  round : ℚ≥0 → ℚ≥0
  round_round : ∀ q, round (round q) = round q
  nearest : ∀ q v, round v = v → |((round q : ℚ≥0) : ℚ) - q| ≤ |((v : ℚ≥0) : ℚ) - q|

/-- In a format with a zero a number is at most doubled. -/
theorem FloatFormat.round_le (format : FloatFormat) (zero : format.round 0 = 0) (q : ℚ≥0) :
    format.round q ≤ 2 * q := by
  have nearest := format.nearest q 0 zero
  rw [NNRat.coe_zero, zero_sub, abs_neg, abs_of_nonneg q.coe_nonneg] at nearest
  have high := (abs_le.mp nearest).2
  have twice : ((format.round q : ℚ≥0) : ℚ) ≤ 2 * q := by linarith
  exact_mod_cast twice

/-- The error of rounding a number up to `high`: `unit` of the number, and `tiny` where it underflows. -/
def FloatFormat.Precise (format : FloatFormat) (unit tiny high : ℚ≥0) : Prop :=
  ∀ q : ℚ≥0, q ≤ high → |((format.round q : ℚ≥0) : ℚ) - q| ≤ q * unit + tiny

theorem abs_div_sub {a q scale : ℚ} (pos : 0 < scale) :
    |a / scale - q| = |a - q * scale| / scale := by
  have scaled : a / scale - q = (a - q * scale) / scale := by
    field_simp
  rw [scaled, abs_div, abs_of_pos pos]

/-- The multiples of `1 / 2 ^ bits`: the numbers of a binary format between two powers of two. -/
def FloatFormat.fixedPoint (bits : Nat) : FloatFormat where
  round q := roundHalfEven (q * 2 ^ bits) / 2 ^ bits
  round_round q := by
    rw [div_mul_cancel₀ _ (by positivity), roundHalfEven_natCast]
  nearest q v member := by
    have pos : (0 : ℚ) < 2 ^ bits := by positivity
    have nearest := roundHalfEven_nearest (q * 2 ^ bits) (roundHalfEven (v * 2 ^ bits))
    rw [← member]
    push_cast at nearest ⊢
    rw [abs_div_sub pos, abs_div_sub pos]
    gcongr

/-- Numerators over the power of two are numbers of the format. -/
theorem FloatFormat.fixedPoint_round (bits n : Nat) :
    (FloatFormat.fixedPoint bits).round (n / 2 ^ bits) = n / 2 ^ bits := by
  have whole : (n : ℚ≥0) / 2 ^ bits * 2 ^ bits = n := div_mul_cancel₀ _ (by positivity)
  change (roundHalfEven ((n : ℚ≥0) / 2 ^ bits * 2 ^ bits) : ℚ≥0) / 2 ^ bits = _
  rw [whole, roundHalfEven_natCast]

/-- The nonnegative number that a decimal denotes. -/
def Decimal.nonneg (d : Decimal) : ℚ≥0 :=
  d.mant / 10 ^ d.places

theorem Decimal.nonneg_eq_value (d : Decimal) : (d.nonneg : ℚ) = d.value := by
  simp [Decimal.nonneg, Decimal.value]

/-- Printed, read back and printed again, a number of the format gives the same decimal. -/
theorem roundedTo_round (format : FloatFormat) (places : Nat) {v : ℚ≥0} (member : format.round v = v) :
    roundedTo places (format.round (roundedTo places v).nonneg) = roundedTo places v := by
  have pos : (0 : ℚ) < 10 ^ places := by positivity
  have nearest := format.nearest (roundedTo places v).nonneg v member
  generalize format.round (roundedTo places v).nonneg = read at nearest ⊢
  have nearer : |((read * 10 ^ places : ℚ≥0) : ℚ) - roundHalfEven (v * 10 ^ places)| ≤
      |((v * 10 ^ places : ℚ≥0) : ℚ) - roundHalfEven (v * 10 ^ places)| := by
    have decimal : ((roundedTo places v).nonneg : ℚ) = roundHalfEven (v * 10 ^ places) / 10 ^ places := by
      simp [roundedTo, Decimal.nonneg]
    rw [decimal, abs_sub_comm, abs_sub_comm (v : ℚ), abs_div_sub pos, abs_div_sub pos,
      div_le_div_iff_of_pos_right pos] at nearest
    push_cast
    rw [abs_sub_comm, abs_sub_comm ((v : ℚ) * 10 ^ places)]
    exact nearest
  have same := roundHalfEven_of_nearer nearer
  simp only [roundedTo, same]

/-! ### Reading and printing -/

/-- `%lf` of `fscanf`: the rounded numeral. -/
def FloatFormat.ofNumeral (format : FloatFormat) : Numeral → Numeral
  | .rational q => .rational (if q < 0 then -(format.round (-q).toNNRat) else format.round q.toNNRat)
  | .infinite negative => .infinite negative
  | .nan => .nan

/-- `%lf` of `printf`: six places. The sign of a zero is left out. -/
def printfLf : Numeral → Text
  | .rational q =>
      if q < 0 then '-' :: printfFixed 0 6 (-q).toNNRat else printfFixed 0 6 q.toNNRat
  | .infinite negative => if negative then "-inf".toList else "inf".toList
  | .nan => "nan".toList

theorem printfLf_nonneg (q : ℚ≥0) : printfLf (.rational q) = (roundedTo 6 q).text := by
  have nonneg : ¬ (q : ℚ) < 0 := not_lt.mpr q.coe_nonneg
  rw [printfLf, if_neg nonneg, NNRat.toNNRat_coe, printfFixed, List.leftpad, Nat.zero_sub]
  rfl

theorem FloatFormat.ofNumeral_nonneg (format : FloatFormat) (q : ℚ≥0) :
    format.ofNumeral (.rational q) = .rational (format.round q) := by
  have nonneg : ¬ (q : ℚ) < 0 := not_lt.mpr q.coe_nonneg
  rw [ofNumeral, if_neg nonneg, NNRat.toNNRat_coe]

end Numafac
