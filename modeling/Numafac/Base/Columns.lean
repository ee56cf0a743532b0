/-
Module: Numafac.Base.Columns
Layer: Base
Purpose: Numbers printed with a minimum width and read back from fixed character columns. While the
  printed number leaves the skipped columns blank the columns hold all of it (`printedColumns_fits`); as
  soon as it reaches into them the columns still read as a number, but as a smaller one
  (`printedColumns_cut`).
Trusted boundary: none
Main exports: printedColumns, printedColumns_fits, columns_of_cut, printedColumns_cut, length_whole_le_iff
-/
import Mathlib.Data.Nat.Cast.Order.Field
import Numafac.Base.Scan

namespace Numafac

/-- The columns from `first` to `width` of a number printed with `%{width}.{places}f`. -/
def printedColumns (first width places : Nat) (q : ℚ≥0) : Text :=
  ((printfFixed width places q).take width).drop (first - 1)

theorem length_roundedTo_text {places : Nat} (hplaces : 0 < places) (q : ℚ≥0) :
    (roundedTo places q).text.length = (roundedTo places q).whole.length + (places + 1) :=
  Decimal.length_text hplaces

/-- Blanks in front of the whole number. -/
theorem printedColumns_fits {first width places : Nat} {q : ℚ≥0}
    (fits : (roundedTo places q).text.length + (first - 1) ≤ width) :
    ∃ pad, (∀ c ∈ pad, c = ' ') ∧
      printedColumns first width places q = pad ++ (roundedTo places q).text := by
  refine ⟨List.replicate (width - (roundedTo places q).text.length - (first - 1)) ' ',
    fun c member => List.eq_of_mem_replicate member, ?_⟩
  have exactWidth : (printfFixed width places q).length = width := by
    simp [printfFixed]
    omega
  rw [printedColumns, List.take_of_length_le exactWidth.le, printfFixed, List.leftpad,
    List.drop_append_of_le_length (by simp; omega), List.drop_replicate]

/-- A number with at least two digits in front of the point. -/
theorem le_value_of_two_digits {d : Decimal} (two : 2 ≤ d.whole.length) :
    (10 : ℚ) ^ (d.whole.length - 1) ≤ d.value := by
  have large : 10 ^ (d.whole.length - 1) ≤ d.mant / 10 ^ d.places := by
    by_contra small
    have short := (length_natText_le_iff (n := d.mant / 10 ^ d.places) (k := d.whole.length - 1)
      (by omega)).mpr (by omega)
    change d.whole.length ≤ d.whole.length - 1 at short
    omega
  calc
    (10 : ℚ) ^ (d.whole.length - 1) = ((10 ^ (d.whole.length - 1) : Nat) : ℚ) := by push_cast; rfl
    _ ≤ ((d.mant / 10 ^ d.places : Nat) : ℚ) := by exact_mod_cast large
    _ ≤ (d.mant : ℚ) / ((10 ^ d.places : Nat) : ℚ) := Nat.cast_div_le
    _ = d.value := by simp [Decimal.value]

/-- Digits, perhaps with a point and more digits behind them, read as less than the next power of ten. -/
theorem reads_lt_power {whole tail : Text} {bound : Nat} (nonempty : whole ≠ [])
    (digits : ∀ c ∈ whole, c.isDigit = true) (short : whole.length ≤ bound)
    (shape : tail = [] ∨ ∃ fraction, tail = '.' :: fraction ∧ ∀ c ∈ fraction, c.isDigit = true) :
    ∃ value : ℚ, Reads (whole ++ tail) value ∧ value < 10 ^ bound := by
  have power : (10 : ℚ) ^ whole.length ≤ 10 ^ bound := by
    gcongr
    norm_num
  rcases shape with rfl | ⟨fraction, rfl, places⟩
  · refine ⟨digitsValue whole, ?_, ?_⟩
    · simpa using reads_digits nonempty digits
    · have small : (digitsValue whole : ℚ) < 10 ^ whole.length := by
        exact_mod_cast digitsValue_lt digits
      exact small.trans_le power
  · refine ⟨_, reads_digits_point (Or.inl nonempty) digits places, ?_⟩
    have all : ∀ c ∈ whole ++ fraction, c.isDigit = true := by
      intro c member
      exact (List.mem_append.mp member).elim (digits c) (places c)
    have small : (digitsValue (whole ++ fraction) : ℚ) <
        10 ^ whole.length * 10 ^ fraction.length := by
      have bound := digitsValue_lt all
      rw [List.length_append, pow_add] at bound
      exact_mod_cast bound
    rw [div_lt_iff₀ (by positivity)]
    calc
      (digitsValue (whole ++ fraction) : ℚ) < 10 ^ whole.length * 10 ^ fraction.length := small
      _ ≤ 10 ^ bound * 10 ^ fraction.length := by gcongr

/-- Columns in front of which a padded numeral starts hold a proper end of its whole part, perhaps with a
point and places behind it. -/
theorem columns_of_cut {first width : Nat} {whole fraction : Text} (skips : 2 ≤ first)
    (room : first + fraction.length < width)
    (cut : width < (whole ++ '.' :: fraction).length + (first - 1)) :
    ∃ front tail, ((List.leftpad width ' ' (whole ++ '.' :: fraction)).take width).drop (first - 1) =
        front ++ tail ∧ front ≠ [] ∧ (∀ c ∈ front, c ∈ whole) ∧ front.length ≤ whole.length - 1 ∧
      (tail = [] ∨ ∃ places, tail = '.' :: places ∧ ∀ c ∈ places, c ∈ fraction) := by
  have length : (whole ++ '.' :: fraction).length = whole.length + (fraction.length + 1) := by simp
  rw [List.leftpad]
  by_cases fits : (whole ++ '.' :: fraction).length ≤ width
  · -- the number has blanks in front, but fewer than the columns skipped
    generalize hpad : width - (whole ++ '.' :: fraction).length = pad at *
    refine ⟨whole.drop (first - 1 - pad), '.' :: fraction, ?_, ?_, ?_, ?_, ?_⟩
    · rw [List.take_of_length_le (by simp; omega), List.drop_append, List.drop_eq_nil_of_le
        (by simp; omega), List.length_replicate, List.nil_append,
        List.drop_append_of_le_length (by omega)]
    · exact List.ne_nil_of_length_pos (by simp; omega)
    · exact fun c => List.mem_of_mem_drop
    · simp
      omega
    · exact Or.inr ⟨fraction, rfl, fun c member => member⟩
  · have noPad : width - (whole ++ '.' :: fraction).length = 0 := by omega
    rw [noPad, List.replicate_zero, List.nil_append]
    by_cases point : width ≤ whole.length
    · -- the columns end inside the whole part
      refine ⟨(whole.take width).drop (first - 1), [], ?_, ?_, ?_, ?_, Or.inl rfl⟩
      · rw [List.take_append_of_le_length point, List.append_nil]
      · exact List.ne_nil_of_length_pos (by simp; omega)
      · exact fun c member => List.mem_of_mem_take (List.mem_of_mem_drop member)
      · simp
        omega
    · -- the columns end behind the point
      refine ⟨whole.drop (first - 1), '.' :: fraction.take (width - whole.length - 1), ?_, ?_, ?_, ?_, ?_⟩
      · obtain ⟨later, hlater⟩ : ∃ later, width - whole.length = later + 1 :=
          ⟨width - whole.length - 1, by omega⟩
        rw [List.take_append, List.take_of_length_le (by omega), hlater, List.take_succ_cons,
          List.drop_append_of_le_length (by omega), Nat.add_sub_cancel]
      · exact List.ne_nil_of_length_pos (by simp; omega)
      · exact fun c => List.mem_of_mem_drop
      · simp
        omega
      · exact Or.inr ⟨_, rfl, fun c => List.mem_of_mem_take⟩

/-- Once the number reaches into the skipped columns, its leading digits are lost. -/
theorem printedColumns_cut {first width places : Nat} {q : ℚ≥0} (hplaces : 0 < places)
    (skips : 2 ≤ first) (room : first + places < width)
    (cut : width < (roundedTo places q).text.length + (first - 1)) :
    ∃ value, Reads (printedColumns first width places q) value ∧
      value < (roundedTo places q).value := by
  have length := length_roundedTo_text hplaces q
  have large := le_value_of_two_digits (show 2 ≤ (roundedTo places q).whole.length by omega)
  have textShape : (roundedTo places q).text = (roundedTo places q).whole ++
      '.' :: fixedDigits places (roundedTo places q).mant := by
    rw [Decimal.text, Decimal.fraction_of_pos hplaces]
    rfl
  rw [textShape] at cut
  have roomFraction : first + (fixedDigits places (roundedTo places q).mant).length < width := by
    rwa [length_fixedDigits]
  obtain ⟨front, tail, shape, nonempty, inside, short, ending⟩ := columns_of_cut skips roomFraction cut
  have ending' : tail = [] ∨ ∃ places, tail = '.' :: places ∧ ∀ c ∈ places, c.isDigit = true := by
    rcases ending with rfl | ⟨places, rfl, within⟩
    · exact Or.inl rfl
    · exact Or.inr ⟨places, rfl, fun c member => isDigit_of_mem_fixedDigits (within c member)⟩
  obtain ⟨value, reads, below⟩ := reads_lt_power nonempty
    (fun c member => isDigit_of_mem_natText (inside c member)) short ending'
  refine ⟨value, ?_, below.trans_le large⟩
  rw [printedColumns, printfFixed, textShape, shape]
  exact reads

/-- How many digits are printed in front of the point. -/
theorem length_whole_le_iff {k places : Nat} (hk : 0 < k) (q : ℚ≥0) :
    (roundedTo places q).whole.length ≤ k ↔ q + 1 / (2 * 10 ^ places) < 10 ^ k := by
  have even : (10 ^ k * 10 ^ places) % 2 = 0 := by
    obtain ⟨k, rfl⟩ : ∃ k', k = k' + 1 := ⟨k - 1, by omega⟩
    rw [pow_succ, Nat.mul_assoc, Nat.mul_mod, Nat.mul_mod 10]
    simp
  have pos : (0 : ℚ≥0) < 2 * 10 ^ places := by positivity
  have scaled : (q + 1 / (2 * 10 ^ places)) * (2 * 10 ^ places) = 2 * (q * 10 ^ places) + 1 := by
    field_simp
  calc
    (roundedTo places q).whole.length ≤ k
      ↔ roundHalfEven (q * 10 ^ places) / 10 ^ places < 10 ^ k := length_natText_le_iff hk
    _ ↔ roundHalfEven (q * 10 ^ places) < 10 ^ k * 10 ^ places :=
      Nat.div_lt_iff_lt_mul (by positivity)
    _ ↔ 2 * (q * 10 ^ places) + 1 < 2 * ((10 ^ k * 10 ^ places : Nat) : ℚ≥0) :=
      roundHalfEven_lt_iff even
    _ ↔ (q + 1 / (2 * 10 ^ places)) * (2 * 10 ^ places) < 10 ^ k * (2 * 10 ^ places) := by
      rw [scaled, mul_left_comm (10 ^ k : ℚ≥0)]
      push_cast
      rfl
    _ ↔ q + 1 / (2 * 10 ^ places) < 10 ^ k := mul_lt_mul_iff_left₀ pos

end Numafac
