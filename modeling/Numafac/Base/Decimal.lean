/-
Module: Numafac.Base.Decimal
Layer: Base
Purpose: Decimal numerals as the C library and `bc` print them: the digits of a natural number, a number
  with a fixed count of places, `printf("%w.pf")`, and division truncated at a scale. A `Decimal` is the
  mantissa and the number of places, so its text and its value are both functions of it.
Trusted boundary: none
Main exports: natText, natText_injective, length_natText_le_iff, Decimal, Decimal.text, Decimal.value,
  roundHalfEven, roundHalfEven_cases, roundHalfEven_lt_iff, printfFixed, Decimal.divide
-/
import Mathlib.Data.NNRat.Floor
import Mathlib.Data.Rat.Floor
import Mathlib.Tactic.Ring
import Mathlib.Tactic.Linarith
import Mathlib.Tactic.FieldSimp
import Mathlib.Tactic.Positivity
import Numafac.Base.Text

namespace Numafac

/-! ### Digits of natural numbers -/

/-- `%i` of a natural number: its decimal digits without leading zeros. -/
def natText (n : Nat) : Text :=
  Nat.toDigits 10 n

/-- The number that a run of decimal digits denotes. -/
def digitsValue (digits : Text) : Nat :=
  Nat.ofDigitChars 10 digits 0

@[simp] theorem digitsValue_natText (n : Nat) : digitsValue (natText n) = n :=
  Nat.ofDigitChars_ten_toDigits

theorem natText_injective : Function.Injective natText := by
  intro a b same
  calc
    a = digitsValue (natText a) := (digitsValue_natText a).symm
    _ = digitsValue (natText b) := by rw [same]
    _ = b := digitsValue_natText b

theorem natText_ne_nil (n : Nat) : natText n ≠ [] :=
  Nat.toDigits_ne_nil

theorem isDigit_of_mem_natText {n : Nat} {c : Char} (member : c ∈ natText n) : c.isDigit = true :=
  Nat.isDigit_of_mem_toDigits (by decide) (by decide) member

theorem notMem_natText {c : Char} (other : c.isDigit = false) (n : Nat) : c ∉ natText n := by
  intro member
  rw [isDigit_of_mem_natText member] at other
  cases other

/-- A number is a word wherever digits do not separate. -/
theorem isWord_natText {sep : Char → Bool} (digits : ∀ c, c.isDigit = true → sep c = false) (n : Nat) :
    IsWord sep (natText n) :=
  ⟨natText_ne_nil n, fun c member => digits c (isDigit_of_mem_natText member)⟩

theorem length_natText_le_iff {n k : Nat} (hk : 0 < k) : (natText n).length ≤ k ↔ n < 10 ^ k :=
  Nat.length_toDigits_le_iff (by decide) hk

theorem isSpace_of_isDigit {c : Char} (digit : c.isDigit = true) : isSpace c = false := by
  simp only [Char.isDigit, Bool.and_eq_true, decide_eq_true_eq, isSpace, Bool.or_eq_false_iff,
    beq_eq_false_iff_ne, Bool.and_eq_false_iff, decide_eq_false_iff_not, Char.toNat,
    UInt32.le_iff_toNat_le] at digit ⊢
  obtain ⟨low, -⟩ := digit
  change 48 ≤ _ at low
  omega

/-- The last `places` decimal digits of `n`, leading zeros included. -/
def fixedDigits : Nat → Nat → Text
  | 0, _ => []
  | places + 1, n => fixedDigits places (n / 10) ++ [Nat.digitChar (n % 10)]

@[simp] theorem length_fixedDigits (places n : Nat) : (fixedDigits places n).length = places := by
  induction places generalizing n with
  | zero => rfl
  | succ places ih => simp [fixedDigits, ih]

theorem isDigit_of_mem_fixedDigits {places n : Nat} {c : Char} (member : c ∈ fixedDigits places n) :
    c.isDigit = true := by
  induction places generalizing n with
  | zero => simp [fixedDigits] at member
  | succ places ih =>
      rcases List.mem_append.mp member with front | last
      · exact ih front
      · rw [List.mem_singleton] at last
        subst last
        have small : n % 10 < 10 := Nat.mod_lt _ (by decide)
        apply Nat.isDigit_of_mem_toDigits (n := n % 10) (b := 10) (by decide) (by decide)
        rw [Nat.toDigits_of_lt_base small]
        exact List.mem_singleton.mpr rfl

theorem ofDigitChars_fixedDigits (places n start : Nat) :
    Nat.ofDigitChars 10 (fixedDigits places n) start = 10 ^ places * start + n % 10 ^ places := by
  induction places generalizing n with
  | zero => simp [fixedDigits, Nat.mod_one]
  | succ places ih =>
      have small : n % 10 < 10 := Nat.mod_lt _ (by decide)
      rw [fixedDigits, Nat.ofDigitChars_append, ih,
        Nat.ofDigitChars_cons_digitChar_of_lt_ten small, Nat.ofDigitChars_nil, pow_succ',
        Nat.mod_mul (x := n) (a := 10) (b := 10 ^ places)]
      ring

/-- So many digits denote a number below that power of ten. -/
theorem digitsValue_lt {digits : Text} (allDigits : ∀ c ∈ digits, c.isDigit = true) :
    digitsValue digits < 10 ^ digits.length := by
  induction digits with
  | nil => simp [digitsValue]
  | cons c digits ih =>
      have rest := ih fun d member => allDigits d (by simp [member])
      have small : c.toNat - '0'.toNat < 10 := by
        have digit := allDigits c (by simp)
        simp only [Char.isDigit, Bool.and_eq_true, decide_eq_true_eq, UInt32.le_iff_toNat_le] at digit
        obtain ⟨-, high⟩ := digit
        change c.toNat ≤ 57 at high
        change c.toNat - 48 < 10
        omega
      rw [digitsValue, Nat.ofDigitChars_cons, Nat.ofDigitChars_eq_ofDigitChars_zero]
      rw [digitsValue] at rest
      have scaled : 10 ^ digits.length * (10 * 0 + (c.toNat - '0'.toNat)) ≤
          10 ^ digits.length * 9 := Nat.mul_le_mul_left _ (by omega)
      rw [List.length_cons, pow_succ]
      omega

/-- Digits are at least as many as the number they denote needs. -/
theorem length_natText_digitsValue_le {digits : Text} (nonempty : digits ≠ [])
    (allDigits : ∀ c ∈ digits, c.isDigit = true) :
    (natText (digitsValue digits)).length ≤ digits.length :=
  (length_natText_le_iff (List.length_pos_of_ne_nil nonempty)).mpr (digitsValue_lt allDigits)

/-! ### Decimals with a fixed number of places -/

/-- A nonnegative decimal numeral: `mant / 10 ^ places`, written with exactly `places` decimals. -/
structure Decimal where
  mant : Nat
  places : Nat
deriving DecidableEq, Repr

namespace Decimal

/-- The number denoted. -/
def value (d : Decimal) : ℚ :=
  d.mant / 10 ^ d.places

/-- The digits in front of the decimal point. -/
def whole (d : Decimal) : Text :=
  natText (d.mant / 10 ^ d.places)

/-- The decimal point and the digits after it; nothing when there are no places. -/
def fraction (d : Decimal) : Text :=
  if d.places = 0 then [] else '.' :: fixedDigits d.places d.mant

/-- `%.{places}f`. -/
def text (d : Decimal) : Text :=
  d.whole ++ d.fraction

theorem value_nonneg (d : Decimal) : 0 ≤ d.value := by
  unfold value
  positivity

theorem value_pos {d : Decimal} (h : 0 < d.mant) : 0 < d.value := by
  unfold value
  positivity

theorem fraction_of_pos {d : Decimal} (h : 0 < d.places) :
    d.fraction = '.' :: fixedDigits d.places d.mant := by
  simp [fraction, Nat.ne_of_gt h]

theorem mem_fraction {d : Decimal} {c : Char} (member : c ∈ d.fraction) :
    c = '.' ∨ c.isDigit = true := by
  unfold fraction at member
  split at member
  · simp at member
  · rcases List.mem_cons.mp member with point | digit
    · exact Or.inl point
    · exact Or.inr (isDigit_of_mem_fixedDigits digit)

theorem mem_text {d : Decimal} {c : Char} (member : c ∈ d.text) : c = '.' ∨ c.isDigit = true := by
  rcases List.mem_append.mp member with front | back
  · exact Or.inr (isDigit_of_mem_natText front)
  · exact mem_fraction back

theorem text_ne_nil (d : Decimal) : d.text ≠ [] := by
  simp [text, whole, natText_ne_nil]

theorem isSpace_of_mem_text {d : Decimal} {c : Char} (member : c ∈ d.text) : isSpace c = false := by
  rcases mem_text member with rfl | digit
  · rfl
  · exact isSpace_of_isDigit digit

theorem isWord_text (d : Decimal) : IsWord isSpace d.text :=
  ⟨d.text_ne_nil, fun _ => isSpace_of_mem_text⟩

theorem length_text {d : Decimal} (h : 0 < d.places) :
    d.text.length = d.whole.length + (d.places + 1) := by
  simp [text, fraction_of_pos h]

/-- `a / b` truncated after `scale` places, the result of `bc` at that scale. -/
def divide (scale : Nat) (a b : Decimal) : Decimal :=
  { mant := a.mant * 10 ^ b.places * 10 ^ scale / (b.mant * 10 ^ a.places)
    places := scale }

end Decimal

/-- The largest multiple of `1 / 10 ^ scale` that is at most `q`. -/
def truncateAt (scale : Nat) (q : ℚ) : ℚ :=
  ⌊q * 10 ^ scale⌋ / 10 ^ scale

theorem truncateAt_mono {scale : Nat} {p q : ℚ} (h : p ≤ q) :
    truncateAt scale p ≤ truncateAt scale q := by
  unfold truncateAt
  have scaled : p * 10 ^ scale ≤ q * 10 ^ scale := by gcongr
  have floors : (⌊p * 10 ^ scale⌋ : ℚ) ≤ ⌊q * 10 ^ scale⌋ := by
    exact_mod_cast Int.floor_mono scaled
  gcongr

theorem truncateAt_one (scale : Nat) : truncateAt scale 1 = 1 := by
  have whole : ((10 : ℚ) ^ scale) = ((10 ^ scale : ℤ) : ℚ) := by push_cast; rfl
  have pos : (0 : ℚ) < 10 ^ scale := by positivity
  unfold truncateAt
  rw [one_mul, whole, Int.floor_intCast, ← whole, div_self pos.ne']

/-- `Decimal.divide` denotes the truncated quotient. -/
theorem Decimal.value_divide (scale : Nat) (a b : Decimal) :
    (a.divide scale b).value = truncateAt scale (a.value / b.value) := by
  have quotient :
      a.value / b.value * 10 ^ scale =
        ((a.mant * 10 ^ b.places * 10 ^ scale : Nat) : ℚ) /
          ((b.mant * 10 ^ a.places : Nat) : ℚ) := by
    unfold Decimal.value
    push_cast
    rcases Nat.eq_zero_or_pos b.mant with zero | pos
    · simp [zero]
    · field_simp
  unfold truncateAt
  rw [quotient]
  have floored := Rat.floor_natCast_div_natCast
    (a.mant * 10 ^ b.places * 10 ^ scale) (b.mant * 10 ^ a.places)
  rw [floored]
  simp only [Decimal.value, Decimal.divide]
  push_cast
  rfl

/-! ### Rounded printing -/

-- Named, so that the literals of later definitions are the same terms in every module.
instance atLeastTwo_two : Nat.AtLeastTwo 2 := ⟨Nat.le_refl 2⟩

instance atLeastTwo_ten : Nat.AtLeastTwo 10 := ⟨by decide⟩

/-- Round to the nearest natural number, ties to even, the rounding `printf` uses. -/
def roundHalfEven (q : ℚ≥0) : Nat :=
  let below := ⌊q⌋₊
  if 2 * q < 2 * below + 1 then below
  else if 2 * below + 1 < 2 * q then below + 1
  else if below % 2 = 0 then below else below + 1

/-- The three cases of the rounding, over the rationals. -/
theorem roundHalfEven_cases (q : ℚ≥0) : ∃ below : Nat, (below : ℚ) ≤ q ∧ (q : ℚ) < below + 1 ∧
    (2 * (q : ℚ) < 2 * below + 1 ∧ roundHalfEven q = below ∨
      2 * (below : ℚ) + 1 < 2 * q ∧ roundHalfEven q = below + 1 ∨
      2 * (q : ℚ) = 2 * below + 1 ∧ roundHalfEven q % 2 = 0 ∧
        (roundHalfEven q = below ∨ roundHalfEven q = below + 1)) := by
  have low : ((⌊q⌋₊ : ℕ) : ℚ≥0) ≤ q := Nat.floor_le zero_le
  have high : q < (⌊q⌋₊ : ℕ) + 1 := Nat.lt_floor_add_one q
  refine ⟨⌊q⌋₊, by exact_mod_cast low, by exact_mod_cast high, ?_⟩
  unfold roundHalfEven
  generalize ⌊q⌋₊ = below at *
  have first : (2 * q < 2 * (below : ℚ≥0) + 1) ↔ (2 * (q : ℚ) < 2 * below + 1) := by
    exact_mod_cast Iff.rfl
  have second : (2 * (below : ℚ≥0) + 1 < 2 * q) ↔ (2 * (below : ℚ) + 1 < 2 * q) := by
    exact_mod_cast Iff.rfl
  simp only [first, second]
  by_cases down : 2 * (q : ℚ) < 2 * below + 1
  · exact Or.inl ⟨down, if_pos down⟩
  · rw [if_neg down]
    by_cases up : 2 * (below : ℚ) + 1 < 2 * q
    · exact Or.inr (Or.inl ⟨up, if_pos up⟩)
    · rw [if_neg up]
      refine Or.inr (Or.inr ⟨le_antisymm (not_lt.mp up) (not_lt.mp down), ?_, ?_⟩)
      · split <;> omega
      · split <;> omega

/-- Rounding stays below an even bound exactly below the tie in front of it. -/
theorem roundHalfEven_lt_iff {q : ℚ≥0} {bound : Nat} (even : bound % 2 = 0) :
    roundHalfEven q < bound ↔ 2 * q + 1 < 2 * bound := by
  have goalRat : (2 * q + 1 < 2 * (bound : ℚ≥0)) ↔ (2 * (q : ℚ) + 1 < 2 * bound) := by
    exact_mod_cast Iff.rfl
  rw [goalRat]
  obtain ⟨below, low, high, ⟨down, same⟩ | ⟨up, same⟩ | ⟨tie, even', neighbour⟩⟩ := roundHalfEven_cases q
  · -- the fraction is below one half, so the number rounds down
    rw [same]
    constructor
    · intro h
      have step : (below : ℚ) + 1 ≤ bound := by exact_mod_cast h
      linarith
    · intro h
      have step : (below : ℚ) < bound := by linarith
      exact_mod_cast step
  · -- above one half the number rounds up
    rw [same]
    constructor
    · intro h
      have step : (below : ℚ) + 1 + 1 ≤ bound := by exact_mod_cast h
      linarith
    · intro h
      have step : (below : ℚ) + 1 < bound := by linarith
      exact_mod_cast step
  · -- a tie: the even neighbour decides, and `bound` itself is even
    have cast : (2 * (below : ℚ) + 1 + 1 < 2 * bound) ↔ below + 1 < bound := by
      constructor
      · intro h
        have step : (below : ℚ) + 1 < bound := by linarith
        exact_mod_cast step
      · intro h
        have step : (below : ℚ) + 1 < bound := by exact_mod_cast h
        linarith
    rw [tie, cast]
    omega

/-- The decimal that `%.{places}f` prints for `q`. -/
def roundedTo (places : Nat) (q : ℚ≥0) : Decimal :=
  { mant := roundHalfEven (q * 10 ^ places), places := places }

/-- `%{width}.{places}f`: the rounded decimal, blanks in front up to `width` characters. -/
def printfFixed (width places : Nat) (q : ℚ≥0) : Text :=
  List.leftpad width ' ' (roundedTo places q).text

end Numafac
