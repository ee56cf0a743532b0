/-
Module: Numafac.Base.Scan
Layer: Base
Purpose: The conversion `%f` of `fscanf`, as an exact reading of the numeral on the stream: leading
  white space, a sign, decimal and hexadecimal digits with point and exponent, and the names of infinity
  and NaN. A failed conversion consumes what it had to read and stores nothing. The word lemmas of
  `Base/Text` turn a stream of printed numerals into the list of values that repeated calls store
  (`iterate_fscanfFloat`).
Trusted boundary: the scanner follows the GNU C library; rounding to the target format is left to the
  caller, which applies it to the exact value.
Main exports: Numeral, scanFloat, fscanfFloat, Reads, reads_text, reads_fraction, iterate_fscanfFloat
-/
import Mathlib.Logic.Function.Iterate
import Numafac.Base.Decimal

namespace Numafac

/-- What `%f` reads, before it is rounded to the target format. -/
inductive Numeral where
  | rational (q : ℚ)
  | infinite (negative : Bool)
  | nan
deriving DecidableEq, Repr

/-- The digits and the exponent mark of a numeral notation. -/
structure Radix where
  base : Nat
  isDigit : Char → Bool
  digitValue : Char → Nat
  exponentMark : Char
  exponentBase : Nat

def decimalRadix : Radix where
  base := 10
  isDigit := Char.isDigit
  digitValue := fun c => c.toNat - '0'.toNat
  exponentMark := 'e'
  exponentBase := 10

def hexadecimalRadix : Radix where
  base := 16
  isDigit := fun c => c.isDigit || ('a' ≤ c.toLower && c.toLower ≤ 'f')
  digitValue := fun c => if c.isDigit then c.toNat - '0'.toNat else c.toLower.toNat - 'a'.toNat + 10
  exponentMark := 'p'
  exponentBase := 2

def scanSign : Text → Bool × Text
  | '-' :: text => (true, text)
  | '+' :: text => (false, text)
  | text => (false, text)

/-- Digits, a point, more digits: the mantissa and its number of places, or nothing without a digit. -/
def scanDigits (radix : Radix) (text : Text) : Option (Nat × Nat) × Text :=
  let whole := text.takeWhile radix.isDigit
  let rest := text.dropWhile radix.isDigit
  let fraction := match rest with
    | '.' :: tail => tail.takeWhile radix.isDigit
    | _ => []
  let rest := match rest with
    | '.' :: tail => tail.dropWhile radix.isDigit
    | _ => rest
  if whole = [] ∧ fraction = [] then (none, rest)
  else
    (some ((whole ++ fraction).foldl (fun value c => radix.base * value + radix.digitValue c) 0,
      fraction.length), rest)

/-- An exponent, zero when there is none. -/
def scanExponent (radix : Radix) : Text → Int × Text
  | [] => (0, [])
  | c :: text =>
      if c.toLower = radix.exponentMark then
        let (negative, text) := scanSign text
        let size : Int := digitsValue (text.takeWhile Char.isDigit)
        (if negative then -size else size, text.dropWhile Char.isDigit)
      else (0, c :: text)

/-- An unsigned numeral in one notation. -/
def scanNumber (radix : Radix) (text : Text) : Option ℚ × Text :=
  match scanDigits radix text with
  | (none, rest) => (none, rest)
  | (some (mant, places), rest) =>
      let (exponent, rest) := scanExponent radix rest
      (some (mant / radix.base ^ places * (radix.exponentBase : ℚ) ^ exponent), rest)

/-- Consume a name in either case; the flag says whether all of it was there. The first character that does
not fit is consumed too. -/
def consumeName : Text → Text → Bool × Text
  | [], text => (true, text)
  | _ :: _, [] => (false, [])
  | letter :: name, c :: text =>
      if c.toLower = letter then consumeName name text else (false, text)

/-- `inf` or `infinity`; after `inf` the letter `i` commits to the long name. -/
def scanInfinity (negative : Bool) (text : Text) : Option Numeral × Text :=
  match consumeName ['i', 'n', 'f'] text with
  | (false, rest) => (none, rest)
  | (true, rest) =>
      if (rest.head?.map Char.toLower) = some 'i' then
        match consumeName ['i', 'n', 'i', 't', 'y'] rest with
        | (false, rest) => (none, rest)
        | (true, rest) => (some (.infinite negative), rest)
      else (some (.infinite negative), rest)

def scanNan (text : Text) : Option Numeral × Text :=
  match consumeName ['n', 'a', 'n'] text with
  | (false, rest) => (none, rest)
  | (true, rest) => (some .nan, rest)

/-- An unsigned decimal or, behind `0x`, hexadecimal numeral. -/
def scanUnsigned (text : Text) : Option ℚ × Text :=
  match text with
  | '0' :: mark :: tail =>
      if mark.toLower = 'x' then scanNumber hexadecimalRadix tail else scanNumber decimalRadix text
  | _ => scanNumber decimalRadix text

/-- One conversion `%f`: the value read, if any, and the rest of the stream. -/
def scanFloat (stream : Text) : Option Numeral × Text :=
  let (negative, text) := scanSign (stream.dropWhile isSpace)
  match text.head?.map Char.toLower with
  | some 'n' => scanNan text
  | some 'i' => scanInfinity negative text
  | _ =>
      match scanUnsigned text with
      | (none, rest) => (none, rest)
      | (some q, rest) => (some (.rational (if negative then -q else q)), rest)

/-- `fscanf (fp, "%f", &value)`: the variable keeps its value when the conversion fails. -/
def fscanfFloat : Numeral × Text → Numeral × Text
  | (value, stream) =>
      match scanFloat stream with
      | (some read, rest) => (read, rest)
      | (none, rest) => (value, rest)

/-! ### Printed decimals scan to their value -/

/-- The word `word` is a numeral: wherever it is followed by white space or by the end of the stream,
`%f` reads it whole and stores `q`. -/
def Reads (word : Text) (q : ℚ) : Prop :=
  IsWord isSpace word ∧
    ∀ rest : Text, (∀ c, rest.head? = some c → isSpace c = true) →
      scanFloat (word ++ rest) = (some (.rational q), rest)

theorem reads_unique {word : Text} {p q : ℚ} (first : Reads word p) (second : Reads word q) :
    p = q := by
  have stop : ∀ c, ([] : Text).head? = some c → isSpace c = true := by simp
  have same := (first.2 [] stop).symm.trans (second.2 [] stop)
  simpa using same

theorem takeWhile_stop {p : Char → Bool} {front rest : Text} (inside : ∀ c ∈ front, p c = true)
    (stops : ∀ c, rest.head? = some c → p c = false) : (front ++ rest).takeWhile p = front := by
  rw [List.takeWhile_append_of_pos inside]
  cases rest with
  | nil => simp
  | cons c rest => simp [stops c rfl]

theorem dropWhile_stop {p : Char → Bool} {front rest : Text} (inside : ∀ c ∈ front, p c = true)
    (stops : ∀ c, rest.head? = some c → p c = false) : (front ++ rest).dropWhile p = rest := by
  rw [List.dropWhile_append_of_pos inside]
  cases rest with
  | nil => simp
  | cons c rest => simp [stops c rfl]

theorem isDigit_of_isSpace {c : Char} (space : isSpace c = true) : c.isDigit = false := by
  cases digit : c.isDigit with
  | false => rfl
  | true => simp [isSpace_of_isDigit digit] at space

/-- Digits alone. -/
theorem scanDigits_whole {whole rest : Text} (nonempty : whole ≠ [])
    (digits : ∀ c ∈ whole, c.isDigit = true)
    (stops : ∀ c, rest.head? = some c → c.isDigit = false ∧ c ≠ '.') :
    scanDigits decimalRadix (whole ++ rest) = (some (digitsValue whole, 0), rest) := by
  have taken : (whole ++ rest).takeWhile decimalRadix.isDigit = whole :=
    takeWhile_stop digits fun c first => (stops c first).1
  have dropped : (whole ++ rest).dropWhile decimalRadix.isDigit = rest :=
    dropWhile_stop digits fun c first => (stops c first).1
  unfold scanDigits
  rw [taken, dropped]
  cases rest with
  | nil => simp [nonempty, digitsValue, Nat.ofDigitChars, decimalRadix]
  | cons c rest =>
      have notPoint : c ≠ '.' := (stops c rfl).2
      simp [nonempty, notPoint, digitsValue, Nat.ofDigitChars, decimalRadix]

/-- Digits around a point, possibly none on one side. -/
theorem scanDigits_point {whole fraction rest : Text} (nonempty : whole ≠ [] ∨ fraction ≠ [])
    (digits : ∀ c ∈ whole, c.isDigit = true) (places : ∀ c ∈ fraction, c.isDigit = true)
    (stops : ∀ c, rest.head? = some c → c.isDigit = false) :
    scanDigits decimalRadix (whole ++ '.' :: (fraction ++ rest)) =
      (some (digitsValue (whole ++ fraction), fraction.length), rest) := by
  have atPoint : ∀ c, ('.' :: (fraction ++ rest)).head? = some c → c.isDigit = false := by
    intro c first
    simp only [List.head?_cons, Option.some.injEq] at first
    subst first
    rfl
  have taken : (whole ++ '.' :: (fraction ++ rest)).takeWhile decimalRadix.isDigit = whole :=
    takeWhile_stop digits atPoint
  have dropped :
      (whole ++ '.' :: (fraction ++ rest)).dropWhile decimalRadix.isDigit =
        '.' :: (fraction ++ rest) :=
    dropWhile_stop digits atPoint
  have takenAfter : (fraction ++ rest).takeWhile decimalRadix.isDigit = fraction :=
    takeWhile_stop places stops
  have droppedAfter : (fraction ++ rest).dropWhile decimalRadix.isDigit = rest :=
    dropWhile_stop places stops
  unfold scanDigits
  simp only [taken, dropped, takenAfter, droppedAfter]
  rw [if_neg (by rintro ⟨none, noPlaces⟩; exact nonempty.elim (· none) (· noPlaces))]
  simp [digitsValue, Nat.ofDigitChars, decimalRadix]

/-- A numeral text is made of digits and points only, as every printed decimal is. -/
def NumeralText (word : Text) : Prop :=
  word ≠ [] ∧ ∀ c ∈ word, c = '.' ∨ c.isDigit = true

/-- Characters below the capital letters have no other case. -/
theorem toLower_of_lt {c : Char} (small : c.toNat < 65) : c.toLower = c := by
  unfold Char.toLower
  rw [dif_neg]
  rintro ⟨low, -⟩
  have bound : 65 ≤ c.val.toNat := UInt32.le_iff_toNat_le.mp low
  change c.val.toNat < 65 at small
  omega

theorem toNat_lt_of_isSpace {c : Char} (space : isSpace c = true) : c.toNat < 65 := by
  simp only [isSpace, Bool.or_eq_true, beq_iff_eq, Bool.and_eq_true, decide_eq_true_eq] at space
  omega

theorem toNat_lt_of_numeral {c : Char} (numeral : c = '.' ∨ c.isDigit = true) : c.toNat < 65 := by
  rcases numeral with rfl | digit
  · decide
  · simp only [Char.isDigit, Bool.and_eq_true, decide_eq_true_eq, UInt32.le_iff_toNat_le] at digit
    obtain ⟨-, high⟩ := digit
    change c.val.toNat ≤ 57 at high
    change c.val.toNat < 65
    omega

theorem toLower_ne_of_lt {c letter : Char} (small : c.toNat < 65) (large : 65 ≤ letter.toNat) :
    c.toLower ≠ letter := by
  rw [toLower_of_lt small]
  rintro rfl
  omega

theorem isSpace_of_numeral {c : Char} (numeral : c = '.' ∨ c.isDigit = true) :
    isSpace c = false := by
  rcases numeral with rfl | digit
  · rfl
  · exact isSpace_of_isDigit digit

theorem NumeralText.isWord {word : Text} (h : NumeralText word) : IsWord isSpace word :=
  ⟨h.1, fun c member => isSpace_of_numeral (h.2 c member)⟩

/-- White space ends the exponent part before it starts. -/
theorem scanExponent_stop {rest : Text} (stops : ∀ c, rest.head? = some c → isSpace c = true) :
    scanExponent decimalRadix rest = (0, rest) := by
  cases rest with
  | nil => rfl
  | cons c rest =>
      have other : c.toLower ≠ 'e' :=
        toLower_ne_of_lt (toNat_lt_of_isSpace (stops c rfl)) (by decide)
      simp [scanExponent, decimalRadix, other]

/-- Behind a numeral text no hexadecimal prefix can start. -/
theorem scanUnsigned_numeral {word rest : Text} (h : NumeralText word)
    (stops : ∀ c, rest.head? = some c → isSpace c = true) :
    scanUnsigned (word ++ rest) = scanNumber decimalRadix (word ++ rest) := by
  have small : ∀ c ∈ word ++ rest.take 1, c.toNat < 65 := by
    intro c member
    rcases List.mem_append.mp member with inWord | inRest
    · exact toNat_lt_of_numeral (h.2 c inWord)
    · cases rest with
      | nil => simp at inRest
      | cons d rest =>
          simp only [List.take_succ_cons, List.take_zero, List.mem_singleton] at inRest
          exact inRest ▸ toNat_lt_of_isSpace (stops d rfl)
  unfold scanUnsigned
  split
  · rename_i mark tail shape
    have second : mark ∈ word ++ rest.take 1 := by
      obtain ⟨nonempty, -⟩ := h
      match word, nonempty with
      | [c], _ =>
          cases rest with
          | nil => simp at shape
          | cons d rest =>
              simp only [List.cons_append, List.nil_append, List.cons.injEq] at shape
              simp [shape.2.1]
      | c :: d :: word, _ =>
          simp only [List.cons_append, List.cons.injEq] at shape
          simp [shape.2.1]
    have notMark : mark.toLower ≠ 'x' := toLower_ne_of_lt (small mark second) (by decide)
    rw [if_neg notMark, shape]
  · rfl

/-- A numeral text is read as an unsigned decimal numeral. -/
theorem scanFloat_numeral {word rest : Text} {mant places : Nat} (h : NumeralText word)
    (stops : ∀ c, rest.head? = some c → isSpace c = true)
    (digits : scanDigits decimalRadix (word ++ rest) = (some (mant, places), rest)) :
    scanFloat (word ++ rest) = (some (.rational (mant / 10 ^ places)), rest) := by
  obtain ⟨c, tail, shape⟩ := List.exists_cons_of_ne_nil h.1
  have numeral : c = '.' ∨ c.isDigit = true := h.2 c (by simp [shape])
  have small : c.toNat < 65 := toNat_lt_of_numeral numeral
  have unspaced : (word ++ rest).dropWhile isSpace = word ++ rest := by
    simp [shape, isSpace_of_numeral numeral]
  have unsigned : scanSign (word ++ rest) = (false, word ++ rest) := by
    have minus : c ≠ '-' := by rintro rfl; simp at numeral
    have plus : c ≠ '+' := by rintro rfl; simp at numeral
    rw [shape]
    simp only [List.cons_append, scanSign]
    split
    · rename_i same; exact absurd (List.cons.inj same).1 minus
    · rename_i same; exact absurd (List.cons.inj same).1 plus
    · rfl
  have notNan : c.toLower ≠ 'n' := toLower_ne_of_lt small (by decide)
  have notInfinity : c.toLower ≠ 'i' := toLower_ne_of_lt small (by decide)
  have first : (word ++ rest).head?.map Char.toLower = some c.toLower := by simp [shape]
  have number : scanUnsigned (word ++ rest) = (some ((mant : ℚ) / 10 ^ places), rest) := by
    rw [scanUnsigned_numeral h stops]
    simp [scanNumber, digits, scanExponent_stop stops]
    simp [decimalRadix]
  unfold scanFloat
  rw [unspaced, unsigned]
  simp only [first, number]
  split
  · rename_i same; exact absurd (Option.some.inj same) notNan
  · rename_i same; exact absurd (Option.some.inj same) notInfinity
  · simp

theorem numeralText_text (d : Decimal) : NumeralText d.text :=
  ⟨d.text_ne_nil, fun _ => Decimal.mem_text⟩

theorem digitsValue_whole_fixed (d : Decimal) :
    digitsValue (d.whole ++ fixedDigits d.places d.mant) = d.mant := by
  have whole : Nat.ofDigitChars 10 d.whole 0 = d.mant / 10 ^ d.places :=
    digitsValue_natText _
  rw [digitsValue, Nat.ofDigitChars_append, whole, ofDigitChars_fixedDigits]
  exact Nat.div_add_mod _ _

/-- The text of a decimal scans to its mantissa and places. -/
theorem scanDigits_text (d : Decimal) {rest : Text}
    (stops : ∀ c, rest.head? = some c → c.isDigit = false ∧ c ≠ '.') :
    scanDigits decimalRadix (d.text ++ rest) = (some (d.mant, d.places), rest) := by
  have digits : ∀ c ∈ d.whole, c.isDigit = true := fun c => isDigit_of_mem_natText
  rcases Nat.eq_zero_or_pos d.places with none | some
  · have bare : d.text = d.whole := by simp [Decimal.text, Decimal.fraction, none]
    have value : digitsValue d.whole = d.mant := by simp [Decimal.whole, none]
    have nonempty : d.whole ≠ [] := natText_ne_nil _
    rw [bare, scanDigits_whole nonempty digits stops, value, none]
  · have nonempty : fixedDigits d.places d.mant ≠ [] := by
      apply List.ne_nil_of_length_pos
      simpa using some
    have point : d.text ++ rest = d.whole ++ '.' :: (fixedDigits d.places d.mant ++ rest) := by
      simp [Decimal.text, Decimal.fraction_of_pos some]
    rw [point, scanDigits_point (Or.inr nonempty) digits (fun c => isDigit_of_mem_fixedDigits)
      (fun c first => (stops c first).1), digitsValue_whole_fixed, length_fixedDigits]

theorem stop_of_isSpace {rest : Text} (stops : ∀ c, rest.head? = some c → isSpace c = true) :
    ∀ c, rest.head? = some c → c.isDigit = false ∧ c ≠ '.' := by
  intro c first
  have space := stops c first
  refine ⟨isDigit_of_isSpace space, ?_⟩
  rintro rfl
  simp [isSpace] at space

/-- A printed decimal reads as its value. -/
theorem reads_text (d : Decimal) : Reads d.text d.value :=
  ⟨(numeralText_text d).isWord, fun _ stops =>
    scanFloat_numeral (numeralText_text d) stops (scanDigits_text d (stop_of_isSpace stops))⟩

/-- A run of digits reads as its value. -/
theorem reads_digits {whole : Text} (nonempty : whole ≠ [])
    (digits : ∀ c ∈ whole, c.isDigit = true) : Reads whole (digitsValue whole) := by
  have numeral : NumeralText whole := ⟨nonempty, fun c member => Or.inr (digits c member)⟩
  refine ⟨numeral.isWord, fun rest stops => ?_⟩
  have scanned := scanDigits_whole nonempty digits (stop_of_isSpace stops)
  simpa using scanFloat_numeral numeral stops scanned

/-- Digits around a point read as their value; one side may be empty. -/
theorem reads_digits_point {whole fraction : Text} (nonempty : whole ≠ [] ∨ fraction ≠ [])
    (digits : ∀ c ∈ whole, c.isDigit = true) (places : ∀ c ∈ fraction, c.isDigit = true) :
    Reads (whole ++ '.' :: fraction) (digitsValue (whole ++ fraction) / 10 ^ fraction.length) := by
  have numeral : NumeralText (whole ++ '.' :: fraction) := by
    refine ⟨by simp, fun c member => ?_⟩
    rcases List.mem_append.mp member with front | back
    · exact Or.inr (digits c front)
    · rcases List.mem_cons.mp back with point | later
      · exact Or.inl point
      · exact Or.inr (places c later)
  refine ⟨numeral.isWord, fun rest stops => scanFloat_numeral numeral stops ?_⟩
  have scanned := scanDigits_point nonempty digits places
    fun c first => (stop_of_isSpace stops c first).1
  simpa using scanned

/-- A decimal below one still reads as its value when the zero in front of the point is left out. -/
theorem reads_fraction {d : Decimal} (places : 0 < d.places) (small : d.mant < 10 ^ d.places) :
    Reads d.fraction d.value := by
  have nonempty : fixedDigits d.places d.mant ≠ [] := by
    apply List.ne_nil_of_length_pos
    simpa using places
  have value : digitsValue (fixedDigits d.places d.mant) = d.mant := by
    simp [digitsValue, ofDigitChars_fixedDigits, Nat.mod_eq_of_lt small]
  have reads := @reads_digits_point [] _ (Or.inr nonempty) (by simp)
    fun c => isDigit_of_mem_fixedDigits
  simpa [Decimal.fraction_of_pos places, value, Decimal.value] using reads

/-! ### Streams of numerals -/

theorem scanFloat_leading {pad : Text} (text : Text) (spaces : ∀ c ∈ pad, isSpace c = true) :
    scanFloat (pad ++ text) = scanFloat text := by
  unfold scanFloat
  rw [List.dropWhile_append_of_pos spaces]

/-- One conversion reads the first word of the stream and leaves the other words. -/
theorem scanFloat_word {stream word : Text} {tail : List Text} {q : ℚ}
    (h : words isSpace stream = word :: tail) (reads : Reads word q) :
    ∃ rest, scanFloat stream = (some (.rational q), rest) ∧ words isSpace rest = tail := by
  obtain ⟨pad, rest, shape, spaces, -, stops, tailEq⟩ := exists_of_words_eq_cons h
  refine ⟨rest, ?_, tailEq⟩
  rw [shape, scanFloat_leading _ spaces, reads.2 rest stops]

theorem fscanfFloat_word {stream word : Text} {tail : List Text} {q : ℚ} (value : Numeral)
    (h : words isSpace stream = word :: tail) (reads : Reads word q) :
    ∃ rest, fscanfFloat (value, stream) = (.rational q, rest) ∧ words isSpace rest = tail := by
  obtain ⟨rest, read, tailEq⟩ := scanFloat_word h reads
  exact ⟨rest, by simp [fscanfFloat, read], tailEq⟩

/-- After `k + 1` conversions the variable holds the value of word `k`. The induction is on `k`, with
the stream general: each conversion consumes the head of the remaining words. -/
theorem iterate_fscanfFloat {stream : Text} {tokens : List Text} {q : Nat → ℚ} (value : Numeral)
    (h : words isSpace stream = tokens)
    (reads : ∀ k token, tokens[k]? = some token → Reads token (q k)) {k : Nat}
    (inside : k < tokens.length) :
    (fscanfFloat^[k + 1] (value, stream)).1 = .rational (q k) := by
  induction k generalizing stream tokens q value with
  | zero =>
      obtain ⟨word, tail, shape⟩ := List.exists_cons_of_length_pos inside
      obtain ⟨rest, step, -⟩ :=
        fscanfFloat_word value (h.trans shape) (reads 0 word (by simp [shape]))
      simp [step]
  | succ k ih =>
      obtain ⟨word, tail, shape⟩ :=
        List.exists_cons_of_length_pos (Nat.lt_of_le_of_lt (Nat.zero_le _) inside)
      obtain ⟨rest, step, tailEq⟩ :=
        fscanfFloat_word value (h.trans shape) (reads 0 word (by simp [shape]))
      rw [Function.iterate_succ_apply, step]
      apply ih (.rational (q 0)) tailEq (q := fun j => q (j + 1))
      · intro j token found
        exact reads (j + 1) token (by simpa [shape] using found)
      · simpa [shape] using inside

end Numafac
