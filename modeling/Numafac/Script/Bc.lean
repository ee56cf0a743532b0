/-
Module: Numafac.Script.Bc
Layer: Script
Purpose: The calculator `bc` that both scripts call, taken as a parameter with the two documented facts
  they rely on: at scale 4 it prints a numeral unchanged in value, and it prints a quotient truncated
  after four places. `bcReference` is a calculator for these two forms of input, and
  `bcReference_documented` shows that the facts hold of it, so the results that assume them are about
  something.
Trusted boundary: that the installed `bc` is as documented
Main exports: Tools, numeralProgram, quotientProgram, BcDocumented, bcReference, bcReference_documented
-/
import Numafac.Script.Commands

namespace Numafac

/-- The programs that the scripts call and that are not part of the repository: `bc`, as the text it
prints for one line of input, and `awk '{sum+=$0} END { print sum/NR}'` over the lines of a file. -/
structure Tools where
  bc : Text → Text
  mean : List Text → Text

/-- `scale=4;`. -/
def scale4 : Text := ['s', 'c', 'a', 'l', 'e', '=', '4', ';']

/-- The line that `echo scale=4\;${!num}` prints. -/
def numeralProgram (num : Text) : Text :=
  echoWords [scale4 ++ num]

/-- The line that `echo scale=4\;${!num} / ${!div}` prints. -/
def quotientProgram (num div : Text) : Text :=
  echoWords [scale4 ++ num, ['/'], div]

/-- What the scripts rely on: `bc` prints values without changing them and truncates quotients at the
scale. -/
structure BcDocumented (bc : Text → Text) : Prop where
  prints : ∀ d : Decimal, Reads (bc (numeralProgram d.text)) d.value
  divides : ∀ a b : Decimal, 0 < b.mant →
    Reads (bc (quotientProgram a.text b.text)) (truncateAt 4 (a.value / b.value))

/-- A numeral is a single word, so an assignment keeps it whole. -/
theorem firstWord_of_reads {word : Text} {q : ℚ} (reads : Reads word q) : firstWord word = word := by
  apply firstWord_of_isWord
  refine ⟨reads.1.1, fun c member => ?_⟩
  cases blank : isBlank c with
  | false => rfl
  | true =>
      have space := isSpace_of_isBlank blank
      rw [reads.1.2 c member] at space
      exact Bool.noConfusion space

/-! ### A calculator for the two forms -/

/-- `bc` prints no zero in front of the point, and zero as a single digit. -/
def printBc (d : Decimal) : Text :=
  if d.mant = 0 then ['0'] else if d.mant < 10 ^ d.places then d.fraction else d.text

/-- Evaluate `scale=4;a` and `scale=4;a / b`; anything else prints nothing. -/
def bcReference (line : Text) : Text :=
  if scale4 <+: line then
    match scanDigits decimalRadix (line.drop 8) with
    | (some (mant, places), []) => printBc { mant := mant, places := places }
    | (some (mant, places), ' ' :: '/' :: ' ' :: rest) =>
        match scanDigits decimalRadix rest with
        | (some (mant', places'), []) =>
            if mant' = 0 then []
            else
              printBc (Decimal.divide 4 { mant := mant, places := places }
                { mant := mant', places := places' })
        | _ => []
    | _ => []
  else []

theorem reads_zero (places : Nat) : Reads ['0'] (Decimal.value { mant := 0, places := places }) := by
  have zero : Decimal.text { mant := 0, places := 0 } = ['0'] := by decide
  have reads := reads_text { mant := 0, places := 0 }
  rw [zero] at reads
  simpa [Decimal.value] using reads

theorem reads_printBc (d : Decimal) : Reads (printBc d) d.value := by
  unfold printBc
  split
  · rename_i zero
    obtain ⟨mant, places⟩ := d
    subst zero
    exact reads_zero places
  · split
    · rename_i nonzero small
      have places : 0 < d.places := by
        rcases Nat.eq_zero_or_pos d.places with none | pos
        · rw [none, pow_zero] at small
          omega
        · exact pos
      exact reads_fraction places small
    · exact reads_text d

theorem isBlank_of_mem_text {d : Decimal} {c : Char} (member : c ∈ d.text) : isBlank c = false := by
  rcases Decimal.mem_text member with rfl | digit
  · rfl
  · cases blank : isBlank c with
    | false => rfl
    | true =>
        have space := isSpace_of_isBlank blank
        simp [isSpace_of_isDigit digit] at space

theorem isWord_text_blank (d : Decimal) : IsWord isBlank d.text :=
  ⟨d.text_ne_nil, fun _ => isBlank_of_mem_text⟩

theorem isWord_scale4_append {word : Text} (clean : ∀ c ∈ word, isBlank c = false) :
    IsWord isBlank (scale4 ++ word) := by
  have literal : IsWord isBlank scale4 := by decide
  refine ⟨List.append_ne_nil_of_left_ne_nil literal.1 word, ?_⟩
  intro c member
  rcases List.mem_append.mp member with front | back
  · exact literal.2 c front
  · exact clean c back

theorem numeralProgram_text (d : Decimal) : numeralProgram d.text = scale4 ++ d.text :=
  echoWords_single (isWord_scale4_append fun _ => isBlank_of_mem_text)

theorem quotientProgram_text (a b : Decimal) :
    quotientProgram a.text b.text = scale4 ++ (a.text ++ [' ', '/', ' '] ++ b.text) := by
  have slash : IsWord isBlank ['/'] := by decide
  have dividend : IsWord isBlank (scale4 ++ a.text) :=
    isWord_scale4_append fun _ => isBlank_of_mem_text
  simpa [quotientProgram] using echoWords_three dividend slash (isWord_text_blank b)

/-- The text of a decimal is scanned whole at the end of a line. -/
theorem scanDigits_text_end (d : Decimal) :
    scanDigits decimalRadix d.text = (some (d.mant, d.places), []) := by
  have scanned := @scanDigits_text d [] (by simp)
  simpa using scanned

theorem bcReference_numeral (d : Decimal) : bcReference (scale4 ++ d.text) = printBc d := by
  have dropped : (scale4 ++ d.text).drop 8 = d.text := rfl
  unfold bcReference
  rw [if_pos (List.prefix_append _ _), dropped, scanDigits_text_end]

theorem bcReference_quotient (a b : Decimal) (pos : 0 < b.mant) :
    bcReference (scale4 ++ (a.text ++ [' ', '/', ' '] ++ b.text)) = printBc (a.divide 4 b) := by
  have dropped : (scale4 ++ (a.text ++ [' ', '/', ' '] ++ b.text)).drop 8 =
      a.text ++ ' ' :: '/' :: ' ' :: b.text := by
    simp [scale4]
  have atBlank : ∀ c, (' ' :: '/' :: ' ' :: b.text).head? = some c → c.isDigit = false ∧ c ≠ '.' := by
    intro c first
    simp only [List.head?_cons, Option.some.injEq] at first
    subst first
    decide
  unfold bcReference
  rw [if_pos (List.prefix_append _ _), dropped, scanDigits_text a atBlank]
  simp [scanDigits_text_end, Nat.ne_of_gt pos]

/-- The documented facts hold of the reference calculator. -/
theorem bcReference_documented : BcDocumented bcReference where
  prints d := by
    rw [numeralProgram_text, bcReference_numeral]
    exact reads_printBc d
  divides a b pos := by
    rw [quotientProgram_text, bcReference_quotient a b pos, ← Decimal.value_divide]
    exact reads_printBc _

/-- Tools with the reference calculator. -/
def referenceTools : Tools where
  bc := bcReference
  mean := fun _ => []

theorem referenceTools_documented : BcDocumented referenceTools.bc :=
  bcReference_documented

end Numafac
