/-
Module: Numafac.Base.ScanInt
Layer: Base
Purpose: The conversion `%d` of `fscanf` on a stream of numbers: white space, a sign and digits are read,
  and of a number that an `int` cannot hold the low 32 bits are stored. The word lemmas say that one
  conversion reads one word, and that a stream without words is left alone.
Trusted boundary: the GNU C library on a machine with 32-bit `int` and 64-bit `long`
Main exports: scanInt, storedInt, fscanfD, ReadsInt, scanInt_word, scanInt_exhausted, readsInt_natText,
  storedInt_eq_self, storedInt_natCast
-/
import Numafac.Base.ScanFront

namespace Numafac

/-- One conversion `%d`: the number read, if any, and the rest of the stream. -/
def scanInt (stream : Text) : Option Int × Text :=
  let (negative, text) := scanSign (stream.dropWhile isSpace)
  let digits := text.takeWhile Char.isDigit
  if digits = [] then (none, text)
  else
    let size : Int := digitsValue digits
    (some (if negative then -size else size), text.dropWhile Char.isDigit)

/-- What an `int` gets of a number: the number is cut to the range of `long`, and its low 32 bits are
stored. -/
def storedInt (value : Int) : Int :=
  (max (-2 ^ 63) (min value (2 ^ 63 - 1))).bmod (2 ^ 32)

/-- `fscanf (fp, "%d", &value)`, on a variable that may have no value yet. It keeps what it has when the
conversion fails. -/
def fscanfD : Option Int × Text → Option Int × Text
  | (value, stream) =>
      match scanInt stream with
      | (some read, rest) => (some (storedInt read), rest)
      | (none, rest) => (value, rest)

/-- A word reads as a number when a conversion at the word returns the number and stops behind it. -/
def ReadsInt (word : Text) (value : Int) : Prop :=
  IsWord isSpace word ∧
    ∀ rest : Text, (∀ c, rest.head? = some c → isSpace c = true) →
      scanInt (word ++ rest) = (some value, rest)

/-! ### Words -/

theorem scanInt_leading {pad : Text} (text : Text) (spaces : ∀ c ∈ pad, isSpace c = true) :
    scanInt (pad ++ text) = scanInt text := by
  unfold scanInt
  rw [List.dropWhile_append_of_pos spaces]

section Stream

variable {stream word : Text} {tail : List Text} {v : Int}

/-- One conversion reads the first word of the stream and leaves the other words. -/
theorem scanInt_word (h : words isSpace stream = word :: tail) (reads : ReadsInt word v) :
    ∃ rest, scanInt stream = (some v, rest) ∧ words isSpace rest = tail := by
  obtain ⟨pad, rest, shape, spaces, -, stops, tailEq⟩ := exists_of_words_eq_cons h
  refine ⟨rest, ?_, tailEq⟩
  rw [shape, scanInt_leading _ spaces, reads.2 rest stops]

/-- A stream without words has nothing to read, then or later. -/
theorem scanInt_exhausted (h : words isSpace stream = []) : scanInt stream = (none, []) := by
  have blank : stream.dropWhile isSpace = [] := List.dropWhile_eq_nil_iff.mpr (blank_of_words_eq_nil h)
  rw [scanInt, blank]
  rfl

theorem fscanfD_word (value : Option Int) (h : words isSpace stream = word :: tail)
    (reads : ReadsInt word v) :
    ∃ rest, fscanfD (value, stream) = (some (storedInt v), rest) ∧ words isSpace rest = tail := by
  obtain ⟨rest, read, tailEq⟩ := scanInt_word h reads
  exact ⟨rest, by simp [fscanfD, read], tailEq⟩

theorem fscanfD_exhausted (value : Option Int) (h : words isSpace stream = []) :
    fscanfD (value, stream) = (value, []) := by
  simp [fscanfD, scanInt_exhausted h]

end Stream

/-- The digits of a number read as the number. -/
theorem readsInt_natText (n : Nat) : ReadsInt (natText n) n := by
  have digits : ∀ c ∈ natText n, c.isDigit = true := fun c => isDigit_of_mem_natText
  refine ⟨isWord_natText (fun _ => isSpace_of_isDigit) n, fun rest stops => ?_⟩
  obtain ⟨first, text, shape⟩ := List.exists_cons_of_ne_nil (natText_ne_nil n)
  have firstDigit : first.isDigit = true := digits first (by simp [shape])
  have unspaced : (natText n ++ rest).dropWhile isSpace = natText n ++ rest := by
    simp [shape, isSpace_of_isDigit firstDigit]
  have unsigned : scanSign (natText n ++ rest) = (false, natText n ++ rest) := by
    rw [shape, List.cons_append]
    unfold scanSign
    split
    · rename_i same
      cases same
      cases firstDigit
    · rename_i same
      cases same
      cases firstDigit
    · rfl
  have notDigit : ∀ c, rest.head? = some c → c.isDigit = false := fun c head =>
    isDigit_of_isSpace (stops c head)
  simp [scanInt, unspaced, unsigned, takeWhile_stop digits notDigit, dropWhile_stop digits notDigit,
    natText_ne_nil]

/-! ### What is stored -/

/-- A number in the range of `int` is stored as it is. -/
theorem storedInt_eq_self {v : Int} (low : -2 ^ 31 ≤ v) (high : v < 2 ^ 31) : storedInt v = v := by
  have range : max (-2 ^ 63) (min v (2 ^ 63 - 1)) = v := by omega
  rw [storedInt, range]
  exact Int.bmod_eq_of_le_mul_two (by omega) (by omega)

/-- A larger number loses its high bits, and what is left of it may be negative. -/
theorem storedInt_natCast {n : Nat} (range : n < 2 ^ 63) :
    storedInt n = if n % 2 ^ 32 < 2 ^ 31 then ((n % 2 ^ 32 : Nat) : Int)
      else ((n % 2 ^ 32 : Nat) : Int) - 2 ^ 32 := by
  have kept : max (-2 ^ 63) (min (n : Int) (2 ^ 63 - 1)) = n := by omega
  rw [storedInt, kept, Int.bmod_eq_emod]
  by_cases small : n % 2 ^ 32 < 2 ^ 31
  · rw [if_pos small, if_neg (by omega)]
    omega
  · rw [if_neg small, if_pos (by omega)]
    omega

end Numafac
