/-
Module: Numafac.Base.ScanFront
Layer: Base
Purpose: Conversions `%f` on the front of a stream. No conversion gets behind the white space that ends
  its word, so as long as the front of a stream holds more than white space, the conversions on the whole
  stream are those on the front. Repeated conversions are split into the rest of the stream and the last
  value that was stored.
Trusted boundary: none beyond `Base/Scan`
Main exports: scanFloat_front, skip, lastStored, iterate_fscanfFloat_eq, UsedUp, front_conversions,
  lastStored_usedUp, usedUp_of_numerals, usedUp_or_not
-/
import Numafac.Base.Scan

namespace Numafac

/-! ### One conversion -/

section Append

variable {rest : Text} (stops : ∀ c, rest.head? = some c → isSpace c = true)

theorem takeWhile_append_stop {p : Char → Bool} (text : Text)
    (stop : ∀ c, rest.head? = some c → p c = false) :
    (text ++ rest).takeWhile p = text.takeWhile p := by
  induction text with
  | nil => exact @takeWhile_stop p [] rest (by simp) stop
  | cons c text ih =>
      rw [List.cons_append, List.takeWhile_cons, List.takeWhile_cons, ih]

theorem dropWhile_append_stop {p : Char → Bool} (text : Text)
    (stop : ∀ c, rest.head? = some c → p c = false) :
    (text ++ rest).dropWhile p = text.dropWhile p ++ rest := by
  induction text with
  | nil => exact @dropWhile_stop p [] rest (by simp) stop
  | cons c text ih =>
      rw [List.cons_append, List.dropWhile_cons, List.dropWhile_cons, ih]
      split
      · rfl
      · rfl

theorem isHexDigit_of_isSpace {c : Char} (space : isSpace c = true) :
    hexadecimalRadix.isDigit c = false := by
  have small := toNat_lt_of_isSpace space
  have letter : ¬ 'a' ≤ c.toLower := by
    rw [toLower_of_lt small]
    intro above
    have above' : 97 ≤ c.toNat := above
    omega
  simp [hexadecimalRadix, isDigit_of_isSpace space, letter]

/-- The prefix `0x` of a hexadecimal numeral. -/
def HexPrefix (text : Text) : Prop :=
  text[0]? = some '0' ∧ (text[1]?).map Char.toLower = some 'x'

theorem scanUnsigned_eq (text : Text) :
    (HexPrefix text → scanUnsigned text = scanNumber hexadecimalRadix (text.drop 2)) ∧
      (¬ HexPrefix text → scanUnsigned text = scanNumber decimalRadix text) := by
  unfold scanUnsigned
  split
  · rename_i mark tail
    constructor
    · rintro ⟨-, second⟩
      exact if_pos (Option.some.inj second)
    · exact fun other => if_neg fun second => other ⟨rfl, congrArg some second⟩
  · rename_i other
    refine ⟨fun ⟨first, second⟩ => ?_, fun _ => rfl⟩
    match text with
    | [] => cases first
    | [c] => cases second
    | c :: mark :: tail => exact absurd (by rw [Option.some.inj first]) (other mark tail)

/-- The three kinds of numerals behind the sign. -/
theorem scanFloat_eq (stream : Text) : scanFloat stream =
    let (negative, text) := scanSign (stream.dropWhile isSpace)
    if text.head?.map Char.toLower = some 'n' then scanNan text
    else if text.head?.map Char.toLower = some 'i' then scanInfinity negative text
    else
      ((scanUnsigned text).1.map fun q => .rational (if negative then -q else q),
        (scanUnsigned text).2) := by
  unfold scanFloat
  cases scanSign (stream.dropWhile isSpace) with
  | mk negative text =>
      dsimp only
      split
      · rename_i same
        rw [if_pos same]
      · rename_i same
        rw [same]
        rfl
      · rename_i notNan notInfinity
        rw [if_neg notNan, if_neg notInfinity]
        cases scanUnsigned text with
        | mk value tail =>
            cases value with
            | none => rfl
            | some q => rfl

include stops

theorem head_ne {c : Char} (other : isSpace c = false) : rest.head? ≠ some c := by
  intro first
  rw [stops c first] at other
  cases other

theorem toLower_head_ne {c letter : Char} (first : rest.head? = some c) (large : 65 ≤ letter.toNat) :
    c.toLower ≠ letter :=
  toLower_ne_of_lt (toNat_lt_of_isSpace (stops c first)) large

theorem scanSign_append (text : Text) :
    scanSign (text ++ rest) = ((scanSign text).1, (scanSign text).2 ++ rest) := by
  cases text with
  | nil =>
      cases rest with
      | nil => rfl
      | cons c rest =>
          have minus : c ≠ '-' := fun same => head_ne stops (c := '-') rfl (congrArg some same)
          have plus : c ≠ '+' := fun same => head_ne stops (c := '+') rfl (congrArg some same)
          rw [List.nil_append, scanSign]
          · rfl
          · rintro tail same
            exact minus (List.cons.inj same).1
          · rintro tail same
            exact plus (List.cons.inj same).1
  | cons c text =>
      rw [List.cons_append]
      unfold scanSign
      split
      · rename_i same
        obtain ⟨rfl, rfl⟩ := List.cons.inj same
        rfl
      · rename_i same
        obtain ⟨rfl, rfl⟩ := List.cons.inj same
        rfl
      · rename_i minus plus
        split
        · rename_i same
          exact absurd (by rw [(List.cons.inj same).1]) (minus (text ++ rest))
        · rename_i same
          exact absurd (by rw [(List.cons.inj same).1]) (plus (text ++ rest))
        · rfl

theorem scanDigits_append {radix : Radix} (spaces : ∀ c, isSpace c = true → radix.isDigit c = false)
    (text : Text) :
    scanDigits radix (text ++ rest) = ((scanDigits radix text).1, (scanDigits radix text).2 ++ rest) := by
  have stop : ∀ c, rest.head? = some c → radix.isDigit c = false := fun c first =>
    spaces c (stops c first)
  simp only [scanDigits, takeWhile_append_stop text stop, dropWhile_append_stop text stop]
  cases behind : text.dropWhile radix.isDigit with
  | nil =>
      -- the point would have to be the first character of `rest`
      cases rest with
      | nil => simp
      | cons c rest =>
          have point : c ≠ '.' := fun same => head_ne stops (c := '.') rfl (congrArg some same)
          by_cases none? : text.takeWhile radix.isDigit = []
          · simp [point, none?]
          · simp [point, none?]
  | cons c tail =>
      by_cases point : c = '.'
      · subst point
        simp only [List.cons_append, takeWhile_append_stop tail stop, dropWhile_append_stop tail stop]
        split
        · rfl
        · rfl
      · by_cases none? : text.takeWhile radix.isDigit = []
        · simp [point, none?]
        · simp [point, none?]

theorem scanExponent_append {radix : Radix} (mark : 65 ≤ radix.exponentMark.toNat) (text : Text) :
    scanExponent radix (text ++ rest) =
      ((scanExponent radix text).1, (scanExponent radix text).2 ++ rest) := by
  have stop : ∀ c, rest.head? = some c → c.isDigit = false := fun c first =>
    isDigit_of_isSpace (stops c first)
  cases text with
  | nil =>
      cases rest with
      | nil => rfl
      | cons c rest =>
          have other : c.toLower ≠ radix.exponentMark := toLower_head_ne stops rfl mark
          simp only [List.nil_append, scanExponent, if_neg other]
  | cons c text =>
      rw [List.cons_append, scanExponent, scanExponent]
      by_cases same : c.toLower = radix.exponentMark
      · simp only [if_pos same, scanSign_append stops, takeWhile_append_stop _ stop,
          dropWhile_append_stop _ stop]
      · simp only [if_neg same]
        rfl

theorem scanNumber_append {radix : Radix} (spaces : ∀ c, isSpace c = true → radix.isDigit c = false)
    (mark : 65 ≤ radix.exponentMark.toNat) (text : Text) :
    scanNumber radix (text ++ rest) = ((scanNumber radix text).1, (scanNumber radix text).2 ++ rest) := by
  simp only [scanNumber, scanDigits_append stops spaces]
  cases scanDigits radix text with
  | mk digits behind =>
      cases digits with
      | none => rfl
      | some digits => simp only [scanExponent_append stops mark]

theorem scanUnsigned_append (text : Text) :
    scanUnsigned (text ++ rest) = ((scanUnsigned text).1, (scanUnsigned text).2 ++ rest) := by
  have decimal := @scanNumber_append rest stops decimalRadix
    (fun c space => isDigit_of_isSpace space) (by decide)
  have hexadecimal := @scanNumber_append rest stops hexadecimalRadix
    (fun c space => isHexDigit_of_isSpace space) (by decide)
  have same : HexPrefix (text ++ rest) ↔ HexPrefix text := by
    match text with
    | [] =>
        constructor
        · rintro ⟨first, -⟩
          rw [List.nil_append, ← List.head?_eq_getElem?] at first
          exact absurd first (head_ne stops rfl)
        · rintro ⟨first, -⟩
          cases first
    | [c] =>
        constructor
        · rintro ⟨-, second⟩
          cases rest with
          | nil => cases second
          | cons mark rest =>
              have other : mark.toLower ≠ 'x' := toLower_head_ne stops rfl (by decide)
              exact absurd (Option.some.inj second) other
        · rintro ⟨-, second⟩
          cases second
    | c :: mark :: tail => rfl
  by_cases hex : HexPrefix text
  · have long : 2 ≤ text.length := by
      obtain ⟨-, second⟩ := hex
      by_contra short
      rw [List.getElem?_eq_none (by omega)] at second
      cases second
    rw [(scanUnsigned_eq _).1 hex, (scanUnsigned_eq _).1 (same.mpr hex),
      List.drop_append_of_le_length long, hexadecimal]
  · rw [(scanUnsigned_eq _).2 hex, (scanUnsigned_eq _).2 fun long => hex (same.mp long), decimal]

end Append

/-! ### Texts that end in white space -/

/-- Nothing but white space. -/
def Blank (text : Text) : Prop :=
  ∀ c ∈ text, isSpace c = true

/-- The text is empty or ends in white space. -/
def EndsInSpace (text : Text) : Prop :=
  ∀ c, text.getLast? = some c → isSpace c = true

theorem endsInSpace_concat {text : Text} {last : Char} (space : isSpace last = true) :
    EndsInSpace (text ++ [last]) := by
  intro c found
  rw [List.getLast?_append, List.getLast?_singleton, Option.some_or] at found
  exact Option.some.inj found ▸ space

theorem EndsInSpace.tail {c : Char} {text : Text} (ends : EndsInSpace (c :: text)) : EndsInSpace text := by
  intro d found
  cases text with
  | nil => cases found
  | cons e text => exact ends d (by rwa [List.getLast?_cons_cons])

theorem head?_append {text : Text} (some? : text ≠ []) (back : Text) : (text ++ back).head? = text.head? := by
  cases text with
  | nil => exact absurd rfl some?
  | cons c text => rfl

/-- A name ends before the white space at the end of a text, or at it. -/
theorem consumeName_front {name text : Text} (letters : ∀ letter ∈ name, 65 ≤ letter.toNat)
    (ends : EndsInSpace text) (some? : text ≠ []) (back : Text) :
    consumeName name (text ++ back) = ((consumeName name text).1, (consumeName name text).2 ++ back) ∧
      EndsInSpace (consumeName name text).2 ∧
      ((consumeName name text).1 = true → (consumeName name text).2 ≠ []) := by
  induction name generalizing text with
  | nil => exact ⟨rfl, ends, fun _ => some?⟩
  | cons letter name ih =>
      cases text with
      | nil => exact absurd rfl some?
      | cons c text =>
          rw [List.cons_append, consumeName, consumeName]
          by_cases same : c.toLower = letter
          · have more : text ≠ [] := by
              rintro rfl
              have space := ends c rfl
              exact toLower_ne_of_lt (toNat_lt_of_isSpace space) (letters letter (by simp)) same
            rw [if_pos same, if_pos same]
            exact ih (fun other member => letters other (by simp [member])) ends.tail more
          · rw [if_neg same, if_neg same]
            exact ⟨rfl, ends.tail, fun complete => by cases complete⟩

theorem scanNan_front {text : Text} (ends : EndsInSpace text) (some? : text ≠ []) (back : Text) :
    scanNan (text ++ back) = ((scanNan text).1, (scanNan text).2 ++ back) ∧ EndsInSpace (scanNan text).2 := by
  have letters : ∀ letter ∈ ['n', 'a', 'n'], 65 ≤ letter.toNat := by simp
  obtain ⟨nan, ends', -⟩ := consumeName_front letters ends some? back
  rw [scanNan, scanNan, nan]
  cases consumed : consumeName ['n', 'a', 'n'] text with
  | mk complete behind =>
      rw [consumed] at ends'
      cases complete with
      | false => exact ⟨rfl, ends'⟩
      | true => exact ⟨rfl, ends'⟩

theorem scanInfinity_front (negative : Bool) {text : Text} (ends : EndsInSpace text) (some? : text ≠ [])
    (back : Text) :
    scanInfinity negative (text ++ back) =
        ((scanInfinity negative text).1, (scanInfinity negative text).2 ++ back) ∧
      EndsInSpace (scanInfinity negative text).2 := by
  have letters : ∀ letter ∈ ['i', 'n', 'f'], 65 ≤ letter.toNat := by simp
  have letters' : ∀ letter ∈ ['i', 'n', 'i', 't', 'y'], 65 ≤ letter.toNat := by simp
  obtain ⟨inf, ends', more⟩ := consumeName_front letters ends some? back
  rw [scanInfinity, scanInfinity, inf]
  cases consumed : consumeName ['i', 'n', 'f'] text with
  | mk complete behind =>
      rw [consumed] at ends' more
      cases complete with
      | false => exact ⟨rfl, ends'⟩
      | true =>
          have some' := more rfl
          dsimp only
          rw [head?_append some']
          split
          · obtain ⟨inity, ends'', -⟩ := consumeName_front letters' ends' some' back
            rw [inity]
            cases consumed' : consumeName ['i', 'n', 'i', 't', 'y'] behind with
            | mk complete behind' =>
                rw [consumed'] at ends''
                cases complete with
                | false => exact ⟨rfl, ends''⟩
                | true => exact ⟨rfl, ends''⟩
          · exact ⟨rfl, ends'⟩

/-- One conversion stays in a front that holds something. -/
theorem scanFloat_front {front : Text} (ends : EndsInSpace front) (something : ¬ Blank front)
    (back : Text) :
    scanFloat (front ++ back) = ((scanFloat front).1, (scanFloat front).2 ++ back) ∧
      EndsInSpace (scanFloat front).2 := by
  rcases List.eq_nil_or_concat front with rfl | ⟨text, last, rfl⟩
  · exact absurd (fun c member => absurd member (by simp)) something
  rw [List.concat_eq_append] at *
  have space : isSpace last = true := ends last (by simp)
  have stops : ∀ {rest : Text}, ∀ c, (last :: rest).head? = some c → isSpace c = true :=
    fun c first => Option.some.inj first ▸ space
  -- behind the white space and the sign the front still ends in `last`
  have begun : text.dropWhile isSpace ≠ [] := by
    intro none?
    apply something
    intro c member
    rcases List.mem_append.mp member with inside | inside
    · exact List.dropWhile_eq_nil_iff.mp none? c inside
    · exact List.mem_singleton.mp inside ▸ space
  have unsigned : ∀ rest, scanSign ((text ++ last :: rest).dropWhile isSpace) =
      ((scanSign (text.dropWhile isSpace)).1, (scanSign (text.dropWhile isSpace)).2 ++ [last] ++ rest) := by
    intro rest
    rw [List.dropWhile_append, if_neg (by simpa using begun), scanSign_append stops, List.append_assoc,
      List.singleton_append]
  have whole := unsigned []
  rw [List.append_assoc, List.singleton_append, scanFloat_eq, scanFloat_eq, unsigned, whole,
    List.append_nil]
  cases scanSign (text.dropWhile isSpace) with
  | mk negative body =>
      have some? : body ++ [last] ≠ [] := by simp
      have ends' : EndsInSpace (body ++ [last]) := endsInSpace_concat space
      dsimp only
      rw [head?_append some?]
      by_cases nan : (body ++ [last]).head?.map Char.toLower = some 'n'
      · rw [if_pos nan, if_pos nan]
        exact scanNan_front ends' some? back
      · by_cases infinity : (body ++ [last]).head?.map Char.toLower = some 'i'
        · rw [if_neg nan, if_neg nan, if_pos infinity, if_pos infinity]
          exact scanInfinity_front negative ends' some? back
        · have short := @scanUnsigned_append [last] stops body
          have long := @scanUnsigned_append (last :: back) stops body
          rw [if_neg nan, if_neg nan, if_neg infinity, if_neg infinity, List.append_assoc,
            List.singleton_append, long, short]
          exact ⟨by simp, endsInSpace_concat space⟩

/-! ### Repeated conversions -/

/-- The stream after so many conversions. -/
def skip : Nat → Text → Text
  | 0, stream => stream
  | count + 1, stream => skip count (scanFloat stream).2

/-- The value that the last successful one of so many conversions stores. -/
def lastStored : Nat → Text → Option Numeral
  | 0, _ => none
  | count + 1, stream => (lastStored count (scanFloat stream).2).or (scanFloat stream).1

/-- The variable holds the last value that was stored. -/
theorem iterate_fscanfFloat_eq (count : Nat) (value : Numeral) (stream : Text) :
    fscanfFloat^[count] (value, stream) = ((lastStored count stream).getD value, skip count stream) := by
  induction count generalizing value stream with
  | zero => rfl
  | succ count ih =>
      have step : fscanfFloat (value, stream) =
          ((scanFloat stream).1.getD value, (scanFloat stream).2) := by
        rw [fscanfFloat]
        cases scanFloat stream with
        | mk read rest =>
            cases read with
            | none => rfl
            | some read => rfl
      rw [Function.iterate_succ_apply, step, ih, lastStored, skip]
      cases lastStored count (scanFloat stream).2 with
      | none => rfl
      | some stored => rfl

theorem lastStored_add (first second : Nat) (stream : Text) :
    lastStored (first + second) stream =
      (lastStored second (skip first stream)).or (lastStored first stream) := by
  induction first generalizing stream with
  | zero => rw [Nat.zero_add, skip, lastStored, Option.or_none]
  | succ first ih => rw [Nat.succ_add, lastStored, lastStored, skip, ih, Option.or_assoc]

/-! ### The front of a stream -/

theorem blank_of_words_eq_nil {text : Text} (none? : words isSpace text = []) : Blank text := by
  obtain ⟨pad, word, rest, shape, spaces, clean, stops, empty⟩ := exists_word_prefix isSpace text
  by_cases bare : word = []
  · rw [shape, bare, empty bare, List.nil_append, List.append_nil]
    exact spaces
  · rw [shape, words_leading _ spaces, words_word_append ⟨bare, clean⟩ rest stops] at none?
    cases none?

/-- The front is used up by exactly so many conversions. -/
structure UsedUp (front : Text) (count : Nat) : Prop where
  blank : Blank (skip count front)
  before : ∀ earlier < count, ¬ Blank (skip earlier front)

/-- As long as the front holds something, the conversions are those on the front. -/
theorem front_conversions {front : Text} (ends : EndsInSpace front) {count : Nat}
    (something : ∀ earlier < count, ¬ Blank (skip earlier front)) (back : Text) :
    skip count (front ++ back) = skip count front ++ back ∧
      lastStored count (front ++ back) = lastStored count front := by
  induction count generalizing front with
  | zero => exact ⟨rfl, rfl⟩
  | succ count ih =>
      obtain ⟨step, ends'⟩ := scanFloat_front ends (something 0 (Nat.succ_pos count)) back
      obtain ⟨skipped, stored⟩ := ih ends' fun earlier less =>
        something (earlier + 1) (Nat.succ_lt_succ less)
      simp only [skip, lastStored, step, skipped, stored, and_self]

/-- Leading white space makes no difference. -/
theorem lastStored_leading {pad : Text} (count : Nat) (stream : Text)
    (spaces : ∀ c ∈ pad, isSpace c = true) :
    lastStored count (pad ++ stream) = lastStored count stream := by
  cases count with
  | zero => rfl
  | succ count => rw [lastStored, lastStored, scanFloat_leading _ spaces]

/-- Behind a front that is used up, a numeral is read, and then the conversions go on behind it. -/
theorem lastStored_usedUp {front stream rest : Text} {read : Numeral} {count : Nat}
    (ends : EndsInSpace front) (used : UsedUp front count)
    (next : scanFloat stream = (some read, rest)) (more : Nat) :
    lastStored (count + 1 + more) (front ++ stream) = (lastStored more rest).or (some read) := by
  obtain ⟨skipped, -⟩ := front_conversions ends used.before stream
  rw [Nat.add_assoc, lastStored_add, skipped, Nat.add_comm 1, lastStored,
    scanFloat_leading _ used.blank, next]
  cases lastStored more rest with
  | none => rfl
  | some stored => rfl

/-- Numerals are used up by as many conversions. -/
theorem usedUp_of_numerals {front : Text} {tokens : List Text} (h : words isSpace front = tokens)
    (numerals : ∀ token ∈ tokens, ∃ q, Reads token q) : UsedUp front tokens.length := by
  induction tokens generalizing front with
  | nil => exact ⟨blank_of_words_eq_nil h, fun earlier less => absurd less (Nat.not_lt_zero earlier)⟩
  | cons word tokens ih =>
      obtain ⟨pad, rest, shape, spaces, isWord, stops, later⟩ := exists_of_words_eq_cons h
      obtain ⟨q, reads⟩ := numerals word (by simp)
      have next : scanFloat front = (some (.rational q), rest) := by
        rw [shape, scanFloat_leading _ spaces, reads.2 rest stops]
      obtain ⟨blank, before⟩ := ih later fun token member => numerals token (by simp [member])
      refine ⟨by rwa [List.length_cons, skip, next], fun earlier less => ?_⟩
      cases earlier with
      | zero =>
          intro blank
          rw [skip, shape] at blank
          obtain ⟨c, member⟩ := List.exists_mem_of_ne_nil word isWord.1
          have space := blank c (by simp [member])
          rw [isWord.2 c member] at space
          cases space
      | succ earlier =>
          rw [skip, next]
          exact before earlier (Nat.lt_of_succ_lt_succ less)

end Numafac
