/-
Module: Numafac.Base.CMemory
Layer: Base
Purpose: A part of C with its undefined behaviours as faults: arrays from `malloc` that are read and written
  by index, counting loops, one line read with `fgets`, tokens from `strtok`, and `atoi`. A call either
  returns or faults; what a program does after a fault is not described. `forRange_ok` and `forRange_inv`
  are the total and the partial rule for counting loops.
Trusted boundary: that the functions of the C library are as documented
Main exports: Fault, CResult, CArray, malloc, CArray.read, CArray.write, CArray.read_malloc_ne, forRange,
  forRange_concat, forRange_congr, forRange_ok, forRange_inv, fillArray, fillArray_ok, fillArray_map,
  read_fillArray, fgets, strtok, IsInt, intResult, atoi, words_ids, fgets_ids, storeToken, storeTokens_inv,
  storeTokens_ok, insertionSort, insertionSort_sorted, insertionSort_spec
-/
import Mathlib.Data.List.Perm.Basic
import Mathlib.Tactic.Common
import Numafac.Base.Scan

namespace Numafac

/-- What ends a C program without a defined result. -/
inductive Fault where
  | outOfBounds
  | uninitialised
  | nullPointer
  | intOverflow
  | noValue
deriving DecidableEq, Repr

/-- The outcome of a call. -/
abbrev CResult := Except Fault

/-- A sequence returns exactly when both parts do. -/
theorem bind_eq_ok {α β : Type} {call : CResult α} {rest : α → CResult β} {result : β} :
    (call >>= rest) = .ok result ↔ ∃ value, call = .ok value ∧ rest value = .ok result := by
  cases call with
  | ok value => simp [bind, Except.bind]
  | error fault => simp [bind, Except.bind]

/-! ### Arrays -/

/-- The elements of an allocated array; a new element has no value. -/
abbrev CArray (α : Type) := List (Option α)

variable {α σ : Type}

/-- `malloc(count * sizeof(*p))`. A negative count becomes a size that no allocation has, so no element
may be accessed. -/
def malloc (count : Int) : CArray α :=
  List.replicate count.toNat none

namespace CArray

/-- `a[i]` as a value. -/
def read (a : CArray α) (i : Nat) : CResult α :=
  match a[i]? with
  | none => .error .outOfBounds
  | some none => .error .uninitialised
  | some (some v) => .ok v

/-- `a[i] = v`. -/
def write (a : CArray α) (i : Nat) (v : α) : CResult (CArray α) :=
  if i < a.length then .ok (a.set i (some v)) else .error .outOfBounds

/-- `a[i]` for an index of type `int`. -/
def readAt (a : CArray α) (i : Int) : CResult α :=
  if 0 ≤ i then a.read i.toNat else .error .outOfBounds

/-- An array whose elements all have a value. -/
def filled (values : List α) : CArray α :=
  values.map some

@[simp] theorem length_filled (values : List α) : (filled values).length = values.length := by
  simp [filled]

theorem write_ok {a : CArray α} {i : Nat} (h : i < a.length) (v : α) :
    a.write i v = .ok (a.set i (some v)) :=
  if_pos h

theorem lt_of_write_ok {a a' : CArray α} {i : Nat} {v : α} (h : a.write i v = .ok a') :
    i < a.length ∧ a' = a.set i (some v) := by
  unfold write at h
  split at h
  · rename_i inside
    exact ⟨inside, (Except.ok.inj h).symm⟩
  · cases h

theorem read_of_length_le {a : CArray α} {i : Nat} (outside : a.length ≤ i) :
    a.read i = .error .outOfBounds := by
  rw [read, List.getElem?_eq_none outside]

theorem lt_of_read_ok {a : CArray α} {i : Nat} {v : α} (ok : a.read i = .ok v) : i < a.length := by
  by_contra outside
  rw [read_of_length_le (Nat.not_lt.mp outside)] at ok
  cases ok

/-- A new element has no value. -/
theorem read_malloc_ne (count : Int) (i : Nat) (v : α) : read (malloc count) i ≠ .ok v := by
  rw [read, malloc, List.getElem?_replicate]
  split
  · exact fun returned => by cases returned
  · exact fun returned => by cases returned
  · rename_i found
    split at found
    · cases found
    · cases found

/-- Writing an element leaves the others. -/
theorem read_set {a : CArray α} {i : Nat} (inside : i < a.length) (j : Nat) (v : α) :
    read (a.set i (some v)) j = if j = i then .ok v else a.read j := by
  by_cases same : j = i
  · subst same
    simp [read, inside]
  · rw [if_neg same, read, read, List.getElem?_set_ne (Ne.symm same)]

theorem read_filled {values : List α} {i : Nat} (inside : i < values.length) :
    (filled values).read i = .ok values[i] := by
  simp [read, filled, inside]

theorem write_filled {values : List α} {i : Nat} (inside : i < values.length) (v : α) :
    (filled values).write i v = .ok (filled (values.set i v)) := by
  rw [write_ok (by rwa [length_filled])]
  simp [filled, List.map_set]

theorem read_filled_append (front back : List α) (v : α) :
    (filled (front ++ v :: back)).read front.length = .ok v := by
  simp [read, filled]

theorem set_filled_append (front back : List α) (v w : α) :
    (filled (front ++ v :: back)).set front.length (some w) = filled (front ++ w :: back) := by
  simp [filled]

/-- A write at the front of the elements that are all alike leaves one of them less. -/
theorem write_rest (front : CArray α) (rest : Option α) {size : Nat} (more : front.length < size) (v : α) :
    write (front ++ List.replicate (size - front.length) rest) front.length v =
      .ok (front ++ some v :: List.replicate (size - (front.length + 1)) rest) := by
  obtain ⟨spare, hspare⟩ : ∃ spare, size - front.length = spare + 1 :=
    ⟨size - front.length - 1, by omega⟩
  have later : size - (front.length + 1) = spare := by omega
  have room : front.length < (front ++ List.replicate (size - front.length) rest).length := by
    simp [more]
  rw [write_ok room, hspare, later, List.replicate_succ, List.set_append_right _ _ (Nat.le_refl _),
    Nat.sub_self, List.set_cons_zero]

/-- The same where the elements have been set to one value first. -/
theorem write_filled_rest {values : List α} {size : Nat} (fill : α) (more : values.length < size) (v : α) :
    (filled (values ++ List.replicate (size - values.length) fill)).write values.length v =
      .ok (filled (values ++ [v] ++ List.replicate (size - (values ++ [v]).length) fill)) := by
  have written := write_rest (filled values) (some fill) (by rwa [length_filled]) v
  rw [length_filled] at written
  simpa [filled] using written

end CArray

/-! ### Counting loops -/

/-- `for (i = start; i < stop; i++) body`, with everything the body changes as its state. -/
def forRange (start stop : Nat) (body : σ → Nat → CResult σ) (state : σ) : CResult σ :=
  (List.range' start (stop - start)).foldlM body state

theorem forRange_self (start : Nat) (body : σ → Nat → CResult σ) (state : σ) :
    forRange start start body state = .ok state := by
  simp [forRange]
  rfl

theorem forRange_step {start stop : Nat} (h : start < stop) (body : σ → Nat → CResult σ) (state : σ) :
    forRange start stop body state =
      (body state start).bind fun next => forRange (start + 1) stop body next := by
  obtain ⟨rest, hrest⟩ : ∃ rest, stop - start = rest + 1 := ⟨stop - start - 1, by omega⟩
  have later : stop - (start + 1) = rest := by omega
  rw [forRange, hrest, List.range'_succ, List.foldlM_cons]
  simp only [forRange, later]
  rfl

theorem forRange_concat (passes : Nat) (body : σ → Nat → CResult σ) (state : σ) :
    forRange 0 (passes + 1) body state = forRange 0 passes body state >>= fun next => body next passes := by
  rw [forRange, forRange, Nat.sub_zero, Nat.sub_zero, List.range'_concat, List.foldlM_append, Nat.one_mul,
    Nat.zero_add]
  exact congrArg (_ >>= ·) (funext fun next => by rw [List.foldlM_cons]; exact bind_pure _)

/-- Bodies that do the same in every pass make the same loop. -/
theorem forRange_congr {start stop : Nat} {body body' : σ → Nat → CResult σ}
    (same : ∀ state i, start ≤ i → i < stop → body state i = body' state i) (state : σ) :
    forRange start stop body state = forRange start stop body' state := by
  have along : ∀ indices : List Nat, (∀ i ∈ indices, start ≤ i ∧ i < stop) → ∀ state,
      indices.foldlM body state = indices.foldlM body' state := by
    intro indices
    induction indices with
    | nil => exact fun _ _ => rfl
    | cons i indices ih =>
        intro inside state
        have here := inside i (by simp)
        rw [List.foldlM_cons, List.foldlM_cons, same state i here.1 here.2]
        exact congrArg (body' state i >>= ·) (funext (ih fun j member => inside j (by simp [member])))
  apply along
  intro i member
  rw [List.mem_range'_1] at member
  omega

/-- The total rule: if every pass succeeds and keeps the invariant, the loop does. -/
theorem forRange_ok {start stop : Nat} {body : σ → Nat → CResult σ} {state : σ}
    (invariant : Nat → σ → Prop) (range : start ≤ stop) (init : invariant start state)
    (step : ∀ i state, start ≤ i → i < stop → invariant i state →
      ∃ next, body state i = .ok next ∧ invariant (i + 1) next) :
    ∃ final, forRange start stop body state = .ok final ∧ invariant stop final := by
  induction hcount : stop - start generalizing start state with
  | zero =>
      have done : start = stop := by omega
      subst done
      exact ⟨state, forRange_self start body state, init⟩
  | succ count ih =>
      have more : start < stop := by omega
      obtain ⟨next, ran, kept⟩ := step start state (Nat.le_refl _) more init
      obtain ⟨final, rest, last⟩ := ih more kept
        (fun i state low => step i state (Nat.le_of_succ_le low)) (by omega)
      refine ⟨final, ?_, last⟩
      rw [forRange_step more, ran]
      exact rest

/-- The partial rule: if every pass that succeeds keeps the invariant, a loop that succeeds does. -/
theorem forRange_inv {start stop : Nat} {body : σ → Nat → CResult σ} {state final : σ}
    (invariant : Nat → σ → Prop) (range : start ≤ stop) (init : invariant start state)
    (step : ∀ i state next, start ≤ i → i < stop → invariant i state → body state i = .ok next →
      invariant (i + 1) next)
    (ran : forRange start stop body state = .ok final) : invariant stop final := by
  induction hcount : stop - start generalizing start state with
  | zero =>
      have done : start = stop := by omega
      subst done
      rw [forRange_self] at ran
      exact Except.ok.inj ran ▸ init
  | succ count ih =>
      have more : start < stop := by omega
      rw [forRange_step more] at ran
      cases first : body state start with
      | error fault => simp [first, Except.bind] at ran
      | ok next =>
          rw [first] at ran
          exact ih more (step start state next (Nat.le_refl _) more init first)
            (fun i state next low => step i state next (Nat.le_of_succ_le low)) ran (by omega)

/-- Writing behind the elements that have a value. -/
theorem write_next {values : List α} {i size : Nat} (length : values.length = i) (more : i < size)
    (v : α) :
    (CArray.filled values ++ malloc (size - i : Nat)).write i v =
      .ok (CArray.filled (values ++ [v]) ++ malloc (size - (i + 1) : Nat)) := by
  subst length
  have written := CArray.write_rest (CArray.filled values) none (by rwa [CArray.length_filled]) v
  rw [CArray.length_filled] at written
  simpa [malloc, CArray.filled] using written

/-- `a = malloc(size * sizeof(*a)); for (i = 0; i < size; i++) a[i] = value(i);`. -/
def fillArray (size : Nat) (value : Nat → CResult α) : CResult (CArray α) :=
  forRange 0 size (fun a i => do let v ← value i; a.write i v) (malloc size)

section Fill

variable {size : Nat} {value : Nat → CResult α} {a : CArray α}

/-- The first `i` elements hold their values. -/
def FilledTo (size : Nat) (value : Nat → CResult α) (i : Nat) (a : CArray α) : Prop :=
  ∃ values : List α, values.length = i ∧ a = CArray.filled values ++ malloc (size - i : Nat) ∧
    ∀ (j : Nat) (v : α), values[j]? = some v → value j = .ok v

theorem filledTo_start : FilledTo size value 0 (malloc size) :=
  ⟨[], rfl, rfl, fun _ _ found => by cases found⟩

theorem filledTo_step {i : Nat} {v : α} (filled : FilledTo size value i a) (more : i < size)
    (here : value i = .ok v) : ∃ next, a.write i v = .ok next ∧ FilledTo size value (i + 1) next := by
  obtain ⟨values, length, rfl, defined⟩ := filled
  refine ⟨_, write_next length more v, values ++ [v], by simp [length], rfl, fun j w found => ?_⟩
  rcases Nat.lt_trichotomy j i with less | rfl | greater
  · rw [List.getElem?_append_left (by omega)] at found
    exact defined j w found
  · rw [List.getElem?_append_right (by omega), length, Nat.sub_self] at found
    cases found
    exact here
  · rw [List.getElem?_eq_none (by simp; omega)] at found
    cases found

/-- The array is filled if every value is defined. -/
theorem fillArray_ok (defined : ∀ i < size, ∃ v, value i = .ok v) :
    ∃ a, fillArray size value = .ok a := by
  have step : ∀ i a, 0 ≤ i → i < size → FilledTo size value i a →
      ∃ next, (do let v ← value i; a.write i v) = .ok next ∧ FilledTo size value (i + 1) next := by
    intro i a _ more filled
    obtain ⟨v, here⟩ := defined i more
    obtain ⟨next, write, filled'⟩ := filledTo_step filled more here
    exact ⟨next, bind_eq_ok.mpr ⟨v, here, write⟩, filled'⟩
  obtain ⟨final, ran, -⟩ := forRange_ok (FilledTo size value) (Nat.zero_le size) filledTo_start step
  exact ⟨final, ran⟩

/-- Where every value is defined the array holds them in order. -/
theorem fillArray_map (size : Nat) (element : Nat → α) :
    fillArray size (fun i => .ok (element i)) = .ok (CArray.filled ((List.range size).map element)) := by
  let filledTo (i : Nat) (a : CArray α) : Prop :=
    a = CArray.filled ((List.range i).map element) ++ malloc (size - i : Nat)
  have step : ∀ i a, 0 ≤ i → i < size → filledTo i a →
      ∃ next, CArray.write a i (element i) = .ok next ∧ filledTo (i + 1) next := by
    rintro i a - more rfl
    have length : ((List.range i).map element).length = i := by simp
    have split : (List.range (i + 1)).map element = (List.range i).map element ++ [element i] := by
      simp [List.range_succ]
    refine ⟨_, write_next length more (element i), ?_⟩
    rw [← split]
  obtain ⟨final, ran, rfl⟩ := forRange_ok filledTo (Nat.zero_le size) rfl step
  rw [Nat.sub_self] at ran
  refine Eq.trans ran ?_
  simp [malloc]

/-- Afterwards element `i` is the value for `i`. -/
theorem read_fillArray (ran : fillArray size value = .ok a) :
    a.length = size ∧ ∀ i < size, a.read i = value i ∧ ∃ v, value i = .ok v := by
  have step : ∀ i a next, 0 ≤ i → i < size → FilledTo size value i a →
      (do let v ← value i; a.write i v) = .ok next → FilledTo size value (i + 1) next := by
    intro i a next _ more filled ran
    obtain ⟨v, here, write⟩ := bind_eq_ok.mp ran
    obtain ⟨next', write', filled'⟩ := filledTo_step filled more here
    rw [write] at write'
    exact Except.ok.inj write' ▸ filled'
  obtain ⟨values, length, rfl, defined⟩ : FilledTo size value size a :=
    forRange_inv (FilledTo size value) (Nat.zero_le size) filledTo_start step ran
  refine ⟨by simp [malloc, length], fun i inside => ?_⟩
  have found : values[i]? = some values[i] := List.getElem?_eq_getElem (by omega)
  have here := defined i _ found
  exact ⟨by simp [CArray.read, CArray.filled, malloc, found, here], _, here⟩

end Fill

/-! ### Lines and tokens -/

/-- `fgets(buffer, size, stream)` on a new buffer: at most `size - 1` characters of the first line with its
newline, or nothing when the stream is at its end. -/
def fgets (size : Nat) (stream : Text) : Option Text :=
  if size ≤ 1 then (if size = 1 then some [] else none)
  else if stream = [] then none
  else
    let line := stream.takeWhile (· ≠ '\n')
    some ((line ++ (stream.drop line.length).take 1).take (size - 1))

/-- The buffer after `fgets`; a buffer that nothing was written to has no value. -/
def bufferText (buffer : Option Text) : CResult Text :=
  match buffer with
  | some text => .ok text
  | none => .error .uninitialised

/-- `strtok`: the next token, null when there is none, and the text behind it. -/
def strtok (delimiter : Char → Bool) (text : Text) : Option Text × Text :=
  let start := text.dropWhile delimiter
  if start = [] then (none, [])
  else (some (start.takeWhile fun c => !delimiter c), (start.dropWhile fun c => !delimiter c).drop 1)

/-- The values of `int`. -/
def IsInt (value : Int) : Prop :=
  -2 ^ 31 ≤ value ∧ value < 2 ^ 31

instance : DecidablePred IsInt := fun value => inferInstanceAs (Decidable (-2 ^ 31 ≤ value ∧ value < 2 ^ 31))

/-- The result of an operation on `int`; there is none outside of its range. -/
def intResult (value : Int) : CResult Int :=
  if IsInt value then .ok value else .error .intOverflow

/-- `atoi`: white space, a sign, digits. A value outside the range of `int` is a fault. -/
def atoi (text : Text) : CResult Int :=
  let (negative, digits) := scanSign (text.dropWhile isSpace)
  let size := digitsValue (digits.takeWhile Char.isDigit)
  let value : Int := if negative then -size else size
  intResult value

/-- `atoi(strtok(...))`. -/
def atoiToken (token : Option Text) : CResult Int :=
  match token with
  | some text => atoi text
  | none => .error .nullPointer

/-- `strtok` walks through the words. -/
theorem strtok_eq (delimiter : Char → Bool) (text : Text) :
    (strtok delimiter text).1 = (words delimiter text).head? ∧
      words delimiter (strtok delimiter text).2 = (words delimiter text).tail := by
  obtain ⟨pad, word, rest, shape, separators, clean, stops, empty⟩ := exists_word_prefix delimiter text
  have start : text.dropWhile delimiter = word ++ rest := by
    rw [shape, List.dropWhile_append_of_pos separators]
    cases word with
    | nil => simp [empty rfl]
    | cons c word => simp [clean c (by simp)]
  by_cases none? : word = []
  · rw [none?, empty none?, List.append_nil] at start
    have noWord : words delimiter text = [] := by
      rw [shape, none?, empty none?]
      simpa using words_eq_nil separators
    rw [strtok, start, if_pos rfl, noWord]
    simp
  · have isWord : IsWord delimiter word := ⟨none?, clean⟩
    have token : (word ++ rest).takeWhile (fun c => !delimiter c) = word := by
      rw [List.takeWhile_append_of_pos (by simpa using clean)]
      cases rest with
      | nil => simp
      | cons c rest => simp [stops c rfl]
    have behind : (word ++ rest).dropWhile (fun c => !delimiter c) = rest := by
      rw [List.dropWhile_append_of_pos (by simpa using clean)]
      cases rest with
      | nil => simp
      | cons c rest => simp [stops c rfl]
    have nonempty : word ++ rest ≠ [] := by simp [none?]
    have all : words delimiter text = word :: words delimiter rest := by
      rw [shape, words_leading _ separators, words_word_append isWord rest stops]
    rw [strtok, start, if_neg nonempty, token, behind, all]
    refine ⟨rfl, ?_⟩
    cases rest with
    | nil => simp
    | cons c rest => simp [words_sep_cons rest (stops c rfl)]

/-- `atoi` of digits is their value if an `int` can hold it. -/
theorem atoi_digits {digits : Text} (nonempty : digits ≠ [])
    (allDigits : ∀ c ∈ digits, c.isDigit = true) :
    atoi digits =
      if digitsValue digits < 2 ^ 31 then .ok (digitsValue digits : Int) else .error .intOverflow := by
  obtain ⟨c, rest, shape⟩ := List.exists_cons_of_ne_nil nonempty
  have first : c.isDigit = true := allDigits c (by simp [shape])
  have noSpace : digits.dropWhile isSpace = digits := by
    simp [shape, isSpace_of_isDigit first]
  have noSign : scanSign digits = (false, digits) := by
    rw [shape]
    unfold scanSign
    split
    · rename_i heq
      cases heq
      exact absurd first (by decide)
    · rename_i heq
      cases heq
      exact absurd first (by decide)
    · rfl
  have taken : digits.takeWhile Char.isDigit = digits := by
    have whole : (digits ++ []).takeWhile Char.isDigit = digits := takeWhile_stop allDigits (by simp)
    rwa [List.append_nil] at whole
  have value : atoi digits = intResult (digitsValue digits) := by
    simp only [atoi, noSpace, noSign, taken]
    rfl
  rw [value, intResult]
  by_cases small : digitsValue digits < 2 ^ 31
  · rw [if_pos small, if_pos (by unfold IsInt; omega)]
  · rw [if_neg small, if_neg (by unfold IsInt; omega)]

/-- `atoi` reads back a printed number that an `int` can hold. -/
theorem atoi_natText {n : Nat} (small : n < 2 ^ 31) : atoi (natText n) = .ok (n : Int) := by
  rw [atoi_digits (natText_ne_nil n) fun c => isDigit_of_mem_natText, digitsValue_natText,
    if_pos small]

theorem lt_of_atoi_natText_ok {n : Nat} {value : Int} (ok : atoi (natText n) = .ok value) :
    n < 2 ^ 31 := by
  by_contra large
  rw [atoi_digits (natText_ne_nil n) fun c => isDigit_of_mem_natText, digitsValue_natText,
    if_neg large] at ok
  cases ok

/-- A line that is read into a buffer is cut at the size of the buffer. -/
theorem fgets_line {line : Text} {size : Nat} (clean : '\n' ∉ line) (large : 1 < size) :
    fgets size (line ++ ['\n']) = some ((line ++ ['\n']).take (size - 1)) := by
  have noNewline : ∀ c ∈ line, decide (c ≠ '\n') = true := fun c member =>
    decide_eq_true fun same => clean (same ▸ member)
  have taken : (line ++ ['\n']).takeWhile (fun c => decide (c ≠ '\n')) = line :=
    takeWhile_stop noNewline (by simp)
  have nonempty : line ++ ['\n'] ≠ [] := by simp
  rw [fgets, if_neg (by omega), if_neg nonempty]
  simp only [taken, List.drop_left, List.take_succ_cons, List.take_nil]

/-! ### A line of numbers -/

/-- Two characters that are no digits separate numbers. -/
theorem delimiters_digit {a b c : Char} (first : a.isDigit = false) (second : b.isDigit = false)
    (digit : c.isDigit = true) : (c == a || c == b) = false := by
  rw [Bool.or_eq_false_iff, beq_eq_false_iff_ne, beq_eq_false_iff_ne]
  constructor
  · rintro rfl
    exact absurd digit (Bool.eq_false_iff.mp first)
  · rintro rfl
    exact absurd digit (Bool.eq_false_iff.mp second)

section Ids

variable {delimiter : Char → Bool} {separator : Char} {ids : List Nat}

/-- The words of numbers written with one delimiter between them. -/
theorem words_ids (separates : delimiter separator = true)
    (digits : ∀ c, c.isDigit = true → delimiter c = false) (ids : List Nat) :
    words delimiter (List.intercalate [separator] (ids.map natText)) = ids.map natText := by
  rw [words_intercalate separates, List.flatMap_map]
  induction ids with
  | nil => rfl
  | cons id ids ih =>
      rw [List.flatMap_cons, ih, words_of_isWord (isWord_natText digits id)]
      rfl

theorem mem_ids {c : Char} (member : c ∈ List.intercalate [separator] (ids.map natText)) :
    c = separator ∨ c.isDigit = true := by
  rcases mem_intercalate member with same | ⟨cell, isCell, inside⟩
  · exact Or.inl same
  · obtain ⟨id, -, rfl⟩ := List.mem_map.mp isCell
    exact Or.inr (isDigit_of_mem_natText inside)

/-- Four characters for each number hold a line of numbers of at most three digits. -/
theorem fgets_ids (other : separator ≠ '\n') (nonempty : ids ≠ []) (small : ∀ id ∈ ids, id < 1000) :
    fgets (ids.length * 4 + 1) (List.intercalate [separator] (ids.map natText) ++ ['\n']) =
      some (List.intercalate [separator] (ids.map natText) ++ ['\n']) := by
  have pos := List.length_pos_of_ne_nil nonempty
  have clean : '\n' ∉ List.intercalate [separator] (ids.map natText) := fun member => by
    rcases mem_ids member with same | digit
    · exact other same.symm
    · exact absurd digit (by decide)
  have digits : ((ids.map natText).map List.length).sum ≤ ids.length * 3 := by
    have bound := List.sum_le_card_nsmul ((ids.map natText).map List.length) 3 fun length member => by
      obtain ⟨_, isCell, rfl⟩ := List.mem_map.mp member
      obtain ⟨id, inside, rfl⟩ := List.mem_map.mp isCell
      exact (length_natText_le_iff (by decide)).mpr (small id inside)
    simpa using bound
  have length : (List.intercalate [separator] (ids.map natText) ++ ['\n']).length ≤
      ids.length * 4 := by
    rw [List.length_append, length_intercalate, List.length_map, List.length_singleton]
    omega
  rw [fgets_line clean (by omega), Nat.add_sub_cancel, List.take_of_length_le length]

end Ids

/-! ### Tokens into an array -/

/-- `token = strtok(NULL, delimiter); a[i] = atoi(token);` on the array and the text that is left. -/
def storeToken (delimiter : Char → Bool) (state : CArray Int × Text) (i : Nat) :
    CResult (CArray Int × Text) := do
  let (token, rest) := strtok delimiter state.2
  let value ← atoiToken token
  let a ← state.1.write i value
  pure (a, rest)

section Tokens

variable {delimiter : Char → Bool} {size : Nat} {tokens : List Text}

/-- The first `i` tokens are in the array and the others are still in the text. -/
def TokensStored (delimiter : Char → Bool) (size : Nat) (tokens : List Text) (i : Nat)
    (state : CArray Int × Text) : Prop :=
  ∃ values : List Int, values.length = i ∧ state.1 = CArray.filled values ++ malloc (size - i : Nat) ∧
    words delimiter state.2 = tokens.drop i ∧ (tokens.take i).map atoi = values.map .ok

/-- A pass stores the next token if there is one and it is the text of an `int`. -/
theorem storeToken_eq {i : Nat} {state : CArray Int × Text} {word : Text} {v : Int}
    (stored : TokensStored delimiter size tokens i state) (more : i < size)
    (token : tokens[i]? = some word) (value : atoi word = .ok v) :
    ∃ next, storeToken delimiter state i = .ok next ∧
      TokensStored delimiter size tokens (i + 1) next := by
  obtain ⟨values, length, array, text, read⟩ := stored
  obtain ⟨first, rest⟩ := strtok_eq delimiter state.2
  have head : (strtok delimiter state.2).1 = some word := by
    rw [first, text, List.head?_drop, token]
  refine ⟨(CArray.filled (values ++ [v]) ++ malloc (size - (i + 1) : Nat),
    (strtok delimiter state.2).2), ?_, values ++ [v], by simp [length], rfl, ?_, ?_⟩
  · simp [storeToken, head, atoiToken, value, array, write_next length more, bind, Except.bind, pure,
      Except.pure]
  · rw [rest, text, List.tail_drop]
  · rw [List.take_add_one, token, List.map_append, read]
    simp [value]

/-- And a pass that succeeds had such a token. -/
theorem token_of_storeToken {i : Nat} {state next : CArray Int × Text}
    (stored : TokensStored delimiter size tokens i state)
    (ran : storeToken delimiter state i = .ok next) :
    ∃ word v, tokens[i]? = some word ∧ atoi word = .ok v := by
  obtain ⟨values, -, -, text, -⟩ := stored
  have returned : ∃ v, atoiToken (strtok delimiter state.2).1 = .ok v := by
    obtain ⟨v, value, -⟩ := bind_eq_ok.mp ran
    exact ⟨v, value⟩
  obtain ⟨v, value⟩ := returned
  have head : (strtok delimiter state.2).1 = tokens[i]? := by
    rw [(strtok_eq delimiter state.2).1, text, List.head?_drop]
  rw [head] at value
  cases token : tokens[i]? with
  | none =>
      rw [token] at value
      cases value
  | some word =>
      rw [token] at value
      exact ⟨word, v, rfl, value⟩

theorem tokensStored_start (text : Text) :
    TokensStored delimiter size (words delimiter text) 0 (malloc size, text) :=
  ⟨[], rfl, rfl, rfl, rfl⟩

/-- A loop that succeeds has stored the values of the first tokens. -/
theorem storeTokens_inv {text : Text} {final : CArray Int × Text}
    (ran : forRange 0 size (storeToken delimiter) (malloc size, text) = .ok final) :
    ∃ values : List Int, final.1 = CArray.filled values ∧ values.length = size ∧
      ((words delimiter text).take size).map atoi = values.map .ok := by
  have stored : TokensStored delimiter size (words delimiter text) size final :=
    forRange_inv _ (Nat.zero_le size) (tokensStored_start text)
      (fun i state next _ more stored ran => by
        obtain ⟨word, v, token, value⟩ := token_of_storeToken stored ran
        obtain ⟨next', ran', stored'⟩ := storeToken_eq stored more token value
        rw [ran] at ran'
        exact Except.ok.inj ran' ▸ stored') ran
  obtain ⟨values, length, array, -, read⟩ := stored
  exact ⟨values, by simpa [malloc] using array, length, read⟩

/-- And it succeeds when the tokens are there. -/
theorem storeTokens_ok {text : Text} {values : List Int} (length : values.length = size)
    (read : ((words delimiter text).take size).map atoi = values.map .ok) :
    ∃ final, forRange 0 size (storeToken delimiter) (malloc size, text) = .ok final ∧
      final.1 = CArray.filled values := by
  obtain ⟨final, ran, values', length', array, -, read'⟩ :=
    forRange_ok (TokensStored delimiter size (words delimiter text)) (Nat.zero_le size)
      (tokensStored_start text) (fun i state _ more stored => by
        have inside : i < (((words delimiter text).take size).map atoi).length := by
          rw [read, List.length_map, length]
          exact more
        have value := congrArg (fun list => list[i]?) read
        simp only [List.length_map, List.length_take] at inside
        have token := List.getElem?_eq_getElem (show i < (words delimiter text).length by omega)
        simp only [List.getElem?_map, List.getElem?_take, if_pos more, token, Option.map_some,
          List.getElem?_eq_getElem (show i < values.length by omega), Option.some.injEq] at value
        exact storeToken_eq stored more token value)
  have same : values' = values := by
    rw [read] at read'
    exact (List.map_injective_iff.mpr fun _ _ => Except.ok.inj) read'.symm
  exact ⟨final, ran, by simp [array, same, malloc]⟩

end Tokens

/-! ### Insertion sort -/

/-- `for (j = i - 1; j >= 0 && aux < a[j]; j--) a[j + 1] = a[j];`, called with `j + 1` and returning the
array and the last `j + 1`. -/
def shiftUp (aux : Int) : Nat → CArray Int → CResult (CArray Int × Nat)
  | 0, a => .ok (a, 0)
  | j + 1, a =>
      (a.read j).bind fun v =>
        if aux < v then (a.write (j + 1) v).bind fun a => shiftUp aux j a else .ok (a, j + 1)

/-- `for (i = 1; i < n; i++) { aux = a[i]; ...; a[j + 1] = aux; }`. -/
def insertionSort (n : Nat) (a : CArray Int) : CResult (CArray Int) :=
  forRange 1 n (fun a i =>
    (a.read i).bind fun aux => (shiftUp aux i a).bind fun (a, hole) => a.write hole aux) a

/-- The inner loop moves the hole down past the larger values and stops at one that is not larger. -/
theorem shiftUp_spec (aux : Int) (front : List Int) (hole : Int) (back : List Int) :
    ∃ low high hole', front = low ++ high ∧ (∀ v ∈ high, aux < v) ∧
      (∀ v, low.getLast? = some v → v ≤ aux) ∧
      shiftUp aux front.length (CArray.filled (front ++ hole :: back)) =
        .ok (CArray.filled (low ++ hole' :: (high ++ back)), low.length) := by
  induction front using List.reverseRecOn generalizing hole back with
  | nil => exact ⟨[], [], hole, rfl, by simp, by simp, rfl⟩
  | append_singleton front v ih =>
      have read := CArray.read_filled_append front (hole :: back) v
      rw [List.length_append, List.length_singleton, List.append_assoc, List.singleton_append,
        shiftUp, read]
      by_cases larger : aux < v
      · have inside : front.length + 1 < (CArray.filled (front ++ v :: hole :: back)).length := by
          simp
        have shifted : (CArray.filled (front ++ v :: hole :: back)).set (front.length + 1) (some v) =
            CArray.filled (front ++ v :: v :: back) := by
          have shape := CArray.set_filled_append (front ++ [v]) back hole v
          simpa using shape
        obtain ⟨low, high, hole', split, above, stop, ran⟩ := ih v (v :: back)
        refine ⟨low, high ++ [v], hole', by rw [split, List.append_assoc], ?_, stop, ?_⟩
        · intro w member
          rcases List.mem_append.mp member with earlier | last
          · exact above w earlier
          · exact List.mem_singleton.mp last ▸ larger
        · simp only [Except.bind, if_pos larger, CArray.write_ok inside, shifted, ran]
          simp
      · refine ⟨front ++ [v], [], hole, by simp, by simp, ?_, by simp [Except.bind, larger]⟩
        intro w last
        rw [List.getLast?_concat] at last
        exact Option.some.inj last ▸ Int.not_lt.mp larger

/-- A value put between those that are not larger and the larger ones keeps the order. -/
theorem pairwise_insert {aux : Int} {low high : List Int} (sorted : (low ++ high).Pairwise (· ≤ ·))
    (above : ∀ v ∈ high, aux < v) (stop : ∀ v, low.getLast? = some v → v ≤ aux) :
    (low ++ aux :: high).Pairwise (· ≤ ·) := by
  obtain ⟨lowSorted, highSorted, across⟩ := List.pairwise_append.mp sorted
  have below : ∀ v ∈ low, v ≤ aux := by
    intro v member
    obtain ⟨rest, last, rfl⟩ := List.eq_nil_or_concat' low |>.resolve_left (List.ne_nil_of_mem member)
    have lastLe : last ≤ aux := stop last List.getLast?_concat
    rcases List.mem_append.mp member with earlier | here
    · have ordered := (List.pairwise_append.mp lowSorted).2.2 v earlier last (by simp)
      exact Int.le_trans ordered lastLe
    · exact List.mem_singleton.mp here ▸ lastLe
  refine List.pairwise_append.mpr ⟨lowSorted, ?_, ?_⟩
  · exact List.pairwise_cons.mpr ⟨fun v member => Int.le_of_lt (above v member), highSorted⟩
  · intro v first w second
    rcases List.mem_cons.mp second with rfl | later
    · exact below v first
    · exact across v first w later

/-- The first `i` elements are in order, and no value is lost. -/
def SortedTo (values : List Int) (i : Nat) (a : CArray Int) : Prop :=
  ∃ front back, a = CArray.filled (front ++ back) ∧ front.length = i ∧
    (front ++ back).Perm values ∧ front.Pairwise (· ≤ ·)

/-- A pass of the outer loop puts the next value in its place. -/
theorem sortedTo_step {values : List Int} {i : Nat} {a : CArray Int} (sorted : SortedTo values i a)
    (more : i < values.length) :
    ∃ next, ((a.read i).bind fun aux =>
        (shiftUp aux i a).bind fun (a, hole) => a.write hole aux) = .ok next ∧
      SortedTo values (i + 1) next := by
  obtain ⟨front, back, rfl, length, perm, ordered⟩ := sorted
  have total := perm.length_eq
  rw [List.length_append] at total
  obtain ⟨aux, rest, rfl⟩ := List.exists_cons_of_length_pos (show 0 < back.length by omega)
  obtain ⟨low, high, hole, rfl, above, stop, shifted⟩ := shiftUp_spec aux front aux rest
  have read := CArray.read_filled_append (low ++ high) rest aux
  have room : low.length < (CArray.filled (low ++ hole :: (high ++ rest))).length := by simp
  rw [length] at read shifted
  refine ⟨CArray.filled (low ++ aux :: (high ++ rest)), ?_, low ++ aux :: high, rest, ?_, ?_, ?_, ?_⟩
  · simp only [read, shifted, Except.bind, CArray.write_ok room, CArray.set_filled_append]
  · simp
  · rw [List.length_append] at length
    rw [List.length_append, List.length_cons]
    omega
  · refine List.Perm.trans ?_ perm
    rw [List.append_assoc, List.append_assoc]
    exact List.Perm.append_left low List.perm_middle.symm
  · exact pairwise_insert ordered above stop

/-- The sort ends with the same values in order. -/
theorem insertionSort_sorted (values : List Int) :
    ∃ sorted, insertionSort values.length (CArray.filled values) = .ok (CArray.filled sorted) ∧
      sorted.Perm values ∧ sorted.Pairwise (· ≤ ·) := by
  rcases values with _ | ⟨first, rest⟩
  · exact ⟨[], rfl, List.Perm.refl _, List.Pairwise.nil⟩
  · have start : SortedTo (first :: rest) 1 (CArray.filled (first :: rest)) :=
      ⟨[first], rest, rfl, rfl, List.Perm.refl _, List.pairwise_singleton _ _⟩
    obtain ⟨final, ran, front, back, rfl, length, perm, ordered⟩ :=
      forRange_ok (SortedTo (first :: rest)) (Nat.succ_le_of_lt (List.length_pos_of_ne_nil (by simp)))
        start fun i a _ more sorted => sortedTo_step sorted more
    have total := perm.length_eq
    rw [List.length_append] at total
    obtain rfl : back = [] := List.length_eq_zero_iff.mp (by omega)
    rw [List.append_nil] at ran perm
    exact ⟨front, ran, perm, ordered⟩

/-- The sort ends with the same values in the array. -/
theorem insertionSort_spec (values : List Int) :
    ∃ sorted, insertionSort values.length (CArray.filled values) = .ok (CArray.filled sorted) ∧
      sorted.Perm values := by
  obtain ⟨sorted, ran, perm, -⟩ := insertionSort_sorted values
  exact ⟨sorted, ran, perm⟩

end Numafac
