/-
Module: Numafac.Base.Text
Layer: Base
Purpose: Texts as lists of characters, their blank-separated words, and the C notion of white space.
  Nothing here is about the modelled repository: the command models and the C readers both cut lines
  into words, and every later token argument goes through `words_append_sep` and `exists_word_prefix`.
Trusted boundary: none
Main exports: Text, isSpace, isBlank, words, IsWord, words_append_sep, exists_word_prefix, firstWord
-/
import Mathlib.Algebra.GroupWithZero.Nat
import Mathlib.Data.List.TakeWhile
import Mathlib.Tactic.Common

namespace Numafac

/-- A text is a list of characters. A file is a list of texts, one for each newline-terminated line. -/
abbrev Text := List Char

/-- `isspace` of the C locale: the blank and the control characters 9 to 13. -/
def isSpace (c : Char) : Bool :=
  c.toNat == 32 || (9 ≤ c.toNat && c.toNat ≤ 13)

/-- The separators that the shell's `IFS` and `awk` use by default. -/
def isBlank (c : Char) : Bool :=
  c == ' ' || c == '\t' || c == '\n'

theorem isSpace_of_isBlank {c : Char} (blank : isBlank c = true) : isSpace c = true := by
  simp only [isBlank, Bool.or_eq_true, beq_iff_eq] at blank
  rcases blank with (rfl | rfl) | rfl <;> rfl

section Words

variable {α : Type}

/-- The maximal nonempty runs of non-separators, in order. -/
def words (sep : α → Bool) (text : List α) : List (List α) :=
  (text.splitOnP sep).filter fun word => !word.isEmpty

/-- A word is nonempty and free of separators. -/
def IsWord (sep : α → Bool) (word : List α) : Prop :=
  word ≠ [] ∧ ∀ c ∈ word, sep c = false

instance (sep : α → Bool) (word : List α) : Decidable (IsWord sep word) :=
  haveI := List.decidableBAll (fun c => sep c = false) word
  inferInstanceAs (Decidable (word ≠ [] ∧ ∀ c ∈ word, sep c = false))

@[simp] theorem words_nil (sep : α → Bool) : words sep [] = [] := by
  simp [words]

/-- Cutting at a separator splits the words. -/
theorem words_append_sep {sep : α → Bool} {c : α} (front back : List α) (hc : sep c = true) :
    words sep (front ++ c :: back) = words sep front ++ words sep back := by
  simp only [words, List.splitOnP_append_cons front back hc, List.filter_append]

@[simp] theorem words_sep_cons {sep : α → Bool} {c : α} (text : List α) (hc : sep c = true) :
    words sep (c :: text) = words sep text := by
  simpa using words_append_sep [] text hc

/-- Leading separators do not count. -/
theorem words_leading {sep : α → Bool} {pad : List α} (text : List α)
    (separators : ∀ c ∈ pad, sep c = true) : words sep (pad ++ text) = words sep text := by
  induction pad with
  | nil => rfl
  | cons c pad ih =>
      rw [List.cons_append, words_sep_cons _ (separators c (by simp))]
      exact ih fun d member => separators d (by simp [member])

theorem words_of_isWord {sep : α → Bool} {word : List α} (h : IsWord sep word) :
    words sep word = [word] := by
  have whole : word.splitOnP sep = [word] :=
    List.splitOnP_eq_singleton h.2
  simp [words, whole, h.1]

/-- A word followed by nothing or by a separator is the first word. -/
theorem words_word_append {sep : α → Bool} {word : List α} (h : IsWord sep word) (rest : List α)
    (stops : ∀ c, rest.head? = some c → sep c = true) :
    words sep (word ++ rest) = word :: words sep rest := by
  cases rest with
  | nil => simp [words_of_isWord h]
  | cons c rest =>
      have hc : sep c = true := stops c rfl
      rw [words_append_sep _ _ hc, words_of_isWord h, words_sep_cons _ hc]
      rfl

/-- A text of separators has no word. -/
theorem words_eq_nil {sep : α → Bool} {text : List α} (separators : ∀ c ∈ text, sep c = true) :
    words sep text = [] := by
  simpa using words_leading [] separators

/-- Every text splits into leading separators, at most one whole word, and a tail that begins with a
separator. This is the shape a scanner meets, so the token arguments of the readers start here. -/
theorem exists_word_prefix (sep : α → Bool) (text : List α) :
    ∃ pad word rest, text = pad ++ (word ++ rest) ∧ (∀ c ∈ pad, sep c = true) ∧
      (∀ c ∈ word, sep c = false) ∧ (∀ c, rest.head? = some c → sep c = true) ∧
      (word = [] → rest = []) := by
  refine ⟨text.takeWhile sep, (text.dropWhile sep).takeWhile fun c => !sep c,
    (text.dropWhile sep).dropWhile fun c => !sep c, ?_, ?_, ?_, ?_, ?_⟩
  · rw [List.takeWhile_append_dropWhile, List.takeWhile_append_dropWhile]
  · intro c member
    exact List.mem_takeWhile_imp member
  · intro c member
    simpa using List.mem_takeWhile_imp member
  · intro c first
    have stopped := List.head?_dropWhile_not (fun c => !sep c) (text.dropWhile sep)
    rw [first] at stopped
    simpa using stopped
  · intro empty
    cases tail : text.dropWhile sep with
    | nil => rfl
    | cons c tail =>
        have stopped := List.head?_dropWhile_not sep text
        rw [tail] at stopped
        simp only [List.head?_cons] at stopped
        simp [tail, stopped] at empty

/-- Pieces joined by a separator have the words of the pieces. -/
theorem words_intercalate {sep : α → Bool} {c : α} (hc : sep c = true) (cells : List (List α)) :
    words sep (List.intercalate [c] cells) = cells.flatMap (words sep) := by
  induction cells with
  | nil => simp
  | cons cell cells ih =>
      cases cells with
      | nil => simp
      | cons next cells =>
          rw [List.intercalate_cons_cons, List.append_assoc, List.singleton_append,
            words_append_sep _ _ hc, ih]
          rfl

theorem length_intercalate (c : α) (cells : List (List α)) :
    (List.intercalate [c] cells).length = (cells.map List.length).sum + (cells.length - 1) := by
  induction cells with
  | nil => rfl
  | cons cell cells ih =>
      cases cells with
      | nil => simp
      | cons next cells =>
          rw [List.intercalate_cons_cons, List.length_append, List.length_append, ih]
          simp only [List.map_cons, List.sum_cons, List.length_cons, List.length_nil]
          omega

theorem mem_intercalate {c d : α} {cells : List (List α)} (member : d ∈ List.intercalate [c] cells) :
    d = c ∨ ∃ cell ∈ cells, d ∈ cell := by
  induction cells with
  | nil => cases member
  | cons cell cells ih =>
      cases cells with
      | nil => exact Or.inr ⟨cell, by simp, by simpa using member⟩
      | cons next cells =>
          rw [List.intercalate_cons_cons, List.mem_append, List.mem_append, List.mem_singleton] at member
          rcases member with (here | separator) | later
          · exact Or.inr ⟨cell, by simp, here⟩
          · exact Or.inl separator
          · rcases ih later with separator | ⟨cell', inside, there⟩
            · exact Or.inl separator
            · exact Or.inr ⟨cell', List.mem_cons_of_mem _ inside, there⟩

/-- The first word determines the shape of the text. -/
theorem exists_of_words_eq_cons {sep : α → Bool} {text word : List α} {tail : List (List α)}
    (h : words sep text = word :: tail) :
    ∃ pad rest, text = pad ++ (word ++ rest) ∧ (∀ c ∈ pad, sep c = true) ∧ IsWord sep word ∧
      (∀ c, rest.head? = some c → sep c = true) ∧ words sep rest = tail := by
  obtain ⟨pad, first, rest, shape, separators, clean, stops, hempty⟩ := exists_word_prefix sep text
  rw [shape, words_leading _ separators] at h
  by_cases hfirst : first = []
  · rw [hfirst, hempty hfirst] at h
    simp at h
  · have isWord : IsWord sep first := ⟨hfirst, clean⟩
    rw [words_word_append isWord rest stops] at h
    injection h with same sameTail
    subst same
    exact ⟨pad, rest, shape, separators, isWord, stops, sameTail⟩

theorem isWord_of_mem_words {sep : α → Bool} {text word : List α} (member : word ∈ words sep text) :
    IsWord sep word := by
  induction hwords : words sep text generalizing text with
  | nil =>
      rw [hwords] at member
      simp at member
  | cons first tail ih =>
      obtain ⟨pad, rest, _, _, isWord, _, tailEq⟩ := exists_of_words_eq_cons hwords
      rw [hwords] at member
      rcases List.mem_cons.mp member with here | later
      · exact here ▸ isWord
      · exact ih (tailEq ▸ later) tailEq

/-- The words are in the text, with a separator between neighbours. -/
theorem words_size (sep : α → Bool) (text : List α) :
    (words sep text).flatten.Sublist text ∧
      ((words sep text).map List.length).sum + (words sep text).length ≤ text.length + 1 := by
  induction hwords : words sep text generalizing text with
  | nil => simp
  | cons first tail ih =>
      obtain ⟨pad, rest, rfl, -, -, stops, tailEq⟩ := exists_of_words_eq_cons hwords
      obtain ⟨inside, size⟩ := ih rest tailEq
      refine ⟨?_, ?_⟩
      · rw [List.flatten_cons]
        exact (inside.append_left first).trans (List.sublist_append_right pad _)
      · rw [List.map_cons, List.sum_cons, List.length_cons, List.length_append, List.length_append]
        cases tail with
        | nil => simp; omega
        | cons second tail =>
            -- the separator behind the first word belongs to no word
            cases rest with
            | nil => simp at tailEq
            | cons c rest =>
                rw [words_sep_cons _ (stops c rfl)] at tailEq
                have size := (ih rest tailEq).2
                simp only [List.length_cons] at size ⊢
                omega

end Words

/-- The first word of an unquoted expansion, empty when there is none. This is what an assignment
`declare name=$text` keeps. -/
def firstWord (text : Text) : Text :=
  (words isBlank text).headD []

theorem firstWord_of_isWord {word : Text} (h : IsWord isBlank word) : firstWord word = word := by
  simp [firstWord, words_of_isWord h]

/-- The value of an assignment never contains a blank. -/
theorem firstWord_noBlank (text : Text) : ∀ c ∈ firstWord text, isBlank c = false := by
  cases hwords : words isBlank text with
  | nil => simp [firstWord, hwords]
  | cons word tail =>
      have member : word ∈ words isBlank text := by simp [hwords]
      have isWord : IsWord isBlank word := isWord_of_mem_words member
      simpa [firstWord, hwords] using isWord.2

end Numafac
