/-
Module: Numafac.Script.Commands
Layer: Script
Purpose: The commands that `calc_numafactor.sh` and `topology.sh` pipe their files through, on the lines
  of a file, and the shell variables of the two scripts. A variable holds at most one word, because
  every assignment of the scripts is `declare $var=...` with an unquoted right-hand side.
Trusted boundary: none
Main exports: tail, head, awkSecond, egrepTriad, cutField, cutColumns, sedDropBlank, echoWords,
  ShellVars, indexedName, tabelaVar, indexedName_inj
-/
import Mathlib.Data.List.Infix
import Numafac.Base.Decimal
import Numafac.Base.FileSteps
import Numafac.Base.Scan

namespace Numafac

/-! ### Filters -/

/-- `tail -count`. -/
def tail (count : Nat) (lines : List Text) : List Text :=
  lines.drop (lines.length - count)

/-- `head -count`. -/
def head (count : Nat) (lines : List Text) : List Text :=
  lines.take count

/-- `awk '{print $2}'` on one line: the second word, or an empty line. -/
def secondWord (line : Text) : Text :=
  (words isBlank line).getD 1 []

/-- `awk '{print $2}'`. -/
def awkSecond (lines : List Text) : List Text :=
  lines.map secondWord

/-- The pattern of `egrep '(Triad)'`. -/
def triad : Text := ['T', 'r', 'i', 'a', 'd']

/-- `egrep '(Triad)'`. -/
def egrepTriad (lines : List Text) : List Text :=
  lines.filter fun line => triad <:+: line

/-- `cut -f{field}` on one line; a line without a tab passes through whole. -/
def cutField (field : Nat) (line : Text) : Text :=
  if '\t' ∈ line then (line.splitOn '\t').getD (field - 1) [] else line

/-- `cut -c{first}-{last}` on one line. -/
def cutColumns (first last : Nat) (line : Text) : Text :=
  (line.take last).drop (first - 1)

/-- `sed '/^$/d'`. -/
def sedDropBlank (lines : List Text) : List Text :=
  lines.filter fun line => line ≠ []

/-- The line that `echo` prints for unquoted expansions: their words, joined by single blanks. -/
def echoWords (expansions : List Text) : Text :=
  List.intercalate [' '] (expansions.flatMap (words isBlank))

/-! ### Variables -/

/-- The variables of a running script: the dynamically named ones, and the number of `- ` in `$columns`.
An unset variable expands to nothing. -/
structure ShellVars where
  vars : Text → Text
  columns : Nat

/-- The variables when a script starts. -/
def ShellVars.initial : ShellVars := { vars := fun _ => [], columns := 0 }

/-- `declare $name=$text`: the first word of the expansion is assigned. -/
def ShellVars.declare (shell : ShellVars) (name text : Text) : ShellVars :=
  { shell with vars := Function.update shell.vars name (firstWord text) }

/-- `{stem}_{i}_{j}`. -/
def indexedName (stem : Text) (i j : Nat) : Text :=
  stem ++ '_' :: (natText i ++ '_' :: natText j)

/-- `tabela_{i}_{j}`. -/
def tabelaVar (i j : Nat) : Text :=
  indexedName ['t', 'a', 'b', 'e', 'l', 'a'] i j

/-- `fator_{i}_{j}`. -/
def fatorVar (i j : Nat) : Text :=
  indexedName ['f', 'a', 't', 'o', 'r'] i j

/-- `latency_{i}_{j}`. -/
def latencyVar (i j : Nat) : Text :=
  indexedName ['l', 'a', 't', 'e', 'n', 'c', 'y'] i j

@[simp] theorem declare_columns (shell : ShellVars) (name text : Text) :
    (shell.declare name text).columns = shell.columns := rfl

@[simp] theorem declare_vars_self (shell : ShellVars) (name text : Text) :
    (shell.declare name text).vars name = firstWord text := by
  simp [ShellVars.declare]

theorem declare_vars_of_ne (shell : ShellVars) {name other : Text} (text : Text)
    (h : other ≠ name) : (shell.declare name text).vars other = shell.vars other := by
  simp [ShellVars.declare, h]

/-- The two indices can be read off the name: the digits end at the underscore between them. -/
theorem indexedName_inj {stem : Text} {i j i' j' : Nat}
    (same : indexedName stem i j = indexedName stem i' j') : i = i' ∧ j = j' := by
  have tails : natText i ++ '_' :: natText j = natText i' ++ '_' :: natText j' := by
    simpa [indexedName] using same
  have underscore : ∀ k c, ('_' :: natText k).head? = some c → c.isDigit = false := by
    intro k c first
    simp only [List.head?_cons, Option.some.injEq] at first
    subst first
    rfl
  have digits : ∀ k, ∀ c ∈ natText k, c.isDigit = true := fun k c => isDigit_of_mem_natText
  have fronts := congrArg (List.takeWhile Char.isDigit) tails
  have backs := congrArg (List.dropWhile Char.isDigit) tails
  rw [takeWhile_stop (digits i) (underscore j), takeWhile_stop (digits i') (underscore j')] at fronts
  rw [dropWhile_stop (digits i) (underscore j), dropWhile_stop (digits i') (underscore j')] at backs
  exact ⟨natText_injective fronts, natText_injective (List.cons.inj backs).2⟩

theorem tabelaVar_inj {i j i' j' : Nat} (same : tabelaVar i j = tabelaVar i' j') : i = i' ∧ j = j' :=
  indexedName_inj same

theorem tabelaVar_ne_fatorVar (i j i' j' : Nat) : tabelaVar i j ≠ fatorVar i' j' := by
  simp [tabelaVar, fatorVar, indexedName]

theorem tabelaVar_ne_latencyVar (i j i' j' : Nat) : tabelaVar i j ≠ latencyVar i' j' := by
  simp [tabelaVar, latencyVar, indexedName]

theorem fatorVar_ne_latencyVar (i j i' j' : Nat) : fatorVar i j ≠ latencyVar i' j' := by
  simp [fatorVar, latencyVar, indexedName]

/-! ### Facts about the filters -/

theorem secondWord_noBlank (line : Text) : ∀ c ∈ secondWord line, isBlank c = false := by
  intro c member
  rw [secondWord, List.getD_eq_getElem?_getD] at member
  cases found : (words isBlank line)[1]? with
  | none => simp [found] at member
  | some word =>
      rw [found, Option.getD_some] at member
      exact (isWord_of_mem_words (List.mem_of_getElem? found)).2 c member

/-- The last two lines of an output that ends in two known lines. -/
theorem tail_two_append (front : List Text) (first second : Text) :
    tail 2 (front ++ [first, second]) = [first, second] := by
  simp [tail]

theorem length_tail_le (count : Nat) (lines : List Text) : (tail count lines).length ≤ count := by
  simp only [tail, List.length_drop]
  omega

/-- `echo` prints one word unchanged. -/
theorem echoWords_single {word : Text} (h : IsWord isBlank word) : echoWords [word] = word := by
  simp [echoWords, words_of_isWord h]

theorem echoWords_three {first second third : Text} (h₁ : IsWord isBlank first)
    (h₂ : IsWord isBlank second) (h₃ : IsWord isBlank third) :
    echoWords [first, second, third] = first ++ ' ' :: (second ++ ' ' :: third) := by
  simp [echoWords, words_of_isWord h₁, words_of_isWord h₂, words_of_isWord h₃, List.intercalate]

end Numafac
