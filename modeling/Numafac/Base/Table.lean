/-
Module: Numafac.Base.Table
Layer: Base
Purpose: Square and rectangular tables as flat lists in row-major order, and as text files. The nested
  loops over rows and columns visit the flat positions in order (`rowMajor_eq`), which is what makes the
  quotient and the remainder of a counter undo them. `paste` puts lines side by side with tabs; a cell
  of its output is the line at the row-major position (`cellAt_paste`), and the words of the whole
  output are the lines again (`words_streamOf_paste`).
Trusted boundary: none
Main exports: rowMajor, rowMajor_eq, paste, cellAt, cellAt_paste, streamOf, words_streamOf_paste,
  length_paste, lineStart, length_of_own_line
-/
import Mathlib.Algebra.Order.Group.Nat
import Mathlib.Data.List.Basic
import Mathlib.Data.List.Flatten
import Mathlib.Tactic.Ring
import Numafac.Base.Text

namespace Numafac

/-! ### Row-major order -/

/-- The index pairs in the order of a loop over rows around a loop over columns. -/
def rowMajor (rows columns : Nat) : List (Nat × Nat) :=
  (List.range rows).flatMap fun row => (List.range columns).map fun column => (row, column)

/-- The `p`-th pair of the nested loops is quotient and remainder of `p` by the row length. -/
theorem rowMajor_eq (rows columns : Nat) :
    rowMajor rows columns =
      (List.range (rows * columns)).map fun p => (p / columns, p % columns) := by
  induction rows with
  | zero => simp [rowMajor]
  | succ rows ih =>
      have lastRow :
          ((List.range columns).map (rows * columns + ·)).map (fun p => (p / columns, p % columns)) =
            (List.range columns).map fun column => (rows, column) := by
        rw [List.map_map]
        apply List.map_congr_left
        intro column member
        have small : column < columns := List.mem_range.mp member
        have pos : 0 < columns := Nat.zero_lt_of_lt small
        simp [Nat.mul_comm rows columns, Nat.mul_add_div pos, Nat.div_eq_of_lt small,
          Nat.mod_eq_of_lt small]
      rw [Nat.succ_mul, List.range_add, List.map_append, lastRow, ← ih]
      simp [rowMajor, List.range_succ]

@[simp] theorem length_rowMajor (rows columns : Nat) :
    (rowMajor rows columns).length = rows * columns := by
  simp [rowMajor_eq]

theorem mem_rowMajor {rows columns : Nat} {cell : Nat × Nat} :
    cell ∈ rowMajor rows columns ↔ cell.1 < rows ∧ cell.2 < columns := by
  rcases cell with ⟨row, column⟩
  simp [rowMajor]

/-- The flat position of a cell lies inside the table. -/
theorem position_lt {rows columns row column : Nat} (hrow : row < rows) (hcolumn : column < columns) :
    row * columns + column < rows * columns := by
  calc
    row * columns + column < row * columns + columns := Nat.add_lt_add_left hcolumn _
    _ = (row + 1) * columns := by ring
    _ ≤ rows * columns := Nat.mul_le_mul_right _ hrow

theorem position_div {columns row column : Nat} (hcolumn : column < columns) :
    (row * columns + column) / columns = row := by
  have pos : 0 < columns := Nat.zero_lt_of_lt hcolumn
  rw [Nat.mul_comm, Nat.mul_add_div pos, Nat.div_eq_of_lt hcolumn, Nat.add_zero]

theorem position_mod {columns row column : Nat} (hcolumn : column < columns) :
    (row * columns + column) % columns = column := by
  rw [Nat.mul_comm, Nat.mul_add_mod, Nat.mod_eq_of_lt hcolumn]

theorem getElem?_rowMajor {rows columns row column : Nat} (hrow : row < rows)
    (hcolumn : column < columns) :
    (rowMajor rows columns)[row * columns + column]? = some (row, column) := by
  rw [rowMajor_eq, List.getElem?_map, List.getElem?_range (position_lt hrow hcolumn)]
  simp [position_div hcolumn, position_mod hcolumn]

/-- Two cells at the same position are the same cell. -/
theorem position_inj {columns row column row' column' : Nat} (hcolumn : column < columns)
    (hcolumn' : column' < columns)
    (same : row * columns + column = row' * columns + column') : row = row' ∧ column = column' := by
  constructor
  · have quotients := congrArg (· / columns) same
    simpa only [position_div hcolumn, position_div hcolumn'] using quotients
  · have remainders := congrArg (· % columns) same
    simpa only [position_mod hcolumn, position_mod hcolumn'] using remainders

/-! ### Tables as text -/

/-- `paste - - ... -`: that many lines side by side, separated by tabs, the last row padded with empty
cells. -/
def paste (columns : Nat) (lines : List Text) : List Text :=
  (List.range ((lines.length + columns - 1) / columns)).map fun row =>
    List.intercalate ['\t']
      ((List.range columns).map fun column => lines.getD (row * columns + column) [])

/-- The cell of a tab-separated table, counted from zero. -/
def cellAt (table : List Text) (row column : Nat) : Option Text :=
  table[row]?.bind fun line => (line.splitOn '\t')[column]?

@[simp] theorem length_paste (columns : Nat) (lines : List Text) :
    (paste columns lines).length = (lines.length + columns - 1) / columns := by
  simp [paste]

/-- A full table has as many rows as its length says. -/
theorem length_paste_full {rows columns : Nat} {lines : List Text} (pos : 0 < columns)
    (full : lines.length = rows * columns) : (paste columns lines).length = rows := by
  rw [length_paste, full, Nat.add_sub_assoc pos, Nat.mul_comm, Nat.mul_add_div pos,
    Nat.div_eq_of_lt (Nat.sub_lt pos (by decide)), Nat.add_zero]

/-- More lines than cells make another row. -/
theorem lt_length_paste {rows columns : Nat} {lines : List Text} (pos : 0 < columns)
    (more : rows * columns < lines.length) : rows < (paste columns lines).length := by
  rw [length_paste, Nat.lt_div_iff_mul_lt pos]
  omega

/-- A cell of the pasted table is the line at its row-major position. -/
theorem cellAt_paste {columns row column : Nat} {lines : List Text} {line : Text}
    (hcolumn : column < columns) (noTab : ∀ line ∈ lines, '\t' ∉ line)
    (found : lines[row * columns + column]? = some line) :
    cellAt (paste columns lines) row column = some line := by
  have inside : row * columns + column < lines.length := (List.getElem?_eq_some_iff.mp found).1
  have pos : 0 < columns := Nat.zero_lt_of_lt hcolumn
  have rowInside : row < (lines.length + columns - 1) / columns := by
    rw [Nat.lt_div_iff_mul_lt pos]
    omega
  have clean : ∀ cell ∈ (List.range columns).map fun c => lines.getD (row * columns + c) [],
      '\t' ∉ cell := by
    intro cell member
    obtain ⟨c, -, rfl⟩ := List.mem_map.mp member
    rw [List.getD_eq_getElem?_getD]
    cases there : lines[row * columns + c]? with
    | none => simp
    | some other => exact noTab other (List.mem_of_getElem? there)
  have nonempty : (List.range columns).map (fun c => lines.getD (row * columns + c) []) ≠ [] := by
    simpa using Nat.ne_of_gt pos
  unfold cellAt paste
  rw [List.getElem?_map, List.getElem?_range rowInside]
  simp only [Option.map_some, Option.bind_some]
  rw [List.splitOn_intercalate '\t' clean nonempty, List.getElem?_map, List.getElem?_range hcolumn]
  simp [List.getD_eq_getElem?_getD, found]

/-- A cell of a table of assigned words. -/
theorem cellAt_paste_firstWord {nodes i j : Nat} (text : Nat × Nat → Text) (hi : i < nodes)
    (hj : j < nodes) :
    cellAt (paste nodes ((rowMajor nodes nodes).map fun cell => firstWord (text cell))) i j =
      some (firstWord (text (i, j))) := by
  apply cellAt_paste hj
  · intro line member tab
    obtain ⟨cell, -, rfl⟩ := List.mem_map.mp member
    have noBlank := firstWord_noBlank (text cell) '\t' tab
    exact Bool.noConfusion noBlank
  · rw [List.getElem?_map, getElem?_rowMajor hi hj, Option.map_some]

/-- The characters of a file: every line ended by a newline. -/
def streamOf (lines : List Text) : Text :=
  lines.flatMap fun line => line ++ ['\n']

theorem words_streamOf (lines : List Text) :
    words isSpace (streamOf lines) = lines.flatMap (words isSpace) := by
  induction lines with
  | nil => simp [streamOf]
  | cons line lines ih =>
      have cut : words isSpace (line ++ '\n' :: streamOf lines) =
          words isSpace line ++ words isSpace (streamOf lines) :=
        words_append_sep line (streamOf lines) rfl
      have unfolded : streamOf (line :: lines) = line ++ '\n' :: streamOf lines := by
        simp [streamOf]
      rw [unfolded, cut, ih, List.flatMap_cons]

/-- Reading the positions of a long enough table visits the lines and then only empty cells. -/
theorem flatMap_positions {β : Type} (f : Text → List β) (empty : f [] = []) (lines : List Text)
    {size : Nat} (large : lines.length ≤ size) :
    (List.range size).flatMap (fun p => f (lines.getD p [])) = lines.flatMap f := by
  induction lines generalizing size with
  | nil => simp [empty]
  | cons line lines ih =>
      cases size with
      | zero => simp at large
      | succ size =>
          rw [List.range_succ_eq_map, List.flatMap_cons, List.flatMap_map, List.flatMap_cons]
          congr 1
          exact ih (by simpa using large)

/-- The words of a pasted table are the words of its lines, in order: neither the tabs nor the padding
of the last row adds or moves one. -/
theorem words_streamOf_paste {columns : Nat} (pos : 0 < columns) (lines : List Text) :
    words isSpace (streamOf (paste columns lines)) = lines.flatMap (words isSpace) := by
  have large : lines.length ≤ (lines.length + columns - 1) / columns * columns := by
    have split := Nat.div_add_mod (lines.length + columns - 1) columns
    have small := Nat.mod_lt (lines.length + columns - 1) pos
    rw [Nat.mul_comm] at split
    omega
  have tab : isSpace '\t' = true := rfl
  rw [words_streamOf, paste, List.flatMap_map]
  calc
    (List.range ((lines.length + columns - 1) / columns)).flatMap (fun row => words isSpace
        (List.intercalate ['\t']
          ((List.range columns).map fun column => lines.getD (row * columns + column) [])))
      = (rowMajor ((lines.length + columns - 1) / columns) columns).flatMap
          (fun cell => words isSpace (lines.getD (cell.1 * columns + cell.2) [])) := by
        simp only [words_intercalate tab, rowMajor, List.flatMap_map, List.flatMap_assoc]
    _ = (List.range ((lines.length + columns - 1) / columns * columns)).flatMap
          (fun p => words isSpace (lines.getD p [])) := by
        rw [rowMajor_eq, List.flatMap_map]
        apply List.flatMap_congr
        intro p _
        rw [Nat.mul_comm, Nat.div_add_mod]
    _ = lines.flatMap (words isSpace) :=
        flatMap_positions (words isSpace) (words_nil isSpace) lines large

/-! ### Lines of several writers

Writers `0`, `1`, ... append their lines to one file. A reader that takes line `p` for the line of writer
`p` is right about the first writers exactly as long as each of them wrote one line. -/

section Writers

variable {α : Type} (lines : Nat → List α)

/-- The number of lines before those of a writer. -/
def lineStart (writer : Nat) : Nat :=
  ((List.range writer).flatMap lines).length

@[simp] theorem lineStart_zero : lineStart lines 0 = 0 := rfl

@[simp] theorem lineStart_succ (writer : Nat) :
    lineStart lines (writer + 1) = lineStart lines writer + (lines writer).length := by
  simp [lineStart, List.range_succ]

/-- Only the numbers of lines matter. -/
theorem lineStart_congr {lines lines' : Nat → List α}
    (same : ∀ writer, (lines writer).length = (lines' writer).length) (writer : Nat) :
    lineStart lines writer = lineStart lines' writer := by
  induction writer with
  | zero => rfl
  | succ writer ih => simp [ih, same writer]

theorem lineStart_of_single {writer : Nat} (single : ∀ earlier < writer, (lines earlier).length = 1) :
    lineStart lines writer = writer := by
  induction writer with
  | zero => rfl
  | succ writer ih =>
      rw [lineStart_succ, ih fun earlier small => single earlier (Nat.lt_succ_of_lt small),
        single writer (Nat.lt_succ_self writer)]

/-- A writer's lines stand behind those of the earlier writers. -/
theorem getElem?_lines {writer size k : Nat} (hwriter : writer < size)
    (hk : k < (lines writer).length) :
    ((List.range size).flatMap lines)[lineStart lines writer + k]? = (lines writer)[k]? := by
  obtain ⟨later, rfl⟩ := Nat.exists_eq_add_of_lt hwriter
  have split : (List.range (writer + later + 1)).flatMap lines =
      (List.range writer).flatMap lines ++
        (lines writer ++ ((List.range later).map (writer + 1 + ·)).flatMap lines) := by
    have shape : writer + later + 1 = writer + 1 + later := by omega
    rw [shape, List.range_add, List.range_succ]
    simp
  rw [split, lineStart, List.getElem?_append_right (Nat.le_add_right _ _), Nat.add_sub_cancel_left,
    List.getElem?_append_left hk]

/-- Every line has a writer. -/
theorem exists_writer {size p : Nat} (hp : p < lineStart lines size) :
    ∃ writer < size, ∃ k < (lines writer).length, p = lineStart lines writer + k := by
  induction size with
  | zero => simp at hp
  | succ size ih =>
      by_cases earlier : p < lineStart lines size
      · obtain ⟨writer, small, k, hk, rfl⟩ := ih earlier
        exact ⟨writer, Nat.lt_succ_of_lt small, k, hk, rfl⟩
      · rw [lineStart_succ] at hp
        exact ⟨size, Nat.lt_succ_self size, p - lineStart lines size, by omega, by omega⟩

/-- If every position lies among the lines of its own writer, then every writer but the last wrote one
line, and the last wrote at least one. -/
theorem length_of_own_line {size : Nat}
    (own : ∀ p < size, lineStart lines p ≤ p ∧ p < lineStart lines (p + 1)) :
    ∀ p < size, 1 ≤ (lines p).length ∧ (p + 1 < size → (lines p).length = 1) := by
  have start : ∀ p < size, lineStart lines p = p := by
    intro p hp
    cases p with
    | zero => rfl
    | succ p =>
        have before := (own p (by omega)).2
        have here := (own (p + 1) hp).1
        omega
  intro p hp
  have here := (own p hp).2
  rw [lineStart_succ, start p hp] at here
  refine ⟨by omega, fun hnext => ?_⟩
  have next := start (p + 1) hnext
  rw [lineStart_succ, start p hp] at next
  omega

end Writers

end Numafac
