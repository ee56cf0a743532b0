/-
Module: Numafac.Latencies.MatrixFile
Layer: Latencies
Purpose: The file `latency_lmbench_multicore.minas`: `compute-latencies` writes the matrix of the cores, a
  row a line, and `na_fill_multicore_latency_matrix` reads it back. `matrixFile_round_trip` says that
  each cell comes back as the number nearest to its six decimals, and that the matrix that was read is
  written as the same file.
Trusted boundary: the translation of the two loops of `main`; `double` as a format that rounds to nearest
Main exports: printRow, printMatrix, matrixText, printMatrix_eq, words_matrixText,
  matrixFile_round_trip
-/
import Numafac.ArchTopology.LatencyMatrix
import Numafac.Base.Rounding

namespace Numafac

/-- `for (j = 0; j < nb_cores; j++) fprintf (cores_fp, "%lf ", cores_matrix[i][j]); fprintf (cores_fp,
"\n");`, as the text behind what was printed before. -/
def printRow (nbCores : Nat) (coresMatrix : CArray (CArray Numeral)) (coresFp : Text) (i : Nat) :
    CResult Text := do
  let coresFp ← forRange 0 nbCores
    (fun coresFp j => do
      let cell ← readEntry coresMatrix i j
      pure (coresFp ++ (printfLf cell ++ [' ']))) coresFp
  pure (coresFp ++ ['\n'])

/-- `for (i = 0; i < nb_cores; i++)` around it, on a new file. -/
def printMatrix (nbCores : Nat) (coresMatrix : CArray (CArray Numeral)) : CResult Text :=
  forRange 0 nbCores (printRow nbCores coresMatrix) []

/-! ### The file -/

section File

variable (count : Nat) (cells : Nat → Nat → ℚ≥0)

/-- The decimal that is printed for a cell. -/
def cellDecimal (i j : Nat) : Decimal :=
  roundedTo 6 (cells i j)

def rowText (i : Nat) : Text :=
  (List.range count).flatMap fun j => (cellDecimal cells i j).text ++ [' ']

/-- The file of a matrix of nonnegative numbers. -/
def matrixText : Text :=
  (List.range count).flatMap fun i => rowText count cells i ++ ['\n']

/-- The entries of the matrix are these numbers. -/
def HasCells (matrix : CArray (CArray Numeral)) : Prop :=
  ∀ i < count, ∀ j < count, readEntry matrix i j = .ok (.rational (cells i j))

variable {count cells} {matrix : CArray (CArray Numeral)}

theorem printRow_eq (hasCells : HasCells count cells matrix) {i : Nat} (hi : i < count) (front : Text) :
    printRow count matrix front i = .ok (front ++ (rowText count cells i ++ ['\n'])) := by
  have step : ∀ (j : Nat) (out : Text), 0 ≤ j → j < count →
      out = front ++ ((List.range j).flatMap fun j => (cellDecimal cells i j).text ++ [' ']) →
      ∃ next, (do
          let cell ← readEntry matrix i j
          pure (out ++ (printfLf cell ++ [' '])) : CResult Text) = .ok next ∧
        next = front ++ ((List.range (j + 1)).flatMap fun j => (cellDecimal cells i j).text ++ [' ']) := by
    rintro j out - hj rfl
    refine ⟨_, ?_, rfl⟩
    rw [hasCells i hi j hj, List.range_succ, List.flatMap_append, List.flatMap_singleton,
      ← List.append_assoc]
    change Except.ok (_ ++ (printfLf (.rational (cells i j)) ++ [' '])) = _
    rw [printfLf_nonneg]
    rfl
  obtain ⟨final, ran, same⟩ := @forRange_ok _ 0 count _ front
    (fun j out => out = front ++ ((List.range j).flatMap fun j => (cellDecimal cells i j).text ++ [' ']))
    (Nat.zero_le count) (by simp) step
  rw [printRow, ran, same]
  change Except.ok (_ ++ _) = _
  rw [List.append_assoc]
  rfl

theorem printMatrix_eq (hasCells : HasCells count cells matrix) :
    printMatrix count matrix = .ok (matrixText count cells) := by
  have step : ∀ (i : Nat) (out : Text), 0 ≤ i → i < count →
      out = ((List.range i).flatMap fun i => rowText count cells i ++ ['\n']) →
      ∃ next, printRow count matrix out i = .ok next ∧
        next = ((List.range (i + 1)).flatMap fun i => rowText count cells i ++ ['\n']) := by
    rintro i out - hi rfl
    refine ⟨_, printRow_eq hasCells hi _, ?_⟩
    rw [List.range_succ, List.flatMap_append, List.flatMap_singleton]
  obtain ⟨final, ran, rfl⟩ := forRange_ok
    (fun i out => out = ((List.range i).flatMap fun i => rowText count cells i ++ ['\n']))
    (Nat.zero_le count) rfl step
  exact ran

/-- Pieces that each end in a separator have the words of the pieces. -/
theorem words_flatMap {α β : Type} {sep : α → Bool} {c : α} (hc : sep c = true) (pieces : List β)
    (text : β → List α) :
    words sep (pieces.flatMap fun piece => text piece ++ [c]) =
      pieces.flatMap fun piece => words sep (text piece) := by
  induction pieces with
  | nil => simp
  | cons piece pieces ih =>
      rw [List.flatMap_cons, List.flatMap_cons, List.append_assoc, List.singleton_append,
        words_append_sep _ _ hc, ih]

/-- The words of the file are the decimals of the cells, row by row. -/
theorem words_matrixText (count : Nat) (cells : Nat → Nat → ℚ≥0) :
    words isSpace (matrixText count cells) =
      (rowMajor count count).map fun cell => (cellDecimal cells cell.1 cell.2).text := by
  have row : ∀ i, words isSpace (rowText count cells i) =
      (List.range count).map fun j => (cellDecimal cells i j).text := by
    intro i
    rw [rowText, words_flatMap rfl, List.map_eq_flatMap]
    apply List.flatMap_congr
    intro j _
    exact words_of_isWord (Decimal.isWord_text _)
  rw [matrixText, words_flatMap rfl, rowMajor, List.map_flatMap]
  apply List.flatMap_congr
  intro i _
  rw [row, List.map_map]
  rfl

/-- The file is read back into a matrix of the numbers nearest to the decimals, and that matrix is written
as the same file. -/
theorem matrixFile_round_trip (format : FloatFormat) {topo : ArchTopo} (maxcpus : topo.maxcpus = count)
    (hasCells : HasCells count cells matrix)
    (member : ∀ i < count, ∀ j < count, format.round (cells i j) = cells i j) (nodes : Text)
    {target : CArray (CArray Numeral)} (room : Room count target) :
    ∃ text filled, printMatrix count matrix = .ok text ∧
      naFillLatencyMatrix format.ofNumeral topo { nodes := some nodes, cores := some text } target
        .multicore = .ok (some filled) ∧
      HasCells count (fun i j => format.round (roundedTo 6 (cells i j)).nonneg) filled ∧
      printMatrix count filled = .ok text := by
  have reads : ∀ i j, i < count → j < count →
      Reads (cellDecimal cells i j).text ((cellDecimal cells i j).nonneg : ℚ) := by
    intro i j _ _
    rw [Decimal.nonneg_eq_value]
    exact reads_text _
  obtain ⟨final, ran, entries⟩ := fillMatrix_spec format.ofNumeral room
    (words_matrixText count cells)
    (@reads_rowMajor count _ (fun i j => ((cellDecimal cells i j).nonneg : ℚ)) reads) (by simp)
  have filled : HasCells count (fun i j => format.round (roundedTo 6 (cells i j)).nonneg) final.1 := by
    intro i hi j hj
    rw [entries i hi j hj, position_div hj, position_mod hj, format.ofNumeral_nonneg]
    rfl
  refine ⟨matrixText count cells, final.1, printMatrix_eq hasCells, ?_, filled, ?_⟩
  · simp only [naFillLatencyMatrix, maxcpus, ran]
    rfl
  · -- every cell that was read prints as the decimal it was read from
    have same : matrixText count (fun i j => format.round (roundedTo 6 (cells i j)).nonneg) =
        matrixText count cells := by
      apply List.flatMap_congr
      intro i hi
      congr 1
      apply List.flatMap_congr
      intro j hj
      congr 2
      exact roundedTo_round format 6 (member i (List.mem_range.mp hi) j (List.mem_range.mp hj))
    rw [printMatrix_eq filled, same]

end File

/-- A matrix with these entries. -/
def matrixOfCells (count : Nat) (cells : Nat → Nat → ℚ≥0) : CArray (CArray Numeral) :=
  CArray.filled ((List.range count).map fun i =>
    CArray.filled ((List.range count).map fun j => .rational (cells i j)))

theorem hasCells_matrixOfCells (count : Nat) (cells : Nat → Nat → ℚ≥0) :
    HasCells count cells (matrixOfCells count cells) := by
  intro i hi j hj
  have row : (matrixOfCells count cells).read i =
      .ok (CArray.filled ((List.range count).map fun j => .rational (cells i j))) := by
    simp [matrixOfCells, CArray.read, CArray.filled, hi]
  rw [readEntry, row]
  change CArray.read _ j = _
  simp [CArray.read, CArray.filled, hj]

/-- The numerators of a cell of 1.25 and of one between 1.500000 and 1.500001, over `2 ^ 52`. -/
def fourCoresNumerator (i j : Nat) : Nat :=
  if i = j then 5 * 2 ^ 50 else 3 * 2 ^ 51 + 2 ^ 32

def fourCoresCells (i j : Nat) : ℚ≥0 :=
  fourCoresNumerator i j / 2 ^ 52

/-- Between 1 and 2 the doubles are the multiples of `1 / 2 ^ 52`. -/
theorem matrixFile_round_trip_fourCores : ∃ text filled,
    printMatrix 4 (matrixOfCells 4 fourCoresCells) = .ok text ∧
      naFillLatencyMatrix (FloatFormat.fixedPoint 52).ofNumeral twoNodesMacros
        { nodes := some twoNodesFile, cores := some text } (newMatrix Numeral 4) .multicore =
          .ok (some filled) ∧
      HasCells 4 (fun i j =>
        (FloatFormat.fixedPoint 52).round (roundedTo 6 (fourCoresCells i j)).nonneg) filled ∧
      printMatrix 4 filled = .ok text :=
  @matrixFile_round_trip 4 fourCoresCells (matrixOfCells 4 fourCoresCells) (FloatFormat.fixedPoint 52)
    twoNodesMacros rfl (hasCells_matrixOfCells 4 fourCoresCells)
    (fun i _ j _ => FloatFormat.fixedPoint_round 52 (fourCoresNumerator i j)) twoNodesFile
    (newMatrix Numeral 4) (room_newMatrix Numeral 4)

end Numafac
