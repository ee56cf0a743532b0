/-
Module: Numafac.Script.Bandwidth
Layer: Script
Purpose: The extraction of rates and times from the Stream reports. `stream.c` prints them eleven
  columns wide with four decimals; the scripts keep the columns 3 to 11 of the rate and 6 to 11 of the
  time. `extraction_exact_iff` shows that the bandwidth table and the access times are the printed ones
  exactly when every rate prints below 10000, every average time below 10, and `na_bandwidth` can compute the
  positions of all cells. `awk '{print $2}'`, which the same scripts use for the cost report, has no such
  limit.
Trusted boundary: `bc` is not used; the reports are those of `Numafac.Stream.Report`
Main exports: StreamReports, ExtractionExact, FitsColumns, extraction_exact_iff
-/
import Numafac.ArchTopology.TableReaders
import Numafac.Script.RoundTrip
import Numafac.Stream.Report

namespace Numafac

/-- Every pair run of the Stream phase prints its report. -/
def StreamReports (m : Measurement) (report : Nat → Nat → StreamReport) : Prop :=
  ∀ j i, j < m.nodes → i < m.nodes → m.streamRun j i = (report j i).lines

/-- The extraction undoes the printing, for the run on node `j` with memory on node `i`: the cell of
`bandwidth.minas` is the number that `awk` finds, `na_bandwidth` returns its value, and the
access time that the NUMA factor divides is the printed one. -/
structure ExtractionExact (tools : Tools) (steps : List ScriptStep) (files : Files File)
    (m : Measurement) (report : Nat → Nat → StreamReport) : Prop where
  cell : ∀ j i, j < m.nodes → i < m.nodes →
    (cellAt ((filesAfter steps files).content (.output .bandwidth)) j i).map firstWord =
      some (secondWord (report j i).triadLine)
  read : ∀ j i, j < m.nodes → i < m.nodes →
    naBandwidth id m.nodes (j + 1 : Nat) (i + 1 : Nat) (filesAfter steps files) =
      .ok (some (.rational (roundedTo 4 (report j i).triad.rate).value))
  time : ∀ j i, j < m.nodes → i < m.nodes →
    streamTable m j i = (roundedTo 4 (report j i).triad.avgtime).text
  factor : ∀ j i, j < m.nodes → i < m.nodes →
    cellAt ((filesAfter steps files).content (.output .numafactorStream)) j i =
      some (firstWord (tools.bc (quotientProgram (roundedTo 4 (report j i).triad.avgtime).text
        (roundedTo 4 (report j j).triad.avgtime).text)))

/-- Every rate prints below 10000 and every average time below 10. -/
def FitsColumns (nodes : Nat) (report : Nat → Nat → StreamReport) : Prop :=
  ∀ j i, j < nodes → i < nodes → (report j i).triad.rate + 1 / 20000 < 10000 ∧
    (report j i).triad.avgtime + 1 / 20000 < 10

/-! ### What the columns hold -/

/-- The columns are one numeral behind blanks: the printed number if it fits, else a smaller one. -/
theorem reads_printedColumns (first : Nat) (skips : 2 ≤ first) (room : first + 4 < 11) (q : ℚ≥0) :
    ∃ token value, words isSpace (printedColumns first 11 4 q) = [token] ∧
      firstWord (printedColumns first 11 4 q) = token ∧ Reads token value ∧
      ((roundedTo 4 q).whole.length + first ≤ 7 →
        token = (roundedTo 4 q).text ∧ value = (roundedTo 4 q).value) ∧
      (7 < (roundedTo 4 q).whole.length + first → value < (roundedTo 4 q).value) := by
  have length := Decimal.length_text (d := roundedTo 4 q) (by decide : 0 < 4)
  by_cases fits : (roundedTo 4 q).whole.length + first ≤ 7
  · have inside : (roundedTo 4 q).text.length + (first - 1) ≤ 11 := by
      simp only [roundedTo] at length fits ⊢
      omega
    obtain ⟨pad, blanks, shape⟩ := printedColumns_fits inside
    obtain ⟨blankWords, spaceWords⟩ := words_pad_text blanks (roundedTo 4 q)
    refine ⟨_, _, shape ▸ spaceWords, ?_, reads_text _, fun _ => ⟨rfl, rfl⟩, fun h => ?_⟩
    · simp [shape, firstWord, blankWords]
    · omega
  · have outside : 11 < (roundedTo 4 q).text.length + (first - 1) := by
      simp only [roundedTo] at length fits ⊢
      omega
    obtain ⟨value, reads, below⟩ := printedColumns_cut (by decide) skips room outside
    refine ⟨_, value, words_of_isWord reads.1, firstWord_of_reads reads, reads, fun h => ?_,
      fun _ => below⟩
    exact absurd h fits

theorem fits_rate_iff (q : ℚ≥0) :
    (roundedTo 4 q).whole.length + 3 ≤ 7 ↔ q + 1 / 20000 < 10000 := by
  have fits := @length_whole_le_iff 4 4 (by decide) q
  norm_num at fits ⊢
  rw [← fits]
  omega

theorem fits_time_iff (q : ℚ≥0) : (roundedTo 4 q).whole.length + 6 ≤ 7 ↔ q + 1 / 20000 < 10 := by
  have fits := @length_whole_le_iff 1 4 (by decide) q
  norm_num at fits ⊢
  rw [← fits]
  omega

/-- The line of `band.data` for a pair. -/
def rateColumns (report : Nat → Nat → StreamReport) (cell : Nat × Nat) : Text :=
  printedColumns 3 11 4 (report cell.1 cell.2).triad.rate

/-- The line of `fn.data` for a pair. -/
def timeColumns (report : Nat → Nat → StreamReport) (cell : Nat × Nat) : Text :=
  printedColumns 6 11 4 (report cell.1 cell.2).triad.avgtime

section Extraction

variable {tools : Tools} {m : Measurement} {report : Nat → Nat → StreamReport}

/-- `stream.data` holds the Triad lines in row-major order. -/
theorem egrepTriad_streamLines (reports : StreamReports m report) :
    egrepTriad (streamLines m) =
      (rowMajor m.nodes m.nodes).map fun cell => (report cell.1 cell.2).triadLine := by
  rw [egrepTriad, streamLines, List.filter_flatMap, List.map_eq_flatMap]
  apply List.flatMap_congr
  intro cell member
  obtain ⟨hj, hi⟩ := mem_rowMajor.mp member
  rw [reports cell.1 cell.2 hj hi]
  exact egrepTriad_lines (report cell.1 cell.2)

theorem bandLines_eq (reports : StreamReports m report) :
    bandLines m = (rowMajor m.nodes m.nodes).map (rateColumns report) := by
  rw [bandLines, egrepTriad_streamLines reports, List.map_map]
  apply List.map_congr_left
  intro cell _
  simp [cutField_triadLine, cutColumns, rateColumns, printedColumns]

theorem timeLines_eq (reports : StreamReports m report) :
    timeLines m = (rowMajor m.nodes m.nodes).map (timeColumns report) := by
  rw [timeLines, egrepTriad_streamLines reports, List.map_map]
  apply List.map_congr_left
  intro cell _
  simp [cutField_triadLine, cutColumns, timeColumns, printedColumns]

/-- The access time of a pair is the word of its own columns. -/
theorem streamTable_eq (reports : StreamReports m report) {j i : Nat} (hj : j < m.nodes)
    (hi : i < m.nodes) :
    streamTable m j i = firstWord (timeColumns report (j, i)) := by
  rw [streamTable, readTable, timeLines_eq reports, List.getElem?_map, getElem?_rowMajor hj hi]
  rfl

theorem tab_notMem_printedColumns (first : Nat) (q : ℚ≥0) :
    '\t' ∉ printedColumns first 11 4 q := by
  have other : '\t' ≠ ' ' ∧ '\t' ≠ '.' ∧ '\t'.isDigit = false := by decide
  intro member
  exact notMem_printfFixed other 11 4 q (List.mem_of_mem_take (List.mem_of_mem_drop member))

end Extraction

section Exact

variable {tools : Tools} {m : Measurement} {steps : List ScriptStep} {files : Files File}
  {report : Nat → Nat → StreamReport}

/-- `na_bandwidth` returns what the columns of its pair read as. -/
theorem naBandwidth_eq (reports : StreamReports m report) (published : PublishedRun tools m steps)
    (positions : PositionsFit m.nodes)
    {token : Nat × Nat → Text} {value : Nat × Nat → ℚ}
    (single : ∀ cell, words isSpace (rateColumns report cell) = [token cell])
    (reads : ∀ cell, Reads (token cell) (value cell)) {j i : Nat} (hj : j < m.nodes)
    (hi : i < m.nodes) :
    naBandwidth id m.nodes (j + 1 : Nat) (i + 1 : Nat) (filesAfter steps files) =
      .ok (some (.rational (value (j, i)))) := by
  obtain ⟨⟨front, rfl⟩, script, isScript, same⟩ := published.shape
  obtain ⟨bandwidth, -⟩ := content_script isScript m files
  rw [← same, bandLines_eq reports] at bandwidth
  have published := files_tmp_copy bandwidth (paste_ne_nil (Nat.zero_lt_of_lt hj) _)
  have single' : ∀ j i, j < m.nodes → i < m.nodes →
      words isSpace (rateColumns report (j, i)) = [token (j, i)] := fun j i _ _ => single (j, i)
  have reads' : ∀ j i, j < m.nodes → i < m.nodes → Reads (token (j, i)) (value (j, i)) :=
    fun j i _ _ => reads (j, i)
  have read := readCell_paste (.rational 0) single' reads' positions hj hi
  rw [naBandwidth, published, readFile, Nat.cast_add, Nat.cast_add, Nat.cast_one]
  exact bind_eq_ok.mpr ⟨_, read, rfl⟩

/-- The last cell of the table is read only if its position is an `int`. -/
theorem positionsFit_of_extractionExact (exactness : ExtractionExact tools steps files m report) :
    PositionsFit m.nodes := by
  cases nodes : m.nodes with
  | zero => exact Nat.two_pow_pos 31
  | succ last =>
      have inside : last < m.nodes := nodes ▸ Nat.lt_succ_self last
      have position := positionIsInt_of_readFile (exactness.read last last inside inside)
      rw [nodes, Nat.cast_add, Nat.cast_one] at position
      exact positionsFit_of_last position

/-- A number that reaches into the skipped columns is read as a smaller one. -/
theorem fitsColumns_of_extractionExact (reports : StreamReports m report)
    (published : PublishedRun tools m steps)
    (exactness : ExtractionExact tools steps files m report) : FitsColumns m.nodes report := by
  have positions := positionsFit_of_extractionExact exactness
  intro j i hj hi
  constructor
  · choose token value single word reads fits cut using fun cell : Nat × Nat =>
      reads_printedColumns 3 (by decide) (by decide) (report cell.1 cell.2).triad.rate
    rw [← fits_rate_iff]
    by_contra long
    have read := exactness.read j i hj hi
    rw [naBandwidth_eq reports published positions single reads hj hi] at read
    have equal : value (j, i) = (roundedTo 4 (report j i).triad.rate).value := by
      simpa using read
    exact absurd equal (cut (j, i) (Nat.lt_of_not_le long)).ne
  · obtain ⟨word, value, -, first, reads, -, cut⟩ :=
      reads_printedColumns 6 (by decide) (by decide) (report j i).triad.avgtime
    rw [← fits_time_iff]
    by_contra long
    have time := exactness.time j i hj hi
    rw [streamTable_eq reports hj hi, timeColumns, first] at time
    rw [time] at reads
    exact absurd (reads_unique reads (reads_text _)) (cut (Nat.lt_of_not_le long)).ne

/-- Numbers that fit are extracted whole. -/
theorem extractionExact_of_fitsColumns (reports : StreamReports m report)
    (published : PublishedRun tools m steps) (clean : CleanStart files)
    (fitsAll : FitsColumns m.nodes report) (positions : PositionsFit m.nodes) :
    ExtractionExact tools steps files m report := by
  choose token value single word reads fits cut using fun cell : Nat × Nat =>
    reads_printedColumns 3 (by decide) (by decide) (report cell.1 cell.2).triad.rate
  have rateAt : ∀ j i, j < m.nodes → i < m.nodes →
      token (j, i) = (roundedTo 4 (report j i).triad.rate).text ∧
        value (j, i) = (roundedTo 4 (report j i).triad.rate).value :=
    fun j i hj hi => fits (j, i) ((fits_rate_iff _).mpr (fitsAll j i hj hi).1)
  have timeAt : ∀ j i, j < m.nodes → i < m.nodes →
      streamTable m j i = (roundedTo 4 (report j i).triad.avgtime).text := by
    intro j i hj hi
    obtain ⟨word, value, -, first, -, whole, -⟩ :=
      reads_printedColumns 6 (by decide) (by decide) (report j i).triad.avgtime
    rw [streamTable_eq reports hj hi, timeColumns, first]
    exact (whole ((fits_time_iff _).mpr (fitsAll j i hj hi).2)).1
  obtain ⟨-, script, isScript, same⟩ := published.shape
  obtain ⟨bandwidth, factors, -, -⟩ := content_script_clean isScript m clean
  rw [← same, bandLines_eq reports] at bandwidth
  rw [← same] at factors
  refine ⟨?_, ?_, timeAt, ?_⟩
  · intro j i hj hi
    have found : cellAt (paste m.nodes ((rowMajor m.nodes m.nodes).map (rateColumns report))) j i =
        some (rateColumns report (j, i)) := by
      apply cellAt_paste hi
      · intro line member
        obtain ⟨cell, -, rfl⟩ := List.mem_map.mp member
        exact tab_notMem_printedColumns 3 _
      · rw [List.getElem?_map, getElem?_rowMajor hj hi, Option.map_some]
    rw [bandwidth, found, Option.map_some, secondWord_triadLine, rateColumns, word (j, i)]
    exact congrArg some (rateAt j i hj hi).1
  · intro j i hj hi
    rw [naBandwidth_eq reports published positions single reads hj hi, (rateAt j i hj hi).2]
  · intro j i hj hi
    have found := cellAt_paste_firstWord (fun cell => tools.bc
      (quotientProgram (streamTable m cell.1 cell.2) (streamTable m cell.1 cell.1))) hj hi
    rw [factors]
    simp only [timeAt j i hj hi, timeAt j j hj hj] at found
    exact found

/-- The extraction is exact exactly when all printed numbers fit their columns and all positions are in the
range of `int`. -/
theorem extraction_exact_iff (reports : StreamReports m report)
    (published : PublishedRun tools m steps) (clean : CleanStart files) :
    ExtractionExact tools steps files m report ↔ FitsColumns m.nodes report ∧ PositionsFit m.nodes :=
  ⟨fun exactness => ⟨fitsColumns_of_extractionExact reports published exactness,
      positionsFit_of_extractionExact exactness⟩,
    fun ⟨fitsAll, positions⟩ => extractionExact_of_fitsColumns reports published clean fitsAll positions⟩

end Exact

/-- A fast machine: a Triad rate of 12345.6789 MB/s between all nodes. -/
def fastReport (_ _ : Nat) : StreamReport :=
  let kernel : Kernel :=
    { rate := 123456789 / 10000, avgtime := 311 / 10000, mintime := 311 / 10000,
      maxtime := 311 / 10000 }
  { threads := 1, copy := kernel, scale := kernel, add := kernel, triad := kernel }

def fastMeasurement : Measurement where
  nodes := 2
  streamAll := (fastReport 0 0).lines
  streamFirst := (fastReport 0 0).lines
  streamRun := fun j i => (fastReport j i).lines
  latLocal := []
  latRun := fun _ _ => []

theorem not_extractionExact_fast :
    ¬ ExtractionExact referenceTools (topologyNuma referenceTools true fastMeasurement)
      (fun _ => none) fastMeasurement fastReport := by
  intro exactness
  have fits := fitsColumns_of_extractionExact (fun _ _ _ _ => rfl) (Or.inl ⟨true, rfl⟩) exactness
  have rate := (fits 0 1 (by decide) (by decide)).1
  revert rate
  norm_num [fastReport]

/-- A slower one, with half the rate. -/
def slowReport (_ _ : Nat) : StreamReport :=
  let kernel : Kernel :=
    { rate := 61728394 / 10000, avgtime := 622 / 10000, mintime := 622 / 10000,
      maxtime := 622 / 10000 }
  { threads := 1, copy := kernel, scale := kernel, add := kernel, triad := kernel }

def slowMeasurement : Measurement where
  nodes := 2
  streamAll := (slowReport 0 0).lines
  streamFirst := (slowReport 0 0).lines
  streamRun := fun j i => (slowReport j i).lines
  latLocal := []
  latRun := fun _ _ => []

/-- Its numbers are extracted whole. -/
theorem extraction_exact_iff_slow :
    ExtractionExact referenceTools (topologyNuma referenceTools true slowMeasurement)
      (fun _ => none) slowMeasurement slowReport := by
  refine (extraction_exact_iff (fun _ _ _ _ => rfl) (Or.inl ⟨true, rfl⟩) fun _ _ => rfl).mpr ⟨?_, ?_⟩
  · intro j i _ _
    norm_num [slowReport]
  · exact show 2 * 2 < 2 ^ 31 by decide

end Numafac
