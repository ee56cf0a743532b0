/-
Module: Numafac.Stream.Report
Layer: Stream
Purpose: The report that `stream.c` prints on standard output, and the two fields of its Triad line that
  the scripts cut out. The rates and times are nonnegative rationals, printed with `%11.4f`; how the
  benchmark measures them is outside.
Trusted boundary: the translation of the `printf` calls of `main`
Main exports: Kernel, kernelLine, StreamReport, StreamReport.lines, egrepTriad_lines,
  cutField_triadLine
-/
import Numafac.Base.Columns
import Numafac.Script.Bc

namespace Numafac

/-- The four numbers of one row of the summary. -/
structure Kernel where
  rate : ℚ≥0
  avgtime : ℚ≥0
  mintime : ℚ≥0
  maxtime : ℚ≥0

/-- `printf("%s\t%11.4f\t%11.4f\t%11.4f\t%11.4f\n", label[j], ...)`. -/
def kernelLine (label : Text) (kernel : Kernel) : Text :=
  List.intercalate ['\t']
    [label, printfFixed 11 4 kernel.rate, printfFixed 11 4 kernel.avgtime,
      printfFixed 11 4 kernel.mintime, printfFixed 11 4 kernel.maxtime]

/-- What one run measured: the number of threads and the four kernels. -/
structure StreamReport where
  threads : Nat
  copy : Kernel
  scale : Kernel
  add : Kernel
  triad : Kernel

/-- The Triad line of a report. -/
def StreamReport.triadLine (report : StreamReport) : Text :=
  kernelLine "Triad:     ".toList report.triad

/-- Standard output of one run. -/
def StreamReport.lines (report : StreamReport) : List Text :=
  [ "This system uses 8 bytes per DOUBLE PRECISION word.".toList,
    "Total memory required = 366.2 MB.".toList,
    "Number of Threads requested = ".toList ++ natText report.threads,
    "Function\tRate (MB/s)\tAvg time\tMin time\tMax time".toList,
    kernelLine "Copy:      ".toList report.copy,
    kernelLine "Scale:     ".toList report.scale,
    kernelLine "Add:       ".toList report.add,
    report.triadLine ]

/-- A printed number consists of blanks, digits and a point. -/
theorem mem_printfFixed {width places : Nat} {q : ℚ≥0} {c : Char}
    (member : c ∈ printfFixed width places q) : c = ' ' ∨ c = '.' ∨ c.isDigit = true := by
  rcases List.mem_append.mp member with pad | text
  · exact Or.inl (List.eq_of_mem_replicate pad)
  · exact Or.inr (Decimal.mem_text text)

theorem notMem_printfFixed {c : Char} (other : c ≠ ' ' ∧ c ≠ '.' ∧ c.isDigit = false)
    (width places : Nat) (q : ℚ≥0) : c ∉ printfFixed width places q := by
  intro member
  rcases mem_printfFixed member with blank | point | digit
  · exact other.1 blank
  · exact other.2.1 point
  · exact Bool.noConfusion (other.2.2.symm.trans digit)

/-! ### The Triad line among the others -/

/-- A line without the letter `i` is not a Triad line. -/
theorem not_triad_of_notMem {line : Text} (clean : 'i' ∉ line) : ¬ triad <:+: line := by
  intro inside
  exact clean (inside.subset (by decide))

theorem not_triad_kernelLine {label : Text} (kernel : Kernel) (clean : 'i' ∉ label) :
    ¬ triad <:+: kernelLine label kernel := by
  have other : 'i' ≠ ' ' ∧ 'i' ≠ '.' ∧ 'i'.isDigit = false := by decide
  apply not_triad_of_notMem
  simp [kernelLine, List.intercalate, notMem_printfFixed other, clean]

theorem not_triad_threads (threads : Nat) :
    ¬ triad <:+: "Number of Threads requested = ".toList ++ natText threads := by
  apply not_triad_of_notMem
  intro member
  rcases List.mem_append.mp member with front | digits
  · exact absurd front (by decide)
  · exact absurd (isDigit_of_mem_natText digits) (by decide)

theorem triad_triadLine (report : StreamReport) : triad <:+: report.triadLine := by
  have head : triad <+: "Triad:     ".toList := by decide
  have line : "Triad:     ".toList <+: report.triadLine := by
    simp [StreamReport.triadLine, kernelLine, List.intercalate]
  exact (head.trans line).isInfix

/-- `egrep` finds exactly the Triad line. -/
theorem egrepTriad_lines (report : StreamReport) : egrepTriad report.lines = [report.triadLine] := by
  have word : ¬ triad <:+: "This system uses 8 bytes per DOUBLE PRECISION word.".toList := by decide
  have memory : ¬ triad <:+: "Total memory required = 366.2 MB.".toList := by decide
  have header : ¬ triad <:+: "Function\tRate (MB/s)\tAvg time\tMin time\tMax time".toList := by decide
  simp only [egrepTriad, StreamReport.lines, List.filter_cons, List.filter_nil, word, memory, header,
    not_triad_threads, not_triad_kernelLine report.copy (by decide : 'i' ∉ "Copy:      ".toList),
    not_triad_kernelLine report.scale (by decide : 'i' ∉ "Scale:     ".toList),
    not_triad_kernelLine report.add (by decide : 'i' ∉ "Add:       ".toList),
    triad_triadLine, decide_true, decide_false, if_true, Bool.false_eq_true, if_false]

/-! ### The fields of the Triad line -/

/-- The fields of a line of the summary. -/
theorem splitOn_kernelLine {label : Text} (kernel : Kernel) (clean : '\t' ∉ label) :
    (kernelLine label kernel).splitOn '\t' =
      [label, printfFixed 11 4 kernel.rate, printfFixed 11 4 kernel.avgtime,
        printfFixed 11 4 kernel.mintime, printfFixed 11 4 kernel.maxtime] := by
  have other : '\t' ≠ ' ' ∧ '\t' ≠ '.' ∧ '\t'.isDigit = false := by decide
  apply List.splitOn_intercalate '\t'
  · simp [notMem_printfFixed other, clean]
  · simp

theorem cutField_triadLine (report : StreamReport) :
    cutField 2 report.triadLine = printfFixed 11 4 report.triad.rate ∧
      cutField 3 report.triadLine = printfFixed 11 4 report.triad.avgtime := by
  have tab : '\t' ∈ report.triadLine := by
    simp [StreamReport.triadLine, kernelLine, List.intercalate]
  have fields := splitOn_kernelLine report.triad (by decide : '\t' ∉ "Triad:     ".toList)
  rw [← StreamReport.triadLine] at fields
  constructor <;> simp [cutField, tab, fields]

/-- Blanks in front of a number do not change its word. -/
theorem words_pad_text {pad : Text} (blanks : ∀ c ∈ pad, c = ' ') (d : Decimal) :
    words isBlank (pad ++ d.text) = [d.text] ∧ words isSpace (pad ++ d.text) = [d.text] := by
  constructor
  · rw [words_leading _ fun c member => by rw [blanks c member]; rfl]
    exact words_of_isWord (isWord_text_blank d)
  · rw [words_leading _ fun c member => by rw [blanks c member]; rfl]
    exact words_of_isWord d.isWord_text

/-- `awk` finds the rate in the second word. -/
theorem secondWord_triadLine (report : StreamReport) :
    secondWord report.triadLine = (roundedTo 4 report.triad.rate).text := by
  have label : words isBlank "Triad:     ".toList = ["Triad:".toList] := by decide
  have rate : words isBlank (printfFixed 11 4 report.triad.rate) =
      [(roundedTo 4 report.triad.rate).text] :=
    (words_pad_text (fun c member => List.eq_of_mem_replicate member) _).1
  obtain ⟨rest, shape⟩ : ∃ rest, report.triadLine =
      "Triad:     ".toList ++ '\t' :: (printfFixed 11 4 report.triad.rate ++ '\t' :: rest) := by
    simp [StreamReport.triadLine, kernelLine, List.intercalate]
  rw [secondWord, shape, words_append_sep _ _ rfl, words_append_sep _ _ rfl, label, rate]
  rfl

end Numafac
