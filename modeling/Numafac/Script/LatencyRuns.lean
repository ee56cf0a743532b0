/-
Module: Numafac.Script.LatencyRuns
Layer: Script
Purpose: The lmbench phase with the output of `lat_mem_rd` itself. All runs of a script have the same two
  arguments, so all measure the same ranges. The script takes the time of the last range from each run, and
  `na_latency` gives that time. When the arguments leave no range, no run has a line to take, and the
  published latencies are the times that the Stream phase left in the shell (`published_latencies`).
Trusted boundary: `bc` as documented; what was measured for a range is a parameter
Main exports: valueLines_report, lmbenchTable_report, published_latencies
-/
import Numafac.Lmbench.LoadReport
import Numafac.Script.BufferSize
import Numafac.Script.RoundTrip

namespace Numafac

namespace LatMemRd

open LibTiming (Timing)

variable (format : FloatFormat)

theorem isWord_resultText (range stride : Nat) (t : Timing) :
    IsWord isBlank (resultText format range stride t) := by
  unfold resultText
  split
  · split
    · decide
    · decide
  · exact isWord_text_blank _

theorem isWord_strideLine (stride : Nat) : IsWord isBlank (strideLine stride) := by
  have digits : ∀ c : Char, c.isDigit = true → isBlank c = false := by
    intro c digit
    by_contra blank
    have space := isSpace_of_isBlank (by simpa using blank)
    rw [isSpace_of_isDigit digit] at space
    cases space
  have number : ∀ c ∈ intText stride, isBlank c = false := by
    intro c member
    unfold intText at member
    dsimp only at member
    split at member
    · exact (isWord_natText digits _).2 c member
    · rcases List.mem_cons.mp member with sign | rest
      · rw [sign]
        decide
      · exact (isWord_natText digits _).2 c rest
  have front : ∀ c ∈ ['"', 's', 't', 'r', 'i', 'd', 'e', '='], isBlank c = false := by
    simp only [List.forall_mem_cons, List.not_mem_nil, false_implies, implies_true, and_true]
    decide
  constructor
  · intro none
    rw [strideLine] at none
    cases none
  · intro c member
    rw [strideLine, List.mem_append] at member
    rcases member with early | late
    · exact front c early
    · exact number c late

/-- The second words of the last two lines: the time of the last range, or nothing without ranges. -/
theorem valueLines_report (stride : Nat) (time : Nat → Timing) (ranges : List Nat) :
    valueLines (report format stride time ranges) =
      (ranges.getLast?.map fun last => resultText format last stride (time last)).toList := by
  have blank : secondWord [] = [] := by simp [secondWord]
  rcases List.eq_nil_or_concat' ranges with rfl | ⟨front, last, rfl⟩
  · have first : secondWord (strideLine stride) = [] := by
      rw [secondWord, words_of_isWord (isWord_strideLine stride)]
      rfl
    have shape : report format stride time [] = [] ++ [strideLine stride, []] := rfl
    rw [shape, valueLines, tail_two_append]
    simp [awkSecond, sedDropBlank, first, blank]
  · have second : secondWord (loadsLine format last stride (time last)) =
        resultText format last stride (time last) :=
      secondWord_pair (isWord_text_blank _) (isWord_resultText format _ _ _)
    have shape : report format stride time (front ++ [last]) =
        (strideLine stride :: front.map fun range => loadsLine format range stride (time range)) ++
        [loadsLine format last stride (time last), []] := by
      simp [report]
    have some := (isWord_resultText format last stride (time last)).1
    rw [shape, valueLines, tail_two_append]
    simp [awkSecond, sedDropBlank, second, blank, some]

end LatMemRd

open LatMemRd
open LibTiming (Timing)

section Runs

variable {tools : Tools} {m : Measurement} {format : FloatFormat} {llc : Nat} {cacheSize : Nat → Nat}
  {time : Nat → Nat → Nat → Timing} {ranges : List Nat}

/-- The runs of `lat_mem_rd` in the lmbench phase: `time i j range` is what was measured in the run for a
pair of nodes. -/
def LatencyRuns (format : FloatFormat) (llc : Nat) (cacheSize : Nat → Nat) (time : Nat → Nat → Nat → Timing)
    (m : Measurement) : Prop :=
  let (llcSize, l2Size) := latMemRdArguments llc cacheSize m.nodes
  ∀ i j, i < m.nodes → j < m.nodes →
    latMemRdReport format (time i j) (natText llcSize) (natText l2Size) = .ok (m.latRun i j)

/-- The stride of all runs. -/
def runStride (llc : Nat) (cacheSize : Nat → Nat) (m : Measurement) : Nat :=
  (latMemRdArguments llc cacheSize m.nodes).2

theorem LatencyRuns.report (runs : LatencyRuns format llc cacheSize time m)
    (measured : measuredRanges llc cacheSize m.nodes = .ok ranges) {i j : Nat} (hi : i < m.nodes)
    (hj : j < m.nodes) :
    m.latRun i j = LatMemRd.report format (runStride llc cacheSize m) (time i j) ranges := by
  have ran := runs i j hi hj
  rw [latMemRdReport, bytes_natText] at ran
  obtain ⟨ranges', measured', reported⟩ := bind_eq_ok.mp ran
  obtain rfl := Except.ok.inj (measured.symm.trans measured')
  exact (Except.ok.inj reported).symm

/-- What the reading loop leaves: the time of the last range, or what it found. -/
theorem lmbenchTable_report (runs : LatencyRuns format llc cacheSize time m)
    (measured : measuredRanges llc cacheSize m.nodes = .ok ranges) {i j : Nat} (hi : i < m.nodes)
    (hj : j < m.nodes) :
    lmbenchTable m [] i j =
      match ranges.getLast? with
      | some last => resultText format last (runStride llc cacheSize m) (time i j last)
      | none => streamTable m i j := by
  have lines : latencyLines m = (rowMajor m.nodes m.nodes).flatMap fun cell =>
      (ranges.getLast?.map fun last =>
        resultText format last (runStride llc cacheSize m) (time cell.1 cell.2 last)).toList := by
    apply List.flatMap_congr
    intro cell member
    obtain ⟨hi, hj⟩ := mem_rowMajor.mp member
    rw [runs.report measured hi hj, valueLines_report]
  rw [lmbenchTable_clean, lines]
  cases ranges.getLast? with
  | none => simp
  | some last =>
      have each : ∀ cells : List (Nat × Nat), (cells.flatMap fun cell => ((some last).map fun last =>
          resultText format last (runStride llc cacheSize m) (time cell.1 cell.2 last)).toList) =
            cells.map fun cell => resultText format last (runStride llc cacheSize m)
              (time cell.1 cell.2 last) := by
        intro cells
        simp [List.map_eq_flatMap]
      rw [each, List.getElem?_map, getElem?_rowMajor hi hj]
      simp [firstWord_of_isWord (isWord_resultText format _ _ _)]

/-- What a run of a script publishes when all its runs of `lat_mem_rd` measure these ranges: where every run
made loads in the last range and the positions of the cells are in the range of `int`, `na_latency` gives the
nanoseconds of a load there, to three places. Without ranges the latencies are the Stream times, and the two
tables of factors are the same. -/
theorem published_latencies {F : Type} (toFloat : Numeral → F) {steps : List ScriptStep} {files : Files File}
    (documented : BcDocumented tools.bc) (some : 0 < m.nodes) (fits : PositionsFit m.nodes)
    (runs : LatencyRuns format llc cacheSize time m)
    (measured : measuredRanges llc cacheSize m.nodes = .ok ranges) (published : PublishedRun tools m steps)
    (clean : CleanStart files) :
    let after := filesAfter steps files
    let stride := runStride llc cacheSize m
    (∀ last, ranges.getLast? = .some last →
      (∀ i j, i < m.nodes → j < m.nodes → loadsMade last stride (time i j last) ≠ 0) →
      ∀ i j, i < m.nodes → j < m.nodes → naLatency toFloat m.nodes (i + 1 : Nat) (j + 1 : Nat) after = .ok
        (.some (toFloat (.rational (roundedTo 3
        (nanosecondsPerLoad format last stride (time i j last))).value)))) ∧
    (ranges = [] →
      after (.tmp .latencyLmbench) =
        .some (paste m.nodes ((rowMajor m.nodes m.nodes).map (latencyLine tools (streamTable m)))) ∧
      after (.tmp .numafactorLmbench) = after (.tmp .numafactorStream)) := by
  intro after stride
  obtain ⟨factors, latencies⟩ := files_published published clean some
  constructor
  · intro last isLast made i j hi hj
    have entry : ∀ i j, i < m.nodes → j < m.nodes →
        lmbenchTable m [] i j = (roundedTo 3 (nanosecondsPerLoad format last stride (time i j last))).text := by
      intro i j hi hj
      rw [lmbenchTable_report runs measured hi hj, isLast]
      exact if_neg (made i j hi hj)
    have reads : ∀ i j, i < m.nodes → j < m.nodes → Reads (latencyLine tools (lmbenchTable m []) (i, j))
        (roundedTo 3 (nanosecondsPerLoad format last stride (time i j last))).value :=
      fun i j hi hj => @reads_latencyLine _
        (fun i j => roundedTo 3 (nanosecondsPerLoad format last stride (time i j last))) documented _ i j
        (entry i j hi hj)
    rw [naLatency, show after (.tmp .latencyLmbench) = _ from latencies]
    exact readFile_paste_words toFloat (.rational 1) reads fits hi hj
  · rintro rfl
    have entry : ∀ i j, i < m.nodes → j < m.nodes → lmbenchTable m [] i j = streamTable m i j := by
      intro i j hi hj
      rw [lmbenchTable_report runs measured hi hj]
      rfl
    obtain ⟨⟨front, rfl⟩, script, isScript, same⟩ := published.shape
    obtain ⟨-, streamFactors, -⟩ := content_script_clean isScript m clean
    have stream := files_tmp_copy ((same _ _).trans streamFactors) (paste_ne_nil some _)
    constructor
    · refine latencies.trans (congrArg (fun lines => Option.some (paste m.nodes lines)) ?_)
      apply List.map_congr_left
      intro cell member
      obtain ⟨hi, hj⟩ := mem_rowMajor.mp member
      simp only [latencyLine, entry cell.1 cell.2 hi hj]
    · refine factors.trans (Eq.trans (congrArg (fun lines => Option.some (paste m.nodes lines)) ?_) stream.symm)
      apply List.map_congr_left
      intro cell member
      obtain ⟨hi, hj⟩ := mem_rowMajor.mp member
      simp only [factorLine, entry cell.1 cell.2 hi hj, entry cell.1 cell.1 hi hi]

end Runs

/-- One iteration in five milliseconds. -/
def fiveMilliseconds : Timing :=
  LibTiming.settime 5000 (LibTiming.saveN 1 ⟨LibTiming.TimeVal.zero, LibTiming.TimeVal.zero, 1⟩)

/-- Runs on two nodes that all print the same. -/
def sameRuns (out : List Text) : Measurement where
  nodes := 2
  streamAll := []
  streamFirst := []
  streamRun := fun _ _ => []
  latLocal := []
  latRun := fun _ _ => out

/-- Two nodes with eight megabytes at index 3, where all times are the same. -/
def lmbenchMeasurement : Measurement :=
  sameRuns (report (FloatFormat.fixedPoint 52) 256 (fun _ => fiveMilliseconds)
    (rangeLoop 33554432 256 lower (Nat.succ_pos 511)))

theorem published_latencies_twoNodes :
    naLatency id 2 1 2 (filesAfter (topologyNuma referenceTools true lmbenchMeasurement) fun _ => none) =
      .ok (some (.rational (roundedTo 3
        (nanosecondsPerLoad (FloatFormat.fixedPoint 52) (2 ^ 25) 256 fiveMilliseconds)).value)) := by
  let cacheSize : Nat → Nat := fun index => if index = 3 then 8192 else 256
  have arguments : latMemRdArguments 3 cacheSize lmbenchMeasurement.nodes = (32, 256) := by decide
  have ran : latMemRd (natText 32) (natText 256) = .ok (rangeLoop (32 * 2 ^ 20) 256 lower (by decide)) :=
    latMemRd_natText (by decide) 256
  have measured : measuredRanges 3 cacheSize lmbenchMeasurement.nodes =
      .ok (rangeLoop (32 * 2 ^ 20) 256 lower (by decide)) := by
    rw [measuredRanges, arguments]
    exact ran
  have runs : LatencyRuns (FloatFormat.fixedPoint 52) 3 cacheSize (fun _ _ _ => fiveMilliseconds)
      lmbenchMeasurement := by
    rw [LatencyRuns, arguments]
    intro i j _ _
    rw [latMemRdReport, ran, bytes_natText]
    rfl
  obtain ⟨last, -, inside, -, largest, found⟩ := @exists_last (32 * 2 ^ 20) 256 (by decide) (by decide)
  obtain rfl : last = 2 ^ 25 := le_antisymm inside (largest (2 ^ 25) ⟨16, Or.inl rfl⟩ (by decide))
  rw [if_pos (by decide)] at found
  have made : loadsMade (2 ^ 25) 256 fiveMilliseconds ≠ 0 := by
    rw [loadsMade, fiveMilliseconds, LibTiming.getN_settime, LibTiming.getN_saveN]
    decide
  have clean : CleanStart fun _ => none := fun _ _ => rfl
  have fits : PositionsFit lmbenchMeasurement.nodes := show 2 * 2 < 2 ^ 31 by decide
  obtain ⟨latencies, -⟩ := published_latencies id referenceTools_documented (by decide) fits runs measured
      (.inl ⟨true, rfl⟩) clean
  exact latencies _ found (fun _ _ _ _ => made) 0 1 (by decide) (by decide)

end Numafac
