/-
Module: Numafac.Script.WholeRuns
Layer: Script
Purpose: Whole runs of `calc_numafactor.sh` and of the NUMA branch of `topology.sh`. Both clear `output`
  and run the two phases, so the four tables they leave are one function of the run's measurement and of
  the lines that the run found in the appended intermediates (`content_script`). In a tree without such
  lines the tables are a function of the measurement alone.
Trusted boundary: none
Main exports: MeasuringScript, CleanStart, streamTable, lmbenchTable, content_script
-/
import Numafac.Script.PhaseResults

namespace Numafac

/-- One of the two scripts, as a function of what the machine answers. -/
def MeasuringScript (tools : Tools) (script : Measurement → List ScriptStep) : Prop :=
  script = calcNumafactor tools ∨ ∃ outputExists, script = topologyNuma tools outputExists

/-- No line is left in an appended intermediate. The repository has none of these files, and whole runs
remove them. -/
def CleanStart (files : Files File) : Prop :=
  ∀ file ∈ appendedFiles, files.content file = []

/-- The files after a whole run of a script in a new shell. -/
def filesAfter (steps : List ScriptStep) (files : Files File) : Files File :=
  (run steps { files := files, shell := .initial }).files

/-- The `tabela` matrix after the Stream phase of a run. -/
def streamTable (m : Measurement) : Nat → Nat → Text :=
  readTable m.nodes (timeLines m) fun _ _ => []

/-- The `tabela` matrix after the reading loop of the lmbench phase, when `tlatencies.minas` held the
lines `left` at the start. -/
def lmbenchTable (m : Measurement) (left : List Text) : Nat → Nat → Text :=
  readTable m.nodes (sedDropBlank left ++ latencyLines m) (streamTable m)

variable {tools : Tools} {script : Measurement → List ScriptStep}

/-- Both scripts clear `output`, run the two phases, and touch neither table nor intermediate after. -/
theorem MeasuringScript.shape (isScript : MeasuringScript tools script) (m : Measurement) :
    ∃ (inside : File → Bool) (rest : List ScriptStep), (∀ file, inside (.output file) = true) ∧
      (∀ file, inside (.stream file) = false) ∧ (∀ file, inside (.bin file) = false) ∧
      (∀ file, avoids (.output file) rest = true) ∧
      script m = .removeAll inside :: (streamPhase tools m ++ (lmbenchPhase tools m ++ rest)) := by
  rcases isScript with rfl | ⟨outputExists, rfl⟩
  · refine ⟨inOutput, [], fun _ => rfl, fun _ => rfl, fun _ => rfl, fun _ => rfl, ?_⟩
    rw [calcNumafactor, List.append_nil]
  · refine ⟨inOutputOrTmp outputExists, [.copyAll outputSource], fun _ => rfl, fun _ => rfl,
      fun _ => rfl, fun _ => rfl, ?_⟩
    rw [topologyNuma, List.append_assoc]

/-- The four tables after a whole run. -/
theorem content_script (isScript : MeasuringScript tools script) (m : Measurement)
    (files : Files File) :
    let after := filesAfter (script m) files
    after.content (.output .bandwidth) = paste m.nodes (bandLines m) ∧
      after.content (.output .numafactorStream) =
        paste m.nodes (files.content (.stream .tnumafactor) ++
          (rowMajor m.nodes m.nodes).map (factorLine tools (streamTable m))) ∧
      after.content (.output .numafactorLmbench) =
        paste m.nodes (files.content (.bin .tnumafactor) ++ (rowMajor m.nodes m.nodes).map
          (factorLine tools (lmbenchTable m (files.content (.bin .tlatencies))))) ∧
      after.content (.output .latencyLmbench) =
        paste m.nodes (files.content (.bin .tlatency) ++ (rowMajor m.nodes m.nodes).map
          (latencyLine tools (lmbenchTable m (files.content (.bin .tlatencies))))) := by
  obtain ⟨inside, rest, output, stream, bin, untouched, shape⟩ := isScript.shape m
  intro after
  let start := FileStep.exec ({ files := files, shell := .initial } : World File ShellVars)
    (.removeAll inside)
  let streamed := run (streamPhase tools m) start
  have last : ∀ file, after.content (.output file) =
      (run (lmbenchPhase tools m) streamed).files.content (.output file) := by
    intro file
    simp only [after, filesAfter, shape, run_cons, run_append]
    rw [run_content_of_avoids _ (untouched file)]
  have fresh : start.files.content (.output .stream) = [] := by
    simp [start, FileStep.exec, Files.content, output]
  have keptStream : start.files.content (.stream .tnumafactor) =
      files.content (.stream .tnumafactor) := by
    simp [start, FileStep.exec, Files.content, stream]
  have keptBin : ∀ file, streamed.files.content (.bin file) = files.content (.bin file) := by
    intro file
    have kept : streamed.files (.bin file) = files (.bin file) := by
      rw [files_bin_streamPhase]
      simp [start, FileStep.exec, bin]
    rw [Files.content, kept, Files.content]
  obtain ⟨columns, table⟩ := shell_streamPhase tools m start fresh
  have sameTable : ∀ i j, j < m.nodes →
      latencyTable m streamed i j = lmbenchTable m (files.content (.bin .tlatencies)) i j := by
    intro i j hj
    simp only [latencyTable, lmbenchTable, readTable, keptBin, streamed, table i j hj]
    rfl
  obtain ⟨factors, latencies⟩ := content_lmbenchPhase tools m streamed
  refine ⟨?_, ?_, ?_, ?_⟩
  · rw [last, content_output_lmbenchPhase tools m streamed _ (Or.inl rfl)]
    exact content_bandwidth_streamPhase tools m start fresh
  · rw [last, content_output_lmbenchPhase tools m streamed _ (Or.inr rfl)]
    rw [content_numafactor_streamPhase tools m start fresh, keptStream]
    rfl
  · rw [last, factors, columns, keptBin, map_factorLine_congr tools sameTable]
  · rw [last, latencies, columns, keptBin, map_latencyLine_congr tools sameTable]

/-- In a clean tree the tables are a function of the measurement alone. -/
theorem content_script_clean (isScript : MeasuringScript tools script) (m : Measurement)
    {files : Files File} (clean : CleanStart files) :
    let after := filesAfter (script m) files
    after.content (.output .bandwidth) = paste m.nodes (bandLines m) ∧
      after.content (.output .numafactorStream) =
        paste m.nodes ((rowMajor m.nodes m.nodes).map (factorLine tools (streamTable m))) ∧
      after.content (.output .numafactorLmbench) =
        paste m.nodes ((rowMajor m.nodes m.nodes).map (factorLine tools (lmbenchTable m []))) ∧
      after.content (.output .latencyLmbench) =
        paste m.nodes ((rowMajor m.nodes m.nodes).map (latencyLine tools (lmbenchTable m []))) := by
  have tables := content_script isScript m files
  simpa only [clean (.stream .tnumafactor) (by decide), clean (.bin .tlatencies) (by decide),
    clean (.bin .tnumafactor) (by decide), clean (.bin .tlatency) (by decide), List.nil_append]
    using tables

/-- Where the value lines of a clean run reach, the matrix holds them. -/
theorem lmbenchTable_clean (m : Measurement) (i j : Nat) :
    lmbenchTable m [] i j =
      ((latencyLines m)[i * m.nodes + j]?.map firstWord).getD (streamTable m i j) := by
  simp [lmbenchTable, readTable, sedDropBlank]

end Numafac
