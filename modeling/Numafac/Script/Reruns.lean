/-
Module: Numafac.Script.Reruns
Layer: Script
Purpose: Runs of `calc_numafactor.sh` after earlier runs that may have stopped after any step. The last
  run writes the tables of a clean tree exactly when the earlier ones left no line in the four appended
  intermediates (blank lines in `tlatencies.minas` are dropped later), and they leave none when each of
  them stopped outside the stretch between the first append to one of these files and its removal.
Trusted boundary: `bc` as documented
Main exports: TablesOfCleanTree, NothingLeft, StopsOutside, settledAfter_calcNumafactor, rerun_clean_iff
-/
import Numafac.Script.Isolation

namespace Numafac

/-- A run of `calc_numafactor.sh` that completed some of its steps. -/
structure StoppedRun where
  measurement : Measurement
  plain : PlainWords measurement
  steps : Nat

/-- The tree after earlier runs that started in a tree without any of the files. -/
def filesBefore (tools : Tools) (earlier : List StoppedRun) : Files File :=
  history .initial (earlier.map fun run => (calcNumafactor tools run.measurement, run.steps))
    fun _ => none

/-- A run that completes in this tree leaves the four tables that it leaves in a clean tree. -/
def TablesOfCleanTree (tools : Tools) (nodes : Nat) (files : Files File) : Prop :=
  ∀ m : Measurement, m.nodes = nodes → PlainWords m → ∀ file : OutputFile,
    file ∈ [.bandwidth, .numafactorStream, .latencyLmbench, .numafactorLmbench] →
      (filesAfter (calcNumafactor tools m) files).content (.output file) =
        (filesAfter (calcNumafactor tools m) fun _ => none).content (.output file)

/-- The intermediates hold nothing that the last run would add to its own lines. -/
structure NothingLeft (files : Files File) : Prop where
  streamFactors : files.content (.stream .tnumafactor) = []
  latencies : sedDropBlank (files.content (.bin .tlatencies)) = []
  lmbenchFactors : files.content (.bin .tnumafactor) = []
  latencyTable : files.content (.bin .tlatency) = []

/-- The run did not stop between an append to an intermediate and its removal. -/
def StopsOutside (tools : Tools) (run : StoppedRun) : Prop :=
  ∀ file ∈ appendedFiles,
    settledAfter file ((calcNumafactor tools run.measurement).take run.steps) = true

variable {tools : Tools}

/-- Without leftovers the tables are those of a clean tree. -/
theorem tablesOfCleanTree_of_nothingLeft {nodes : Nat} {files : Files File}
    (nothing : NothingLeft files) : TablesOfCleanTree tools nodes files := by
  intro m _ _ file member
  have isScript : MeasuringScript tools (calcNumafactor tools) := Or.inl rfl
  obtain ⟨bandwidth, stream, factors, latencies⟩ := content_script isScript m files
  obtain ⟨bandwidth', stream', factors', latencies'⟩ :=
    content_script_clean isScript m (fun _ _ => rfl : CleanStart fun _ => none)
  have table : lmbenchTable m (files.content (.bin .tlatencies)) =
      lmbenchTable m [] := by
    rw [lmbenchTable, nothing.latencies]
    rfl
  simp only [List.mem_cons, List.not_mem_nil, or_false] at member
  rcases member with rfl | rfl | rfl | rfl
  · rw [bandwidth, bandwidth']
  · rw [stream, stream', nothing.streamFactors, List.nil_append]
  · rw [latencies, latencies', nothing.latencyTable, table, List.nil_append]
  · rw [factors, factors', nothing.lmbenchFactors, table, List.nil_append]

/-- Extra lines in front of a full table make it longer. -/
theorem eq_nil_of_paste_append {nodes : Nat} {left lines lines' : List Text} (pos : 0 < nodes)
    (full : lines.length = nodes * nodes) (full' : lines'.length = nodes * nodes)
    (same : paste nodes (left ++ lines) = paste nodes lines') : left = [] := by
  by_contra nonempty
  have more : nodes * nodes < (left ++ lines).length := by
    have := List.length_pos_iff.mpr nonempty
    simp only [List.length_append, full]
    omega
  have longer := lt_length_paste pos more
  rw [same, length_paste_full pos full'] at longer
  exact Nat.lt_irrefl _ longer

/-- A line left for the reading loop is the first latency of every later run. -/
theorem lmbenchTable_left {m : Measurement} {left : List Text} {first : Text} {more : List Text}
    (shape : sedDropBlank left = first :: more) : lmbenchTable m left 0 0 = firstWord first := by
  simp [lmbenchTable, readTable, shape]

/-- Leftovers show in some table: three of the intermediates in the number of rows, the fourth in the
first latency, which cannot be right both when the last run measures 1 and when it measures 2. -/
theorem nothingLeft_of_tablesOfCleanTree {nodes : Nat} {files : Files File}
    (documented : BcDocumented tools.bc) (pos : 0 < nodes)
    (clean : TablesOfCleanTree tools nodes files) : NothingLeft files := by
  have isScript : MeasuringScript tools (calcNumafactor tools) := Or.inl rfl
  let silent : Measurement :=
    { nodes := nodes, streamAll := [], streamFirst := [], streamRun := fun _ _ => [], latLocal := [],
      latRun := fun _ _ => [] }
  let measured := fun one => probe silent (fun _ _ => one) one
  have after := fun one => content_script isScript (measured one) files
  have fresh := fun one => content_script_clean isScript (measured one)
    (fun _ _ => rfl : CleanStart fun _ => none)
  have full : ∀ line : Nat × Nat → Text, ((rowMajor nodes nodes).map line).length = nodes * nodes :=
    fun line => by simp
  have streamFactors : files.content (.stream .tnumafactor) = [] := by
    have same := clean (measured true) rfl plainWords_probe .numafactorStream (by simp)
    rw [(after true).2.1, (fresh true).2.1] at same
    exact eq_nil_of_paste_append pos (full _) (full _) same
  have lmbenchFactors : files.content (.bin .tnumafactor) = [] := by
    have same := clean (measured true) rfl plainWords_probe .numafactorLmbench (by simp)
    rw [(after true).2.2.1, (fresh true).2.2.1] at same
    exact eq_nil_of_paste_append pos (full _) (full _) same
  have latencyTable : files.content (.bin .tlatency) = [] := by
    have same := clean (measured true) rfl plainWords_probe .latencyLmbench (by simp)
    rw [(after true).2.2.2, (fresh true).2.2.2] at same
    exact eq_nil_of_paste_append pos (full _) (full _) same
  refine ⟨streamFactors, ?_, lmbenchFactors, latencyTable⟩
  cases shape : sedDropBlank (files.content (.bin .tlatencies)) with
  | nil => rfl
  | cons first more =>
      have cell : ∀ one, firstWord (tools.bc (numeralProgram (firstWord first))) =
          firstWord (tools.bc (numeralProgram (probeText one))) := by
        intro one
        have same := clean (measured one) rfl plainWords_probe .latencyLmbench (by simp)
        rw [(after one).2.2.2, (fresh one).2.2.2, latencyTable, List.nil_append] at same
        have cells := congrArg (fun table => cellAt table 0 0) same
        have own : lmbenchTable (measured one) [] 0 0 = probeText one := by
          rcases @lmbenchTable_probe silent (fun _ _ => one) one 0 0 pos pos with
            ⟨_, _, entry, _⟩ | entry
          · exact entry
          · exact entry
        have left := cellAt_paste_firstWord (fun cell => tools.bc (numeralProgram
          (lmbenchTable (measured one) (files.content (.bin .tlatencies)) cell.1 cell.2))) pos pos
        have right := cellAt_paste_firstWord (fun cell => tools.bc (numeralProgram
          (lmbenchTable (measured one) [] cell.1 cell.2))) pos pos
        have joined := left.symm.trans (cells.trans right)
        simpa only [lmbenchTable_left shape, own, Option.some.injEq] using joined
      exact absurd ((cell true).symm.trans (cell false)) (probe_distinct documented)

/-- Runs that stop outside the stretches leave nothing. -/
theorem nothingLeft_of_stopsOutside {earlier : List StoppedRun}
    (outside : ∀ run ∈ earlier, StopsOutside tools run) :
    NothingLeft (filesBefore tools earlier) := by
  have empty : ∀ file ∈ appendedFiles, (filesBefore tools earlier).content file = [] := by
    intro file member
    apply content_history_nil _ rfl
    intro attempt inside
    obtain ⟨run, known, rfl⟩ := List.mem_map.mp inside
    exact outside run known file member
  have dropped : sedDropBlank ((filesBefore tools earlier).content (.bin .tlatencies)) = [] := by
    rw [empty (.bin .tlatencies) (by decide)]
    rfl
  exact ⟨empty _ (by decide), dropped, empty _ (by decide), empty _ (by decide)⟩

/-- A run that completes removes what it appended. -/
theorem settledAfter_calcNumafactor (m : Measurement) :
    ∀ file ∈ appendedFiles, settledAfter file (calcNumafactor tools m) = true := by
  have lmbench : avoids (.stream .tnumafactor) (lmbenchPhase tools m) = true := by
    simp [lmbenchPhase, latencyLocal, latencyRuns, latencyRead, latencyFactors, latencyTables,
      latencyRunBody, latencyFactorBody, avoids_flatMap, FileStep.touches]
  have factors : avoids (.bin .tlatencies) (latencyFactors tools m) = true :=
    avoids_flatMap _ fun cell => by simp [latencyFactorBody, FileStep.touches]
  intro file member
  simp only [appendedFiles, List.mem_cons, List.not_mem_nil, or_false] at member
  rcases member with rfl | rfl | rfl | rfl
  · simp only [settledAfter, calcNumafactor, streamPhase, List.foldl_cons, List.foldl_append]
    rw [foldl_settles_of_avoids _ lmbench]
    rfl
  · simp only [settledAfter, calcNumafactor, lmbenchPhase, List.foldl_cons, List.foldl_append]
    rw [foldl_settles_of_avoids _ factors]
    rfl
  · simp only [settledAfter, calcNumafactor, lmbenchPhase, List.foldl_cons, List.foldl_append]
    rfl
  · simp only [settledAfter, calcNumafactor, lmbenchPhase, List.foldl_cons, List.foldl_append]
    rfl

/-- Complete runs keep the tree clean. -/
theorem cleanStart_filesAfter (m : Measurement) {files : Files File} (clean : CleanStart files) :
    CleanStart (filesAfter (calcNumafactor tools m) files) := by
  intro file member
  exact content_run_nil_of_settled (settledAfter_calcNumafactor m file member) (clean file member)

theorem stopsOutside_of_complete {run : StoppedRun}
    (complete : (calcNumafactor tools run.measurement).length ≤ run.steps) :
    StopsOutside tools run := by
  intro file member
  rw [List.take_of_length_le complete]
  exact settledAfter_calcNumafactor run.measurement file member

/-- The tables of the last run are those of a clean tree exactly when nothing is left; and nothing is left
when every earlier run stopped outside the stretches in which an intermediate is filled. -/
theorem rerun_clean_iff (documented : BcDocumented tools.bc) {nodes : Nat} (pos : 0 < nodes)
    (earlier : List StoppedRun) :
    (TablesOfCleanTree tools nodes (filesBefore tools earlier) ↔
        NothingLeft (filesBefore tools earlier)) ∧
      ((∀ run ∈ earlier, StopsOutside tools run) →
        TablesOfCleanTree tools nodes (filesBefore tools earlier)) :=
  ⟨⟨nothingLeft_of_tablesOfCleanTree documented pos, tablesOfCleanTree_of_nothingLeft⟩,
    fun outside => tablesOfCleanTree_of_nothingLeft (nothingLeft_of_stopsOutside outside)⟩

/-- A run on two nodes, stopped right after its first factor went to `stream/tnumafactor.minas`. -/
def stoppedRun : StoppedRun :=
  { measurement := failedRunMeasurement, plain := by decide, steps := 29 }

theorem not_tablesOfCleanTree_stopped :
    ¬ TablesOfCleanTree referenceTools 2 (filesBefore referenceTools [stoppedRun]) := by
  intro clean
  have nothing := nothingLeft_of_tablesOfCleanTree referenceTools_documented (by decide) clean
  have one : ((filesBefore referenceTools [stoppedRun]).content (.stream .tnumafactor)).length = 1 :=
    rfl
  rw [nothing.streamFactors] at one
  exact absurd one (by decide)

/-- A run that completed instead. -/
def completedRun : StoppedRun :=
  { measurement := failedRunMeasurement, plain := by decide, steps := 100 }

theorem rerun_clean_iff_completed :
    TablesOfCleanTree referenceTools 2 (filesBefore referenceTools [completedRun]) :=
  (rerun_clean_iff referenceTools_documented (by decide) [completedRun]).2 fun run member => by
    rw [List.mem_singleton] at member
    subst member
    exact stopsOutside_of_complete (by decide)

end Numafac
