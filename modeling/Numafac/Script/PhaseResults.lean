/-
Module: Numafac.Script.PhaseResults
Layer: Script
Purpose: What each part of the two phases leaves in its files and variables, as a function of what it
  found there. The straight-line parts are computed step by step; the two factor loops go through the
  rule for append loops with the invariant that the `tabela` variables do not change. The results of a
  whole phase (`content_bandwidth_streamPhase` and its companions) keep the lines that earlier runs left
  in the appended intermediates, so that both clean and stale starts are instances.
Trusted boundary: none
Main exports: bandLines, timeLines, latencyLines, readTabela_vars, factorLine, latencyLine,
  content_bandwidth_streamPhase, content_numafactor_streamPhase, shell_streamPhase, content_lmbenchPhase
-/
import Numafac.Script.Phases

namespace Numafac

/-! ### The reading loop -/

/-- The reading loop assigns line `p` of its input to the pair at row-major position `p`. The counter
is general, because the loop carries it from line to line. -/
theorem readTabela_vars_from {nodes counter : Nat} {lines : List Text} {shell : ShellVars} {i j : Nat}
    (hj : j < nodes) :
    (readTabela nodes counter lines shell).vars (tabelaVar i j) =
      if counter ≤ i * nodes + j then
        (lines[i * nodes + j - counter]?.map firstWord).getD (shell.vars (tabelaVar i j))
      else shell.vars (tabelaVar i j) := by
  induction lines generalizing counter shell with
  | nil => simp [readTabela]
  | cons n lines ih =>
      rw [readTabela, ih]
      have atCounter : tabelaVar i j = tabelaVar (counter / nodes) (counter % nodes) ↔
          counter = i * nodes + j := by
        constructor
        · intro same
          obtain ⟨row, column⟩ := tabelaVar_inj same
          rw [row, column, Nat.mul_comm, Nat.div_add_mod]
        · rintro rfl
          rw [position_div hj, position_mod hj]
      by_cases here : counter = i * nodes + j
      · -- this line belongs to the pair; the later ones have larger positions
        have name := atCounter.mpr here
        rw [if_neg (by omega), if_pos (by omega), name]
        simp [here]
      · have other : tabelaVar i j ≠ tabelaVar (counter / nodes) (counter % nodes) :=
          fun same => here (atCounter.mp same)
        rw [declare_vars_of_ne shell n other]
        by_cases later : counter ≤ i * nodes + j
        · rw [if_pos (by omega), if_pos later]
          have step : i * nodes + j - counter = i * nodes + j - (counter + 1) + 1 := by omega
          rw [step, List.getElem?_cons_succ]
        · rw [if_neg (by omega), if_neg later]

theorem readTabela_vars {nodes : Nat} (lines : List Text) (shell : ShellVars) (i : Nat) {j : Nat}
    (hj : j < nodes) :
    (readTabela nodes 0 lines shell).vars (tabelaVar i j) =
      (lines[i * nodes + j]?.map firstWord).getD (shell.vars (tabelaVar i j)) := by
  rw [readTabela_vars_from hj, if_pos (Nat.zero_le _), Nat.sub_zero]

@[simp] theorem readTabela_columns (nodes counter : Nat) (lines : List Text) (shell : ShellVars) :
    (readTabela nodes counter lines shell).columns = shell.columns := by
  induction lines generalizing counter shell with
  | nil => rfl
  | cons n lines ih => rw [readTabela, ih, declare_columns]

/-! ### Lines of the intermediates -/

/-- The lines of `output/stream.minas` after the pair runs. -/
def streamLines (m : Measurement) : List Text :=
  (rowMajor m.nodes m.nodes).flatMap fun cell => m.streamRun cell.1 cell.2

/-- `band.data`: the columns 3 to 11 of the rate field. -/
def bandLines (m : Measurement) : List Text :=
  (egrepTriad (streamLines m)).map fun line => cutColumns 3 11 (cutField 2 line)

/-- `fn.data`: the columns 6 to 11 of the time field. -/
def timeLines (m : Measurement) : List Text :=
  (egrepTriad (streamLines m)).map fun line => cutColumns 6 11 (cutField 3 line)

/-- The value lines that one run contributes to `latencies.minas`. -/
def valueLines (out : List Text) : List Text :=
  sedDropBlank (awkSecond (tail 2 out))

/-- `latencies.minas` of a run that starts without `tlatencies.minas`. -/
def latencyLines (m : Measurement) : List Text :=
  (rowMajor m.nodes m.nodes).flatMap fun cell => valueLines (m.latRun cell.1 cell.2)

/-- The line of the factor table for a pair, from the `tabela` variables. -/
def factorLine (tools : Tools) (table : Nat → Nat → Text) (cell : Nat × Nat) : Text :=
  firstWord (tools.bc (quotientProgram (table cell.1 cell.2) (table cell.1 cell.1)))

/-- The line of the latency table for a pair, from the `tabela` variables. -/
def latencyLine (tools : Tools) (table : Nat → Nat → Text) (cell : Nat × Nat) : Text :=
  firstWord (tools.bc (numeralProgram (table cell.1 cell.2)))

/-- The `tabela` variables of a shell as a matrix. -/
def ShellVars.table (shell : ShellVars) (i j : Nat) : Text :=
  shell.vars (tabelaVar i j)

/-- The matrix after a reading loop over `lines` that started from the matrix `before`. -/
def readTable (nodes : Nat) (lines : List Text) (before : Nat → Nat → Text) (i j : Nat) : Text :=
  (lines[i * nodes + j]?.map firstWord).getD (before i j)

theorem sedDropBlank_append (front back : List Text) :
    sedDropBlank (front ++ back) = sedDropBlank front ++ sedDropBlank back := by
  simp [sedDropBlank]

theorem sedDropBlank_flatMap {ι : Type} (items : List ι) (lines : ι → List Text) :
    sedDropBlank (items.flatMap lines) = items.flatMap fun item => sedDropBlank (lines item) := by
  simp [sedDropBlank, List.filter_flatMap]

/-! ### The Stream phase, part by part -/

variable (tools : Tools) (m : Measurement) (world : World File ShellVars)

theorem run_streamRuns :
    (run (streamRuns m) world).shell = world.shell ∧
      (run (streamRuns m) world).files.content (.output .stream) =
        world.files.content (.output .stream) ++ streamLines m := by
  apply run_appendLoop (.output .stream)
    (fun later : World File ShellVars => later.shell = world.shell)
    (fun cell : Nat × Nat => m.streamRun cell.1 cell.2)
  · exact fun _ _ kept => kept
  · intro cell later _
    simp [FileStep.exec, content_update]
  · rfl

theorem content_band_streamExtraction :
    (run streamExtraction world).files.content (.stream .band) =
      (egrepTriad (world.files.content (.output .stream))).map fun line =>
        cutColumns 3 11 (cutField 2 line) := by
  simp [streamExtraction, FileStep.exec, content_update]

theorem content_fn_streamExtraction :
    (run streamExtraction world).files.content (.stream .fn) =
      (egrepTriad (world.files.content (.output .stream))).map fun line =>
        cutColumns 6 11 (cutField 3 line) := by
  simp [streamExtraction, FileStep.exec, content_update]

theorem shell_streamExtraction : (run streamExtraction world).shell = world.shell := rfl

theorem content_bandwidth_streamTables :
    (run (streamTables tools m) world).files.content (.output .bandwidth) =
      paste m.nodes (world.files.content (.stream .band)) := by
  simp [streamTables, FileStep.exec, content_update]

theorem shell_streamTables :
    (run (streamTables tools m) world).shell =
      readTabela m.nodes 0 (world.files.content (.stream .fn))
        { world.shell with columns := m.nodes } := by
  simp [streamTables, FileStep.exec, content_update]

/-- The body of the factor loop leaves the `tabela` variables and the columns alone. -/
theorem shell_streamFactorBody (cell : Nat × Nat) :
    (run (streamFactorBody tools cell) world).shell.table = world.shell.table ∧
      (run (streamFactorBody tools cell) world).shell.columns = world.shell.columns := by
  refine ⟨?_, rfl⟩
  funext i j
  simp only [streamFactorBody, run_cons, run_nil, FileStep.exec, ShellVars.table]
  exact declare_vars_of_ne _ _ (tabelaVar_ne_fatorVar _ _ _ _)

theorem content_streamFactorBody (cell : Nat × Nat) :
    (run (streamFactorBody tools cell) world).files.content (.stream .tnumafactor) =
      world.files.content (.stream .tnumafactor) ++ [factorLine tools world.shell.table cell] := by
  simp [streamFactorBody, FileStep.exec, content_update, factorLine, bcFactor, ShellVars.table]

/-- The factor loop, with the untouched `tabela` matrix as its invariant. -/
theorem run_streamFactors :
    ((run (streamFactors tools m) world).shell.table = world.shell.table ∧
        (run (streamFactors tools m) world).shell.columns = world.shell.columns) ∧
      (run (streamFactors tools m) world).files.content (.stream .tnumafactor) =
        world.files.content (.stream .tnumafactor) ++
          (rowMajor m.nodes m.nodes).map (factorLine tools world.shell.table) := by
  rw [streamFactors, List.map_eq_flatMap]
  apply run_appendLoop (.stream .tnumafactor)
    (fun later : World File ShellVars =>
      later.shell.table = world.shell.table ∧ later.shell.columns = world.shell.columns)
    (fun cell => [factorLine tools world.shell.table cell])
  · intro cell later kept
    obtain ⟨table, columns⟩ := shell_streamFactorBody tools later cell
    exact ⟨table.trans kept.1, columns.trans kept.2⟩
  · intro cell later kept
    rw [content_streamFactorBody, kept.1]
  · exact ⟨rfl, rfl⟩

theorem content_numafactor_streamFactorTable :
    (run (streamFactorTable tools) world).files.content (.output .numafactorStream) =
      paste world.shell.columns (world.files.content (.stream .tnumafactor)) := by
  simp [streamFactorTable, FileStep.exec, content_update]

/-! ### The Stream phase as a whole -/

/-- The reading loop as a matrix, at the pairs inside the table. -/
theorem table_readTabela {nodes : Nat} (lines : List Text) (shell : ShellVars) (i : Nat) {j : Nat}
    (hj : j < nodes) :
    (readTabela nodes 0 lines shell).table i j = readTable nodes lines shell.table i j :=
  readTabela_vars lines shell i hj

/-- Lines of a factor table depend on the matrix inside the table only. -/
theorem map_factorLine_congr {nodes : Nat} {table table' : Nat → Nat → Text}
    (same : ∀ i j, j < nodes → table i j = table' i j) :
    (rowMajor nodes nodes).map (factorLine tools table) =
      (rowMajor nodes nodes).map (factorLine tools table') := by
  apply List.map_congr_left
  intro cell member
  obtain ⟨hi, hj⟩ := mem_rowMajor.mp member
  simp only [factorLine, same cell.1 cell.2 hj, same cell.1 cell.1 hi]

theorem map_latencyLine_congr {nodes : Nat} {table table' : Nat → Nat → Text}
    (same : ∀ i j, j < nodes → table i j = table' i j) :
    (rowMajor nodes nodes).map (latencyLine tools table) =
      (rowMajor nodes nodes).map (latencyLine tools table') := by
  apply List.map_congr_left
  intro cell member
  obtain ⟨-, hj⟩ := mem_rowMajor.mp member
  simp only [latencyLine, same cell.1 cell.2 hj]

/-- The state in which the factor loop of the Stream phase starts. -/
theorem run_before_streamFactors (fresh : world.files.content (.output .stream) = []) :
    let before := run (streamTables tools m)
      (run streamExtraction (run (streamRuns m) (run (streamLocal m) world)))
    before.shell =
        readTabela m.nodes 0 (timeLines m) { world.shell with columns := m.nodes } ∧
      before.files.content (.output .bandwidth) = paste m.nodes (bandLines m) ∧
      before.files.content (.stream .tnumafactor) =
        world.files.content (.stream .tnumafactor) := by
  have started : (run (streamLocal m) world).files.content (.output .stream) = [] := by
    rw [run_content_of_avoids world (by simp [streamLocal, FileStep.touches]), fresh]
  obtain ⟨shell, content⟩ := run_streamRuns m (run (streamLocal m) world)
  rw [started, List.nil_append] at content
  refine ⟨?_, ?_, ?_⟩
  · rw [shell_streamTables, content_fn_streamExtraction, content, shell_streamExtraction, shell]
    rfl
  · rw [content_bandwidth_streamTables, content_band_streamExtraction, content]
    rfl
  · rw [run_content_of_avoids, run_content_of_avoids, run_content_of_avoids, run_content_of_avoids]
    · simp [streamLocal, FileStep.touches]
    · exact avoids_flatMap _ fun cell => by simp [FileStep.touches]
    · simp [streamExtraction, FileStep.touches]
    · simp [streamTables, FileStep.touches]

/-- The Stream phase leaves `bandwidth.minas` as a function of its runs. -/
theorem content_bandwidth_streamPhase (fresh : world.files.content (.output .stream) = []) :
    (run (streamPhase tools m) world).files.content (.output .bandwidth) =
      paste m.nodes (bandLines m) := by
  obtain ⟨-, bandwidth, -⟩ := run_before_streamFactors tools m world fresh
  simp only [streamPhase, run_append]
  rw [run_content_of_avoids, run_content_of_avoids, bandwidth]
  · exact avoids_flatMap _ fun cell => by simp [streamFactorBody, FileStep.touches]
  · simp [streamFactorTable, FileStep.touches]

/-- After the Stream phase the `tabela` matrix holds its access times. -/
theorem shell_streamPhase (fresh : world.files.content (.output .stream) = []) :
    (run (streamPhase tools m) world).shell.columns = m.nodes ∧
      ∀ i j, j < m.nodes → (run (streamPhase tools m) world).shell.table i j =
        readTable m.nodes (timeLines m) world.shell.table i j := by
  obtain ⟨shell, -, -⟩ := run_before_streamFactors tools m world fresh
  obtain ⟨⟨table, columns⟩, -⟩ := run_streamFactors tools m
    (run (streamTables tools m) (run streamExtraction (run (streamRuns m) (run (streamLocal m) world))))
  have last : ∀ start : World File ShellVars,
      (run (streamFactorTable tools) start).shell = start.shell := fun _ => rfl
  simp only [streamPhase, run_append, last]
  constructor
  · rw [columns, shell, readTabela_columns]
  · intro i j hj
    rw [table, shell, table_readTabela _ _ i hj]
    rfl

/-- The factor table of the Stream phase: the lines left from earlier runs come first. -/
theorem content_numafactor_streamPhase (fresh : world.files.content (.output .stream) = []) :
    (run (streamPhase tools m) world).files.content (.output .numafactorStream) =
      paste m.nodes (world.files.content (.stream .tnumafactor) ++
        (rowMajor m.nodes m.nodes).map
          (factorLine tools (readTable m.nodes (timeLines m) world.shell.table))) := by
  obtain ⟨shell, -, kept⟩ := run_before_streamFactors tools m world fresh
  obtain ⟨⟨-, columns⟩, content⟩ := run_streamFactors tools m
    (run (streamTables tools m) (run streamExtraction (run (streamRuns m) (run (streamLocal m) world))))
  have table : ∀ i j, j < m.nodes →
      (readTabela m.nodes 0 (timeLines m) { world.shell with columns := m.nodes }).table i j =
        readTable m.nodes (timeLines m) world.shell.table i j :=
    fun i j hj => table_readTabela _ _ i hj
  simp only [streamPhase, run_append]
  rw [content_numafactor_streamFactorTable, columns, shell, readTabela_columns, content, kept, shell,
    map_factorLine_congr tools table]

/-- The Stream phase leaves the files of the lmbench directory alone. -/
theorem files_bin_streamPhase (file : BinFile) :
    (run (streamPhase tools m) world).files (.bin file) = world.files (.bin file) := by
  apply run_files_of_avoids
  simp [streamPhase, streamLocal, streamRuns, streamExtraction, streamTables, streamFactors,
    streamFactorTable, streamFactorBody, avoids_flatMap, FileStep.touches]

/-! ### The lmbench phase, part by part -/

theorem run_latencyRuns :
    (run (latencyRuns m) world).shell = world.shell ∧
      (run (latencyRuns m) world).files.content (.bin .tlatencies) =
        world.files.content (.bin .tlatencies) ++
          (rowMajor m.nodes m.nodes).flatMap fun cell =>
            awkSecond (tail 2 (m.latRun cell.1 cell.2)) := by
  apply run_appendLoop (.bin .tlatencies)
    (fun later : World File ShellVars => later.shell = world.shell)
    (fun cell : Nat × Nat => awkSecond (tail 2 (m.latRun cell.1 cell.2)))
  · exact fun _ _ kept => kept
  · intro cell later _
    simp [latencyRunBody, FileStep.exec, content_update]
  · rfl

theorem shell_latencyRead :
    (run (latencyRead m) world).shell =
      readTabela m.nodes 0 (sedDropBlank (world.files.content (.bin .tlatencies))) world.shell := by
  simp [latencyRead, FileStep.exec, content_update]

theorem shell_latencyFactorBody (cell : Nat × Nat) :
    (run (latencyFactorBody tools cell) world).shell.table = world.shell.table ∧
      (run (latencyFactorBody tools cell) world).shell.columns = world.shell.columns := by
  refine ⟨?_, rfl⟩
  funext i j
  simp only [latencyFactorBody, run_cons, run_nil, FileStep.exec, ShellVars.table]
  rw [declare_vars_of_ne _ _ (tabelaVar_ne_latencyVar _ _ _ _),
    declare_vars_of_ne _ _ (tabelaVar_ne_fatorVar _ _ _ _)]

theorem content_latencyFactorBody (cell : Nat × Nat) :
    (run (latencyFactorBody tools cell) world).files.content (.bin .tnumafactor) =
        world.files.content (.bin .tnumafactor) ++ [factorLine tools world.shell.table cell] ∧
      (run (latencyFactorBody tools cell) world).files.content (.bin .tlatency) =
        world.files.content (.bin .tlatency) ++ [latencyLine tools world.shell.table cell] := by
  have keptTable : ∀ text,
      (world.shell.declare (fatorVar cell.1 cell.2) text).vars (tabelaVar cell.1 cell.2) =
        world.shell.vars (tabelaVar cell.1 cell.2) :=
    fun text => declare_vars_of_ne _ _ (tabelaVar_ne_fatorVar _ _ _ _)
  constructor
  · simp [latencyFactorBody, FileStep.exec, content_update, factorLine, bcFactor, ShellVars.table,
      declare_vars_of_ne _ _ (fatorVar_ne_latencyVar _ _ _ _)]
  · simp [latencyFactorBody, FileStep.exec, content_update, latencyLine, bcLatency, ShellVars.table,
      keptTable]

/-- The second factor loop, with the same invariant, fills both intermediates. -/
theorem run_latencyFactors :
    (run (latencyFactors tools m) world).shell.columns = world.shell.columns ∧
      (run (latencyFactors tools m) world).files.content (.bin .tnumafactor) =
        world.files.content (.bin .tnumafactor) ++
          (rowMajor m.nodes m.nodes).map (factorLine tools world.shell.table) ∧
      (run (latencyFactors tools m) world).files.content (.bin .tlatency) =
        world.files.content (.bin .tlatency) ++
          (rowMajor m.nodes m.nodes).map (latencyLine tools world.shell.table) := by
  have keeps : ∀ (cell : Nat × Nat) (later : World File ShellVars),
      later.shell.table = world.shell.table ∧ later.shell.columns = world.shell.columns →
        (run (latencyFactorBody tools cell) later).shell.table = world.shell.table ∧
          (run (latencyFactorBody tools cell) later).shell.columns = world.shell.columns := by
    intro cell later kept
    obtain ⟨table, columns⟩ := shell_latencyFactorBody tools later cell
    exact ⟨table.trans kept.1, columns.trans kept.2⟩
  have factors := run_appendLoop (.bin .tnumafactor)
    (fun later : World File ShellVars =>
      later.shell.table = world.shell.table ∧ later.shell.columns = world.shell.columns)
    (fun cell => [factorLine tools world.shell.table cell]) keeps
    (fun cell later kept => by rw [(content_latencyFactorBody tools later cell).1, kept.1])
    (rowMajor m.nodes m.nodes) ⟨rfl, rfl⟩
  have latencies := run_appendLoop (.bin .tlatency)
    (fun later : World File ShellVars =>
      later.shell.table = world.shell.table ∧ later.shell.columns = world.shell.columns)
    (fun cell => [latencyLine tools world.shell.table cell]) keeps
    (fun cell later kept => by rw [(content_latencyFactorBody tools later cell).2, kept.1])
    (rowMajor m.nodes m.nodes) ⟨rfl, rfl⟩
  rw [List.map_eq_flatMap, List.map_eq_flatMap]
  exact ⟨factors.1.2, factors.2, latencies.2⟩

theorem content_latencyTables :
    (run (latencyTables tools) world).files.content (.output .numafactorLmbench) =
        paste world.shell.columns (world.files.content (.bin .tnumafactor)) ∧
      (run (latencyTables tools) world).files.content (.output .latencyLmbench) =
        paste world.shell.columns (world.files.content (.bin .tlatency)) := by
  constructor <;> simp [latencyTables, FileStep.exec, content_update]

/-! ### The lmbench phase as a whole -/

/-- The `tabela` matrix that the second factor loop sees. Where the value lines do not reach, it still
holds what the Stream phase left there. -/
def latencyTable (m : Measurement) (world : World File ShellVars) : Nat → Nat → Text :=
  readTable m.nodes (sedDropBlank (world.files.content (.bin .tlatencies)) ++ latencyLines m)
    world.shell.table

/-- The state in which the factor loop of the lmbench phase starts. -/
theorem run_before_latencyFactors :
    let before := run (latencyRead m) (run (latencyRuns m) (run (latencyLocal m) world))
    before.shell.columns = world.shell.columns ∧
      (∀ i j, j < m.nodes → before.shell.table i j = latencyTable m world i j) ∧
      before.files.content (.bin .tnumafactor) = world.files.content (.bin .tnumafactor) ∧
      before.files.content (.bin .tlatency) = world.files.content (.bin .tlatency) := by
  have localShell : (run (latencyLocal m) world).shell = world.shell := rfl
  have started : (run (latencyLocal m) world).files.content (.bin .tlatencies) =
      world.files.content (.bin .tlatencies) :=
    run_content_of_avoids world (by simp [latencyLocal, FileStep.touches])
  obtain ⟨shell, content⟩ := run_latencyRuns m (run (latencyLocal m) world)
  have lines : sedDropBlank ((run (latencyRuns m) (run (latencyLocal m) world)).files.content
        (.bin .tlatencies)) =
      sedDropBlank (world.files.content (.bin .tlatencies)) ++ latencyLines m := by
    rw [content, started, sedDropBlank_append, sedDropBlank_flatMap]
    rfl
  have untouched : ∀ file : BinFile, file = .tnumafactor ∨ file = .tlatency →
      (run (latencyRead m) (run (latencyRuns m) (run (latencyLocal m) world))).files.content
          (.bin file) =
        world.files.content (.bin file) := by
    rintro file (rfl | rfl) <;>
    · rw [run_content_of_avoids, run_content_of_avoids, run_content_of_avoids]
      · simp [latencyLocal, FileStep.touches]
      · exact avoids_flatMap _ fun cell => by simp [latencyRunBody, FileStep.touches]
      · simp [latencyRead, FileStep.touches]
  refine ⟨?_, ?_, untouched _ (Or.inl rfl), untouched _ (Or.inr rfl)⟩
  · rw [shell_latencyRead, readTabela_columns, shell, localShell]
  · intro i j hj
    rw [shell_latencyRead, table_readTabela _ _ i hj, lines, shell, localShell]
    rfl

/-- The two tables of the lmbench phase; lines left from earlier runs come first, and lines left in
`tlatencies.minas` are read before those of this run. -/
theorem content_lmbenchPhase :
    (run (lmbenchPhase tools m) world).files.content (.output .numafactorLmbench) =
        paste world.shell.columns (world.files.content (.bin .tnumafactor) ++
          (rowMajor m.nodes m.nodes).map (factorLine tools (latencyTable m world))) ∧
      (run (lmbenchPhase tools m) world).files.content (.output .latencyLmbench) =
        paste world.shell.columns (world.files.content (.bin .tlatency) ++
          (rowMajor m.nodes m.nodes).map (latencyLine tools (latencyTable m world))) := by
  obtain ⟨columns, table, factors, latencies⟩ := run_before_latencyFactors m world
  obtain ⟨columns', factors', latencies'⟩ := run_latencyFactors tools m
    (run (latencyRead m) (run (latencyRuns m) (run (latencyLocal m) world)))
  obtain ⟨factorTable, latencyTable'⟩ := content_latencyTables tools
    (run (latencyFactors tools m)
      (run (latencyRead m) (run (latencyRuns m) (run (latencyLocal m) world))))
  simp only [lmbenchPhase, run_append]
  constructor
  · rw [factorTable, columns', columns, factors', factors, map_factorLine_congr tools table]
  · rw [latencyTable', columns', columns, latencies', latencies, map_latencyLine_congr tools table]

/-- The lmbench phase leaves the tables of the Stream phase alone. -/
theorem content_output_lmbenchPhase (file : OutputFile)
    (h : file = .bandwidth ∨ file = .numafactorStream) :
    (run (lmbenchPhase tools m) world).files.content (.output file) =
      world.files.content (.output file) := by
  apply run_content_of_avoids
  rcases h with rfl | rfl <;>
    simp [lmbenchPhase, latencyLocal, latencyRuns, latencyRead, latencyFactors, latencyTables,
      latencyRunBody, latencyFactorBody, avoids_flatMap, FileStep.touches]

end Numafac
