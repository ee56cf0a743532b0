/-
Module: Numafac.Script.Isolation
Layer: Script
Purpose: When the cells of the lmbench tables depend on their own runs only. The reading loop attributes
  value lines to pairs by line number, so isolation is a statement about two runs of a script whose
  benchmarks contributed the same numbers of lines: a cell may change only with its own run, and a pair
  with one value line keeps it. `isolated_iff` shows that this holds exactly when every run but the last
  contributes one value line and the last contributes at least one. The direction from isolation to the
  numbers compares a script that measured 1 everywhere with one that measured 2 everywhere but in one
  run.
Trusted boundary: `bc` as documented
Main exports: PlainWord, PlainWords, SamePattern, Isolated, OneLineEach, isolated_iff, not_isolated_failedRun
-/
import Numafac.Script.WholeRuns

namespace Numafac

/-- A cell of `latency_lmbench.minas` after a whole run. -/
def latencyCell (steps : List ScriptStep) (files : Files File) (i j : Nat) : Option Text :=
  cellAt ((filesAfter steps files).content (.output .latencyLmbench)) i j

/-- A cell of `numafactor_lmbench.minas` after a whole run. -/
def factorCell (steps : List ScriptStep) (files : Files File) (i j : Nat) : Option Text :=
  cellAt ((filesAfter steps files).content (.output .numafactorLmbench)) i j

/-- A word without a backslash, which `read` would act on, and without the pattern characters, which the
shell would act on. -/
def PlainWord (word : Text) : Prop :=
  ∀ c ∈ word, c ∉ ['\\', '*', '?', '[']

instance : DecidablePred PlainWord :=
  List.decidableBAll (fun c => c ∉ ['\\', '*', '?', '['])

/-- The words that the scripts read from the benchmark output are plain. -/
def PlainWords (m : Measurement) : Prop :=
  ∀ word ∈ timeLines m ++ latencyLines m, PlainWord word

instance : DecidablePred PlainWords := fun m =>
  List.decidableBAll PlainWord (timeLines m ++ latencyLines m)

/-- Every run contributes as many value lines in `m` as in `m₀`; the rest of `m`, with all it measured and
the whole Stream phase, is any plain output. -/
def SamePattern (m m₀ : Measurement) : Prop :=
  m.nodes = m₀.nodes ∧ (∀ i j, i < m₀.nodes → j < m₀.nodes →
    (valueLines (m.latRun i j)).length = (valueLines (m₀.latRun i j)).length) ∧ PlainWords m

/-- Under the pattern of run outcomes of `m₀`, every cell depends on its own run only (a factor also on
the local run of its row), and a pair with one value line keeps that value. -/
structure Isolated (tools : Tools) (script : Measurement → List ScriptStep) (m₀ : Measurement) :
    Prop where
  latency_own : ∀ m m' files files', SamePattern m m₀ → SamePattern m' m₀ → CleanStart files →
    CleanStart files' → ∀ i j, i < m₀.nodes → j < m₀.nodes → m.latRun i j = m'.latRun i j →
      latencyCell (script m) files i j = latencyCell (script m') files' i j
  factor_own : ∀ m m' files files', SamePattern m m₀ → SamePattern m' m₀ → CleanStart files →
    CleanStart files' → ∀ i j, i < m₀.nodes → j < m₀.nodes → m.latRun i j = m'.latRun i j →
      m.latRun i i = m'.latRun i i →
        factorCell (script m) files i j = factorCell (script m') files' i j
  latency_kept : ∀ m files, SamePattern m m₀ → CleanStart files →
    ∀ i j, i < m₀.nodes → j < m₀.nodes → ∀ value, valueLines (m.latRun i j) = [value] →
      latencyCell (script m) files i j = some (firstWord (tools.bc (numeralProgram value)))
  factor_kept : ∀ m files, SamePattern m m₀ → CleanStart files →
    ∀ i j, i < m₀.nodes → j < m₀.nodes → ∀ value, valueLines (m.latRun i j) = [value] →
      ∀ base, valueLines (m.latRun i i) = [base] →
        factorCell (script m) files i j =
          some (firstWord (tools.bc (quotientProgram value base)))

/-- Every run contributes a value line, and only the last one may contribute more than one. -/
def OneLineEach (m : Measurement) : Prop :=
  ∀ i j, i < m.nodes → j < m.nodes → 1 ≤ (valueLines (m.latRun i j)).length ∧
    (i * m.nodes + j + 1 < m.nodes * m.nodes → (valueLines (m.latRun i j)).length = 1)

/-! ### The runs as writers of `latencies.minas` -/

/-- The value lines of the run at a row-major position. -/
def runLines (m : Measurement) (position : Nat) : List Text :=
  valueLines (m.latRun (position / m.nodes) (position % m.nodes))

theorem latencyLines_eq (m : Measurement) :
    latencyLines m = (List.range (m.nodes * m.nodes)).flatMap (runLines m) := by
  rw [latencyLines, rowMajor_eq, List.flatMap_map]
  rfl

theorem runLines_position (m : Measurement) (i : Nat) {j : Nat} (hj : j < m.nodes) :
    runLines m (i * m.nodes + j) = valueLines (m.latRun i j) := by
  rw [runLines, position_div hj, position_mod hj]

/-- A value line is a word. -/
theorem isWord_of_mem_valueLines {out : List Text} {value : Text} (member : value ∈ valueLines out) :
    IsWord isBlank value := by
  simp only [valueLines, sedDropBlank, awkSecond, List.mem_filter, List.mem_map,
    decide_eq_true_eq] at member
  obtain ⟨⟨line, -, rfl⟩, nonempty⟩ := member
  exact ⟨nonempty, secondWord_noBlank line⟩

theorem length_valueLines_le (out : List Text) : (valueLines out).length ≤ 2 := by
  calc
    (valueLines out).length ≤ (awkSecond (tail 2 out)).length := List.length_filter_le _ _
    _ = (tail 2 out).length := List.length_map _
    _ ≤ 2 := length_tail_le 2 out

section Cells

variable {tools : Tools} {script : Measurement → List ScriptStep} {m : Measurement}
  {files : Files File} {i j : Nat}

theorem latencyCell_eq (isScript : MeasuringScript tools script) (clean : CleanStart files)
    (hi : i < m.nodes) (hj : j < m.nodes) :
    latencyCell (script m) files i j = some (latencyLine tools (lmbenchTable m []) (i, j)) := by
  obtain ⟨-, -, -, content⟩ := content_script_clean isScript m clean
  rw [latencyCell, content]
  exact cellAt_paste_firstWord _ hi hj

theorem factorCell_eq (isScript : MeasuringScript tools script) (clean : CleanStart files)
    (hi : i < m.nodes) (hj : j < m.nodes) :
    factorCell (script m) files i j = some (factorLine tools (lmbenchTable m []) (i, j)) := by
  obtain ⟨-, -, content, -⟩ := content_script_clean isScript m clean
  rw [factorCell, content]
  exact cellAt_paste_firstWord _ hi hj

/-- When all runs before the last wrote one line each, every pair gets its own first line. -/
theorem lmbenchTable_own (each : OneLineEach m) (hi : i < m.nodes) (hj : j < m.nodes) :
    (valueLines (m.latRun i j)).head? = some (lmbenchTable m [] i j) := by
  have inside := position_lt hi hj
  have start : lineStart (runLines m) (i * m.nodes + j) = i * m.nodes + j := by
    apply lineStart_of_single
    intro earlier before
    have pos : 0 < m.nodes := Nat.zero_lt_of_lt hj
    have row : earlier / m.nodes < m.nodes := Nat.div_lt_of_lt_mul (Nat.lt_trans before inside)
    have split : earlier / m.nodes * m.nodes + earlier % m.nodes = earlier := by
      rw [Nat.mul_comm, Nat.div_add_mod]
    refine (each _ _ row (Nat.mod_lt _ pos)).2 ?_
    omega
  have some_line := (each i j hi hj).1
  rw [← runLines_position m i hj] at some_line ⊢
  have found := getElem?_lines (runLines m) inside some_line
  rw [start, Nat.add_zero, ← latencyLines_eq] at found
  cases first : runLines m (i * m.nodes + j) with
  | nil => simp [first] at some_line
  | cons value more =>
      have member : value ∈ valueLines (m.latRun i j) := by
        rw [← runLines_position m i hj, first]
        exact List.mem_cons_self
      have isWord := isWord_of_mem_valueLines member
      rw [lmbenchTable_clean, found, first]
      simp [firstWord_of_isWord isWord]

/-- One value line for each run is enough. -/
theorem isolated_of_oneLineEach {m₀ : Measurement} (isScript : MeasuringScript tools script)
    (each : OneLineEach m₀) : Isolated tools script m₀ := by
  have transfer : ∀ {m : Measurement}, SamePattern m m₀ → OneLineEach m := by
    rintro m ⟨nodes, counts, -⟩ i j hi hj
    rw [nodes] at hi hj ⊢
    rw [counts i j hi hj]
    exact each i j hi hj
  have entry : ∀ {m : Measurement}, SamePattern m m₀ → ∀ {i j}, i < m₀.nodes → j < m₀.nodes →
      (valueLines (m.latRun i j)).head? = some (lmbenchTable m [] i j) := by
    intro m pattern i j hi hj
    exact lmbenchTable_own (transfer pattern) (pattern.1 ▸ hi) (pattern.1 ▸ hj)
  have equalEntry : ∀ {m m' : Measurement}, SamePattern m m₀ → SamePattern m' m₀ →
      ∀ {i j}, i < m₀.nodes → j < m₀.nodes → m.latRun i j = m'.latRun i j →
        lmbenchTable m [] i j = lmbenchTable m' [] i j := by
    intro m m' pattern pattern' i j hi hj same
    have own := entry pattern hi hj
    rw [same, entry pattern' hi hj] at own
    exact (Option.some.inj own).symm
  have ownEntry : ∀ {m : Measurement}, SamePattern m m₀ → ∀ {i j}, i < m₀.nodes → j < m₀.nodes →
      ∀ {value}, valueLines (m.latRun i j) = [value] → lmbenchTable m [] i j = value := by
    intro m pattern i j hi hj value single
    have own := entry pattern hi hj
    rw [single] at own
    exact (Option.some.inj own).symm
  constructor
  · intro m m' files files' pattern pattern' clean clean' i j hi hj same
    rw [latencyCell_eq isScript clean (pattern.1 ▸ hi) (pattern.1 ▸ hj),
      latencyCell_eq isScript clean' (pattern'.1 ▸ hi) (pattern'.1 ▸ hj)]
    simp only [latencyLine, equalEntry pattern pattern' hi hj same]
  · intro m m' files files' pattern pattern' clean clean' i j hi hj same sameLocal
    rw [factorCell_eq isScript clean (pattern.1 ▸ hi) (pattern.1 ▸ hj),
      factorCell_eq isScript clean' (pattern'.1 ▸ hi) (pattern'.1 ▸ hj)]
    simp only [factorLine, equalEntry pattern pattern' hi hj same,
      equalEntry pattern pattern' hi hi sameLocal]
  · intro m files pattern clean i j hi hj value single
    rw [latencyCell_eq isScript clean (pattern.1 ▸ hi) (pattern.1 ▸ hj)]
    simp only [latencyLine, ownEntry pattern hi hj single]
  · intro m files pattern clean i j hi hj value single base singleBase
    rw [factorCell_eq isScript clean (pattern.1 ▸ hi) (pattern.1 ▸ hj)]
    simp only [factorLine, ownEntry pattern hi hj single, ownEntry pattern hi hi singleBase]

end Cells

/-! ### Two probes -/

/-- One of two latencies that `bc` tells apart. -/
def probeValue (one : Bool) : Decimal :=
  { mant := if one then 1 else 2, places := 0 }

def probeText (one : Bool) : Text :=
  [if one then '1' else '2']

theorem probeText_eq (one : Bool) : probeText one = (probeValue one).text := by
  cases one <;> decide

/-- A measurement with the pattern of `m₀`: the run for a pair measures `value`, and the Stream phase
leaves `left` everywhere. -/
def probe (m₀ : Measurement) (value : Nat → Nat → Bool) (left : Bool) : Measurement :=
  { m₀ with
    streamRun := fun _ _ => ["Triad:\t0\t     ".toList ++ probeText left]
    latRun := fun i j =>
      List.replicate (valueLines (m₀.latRun i j)).length ('r' :: ' ' :: probeText (value i j)) }

section Probes

variable {m₀ : Measurement} {value : Nat → Nat → Bool} {left : Bool}

/-- `tail -2` keeps up to two value lines. -/
theorem valueLines_replicate : ∀ count ≤ 2, ∀ one,
    valueLines (List.replicate count ('r' :: ' ' :: probeText one)) =
      List.replicate count (probeText one) := by
  decide

theorem valueLines_probe (i j : Nat) :
    valueLines ((probe m₀ value left).latRun i j) =
      List.replicate (valueLines (m₀.latRun i j)).length (probeText (value i j)) :=
  valueLines_replicate _ (length_valueLines_le (m₀.latRun i j)) _

/-- `fn.data` of a probe. -/
theorem timeLines_probe :
    timeLines (probe m₀ value left) = (rowMajor m₀.nodes m₀.nodes).map fun _ => probeText left := by
  have triadLine : egrepTriad ["Triad:\t0\t     ".toList ++ probeText left] =
      ["Triad:\t0\t     ".toList ++ probeText left] := by
    cases left <;> decide
  have column : cutColumns 6 11 (cutField 3 ("Triad:\t0\t     ".toList ++ probeText left)) =
      probeText left := by
    cases left <;> decide
  rw [timeLines, streamLines, egrepTriad, List.filter_flatMap]
  simp only [egrepTriad] at triadLine
  simp only [probe, triadLine, List.map_flatMap, List.map_cons, List.map_nil, column]
  rw [List.map_eq_flatMap]

theorem plainWords_probe : PlainWords (probe m₀ value left) := by
  have plain : ∀ one, PlainWord (probeText one) := by decide
  intro word member
  rcases List.mem_append.mp member with time | latency
  · rw [timeLines_probe] at time
    obtain ⟨_, -, rfl⟩ := List.mem_map.mp time
    exact plain left
  · obtain ⟨cell, -, inRun⟩ := List.mem_flatMap.mp latency
    rw [valueLines_probe] at inRun
    rw [List.eq_of_mem_replicate inRun]
    exact plain _

theorem samePattern_probe : SamePattern (probe m₀ value left) m₀ := by
  refine ⟨rfl, fun i j _ _ => ?_, plainWords_probe⟩
  rw [valueLines_probe, List.length_replicate]

/-- The times that the Stream phase leaves. -/
theorem streamTable_probe {i j : Nat} (hi : i < m₀.nodes) (hj : j < m₀.nodes) :
    streamTable (probe m₀ value left) i j = probeText left := by
  have word : firstWord (probeText left) = probeText left := by
    rw [probeText_eq]
    exact firstWord_of_isWord (isWord_text_blank _)
  have found : (timeLines (probe m₀ value left))[i * (probe m₀ value left).nodes + j]? =
      some (probeText left) := by
    rw [timeLines_probe, List.getElem?_map]
    simp only [probe, getElem?_rowMajor hi hj, Option.map_some]
  simp [streamTable, readTable, found, word]

/-- The matrix of a probe holds at each pair the value of the run that wrote the line read for it, or
what the Stream phase left. -/
theorem lmbenchTable_probe {i j : Nat} (hi : i < m₀.nodes) (hj : j < m₀.nodes) :
    (∃ i' j', lmbenchTable (probe m₀ value left) [] i j = probeText (value i' j') ∧
        lineStart (runLines m₀) (i' * m₀.nodes + j') ≤ i * m₀.nodes + j ∧
        i * m₀.nodes + j < lineStart (runLines m₀) (i' * m₀.nodes + j' + 1)) ∨
      lmbenchTable (probe m₀ value left) [] i j = probeText left := by
  have sameStart : ∀ writer, lineStart (runLines (probe m₀ value left)) writer =
      lineStart (runLines m₀) writer := by
    apply lineStart_congr
    intro writer
    rw [runLines, valueLines_probe, List.length_replicate]
    rfl
  have word : ∀ one, firstWord (probeText one) = probeText one := by
    intro one
    rw [probeText_eq]
    exact firstWord_of_isWord (isWord_text_blank _)
  rw [lmbenchTable_clean, streamTable_probe hi hj]
  cases found : (latencyLines (probe m₀ value left))[i * (probe m₀ value left).nodes + j]? with
  | none => exact Or.inr rfl
  | some line =>
      left
      have inside := (List.getElem?_eq_some_iff.mp found).1
      rw [latencyLines_eq] at inside found
      obtain ⟨writer, small, k, hk, here⟩ := exists_writer _ inside
      rw [here, getElem?_lines _ small hk, runLines, valueLines_probe] at found
      have split : writer / m₀.nodes * m₀.nodes + writer % m₀.nodes = writer := by
        rw [Nat.mul_comm, Nat.div_add_mod]
      have position : i * m₀.nodes + j = lineStart (runLines (probe m₀ value left)) writer + k := here
      refine ⟨writer / m₀.nodes, writer % m₀.nodes, ?_, ?_, ?_⟩
      · have shown := List.eq_of_mem_replicate (List.mem_of_getElem? found)
        simp [shown, word]
        rfl
      · rw [split, position, sameStart]
        exact Nat.le_add_right _ _
      · rw [split, position, ← sameStart, lineStart_succ]
        exact Nat.add_lt_add_left hk _

end Probes

/-- `bc` prints the two probe values differently. -/
theorem probe_distinct {tools : Tools} (documented : BcDocumented tools.bc) :
    firstWord (tools.bc (numeralProgram (probeText true))) ≠
      firstWord (tools.bc (numeralProgram (probeText false))) := by
  intro same
  have printsOne := documented.prints (probeValue true)
  have printsTwo := documented.prints (probeValue false)
  rw [← probeText_eq] at printsOne printsTwo
  rw [firstWord_of_reads printsOne, firstWord_of_reads printsTwo] at same
  rw [same] at printsOne
  have values := reads_unique printsOne printsTwo
  norm_num [probeValue, Decimal.value] at values

/-- Isolation needs one value line for each run. For a pair, one script measures 1 everywhere and the
other 2 everywhere but in the pair's own run: the cell can only agree when the line read for the pair
comes from its own run. -/
theorem oneLineEach_of_isolated {tools : Tools} {script : Measurement → List ScriptStep}
    {m₀ : Measurement} (documented : BcDocumented tools.bc) (isScript : MeasuringScript tools script)
    (isolated : Isolated tools script m₀) : OneLineEach m₀ := by
  have own : ∀ i j, i < m₀.nodes → j < m₀.nodes →
      lineStart (runLines m₀) (i * m₀.nodes + j) ≤ i * m₀.nodes + j ∧
        i * m₀.nodes + j < lineStart (runLines m₀) (i * m₀.nodes + j + 1) := by
    intro i j hi hj
    let ones := probe m₀ (fun _ _ => true) true
    let twos := probe m₀ (fun i' j' => decide (i' = i ∧ j' = j)) false
    have clean : CleanStart fun _ => none := fun _ _ => rfl
    have same : ones.latRun i j = twos.latRun i j := by simp [ones, twos, probe]
    have cells := isolated.latency_own ones twos _ _ samePattern_probe samePattern_probe clean clean
      i j hi hj same
    rw [latencyCell_eq (m := ones) isScript clean hi hj,
      latencyCell_eq (m := twos) isScript clean hi hj] at cells
    have oneEntry : lmbenchTable ones [] i j = probeText true := by
      rcases @lmbenchTable_probe m₀ (fun _ _ => true) true i j hi hj with ⟨_, _, entry, _⟩ | entry
      · exact entry
      · exact entry
    have notTwo : lmbenchTable twos [] i j ≠ probeText false := by
      intro twoEntry
      simp only [latencyLine, oneEntry, twoEntry] at cells
      exact probe_distinct documented (Option.some.inj cells)
    rcases @lmbenchTable_probe m₀ (fun i' j' => decide (i' = i ∧ j' = j)) false i j hi hj with
      ⟨i', j', entry, low, high⟩ | entry
    · by_cases mine : i' = i ∧ j' = j
      · obtain ⟨rfl, rfl⟩ := mine
        exact ⟨low, high⟩
      · simp only [mine, decide_false] at entry
        exact absurd entry notTwo
    · exact absurd entry notTwo
  have lengths : ∀ p < m₀.nodes * m₀.nodes, 1 ≤ (runLines m₀ p).length ∧
      (p + 1 < m₀.nodes * m₀.nodes → (runLines m₀ p).length = 1) := by
    apply length_of_own_line
    intro p hp
    have pos : 0 < m₀.nodes := Nat.pos_of_ne_zero fun zero => by simp [zero] at hp
    have here := own (p / m₀.nodes) (p % m₀.nodes) (Nat.div_lt_of_lt_mul hp) (Nat.mod_lt _ pos)
    rwa [Nat.mul_comm, Nat.div_add_mod] at here
  intro i j hi hj
  have here := lengths (i * m₀.nodes + j) (position_lt hi hj)
  rwa [runLines_position m₀ i hj] at here

/-- The lmbench tables isolate the runs exactly when every run contributes one value line, the last one at
least one. -/
theorem isolated_iff {tools : Tools} {script : Measurement → List ScriptStep} {m₀ : Measurement}
    (documented : BcDocumented tools.bc) (isScript : MeasuringScript tools script) :
    Isolated tools script m₀ ↔ OneLineEach m₀ :=
  ⟨oneLineEach_of_isolated documented isScript, isolated_of_oneLineEach isScript⟩

/-- Two nodes; the first run prints its stride and never measures. -/
def failedRunMeasurement : Measurement where
  nodes := 2
  streamAll := []
  streamFirst := []
  streamRun := fun _ _ => []
  latLocal := []
  latRun := fun i j =>
    if i = 0 ∧ j = 0 then ["\"stride=64".toList, []]
    else ["\"stride=64".toList, "6.00000 1.500".toList, []]

theorem not_isolated_failedRun :
    ¬ Isolated referenceTools (calcNumafactor referenceTools) failedRunMeasurement := by
  intro isolated
  have each := oneLineEach_of_isolated referenceTools_documented (Or.inl rfl) isolated
  have first := (each 0 0 (by decide) (by decide)).1
  revert first
  decide

/-- Two nodes; every run prints its stride and one latency. -/
def oneLineMeasurement : Measurement :=
  { failedRunMeasurement with latRun := fun _ _ => ["\"stride=64".toList, "6.00000 1.500".toList] }

theorem isolated_iff_oneLine :
    Isolated referenceTools (calcNumafactor referenceTools) oneLineMeasurement := by
  refine (isolated_iff referenceTools_documented (Or.inl rfl)).mpr ?_
  intro i j _ _
  exact ⟨show 1 ≤ 1 by decide, fun _ => show 1 = 1 from rfl⟩

end Numafac
