/-
Module: Numafac.Script.RoundTrip
Layer: Script
Purpose: The measured latency matrix survives the script and the readers. Each run contributes one value
  line, the reading loop puts it into the `tabela` variable of its pair, the factor loop writes the two
  tables in row-major order, and the readers count back to the same cell. The results are about any
  script that ends in the lmbench phase and the copy to `/tmp/output`, as both scripts of the repository
  do, started in a tree without lines left in the appended intermediates.
Trusted boundary: `bc` as documented
Main exports: EndsWithLatency, numaFactor, table_round_trip
-/
import Numafac.ArchTopology.TableReaders
import Numafac.Script.WholeRuns

namespace Numafac

/-- The run ends its output with one line `range latency` and one empty line. -/
def EndsWithLatency (out : List Text) (latency : Decimal) : Prop :=
  ∃ earlier range, IsWord isBlank range ∧ out = earlier ++ [range ++ ' ' :: latency.text, []]

/-- The NUMA factor of a latency matrix, truncated to four places. -/
def numaFactor (latency : Nat → Nat → Decimal) (i j : Nat) : ℚ :=
  truncateAt 4 ((latency i j).value / (latency i i).value)

/-- The second word of a `range latency` line. -/
theorem secondWord_pair {range word : Text} (hrange : IsWord isBlank range)
    (hword : IsWord isBlank word) : secondWord (range ++ ' ' :: word) = word := by
  rw [secondWord, words_append_sep _ _ rfl, words_of_isWord hrange, words_of_isWord hword]
  rfl

/-- A run that ends with a latency contributes exactly that value line. -/
theorem valueLines_of_endsWithLatency {out : List Text} {latency : Decimal}
    (h : EndsWithLatency out latency) : valueLines out = [latency.text] := by
  obtain ⟨earlier, range, hrange, rfl⟩ := h
  have second : secondWord (range ++ ' ' :: latency.text) = latency.text :=
    secondWord_pair hrange (isWord_text_blank latency)
  have blank : secondWord [] = [] := by simp [secondWord]
  rw [valueLines, tail_two_append]
  simp [awkSecond, sedDropBlank, second, blank, Decimal.text_ne_nil]

section Matrix

variable {tools : Tools} {m : Measurement} {latency : Nat → Nat → Decimal}

/-- The value lines of a complete measurement are the matrix in row-major order. -/
theorem latencyLines_of_complete
    (complete : ∀ i j, i < m.nodes → j < m.nodes → EndsWithLatency (m.latRun i j) (latency i j)) :
    latencyLines m = (rowMajor m.nodes m.nodes).map fun cell => (latency cell.1 cell.2).text := by
  rw [latencyLines, List.map_eq_flatMap]
  apply List.flatMap_congr
  intro cell member
  obtain ⟨hi, hj⟩ := mem_rowMajor.mp member
  exact valueLines_of_endsWithLatency (complete cell.1 cell.2 hi hj)

/-- The reading loop recovers the matrix. -/
theorem lmbenchTable_of_complete
    (complete : ∀ i j, i < m.nodes → j < m.nodes → EndsWithLatency (m.latRun i j) (latency i j))
    {i j : Nat} (hi : i < m.nodes) (hj : j < m.nodes) :
    lmbenchTable m [] i j = (latency i j).text := by
  rw [lmbenchTable_clean, latencyLines_of_complete complete, List.getElem?_map,
    getElem?_rowMajor hi hj]
  simp [firstWord_of_isWord (isWord_text_blank _)]

/-- The line of the latency table for a pair reads as its latency. -/
theorem reads_latencyLine (documented : BcDocumented tools.bc) {table : Nat → Nat → Text} {i j : Nat}
    (entry : table i j = (latency i j).text) :
    Reads (latencyLine tools table (i, j)) (latency i j).value := by
  have printed := documented.prints (latency i j)
  simp only [latencyLine, entry]
  rwa [firstWord_of_reads printed]

/-- The line of the factor table for a pair reads as its truncated quotient. -/
theorem reads_factorLine (documented : BcDocumented tools.bc) {table : Nat → Nat → Text} {i j : Nat}
    (entry : table i j = (latency i j).text) (diagonal : table i i = (latency i i).text)
    (pos : 0 < (latency i i).mant) :
    Reads (factorLine tools table (i, j)) (numaFactor latency i j) := by
  have divided := documented.divides (latency i j) (latency i i) pos
  simp only [factorLine, entry, diagonal]
  rwa [firstWord_of_reads divided]

end Matrix

/-- The diagonal factor is one. -/
theorem numaFactor_self {latency : Nat → Nat → Decimal} {i : Nat} (pos : 0 < (latency i i).mant) :
    numaFactor latency i i = 1 := by
  rw [numaFactor, div_self (Decimal.value_pos pos).ne', truncateAt_one]

/-- Within a row the factor grows with the latency. -/
theorem numaFactor_mono {latency : Nat → Nat → Decimal} {i j k : Nat}
    (h : (latency i j).value ≤ (latency i k).value) :
    numaFactor latency i j ≤ numaFactor latency i k := by
  apply truncateAt_mono
  have nonneg := (latency i i).value_nonneg
  gcongr

/-! ### Published tables -/

/-- A whole run of one of the scripts that ends with its tables under `/tmp/output`. -/
def PublishedRun (tools : Tools) (m : Measurement) (steps : List ScriptStep) : Prop :=
  (∃ outputExists, steps = topologyNuma tools outputExists m) ∨
    steps = calcNumafactor tools m ++ [.copyAll outputSource]

/-- A file with lines exists. -/
theorem files_eq_some_of_content {files : Files File} {file : File} {lines : List Text}
    (content : files.content file = lines) (nonempty : lines ≠ []) : files file = some lines := by
  cases found : files file with
  | none => simp [Files.content, found, nonempty.symm] at content
  | some other => simpa [Files.content, found] using content

/-- The final copy publishes every table that has lines. -/
theorem files_tmp_copy {front : List ScriptStep} {files : Files File} {file : OutputFile}
    {lines : List Text}
    (content : (filesAfter (front ++ [.copyAll outputSource]) files).content (.output file) = lines)
    (nonempty : lines ≠ []) :
    filesAfter (front ++ [.copyAll outputSource]) files (.tmp file) = some lines := by
  have copied : avoids (File.output file) ([.copyAll outputSource] : List ScriptStep) = true := rfl
  rw [filesAfter, run_append] at content ⊢
  rw [run_content_of_avoids _ copied] at content
  have found := files_eq_some_of_content content nonempty
  simp [FileStep.exec, outputSource, found]

/-- A square table has a row. -/
theorem paste_ne_nil {nodes : Nat} (pos : 0 < nodes) (line : Nat × Nat → Text) :
    paste nodes ((rowMajor nodes nodes).map line) ≠ [] := by
  have rows : (paste nodes ((rowMajor nodes nodes).map line)).length = nodes :=
    length_paste_full pos (by simp)
  intro none
  rw [none, List.length_nil] at rows
  omega

/-- The copy comes last, so the tables under `output` are those of the script. -/
theorem PublishedRun.shape {tools : Tools} {m : Measurement} {steps : List ScriptStep}
    (published : PublishedRun tools m steps) :
    (∃ front, steps = front ++ [.copyAll outputSource]) ∧
      ∃ script, MeasuringScript tools script ∧ ∀ files file,
        (filesAfter steps files).content (.output file) =
          (filesAfter (script m) files).content (.output file) := by
  rcases published with ⟨outputExists, rfl⟩ | rfl
  · refine ⟨⟨.removeAll (inOutputOrTmp outputExists) :: (streamPhase tools m ++ lmbenchPhase tools m),
      ?_⟩, topologyNuma tools outputExists, Or.inr ⟨outputExists, rfl⟩, fun _ _ => rfl⟩
    rw [topologyNuma, List.cons_append]
  · refine ⟨⟨_, rfl⟩, calcNumafactor tools, Or.inl rfl, fun files file => ?_⟩
    have copied : avoids (File.output file) ([.copyAll outputSource] : List ScriptStep) = true := rfl
    rw [filesAfter, run_append, run_content_of_avoids _ copied, filesAfter]

/-- What a whole run publishes in a clean tree. -/
theorem files_published {tools : Tools} {m : Measurement} {steps : List ScriptStep}
    {files : Files File} (published : PublishedRun tools m steps) (clean : CleanStart files)
    (pos : 0 < m.nodes) :
    filesAfter steps files (.tmp .numafactorLmbench) =
        some (paste m.nodes
          ((rowMajor m.nodes m.nodes).map (factorLine tools (lmbenchTable m [])))) ∧
      filesAfter steps files (.tmp .latencyLmbench) =
        some (paste m.nodes
          ((rowMajor m.nodes m.nodes).map (latencyLine tools (lmbenchTable m [])))) := by
  obtain ⟨⟨front, rfl⟩, script, isScript, same⟩ := published.shape
  obtain ⟨-, -, factors, latencies⟩ := content_script_clean isScript m clean
  exact ⟨files_tmp_copy ((same _ _).trans factors) (paste_ne_nil pos _),
    files_tmp_copy ((same _ _).trans latencies) (paste_ne_nil pos _)⟩

/-- The measured matrix goes through the script and the readers unchanged, as long as the positions of its
cells are in the range of `int`. `toFloat` is the rounding of the reader's number format; the identity shows
that the numerals read are exact. -/
theorem table_round_trip {F : Type} (toFloat : Numeral → F) {tools : Tools} {m : Measurement}
    {steps : List ScriptStep} {files : Files File} {latency : Nat → Nat → Decimal}
    (documented : BcDocumented tools.bc) (many : 2 ≤ m.nodes) (fits : PositionsFit m.nodes)
    (positive : ∀ i j, i < m.nodes → j < m.nodes → 0 < (latency i j).mant)
    (complete : ∀ i j, i < m.nodes → j < m.nodes → EndsWithLatency (m.latRun i j) (latency i j))
    (published : PublishedRun tools m steps) (clean : CleanStart files) :
    let after := filesAfter steps files
    ∀ a b : Nat, 1 ≤ a → a ≤ m.nodes → 1 ≤ b → b ≤ m.nodes →
      naLatency toFloat m.nodes a b after =
        .ok (some (toFloat (.rational (latency (a - 1) (b - 1)).value))) ∧
      naNumafactor toFloat m.nodes a b after =
        .ok (some (toFloat (.rational (truncateAt 4
          ((latency (a - 1) (b - 1)).value / (latency (a - 1) (a - 1)).value))))) ∧
      naNumafactor toFloat m.nodes a a after = .ok (some (toFloat (.rational 1))) ∧
      ∀ c : Nat, 1 ≤ c → c ≤ m.nodes →
        (latency (a - 1) (b - 1)).value ≤ (latency (a - 1) (c - 1)).value →
          ∃ p q : ℚ, naNumafactor toFloat m.nodes a b after = .ok (some (toFloat (.rational p))) ∧
            naNumafactor toFloat m.nodes a c after = .ok (some (toFloat (.rational q))) ∧ p ≤ q := by
  intro after
  have pos : 0 < m.nodes := by omega
  obtain ⟨factors, latencies⟩ := files_published published clean pos
  have entry : ∀ i j, i < m.nodes → j < m.nodes → lmbenchTable m [] i j = (latency i j).text :=
    fun i j hi hj => lmbenchTable_of_complete complete hi hj
  have latencyAt : ∀ i j, i < m.nodes → j < m.nodes →
      naLatency toFloat m.nodes (i + 1 : Nat) (j + 1 : Nat) after =
        .ok (some (toFloat (.rational (latency i j).value))) := by
    intro i j hi hj
    have reads : ∀ i j, i < m.nodes → j < m.nodes →
        Reads (latencyLine tools (lmbenchTable m []) (i, j)) (latency i j).value :=
      fun i j hi hj => reads_latencyLine documented (entry i j hi hj)
    rw [naLatency, show after (.tmp .latencyLmbench) = _ from latencies]
    exact readFile_paste_words toFloat (.rational 1) reads fits hi hj
  have factorAt : ∀ i j, i < m.nodes → j < m.nodes →
      naNumafactor toFloat m.nodes (i + 1 : Nat) (j + 1 : Nat) after =
        .ok (some (toFloat (.rational (numaFactor latency i j)))) := by
    intro i j hi hj
    have reads : ∀ i j, i < m.nodes → j < m.nodes →
        Reads (factorLine tools (lmbenchTable m []) (i, j)) (numaFactor latency i j) :=
      fun i j hi hj =>
        reads_factorLine documented (entry i j hi hj) (entry i i hi hi) (positive i i hi hi)
    rw [naNumafactor, show after (.tmp .numafactorLmbench) = _ from factors]
    exact readFile_paste_words toFloat (.rational 1) reads fits hi hj
  intro a b ha haN hb hbN
  obtain ⟨i, rfl⟩ : ∃ i, a = i + 1 := ⟨a - 1, by omega⟩
  obtain ⟨j, rfl⟩ : ∃ j, b = j + 1 := ⟨b - 1, by omega⟩
  refine ⟨latencyAt i j haN hbN, factorAt i j haN hbN, ?_, ?_⟩
  · rw [factorAt i i haN haN, numaFactor_self (positive i i haN haN)]
  · intro c hc hcN grows
    obtain ⟨k, rfl⟩ : ∃ k, c = k + 1 := ⟨c - 1, by omega⟩
    exact ⟨_, _, factorAt i j haN hbN, factorAt i k haN hcN, numaFactor_mono grows⟩

/-- Two nodes, local latency 100.50 and remote latency 150.75. -/
def twoNodeLatency (i j : Nat) : Decimal :=
  if i = j then { mant := 10050, places := 2 } else { mant := 15075, places := 2 }

/-- Benchmark runs on two nodes that end with these latencies. -/
def twoNodeMeasurement : Measurement where
  nodes := 2
  streamAll := []
  streamFirst := []
  streamRun := fun _ _ => []
  latLocal := []
  latRun := fun i j =>
    ["\"stride=64".toList, "0.00049 1.500".toList, "6.00000 ".toList ++ (twoNodeLatency i j).text, []]

/-- A fresh checkout, both nodes asked about the other. -/
theorem table_round_trip_twoNodes :
    let after := filesAfter (topologyNuma referenceTools true twoNodeMeasurement) fun _ => none
    naLatency id 2 1 2 after = .ok (some (.rational (603 / 4))) ∧
      naNumafactor id 2 1 2 after = .ok (some (.rational (3 / 2))) ∧
      naNumafactor id 2 1 1 after = .ok (some (.rational 1)) := by
  have complete : ∀ i j, i < 2 → j < 2 →
      EndsWithLatency (twoNodeMeasurement.latRun i j) (twoNodeLatency i j) :=
    fun i j _ _ => ⟨["\"stride=64".toList, "0.00049 1.500".toList], "6.00000".toList,
      by decide, rfl⟩
  have clean : CleanStart fun _ => none := fun _ _ => rfl
  have positive : ∀ i j, i < 2 → j < 2 → 0 < (twoNodeLatency i j).mant := by
    intro i j _ _
    unfold twoNodeLatency
    split <;> decide
  have fits : PositionsFit twoNodeMeasurement.nodes := show 2 * 2 < 2 ^ 31 by decide
  obtain ⟨latency, factor, diagonal, -⟩ :=
    table_round_trip id referenceTools_documented (m := twoNodeMeasurement) (by decide) fits positive complete
      (Or.inl ⟨true, rfl⟩) clean 1 2 (by decide) (by decide) (by decide) (by decide)
  have value : (twoNodeLatency 0 1).value = 603 / 4 := by
    norm_num [twoNodeLatency, Decimal.value]
  have localValue : (twoNodeLatency 0 0).value = 201 / 2 := by
    norm_num [twoNodeLatency, Decimal.value]
  have quotient : truncateAt 4 ((603 / 4) / (201 / 2) : ℚ) = 3 / 2 := by
    norm_num [truncateAt]
  refine ⟨?_, ?_, diagonal⟩
  · rw [← value]
    exact latency
  · simp only [Nat.reduceSub, value, localValue, quotient] at factor
    exact factor

end Numafac
