/-
Module: Numafac.Script.Phases
Layer: Script
Purpose: `calc_numafactor.sh` and the NUMA branch of `topology.sh` as lists of file-system steps. The
  two scripts run the same two measuring phases, with other path prefixes: Stream fills
  `bandwidth.minas` and `numafactor_stream.minas`, lmbench fills `latency_lmbench.minas` and
  `numafactor_lmbench.minas`. What the benchmarks print is a `Measurement`, the input of a run.
  Compiling the benchmarks touches none of these files and is left out, as is `numatopology.minas`,
  which nothing reads.
Trusted boundary: the translation of the two scripts, for benchmark output whose value words `read` and the
  shell take as they are (`PlainWords`)
Main exports: File, Measurement, streamPhase, lmbenchPhase, calcNumafactor, topologyNuma
-/
import Numafac.Base.Table
import Numafac.Script.Bc

namespace Numafac

/-- The files under `output/`. -/
inductive OutputFile where
  | streamlocal
  | stream
  | numacost
  | bandwidth
  | numafactorStream
  | numafactorLmbench
  | latencyLmbench
deriving DecidableEq, Repr

/-- The intermediate files under `stream/`. -/
inductive StreamFile where
  | streamData
  | tband
  | tfn
  | fn
  | band
  | tnumafactor
deriving DecidableEq, Repr

/-- The intermediate files under `lmbench3/bin/$folder/`. -/
inductive BinFile where
  | tmpOut
  | tlatencies
  | latencies
  | tnumafactor
  | tlatency
deriving DecidableEq, Repr

/-- The files that the scripts write, by directory; `tmp` is `/tmp/output/`. -/
inductive File where
  | output (file : OutputFile)
  | stream (file : StreamFile)
  | bin (file : BinFile)
  | tmp (file : OutputFile)
deriving DecidableEq, Repr

abbrev ScriptStep := FileStep File ShellVars

/-- What the machine answers during one run: the number of node directories and the output of every
benchmark run. `streamRun j i` and `latRun j i` run on the first CPU of node `j` with memory on node `i`;
`latRun` holds both output streams, `streamRun` standard output only. -/
structure Measurement where
  nodes : Nat
  streamAll : List Text
  streamFirst : List Text
  streamRun : Nat → Nat → List Text
  latLocal : List Text
  latRun : Nat → Nat → List Text

/-- `echo -e "\n{title}"`. -/
def titleLines (title : String) : List Text :=
  [[], title.toList]

/-- `cat output/streamlocal.minas | egrep '(Triad)' | head -{count} | awk '{print $2}'`. -/
def localBandwidth (count : Nat) (world : World File ShellVars) : List Text :=
  awkSecond (head count (egrepTriad (world.files.content (.output .streamlocal))))

/-- `while read n; do let i=counter/N; let j=counter%N; let counter++; declare tabela_${i}_${j}=$n; done`. -/
def readTabela (nodes : Nat) : Nat → List Text → ShellVars → ShellVars
  | _, [], shell => shell
  | counter, n :: lines, shell =>
      readTabela nodes (counter + 1) lines
        (shell.declare (tabelaVar (counter / nodes) (counter % nodes)) n)

/-- `` `echo scale=4\;${!num} / ${!div} | bc` `` with `num=tabela_${i}_${j}` and `div=tabela_${i}_${i}`. -/
def bcFactor (tools : Tools) (shell : ShellVars) (i j : Nat) : Text :=
  tools.bc (quotientProgram (shell.vars (tabelaVar i j)) (shell.vars (tabelaVar i i)))

/-- `` `echo scale=4\;${!num} | bc` `` with `num=tabela_${i}_${j}`. -/
def bcLatency (tools : Tools) (shell : ShellVars) (i j : Nat) : Text :=
  tools.bc (numeralProgram (shell.vars (tabelaVar i j)))

/-! ### The Stream phase -/

/-- The two runs on the whole machine: all threads, then one thread. -/
def streamLocal (m : Measurement) : List ScriptStep :=
  [ .append (.output .streamlocal) fun _ => m.streamAll,
    .append (.output .streamlocal) fun _ => m.streamFirst ]

/-- "running Stream for every node on the machine". -/
def streamRuns (m : Measurement) : List ScriptStep :=
  (rowMajor m.nodes m.nodes).flatMap fun cell =>
    [.append (.output .stream) fun _ => m.streamRun cell.1 cell.2]

/-- "get bandwidth and access time local and remote". -/
def streamExtraction : List ScriptStep :=
  [ .append (.output .numacost) fun _ => titleLines "#Local Parallel bandwidth",
    .append (.output .numacost) (localBandwidth 1),
    .append (.output .numacost) fun _ => titleLines "#Local Sequential bandwidth",
    .append (.output .numacost) (localBandwidth 2),
    .create (.stream .streamData) fun world =>
      egrepTriad (world.files.content (.output .stream)),
    .remove (.output .stream),
    .create (.stream .tband) fun world =>
      (world.files.content (.stream .streamData)).map (cutField 2),
    .create (.stream .tfn) fun world =>
      (world.files.content (.stream .streamData)).map (cutField 3),
    .remove (.stream .streamData),
    .create (.stream .fn) fun world =>
      (world.files.content (.stream .tfn)).map (cutColumns 6 11),
    .create (.stream .band) fun world =>
      (world.files.content (.stream .tband)).map (cutColumns 3 11),
    .remove (.stream .tfn),
    .remove (.stream .tband) ]

/-- "computing average bandwidth and nodes bandwidth", and the loop that reads the access times. -/
def streamTables (tools : Tools) (m : Measurement) : List ScriptStep :=
  [ .append (.output .numacost) fun _ => titleLines "#Remote bandwidth",
    .append (.output .numacost) fun world =>
      [tools.mean (world.files.content (.stream .band))],
    .assign fun world => { world.shell with columns := m.nodes },
    .create (.output .bandwidth) fun world =>
      paste world.shell.columns (world.files.content (.stream .band)),
    .remove (.stream .band),
    .assign fun world => readTabela m.nodes 0 (world.files.content (.stream .fn)) world.shell,
    .remove (.stream .fn) ]

/-- The body of the loop "Computing NUMA factor" for one pair. -/
def streamFactorBody (tools : Tools) (cell : Nat × Nat) : List ScriptStep :=
  [ .assign fun world =>
      world.shell.declare (fatorVar cell.1 cell.2) (bcFactor tools world.shell cell.1 cell.2),
    .append (.stream .tnumafactor) fun world => [world.shell.vars (fatorVar cell.1 cell.2)] ]

/-- The NUMA factor of the access times. -/
def streamFactors (tools : Tools) (m : Measurement) : List ScriptStep :=
  (rowMajor m.nodes m.nodes).flatMap (streamFactorBody tools)

/-- The average factor, the factor table, and the removal of the intermediate. -/
def streamFactorTable (tools : Tools) : List ScriptStep :=
  [ .append (.output .numacost) fun _ => titleLines "#NUMA factor",
    .append (.output .numacost) fun world =>
      [tools.mean (world.files.content (.stream .tnumafactor))],
    .create (.output .numafactorStream) fun world =>
      paste world.shell.columns (world.files.content (.stream .tnumafactor)),
    .remove (.stream .tnumafactor) ]

/-- The whole Stream phase, run inside `stream/`. -/
def streamPhase (tools : Tools) (m : Measurement) : List ScriptStep :=
  streamLocal m ++ streamRuns m ++ streamExtraction ++ streamTables tools m ++
    streamFactors tools m ++ streamFactorTable tools

/-! ### The lmbench phase -/

/-- The local run, whose value only goes to the cost report. -/
def latencyLocal (m : Measurement) : List ScriptStep :=
  [ .create (.bin .tmpOut) fun _ => m.latLocal,
    .append (.output .numacost) fun _ => titleLines "#Local Latency ",
    .append (.output .numacost) fun world =>
      awkSecond (tail 2 (world.files.content (.bin .tmpOut))),
    .remove (.bin .tmpOut) ]

/-- One run of `lat_mem_rd`: `&> tmp.out`, then `tail -2 | awk '{print $2}' >> tlatencies.minas`. -/
def latencyRunBody (m : Measurement) (cell : Nat × Nat) : List ScriptStep :=
  [ .create (.bin .tmpOut) fun _ => m.latRun cell.1 cell.2,
    .append (.bin .tlatencies) fun world =>
      awkSecond (tail 2 (world.files.content (.bin .tmpOut))) ]

/-- "running lat_mem for every node on the machine". -/
def latencyRuns (m : Measurement) : List ScriptStep :=
  (rowMajor m.nodes m.nodes).flatMap (latencyRunBody m)

/-- `sed '/^$/d'` and the loop that reads the latencies. -/
def latencyRead (m : Measurement) : List ScriptStep :=
  [ .create (.bin .latencies) fun world =>
      sedDropBlank (world.files.content (.bin .tlatencies)),
    .remove (.bin .tlatencies),
    .remove (.bin .tmpOut),
    .assign fun world => readTabela m.nodes 0 (world.files.content (.bin .latencies)) world.shell,
    .remove (.bin .latencies) ]

/-- The body of the second loop "Computing NUMA factor" for one pair. -/
def latencyFactorBody (tools : Tools) (cell : Nat × Nat) : List ScriptStep :=
  [ .assign fun world =>
      world.shell.declare (fatorVar cell.1 cell.2) (bcFactor tools world.shell cell.1 cell.2),
    .assign fun world =>
      world.shell.declare (latencyVar cell.1 cell.2) (bcLatency tools world.shell cell.1 cell.2),
    .append (.bin .tnumafactor) fun world => [world.shell.vars (fatorVar cell.1 cell.2)],
    .append (.bin .tlatency) fun world => [world.shell.vars (latencyVar cell.1 cell.2)] ]

/-- The NUMA factors and the latencies. -/
def latencyFactors (tools : Tools) (m : Measurement) : List ScriptStep :=
  (rowMajor m.nodes m.nodes).flatMap (latencyFactorBody tools)

/-- The average factor, the two tables, and the removal of their intermediates. -/
def latencyTables (tools : Tools) : List ScriptStep :=
  [ .append (.output .numacost) fun _ => titleLines "#NUMA factor lmbench",
    .append (.output .numacost) fun world =>
      [tools.mean (world.files.content (.bin .tnumafactor))],
    .create (.output .numafactorLmbench) fun world =>
      paste world.shell.columns (world.files.content (.bin .tnumafactor)),
    .remove (.bin .tnumafactor),
    .create (.output .latencyLmbench) fun world =>
      paste world.shell.columns (world.files.content (.bin .tlatency)),
    .remove (.bin .tlatency) ]

/-- The whole lmbench phase, run inside `lmbench3/bin/$folder/`. -/
def lmbenchPhase (tools : Tools) (m : Measurement) : List ScriptStep :=
  latencyLocal m ++ latencyRuns m ++ latencyRead m ++ latencyFactors tools m ++ latencyTables tools

/-! ### The scripts -/

/-- `rm -rf output`. -/
def inOutput : File → Bool
  | .output _ => true
  | _ => false

/-- `rm -rf output` and, in `topology.sh` when `output` exists, `rm -rf /tmp/output`. -/
def inOutputOrTmp (outputExists : Bool) : File → Bool
  | .output _ => true
  | .tmp _ => outputExists
  | _ => false

/-- `cp output/* /tmp/output`. -/
def outputSource : File → Option File
  | .tmp file => some (.output file)
  | _ => none

/-- `calc_numafactor.sh`. -/
def calcNumafactor (tools : Tools) (m : Measurement) : List ScriptStep :=
  .removeAll inOutput :: (streamPhase tools m ++ lmbenchPhase tools m)

/-- The NUMA branch of `topology.sh` up to the copy to `/tmp/output`. -/
def topologyNuma (tools : Tools) (outputExists : Bool) (m : Measurement) : List ScriptStep :=
  .removeAll (inOutputOrTmp outputExists) ::
    (streamPhase tools m ++ lmbenchPhase tools m ++ [.copyAll outputSource])

/-- The intermediates that the scripts only append to and remove at the end of their phase. -/
def appendedFiles : List File :=
  [.stream .tnumafactor, .bin .tlatencies, .bin .tnumafactor, .bin .tlatency]

end Numafac
