/-
Module: Numafac.ArchTopology.LatencyMatrix
Layer: ArchTopology
Purpose: `na_fill_latency_matrix`, which streams a file of latencies into a square matrix, for the nodes or
  for the cores. `fillMatrix_spec` says that it stores the numerals of the file row by row.
  `latencyReadersAgree_iff` compares the matrix of the nodes with `na_latency` on what `topology.sh`
  leaves behind: the matrix stays empty where `MAXNODES` is 0, and the call ends the program where the
  file of the cores is missing, which it does not read.
Trusted boundary: the translation of the two functions; a `double **` with room for the matrix
Main exports: fscanfEntry, fillMatrix, fillMatrix_spec, ArchMode, LatencyFiles, naFillLatencyMatrix,
  TopologyLeaves, LatencyReadersAgree, latencyReadersAgree_iff
-/
import Numafac.ArchTopology.CellReads
import Numafac.ArchTopology.Sysfs

namespace Numafac

/-! ### Filling a matrix -/

section Fill

variable {F : Type} (toDouble : Numeral → F)

/-- `matrix[i][j]`. -/
def readEntry (matrix : CArray (CArray F)) (i j : Nat) : CResult F := do
  let row ← matrix.read i
  row.read j

/-- `fscanf (fp, "%lf", &matrix[i][j])`: the entry keeps its value when the conversion fails. -/
def fscanfEntry (state : CArray (CArray F) × Text) (i j : Nat) : CResult (CArray (CArray F) × Text) := do
  let (matrix, stream) := state
  let row ← matrix.read i
  match scanFloat stream with
  | (some read, rest) => do
      let row ← row.write j (toDouble read)
      let matrix ← matrix.write i row
      pure (matrix, rest)
  | (none, rest) => pure (matrix, rest)

/-- `for (i = 0; i < count; i++) for (j = 0; j < count; j++) fscanf (fp, "%lf", &matrix[i][j]);`. -/
def fillMatrix (count : Nat) (state : CArray (CArray F) × Text) : CResult (CArray (CArray F) × Text) :=
  forRange 0 count
    (fun state i => forRange 0 count (fun state j => fscanfEntry toDouble state i j) state) state

/-- There is room for a square matrix. -/
structure Room (count : Nat) (matrix : CArray (CArray F)) : Prop where
  rows : count ≤ matrix.length
  columns : ∀ i < count, ∃ row, matrix.read i = .ok row ∧ count ≤ row.length

variable {toDouble} {count : Nat} {tokens : List Text} {q : Nat → ℚ}

/-- The first `k` entries, row by row, hold the values of the first `k` numerals, and the other numerals are
on the stream. -/
structure FilledUpTo (toDouble : Numeral → F) (count : Nat) (tokens : List Text) (q : Nat → ℚ) (k : Nat)
    (state : CArray (CArray F) × Text) : Prop where
  room : Room count state.1
  stream : words isSpace state.2 = tokens.drop k
  entries : ∀ i j, j < count → i * count + j < k →
    readEntry state.1 i j = .ok (toDouble (.rational (q (i * count + j))))

/-- Storing an entry changes no other. -/
theorem readEntry_set {matrix : CArray (CArray F)} {row : CArray F} {i j : Nat} {v : F}
    (here : matrix.read i = .ok row) (inside : j < row.length) (i' j' : Nat) :
    readEntry (matrix.set i (some (row.set j (some v)))) i' j' =
      if i' = i ∧ j' = j then .ok v else readEntry matrix i' j' := by
  rw [readEntry, CArray.read_set (CArray.lt_of_read_ok here)]
  by_cases same : i' = i
  · subst same
    rw [if_pos rfl, readEntry, here]
    change CArray.read (row.set j (some v)) j' = _
    rw [CArray.read_set inside]
    simp only [true_and]
    rfl
  · rw [if_neg same, if_neg fun both => same both.1, readEntry]

theorem room_set {matrix : CArray (CArray F)} {row : CArray F} {i j : Nat} {v : F}
    (room : Room count matrix) (here : matrix.read i = .ok row) (large : count ≤ row.length) :
    Room count (matrix.set i (some (row.set j (some v)))) := by
  refine ⟨by rw [List.length_set]; exact room.rows, fun i' inside => ?_⟩
  rw [CArray.read_set (CArray.lt_of_read_ok here)]
  by_cases same : i' = i
  · exact ⟨_, if_pos same, by rwa [List.length_set]⟩
  · rw [if_neg same]
    exact room.columns i' inside

/-- One conversion stores the next numeral. -/
theorem fscanfEntry_step {i j : Nat} {state : CArray (CArray F) × Text}
    (reads : ∀ k token, tokens[k]? = some token → Reads token (q k))
    (enough : count * count ≤ tokens.length) (hi : i < count) (hj : j < count)
    (filled : FilledUpTo toDouble count tokens q (i * count + j) state) :
    ∃ next, fscanfEntry toDouble state i j = .ok next ∧
      FilledUpTo toDouble count tokens q (i * count + j + 1) next := by
  obtain ⟨matrix, stream⟩ := state
  obtain ⟨room, onStream, entries⟩ := filled
  obtain ⟨row, here, large⟩ := room.columns i hi
  have below : i * count + j < tokens.length := (position_lt hi hj).trans_le enough
  have next : words isSpace stream =
      tokens[i * count + j] :: tokens.drop (i * count + j + 1) := by
    rw [onStream, List.drop_eq_getElem_cons below]
  obtain ⟨rest, read, behind⟩ :=
    scanFloat_word next (reads _ _ (List.getElem?_eq_getElem below))
  have inside : j < row.length := hj.trans_le large
  refine ⟨(matrix.set i (some (row.set j (some (toDouble (.rational (q (i * count + j))))))), rest), ?_,
    room_set room here large, behind, fun i' j' hj' before => ?_⟩
  · simp only [fscanfEntry, here, read]
    change (row.write j _).bind _ = _
    rw [CArray.write_ok inside]
    change (matrix.write i _).bind _ = _
    rw [CArray.write_ok (CArray.lt_of_read_ok here)]
    rfl
  · change readEntry (matrix.set i _) i' j' = _
    rw [readEntry_set here inside]
    by_cases same : i' * count + j' = i * count + j
    · have rowEq : i' = i := by
        have quotient := congrArg (· / count) same
        simpa only [position_div hj', position_div hj] using quotient
      have columnEq : j' = j := by
        subst rowEq
        omega
      rw [if_pos ⟨rowEq, columnEq⟩, same]
    · have different : ¬ (i' = i ∧ j' = j) := by
        rintro ⟨rfl, rfl⟩
        exact same rfl
      rw [if_neg different]
      exact entries i' j' hj' (by omega)

/-- A stream with enough numerals fills the matrix row by row. -/
theorem fillMatrix_spec (toDouble : Numeral → F) {stream : Text} {matrix : CArray (CArray F)}
    (room : Room count matrix)
    (h : words isSpace stream = tokens)
    (reads : ∀ k token, tokens[k]? = some token → Reads token (q k))
    (enough : count * count ≤ tokens.length) :
    ∃ final, fillMatrix toDouble count (matrix, stream) = .ok final ∧
      ∀ i < count, ∀ j < count,
        readEntry final.1 i j = .ok (toDouble (.rational (q (i * count + j)))) := by
  have start : FilledUpTo toDouble count tokens q (0 * count) (matrix, stream) :=
    ⟨room, by simpa using h, fun i j _ before => absurd before (by omega)⟩
  have rowStep : ∀ i state, 0 ≤ i → i < count → FilledUpTo toDouble count tokens q (i * count) state →
      ∃ next, forRange 0 count (fun state j => fscanfEntry toDouble state i j) state = .ok next ∧
        FilledUpTo toDouble count tokens q ((i + 1) * count) next := by
    intro i state _ hi filled
    obtain ⟨next, ran, filled'⟩ :=
      forRange_ok (fun j state => FilledUpTo toDouble count tokens q (i * count + j) state)
        (Nat.zero_le count) filled
        fun j state _ hj here => fscanfEntry_step reads enough hi hj here
    rw [Nat.succ_mul]
    exact ⟨next, ran, filled'⟩
  obtain ⟨final, ran, filled⟩ :=
    forRange_ok (fun i state => FilledUpTo toDouble count tokens q (i * count) state)
      (Nat.zero_le count) start rowStep
  exact ⟨final, ran, fun i hi j hj => filled.entries i j hj (position_lt hi hj)⟩

end Fill

/-! ### The two fill functions -/

/-- `enum arch_mode`. -/
inductive ArchMode where
  | numa
  | multicore
deriving DecidableEq, Repr

/-- The contents of `/tmp/output/latency_lmbench.minas` and `/tmp/output/latency_lmbench_multicore.minas`,
where they exist. -/
structure LatencyFiles where
  nodes : Option Text
  cores : Option Text

/-- `na_fill_latency_matrix`: the filled matrix, or nothing when the program exits. -/
def naFillLatencyMatrix {F : Type} (toDouble : Numeral → F) (topo : ArchTopo) (files : LatencyFiles)
    (matrix : CArray (CArray F)) (mode : ArchMode) : CResult (Option (CArray (CArray F))) :=
  match files.nodes, files.cores with
  | some nodes, some cores => do
      let (matrix, _) ←
        match mode with
        | .numa => fillMatrix toDouble topo.maxnodes (matrix, nodes)
        | .multicore => fillMatrix toDouble topo.maxcpus (matrix, cores)
      pure (some matrix)
  | _, _ => .ok none

/-! ### The two readers of the node latencies -/

/-- What `topology.sh` leaves behind on a machine with so many nodes: the macro `MAXNODES`, which is 0 unless
there are several nodes, and a file with one numeral for each pair. -/
structure TopologyLeaves (topo : ArchTopo) (nodes : Nat) (text : Text) : Prop where
  maxnodes : 2 ≤ nodes ∧ topo.maxnodes = nodes ∨ nodes ≤ 1 ∧ topo.maxnodes = 0
  square : (words isSpace text).length = max 1 nodes * max 1 nodes
  numerals : ∀ token ∈ words isSpace text, ∃ q, Reads token q

/-- Whatever is in the matrix before, it is filled with the numerals that `na_latency` reads. -/
def LatencyReadersAgree (topo : ArchTopo) (nodes : Nat) (text : Text) (cores : Option Text) : Prop :=
  ∀ matrix : CArray (CArray Numeral), Room (max 1 nodes) matrix →
    ∃ filled, naFillLatencyMatrix id topo { nodes := some text, cores := cores } matrix .numa =
        .ok (some filled) ∧
      ∀ a < max 1 nodes, ∀ b < max 1 nodes, ∃ value, readEntry filled a b = .ok value ∧
        TableReader.latency.read topo.maxnodes ((a : Int) + 1) ((b : Int) + 1) text = .ok value

/-- A new matrix, which no entry has been stored in. -/
def newMatrix (F : Type) (count : Nat) : CArray (CArray F) :=
  CArray.filled (List.replicate count (malloc count))

theorem room_newMatrix (F : Type) (count : Nat) : Room count (newMatrix F count) := by
  refine ⟨by simp [newMatrix], fun i inside => ⟨malloc count, ?_, by simp [malloc]⟩⟩
  simp [newMatrix, CArray.filled, CArray.read, inside]

section Agree

variable {topo : ArchTopo} {nodes : Nat} {text : Text}

/-- The values of the numerals, by their position. -/
theorem exists_values {tokens : List Text} (numerals : ∀ token ∈ tokens, ∃ q, Reads token q) :
    ∃ q : Nat → ℚ, ∀ (k : Nat) (token : Text), tokens[k]? = some token → Reads token (q k) := by
  have value : ∀ k : Nat, ∃ q, ∀ token, tokens[k]? = some token → Reads token q := by
    intro k
    cases found : tokens[k]? with
    | none => exact ⟨0, fun token none? => by cases none?⟩
    | some token =>
        obtain ⟨q, reads⟩ := numerals token (List.mem_of_getElem? found)
        exact ⟨q, fun token' same => Option.some.inj same ▸ reads⟩
  exact ⟨fun k => (value k).choose, fun k => (value k).choose_spec⟩

/-- On the configurations that `topology.sh` leaves behind, the readers agree exactly when there are several
nodes, the positions of the cells are in the range of `int`, and the file of the cores exists. -/
theorem latencyReadersAgree_iff (leaves : TopologyLeaves topo nodes text) (cores : Option Text) :
    LatencyReadersAgree topo nodes text cores ↔ 2 ≤ nodes ∧ PositionsFit nodes ∧ cores ≠ none := by
  constructor
  · intro agree
    obtain ⟨filled, ran, entries⟩ := agree _ (room_newMatrix Numeral (max 1 nodes))
    have written : cores ≠ none := by
      rintro rfl
      cases ran
    rcases leaves.maxnodes with ⟨several, same⟩ | ⟨few, none?⟩
    · obtain ⟨last, rfl⟩ : ∃ last, nodes = last + 1 := ⟨nodes - 1, by omega⟩
      obtain ⟨value, -, read⟩ := entries last (by omega) last (by omega)
      rw [same, read_eq] at read
      refine ⟨several, positionsFit_of_last ?_, written⟩
      by_contra overflow
      rw [if_neg overflow] at read
      cases read
    · obtain ⟨content, rfl⟩ := Option.ne_none_iff_exists'.mp written
      -- the loops do not run, so the first entry still has no value
      have untouched : filled = newMatrix Numeral (max 1 nodes) := by
        simp only [naFillLatencyMatrix, none?, fillMatrix, forRange_self] at ran
        exact (Option.some.inj (Except.ok.inj ran)).symm
      have one : max 1 nodes = 1 := by omega
      obtain ⟨value, entry, -⟩ := entries 0 (by omega) 0 (by omega)
      rw [untouched, one] at entry
      cases entry
  · rintro ⟨several, fits, written⟩ matrix room
    obtain ⟨content, rfl⟩ := Option.ne_none_iff_exists'.mp written
    have maxnodes : topo.maxnodes = nodes := by
      rcases leaves.maxnodes with ⟨-, same⟩ | ⟨few, -⟩
      · exact same
      · omega
    have size : max 1 nodes = nodes := by omega
    have square := leaves.square
    rw [size] at room square
    obtain ⟨q, reads⟩ := exists_values leaves.numerals
    obtain ⟨final, ran, entries⟩ :=
      fillMatrix_spec id room rfl reads square.ge
    refine ⟨final.1, ?_, fun a ha b hb => ?_⟩
    · simp only [naFillLatencyMatrix, maxnodes, ran]
      rfl
    · rw [size] at ha hb
      have inside : a * nodes + b < (words isSpace text).length := square ▸ position_lt ha hb
      rw [maxnodes]
      exact ⟨_, entries a ha b hb, readCell_eq _ rfl reads inside fits ha hb⟩

end Agree

/-- Two nodes, with the latencies that a run leaves. -/
def twoNodesFile : Text :=
  "85\t130\n131\t86\n".toList

def twoNodesMacros : ArchTopo where
  isnuma := true
  maxnodes := 2
  maxcpus := 4
  cpusnode := 2
  socketsnode := 1
  maxcoressocket := some 2

theorem topologyLeaves_twoNodes : TopologyLeaves twoNodesMacros 2 twoNodesFile := by
  have tokens : words isSpace twoNodesFile = [natText 85, natText 130, natText 131, natText 86] := by
    decide
  refine ⟨Or.inl ⟨le_rfl, rfl⟩, by rw [tokens]; rfl, fun token member => ?_⟩
  rw [tokens] at member
  simp only [List.mem_cons, List.not_mem_nil, or_false] at member
  rcases member with rfl | rfl | rfl | rfl
  · exact ⟨_, reads_natText 85⟩
  · exact ⟨_, reads_natText 130⟩
  · exact ⟨_, reads_natText 131⟩
  · exact ⟨_, reads_natText 86⟩

/-- With a file of the cores, if an empty one, the readers agree on it. -/
theorem latencyReadersAgree_iff_twoNodes :
    LatencyReadersAgree twoNodesMacros 2 twoNodesFile (some []) :=
  (latencyReadersAgree_iff topologyLeaves_twoNodes (some [])).mpr
    ⟨le_rfl, show 2 * 2 < 2 ^ 31 by decide, by simp⟩

def oneNodeMacros : ArchTopo where
  isnuma := false
  maxnodes := 0
  maxcpus := 4
  cpusnode := 0
  socketsnode := 0
  maxcoressocket := some 4

/-- On a machine with one node `na_latency` reads the file, and the matrix gets no entry. -/
theorem not_latencyReadersAgree_oneNode :
    ¬ LatencyReadersAgree oneNodeMacros 1 "85\n\n".toList (some []) := by
  intro agree
  obtain ⟨filled, ran, entries⟩ := agree _ (room_newMatrix Numeral 1)
  obtain rfl := Option.some.inj (Except.ok.inj ran)
  obtain ⟨value, entry, -⟩ := entries 0 (by decide) 0 (by decide)
  cases entry

end Numafac
