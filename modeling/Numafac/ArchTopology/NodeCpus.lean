/-
Module: Numafac.ArchTopology.NodeCpus
Layer: ArchTopology
Purpose: The CPUs of a node. `na_get_cpusidnode` either sorts the ids of a directory listing or, when a
  cache below the last level is shared, asks `na_get_socketsId_node` for the packages of the node, which
  asks `na_get_cpusidnode` for its CPUs. `callsEnd_iff` says when this chain of calls ends and
  `nodeCpusExact_iff` when the answer is the set of CPUs of the node.
Trusted boundary: the translation of the two functions. The value of MAXCORESSOCKET is used where the
  loop compares with it; the array allocated with it before is never accessed.
Main exports: cpusOfLine, cpusOfSockets, socketsOfCpus, naGetCpusidnode, naGetSocketsIdNode,
  NoIntermediateShared, LineFits, callsEnd_iff, nodeCpusExact_iff
-/
import Numafac.ArchTopology.SocketCpus

namespace Numafac

/-- The delimiters `" \n"`. -/
def blankOrNewline (c : Char) : Bool :=
  c == ' ' || c == '\n'

/-- `echo ${NODE_CPUIDS}`: the ids of the entries `cpu[0-9]*` of a node directory. -/
def echoNodeCpuids (fs : Sysfs) (nodeid : Int) : Text :=
  List.intercalate [' '] (if 0 ≤ nodeid then (fs.cpus nodeid.toNat).map natText else []) ++ ['\n']

/-- The first branch of `na_get_cpusidnode`: the tokens of one line, sorted. -/
def cpusOfLine (fs : Sysfs) (nodeid : Int) : CResult (CArray Int) := do
  let tcpus := (fs.cpus 0).length
  let resp ← bufferText (fgets (tcpus * 4 + 1) (echoNodeCpuids fs nodeid))
  let state ← storeToken blankOrNewline (malloc tcpus, resp) 0
  let (cpusid, _) ← forRange 1 tcpus (storeToken blankOrNewline) state
  insertionSort tcpus cpusid

/-- The second branch, from the packages on. The element that is copied is `cores_s[i]`. -/
def cpusOfSockets (topo : ArchTopo) (fs : Sysfs) (socketsId : CArray Int) : CResult (CArray Int) := do
  let tcpus := (fs.cpus 0).length
  let (cpusid, _) ← forRange 0 topo.socketsnode
    (fun state i => do
      let socket ← socketsId.read i
      let coresS ← naGetCpusidsocket topo fs socket
      let maxCoresSocket ← naGetCpussockets topo
      forRange 0 maxCoresSocket
        (fun (cpusid, k) _ => do
          let core ← coresS.read i
          let cpusid ← cpusid.write k core
          pure (cpusid, k + 1))
        state)
    (malloc tcpus, 0)
  pure cpusid

/-- `while(!find && j<total_sock) if(socket == sockets_id[j]) find=1; else j++;`. -/
def findSocket (socketsId : CArray Int) (socket : Int) (j : Nat) : Nat → CResult Bool
  | 0 => .ok false
  | remaining + 1 => do
      let known ← socketsId.read j
      if socket = known then .ok true else findSocket socketsId socket (j + 1) remaining

/-- `na_get_socketsId_node`, from the CPUs of the node on. -/
def socketsOfCpus (topo : ArchTopo) (fs : Sysfs) (cpus : CArray Int) : CResult (CArray Int) := do
  let (socketsId, _) ← forRange 0 topo.cpusnode
    (fun (socketsId, k) i => do
      let cpu ← cpus.read i
      let socket := naGetSocketCpu fs cpu
      let find ← findSocket socketsId socket 0 topo.socketsnode
      if find then pure (socketsId, k)
      else do
        let socketsId ← socketsId.write k socket
        pure (socketsId, k + 1))
    (CArray.filled (List.replicate topo.socketsnode (-1)), 0)
  pure socketsId

mutual
/-- `na_get_cpusidnode`, where at most `depth` calls may be open at a time. -/
def naGetCpusidnode (topo : ArchTopo) (fs : Sysfs) (nodeid : Int) :
    Nat → Option (CResult (CArray Int))
  | 0 => none
  | depth + 1 =>
      if linesBranch fs then some (cpusOfLine fs nodeid)
      else (naGetSocketsIdNode topo fs nodeid depth).map fun socketsId =>
        socketsId.bind (cpusOfSockets topo fs)
/-- `na_get_socketsId_node`. -/
def naGetSocketsIdNode (topo : ArchTopo) (fs : Sysfs) (node : Int) :
    Nat → Option (CResult (CArray Int))
  | 0 => none
  | depth + 1 =>
      (naGetCpusidnode topo fs node depth).map fun cpus => cpus.bind (socketsOfCpus topo fs)
end

/-! ### What the functions are for -/

/-- Both calls end. -/
def CallsEnd (topo : ArchTopo) (fs : Sysfs) (node : Int) : Prop :=
  (∃ depth, naGetCpusidnode topo fs node depth ≠ none) ∧
    ∃ depth, naGetSocketsIdNode topo fs node depth ≠ none

/-- `na_get_cpusidnode` returns the CPUs of the node, each once. -/
def NodeCpusExact (topo : ArchTopo) (fs : Sysfs) (node : Nat) : Prop :=
  ∃ depth ids, naGetCpusidnode topo fs node depth = some (.ok (CArray.filled ids)) ∧
    ids.Perm ((fs.cpus node).map Nat.cast)

/-- No index from 2 on whose list has several entries is followed by another entry of the directory, if the
directory is found through `node0`. -/
def NoIntermediateShared (fs : Sysfs) : Prop :=
  0 ∈ fs.cpus 0 → ∀ i list, 2 ≤ i → (fs.cacheDir 0).lists[i]? = some list →
    i + 1 < (fs.cacheDir 0).lists.length + (fs.cacheDir 0).others → list.items.length ≤ 1

/-- The node has CPUs, as many as `node0`, and their ids are numbers of type `int` that together have no
more digits than the line buffer holds. -/
structure LineFits (fs : Sysfs) (node : Nat) : Prop where
  occupied : 0 < (fs.cpus node).length
  count : (fs.cpus node).length = (fs.cpus 0).length
  digits : (((fs.cpus node).map natText).map List.length).sum ≤ 3 * (fs.cpus 0).length + 1
  ints : ∀ cpu ∈ fs.cpus node, cpu < 2 ^ 31

/-! ### The chain of calls -/

section Chain

variable {topo : ArchTopo} {fs : Sysfs} {node : Int}

theorem naGetCpusidnode_of_lines (branch : linesBranch fs = true) (depth : Nat) :
    naGetCpusidnode topo fs node (depth + 1) = some (cpusOfLine fs node) := by
  rw [naGetCpusidnode, if_pos branch]

/-- Each of the two functions only gets to its own result through the other one. -/
theorem chain_endless (branch : ¬ linesBranch fs = true) (depth : Nat) :
    naGetCpusidnode topo fs node depth = none ∧ naGetSocketsIdNode topo fs node depth = none := by
  induction depth with
  | zero => exact ⟨rfl, rfl⟩
  | succ depth ih =>
      obtain ⟨cpus, sockets⟩ := ih
      constructor
      · rw [naGetCpusidnode, if_neg branch, sockets]
        rfl
      · rw [naGetSocketsIdNode, cpus]
        rfl

theorem callsEnd_iff_linesBranch : CallsEnd topo fs node ↔ linesBranch fs = true := by
  constructor
  · rintro ⟨⟨depth, ended⟩, -⟩
    by_contra branch
    exact ended (chain_endless branch depth).1
  · intro branch
    have cpus := @naGetCpusidnode_of_lines topo fs node branch 0
    refine ⟨⟨1, by simp [cpus]⟩, 2, ?_⟩
    simp [naGetSocketsIdNode, cpus]

/-- The test before the branches, as a condition on the lists. -/
theorem linesBranch_iff : linesBranch fs = true ↔ NoIntermediateShared fs := by
  have reads := levelsRead_eq fs
  have test : linesBranch fs = true ↔
      naGetSharedCacheLevel fs = -1 ∨ naGetSharedCacheLevel fs = naGetNumcaches fs := by
    simp [linesBranch]
  rw [test]
  rcases sharedCacheLevelLoop_cases (pieces fs) 2 (levelsRead fs) with
    ⟨level, single⟩ | ⟨s, level, low, high, several, least⟩
  · refine iff_of_true (Or.inl level) fun inNode i list low found before => ?_
    rw [if_pos inNode] at reads
    have one := single i low (by omega)
    rw [pieces_of_list found] at one
    omega
  · rw [show naGetSharedCacheLevel fs = s from level]
    have inNode : 0 ∈ fs.cpus 0 := by
      by_contra outside
      rw [if_neg outside] at reads
      omega
    rw [if_pos inNode] at reads
    rw [naGetNumcaches_eq inNode]
    constructor
    · rintro last - i list low' found before
      have one := least i low' (by omega)
      rw [pieces_of_list found] at one
      omega
    · intro noneShared
      obtain ⟨list, found, -⟩ := sharedAt_of_pieces several
      rw [pieces_of_list found] at several
      have atMost := noneShared inNode s list low found
      omega

/-- The calls end exactly where no intermediate cache is shared. -/
theorem callsEnd_iff (topo : ArchTopo) (fs : Sysfs) (node : Int) :
    CallsEnd topo fs node ↔ NoIntermediateShared fs :=
  callsEnd_iff_linesBranch.trans linesBranch_iff

end Chain

/-- Two packages whose cores share the second-level cache, with a third level above it. -/
theorem not_callsEnd_sharedPairs : ¬ CallsEnd sharedPairsTopo sharedPairs 0 := by
  rintro ⟨⟨depth, ended⟩, -⟩
  exact ended (chain_endless (by decide) depth).1

/-! ### The line -/

section Line

variable {fs : Sysfs} {node : Nat}

theorem blankOrNewline_digit {c : Char} (digit : c.isDigit = true) : blankOrNewline c = false :=
  delimiters_digit (by decide) (by decide) digit

theorem echoNodeCpuids_eq (fs : Sysfs) (node : Nat) :
    echoNodeCpuids fs node = List.intercalate [' '] ((fs.cpus node).map natText) ++ ['\n'] := by
  simp [echoNodeCpuids]

/-- What the buffer holds of a line. -/
theorem bufferText_echo (large : 0 < (fs.cpus 0).length) :
    bufferText (fgets ((fs.cpus 0).length * 4 + 1) (echoNodeCpuids fs node)) =
      .ok ((echoNodeCpuids fs node).take ((fs.cpus 0).length * 4)) := by
  have clean : '\n' ∉ List.intercalate [' '] ((fs.cpus node).map natText) := fun member => by
    rcases mem_ids member with blank | digit
    · exact absurd blank (by decide)
    · exact absurd digit (by decide)
  rw [echoNodeCpuids_eq, fgets_line clean (by omega)]
  rfl

/-- The tokens are stored one after the other and then sorted. -/
theorem cpusOfLine_eq (large : 0 < (fs.cpus 0).length) :
    cpusOfLine fs node = (do
      let (cpusid, _) ← forRange 0 (fs.cpus 0).length (storeToken blankOrNewline)
        (malloc (fs.cpus 0).length, (echoNodeCpuids fs node).take ((fs.cpus 0).length * 4))
      insertionSort (fs.cpus 0).length cpusid) := by
  rw [cpusOfLine, bufferText_echo large, forRange_step large]
  simp only [bind, Except.bind]
  cases storeToken blankOrNewline
    (malloc (fs.cpus 0).length, (echoNodeCpuids fs node).take ((fs.cpus 0).length * 4)) 0 with
  | error fault => rfl
  | ok state => rfl

/-- Without CPUs in `node0` there is no token in the buffer. -/
theorem cpusOfLine_empty (empty : (fs.cpus 0).length = 0) :
    cpusOfLine fs node = .error .nullPointer := by
  simp [cpusOfLine, empty, fgets, bufferText, storeToken, strtok, atoiToken, bind, Except.bind]

/-- The values read from words of digits: none needs more digits than its word has. -/
theorem values_of_words {tokens : List Text} {values : List Int}
    (digits : ∀ word ∈ tokens, word ≠ [] ∧ ∀ c ∈ word, c.isDigit = true)
    (read : tokens.map atoi = values.map .ok) :
    (∀ v ∈ values, v < 2 ^ 31) ∧
      (values.map fun v => (natText v.toNat).length).sum ≤ (tokens.map List.length).sum := by
  induction tokens generalizing values with
  | nil =>
      obtain rfl : values = [] := by simpa using read.symm
      simp
  | cons word tokens ih =>
      cases values with
      | nil => simp at read
      | cons v values =>
          rw [List.map_cons, List.map_cons] at read
          injection read with value read
          obtain ⟨nonempty, allDigits⟩ := digits word (by simp)
          obtain ⟨bounds, sum⟩ := ih (fun other member => digits other (by simp [member])) read
          rw [atoi_digits nonempty allDigits] at value
          split at value
          · rename_i small
            obtain rfl := Except.ok.inj value
            have length := length_natText_digitsValue_le nonempty allDigits
            refine ⟨?_, ?_⟩
            · rintro v (_ | ⟨_, member⟩)
              · exact_mod_cast small
              · exact bounds v member
            · simp only [List.map_cons, List.sum_cons, Int.toNat_natCast]
              omega
          · cases value

/-- The words of what the buffer holds are made of digits, and they have room in it. -/
theorem words_taken (fs : Sysfs) (node room : Nat) :
    (∀ word ∈ words blankOrNewline ((echoNodeCpuids fs node).take room),
      word ≠ [] ∧ ∀ c ∈ word, c.isDigit = true) ∧
    ∀ count, let tokens := (words blankOrNewline ((echoNodeCpuids fs node).take room)).take count
      (tokens.map List.length).sum + tokens.length ≤ room + 1 := by
  obtain ⟨inside, size⟩ := words_size blankOrNewline ((echoNodeCpuids fs node).take room)
  refine ⟨fun word member => ?_, fun count => ?_⟩
  · have isWord := isWord_of_mem_words member
    refine ⟨isWord.1, fun c inWord => ?_⟩
    have inLine : c ∈ echoNodeCpuids fs node :=
      List.mem_of_mem_take (inside.subset (List.mem_flatten.mpr ⟨word, member, inWord⟩))
    have noSeparator := isWord.2 c inWord
    rw [echoNodeCpuids_eq, List.mem_append, List.mem_singleton] at inLine
    rcases inLine with body | rfl
    · rcases mem_ids body with rfl | digit
      · exact absurd noSeparator (by decide)
      · exact digit
    · exact absurd noSeparator (by decide)
  · intro tokens
    have split := congrArg (fun list : List Text => (list.map List.length).sum + list.length)
      (List.take_append_drop count (words blankOrNewline ((echoNodeCpuids fs node).take room)))
    simp only [List.map_append, List.sum_append, List.length_append] at split
    have short := List.length_take_le room (echoNodeCpuids fs node)
    change (tokens.map List.length).sum + _ + (tokens.length + _) = _ at split
    omega

/-- A line that fits into the buffer keeps all its words. -/
theorem words_fitting (fits : LineFits fs node) :
    words blankOrNewline ((echoNodeCpuids fs node).take ((fs.cpus 0).length * 4)) =
      (fs.cpus node).map natText := by
  obtain ⟨occupied, count, digits, -⟩ := fits
  have length : (List.intercalate [' '] ((fs.cpus node).map natText)).length ≤
      (fs.cpus 0).length * 4 := by
    rw [length_intercalate, List.length_map]
    omega
  rw [echoNodeCpuids_eq, List.take_append, List.take_of_length_le length]
  obtain newline | empty : (['\n'].take ((fs.cpus 0).length * 4 -
        (List.intercalate [' '] ((fs.cpus node).map natText)).length) = ['\n']) ∨
      ['\n'].take ((fs.cpus 0).length * 4 -
        (List.intercalate [' '] ((fs.cpus node).map natText)).length) = [] := by
    cases (fs.cpus 0).length * 4 - (List.intercalate [' '] ((fs.cpus node).map natText)).length with
    | zero => exact Or.inr rfl
    | succ _ => exact Or.inl (by simp)
  · rw [newline, words_append_sep _ _ rfl, words_nil, List.append_nil,
      words_ids rfl fun _ => blankOrNewline_digit]
  · rw [empty, List.append_nil, words_ids rfl fun _ => blankOrNewline_digit]

theorem lineFits_of_exact {ids : List Int} (call : cpusOfLine fs node = .ok (CArray.filled ids))
    (perm : ids.Perm ((fs.cpus node).map Nat.cast)) : LineFits fs node := by
  by_cases empty : (fs.cpus 0).length = 0
  · rw [cpusOfLine_empty empty] at call
    cases call
  · rw [cpusOfLine_eq (by omega)] at call
    obtain ⟨final, ran, call⟩ := bind_eq_ok.mp call
    obtain ⟨values, array, length, read⟩ := storeTokens_inv ran
    obtain ⟨sorted, sort, sortedPerm⟩ := insertionSort_spec values
    change insertionSort _ final.1 = _ at call
    rw [array, ← length, sort] at call
    have same : sorted = ids :=
      (List.map_injective_iff.mpr fun _ _ => Option.some.inj) (Except.ok.inj call)
    subst same
    have valuesPerm := sortedPerm.symm.trans perm
    obtain ⟨digits, room⟩ := words_taken fs node ((fs.cpus 0).length * 4)
    obtain ⟨bounds, sum⟩ := values_of_words
      (fun word member => digits word (List.mem_of_mem_take member)) read
    have room := room (fs.cpus 0).length
    have tokensLength := congrArg List.length read
    have count := valuesPerm.length_eq
    have sums := (valuesPerm.map fun v => (natText v.toNat).length).sum_eq
    have cast : ((fs.cpus node).map (Nat.cast : Nat → Int)).map (fun v => (natText v.toNat).length) =
        ((fs.cpus node).map natText).map List.length := by
      simp [Function.comp_def]
    rw [cast] at sums
    simp only [List.length_map] at tokensLength count
    refine ⟨by omega, by omega, ?_, fun cpu member => ?_⟩
    · rw [← sums]
      simp only [] at room
      omega
    · exact_mod_cast bounds cpu (valuesPerm.symm.subset (List.mem_map_of_mem member))

theorem exact_of_lineFits (fits : LineFits fs node) :
    ∃ ids, cpusOfLine fs node = .ok (CArray.filled ids) ∧
      ids.Perm ((fs.cpus node).map Nat.cast) := by
  have occupied := fits.occupied
  have count := fits.count
  have read : ((words blankOrNewline ((echoNodeCpuids fs node).take ((fs.cpus 0).length * 4))).take
      (fs.cpus 0).length).map atoi = ((fs.cpus node).map (Nat.cast : Nat → Int)).map .ok := by
    rw [words_fitting fits, ← count, ← List.map_take, List.take_length, List.map_map, List.map_map]
    exact List.map_congr_left fun cpu member => atoi_natText (fits.ints cpu member)
  obtain ⟨final, ran, array⟩ := storeTokens_ok (by rw [List.length_map, count]) read
  obtain ⟨sorted, sort, perm⟩ := insertionSort_spec ((fs.cpus node).map Nat.cast)
  refine ⟨sorted, ?_, perm⟩
  rw [List.length_map, count] at sort
  rw [cpusOfLine_eq (by omega)]
  refine bind_eq_ok.mpr ⟨final, ran, ?_⟩
  change insertionSort _ final.1 = _
  rw [array, sort]

/-- The answer is right exactly where no intermediate cache is shared and the line has the shape that the
sizes taken from `node0` allow. -/
theorem nodeCpusExact_iff (topo : ArchTopo) (fs : Sysfs) (node : Nat) :
    NodeCpusExact topo fs node ↔ NoIntermediateShared fs ∧ LineFits fs node := by
  rw [← linesBranch_iff]
  constructor
  · rintro ⟨depth, ids, call, perm⟩
    by_cases branch : linesBranch fs = true
    · cases depth with
      | zero => cases call
      | succ depth =>
          rw [naGetCpusidnode_of_lines branch] at call
          exact ⟨branch, lineFits_of_exact (Option.some.inj call) perm⟩
    · rw [(chain_endless branch depth).1] at call
      cases call
  · rintro ⟨branch, fits⟩
    obtain ⟨ids, call, perm⟩ := exact_of_lineFits fits
    exact ⟨1, ids, by rw [naGetCpusidnode_of_lines branch, call], perm⟩

end Line

/-- Two nodes without shared caches, one CPU of the second node being offline. -/
def offlineCpu : Sysfs :=
  Sysfs.ofNodes [[0, 1], [2]] (by decide) (by decide)
    (fun cpu => if cpu < 3 then some 0 else none) fun cpu =>
    { lists := [.single cpu, .single cpu, .single cpu], others := 0 }

def offlineCpuTopo : ArchTopo where
  isnuma := true
  maxnodes := 2
  maxcpus := 4
  cpusnode := 2
  socketsnode := 1
  maxcoressocket := some 3

/-- The second token is missing. -/
theorem not_nodeCpusExact_offlineCpu : ¬ NodeCpusExact offlineCpuTopo offlineCpu 1 := by
  rintro ⟨depth, ids, call, -⟩
  have stopped : cpusOfLine offlineCpu 1 = .error .nullPointer := by decide
  cases depth with
  | zero => cases call
  | succ depth =>
      rw [Nat.cast_one, naGetCpusidnode_of_lines (by decide), stopped] at call
      cases call

end Numafac
