/-
Module: Numafac.ArchTopology.NodeOfCpu
Layer: ArchTopology
Purpose: The table of node ids. `na_init` fills it with one search through the node directories for each
  CPU, and `na_get_nodeidcpu` reads it. The search numbers the directories 0, 1, ... and answers 0 at
  the first number without a directory, and it builds the name of the CPU in seven characters.
  `nodeLookupRight_iff` says what this asks of a machine.
Trusted boundary: the translation of `load_hash`, `get_nodeidcpu` and `na_get_nodeidcpu`
Main exports: storeString, Sysfs.opendir, getNodeidcpu, loadHash, naGetNodeidcpu, NodesOfMachine,
  NodeLookupRight, nodeLookupRight_iff
-/
import Numafac.ArchTopology.Sysfs

namespace Numafac

/-- The text that `strcpy`, `strcat` and `sprintf` leave in `char buffer[size]`. -/
def storeString (size : Nat) (text : Text) : CResult Text :=
  if text.length < size then .ok text else .error .outOfBounds

/-- The entry of a CPU in the directory of its node. -/
def cpuName (cpu : Nat) : Text :=
  "cpu".toList ++ natText cpu

def nodeDirectory (node : Nat) : Text :=
  "/sys/devices/system/node/node".toList ++ natText node

/-- `opendir`, with the names that `readdir` gives for the CPUs. The other entries of a node directory are
not named like a CPU. -/
def Sysfs.opendir (fs : Sysfs) (dirnamep : Text) : Option (List Text) :=
  (fs.nodeIds.find? fun node => nodeDirectory node = dirnamep).map fun node =>
    (fs.cpus node).map cpuName

/-- `for(i=0;i<maxnodes && node == -1;i++)`, with the number of values of `i` that remain. -/
def nodeSearch (fs : Sysfs) (cpuid : Text) (i : Nat) : Nat → CResult Int
  | 0 => .ok (-1)
  | remaining + 1 => do
      let temp ← storeString 33 (natText i)
      let dirnamep ← storeString 256 ("/sys/devices/system/node/node".toList ++ temp)
      match fs.opendir dirnamep with
      | none => .ok 0
      | some names => if cpuid ∈ names then .ok i else nodeSearch fs cpuid (i + 1) remaining

/-- `get_nodeidcpu`. -/
def getNodeidcpu (topo : ArchTopo) (fs : Sysfs) (cpu : Nat) : CResult Int :=
  if 1 < topo.maxnodes then do
    let temp ← storeString 33 (natText cpu)
    let cpuid ← storeString 7 ("cpu".toList ++ temp)
    nodeSearch fs cpuid 0 topo.maxnodes
  else .ok 0

/-- `load_hash`: the contents of `HashCpuNode`. -/
def loadHash (topo : ArchTopo) (fs : Sysfs) : CResult (CArray Int) :=
  fillArray topo.maxcpus (getNodeidcpu topo fs)

/-- `na_get_nodeidcpu`. -/
def naGetNodeidcpu (hashCpuNode : CArray Int) (cpu : Nat) : CResult Int :=
  hashCpuNode.read cpu

/-! ### What the table is for -/

/-- The constants fit the machine, which has several nodes, and every CPU is in a node. -/
structure NodesOfMachine (topo : ArchTopo) (fs : Sysfs) : Prop where
  several : 2 ≤ fs.nodeIds.length
  maxnodes : topo.maxnodes = fs.nodeIds.length
  owned : ∀ cpu < topo.maxcpus, ∃ node, cpu ∈ fs.cpus node

/-- After `na_init` the id of the node of each CPU is looked up. -/
def NodeLookupRight (topo : ArchTopo) (fs : Sysfs) : Prop :=
  ∃ hashCpuNode, loadHash topo fs = .ok hashCpuNode ∧
    ∀ cpu < topo.maxcpus, ∀ node, cpu ∈ fs.cpus node → naGetNodeidcpu hashCpuNode cpu = .ok (node : Int)

/-! ### Names -/

theorem storeString_of_digits {size n : Nat} {front : Text} (digits : Nat) (pos : 0 < digits)
    (small : n < 10 ^ digits) (fits : front.length + digits < size) :
    storeString size (front ++ natText n) = .ok (front ++ natText n) := by
  have length := (length_natText_le_iff pos).mpr small
  refine if_pos ?_
  rw [List.length_append]
  omega

theorem cpuName_injective : Function.Injective cpuName := fun _ _ same =>
  natText_injective (List.append_cancel_left same)

/-- The path of a node directory belongs to one node. -/
theorem find?_nodeDirectory (nodes : List Nat) (node : Nat) :
    (nodes.find? fun other => nodeDirectory other = nodeDirectory node) =
      if node ∈ nodes then some node else none := by
  have same : ∀ other, nodeDirectory other = nodeDirectory node ↔ other = node := fun other =>
    ⟨fun h => natText_injective (List.append_cancel_left h), fun h => h ▸ rfl⟩
  simp only [same]
  by_cases present : node ∈ nodes
  · rw [if_pos present]
    cases found : nodes.find? fun other => decide (other = node) with
    | none => simpa using List.find?_eq_none.mp found node present
    | some other =>
        obtain rfl : other = node := by simpa using List.find?_some found
        rfl
  · rw [if_neg present, List.find?_eq_none]
    intro other member here
    obtain rfl : other = node := by simpa using here
    exact present member

theorem opendir_eq (fs : Sysfs) (node : Nat) :
    fs.opendir (nodeDirectory node) =
      if node ∈ fs.nodeIds then some ((fs.cpus node).map cpuName) else none := by
  rw [Sysfs.opendir, find?_nodeDirectory]
  by_cases present : node ∈ fs.nodeIds
  · rw [if_pos present, if_pos present]
    rfl
  · rw [if_neg present, if_neg present]
    rfl

/-! ### The search -/

section Search

variable {topo : ArchTopo} {fs : Sysfs} {cpu node i remaining : Nat}

/-- One directory of the search. -/
theorem nodeSearch_succ (small : i < 2 ^ 31) :
    nodeSearch fs (cpuName cpu) i (remaining + 1) =
      if i ∈ fs.nodeIds then
        if cpu ∈ fs.cpus i then .ok i else nodeSearch fs (cpuName cpu) (i + 1) remaining
      else .ok 0 := by
  have digits : i < 10 ^ 10 := by omega
  have temp : storeString 33 (natText i) = .ok (natText i) :=
    @storeString_of_digits 33 i [] 10 (by decide) digits (by decide)
  have dirnamep : storeString 256 ("/sys/devices/system/node/node".toList ++ natText i) =
      .ok ("/sys/devices/system/node/node".toList ++ natText i) :=
    storeString_of_digits 10 (by decide) digits (by decide)
  have opened : fs.opendir ("/sys/devices/system/node/node".toList ++ natText i) =
      if i ∈ fs.nodeIds then some ((fs.cpus i).map cpuName) else none := opendir_eq fs i
  have known : cpuName cpu ∈ (fs.cpus i).map cpuName ↔ cpu ∈ fs.cpus i :=
    List.mem_map_of_injective cpuName_injective
  simp only [nodeSearch, temp, dirnamep, opened, bind, Except.bind]
  by_cases present : i ∈ fs.nodeIds
  · simp only [if_pos present, known]
  · simp only [if_neg present]

/-- The search passes the nodes that are there and do not have the CPU. -/
theorem nodeSearch_skip {stop : Nat} (low : i ≤ stop) (high : stop ≤ i + remaining)
    (small : i + remaining ≤ 2 ^ 31)
    (passed : ∀ k, i ≤ k → k < stop → k ∈ fs.nodeIds ∧ cpu ∉ fs.cpus k) :
    nodeSearch fs (cpuName cpu) i remaining =
      nodeSearch fs (cpuName cpu) stop (i + remaining - stop) := by
  induction remaining generalizing i with
  | zero =>
      obtain rfl : i = stop := by omega
      simp
  | succ remaining ih =>
      by_cases here : i = stop
      · subst here
        simp
      · obtain ⟨present, other⟩ := passed i (Nat.le_refl i) (by omega)
        rw [nodeSearch_succ (by omega), if_pos present, if_neg other,
          ih (by omega) (by omega) (by omega) fun k hk => passed k (by omega)]
        congr 1
        omega

theorem length_nodeIds_le (fs : Sysfs) : fs.nodeIds.length ≤ 2 ^ 31 := by
  have inside : fs.nodeIds ⊆ List.range (2 ^ 31) := fun node member =>
    List.mem_range.mpr (fs.nodeIds_int node member)
  simpa using (fs.nodeIds_nodup.subperm inside).length_le

/-- The number of directories is above the ids below a first gap. -/
theorem lt_length_nodeIds {top node : Nat} (below : ∀ k < top, k ∈ fs.nodeIds) (low : top ≤ node)
    (present : node ∈ fs.nodeIds) : top < fs.nodeIds.length := by
  have distinct : (node :: List.range top).Nodup :=
    List.nodup_cons.mpr ⟨fun inRange => absurd (List.mem_range.mp inRange) (Nat.not_lt.mpr low),
      List.nodup_range⟩
  have inside : node :: List.range top ⊆ fs.nodeIds := by
    intro k inList
    rcases List.mem_cons.mp inList with rfl | small
    · exact present
    · exact below k (List.mem_range.mp small)
  have length := (distinct.subperm inside).length_le
  rw [List.length_cons, List.length_range] at length
  exact length

/-- A search from 0 comes to every number below which no directory is missing. -/
theorem nodeSearch_reaches {top : Nat} (member : cpu ∈ fs.cpus node) (low : top ≤ node)
    (below : ∀ k < top, k ∈ fs.nodeIds) :
    nodeSearch fs (cpuName cpu) 0 fs.nodeIds.length =
      if top ∈ fs.nodeIds then
        if cpu ∈ fs.cpus top then .ok (top : Int)
        else nodeSearch fs (cpuName cpu) (top + 1) (fs.nodeIds.length - top - 1)
      else .ok 0 := by
  have few := length_nodeIds_le fs
  have inside := lt_length_nodeIds below low (fs.cpus_node node cpu member)
  have elsewhere : ∀ k, k < node → cpu ∉ fs.cpus k := fun k less there =>
    absurd (fs.cpus_owner k node cpu there member) (Nat.ne_of_lt less)
  rw [nodeSearch_skip (Nat.zero_le top) (by omega) (by omega) fun k _ less =>
    ⟨below k less, elsewhere k (Nat.lt_of_lt_of_le less low)⟩]
  obtain ⟨rest, hrest⟩ : ∃ rest, 0 + fs.nodeIds.length - top = rest + 1 :=
    ⟨fs.nodeIds.length - top - 1, by omega⟩
  rw [hrest, nodeSearch_succ (by omega), show fs.nodeIds.length - top - 1 = rest by omega]

theorem getNodeidcpu_eq (machine : NodesOfMachine topo fs) (short : cpu < 1000) :
    getNodeidcpu topo fs cpu = nodeSearch fs (cpuName cpu) 0 fs.nodeIds.length := by
  have several := machine.several
  have temp : storeString 33 (natText cpu) = .ok (natText cpu) :=
    @storeString_of_digits 33 cpu [] 3 (by decide) short (by decide)
  have cpuid := @storeString_of_digits 7 cpu "cpu".toList 3 (by decide) short (by decide)
  rw [getNodeidcpu, machine.maxnodes, if_pos (by omega), temp]
  simp only [bind, Except.bind, cpuid]
  rfl

/-- The name of a CPU with four digits does not fit. -/
theorem getNodeidcpu_overflow (machine : NodesOfMachine topo fs) (long : 1000 ≤ cpu) :
    ∃ fault, getNodeidcpu topo fs cpu = .error fault := by
  have several := machine.several
  have digits : ¬ (natText cpu).length ≤ 3 := fun short =>
    absurd ((length_natText_le_iff (by decide)).mp short) (by omega)
  have cpuid : storeString 7 ("cpu".toList ++ natText cpu) = .error .outOfBounds := by
    refine if_neg fun fits => ?_
    rw [List.length_append] at fits
    have three : "cpu".toList.length = 3 := rfl
    omega
  rw [getNodeidcpu, machine.maxnodes, if_pos (by omega)]
  by_cases short : (natText cpu).length < 33
  · rw [show storeString 33 (natText cpu) = .ok (natText cpu) from if_pos short]
    exact ⟨.outOfBounds, by simp only [bind, Except.bind, cpuid]⟩
  · rw [show storeString 33 (natText cpu) = .error .outOfBounds from if_neg short]
    exact ⟨.outOfBounds, rfl⟩

/-- The search finds the node of a CPU exactly when no smaller number is missing. -/
theorem getNodeidcpu_right_iff (machine : NodesOfMachine topo fs) (short : cpu < 1000)
    (member : cpu ∈ fs.cpus node) :
    getNodeidcpu topo fs cpu = .ok (node : Int) ↔ ∀ earlier < node, earlier ∈ fs.nodeIds := by
  rw [getNodeidcpu_eq machine short]
  by_cases complete : ∀ earlier < node, earlier ∈ fs.nodeIds
  · refine iff_of_true ?_ complete
    rw [nodeSearch_reaches member (Nat.le_refl node) complete,
      if_pos (fs.cpus_node node cpu member), if_pos member]
  · refine iff_of_false ?_ complete
    -- at the first missing number the search answers 0
    have gap : ∃ k, k < node ∧ k ∉ fs.nodeIds := by
      simpa only [not_forall, exists_prop] using complete
    obtain ⟨less, missing⟩ := Nat.find_spec gap
    have before : ∀ k, k < Nat.find gap → k ∈ fs.nodeIds := fun k smaller => by
      by_contra absent
      exact Nat.find_min gap smaller ⟨Nat.lt_trans smaller less, absent⟩
    rw [nodeSearch_reaches member (Nat.le_of_lt less) before, if_neg missing]
    intro same
    have zero : (0 : Int) = node := Except.ok.inj same
    omega

end Search

/-- The lookups are right exactly on machines with at most 1000 CPUs whose node ids have no gap below a node
with CPUs. -/
theorem nodeLookupRight_iff {topo : ArchTopo} {fs : Sysfs} (machine : NodesOfMachine topo fs) :
    NodeLookupRight topo fs ↔ topo.maxcpus ≤ 1000 ∧
      ∀ cpu < topo.maxcpus, ∀ node, cpu ∈ fs.cpus node → ∀ earlier < node, earlier ∈ fs.nodeIds := by
  constructor
  · rintro ⟨hash, loaded, right⟩
    obtain ⟨-, entry⟩ := read_fillArray loaded
    have short : topo.maxcpus ≤ 1000 := by
      by_contra large
      obtain ⟨-, v, looked⟩ := entry 1000 (by omega)
      obtain ⟨fault, overflow⟩ := getNodeidcpu_overflow machine (Nat.le_refl 1000)
      rw [overflow] at looked
      cases looked
    refine ⟨short, fun cpu inside node member => ?_⟩
    have answer := right cpu inside node member
    rw [naGetNodeidcpu, (entry cpu inside).1] at answer
    exact (getNodeidcpu_right_iff machine (by omega) member).mp answer
  · rintro ⟨short, complete⟩
    have looked : ∀ cpu < topo.maxcpus, ∀ node, cpu ∈ fs.cpus node →
        getNodeidcpu topo fs cpu = .ok (node : Int) := fun cpu inside node member =>
      (getNodeidcpu_right_iff machine (by omega) member).mpr (complete cpu inside node member)
    obtain ⟨hash, loaded⟩ := @fillArray_ok _ topo.maxcpus (getNodeidcpu topo fs) fun cpu inside => by
      obtain ⟨node, member⟩ := machine.owned cpu inside
      exact ⟨_, looked cpu inside node member⟩
    refine ⟨hash, loaded, fun cpu inside node member => ?_⟩
    rw [naGetNodeidcpu, ((read_fillArray loaded).2 cpu inside).1, looked cpu inside node member]

/-- Two nodes with two CPUs each. -/
def twoNodes : Sysfs :=
  Sysfs.ofNodes [[0, 1], [2, 3]] (by decide) (by decide) (fun cpu => some (cpu / 2 : Nat)) fun cpu =>
    { lists := [.single cpu, .single cpu, .single cpu], others := 0 }

def twoNodesTopo : ArchTopo where
  isnuma := true
  maxnodes := 2
  maxcpus := 4
  cpusnode := 2
  socketsnode := 1
  maxcoressocket := some 2

theorem nodeLookupRight_iff_twoNodes : NodeLookupRight twoNodesTopo twoNodes := by
  have owned : ∀ cpu < twoNodesTopo.maxcpus, cpu ∈ twoNodes.cpus (cpu / 2) := by decide
  have machine : NodesOfMachine twoNodesTopo twoNodes :=
    { several := by decide
      maxnodes := by decide
      owned := fun cpu inside => ⟨cpu / 2, owned cpu inside⟩ }
  refine (nodeLookupRight_iff machine).mpr ⟨by decide, fun cpu _ node member earlier less => ?_⟩
  have present : node < 2 := List.mem_range.mp (twoNodes.cpus_node node cpu member)
  exact List.mem_range.mpr (Nat.lt_trans less present)

/-- Three nodes with one CPU each, and no directory `node2`. -/
def sparseNodes : Sysfs where
  nodeIds := [0, 1, 3]
  nodeIds_nodup := by decide
  nodeIds_int := by decide
  cpus node := match node with
    | 0 => [0]
    | 1 => [1]
    | 3 => [2]
    | _ => []
  cpus_nodup node := by split <;> simp
  cpus_node node cpu member := by split at member <;> simp at member ⊢
  cpus_owner node node' cpu here there := by
    split at here <;> split at there <;> simp_all
  packageId _ := some 0
  cacheDir cpu := { lists := [.single cpu, .single cpu, .single cpu], others := 0 }

def sparseNodesTopo : ArchTopo where
  isnuma := true
  maxnodes := 3
  maxcpus := 3
  cpusnode := 1
  socketsnode := 1
  maxcoressocket := some 3

/-- The last CPU is looked up in `node0`. -/
theorem not_nodeLookupRight_sparseNodes :
    NodesOfMachine sparseNodesTopo sparseNodes ∧ ¬ NodeLookupRight sparseNodesTopo sparseNodes := by
  have owned : ∀ cpu < sparseNodesTopo.maxcpus,
      cpu ∈ sparseNodes.cpus 0 ∨ cpu ∈ sparseNodes.cpus 1 ∨ cpu ∈ sparseNodes.cpus 3 := by decide
  constructor
  · refine { several := by decide, maxnodes := by decide, owned := fun cpu inside => ?_ }
    rcases owned cpu inside with first | second | third
    · exact ⟨0, first⟩
    · exact ⟨1, second⟩
    · exact ⟨3, third⟩
  · rintro ⟨hash, loaded, right⟩
    have table : loadHash sparseNodesTopo sparseNodes = .ok (CArray.filled [0, 1, 0]) := by decide
    rw [table] at loaded
    obtain rfl := Except.ok.inj loaded
    have answer := right 2 (by decide) 3 (by decide)
    revert answer
    decide

end Numafac
