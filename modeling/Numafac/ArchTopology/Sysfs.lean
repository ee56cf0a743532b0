/-
Module: Numafac.ArchTopology.Sysfs
Layer: ArchTopology
Purpose: The part of sysfs that `archTopology.c` reads: the node directories with their CPUs, the
  package of each CPU, and its cache directories with the shared CPU lists in the kernel's format. Also
  the constants that `topology.sh` generates into `archTopo.h`. The text that a shell command prints
  about the tree is a function of it.
Trusted boundary: the layout of sysfs as the kernel documents it
Main exports: CpuItem, CpuList, CpuList.text, CpuList.cpus, CacheDir, Sysfs, ArchTopo, count_comma_text
-/
import Mathlib.Data.PNat.Notation
import Numafac.Base.CMemory

namespace Numafac

/-! ### CPU lists -/

/-- An entry of a CPU list: a single id or a range. -/
structure CpuItem where
  low : Nat
  high : Nat
  ordered : low ≤ high

/-- `%u` or `%u-%u`. -/
def CpuItem.text (item : CpuItem) : Text :=
  if item.low = item.high then natText item.low
  else natText item.low ++ '-' :: natText item.high

def CpuItem.cpus (item : CpuItem) : List Nat :=
  List.range' item.low (item.high - item.low + 1)

/-- A set of CPUs as the kernel writes it, in ascending order. -/
structure CpuList where
  items : List CpuItem
  ascending : items.Pairwise fun item later => item.high < later.low

/-- The entries separated by commas. -/
def CpuList.text (list : CpuList) : Text :=
  List.intercalate [','] (list.items.map CpuItem.text)

def CpuList.cpus (list : CpuList) : List Nat :=
  list.items.flatMap CpuItem.cpus

/-! ### The tree -/

/-- The directory `cache` of a CPU: the shared CPU lists of `index0`, `index1`, ... and the number of other
entries. -/
structure CacheDir where
  lists : List CpuList
  others : Nat

/-- The sysfs tree. `cpus n` are the ids of the entries `cpu<id>` of `node<n>`, in the order in which `ls`
lists them. -/
structure Sysfs where
  nodeIds : List Nat
  nodeIds_nodup : nodeIds.Nodup
  nodeIds_int : ∀ node ∈ nodeIds, node < 2 ^ 31
  cpus : Nat → List Nat
  cpus_nodup : ∀ node, (cpus node).Nodup
  cpus_node : ∀ node cpu, cpu ∈ cpus node → node ∈ nodeIds
  cpus_owner : ∀ node node' cpu, cpu ∈ cpus node → cpu ∈ cpus node' → node = node'
  packageId : Nat → Option Int
  cacheDir : Nat → CacheDir

-- Named, so that the literals of `ℕ+` are the same terms in every module.
instance neZero_two : NeZero 2 := ⟨by decide⟩

instance neZero_three : NeZero 3 := ⟨by decide⟩

/-- The constants of `archTopo.h`. `MAXCORESSOCKET` is empty unless `topology.sh` found a CPU in package 0,
and it is counted up from there. -/
structure ArchTopo where
  isnuma : Bool
  maxnodes : Nat
  maxcpus : Nat
  cpusnode : Nat
  socketsnode : Nat
  maxcoressocket : Option ℕ+

/-- `cat /sys/devices/system/cpu/cpu{cpu}/cache/index{index}/shared_cpu_list`; nothing is printed for a
file that is not there. -/
def Sysfs.sharedCpuList (fs : Sysfs) (cpu index : Int) : Text :=
  if 0 ≤ cpu ∧ 0 ≤ index then
    match (fs.cacheDir cpu.toNat).lists[index.toNat]? with
    | some list => list.text ++ ['\n']
    | none => []
  else []

/-! ### Facts about CPU lists -/

theorem length_cpus (item : CpuItem) : item.cpus.length = item.high - item.low + 1 := by
  simp [CpuItem.cpus]

theorem mem_itemText {item : CpuItem} {c : Char} (member : c ∈ item.text) :
    c = '-' ∨ c.isDigit = true := by
  unfold CpuItem.text at member
  split at member
  · exact Or.inr (isDigit_of_mem_natText member)
  · rcases List.mem_append.mp member with low | rest
    · exact Or.inr (isDigit_of_mem_natText low)
    · rcases List.mem_cons.mp rest with dash | high
      · exact Or.inl dash
      · exact Or.inr (isDigit_of_mem_natText high)

/-- Joining with commas adds one comma between neighbours. -/
theorem count_intercalate {cells : List Text} {c : Char} (clean : ∀ cell ∈ cells, c ∉ cell)
    (separator : Char) :
    (List.intercalate [separator] cells).count c = if c = separator then cells.length - 1 else 0 := by
  induction cells with
  | nil => simp
  | cons cell cells ih =>
      have here : cell.count c = 0 := List.count_eq_zero.mpr (clean cell (by simp))
      have rest := ih fun other member => clean other (by simp [member])
      cases cells with
      | nil => simp [here]
      | cons next cells =>
          rw [List.intercalate_cons_cons, List.append_assoc, List.singleton_append,
            List.count_append, List.count_cons, here, rest]
          by_cases same : c = separator
          · simp [same]
          · simp [same, Ne.symm same]

theorem count_comma_text (list : CpuList) : list.text.count ',' = list.items.length - 1 := by
  have clean : ∀ cell ∈ list.items.map CpuItem.text, ',' ∉ cell := by
    intro cell member comma
    obtain ⟨item, -, rfl⟩ := List.mem_map.mp member
    rcases mem_itemText comma with dash | digit
    · exact absurd dash (by decide)
    · exact absurd digit (by decide)
  simp [CpuList.text, count_intercalate clean]

theorem count_newline_text (list : CpuList) : list.text.count '\n' = 0 := by
  have clean : ∀ cell ∈ list.items.map CpuItem.text, '\n' ∉ cell := by
    intro cell member newline
    obtain ⟨item, -, rfl⟩ := List.mem_map.mp member
    rcases mem_itemText newline with dash | digit
    · exact absurd dash (by decide)
    · exact absurd digit (by decide)
  simp [CpuList.text, count_intercalate clean]

/-- Every entry stands for at least one CPU. -/
theorem length_le_flatMap_cpus (items : List CpuItem) :
    items.length ≤ (items.flatMap CpuItem.cpus).length := by
  induction items with
  | nil => simp
  | cons item items ih =>
      simp only [List.flatMap_cons, List.length_append, length_cpus, List.length_cons]
      omega

theorem length_items_le (list : CpuList) : list.items.length ≤ list.cpus.length :=
  length_le_flatMap_cpus list.items

/-- The entries are as many as the CPUs exactly when none of them is a range. -/
theorem length_items_eq_iff (list : CpuList) :
    list.items.length = list.cpus.length ↔ ∀ item ∈ list.items, item.low = item.high := by
  unfold CpuList.cpus
  induction list.items with
  | nil => simp
  | cons item items ih =>
      have atLeast := length_le_flatMap_cpus items
      have ordered := item.ordered
      simp only [List.flatMap_cons, List.length_append, length_cpus, List.length_cons,
        List.forall_mem_cons, ← ih]
      omega

/-! ### Building trees -/

/-- The list of one CPU. -/
def CpuList.single (cpu : Nat) : CpuList where
  items := [{ low := cpu, high := cpu, ordered := Nat.le_refl cpu }]
  ascending := List.pairwise_singleton _ _

/-- The list of the CPUs from `low` to `high`. -/
def CpuList.range (low high : Nat) (ordered : low ≤ high) : CpuList where
  items := [{ low := low, high := high, ordered := ordered }]
  ascending := List.pairwise_singleton _ _

/-- Two CPUs that the kernel does not write as a range. -/
def CpuList.pair (first second : Nat) (apart : first + 1 < second) : CpuList where
  items := [{ low := first, high := first, ordered := Nat.le_refl first },
    { low := second, high := second, ordered := Nat.le_refl second }]
  ascending := List.pairwise_pair.mpr (Nat.lt_of_succ_lt apart)

theorem exists_of_mem_getD {nodes : List (List Nat)} {node cpu : Nat}
    (member : cpu ∈ nodes.getD node []) : ∃ inside : node < nodes.length, cpu ∈ nodes[node] := by
  rw [List.getD_eq_getElem?_getD] at member
  cases found : nodes[node]? with
  | none => simp [found] at member
  | some cpus =>
      obtain ⟨inside, same⟩ := List.getElem?_eq_some_iff.mp found
      rw [found, Option.getD_some] at member
      exact ⟨inside, same ▸ member⟩

/-- A machine whose nodes are numbered from zero. -/
def Sysfs.ofNodes (nodes : List (List Nat)) (few : nodes.length ≤ 2 ^ 31)
    (distinct : nodes.flatten.Nodup) (packageId : Nat → Option Int) (cacheDir : Nat → CacheDir) :
    Sysfs where
  nodeIds := List.range nodes.length
  nodeIds_nodup := List.nodup_range
  nodeIds_int node member := Nat.lt_of_lt_of_le (List.mem_range.mp member) few
  cpus node := nodes.getD node []
  cpus_nodup node := by
    rw [List.getD_eq_getElem?_getD]
    cases found : nodes[node]? with
    | none => exact List.nodup_nil
    | some cpus => exact (List.nodup_flatten.mp distinct).1 cpus (List.mem_of_getElem? found)
  cpus_node node cpu member := List.mem_range.mpr (exists_of_mem_getD member).1
  cpus_owner node node' cpu here there := by
    obtain ⟨hn, here⟩ := exists_of_mem_getD here
    obtain ⟨hn', there⟩ := exists_of_mem_getD there
    have apart := List.pairwise_iff_getElem.mp (List.nodup_flatten.mp distinct).2
    rcases Nat.lt_trichotomy node node' with less | same | more
    · exact absurd there (apart node node' hn hn' less here)
    · exact same
    · exact absurd here (apart node' node hn' hn more there)
  packageId := packageId
  cacheDir := cacheDir

end Numafac
