/-
Module: Numafac.ArchTopology.Macros
Layer: ArchTopology
Purpose: The machine as `topology.sh` queries it, and the macros that its two branches write into
  `archTopo.h`. The loop over package ids is an array with a counter: an unreadable id is an empty word,
  which counts as zero, and a negative id is a subscript from the end of the array. `packageLoop_spec`
  says which sequences of ids the loop survives, and with which count; after any other sequence
  `topology.sh` writes no macros.
Trusted boundary: the translation of the shell loops, with `bash` as the shell that `popen` starts; after a
  subscript in front of the array `bash` abandons the whole command at the top level that it is in, for
  `topology.sh` the `if` with both branches, and a shell that `popen` started prints nothing
Main exports: Machine, packageLoop, packageLoop_spec, printedCount_eq, ArchTopoMacros, numaMacros,
  umaMacros, topologySh, topologySh_eq_some_iff, coresOfPackageZero_eq
-/
import Mathlib.Data.Nat.Count
import Numafac.ArchTopology.SocketCpus

namespace Numafac

/-- A machine: its sysfs tree, the directories `/sys/devices/system/cpu/cpu[0-9]*`, the sizes of the caches of
`cpu0` in kilobytes, and the memory of `node0` and of the whole machine. An offline CPU has a directory
without a package id. -/
structure Machine extends Sysfs where
  cpuDirs : List Nat
  cpuDirs_nodup : cpuDirs.Nodup
  cpuDirs_int : cpuDirs.length < 2 ^ 31
  nodeIds_few : nodeIds.length < 2 ^ 31
  cpus_listed : ∀ node, ∀ cpu ∈ cpus node, cpu ∈ cpuDirs
  package_listed : ∀ cpu package, packageId cpu = some package → cpu ∈ cpuDirs
  package_int : ∀ cpu package, packageId cpu = some package → package + 1 < 2 ^ 31
  cacheSize : Nat → Option Nat
  cacheSize_listed : ∀ index size, cacheSize index = some size →
    index < (cacheDir 0).lists.length ∧ size < 2 ^ 31
  nodeMemTotal : Option Nat
  memTotal : Nat

/-! ### The loop over the package ids -/

/-- The array `PACKAGE`, by its largest index, and `PACKAGE_COUNT`. -/
structure PackageState where
  top : Int
  count : Int
deriving DecidableEq

/-- Before the loop: no element, and `PACKAGE_COUNT=1`. -/
def PackageState.start : PackageState where
  top := -1
  count := 1

/-- `PACKAGE[${p}]+=...; if [ ${PACKAGE_COUNT} -lt $((${p}+1)) ]; then let PACKAGE_COUNT=$((${p}+1)); fi`,
or nothing after a bad subscript. -/
def packageStep (state : PackageState) (p : Int) : Option PackageState :=
  let subscript := if p < 0 then state.top + 1 + p else p
  if subscript < 0 then none
  else some
    { top := max state.top subscript
      count := if state.count < p + 1 then p + 1 else state.count }

/-- The loop. An empty word is zero, as a subscript and in `$((${p}+1))`. -/
def packageLoop (ids : List (Option Int)) : Option PackageState :=
  (ids.map (·.getD 0)).foldlM packageStep PackageState.start

/-- `PACKAGE_COUNT` behind the loop, if `bash` gets there. -/
def packageCount (ids : List (Option Int)) : Option Int :=
  (packageLoop ids).map (·.count)

/-- What `echo ${PACKAGE_COUNT}` at the end of a shell that `popen` started leaves in `total_sock`. -/
def printedCount (ids : List (Option Int)) : Int :=
  (packageCount ids).getD (-1)

/-- `if [ $cpu -eq 0 ]; then let MAXCORESSOCKET=$MAXCORESSOCKET+1; fi` over the CPUs below a number. The
variable is empty before the first increment, and the test fails for an empty word. -/
def coresOfPackageZero (packageId : Nat → Option Int) (cpuPossibleCount : Nat) : Option ℕ+ :=
  (List.range cpuPossibleCount).foldl
    (fun maxcoressocket i =>
      if packageId i = some 0 then some (maxcoressocket.elim 1 (· + 1)) else maxcoressocket) none

/-! ### The macros -/

/-- All macros of `archTopo.h` that the library reads. A macro is empty when its query printed nothing. -/
structure ArchTopoMacros extends ArchTopo where
  llc : Int
  l1cache : Option Nat
  totalmem : Option Nat
  maxsockets : Int

/-- The files `cpu{i}/topology/physical_package_id` below `node0`, for `i` below the number of its CPUs. -/
def Machine.nodePackages (m : Machine) : List (Option Int) :=
  (List.range (m.cpus 0).length).map fun i => if i ∈ m.cpus 0 then m.packageId i else none

/-- The branch for a machine with a directory `node1`, behind the loop over the package ids. -/
def numaMacros (m : Machine) (packageCount : Int) : ArchTopoMacros where
  isnuma := true
  maxnodes := m.nodeIds.length
  maxcpus := m.cpuDirs.length
  cpusnode := (m.cpus 0).length
  socketsnode := packageCount.toNat
  maxcoressocket := coresOfPackageZero m.packageId m.cpuDirs.length
  llc := (m.cacheDir 0).lists.length - 1
  l1cache := m.cacheSize 0
  totalmem := m.nodeMemTotal
  maxsockets := 0

/-- The other branch. `CPU_POSSIBLE_COUNT` is overwritten with the number of CPUs of `node0` before the
macros are written, and after the cores of package 0 are counted. -/
def umaMacros (m : Machine) (packageCount : Int) : ArchTopoMacros where
  isnuma := false
  maxnodes := 0
  maxcpus := (m.cpus 0).length
  cpusnode := 0
  socketsnode := 0
  maxcoressocket := coresOfPackageZero m.packageId m.cpuDirs.length
  llc := (m.cacheDir 0).lists.length - 1
  l1cache := m.cacheSize 0
  totalmem := m.nodeMemTotal
  maxsockets := packageCount

/-- The ids that the loop of the branch goes over. -/
def Machine.seenPackages (m : Machine) : List (Option Int) :=
  if 1 ∈ m.nodeIds then (m.cpus 0).map m.packageId else m.nodePackages

/-- `if [ -d "${SYSFS_NODE}/node1" ]`: the macros, or none after a bad subscript. -/
def topologySh (m : Machine) : Option ArchTopoMacros :=
  (packageCount m.seenPackages).map (if 1 ∈ m.nodeIds then numaMacros m else umaMacros m)

/-! ### Facts about the loops -/

/-- Every negative number of a sequence is a subscript into the array that the numbers before it left. -/
def SubscriptsValid (top : Int) (ids : List Int) : Prop :=
  ∀ front p back, ids = front ++ p :: back → p < 0 → 0 ≤ top + 1 + p ∨ ∃ q ∈ front, 0 ≤ q + 1 + p

theorem subscriptsValid_cons {top p : Int} {ids : List Int} :
    SubscriptsValid top (p :: ids) ↔
      (p < 0 → 0 ≤ top + 1 + p) ∧ SubscriptsValid (max top p) ids := by
  constructor
  · intro valid
    refine ⟨fun negative => ?_, fun front p' back shape negative => ?_⟩
    · rcases valid [] p ids rfl negative with inside | ⟨q, member, -⟩
      · exact inside
      · cases member
    · rcases valid (p :: front) p' back (by rw [shape]; rfl) negative with inside | ⟨q, member, inside⟩
      · exact Or.inl (by omega)
      · rcases List.mem_cons.mp member with rfl | member
        · exact Or.inl (by omega)
        · exact Or.inr ⟨q, member, inside⟩
  · rintro ⟨first, rest⟩ front p' back shape negative
    cases front with
    | nil =>
        cases shape
        exact Or.inl (first negative)
    | cons p'' front =>
        obtain ⟨rfl, tails⟩ := List.cons.inj shape
        rcases rest front p' back tails negative with inside | ⟨q, member, inside⟩
        · rcases le_total top p with below | above
          · exact Or.inr ⟨p, by simp, by omega⟩
          · exact Or.inl (by omega)
        · exact Or.inr ⟨q, by simp [member], inside⟩

/-- What one pass does. -/
theorem packageStep_eq {state : PackageState} {p : Int} (start : -1 ≤ state.top) :
    packageStep state p =
      if p < 0 ∧ state.top + 1 + p < 0 then none
      else some { top := max state.top p, count := max state.count (p + 1) } := by
  have larger : (if state.count < p + 1 then p + 1 else state.count) = max state.count (p + 1) := by
    split <;> omega
  rw [packageStep]
  by_cases negative : p < 0
  · simp only [negative, true_and, if_true, larger]
    split
    · rfl
    · congr 2
      omega
  · simp only [negative, false_and, if_false, larger]

/-- The loop, from any array and counter. -/
theorem packageSteps_eq (ids : List Int) {state : PackageState} (start : -1 ≤ state.top) :
    (SubscriptsValid state.top ids → ∃ top, ids.foldlM packageStep state =
        some ⟨top, ids.foldl (fun count p => max count (p + 1)) state.count⟩) ∧
      (¬ SubscriptsValid state.top ids → ids.foldlM packageStep state = none) := by
  induction ids generalizing state with
  | nil =>
      refine ⟨fun _ => ⟨state.top, rfl⟩, fun invalid => absurd ?_ invalid⟩
      intro front p back shape
      simp at shape
  | cons p ids ih =>
      rw [List.foldlM_cons, packageStep_eq start, subscriptsValid_cons]
      by_cases bad : p < 0 ∧ state.top + 1 + p < 0
      · rw [if_pos bad]
        exact ⟨fun valid => absurd (valid.1 bad.1) (by omega), fun _ => rfl⟩
      · have first : p < 0 → 0 ≤ state.top + 1 + p := by omega
        have next := @ih { top := max state.top p, count := max state.count (p + 1) }
          (start.trans (le_max_left _ _))
        rw [if_neg bad]
        exact ⟨fun valid => next.1 valid.2, fun invalid => next.2 fun valid => invalid ⟨first, valid⟩⟩

/-- The sequence of package ids that the loop sees. -/
def PackagesValid (ids : List (Option Int)) : Prop :=
  SubscriptsValid (-1) (ids.map (·.getD 0))

/-- The loop ends with the largest successor of an id, or stops at a bad subscript. -/
theorem packageLoop_spec (ids : List (Option Int)) :
    (PackagesValid ids → ∃ top, packageLoop ids =
        some ⟨top, (ids.map (·.getD 0)).foldl (fun count p => max count (p + 1)) 1⟩) ∧
      (¬ PackagesValid ids → packageLoop ids = none) :=
  @packageSteps_eq (ids.map (·.getD 0)) PackageState.start (le_refl (-1))

/-- The script and a shell that `popen` started have the same count, if they get to it. -/
theorem packageCount_eq (ids : List (Option Int)) :
    (PackagesValid ids → packageCount ids = some (printedCount ids)) ∧
      (¬ PackagesValid ids → packageCount ids = none) := by
  obtain ⟨survives, stops⟩ := packageLoop_spec ids
  constructor
  · intro valid
    obtain ⟨top, ran⟩ := survives valid
    rw [printedCount, packageCount, ran]
    rfl
  · intro invalid
    rw [packageCount, stops invalid]
    rfl

/-- The macros are written exactly when all subscripts are good. -/
theorem topologySh_eq_some_iff {m : Machine} {topo : ArchTopoMacros} :
    topologySh m = some topo ↔ PackagesValid m.seenPackages ∧
      (if 1 ∈ m.nodeIds then numaMacros m else umaMacros m) (printedCount m.seenPackages) = topo := by
  obtain ⟨survives, stops⟩ := packageCount_eq m.seenPackages
  rw [topologySh]
  by_cases valid : PackagesValid m.seenPackages
  · rw [survives valid, Option.map_some, Option.some.injEq]
    exact (and_iff_right valid).symm
  · rw [stops valid]
    simp [valid]

/-- The number of CPUs that the functions go through. -/
def Machine.countedCpus (m : Machine) : Nat :=
  if 1 ∈ m.nodeIds then m.cpuDirs.length else (m.cpus 0).length

/-- Both branches write these macros. -/
theorem topologySh_common {m : Machine} {topo : ArchTopoMacros} (written : topologySh m = some topo) :
    topo.llc = (m.cacheDir 0).lists.length - 1 ∧ topo.l1cache = m.cacheSize 0 ∧
      topo.totalmem = m.nodeMemTotal ∧ topo.maxcpus = m.countedCpus ∧
      topo.maxcoressocket = coresOfPackageZero m.packageId m.cpuDirs.length := by
  obtain ⟨-, rfl⟩ := topologySh_eq_some_iff.mp written
  by_cases numa : 1 ∈ m.nodeIds
  · simp [numaMacros, Machine.countedCpus, numa]
  · simp [umaMacros, Machine.countedCpus, numa]

/-- The count of a loop that ends is where it began or the successor of an id. -/
theorem packageMax_spec (ids : List Int) (count : Int) :
    let last := ids.foldl (fun count p => max count (p + 1)) count
    count ≤ last ∧ (∀ p ∈ ids, p + 1 ≤ last) ∧ (last = count ∨ ∃ p ∈ ids, last = p + 1) := by
  induction ids generalizing count with
  | nil => simp
  | cons p ids ih =>
      obtain ⟨grown, bound, reached⟩ := ih (max count (p + 1))
      rw [List.foldl_cons]
      refine ⟨(le_max_left _ _).trans grown, ?_, ?_⟩
      · intro q member
        rcases List.mem_cons.mp member with rfl | member
        · exact (le_max_right _ _).trans grown
        · exact bound q member
      · rcases reached with same | ⟨q, member, same⟩
        · rcases max_choice count (p + 1) with first | first
          · exact Or.inl (same.trans first)
          · exact Or.inr ⟨p, by simp, same.trans first⟩
        · exact Or.inr ⟨q, by simp [member], same⟩

/-- What the loop prints when it ends: one, or one more than the largest id if that is larger. -/
theorem printedCount_eq {ids : List (Option Int)} (valid : PackagesValid ids) :
    1 ≤ printedCount ids ∧ (∀ p : Int, some p ∈ ids → p + 1 ≤ printedCount ids) ∧
      (printedCount ids = 1 ∨ ∃ p : Int, some p ∈ ids ∧ printedCount ids = p + 1) := by
  obtain ⟨top, ran⟩ := (packageLoop_spec ids).1 valid
  obtain ⟨grown, bound, reached⟩ := packageMax_spec (ids.map (·.getD 0)) 1
  have printed : printedCount ids =
      (ids.map (·.getD 0)).foldl (fun count p => max count (p + 1)) 1 := by
    rw [printedCount, packageCount, ran]
    rfl
  rw [← printed] at grown bound reached
  refine ⟨grown, fun p member => bound p (List.mem_map.mpr ⟨some p, member, rfl⟩), ?_⟩
  rcases reached with same | ⟨q, member, same⟩
  · exact Or.inl same
  · obtain ⟨id, listed, rfl⟩ := List.mem_map.mp member
    cases id with
    | none => exact Or.inl same
    | some p => exact Or.inr ⟨p, listed, same⟩

/-- Ids that are not negative are subscripts into any array. -/
theorem packagesValid_of_nonneg {ids : List (Option Int)} (nonneg : ∀ id ∈ ids, 0 ≤ id.getD 0) :
    PackagesValid ids := by
  intro front p back shape negative
  have member : p ∈ ids.map (·.getD 0) := by simp [shape]
  obtain ⟨id, listed, rfl⟩ := List.mem_map.mp member
  exact absurd negative (Int.not_lt.mpr (nonneg id listed))

theorem printedCount_of_not_valid {ids : List (Option Int)} (invalid : ¬ PackagesValid ids) :
    printedCount ids = -1 := by
  rw [printedCount, (packageCount_eq ids).2 invalid]
  rfl

/-- The number of CPUs in package 0, if there are any. -/
theorem coresOfPackageZero_eq (packageId : Nat → Option Int) (cpuPossibleCount : Nat) :
    (coresOfPackageZero packageId cpuPossibleCount).elim 0 (fun cores => (cores : Nat)) =
      Nat.count (fun cpu => packageId cpu = some 0) cpuPossibleCount := by
  induction cpuPossibleCount with
  | zero => rfl
  | succ n ih =>
      rw [coresOfPackageZero, List.range_succ, List.foldl_append, Nat.count_succ, ← ih]
      by_cases zero : packageId n = some 0
      · simp only [List.foldl_cons, List.foldl_nil, if_pos zero]
        rw [coresOfPackageZero]
        cases (List.range n).foldl _ none with
        | none => rfl
        | some cores => rfl
      · simp only [List.foldl_cons, List.foldl_nil, if_neg zero]
        rfl

/-! ### Building machines -/

/-- A machine whose nodes are numbered from zero and whose CPUs are numbered from zero in `packages`. -/
def Machine.ofNodes (nodes : List (List Nat)) (packages : List (Option Int)) (cacheDir : CacheDir)
    (sizes : List Nat) (nodeMemTotal : Option Nat) (memTotal : Nat)
    (distinct : nodes.flatten.Nodup) (listed : ∀ cpus ∈ nodes, ∀ cpu ∈ cpus, cpu < packages.length)
    (fewNodes : nodes.length < 2 ^ 31) (fewCpus : packages.length < 2 ^ 31)
    (smallIds : ∀ id ∈ packages, id.getD 0 + 1 < 2 ^ 31)
    (smallSizes : sizes.length ≤ cacheDir.lists.length ∧ ∀ size ∈ sizes, size < 2 ^ 31) :
    Machine where
  toSysfs := Sysfs.ofNodes nodes (Nat.le_of_lt fewNodes) distinct
    (fun cpu => (packages[cpu]?).join) fun _ => cacheDir
  cpuDirs := List.range packages.length
  cpuDirs_nodup := List.nodup_range
  cpuDirs_int := by rwa [List.length_range]
  nodeIds_few := (List.length_range (n := nodes.length)).trans_lt fewNodes
  cpus_listed node cpu member := by
    obtain ⟨inside, here⟩ := exists_of_mem_getD member
    exact List.mem_range.mpr (listed _ (List.getElem_mem inside) cpu here)
  package_listed cpu package found :=
    List.mem_range.mpr (List.getElem?_eq_some_iff.mp (Option.join_eq_some_iff.mp found)).1
  package_int cpu package found :=
    smallIds (some package) (List.mem_of_getElem? (Option.join_eq_some_iff.mp found))
  cacheSize index := sizes[index]?
  cacheSize_listed index size found :=
    ⟨(List.getElem?_eq_some_iff.mp found).1.trans_le smallSizes.1,
      smallSizes.2 size (List.mem_of_getElem? found)⟩
  nodeMemTotal := nodeMemTotal
  memTotal := memTotal

end Numafac
