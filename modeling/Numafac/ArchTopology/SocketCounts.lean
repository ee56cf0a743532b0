/-
Module: Numafac.ArchTopology.SocketCounts
Layer: ArchTopology
Purpose: The number of sockets of `node0` and the number of cores of the largest socket, as
  `topology.sh` writes them into the macros and as `get_sockets_node` and `get_cpussockets` count them.
  Both pairs take a short cut: the largest package id for the number of packages, and package 0 for the
  largest package. `socketStatisticsRight_iff` says for which assignments of package ids the short cuts
  give the statistics.
Trusted boundary: the translation of `get_sockets_node` and `get_cpussockets`
Main exports: getSocketsNode, getCpussockets, getCpussockets_eq, nodePackageIds, packageCpus,
  SocketStatisticsRight, socketStatisticsRight_iff
-/
import Mathlib.Data.Finset.Max
import Mathlib.Data.Int.ConditionallyCompleteOrder
import Mathlib.Data.Int.Interval
import Numafac.ArchTopology.Macros

namespace Numafac

/-- `get_sockets_node`. -/
def getSocketsNode (m : Machine) : Int :=
  printedCount ((m.cpus 0).map m.packageId)

/-- The body of the loop of `get_cpussockets`: `tmp` keeps its value when a file cannot be read. -/
def countCore (fs : Sysfs) (state : Nat × Option Int) (i : Nat) : CResult (Nat × Option Int) := do
  let (maxCoresS, tmp) := state
  let tmp := (fs.packageId i).or tmp
  match tmp with
  | none => .error .uninitialised
  | some package => if package = 0 then pure (maxCoresS + 1, tmp) else pure (maxCoresS, tmp)

/-- `get_cpussockets`. -/
def getCpussockets (topo : ArchTopo) (fs : Sysfs) : CResult Nat := do
  let maxCores := topo.maxcpus
  let (maxCoresS, _) ← forRange 0 maxCores (countCore fs) (0, none)
  pure maxCoresS

/-! ### The statistics -/

/-- The package ids of the CPUs of `node0`. -/
def nodePackageIds (m : Machine) : Finset Int :=
  ((m.cpus 0).filterMap m.packageId).toFinset

/-- The CPUs of a package. -/
def packageCpus (m : Machine) (package : Int) : Finset Nat :=
  m.cpuDirs.toFinset.filter fun cpu => m.packageId cpu = some package

/-- The number of CPUs that one package holds, for a package that holds the most. -/
def LargestPackage (m : Machine) (cores : Nat) : Prop :=
  (∀ package, (packageCpus m package).card ≤ cores) ∧ ∃ package, (packageCpus m package).card = cores

/-- These macros and the two functions give the statistics. -/
structure StatisticsRight (m : Machine) (topo : ArchTopoMacros) : Prop where
  cachedSockets : topo.socketsnode = (nodePackageIds m).card
  liveSockets : getSocketsNode m = (nodePackageIds m).card
  cachedCores : ∃ cores, naGetCpussockets topo.toArchTopo = .ok cores ∧ LargestPackage m cores
  liveCores : ∃ cores, getCpussockets topo.toArchTopo m.toSysfs = .ok cores ∧ LargestPackage m cores

/-- `topology.sh` writes macros, and these and the two functions give the statistics. -/
def SocketStatisticsRight (m : Machine) : Prop :=
  ∃ topo, topologySh m = some topo ∧ StatisticsRight m topo

/-! ### The loop over the CPUs -/

/-- The package id that `tmp` holds before the CPU `i` is read. -/
def lastReadable (packageId : Nat → Option Int) : Nat → Option Int
  | 0 => none
  | i + 1 => (packageId i).or (lastReadable packageId i)

theorem lastReadable_ne_none {packageId : Nat → Option Int} (first : packageId 0 ≠ none) (i : Nat) :
    lastReadable packageId (i + 1) ≠ none := by
  induction i with
  | zero => simpa [lastReadable] using first
  | succ i ih =>
      rw [lastReadable]
      cases packageId (i + 1) with
      | none => exact ih
      | some package => simp

/-- The number of CPUs so far whose last readable package id is 0. -/
def coresSoFar (packageId : Nat → Option Int) (i : Nat) : Nat :=
  Nat.count (fun cpu => lastReadable packageId (cpu + 1) = some 0) i

theorem countCore_eq {fs : Sysfs} (first : fs.packageId 0 ≠ none) (i : Nat) :
    countCore fs (coresSoFar fs.packageId i, lastReadable fs.packageId i) i =
      .ok (coresSoFar fs.packageId (i + 1), lastReadable fs.packageId (i + 1)) := by
  have readable := lastReadable_ne_none first i
  obtain ⟨package, last⟩ := Option.ne_none_iff_exists'.mp readable
  have tmp : (fs.packageId i).or (lastReadable fs.packageId i) = some package := last
  have next : coresSoFar fs.packageId (i + 1) =
      if package = 0 then coresSoFar fs.packageId i + 1 else coresSoFar fs.packageId i := by
    rw [coresSoFar, Nat.count_succ, last]
    by_cases zero : package = 0
    · rw [if_pos (congrArg some zero), if_pos zero]
      rfl
    · rw [if_neg fun same => zero (Option.some.inj same), if_neg zero]
      rfl
  simp only [countCore, tmp, next, last]
  split
  · rfl
  · rfl

/-- The cores are counted by the last package id that could be read; the first one has to be readable. -/
theorem getCpussockets_eq (topo : ArchTopo) (fs : Sysfs) :
    getCpussockets topo fs =
      if topo.maxcpus = 0 ∨ fs.packageId 0 ≠ none then .ok (coresSoFar fs.packageId topo.maxcpus)
      else .error .uninitialised := by
  by_cases none? : topo.maxcpus = 0
  · rw [if_pos (Or.inl none?), getCpussockets, none?, forRange_self]
    rfl
  by_cases first : fs.packageId 0 = none
  · have unset : countCore fs (0, none) 0 = .error .uninitialised := by simp [countCore, first]
    rw [if_neg (by simp [none?, first]), getCpussockets, forRange_step (Nat.pos_of_ne_zero none?), unset]
    rfl
  · obtain ⟨final, ran, same⟩ := @forRange_ok _ 0 topo.maxcpus (countCore fs) (0, none)
      (fun i state => state = (coresSoFar fs.packageId i, lastReadable fs.packageId i))
      (Nat.zero_le _) (by simp [coresSoFar, lastReadable])
      (fun i state _ _ here => ⟨_, here ▸ countCore_eq first i, rfl⟩)
    rw [if_pos (Or.inr first), getCpussockets, ran, same]
    rfl

/-- A CPU counts as one of package 0 when it is, or when it cannot be read and follows one. -/
theorem coresSoFar_eq (packageId : Nat → Option Int) (n : Nat) :
    coresSoFar packageId n =
      Nat.count (fun cpu => packageId cpu = some 0) n +
        Nat.count (fun cpu => packageId cpu = none ∧ lastReadable packageId cpu = some 0) n := by
  induction n with
  | zero => simp [coresSoFar]
  | succ n ih =>
      rw [coresSoFar] at ih
      rw [coresSoFar, Nat.count_succ, Nat.count_succ, Nat.count_succ, ih]
      cases here : packageId n with
      | none =>
          simp only [lastReadable, here, Option.none_or, true_and, reduceCtorEq, if_false]
          split
          · omega
          · omega
      | some package =>
          simp only [lastReadable, here, Option.some_or, reduceCtorEq, false_and, if_false]
          omega

/-- No unreadable CPU is counted exactly when none directly follows a CPU of package 0. -/
theorem count_stale_eq_zero_iff {packageId : Nat → Option Int} {n : Nat} :
    Nat.count (fun cpu => packageId cpu = none ∧ lastReadable packageId cpu = some 0) n = 0 ↔
      ∀ cpu, cpu + 1 < n → packageId cpu = some 0 → packageId (cpu + 1) ≠ none := by
  rw [Nat.count_iff_forall_not]
  constructor
  · intro fresh cpu inside zero unreadable
    exact fresh (cpu + 1) inside ⟨unreadable, by rw [lastReadable, zero, Option.some_or]⟩
  · rintro follows cpu inside ⟨unreadable, stale⟩
    induction cpu with
    | zero => cases stale
    | succ cpu ih =>
        cases before : packageId cpu with
        | none =>
            rw [lastReadable, before, Option.none_or] at stale
            exact ih (Nat.lt_of_succ_lt inside) before stale
        | some package =>
            rw [lastReadable, before, Option.some_or] at stale
            exact follows cpu inside (before.trans stale) unreadable

/-! ### The exact condition -/

section Statistics

variable {m : Machine}

/-- The package ids of `node0` are numbered so that their largest gives their number, and the subscripts
stay in the array. -/
structure SocketIdsRegular (m : Machine) : Prop where
  valid : PackagesValid ((m.cpus 0).map m.packageId)
  largest : ∃ package ∈ nodePackageIds m, (∀ other ∈ nodePackageIds m, other ≤ package) ∧
    ((nodePackageIds m).card : Int) = max 1 (package + 1)

/-- Package 0 is a largest one, and its CPUs have ids below the number of CPU directories. -/
structure PackageZeroLargest (m : Machine) : Prop where
  nonempty : (packageCpus m 0).Nonempty
  largest : ∀ package, (packageCpus m package).card ≤ (packageCpus m 0).card
  below : ∀ cpu ∈ packageCpus m 0, cpu < m.cpuDirs.length

/-- CPU 0 can be read, and so can every CPU directly after one of package 0. -/
structure ReadableAfterZero (m : Machine) : Prop where
  first : m.packageId 0 ≠ none
  after : ∀ cpu, cpu + 1 < m.cpuDirs.length → m.packageId cpu = some 0 → m.packageId (cpu + 1) ≠ none

theorem mem_nodePackageIds {package : Int} :
    package ∈ nodePackageIds m ↔ some package ∈ (m.cpus 0).map m.packageId := by
  simp [nodePackageIds]

/-- For ids that are not negative: they are the numbers from 0 to the largest. -/
theorem socketIdsRegular_iff_of_nonneg (nonneg : ∀ package ∈ nodePackageIds m, 0 ≤ package) :
    SocketIdsRegular m ↔ ∃ last : Int, 0 ≤ last ∧ nodePackageIds m = Finset.Icc 0 last := by
  constructor
  · rintro ⟨-, last, member, largest, card⟩
    have low := nonneg last member
    have inside : nodePackageIds m ⊆ Finset.Icc 0 last := fun package member =>
      Finset.mem_Icc.mpr ⟨nonneg package member, largest package member⟩
    have same : (nodePackageIds m).card = (Finset.Icc 0 last).card := by
      rw [Int.card_Icc]
      omega
    exact ⟨last, low, Finset.eq_of_subset_of_card_le inside same.ge⟩
  · rintro ⟨last, low, all⟩
    refine ⟨packagesValid_of_nonneg fun id listed => ?_, last, ?_, ?_, ?_⟩
    · cases id with
      | none => exact le_rfl
      | some package => exact nonneg package (mem_nodePackageIds.mpr listed)
    · exact all ▸ Finset.mem_Icc.mpr ⟨low, le_rfl⟩
    · exact fun other member => (Finset.mem_Icc.mp (all ▸ member)).2
    · rw [all, Int.card_Icc]
      omega

theorem getSocketsNode_eq_card_iff :
    getSocketsNode m = (nodePackageIds m).card ↔ SocketIdsRegular m := by
  by_cases valid : PackagesValid ((m.cpus 0).map m.packageId)
  · obtain ⟨positive, bound, reached⟩ := printedCount_eq valid
    simp only [← mem_nodePackageIds] at bound reached
    change 1 ≤ getSocketsNode m at positive
    change ∀ p ∈ nodePackageIds m, p + 1 ≤ getSocketsNode m at bound
    change getSocketsNode m = 1 ∨ ∃ p ∈ nodePackageIds m, getSocketsNode m = p + 1 at reached
    -- the count is the larger of one and the successor of the largest id
    have count : ∀ package ∈ nodePackageIds m, (∀ other ∈ nodePackageIds m, other ≤ package) →
        getSocketsNode m = max 1 (package + 1) := by
      intro package member largest
      have successor := bound package member
      rcases reached with one | ⟨other, member', same⟩
      · omega
      · have below := largest other member'
        omega
    constructor
    · intro same
      have nonempty : (nodePackageIds m).Nonempty := by
        apply Finset.card_pos.mp
        omega
      have member := (nodePackageIds m).max'_mem nonempty
      have largest := fun other member => (nodePackageIds m).le_max' other member
      exact ⟨valid, _, member, largest, same.symm.trans (count _ member largest)⟩
    · rintro ⟨-, package, member, largest, card⟩
      exact (count package member largest).trans card.symm
  · constructor
    · intro same
      have stopped : getSocketsNode m = -1 := printedCount_of_not_valid valid
      omega
    · exact fun regular => absurd regular.valid valid

/-- The script keeps what the function prints. -/
theorem socketsnode_eq_card (numa : 1 ∈ m.nodeIds) (regular : SocketIdsRegular m) :
    ∃ topo, topologySh m = some topo ∧ topo.socketsnode = (nodePackageIds m).card := by
  have live := getSocketsNode_eq_card_iff.mpr regular
  have seen : m.seenPackages = (m.cpus 0).map m.packageId := if_pos numa
  refine ⟨_, topologySh_eq_some_iff.mpr ⟨seen ▸ regular.valid, rfl⟩, ?_⟩
  rw [if_pos numa, seen]
  change (getSocketsNode m).toNat = _
  rw [live, Int.toNat_natCast]

section Written

variable {topo : ArchTopoMacros} (written : topologySh m = some topo)

include written

/-- Both branches write the number of CPUs of package 0 below the number of CPU directories. -/
theorem naGetCpussockets_eq_ok_iff {cores : Nat} :
    naGetCpussockets topo.toArchTopo = .ok cores ↔
      0 < cores ∧ cores = Nat.count (fun cpu => m.packageId cpu = some 0) m.cpuDirs.length := by
  obtain ⟨-, -, -, -, field⟩ := topologySh_common written
  have counted := coresOfPackageZero_eq m.packageId m.cpuDirs.length
  rw [naGetCpussockets, field, ← counted]
  cases coresOfPackageZero m.packageId m.cpuDirs.length with
  | none =>
      constructor
      · intro empty
        cases empty
      · rintro ⟨positive, none?⟩
        exact absurd none? (Nat.pos_iff_ne_zero.mp positive)
  | some found =>
      constructor
      · intro same
        obtain rfl := Except.ok.inj same
        exact ⟨found.pos, rfl⟩
      · rintro ⟨-, same⟩
        exact congrArg Except.ok same.symm

end Written

/-- The CPUs that the macro counts are CPUs of package 0. -/
theorem count_packageZero :
    Nat.count (fun cpu => m.packageId cpu = some 0) m.cpuDirs.length =
      ((packageCpus m 0).filter (· < m.cpuDirs.length)).card := by
  rw [Nat.count_eq_card_filter_range]
  congr 1
  ext cpu
  simp only [packageCpus, Finset.mem_filter, Finset.mem_range, List.mem_toFinset]
  constructor
  · exact fun ⟨inside, zero⟩ => ⟨⟨m.package_listed cpu 0 zero, zero⟩, inside⟩
  · exact fun ⟨⟨_, zero⟩, inside⟩ => ⟨inside, zero⟩

theorem cachedCores_iff {topo : ArchTopoMacros} (written : topologySh m = some topo) :
    (∃ cores, naGetCpussockets topo.toArchTopo = .ok cores ∧ LargestPackage m cores) ↔
      PackageZeroLargest m := by
  simp only [naGetCpussockets_eq_ok_iff written, count_packageZero]
  have part := Finset.card_filter_le (packageCpus m 0) (· < m.cpuDirs.length)
  constructor
  · rintro ⟨cores, ⟨positive, counted⟩, most, -⟩
    have zero := most 0
    have all : ((packageCpus m 0).filter (· < m.cpuDirs.length)).card = (packageCpus m 0).card := by
      omega
    refine ⟨Finset.card_pos.mp (by omega), fun package => (most package).trans (by omega), ?_⟩
    exact Finset.card_filter_eq_iff.mp all
  · rintro ⟨nonempty, largest, below⟩
    have all : ((packageCpus m 0).filter (· < m.cpuDirs.length)).card = (packageCpus m 0).card :=
      Finset.card_filter_eq_iff.mpr below
    exact ⟨(packageCpus m 0).card, ⟨Finset.card_pos.mpr nonempty, all.symm⟩, largest, 0, rfl⟩

/-- The largest number is unique. -/
theorem LargestPackage.unique {cores cores' : Nat} (first : LargestPackage m cores)
    (second : LargestPackage m cores') : cores = cores' := by
  obtain ⟨most, package, reached⟩ := first
  obtain ⟨most', package', reached'⟩ := second
  have low := most' package
  have high := most package'
  omega

/-- The function counts the same CPUs as the macro exactly when every CPU it needs can be read. -/
theorem liveCores_iff {topo : ArchTopoMacros} (written : topologySh m = some topo) (numa : 1 ∈ m.nodeIds)
    (zero : PackageZeroLargest m) :
    (∃ cores, getCpussockets topo.toArchTopo m.toSysfs = .ok cores ∧ LargestPackage m cores) ↔
      ReadableAfterZero m := by
  obtain ⟨cached, counted, largest⟩ := (cachedCores_iff written).mpr zero
  obtain ⟨positive, counted⟩ := (naGetCpussockets_eq_ok_iff written).mp counted
  have maxcpus : topo.maxcpus = m.cpuDirs.length := by
    obtain ⟨-, -, -, counted, -⟩ := topologySh_common written
    rw [counted, Machine.countedCpus, if_pos numa]
  have some? : m.cpuDirs.length ≠ 0 := by
    intro none?
    rw [counted, none?, Nat.count_zero] at positive
    cases positive
  rw [getCpussockets_eq, maxcpus]
  constructor
  · rintro ⟨cores, ran, largest'⟩
    have first : m.packageId 0 ≠ none := by
      intro unreadable
      rw [if_neg (by simp [some?, unreadable])] at ran
      cases ran
    rw [if_pos (Or.inr first), coresSoFar_eq] at ran
    have same := largest.unique largest'
    have sum := Except.ok.inj ran
    exact ⟨first, count_stale_eq_zero_iff.mp (by omega)⟩
  · rintro ⟨first, after⟩
    refine ⟨cached, ?_, largest⟩
    rw [if_pos (Or.inr first), coresSoFar_eq, count_stale_eq_zero_iff.mpr after, Nat.add_zero, ← counted]

/-- On a machine with several nodes the macros are written and give the statistics with the functions exactly
when the ids of `node0` are regular, package 0 is a largest one, and the CPUs after its CPUs can be read. -/
theorem socketStatisticsRight_iff (numa : 1 ∈ m.nodeIds) :
    SocketStatisticsRight m ↔ SocketIdsRegular m ∧ PackageZeroLargest m ∧ ReadableAfterZero m := by
  constructor
  · rintro ⟨topo, written, -, liveSockets, cachedCores, liveCores⟩
    have zero := (cachedCores_iff written).mp cachedCores
    exact ⟨getSocketsNode_eq_card_iff.mp liveSockets, zero, (liveCores_iff written numa zero).mp liveCores⟩
  · rintro ⟨regular, zero, readable⟩
    obtain ⟨topo, written, cachedSockets⟩ := socketsnode_eq_card numa regular
    exact ⟨topo, written, cachedSockets, getSocketsNode_eq_card_iff.mpr regular,
      (cachedCores_iff written).mpr zero, (liveCores_iff written numa zero).mpr readable⟩

end Statistics

theorem offlineNodes_distinct : [[0, 1], [2]].flatten.Nodup := by decide

/-- Two nodes of two CPUs. The first two CPUs are in package 0, and the last CPU is offline. -/
def twoNodesOffline : Machine :=
  .ofNodes [[0, 1], [2]] [some 0, some 0, some 1, none] { lists := [.single 0], others := 0 } [32]
    (some 4096) 8192 offlineNodes_distinct (by decide) (by decide) (by decide) (by decide) (by decide)

theorem socketStatisticsRight_iff_twoNodes : SocketStatisticsRight twoNodesOffline := by
  refine (socketStatisticsRight_iff (by decide)).mpr
    ⟨⟨packagesValid_of_nonneg (by decide), 0, by decide, by decide, by decide⟩,
      ⟨by decide, fun package => ?_, by decide⟩, ⟨by decide, fun cpu inside => ?_⟩⟩
  · by_cases known : some package ∈ [some 0, some (1 : Int), none]
    · rcases List.mem_cons.mp known with same | known
      · cases same
        exact le_rfl
      · obtain rfl : package = 1 := by simpa using known
        decide
    · have other : packageCpus twoNodesOffline package = ∅ := by
        rw [packageCpus, Finset.filter_eq_empty_iff]
        intro cpu listed found
        have ids : ∀ cpu ∈ twoNodesOffline.cpuDirs.toFinset,
            twoNodesOffline.packageId cpu ∈ [some 0, some (1 : Int), none] := by decide
        exact known (found ▸ ids cpu listed)
      simp [other]
  · have after : ∀ cpu < 3, twoNodesOffline.packageId cpu = some 0 →
        twoNodesOffline.packageId (cpu + 1) ≠ none := by decide
    exact after cpu (Nat.lt_of_succ_lt_succ inside)

theorem pairNodes_distinct : [[0, 1], [2, 3]].flatten.Nodup := by decide

theorem pairNodes_few : [[0, 1], [2, 3]].length < 2 ^ 31 := by decide

/-- Both CPUs of `node0` are in package 1. -/
def packageOne : Machine :=
  .ofNodes [[0, 1], [2, 3]] [some 1, some 1, some 0, some 0] { lists := [.single 0], others := 0 } [32]
    (some 4096) 8192 pairNodes_distinct (by decide) pairNodes_few (by decide) (by decide) (by decide)

/-- Two sockets are counted for the one package. -/
theorem not_socketStatisticsRight_packageOne : ¬ SocketStatisticsRight packageOne := by
  rintro ⟨topo, -, -, liveSockets, -⟩
  exact absurd liveSockets (by decide)

end Numafac
