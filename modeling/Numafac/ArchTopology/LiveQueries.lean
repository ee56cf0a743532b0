/-
Module: Numafac.ArchTopology.LiveQueries
Layer: ArchTopology
Purpose: The functions that ask the running system, next to the functions that return the macros which
  `topology.sh` wrote on the same machine. `queriesAgree_iff` says for each pair on which machines the
  two answers are equal, and that on no machine all of them are: where there are several nodes
  `MAXSOCKETS` is the constant 0, and elsewhere `SOCKETSNODE` is.
Trusted boundary: the translation of the two families of functions; a macro fits the type it is returned
  as
Main exports: fscanfInt, Query, cachedQuery, liveQuery, QueryAgrees, QueryAgreesWhen, answersAgree_iff,
  queriesAgree_iff
-/
import Numafac.ArchTopology.NodeOfCpu
import Numafac.ArchTopology.SocketCounts

namespace Numafac

/-- `fscanf(fp_nodes,"%d",&value)` on the output of a command that prints a number or nothing. -/
def fscanfInt (value : Int) (printed : Option Nat) : CResult Int :=
  match printed with
  | none => .ok value
  | some n => if n < 2 ^ 31 then .ok (n : Int) else .error .intOverflow

/-- The conversion to `unsigned long`. -/
def unsignedLong (value : Int) : Int :=
  value % 2 ^ 64

/-! ### The live functions -/

/-- `get_maxnodes`. -/
def getMaxnodes (m : Machine) : CResult Int :=
  fscanfInt 1 (some m.nodeIds.length)

/-- `get_maxcpus`. -/
def getMaxcpus (m : Machine) : CResult Int :=
  fscanfInt (-1) (some m.cpuDirs.length)

/-- `get_cpusnode`. -/
def getCpusnode (m : Machine) : CResult Int :=
  fscanfInt (-1) (some (m.cpus 0).length)

/-- `get_totalmem`. -/
def getTotalmem (m : Machine) : CResult Int := do
  let mem ← fscanfInt (-1) (some m.memTotal)
  pure (unsignedLong mem)

/-- The output of `cat /sys/devices/system/cpu/cpu0/cache/index{index}/size | tr -d 'K'`. -/
def Machine.printedCacheSize (m : Machine) (index : Int) : Option Nat :=
  if 0 ≤ index then m.cacheSize index.toNat else none

/-- `get_totalcache`: the number of index directories goes through `char cachel[2]`. -/
def getTotalcache (m : Machine) : CResult Int := do
  let cachel ← storeString 2 (natText (m.cacheDir 0).lists.length)
  let cl ← atoi cachel
  let cl := cl - 1
  let memNode ← fscanfInt 0 (m.printedCacheSize cl)
  pure (unsignedLong memNode)

/-- `get_tcache`. -/
def getTcache (m : Machine) : CResult Int := do
  let memNode ← fscanfInt 0 (m.printedCacheSize 0)
  pure (unsignedLong memNode)

/-- `get_sockets`. -/
def getSockets (m : Machine) : Int :=
  printedCount m.nodePackages

/-! ### The cached functions -/

/-- A macro that may be empty: `return` without a value. -/
def returnMacro (value : Option Nat) : CResult Int :=
  match value with
  | some n => .ok (n : Int)
  | none => .error .noValue

/-- The quantities that are computed twice. -/
inductive Query where
  | maxnodes
  | maxcpus
  | cpusnode
  | totalcache
  | tcache
  | totalmem
  | sockets
  | socketsNode
  | cpussockets
deriving DecidableEq, Repr

/-- `na_get_maxnodes`, `na_get_maxcpus`, and so on. -/
def cachedQuery (topo : ArchTopoMacros) : Query → CResult Int
  | .maxnodes => .ok topo.maxnodes
  | .maxcpus => .ok topo.maxcpus
  | .cpusnode => .ok topo.cpusnode
  | .totalcache => .ok (unsignedLong topo.llc)
  | .tcache => returnMacro topo.l1cache
  | .totalmem => returnMacro topo.totalmem
  | .sockets => .ok topo.maxsockets
  | .socketsNode => .ok topo.socketsnode
  | .cpussockets => do
      let cores ← naGetCpussockets topo.toArchTopo
      pure (cores : Int)

/-- `get_maxnodes`, `get_maxcpus`, and so on. -/
def liveQuery (m : Machine) (topo : ArchTopo) : Query → CResult Int
  | .maxnodes => getMaxnodes m
  | .maxcpus => getMaxcpus m
  | .cpusnode => getCpusnode m
  | .totalcache => getTotalcache m
  | .tcache => getTcache m
  | .totalmem => getTotalmem m
  | .sockets => .ok (getSockets m)
  | .socketsNode => .ok (getSocketsNode m)
  | .cpussockets => do
      let cores ← getCpussockets topo m.toSysfs
      pure (cores : Int)

/-- With these macros both functions return, and they return the same. -/
def AnswersAgree (m : Machine) (topo : ArchTopoMacros) (query : Query) : Prop :=
  ∃ value, cachedQuery topo query = .ok value ∧ liveQuery m topo.toArchTopo query = .ok value

/-- `topology.sh` writes macros with which the two functions agree. -/
def QueryAgrees (m : Machine) (query : Query) : Prop :=
  ∃ topo, topologySh m = some topo ∧ AnswersAgree m topo query

/-! ### When they agree -/

/-- What a machine whose macros are written has to be like for each pair. -/
def QueryAgreesWhen (m : Machine) : Query → Prop
  | .maxnodes => 1 ∈ m.nodeIds ∨ m.nodeIds = []
  | .maxcpus => 1 ∈ m.nodeIds ∨ (m.cpus 0).length = m.cpuDirs.length
  | .cpusnode => 1 ∈ m.nodeIds ∨ m.cpus 0 = []
  -- the index of the last-level cache is its size
  | .totalcache => ∃ index < 9, (m.cacheDir 0).lists.length = index + 1 ∧
      (m.cacheSize index).getD 0 = index
  | .tcache => m.cacheSize 0 ≠ none
  -- the memory of `node0` is all there is
  | .totalmem => m.nodeMemTotal = some m.memTotal ∧ m.memTotal < 2 ^ 31
  | .sockets => 1 ∉ m.nodeIds
  | .socketsNode => 1 ∈ m.nodeIds
  -- the CPUs of package 0 that the function does not reach are as many as those it counts wrongly
  | .cpussockets => m.packageId 0 ≠ none ∧ (∃ cpu < m.cpuDirs.length, m.packageId cpu = some 0) ∧
      Nat.count (fun i => m.packageId (m.countedCpus + i) = some 0) (m.cpuDirs.length - m.countedCpus) =
        Nat.count (fun cpu => m.packageId cpu = none ∧ lastReadable m.packageId cpu = some 0) m.countedCpus

section Pairs

variable {m : Machine} {topo : ArchTopoMacros}

theorem topologySh_numa (written : topologySh m = some topo) (numa : 1 ∈ m.nodeIds) :
    topo = numaMacros m (getSocketsNode m) := by
  obtain ⟨-, rfl⟩ := topologySh_eq_some_iff.mp written
  rw [Machine.seenPackages, if_pos numa, if_pos numa]
  rfl

theorem topologySh_uma (written : topologySh m = some topo) (uma : 1 ∉ m.nodeIds) :
    topo = umaMacros m (getSockets m) := by
  obtain ⟨-, rfl⟩ := topologySh_eq_some_iff.mp written
  rw [Machine.seenPackages, if_neg uma, if_neg uma]
  rfl

theorem length_cpus_le : (m.cpus 0).length ≤ m.cpuDirs.length :=
  (List.subperm_of_subset (m.cpus_nodup 0) (m.cpus_listed 0)).length_le

theorem fscanfInt_some {value : Int} {n : Nat} (small : n < 2 ^ 31) :
    fscanfInt value (some n) = .ok (n : Int) :=
  if_pos small

/-- Two functions that return agree when they return the same. -/
theorem exists_ok_iff {cached live : Int} :
    (∃ value, (.ok cached : CResult Int) = .ok value ∧ (.ok live : CResult Int) = .ok value) ↔
      cached = live := by
  constructor
  · rintro ⟨value, first, second⟩
    exact (Except.ok.inj first).trans (Except.ok.inj second).symm
  · rintro rfl
    exact ⟨cached, rfl, rfl⟩

theorem maxnodes_agrees_iff (written : topologySh m = some topo) :
    AnswersAgree m topo .maxnodes ↔ QueryAgreesWhen m .maxnodes := by
  simp only [AnswersAgree, cachedQuery, liveQuery, getMaxnodes, fscanfInt_some m.nodeIds_few,
    exists_ok_iff, QueryAgreesWhen]
  by_cases numa : 1 ∈ m.nodeIds
  · simp [topologySh_numa written numa, numaMacros, numa]
  · have empty : m.nodeIds = [] ↔ m.nodeIds.length = 0 := List.length_eq_zero_iff.symm
    simp only [topologySh_uma written numa, umaMacros, numa, empty, false_or]
    omega

theorem maxcpus_agrees_iff (written : topologySh m = some topo) :
    AnswersAgree m topo .maxcpus ↔ QueryAgreesWhen m .maxcpus := by
  simp only [AnswersAgree, cachedQuery, liveQuery, getMaxcpus, fscanfInt_some m.cpuDirs_int,
    exists_ok_iff, QueryAgreesWhen]
  by_cases numa : 1 ∈ m.nodeIds
  · simp [topologySh_numa written numa, numaMacros, numa]
  · simp only [topologySh_uma written numa, umaMacros, numa, false_or]
    omega

theorem cpusnode_agrees_iff (written : topologySh m = some topo) :
    AnswersAgree m topo .cpusnode ↔ QueryAgreesWhen m .cpusnode := by
  simp only [AnswersAgree, cachedQuery, liveQuery, getCpusnode,
    fscanfInt_some (length_cpus_le.trans_lt m.cpuDirs_int), exists_ok_iff, QueryAgreesWhen]
  by_cases numa : 1 ∈ m.nodeIds
  · simp [topologySh_numa written numa, numaMacros, numa]
  · have empty : m.cpus 0 = [] ↔ (m.cpus 0).length = 0 := List.length_eq_zero_iff.symm
    simp only [topologySh_uma written numa, umaMacros, numa, empty, false_or]
    omega

theorem unsignedLong_natCast {n : Nat} (small : n < 2 ^ 31) : unsignedLong (n : Int) = n := by
  rw [unsignedLong]
  omega

/-- A number that fits an `int` is returned as it is. -/
theorem unsignedLong_scanned (value : Int) {n : Nat} (small : n < 2 ^ 31) :
    (do
      let read ← fscanfInt value (some n)
      pure (unsignedLong read) : CResult Int) = .ok (n : Int) := by
  rw [fscanfInt_some small]
  exact congrArg Except.ok (unsignedLong_natCast small)

/-- The number of index directories fits `cachel` when it has one digit. -/
theorem getTotalcache_eq (m : Machine) :
    getTotalcache m =
      match (m.cacheDir 0).lists.length with
      | 0 => .ok 0
      | index + 1 => if index < 9 then .ok (((m.cacheSize index).getD 0 : Nat) : Int)
          else .error .outOfBounds := by
  have digit : ∀ n, (natText n).length < 2 ↔ n < 10 := fun n => by
    have short := @length_natText_le_iff n 1 (by decide)
    omega
  rw [getTotalcache]
  cases levels : (m.cacheDir 0).lists.length with
  | zero => rfl
  | succ index =>
      by_cases few : index < 9
      · have stored : storeString 2 (natText (index + 1)) = .ok (natText (index + 1)) :=
          if_pos ((digit _).mpr (by omega))
        have position : ((index + 1 : Nat) : Int) - 1 = index := by omega
        rw [stored]
        simp only [if_pos few]
        change ((atoi (natText (index + 1))).bind fun cl =>
          (fscanfInt 0 (m.printedCacheSize (cl - 1))).bind fun memNode => .ok (unsignedLong memNode)) = _
        rw [atoi_natText (by omega)]
        change ((fscanfInt 0 (m.printedCacheSize (((index + 1 : Nat) : Int) - 1))).bind fun memNode =>
          .ok (unsignedLong memNode)) = _
        rw [position, Machine.printedCacheSize, if_pos (Int.natCast_nonneg index), Int.toNat_natCast]
        cases found : m.cacheSize index with
        | none => rfl
        | some size => exact unsignedLong_scanned 0 (m.cacheSize_listed index size found).2
      · have long : storeString 2 (natText (index + 1)) = .error .outOfBounds :=
          if_neg fun short => few (by have := (digit _).mp short; omega)
        rw [long]
        simp only [if_neg few]
        rfl

theorem totalcache_agrees_iff (written : topologySh m = some topo) :
    AnswersAgree m topo .totalcache ↔ QueryAgreesWhen m .totalcache := by
  simp only [AnswersAgree, cachedQuery, liveQuery, (topologySh_common written).1, getTotalcache_eq,
    QueryAgreesWhen]
  cases levels : (m.cacheDir 0).lists.length with
  | zero =>
      -- the index -1 becomes the largest `unsigned long`
      simp only [exists_ok_iff]
      constructor
      · intro same
        exact absurd same (by decide)
      · rintro ⟨index, -, levels', -⟩
        cases levels'
  | succ index =>
      have position : unsignedLong (((index + 1 : Nat) : Int) - 1) = unsignedLong (index : Int) := by
        congr 1
        omega
      by_cases few : index < 9
      · simp only [if_pos few, exists_ok_iff, position, unsignedLong_natCast (few.trans (by decide))]
        constructor
        · exact fun same => ⟨index, few, rfl, by omega⟩
        · rintro ⟨index', -, levels', size⟩
          obtain rfl : index = index' := Nat.succ.inj levels'
          rw [size]
      · simp only [if_neg few]
        constructor
        · rintro ⟨value, -, fault⟩
          cases fault
        · rintro ⟨index', few', levels', -⟩
          omega

theorem tcache_agrees_iff (written : topologySh m = some topo) :
    AnswersAgree m topo .tcache ↔ QueryAgreesWhen m .tcache := by
  simp only [AnswersAgree, cachedQuery, liveQuery, (topologySh_common written).2.1, QueryAgreesWhen,
    getTcache]
  have printed : m.printedCacheSize 0 = m.cacheSize 0 := if_pos le_rfl
  rw [printed]
  cases found : m.cacheSize 0 with
  | none =>
      simp only [ne_eq, not_true_eq_false, iff_false]
      rintro ⟨value, empty, -⟩
      cases empty
  | some size =>
      have live := unsignedLong_scanned 0 (m.cacheSize_listed 0 size found).2
      simp only [live, returnMacro, exists_ok_iff]
      simp

theorem totalmem_agrees_iff (written : topologySh m = some topo) :
    AnswersAgree m topo .totalmem ↔ QueryAgreesWhen m .totalmem := by
  simp only [AnswersAgree, cachedQuery, liveQuery, (topologySh_common written).2.2.1, QueryAgreesWhen,
    getTotalmem]
  by_cases small : m.memTotal < 2 ^ 31
  · rw [unsignedLong_scanned (-1) small]
    cases m.nodeMemTotal with
    | none =>
        constructor
        · rintro ⟨value, empty, -⟩
          cases empty
        · rintro ⟨empty, -⟩
          cases empty
    | some total =>
        simp only [returnMacro, exists_ok_iff, small, and_true, Option.some.injEq]
        omega
  · have overflow : fscanfInt (-1) (some m.memTotal) = .error .intOverflow := if_neg small
    simp only [overflow, small, and_false, iff_false]
    rintro ⟨value, -, fault⟩
    cases fault

/-- The constant 0 is not a number that the function returns. -/
theorem printedCount_ne_zero (ids : List (Option Int)) : printedCount ids ≠ 0 := by
  by_cases valid : PackagesValid ids
  · have positive := (printedCount_eq valid).1
    omega
  · rw [printedCount_of_not_valid valid]
    decide

theorem sockets_agrees_iff (written : topologySh m = some topo) :
    AnswersAgree m topo .sockets ↔ QueryAgreesWhen m .sockets := by
  simp only [AnswersAgree, cachedQuery, liveQuery, exists_ok_iff, QueryAgreesWhen]
  by_cases numa : 1 ∈ m.nodeIds
  · simp only [topologySh_numa written numa, numa, not_true_eq_false, iff_false]
    exact fun same => printedCount_ne_zero _ same.symm
  · simp only [topologySh_uma written numa, umaMacros, numa, not_false_eq_true]

theorem socketsNode_agrees_iff (written : topologySh m = some topo) :
    AnswersAgree m topo .socketsNode ↔ QueryAgreesWhen m .socketsNode := by
  simp only [AnswersAgree, cachedQuery, liveQuery, exists_ok_iff, QueryAgreesWhen]
  by_cases numa : 1 ∈ m.nodeIds
  · obtain ⟨valid, -⟩ := topologySh_eq_some_iff.mp written
    rw [Machine.seenPackages, if_pos numa] at valid
    obtain ⟨positive, -⟩ := printedCount_eq valid
    simp only [topologySh_numa written numa, numaMacros, numa, iff_true]
    exact Int.toNat_of_nonneg (Int.le_of_lt positive)
  · simp only [topologySh_uma written numa, numa, iff_false]
    exact fun same => printedCount_ne_zero _ same.symm

theorem countedCpus_le : m.countedCpus ≤ m.cpuDirs.length := by
  rw [Machine.countedCpus]
  split
  · exact le_rfl
  · exact length_cpus_le

/-- The CPUs of package 0, below and from the number of counted CPUs. -/
theorem count_packageZero_split :
    Nat.count (fun cpu => m.packageId cpu = some 0) m.cpuDirs.length =
      Nat.count (fun cpu => m.packageId cpu = some 0) m.countedCpus +
        Nat.count (fun i => m.packageId (m.countedCpus + i) = some 0)
          (m.cpuDirs.length - m.countedCpus) := by
  rw [← Nat.count_add, Nat.add_sub_cancel' countedCpus_le]

theorem cpussockets_agrees_iff (written : topologySh m = some topo) :
    AnswersAgree m topo .cpussockets ↔ QueryAgreesWhen m .cpussockets := by
  obtain ⟨-, -, -, maxcpus, -⟩ := topologySh_common written
  have live := getCpussockets_eq topo.toArchTopo m.toSysfs
  rw [maxcpus, coresSoFar_eq] at live
  have split := @count_packageZero_split m
  constructor
  · rintro ⟨value, cached, ran⟩
    obtain ⟨cores, counted, value_eq⟩ := bind_eq_ok.mp cached
    obtain ⟨cores', counted', value_eq'⟩ := bind_eq_ok.mp ran
    obtain rfl : cores = cores' :=
      Int.ofNat_inj.mp ((Except.ok.inj value_eq).trans (Except.ok.inj value_eq').symm)
    obtain ⟨positive, counted⟩ := (naGetCpussockets_eq_ok_iff written).mp counted
    rw [live] at counted'
    have some? : m.countedCpus ≠ 0 := by
      intro none?
      rw [none?, if_pos (Or.inl rfl)] at counted'
      have zero := Except.ok.inj counted'
      simp only [Nat.count_zero] at zero
      omega
    have first : m.packageId 0 ≠ none := by
      intro unreadable
      rw [if_neg (by simp [some?, unreadable])] at counted'
      cases counted'
    rw [if_pos (Or.inr first)] at counted'
    have sum := Except.ok.inj counted'
    refine ⟨first, Nat.count_ne_iff_exists.mp (by omega), by omega⟩
  · rintro ⟨first, some?, balance⟩
    rw [if_pos (Or.inr first), ← balance, ← split] at live
    have cached := (naGetCpussockets_eq_ok_iff written).mpr
      ⟨Nat.pos_of_ne_zero (Nat.count_ne_iff_exists.mpr some?), rfl⟩
    refine ⟨_, bind_eq_ok.mpr ⟨_, cached, rfl⟩, bind_eq_ok.mpr ⟨_, live, rfl⟩⟩

/-- With the macros of the machine each pair agrees under its condition. -/
theorem answersAgree_iff (written : topologySh m = some topo) (query : Query) :
    AnswersAgree m topo query ↔ QueryAgreesWhen m query := by
  cases query with
  | maxnodes => exact maxnodes_agrees_iff written
  | maxcpus => exact maxcpus_agrees_iff written
  | cpusnode => exact cpusnode_agrees_iff written
  | totalcache => exact totalcache_agrees_iff written
  | tcache => exact tcache_agrees_iff written
  | totalmem => exact totalmem_agrees_iff written
  | sockets => exact sockets_agrees_iff written
  | socketsNode => exact socketsNode_agrees_iff written
  | cpussockets => exact cpussockets_agrees_iff written

/-- For each pair the condition says when the two functions agree, if macros are written at all, and on no
machine all pairs do. -/
theorem queriesAgree_iff (m : Machine) :
    (∀ query, QueryAgrees m query ↔ PackagesValid m.seenPackages ∧ QueryAgreesWhen m query) ∧
      ¬ ∀ query, QueryAgrees m query := by
  constructor
  · intro query
    constructor
    · rintro ⟨topo, written, agree⟩
      exact ⟨(topologySh_eq_some_iff.mp written).1, (answersAgree_iff written query).mp agree⟩
    · rintro ⟨valid, condition⟩
      have written := topologySh_eq_some_iff.mpr ⟨valid, rfl⟩
      exact ⟨_, written, (answersAgree_iff written query).mpr condition⟩
  · intro agree
    obtain ⟨_, written, sockets⟩ := agree .sockets
    obtain ⟨_, written', socketsNode⟩ := agree .socketsNode
    have uma := (sockets_agrees_iff written).mp sockets
    exact uma ((socketsNode_agrees_iff written').mp socketsNode)

end Pairs

/-- Two nodes of two CPUs, caches of 32, 32, 256 and 8192 kilobytes, and half of the memory in each node. -/
def fourLevels : Machine :=
  .ofNodes [[0, 1], [2, 3]] [some 0, some 0, some 1, some 1]
    { lists := [.single 0, .single 0, .single 0, .single 0], others := 0 } [32, 32, 256, 8192]
    (some 16777216) 33554432 pairNodes_distinct (by decide) pairNodes_few (by decide) (by decide)
    (by decide)

/-- The cached size of the last-level cache is its index 3, the live one is 8192. -/
theorem not_queriesAgree_fourLevels : ¬ ∀ query, QueryAgrees fourLevels query := by
  intro agree
  obtain ⟨topo, written, totalcache⟩ := agree .totalcache
  obtain ⟨index, -, levels, size⟩ := (totalcache_agrees_iff written).mp totalcache
  obtain rfl : 3 = index := Nat.succ.inj levels
  exact absurd size (by decide)

end Numafac
