/-
Module: Numafac.Latencies.CoreMatrix
Layer: Latencies
Purpose: The matrix of latencies between cores that `compute-latencies` writes. `main` counts processing
  units and looks up their nodes by the numbers of the operating system, and `coreFactor` takes the same
  numbers for positions of cores in the topology. The caches above the first processing unit are measured
  in their order there, and `coreFactor` looks a measurement up by the level of the cache.
  `coresMatrixRight_iff` compares every entry with the place of the two processing units in the topology.
Trusted boundary: the translation of `main` and `coreFactor`; the results of the measurements and the
  numbers of the latency table are arbitrary
Main exports: cacheLatencies, nodesMatrix, coreFactor, computeLatencies, LatencySource,
  CoresMatrixRight, LookupsAgree, coresMatrixRight_iff
-/
import Mathlib.Data.Rat.Defs
import Numafac.ArchTopology.NodeOfCpu
import Numafac.Base.Table
import Numafac.Latencies.Hwloc

namespace Numafac

section Program

variable (topo : ArchTopo) (fs : Sysfs) (t : HwlocTopology) (measure : Nat → Int → ℚ)
  (nodesFile : Nat → ℚ)

/-- `nb_nodes`. -/
def nbNodes : Nat :=
  let count := (t.objects (·.nodeIndex?.isSome)).length
  if count = 0 then 1 else count

/-- `nb_cores`. -/
def nbCores : Nat :=
  (t.objects (·.puIndex?.isSome)).length

/-- The body of `for (obj = ...; obj; obj = obj->parent)`. -/
def storeCacheSize (state : CArray Int × Nat) (obj : HwlocObj) : CResult (CArray Int × Nat) :=
  match obj with
  | .cache _ size => do
      let cacheSizes ← state.1.write state.2 (size : Int)
      pure (cacheSizes, state.2 + 1)
  | _ => pure state

/-- The objects that the loop walks over, from the first processing unit to the root. -/
def HwlocTopology.firstChain : List HwlocObj :=
  match t.getObjByType (·.puIndex?.isSome) 0 with
  | some path => t.tree.lineage path
  | none => []

/-- `cache_sizes` after that loop. -/
def cacheSizes : CResult (CArray Int) := do
  let (cacheSizes, _) ← t.firstChain.foldlM storeCacheSize (CArray.filled [0, 0, 0], 0)
  pure cacheSizes

/-- `cache_latencies`, where `measure k len` is what call number `k` of `compute_latency(len)` returns. -/
def cacheLatencies : CResult (CArray ℚ) := do
  let cacheSizes ← cacheSizes t
  let first ← cacheSizes.read 0
  let second ← cacheSizes.read 1
  let third ← cacheSizes.read 2
  pure (CArray.filled [measure 0 (first.tdiv 2), measure 1 ((second - first).tdiv 2),
    measure 2 ((third - second).tdiv 2)])

/-- `nodes_matrix`, where `nodesFile k` is number `k` of `latency_lmbench.minas`. -/
def nodesMatrix : CResult (CArray (CArray ℚ)) :=
  fillArray (nbNodes t) fun i => fillArray (nbNodes t) fun j => .ok (nodesFile (i * nbNodes t + j))

/-- `cpus_to_nodes`. -/
def cpusToNodes (hashCpuNode : CArray Int) : CResult (CArray Int) :=
  if topo.isnuma then fillArray (nbCores t) (naGetNodeidcpu hashCpuNode)
  else .ok (CArray.filled (List.replicate (nbCores t) 0))

/-- `m[row][column]`. -/
def cellOf (m : CArray (CArray ℚ)) (row column : Int) : CResult ℚ := do
  let elements ← m.readAt row
  elements.readAt column

/-- `coreFactor`. -/
def coreFactor (cacheLatencies : CArray ℚ) (nodesMatrix : CArray (CArray ℚ)) (cpusToNodes : CArray Int)
    (i j : Nat) : CResult ℚ :=
  if i ≠ j then do
    let core1 := t.getObjByType HwlocObj.isCore i
    let core2 := t.getObjByType HwlocObj.isCore j
    let ancestor ← t.getCommonAncestorObj core1 core2
    match ancestor with
    | .cache depth _ => cacheLatencies.readAt ((depth : Int) - 1)
    | _ => do
        let node ← cpusToNodes.read i
        cellOf nodesMatrix node node
  else cacheLatencies.read 0

/-- `cores_matrix`. -/
def coresMatrix (cacheLatencies : CArray ℚ) (nodesMatrix : CArray (CArray ℚ))
    (cpusToNodes : CArray Int) : CResult (CArray (CArray ℚ)) :=
  fillArray (nbCores t) fun i => do
    let currentNode ← cpusToNodes.read i
    fillArray (nbCores t) fun j => do
      let node ← cpusToNodes.read j
      if node = currentNode then coreFactor t cacheLatencies nodesMatrix cpusToNodes i j
      else cellOf nodesMatrix currentNode node

/-- `main`, up to the printing of `cores_matrix`. -/
def computeLatencies : CResult (CArray (CArray ℚ)) := do
  let hashCpuNode ← loadHash topo fs
  let cpusToNodes ← cpusToNodes topo t hashCpuNode
  let cacheLatencies ← cacheLatencies t measure
  let nodesMatrix ← nodesMatrix t nodesFile
  coresMatrix t cacheLatencies nodesMatrix cpusToNodes

end Program

/-! ### What the matrix is for -/

/-- Where the latency between two processing units is found: in an element of `cache_latencies` or in the
table of the nodes. -/
inductive LatencySource where
  | cache (slot : Nat)
  | nodes (row column : Int)
deriving DecidableEq

/-- The latency at a source. -/
def LatencySource.latency (cacheLatencies : CArray ℚ) (nodesMatrix : CArray (CArray ℚ)) :
    LatencySource → CResult ℚ
  | cache slot => cacheLatencies.read slot
  | nodes row column => cellOf nodesMatrix row column

/-- The element of `cache_latencies` in which a cache of a level is measured: `main` measures the caches above
the first processing unit, in their order there. -/
def HwlocTopology.cacheSlot (t : HwlocTopology) (depth : Nat) : Option Nat :=
  (t.firstChain.filterMap HwlocObj.cacheDepth?).idxOf? depth

/-- The measurement of the smallest cache that contains two processing units of one node, if its level is
measured at all; where they share no cache or are on different nodes, the table of their nodes. -/
def puSource (t : HwlocTopology) (pu pu' : Path) : Option LatencySource :=
  if t.nodeOf pu = t.nodeOf pu' then
    match t.sharedCache pu pu' with
    | some depth => (t.cacheSlot depth).map .cache
    | none => some (.nodes (t.nodeOf pu) (t.nodeOf pu))
  else some (.nodes (t.nodeOf pu) (t.nodeOf pu'))

/-- Whatever is measured, `main` completes, and the entry of two processing units is the latency at their
source, or the first cache latency on the diagonal. -/
def CoresMatrixRight (topo : ArchTopo) (fs : Sysfs) (t : HwlocTopology) : Prop :=
  ∀ (measure : Nat → Int → ℚ) (nodesFile : Nat → ℚ), ∃ latencies nodes matrix,
    cacheLatencies t measure = .ok latencies ∧ nodesMatrix t nodesFile = .ok nodes ∧
    computeLatencies topo fs t measure nodesFile = .ok matrix ∧
    ∀ i < nbCores t, ∀ j < nbCores t, ∀ pu pu', t.puAt i = some pu → t.puAt j = some pu' →
      ∃ v, cellOf matrix i j = .ok v ∧
        if i = j then latencies.read 0 = .ok v
        else ∃ source, puSource t pu pu' = some source ∧ source.latency latencies nodes = .ok v

/-! ### What it asks of the topology -/

/-- The node id that the table gives a CPU. -/
def nodeidOf (topo : ArchTopo) (fs : Sysfs) (cpu : Nat) : CResult Int :=
  if topo.isnuma then getNodeidcpu topo fs cpu else .ok 0

/-- Two numbers with the same node id are also positions of cores, and the deepest common ancestor of these
cores tells whether the processing units with these numbers share a cache, and in which element of
`cache_latencies` that one is measured. -/
def CoresAgree (t : HwlocTopology) (node : Int) (i j : Nat) : Prop :=
  ∃ p q obj, t.getObjByType HwlocObj.isCore i = some p ∧ t.getObjByType HwlocObj.isCore j = some q ∧
    t.tree.label? (commonPrefix p q) = some obj ∧
    match obj.cacheDepth? with
    | some depth => ∀ pu pu', t.puAt i = some pu → t.puAt j = some pu' →
        t.nodeOf pu = t.nodeOf pu' ∧ (t.sharedCache pu pu').bind t.cacheSlot = some (depth - 1)
    | none => (0 ≤ node ∧ node < nbNodes t) ∧ ∀ pu pu', t.puAt i = some pu → t.puAt j = some pu' →
        (t.nodeOf pu = node ∧ t.nodeOf pu' = node) ∧ t.sharedCache pu pu' = none

/-- Different node ids are in the table and are the nodes of the processing units. -/
def NodesAgree (t : HwlocTopology) (node node' : Int) (i j : Nat) : Prop :=
  (0 ≤ node ∧ node < nbNodes t) ∧ (0 ≤ node' ∧ node' < nbNodes t) ∧
    ∀ pu pu', t.puAt i = some pu → t.puAt j = some pu' → t.nodeOf pu = node ∧ t.nodeOf pu' = node'

/-- The numbers of the processing units can be used in all the places where they are used. -/
structure LookupsAgree (topo : ArchTopo) (fs : Sysfs) (t : HwlocTopology) : Prop where
  loaded : ∀ cpu < topo.maxcpus, ∃ node, getNodeidcpu topo fs cpu = .ok node
  large : topo.isnuma = true → nbCores t ≤ topo.maxcpus
  pairs : ∀ i < nbCores t, ∀ j < nbCores t, i ≠ j → ∀ node node',
    nodeidOf topo fs i = .ok node → nodeidOf topo fs j = .ok node' →
      if node = node' then CoresAgree t node i j else NodesAgree t node node' i j

/-! ### The tables of `main` -/

section Tables

variable {topo : ArchTopo} {fs : Sysfs} {t : HwlocTopology}

theorem storeCacheSize_other {state : CArray Int × Nat} {obj : HwlocObj}
    (other : obj.cacheDepth? = none) : storeCacheSize state obj = .ok state := by
  unfold storeCacheSize
  split
  · cases other
  · rfl

/-- The sizes of three caches have room. -/
theorem storeCacheSizes_ok {objs : List HwlocObj} {sizes : List Int} {level : Nat}
    (length : sizes.length = 3) (room : level + objs.countP (·.cacheDepth?.isSome) ≤ 3) :
    ∃ sizes' level', objs.foldlM storeCacheSize (CArray.filled sizes, level) =
      .ok (CArray.filled sizes', level') ∧ sizes'.length = 3 := by
  induction objs generalizing sizes level with
  | nil => exact ⟨sizes, level, rfl, length⟩
  | cons obj objs ih =>
      rw [List.countP_cons] at room
      rw [List.foldlM_cons]
      cases depth : obj.cacheDepth? with
      | none =>
          obtain ⟨sizes', level', rest, length'⟩ := @ih sizes level length (by omega)
          exact ⟨sizes', level', bind_eq_ok.mpr ⟨_, storeCacheSize_other depth, rest⟩, length'⟩
      | some d =>
          obtain ⟨size, rfl⟩ := HwlocObj.eq_cache_of_cacheDepth? depth
          have isCache : (HwlocObj.cache d size).cacheDepth?.isSome = true := rfl
          rw [if_pos isCache] at room
          have inside : level < (CArray.filled sizes).length := by
            rw [CArray.length_filled]
            omega
          have stored : storeCacheSize (CArray.filled sizes, level) (.cache d size) =
              .ok (CArray.filled (sizes.set level (size : Int)), level + 1) := by
            rw [storeCacheSize, CArray.write_ok inside, CArray.filled, CArray.filled, List.map_set]
            rfl
          obtain ⟨sizes', level', rest, length'⟩ :=
            @ih (sizes.set level (size : Int)) (level + 1) (by rw [List.length_set, length]) (by omega)
          exact ⟨sizes', level', bind_eq_ok.mpr ⟨_, stored, rest⟩, length'⟩

/-- Three latencies are measured, for sizes that do not depend on the measurements. -/
theorem cacheLatencies_eq (t : HwlocTopology) : ∃ first second third : Int, ∀ measure,
    cacheLatencies t measure =
      .ok (CArray.filled [measure 0 first, measure 1 second, measure 2 third]) := by
  have ran : ∃ sizes : List Int, cacheSizes t = .ok (CArray.filled sizes) ∧ sizes.length = 3 := by
    have room : t.firstChain.countP (·.cacheDepth?.isSome) ≤ 3 := by
      unfold HwlocTopology.firstChain
      cases first : t.getObjByType (·.puIndex?.isSome) 0 with
      | none => exact Nat.zero_le 3
      | some path => exact t.levels path (List.mem_of_mem_filter (List.mem_of_getElem? first))
    obtain ⟨sizes, level, ran, length⟩ := @storeCacheSizes_ok _ [0, 0, 0] 0 rfl
      ((Nat.zero_add _).trans_le room)
    exact ⟨sizes, bind_eq_ok.mpr ⟨_, ran, rfl⟩, length⟩
  obtain ⟨sizes, ran, length⟩ := ran
  obtain ⟨first, second, third, rfl⟩ := List.length_eq_three.mp length
  refine ⟨first.tdiv 2, (second - first).tdiv 2, (third - second).tdiv 2, fun measure => ?_⟩
  rw [cacheLatencies, ran]
  rfl

theorem cellOf_of_row {m : CArray (CArray ℚ)} {elements : CArray ℚ} {i j : Nat}
    (row : m.read i = .ok elements) : cellOf m i j = elements.read j := by
  simp [cellOf, CArray.readAt, row, bind, Except.bind]

/-- A number outside the table is no index. -/
theorem cellOf_nodesMatrix (t : HwlocTopology) (nodesFile : Nat → ℚ) : ∃ nodes,
    nodesMatrix t nodesFile = .ok nodes ∧ ∀ row column : Int, cellOf nodes row column =
      if (0 ≤ row ∧ row < nbNodes t) ∧ 0 ≤ column ∧ column < nbNodes t then
        .ok (nodesFile (row.toNat * nbNodes t + column.toNat))
      else .error .outOfBounds := by
  have rows : ∀ i, ∃ elements, fillArray (nbNodes t) (fun j =>
      (.ok (nodesFile (i * nbNodes t + j)) : CResult ℚ)) = .ok elements := fun i =>
    fillArray_ok fun j _ => ⟨_, rfl⟩
  obtain ⟨nodes, ran⟩ : ∃ nodes, nodesMatrix t nodesFile = .ok nodes :=
    fillArray_ok fun i _ => rows i
  obtain ⟨length, entries⟩ := read_fillArray ran
  refine ⟨nodes, ran, fun row column => ?_⟩
  by_cases hrow : 0 ≤ row ∧ row < nbNodes t
  · obtain ⟨elements, filled⟩ := rows row.toNat
    obtain ⟨width, cells⟩ := read_fillArray filled
    have read : nodes.readAt row = .ok elements := by
      rw [CArray.readAt, if_pos hrow.1, (entries row.toNat (by omega)).1, filled]
    rw [cellOf, read]
    by_cases hcolumn : 0 ≤ column ∧ column < nbNodes t
    · rw [if_pos ⟨hrow, hcolumn⟩]
      change elements.readAt column = _
      rw [CArray.readAt, if_pos hcolumn.1, (cells column.toNat (by omega)).1]
    · rw [if_neg fun both => hcolumn both.2]
      change elements.readAt column = _
      unfold CArray.readAt
      split
      · exact CArray.read_of_length_le (by omega)
      · rfl
  · have read : nodes.readAt row = .error .outOfBounds := by
      unfold CArray.readAt
      split
      · exact CArray.read_of_length_le (by omega)
      · rfl
    rw [if_neg fun both => hrow both.1, cellOf, read]
    rfl

/-- The table of node ids is read from the table that `na_init` loads. -/
theorem cpusToNodes_inv {hash table : CArray Int} (loaded : loadHash topo fs = .ok hash)
    (ran : cpusToNodes topo t hash = .ok table) :
    (topo.isnuma = true → nbCores t ≤ topo.maxcpus) ∧
      ∀ i < nbCores t, table.read i = nodeidOf topo fs i ∧ ∃ node, nodeidOf topo fs i = .ok node := by
  obtain ⟨length, entries⟩ := read_fillArray loaded
  unfold cpusToNodes at ran
  by_cases numa : topo.isnuma = true
  · rw [if_pos numa] at ran
    obtain ⟨-, reads⟩ := read_fillArray ran
    have large : nbCores t ≤ topo.maxcpus := by
      by_contra small
      obtain ⟨-, node, read⟩ := reads topo.maxcpus (by omega)
      exact absurd (CArray.lt_of_read_ok read) (by omega)
    refine ⟨fun _ => large, fun i inside => ?_⟩
    obtain ⟨read, node, here⟩ := reads i inside
    have looked := (entries i (by omega)).1
    rw [naGetNodeidcpu] at read here
    rw [nodeidOf, if_pos numa, ← looked]
    exact ⟨read, node, here⟩
  · rw [if_neg numa] at ran
    obtain rfl := Except.ok.inj ran
    refine ⟨fun isNuma => absurd isNuma numa, fun i inside => ?_⟩
    rw [nodeidOf, if_neg numa]
    exact ⟨by simp [CArray.read, CArray.filled, inside], 0, rfl⟩

theorem cpusToNodes_ok (loaded : ∀ cpu < topo.maxcpus, ∃ node, getNodeidcpu topo fs cpu = .ok node)
    (large : topo.isnuma = true → nbCores t ≤ topo.maxcpus) :
    ∃ hash table, loadHash topo fs = .ok hash ∧ cpusToNodes topo t hash = .ok table := by
  obtain ⟨hash, ran⟩ : ∃ hash, loadHash topo fs = .ok hash := fillArray_ok loaded
  obtain ⟨-, entries⟩ := read_fillArray ran
  by_cases numa : topo.isnuma = true
  · obtain ⟨table, filled⟩ := @fillArray_ok _ (nbCores t) (naGetNodeidcpu hash) fun i inside => by
      have small := large numa
      rw [naGetNodeidcpu, (entries i (by omega)).1]
      exact loaded i (by omega)
    exact ⟨hash, table, ran, by rw [cpusToNodes, if_pos numa, filled]⟩
  · exact ⟨hash, _, ran, by rw [cpusToNodes, if_neg numa]⟩

end Tables

/-! ### Sources -/

section Sources

variable {t : HwlocTopology}

/-- A source that the two tables have. -/
def LatencySource.InRange (t : HwlocTopology) : LatencySource → Prop
  | cache slot => slot < 3
  | nodes row column => (0 ≤ row ∧ row < nbNodes t) ∧ 0 ≤ column ∧ column < nbNodes t

instance (source : LatencySource) : Decidable (source.InRange t) :=
  match source with
  | .cache slot => inferInstanceAs (Decidable (slot < 3))
  | .nodes row column => inferInstanceAs
      (Decidable ((0 ≤ row ∧ row < nbNodes t) ∧ 0 ≤ column ∧ column < nbNodes t))

/-- The latency at a source, by the measurement or the number of the file that it goes back to. -/
theorem latency_eq {measure : Nat → Int → ℚ} {nodesFile : Nat → ℚ} {latencies : CArray ℚ}
    {nodes : CArray (CArray ℚ)} (measured : cacheLatencies t measure = .ok latencies)
    (read : nodesMatrix t nodesFile = .ok nodes) (source : LatencySource) : ∃ len,
    source.latency latencies nodes = if source.InRange t then
      .ok (match source with
        | .cache slot => measure slot len
        | .nodes row column => nodesFile (row.toNat * nbNodes t + column.toNat))
      else .error .outOfBounds := by
  cases source with
  | cache slot =>
      obtain ⟨first, second, third, values⟩ := cacheLatencies_eq t
      rw [values] at measured
      obtain rfl := Except.ok.inj measured
      match slot with
      | 0 => exact ⟨first, rfl⟩
      | 1 => exact ⟨second, rfl⟩
      | 2 => exact ⟨third, rfl⟩
      | slot + 3 =>
          refine ⟨0, ?_⟩
          rw [if_neg fun inRange : LatencySource.InRange t (.cache (slot + 3)) =>
            absurd inRange (Nat.not_lt.mpr (Nat.le_add_left 3 slot))]
          have outside : (CArray.filled [measure 0 first, measure 1 second, measure 2 third]).length ≤
              slot + 3 := by simp
          exact CArray.read_of_length_le outside
  | nodes row column =>
      obtain ⟨nodes', read', cells⟩ := cellOf_nodesMatrix t nodesFile
      rw [read] at read'
      obtain rfl := Except.ok.inj read'
      exact ⟨0, cells row column⟩

/-- With these measurements and this file every source has a latency of its own. -/
theorem latency_injective {latencies : CArray ℚ} {nodes : CArray (CArray ℚ)}
    (measured : cacheLatencies t (fun k _ => -((k : ℚ) + 1)) = .ok latencies)
    (read : nodesMatrix t (fun k => (k : ℚ)) = .ok nodes) {source source' : LatencySource} {v : ℚ}
    (here : source.latency latencies nodes = .ok v) (there : source'.latency latencies nodes = .ok v) :
    source = source' := by
  obtain ⟨_, left⟩ := latency_eq measured read source
  obtain ⟨_, right⟩ := latency_eq measured read source'
  have inRange : source.InRange t := by
    by_contra outside
    rw [left, if_neg outside] at here
    cases here
  have inRange' : source'.InRange t := by
    by_contra outside
    rw [right, if_neg outside] at there
    cases there
  rw [left, if_pos inRange] at here
  rw [right, if_pos inRange'] at there
  have same := (Except.ok.inj here).trans (Except.ok.inj there).symm
  -- measured latencies are negative, those of the file are not
  have apart : ∀ k l : Nat, -((k : ℚ) + 1) ≠ l := fun k l equal => by
    have negative : -((k : ℚ) + 1) < 0 := neg_lt_zero.mpr (Nat.cast_add_one_pos k)
    rw [equal] at negative
    exact absurd negative (not_lt_of_ge (Nat.cast_nonneg l))
  cases source with
  | cache slot =>
      cases source' with
      | cache slot' =>
          have equal : slot = slot' := by exact_mod_cast add_right_cancel (neg_injective same)
          rw [equal]
      | nodes row column => exact absurd same (apart _ _)
  | nodes row column =>
      cases source' with
      | cache slot' => exact absurd same.symm (apart _ _)
      | nodes row' column' =>
          obtain ⟨hrow, hcolumn⟩ := inRange
          obtain ⟨hrow', hcolumn'⟩ := inRange'
          have numbers : ((row.toNat * nbNodes t + column.toNat : Nat) : ℚ) =
              (row'.toNat * nbNodes t + column'.toNat : Nat) := same
          have position : row.toNat * nbNodes t + column.toNat =
              row'.toNat * nbNodes t + column'.toNat := by exact_mod_cast numbers
          obtain ⟨equalRow, equalColumn⟩ := position_inj (by omega) (by omega) position
          rw [show row = row' by omega, show column = column' by omega]

/-- The source that the deepest common ancestor of two cores leads to. -/
def coreSource (node : Int) (obj : HwlocObj) : LatencySource :=
  match obj.cacheDepth? with
  | some depth => .cache (depth - 1)
  | none => .nodes node node

/-- The level of a cache is at least 1, so the index below it is that of an element. -/
theorem ancestorLatency_eq {latencies : CArray ℚ} {nodes : CArray (CArray ℚ)} {table : CArray Int}
    {i : Nat} {node : Int} {path : Path} {obj : HwlocObj} (read : table.read i = .ok node) :
    t.tree.label? path = some obj → (match obj with
      | .cache depth _ => latencies.readAt ((depth : Int) - 1)
      | _ => do
          let node ← table.read i
          cellOf nodes node node) = (coreSource node obj).latency latencies nodes := by
  intro label
  cases depth : obj.cacheDepth? with
  | some d =>
      obtain ⟨size, rfl⟩ := HwlocObj.eq_cache_of_cacheDepth? depth
      obtain ⟨low, -⟩ := depth_bounds label
      have index : ((d : Int) - 1).toNat = d - 1 := by omega
      change latencies.readAt ((d : Int) - 1) = latencies.read (d - 1)
      rw [CArray.readAt, if_pos (by omega), index]
  | none =>
      rw [coreSource, depth, read]
      split
      · cases depth
      · rfl

theorem coreFactor_ok {latencies : CArray ℚ} {nodes : CArray (CArray ℚ)} {table : CArray Int}
    {i j : Nat} {node : Int} {v : ℚ} (other : i ≠ j) (read : table.read i = .ok node) :
    coreFactor t latencies nodes table i j = .ok v ↔
      ∃ p q obj, t.getObjByType HwlocObj.isCore i = some p ∧ t.getObjByType HwlocObj.isCore j = some q ∧
        t.tree.label? (commonPrefix p q) = some obj ∧
          (coreSource node obj).latency latencies nodes = .ok v := by
  rw [coreFactor, if_pos other]
  refine bind_eq_ok.trans ?_
  constructor
  · rintro ⟨obj, ancestor, latency⟩
    obtain ⟨p, q, core1, core2, label⟩ := getCommonAncestorObj_ok.mp ancestor
    exact ⟨p, q, obj, core1, core2, label, (ancestorLatency_eq read label).symm.trans latency⟩
  · rintro ⟨p, q, obj, core1, core2, label, latency⟩
    exact ⟨obj, getCommonAncestorObj_ok.mpr ⟨p, q, core1, core2, label⟩,
      (ancestorLatency_eq read label).trans latency⟩

theorem puSource_eq_cache {pu pu' : Path} {slot : Nat} :
    puSource t pu pu' = some (.cache slot) ↔
      t.nodeOf pu = t.nodeOf pu' ∧ (t.sharedCache pu pu').bind t.cacheSlot = some slot := by
  unfold puSource
  by_cases same : t.nodeOf pu = t.nodeOf pu'
  · rw [if_pos same]
    cases shared : t.sharedCache pu pu' with
    | some depth => simp [same]
    | none => simp
  · rw [if_neg same]
    simp [same]

theorem puSource_eq_nodes {pu pu' : Path} {node node' : Int} :
    puSource t pu pu' = some (.nodes node node') ↔ (t.nodeOf pu = node ∧ t.nodeOf pu' = node') ∧
      (node = node' → t.sharedCache pu pu' = none) := by
  unfold puSource
  by_cases same : t.nodeOf pu = t.nodeOf pu'
  · rw [if_pos same]
    cases shared : t.sharedCache pu pu' with
    | some depth =>
        simp only [Option.map_eq_some_iff, reduceCtorEq, and_false, exists_false, imp_false, false_iff,
          not_and, not_not]
        rintro ⟨rfl, rfl⟩
        rw [same]
    | none =>
        simp only [Option.some.injEq, LatencySource.nodes.injEq, implies_true, and_true]
        rw [same]
  · rw [if_neg same]
    simp only [Option.some.injEq, LatencySource.nodes.injEq]
    constructor
    · rintro ⟨rfl, rfl⟩
      exact ⟨⟨rfl, rfl⟩, fun equal => absurd (Int.ofNat.inj equal) same⟩
    · rintro ⟨both, -⟩
      exact both

/-- The source that the program takes for two numbers with these node ids. -/
def FoundSource (t : HwlocTopology) (node node' : Int) (i j : Nat) (source : LatencySource) : Prop :=
  if node = node' then ∃ p q obj, t.getObjByType HwlocObj.isCore i = some p ∧
    t.getObjByType HwlocObj.isCore j = some q ∧ t.tree.label? (commonPrefix p q) = some obj ∧
    source = coreSource node obj
  else source = .nodes node node'

/-- The conditions on a pair say that this source exists and is the one of the processing units. -/
theorem agree_iff {node node' : Int} {i j : Nat} :
    (if node = node' then CoresAgree t node i j else NodesAgree t node node' i j) ↔
      ∃ source, FoundSource t node node' i j source ∧ source.InRange t ∧
        ∀ pu pu', t.puAt i = some pu → t.puAt j = some pu' → puSource t pu pu' = some source := by
  unfold FoundSource
  by_cases same : node = node'
  · subst same
    simp only [if_true]
    constructor
    · rintro ⟨p, q, obj, core1, core2, label, agree⟩
      refine ⟨coreSource node obj, ⟨p, q, obj, core1, core2, label, rfl⟩, ?_⟩
      unfold coreSource
      cases depth : obj.cacheDepth? with
      | some d =>
          rw [depth] at agree
          obtain ⟨size, rfl⟩ := HwlocObj.eq_cache_of_cacheDepth? depth
          obtain ⟨low, high⟩ := depth_bounds label
          have slot : d - 1 < 3 := by omega
          exact ⟨slot, fun pu pu' first second => puSource_eq_cache.mpr (agree pu pu' first second)⟩
      | none =>
          rw [depth] at agree
          obtain ⟨range, agree⟩ := agree
          refine ⟨⟨range, range⟩, fun pu pu' first second => puSource_eq_nodes.mpr ?_⟩
          obtain ⟨nodes, shared⟩ := agree pu pu' first second
          exact ⟨nodes, fun _ => shared⟩
    · rintro ⟨source, ⟨p, q, obj, core1, core2, label, rfl⟩, range, agree⟩
      refine ⟨p, q, obj, core1, core2, label, ?_⟩
      unfold coreSource at range agree
      cases depth : obj.cacheDepth? with
      | some d =>
          rw [depth] at agree
          exact fun pu pu' first second => puSource_eq_cache.mp (agree pu pu' first second)
      | none =>
          rw [depth] at range agree
          refine ⟨range.1, fun pu pu' first second => ?_⟩
          obtain ⟨nodes, shared⟩ := puSource_eq_nodes.mp (agree pu pu' first second)
          exact ⟨nodes, shared rfl⟩
  · simp only [if_neg same, exists_eq_left]
    constructor
    · rintro ⟨range, range', agree⟩
      exact ⟨⟨range, range'⟩, fun pu pu' first second =>
        puSource_eq_nodes.mpr ⟨agree pu pu' first second, fun equal => absurd equal same⟩⟩
    · rintro ⟨⟨range, range'⟩, agree⟩
      exact ⟨range, range', fun pu pu' first second =>
        (puSource_eq_nodes.mp (agree pu pu' first second)).1⟩

end Sources

/-! ### The exact condition -/

section Exact

variable {topo : ArchTopo} {fs : Sysfs} {t : HwlocTopology} {latencies : CArray ℚ}
  {nodes : CArray (CArray ℚ)} {table : CArray Int} {i j : Nat} {node node' : Int}

/-- An entry off the diagonal is the latency at the source that is found. -/
theorem entry_iff (other : i ≠ j) (read : table.read i = .ok node) {v : ℚ} :
    (if node' = node then coreFactor t latencies nodes table i j else cellOf nodes node node') = .ok v ↔
      ∃ source, FoundSource t node node' i j source ∧ source.latency latencies nodes = .ok v := by
  unfold FoundSource
  by_cases same : node = node'
  · subst same
    simp only [if_true]
    refine (coreFactor_ok other read).trans ?_
    constructor
    · rintro ⟨p, q, obj, core1, core2, label, latency⟩
      exact ⟨_, ⟨p, q, obj, core1, core2, label, rfl⟩, latency⟩
    · rintro ⟨_, ⟨p, q, obj, core1, core2, label, rfl⟩, latency⟩
      exact ⟨p, q, obj, core1, core2, label, latency⟩
  · simp only [if_neg same, if_neg (Ne.symm same), exists_eq_left]
    rfl

theorem coresMatrix_inv {matrix : CArray (CArray ℚ)}
    (ran : coresMatrix t latencies nodes table = .ok matrix) (hi : i < nbCores t) (hj : j < nbCores t)
    (first : table.read i = .ok node) (second : table.read j = .ok node') :
    cellOf matrix i j =
        (if node' = node then coreFactor t latencies nodes table i j else cellOf nodes node node') ∧
      ∃ v, (if node' = node then coreFactor t latencies nodes table i j
        else cellOf nodes node node') = .ok v := by
  obtain ⟨row, elements, filled⟩ := (read_fillArray ran).2 i hi
  rw [filled] at row
  obtain ⟨current, read, filled⟩ := bind_eq_ok.mp filled
  rw [first] at read
  obtain rfl := Except.ok.inj read
  have cell := (read_fillArray filled).2 j hj
  rw [second] at cell
  rw [cellOf_of_row row]
  exact cell

theorem coresMatrix_ok (reads : ∀ i < nbCores t, ∃ node, table.read i = .ok node)
    (entries : ∀ i < nbCores t, ∀ j < nbCores t, ∀ node node', table.read i = .ok node →
      table.read j = .ok node' → ∃ v, (if node' = node then coreFactor t latencies nodes table i j
        else cellOf nodes node node') = .ok v) :
    ∃ matrix, coresMatrix t latencies nodes table = .ok matrix := by
  refine fillArray_ok fun i hi => ?_
  obtain ⟨node, first⟩ := reads i hi
  obtain ⟨elements, filled⟩ : ∃ elements, fillArray (nbCores t) (fun j => do
      let node' ← table.read j
      if node' = node then coreFactor t latencies nodes table i j
      else cellOf nodes node node') = .ok elements := by
    refine fillArray_ok fun j hj => ?_
    obtain ⟨node', second⟩ := reads j hj
    obtain ⟨v, entry⟩ := entries i hi j hj node node' first second
    exact ⟨v, bind_eq_ok.mpr ⟨node', second, entry⟩⟩
  exact ⟨elements, bind_eq_ok.mpr ⟨node, first, filled⟩⟩

theorem coreFactor_self : coreFactor t latencies nodes table i i = latencies.read 0 :=
  if_neg fun other => other rfl

theorem lookupsAgree_of_right (right : CoresMatrixRight topo fs t) : LookupsAgree topo fs t := by
  obtain ⟨latencies, nodes, matrix, measured, read, ran, entries⟩ :=
    right (fun k _ => -((k : ℚ) + 1)) (fun k => (k : ℚ))
  obtain ⟨hash, loaded, ran⟩ := bind_eq_ok.mp ran
  obtain ⟨table, filled, ran⟩ := bind_eq_ok.mp ran
  rw [measured, read] at ran
  have ran : coresMatrix t latencies nodes table = .ok matrix := ran
  obtain ⟨large, reads⟩ := cpusToNodes_inv loaded filled
  refine ⟨fun cpu inside => ((read_fillArray loaded).2 cpu inside).2, large,
    fun i hi j hj other node node' hnode hnode' => agree_iff.mpr ?_⟩
  have first := (reads i hi).1.trans hnode
  have second := (reads j hj).1.trans hnode'
  obtain ⟨cell, v, entry⟩ := coresMatrix_inv ran hi hj first second
  obtain ⟨source, found, latency⟩ := (entry_iff other first).mp entry
  refine ⟨source, found, ?_, fun pu pu' unit unit' => ?_⟩
  · by_contra outside
    obtain ⟨_, value⟩ := latency_eq measured read source
    rw [value, if_neg outside] at latency
    cases latency
  · obtain ⟨w, here, there⟩ := entries i hi j hj pu pu' unit unit'
    rw [cell, entry] at here
    obtain rfl := Except.ok.inj here
    rw [if_neg other] at there
    obtain ⟨source', expected, there⟩ := there
    rw [expected, latency_injective measured read there latency]

/-- Where the lookups agree, an entry off the diagonal is the latency at the source of its processing
units. -/
theorem entry_of_lookupsAgree (agree : LookupsAgree topo fs t) {measure : Nat → Int → ℚ}
    {nodesFile : Nat → ℚ} (measured : cacheLatencies t measure = .ok latencies)
    (read : nodesMatrix t nodesFile = .ok nodes) (hi : i < nbCores t) (hj : j < nbCores t)
    (other : i ≠ j) (first : table.read i = .ok node) (hnode : nodeidOf topo fs i = .ok node)
    (hnode' : nodeidOf topo fs j = .ok node') :
    ∃ v, (if node' = node then coreFactor t latencies nodes table i j
        else cellOf nodes node node') = .ok v ∧
      ∀ pu pu', t.puAt i = some pu → t.puAt j = some pu' →
        ∃ source, puSource t pu pu' = some source ∧ source.latency latencies nodes = .ok v := by
  obtain ⟨source, found, inRange, same⟩ :=
    agree_iff.mp (agree.pairs i hi j hj other node node' hnode hnode')
  obtain ⟨_, value⟩ := latency_eq measured read source
  rw [if_pos inRange] at value
  exact ⟨_, (entry_iff other first).mpr ⟨source, found, value⟩,
    fun pu pu' unit unit' => ⟨source, same pu pu' unit unit', value⟩⟩

theorem right_of_lookupsAgree (agree : LookupsAgree topo fs t) : CoresMatrixRight topo fs t := by
  intro measure nodesFile
  obtain ⟨hash, table, loaded, filled⟩ := cpusToNodes_ok agree.loaded agree.large
  obtain ⟨-, reads⟩ := cpusToNodes_inv loaded filled
  obtain ⟨size, _, _, values⟩ := cacheLatencies_eq t
  have measured := values measure
  obtain ⟨nodes, read, -⟩ := cellOf_nodesMatrix t nodesFile
  generalize hlatencies : CArray.filled [measure 0 size, _, _] = latencies at measured
  have diagonal : latencies.read 0 = .ok (measure 0 size) := hlatencies ▸ rfl
  have readable : ∀ i < nbCores t, ∃ node, table.read i = .ok node := fun i hi => by
    obtain ⟨same, node, here⟩ := reads i hi
    exact ⟨node, same.trans here⟩
  have listed : ∀ i < nbCores t, ∀ node, table.read i = .ok node → nodeidOf topo fs i = .ok node :=
    fun i hi node here => (reads i hi).1.symm.trans here
  obtain ⟨matrix, ran⟩ : ∃ matrix, coresMatrix t latencies nodes table = .ok matrix := by
    apply coresMatrix_ok readable
    intro i hi j hj node node' first second
    by_cases other : i = j
    · subst other
      obtain rfl := Except.ok.inj (first.symm.trans second)
      exact ⟨_, by rw [if_pos rfl, coreFactor_self, diagonal]⟩
    · obtain ⟨v, here, -⟩ := entry_of_lookupsAgree agree measured read hi hj other first
        (listed i hi node first) (listed j hj node' second)
      exact ⟨v, here⟩
  refine ⟨latencies, nodes, matrix, measured, read, ?_, fun i hi j hj pu pu' unit unit' => ?_⟩
  · refine bind_eq_ok.mpr ⟨hash, loaded, bind_eq_ok.mpr ⟨table, filled, ?_⟩⟩
    exact bind_eq_ok.mpr ⟨latencies, measured, bind_eq_ok.mpr ⟨nodes, read, ran⟩⟩
  · obtain ⟨node, first⟩ := readable i hi
    obtain ⟨node', second⟩ := readable j hj
    obtain ⟨cell, -⟩ := coresMatrix_inv ran hi hj first second
    rw [cell]
    by_cases other : i = j
    · subst other
      obtain rfl := Except.ok.inj (first.symm.trans second)
      exact ⟨_, by rw [if_pos rfl, coreFactor_self, diagonal], by rw [if_pos rfl, diagonal]⟩
    · obtain ⟨v, here, there⟩ := entry_of_lookupsAgree agree measured read hi hj other first
        (listed i hi node first) (listed j hj node' second)
      exact ⟨v, here, by rw [if_neg other]; exact there pu pu' unit unit'⟩

/-- The matrix is right exactly on the machines whose numbers can be used in all these places. -/
theorem coresMatrixRight_iff (topo : ArchTopo) (fs : Sysfs) (t : HwlocTopology) :
    CoresMatrixRight topo fs t ↔ LookupsAgree topo fs t :=
  ⟨lookupsAgree_of_right, right_of_lookupsAgree⟩

end Exact

/-- Two nodes whose only core has two processing units. -/
def twoThreads : HwlocTopology where
  tree := .object .machine [
    .object (.node 0) [.object (.cache 2 1048576) [.object .core [
      .object (.pu 0) [], .object (.pu 1) []]]],
    .object (.node 1) [.object (.cache 2 1048576) [.object .core [
      .object (.pu 2) [], .object (.pu 3) []]]]]
  depths := by decide
  levels := by decide
  pus := by decide

/-- There is no core number 2. -/
theorem not_coresMatrixRight_twoThreads : ¬ CoresMatrixRight twoNodesTopo twoNodes twoThreads := by
  intro right
  obtain ⟨_, _, matrix, _, _, ran, -⟩ := right (fun _ _ => 0) (fun _ => 0)
  have stopped : computeLatencies twoNodesTopo twoNodes twoThreads (fun _ _ => 0) (fun _ => 0) =
      .error .nullPointer := by decide
  rw [stopped] at ran
  cases ran

end Numafac
