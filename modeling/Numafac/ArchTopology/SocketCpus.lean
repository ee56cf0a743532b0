/-
Module: Numafac.ArchTopology.SocketCpus
Layer: ArchTopology
Purpose: The CPUs of a socket and the CPUs that share a cache. `na_get_cpusidsocket` collects the cores
  of a package and then writes each of them with all its cache siblings into an array that has room for
  the cores alone. `naGetCpusidsocket_fault` shows that no call completes: with siblings the array
  overflows, and without them the line that is split into tokens was never read.
Trusted boundary: the translation of the four functions
Main exports: naGetSocketCpu, naGetCpussockets, naGetCacheShareCores, naGetCpusidsocket,
  SocketCpusRight, naGetCpusidsocket_fault, not_socketCpusRight
-/
import Numafac.ArchTopology.CacheLevels

namespace Numafac

/-- `na_get_socket_cpu`: the package of a CPU, -1 when its file cannot be read. -/
def naGetSocketCpu (fs : Sysfs) (cpu : Int) : Int :=
  if 0 ≤ cpu then (fs.packageId cpu.toNat).getD (-1) else -1

/-- `na_get_cpussockets`: `return MAXCORESSOCKET;`, without a value when the constant is empty. -/
def naGetCpussockets (topo : ArchTopo) : CResult Nat :=
  match topo.maxcoressocket with
  | some count => .ok count
  | none => .error .noValue

/-- The delimiters `",\n"`. -/
def commaOrNewline (c : Char) : Bool :=
  c == ',' || c == '\n'

/-- `na_get_cacheShare_cores`. A token equal to `core` leaves its element of `taux` without a value, except
the first one. -/
def naGetCacheShareCores (fs : Sysfs) (core : Int) : CResult (CArray Int) := do
  let shared := naGetSharedCacheLevel fs
  let cacheCores := naGetCacheCores fs
  let resp ← bufferText (fgets (cacheCores * 4 + 1) (fs.sharedCpuList core shared))
  let taux : CArray Int := malloc ((cacheCores : Int) - 1)
  let (cpu, rest) := strtok commaOrNewline resp
  let first ← atoiToken cpu
  let (taux, k) ←
    if first ≠ core then do
      let taux ← taux.write 0 first
      pure (taux, 1)
    else pure (taux, 0)
  let (taux, _) ← forRange k (cacheCores - 1)
    (fun (taux, rest) i => do
      let (cpu, rest) := strtok commaOrNewline rest
      let next ← atoiToken cpu
      if next ≠ core then do
        let taux ← taux.write i next
        pure (taux, rest)
      else pure (taux, rest))
    (taux, rest)
  pure taux

/-- The first loop of `na_get_cpusidsocket`: `tmp` keeps its value when a file cannot be read. -/
def collectCores (fs : Sysfs) (maxCores : Nat) (socket : Int) (tcoresIds : CArray Int) :
    CResult (CArray Int) := do
  let (tcoresIds, _, _) ← forRange 0 maxCores
    (fun (tcoresIds, k, (tmp : Option Int)) i => do
      let tmp := (fs.packageId i).or tmp
      match tmp with
      | none => .error .uninitialised
      | some package =>
          if package = socket then do
            let tcoresIds ← tcoresIds.write k (i : Int)
            pure (tcoresIds, k + 1, tmp)
          else pure (tcoresIds, k, tmp))
    (tcoresIds, 0, none)
  pure tcoresIds

/-- `for(j=0;j<max_cores_s && j<(shared-1);j++){ cores_ids[k] = s_cores[j]; k++; }`. -/
def writeSiblings (count : Nat) (sCores : CArray Int) (state : CArray Int × Nat) :
    CResult (CArray Int × Nat) :=
  forRange 0 count
    (fun (coresIds, k) j => do
      let sibling ← sCores.read j
      let coresIds ← coresIds.write k sibling
      pure (coresIds, k + 1))
    state

/-- The body of the second loop: a core and then its siblings. -/
def writeCore (fs : Sysfs) (count : Nat) (tcoresIds : CArray Int) (state : CArray Int × Nat) (i : Nat) :
    CResult (CArray Int × Nat) := do
  let core ← tcoresIds.read i
  let sCores ← naGetCacheShareCores fs core
  let coresIds ← state.1.write state.2 core
  writeSiblings count sCores (coresIds, state.2 + 1)

/-- `na_get_cpusidsocket`. -/
def naGetCpusidsocket (topo : ArchTopo) (fs : Sysfs) (socket : Int) : CResult (CArray Int) := do
  let maxCoresS ← naGetCpussockets topo
  let shared := naGetCacheCores fs
  let tcoresIds ← collectCores fs topo.maxcpus socket (malloc maxCoresS)
  let (coresIds, _) ← forRange 0 maxCoresS
    (writeCore fs (min maxCoresS (shared - 1)) tcoresIds) (malloc maxCoresS, 0)
  pure coresIds

/-! ### What the function is for -/

/-- Two CPUs share a cache of index 2 or above. -/
def ShareCache (fs : Sysfs) (cpu other : Int) : Prop :=
  ∃ i list, 2 ≤ i ∧ (fs.cacheDir cpu.toNat).lists[i]? = some list ∧ other.toNat ∈ list.cpus

/-- The call writes inside its arrays and returns the CPUs of the socket, each once, with the CPUs that
share a cache next to each other. -/
def SocketCpusRight (topo : ArchTopo) (fs : Sysfs) (socket : Int) : Prop :=
  ∃ ids : List Int, naGetCpusidsocket topo fs socket = .ok (CArray.filled ids) ∧
    ids.Perm (((List.range topo.maxcpus).map Nat.cast).filter fun cpu : Int =>
      naGetSocketCpu fs cpu = socket) ∧
    ∀ (p q r : Nat) (hp : p < q) (hq : q < r) (hr : r < ids.length),
      ShareCache fs (ids[p]) (ids[r]) → ShareCache fs (ids[p]) (ids[q])

/-! ### No call completes -/

/-- The siblings of a core all have to fit. -/
theorem writeSiblings_room {count room k k' : Nat} {sCores coresIds coresIds' : CArray Int}
    (length : coresIds.length = room) (fits : k ≤ room)
    (ran : writeSiblings count sCores (coresIds, k) = .ok (coresIds', k')) :
    coresIds'.length = room ∧ k' = k + count ∧ k' ≤ room := by
  have step : ∀ (i : Nat) (state next : CArray Int × Nat), 0 ≤ i → i < count →
      (state.1.length = room ∧ state.2 = k + i ∧ state.2 ≤ room) →
      (do
        let sibling ← sCores.read i
        let coresIds ← state.1.write state.2 sibling
        pure (coresIds, state.2 + 1) : CResult (CArray Int × Nat)) = .ok next →
      next.1.length = room ∧ next.2 = k + (i + 1) ∧ next.2 ≤ room := by
    rintro i state next - - ⟨length, position, -⟩ ran
    obtain ⟨sibling, -, ran⟩ := bind_eq_ok.mp ran
    obtain ⟨written, write, ran⟩ := bind_eq_ok.mp ran
    obtain ⟨inside, rfl⟩ := CArray.lt_of_write_ok write
    obtain rfl := Except.ok.inj ran
    simp only [List.length_set]
    omega
  exact forRange_inv (fun i state => state.1.length = room ∧ state.2 = k + i ∧ state.2 ≤ room)
    (Nat.zero_le count) ⟨length, rfl, fits⟩ step ran

/-- A core takes one element more than it has siblings. -/
theorem writeCore_room {fs : Sysfs} {count room i : Nat} {tcoresIds : CArray Int}
    {state next : CArray Int × Nat} (length : state.1.length = room)
    (ran : writeCore fs count tcoresIds state i = .ok next) :
    next.1.length = room ∧ next.2 = state.2 + 1 + count ∧ next.2 ≤ room := by
  obtain ⟨core, -, ran⟩ := bind_eq_ok.mp ran
  obtain ⟨sCores, -, ran⟩ := bind_eq_ok.mp ran
  obtain ⟨written, write, ran⟩ := bind_eq_ok.mp ran
  obtain ⟨inside, rfl⟩ := CArray.lt_of_write_ok write
  exact writeSiblings_room (by rw [List.length_set, length]) (by omega) ran

/-- A whole pass over the cores needs room for every core and its siblings. -/
theorem writeCores_room {fs : Sysfs} {count room stop : Nat} {tcoresIds : CArray Int}
    {final : CArray Int × Nat}
    (ran : forRange 0 stop (writeCore fs count tcoresIds) (malloc room, 0) = .ok final) :
    stop * (1 + count) ≤ room := by
  have kept : final.1.length = room ∧ final.2 = stop * (1 + count) ∧ final.2 ≤ room := by
    refine forRange_inv
      (fun i state => state.1.length = room ∧ state.2 = i * (1 + count) ∧ state.2 ≤ room)
      (Nat.zero_le stop) ⟨by simp [malloc], by simp, Nat.zero_le room⟩ ?_ ran
    rintro i state next - - ⟨length, position, -⟩ ran
    obtain ⟨length, moved, fits⟩ := writeCore_room length ran
    refine ⟨length, ?_, fits⟩
    rw [moved, position, Nat.succ_mul]
    omega
  omega

/-- Where no cache is shared, the list that is asked for does not exist. -/
theorem naGetSharedCacheLevel_of_one {fs : Sysfs} (one : naGetCacheCores fs = 1) :
    naGetSharedCacheLevel fs = -1 :=
  sharedCacheLevelLoop_of_none fun k low high => (eq_one_of_cacheCoresLoop one k low high).le

/-- Without siblings there is no line to take tokens from. -/
theorem naGetCacheShareCores_fault {fs : Sysfs} (few : naGetCacheCores fs ≤ 1) (core : Int) :
    ∃ fault, naGetCacheShareCores fs core = .error fault := by
  rcases Nat.le_one_iff_eq_zero_or_eq_one.mp few with zero | one
  · refine ⟨.nullPointer, ?_⟩
    simp [naGetCacheShareCores, zero, fgets, bufferText, strtok, atoiToken, bind, Except.bind]
  · refine ⟨.uninitialised, ?_⟩
    have stream : fs.sharedCpuList core (-1) = [] := if_neg (by omega)
    simp [naGetCacheShareCores, one, naGetSharedCacheLevel_of_one one, stream, fgets, bufferText,
      bind, Except.bind]

/-- `na_get_cpusidsocket` never returns: either it writes behind its array or it uses a line that was not
read. -/
theorem naGetCpusidsocket_fault (topo : ArchTopo) (fs : Sysfs) (socket : Int) :
    ∃ fault, naGetCpusidsocket topo fs socket = .error fault := by
  cases call : naGetCpusidsocket topo fs socket with
  | error fault => exact ⟨fault, rfl⟩
  | ok ids =>
      exfalso
      obtain ⟨maxCoresS, constant, call⟩ := bind_eq_ok.mp call
      obtain ⟨tcoresIds, -, call⟩ := bind_eq_ok.mp call
      obtain ⟨final, ran, -⟩ := bind_eq_ok.mp call
      have positive : 0 < maxCoresS := by
        unfold naGetCpussockets at constant
        split at constant
        · rename_i count _
          exact Except.ok.inj constant ▸ count.pos
        · cases constant
      by_cases few : naGetCacheCores fs ≤ 1
      · -- already the first pass stops in the search for siblings
        rw [forRange_step positive] at ran
        obtain ⟨next, first, -⟩ := bind_eq_ok.mp ran
        obtain ⟨core, -, first⟩ := bind_eq_ok.mp first
        obtain ⟨sCores, siblings, -⟩ := bind_eq_ok.mp first
        obtain ⟨fault, stopped⟩ := naGetCacheShareCores_fault few core
        rw [stopped] at siblings
        cases siblings
      · have room := writeCores_room ran
        have siblings : 1 ≤ min maxCoresS (naGetCacheCores fs - 1) := by omega
        have more : maxCoresS * 2 ≤ maxCoresS * (1 + min maxCoresS (naGetCacheCores fs - 1)) :=
          Nat.mul_le_mul_left maxCoresS (by omega)
        omega

/-- So on no machine does it return the CPUs of a socket. -/
theorem not_socketCpusRight (topo : ArchTopo) (fs : Sysfs) (socket : Int) :
    ¬ SocketCpusRight topo fs socket := by
  rintro ⟨ids, call, -, -⟩
  obtain ⟨fault, stopped⟩ := naGetCpusidsocket_fault topo fs socket
  rw [stopped] at call
  cases call

/-- Two packages of two cores, the cores of each sharing their second-level cache. -/
def sharedPairs : Sysfs :=
  Sysfs.ofNodes [[0, 2], [1, 3]] (by decide) (by decide) (fun cpu => some (cpu % 2 : Nat)) fun cpu =>
    { lists := [.single cpu, .single cpu, .pair (cpu % 2) (cpu % 2 + 2) (by omega), .single cpu],
      others := 0 }

def sharedPairsTopo : ArchTopo where
  isnuma := true
  maxnodes := 2
  maxcpus := 4
  cpusnode := 2
  socketsnode := 1
  maxcoressocket := some 2

/-- The first core and its sibling fill the array, and the second core is written behind it. -/
theorem not_socketCpusRight_sharedPairs : ¬ SocketCpusRight sharedPairsTopo sharedPairs 0 := by
  rintro ⟨ids, call, -, -⟩
  have stopped : naGetCpusidsocket sharedPairsTopo sharedPairs 0 = .error .outOfBounds := by decide
  rw [stopped] at call
  cases call

end Numafac
