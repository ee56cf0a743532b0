/-
Module: Numafac.ArchTopology.StreamBalance
Layer: ArchTopology
Purpose: The streams that five functions of the library open and close. `na_get_shared_cacheLevel` and
  `na_get_cache_cores` close none of the pipes that they open in their loops, so every call that gets into
  a loop leaves streams behind, and so do its callers; `na_get_nneighbors` closes what it opened but also a
  null pointer when both of its files are missing. `streamBalance_iff` says which sequences of calls that
  return leave the streams as they were.
Trusted boundary: where the streams are opened and closed in the seven functions
Main exports: tracedNaGetSharedCacheLevel, tracedNaGetCacheCores, tracedNaGetCacheShareCores,
  tracedNaGetCpusidsocket, tracedNaGetNneighbors, Environment, LibraryCall, runCalls, CallBalanced,
  runCalls_streams, streamBalance_iff
-/
import Numafac.ArchTopology.CacheSiblings
import Numafac.ArchTopology.Neighbors
import Numafac.Base.Streams

namespace Numafac

/-! ### The functions with their streams -/

/-- `na_get_numcaches`. -/
def tracedNaGetNumcaches (fs : Sysfs) : Traced Int := do
  let fpNodes ← popen
  fclose fpNodes
  pure (naGetNumcaches fs)

/-- The loop of `na_get_shared_cacheLevel`, which closes no `fp_cache`. -/
def tracedSharedCacheLevelLoop (res : Nat → Nat) (i : Nat) : Nat → Traced Int
  | 0 => pure (-1)
  | remaining + 1 => do
      let _ ← popen
      if 1 < res i then pure (i : Int) else tracedSharedCacheLevelLoop res (i + 1) remaining

/-- `na_get_shared_cacheLevel`. -/
def tracedNaGetSharedCacheLevel (fs : Sysfs) : Traced Int := do
  let nrCaches ← tracedNaGetNumcaches fs
  tracedSharedCacheLevelLoop (pieces fs) 2 (nrCaches - 1).toNat

/-- The loop of `na_get_cache_cores`. -/
def tracedCacheCoresLoop (res : Nat → Nat) (i : Nat) : Nat → Traced Nat
  | 0 => pure 1
  | remaining + 1 => do
      let _ ← popen
      if res i = 1 then tracedCacheCoresLoop res (i + 1) remaining else pure (res i)

/-- `na_get_cache_cores`. -/
def tracedNaGetCacheCores (fs : Sysfs) : Traced Nat := do
  let nrCaches ← tracedNaGetNumcaches fs
  tracedCacheCoresLoop (pieces fs) 2 (nrCaches - 1).toNat

/-- `na_get_cacheShare_cores`. -/
def tracedNaGetCacheShareCores (fs : Sysfs) (core : Int) : Traced (CArray Int) := do
  let shared ← tracedNaGetSharedCacheLevel fs
  let cacheCores ← tracedNaGetCacheCores fs
  let fpNodes ← popen
  fclose fpNodes
  Traced.lift (shareCoresOfLine cacheCores core (fs.sharedCpuList core shared))

/-- The body of the first loop of `na_get_cpusidsocket`, without its stream. -/
def collectCore (fs : Sysfs) (socket : Int) (state : CArray Int × Nat × Option Int) (i : Nat) :
    CResult (CArray Int × Nat × Option Int) :=
  let tmp := (fs.packageId i).or state.2.2
  match tmp with
  | none => .error .uninitialised
  | some package =>
      if package = socket then do
        let tcoresIds ← state.1.write state.2.1 (i : Int)
        pure (tcoresIds, state.2.1 + 1, tmp)
      else pure (state.1, state.2.1, tmp)

def tracedCollectCore (fs : Sysfs) (socket : Int) (state : CArray Int × Nat × Option Int) (i : Nat) :
    Traced (CArray Int × Nat × Option Int) := do
  let fpSockets ← popen
  fclose fpSockets
  Traced.lift (collectCore fs socket state i)

/-- The body of the second loop. -/
def tracedWriteCore (fs : Sysfs) (count : Nat) (tcoresIds : CArray Int) (state : CArray Int × Nat)
    (i : Nat) : Traced (CArray Int × Nat) := do
  let core ← Traced.lift (tcoresIds.read i)
  let sCores ← tracedNaGetCacheShareCores fs core
  let coresIds ← Traced.lift (state.1.write state.2 core)
  Traced.lift (writeSiblings count sCores (coresIds, state.2 + 1))

/-- `na_get_cpusidsocket`. -/
def tracedNaGetCpusidsocket (topo : ArchTopo) (fs : Sysfs) (socket : Int) : Traced (CArray Int) := do
  let maxCoresS ← Traced.lift (naGetCpussockets topo)
  let shared ← tracedNaGetCacheCores fs
  let collected ← tracedRange 0 topo.maxcpus (tracedCollectCore fs socket) (malloc maxCoresS, 0, none)
  let written ← tracedRange 0 maxCoresS
    (tracedWriteCore fs (min maxCoresS (shared - 1)) collected.1) (malloc maxCoresS, 0)
  pure written.1

/-- `na_get_maxneighbors`. -/
def tracedNaGetMaxneighbors (held : Int) (neighborFile : Option Text) : Traced Int := do
  let fpNumaF ← fopen neighborFile.isSome
  if fpNumaF then fclose fpNumaF
  pure (naGetMaxneighbors held neighborFile)

/-- `na_get_nneighbors`. Where both files are missing the null pointer is closed, and the selection starts on
the null pointer `tmp` if the count that was never read is positive. -/
def tracedNaGetNneighbors (maxnodes : Nat) (held : Int) (neighborFile factorFile : Option Text)
    (node : Int) : Traced (Option (CArray Int)) := do
  let fpNumaF ← fopen neighborFile.isSome
  match neighborFile with
  | some stream => do
      let (n, rest) := fscanfD (some held, stream)
      let nodeIds ← Traced.lift (tableRows maxnodes node (n.getD held) rest)
      fclose fpNumaF
      pure (some nodeIds)
  | none => do
      let fpNumaF ← fopen factorFile.isSome
      match factorFile with
      | some stream => do
          let n ← tracedNaGetMaxneighbors held none
          let tmp ← Traced.lift (factorRows maxnodes node n stream)
          fclose fpNumaF
          let nodeIds ← Traced.lift (selectNeighbors n.toNat (tmp, malloc n, 0) n.toNat)
          pure (some nodeIds)
      | none => do
          fclose fpNumaF
          if 0 < held then Traced.lift (.error .nullPointer) else pure none

/-! ### Sequences of calls -/

/-- What a call finds: the constants, sysfs, the files under `/tmp/output`, and what `n_neighbors` holds. -/
structure Environment where
  topo : ArchTopo
  fs : Sysfs
  neighborFile : Option Text
  factorFile : Option Text
  held : Int

/-- The five functions. -/
inductive LibraryCall where
  | sharedCacheLevel
  | cacheCores
  | cacheShareCores (core : Int)
  | cpusidsocket (socket : Int)
  | nneighbors (node : Int)

/-- A call, without its result. -/
def runCall (env : Environment) : LibraryCall → Traced Unit
  | .sharedCacheLevel => do
      let _ ← tracedNaGetSharedCacheLevel env.fs
      pure ()
  | .cacheCores => do
      let _ ← tracedNaGetCacheCores env.fs
      pure ()
  | .cacheShareCores core => do
      let _ ← tracedNaGetCacheShareCores env.fs core
      pure ()
  | .cpusidsocket socket => do
      let _ ← tracedNaGetCpusidsocket env.topo env.fs socket
      pure ()
  | .nneighbors node => do
      let _ ← tracedNaGetNneighbors env.topo.maxnodes env.held env.neighborFile env.factorFile node
      pure ()

/-- Calls one after the other; what they find may change in between. -/
def runCalls : List (Environment × LibraryCall) → Traced Unit
  | [] => pure ()
  | (env, call) :: steps => do
      runCall env call
      runCalls steps

/-- The loops over the cache levels make no pass, and one of the files with neighbours is there. -/
def CallBalanced (env : Environment) : LibraryCall → Prop
  | .nneighbors _ => env.neighborFile ≠ none ∨ env.factorFile ≠ none
  | _ => levelsRead env.fs = 0

/-! ### The loops over the cache levels -/

section Levels

variable {fs : Sysfs}

theorem leaks_numcaches (fs : Sysfs) : Leaks (tracedNaGetNumcaches fs) (naGetNumcaches fs) 0 := by
  intro s
  rw [tracedNaGetNumcaches, popen_fclose]
  exact leaks_pure _ s

/-- Every pass leaves a stream. -/
theorem leaks_sharedCacheLevelLoop (res : Nat → Nat) (i remaining : Nat) :
    ∃ count, Leaks (tracedSharedCacheLevelLoop res i remaining)
      (sharedCacheLevelLoop res i remaining) count ∧ (count = 0 ↔ remaining = 0) := by
  induction remaining generalizing i with
  | zero => exact ⟨0, leaks_pure _, by simp⟩
  | succ remaining ih =>
      by_cases several : 1 < res i
      · refine ⟨1 + 0, leaks_popen_bind ?_, by omega⟩
        rw [if_pos several, sharedCacheLevelLoop, if_pos several]
        exact leaks_pure _
      · obtain ⟨count, leaks, -⟩ := ih (i + 1)
        refine ⟨1 + count, leaks_popen_bind ?_, by omega⟩
        rw [if_neg several, sharedCacheLevelLoop, if_neg several]
        exact leaks

theorem leaks_cacheCoresLoop (res : Nat → Nat) (i remaining : Nat) :
    ∃ count, Leaks (tracedCacheCoresLoop res i remaining) (cacheCoresLoop res i remaining) count ∧
      (count = 0 ↔ remaining = 0) := by
  induction remaining generalizing i with
  | zero => exact ⟨0, leaks_pure _, by simp⟩
  | succ remaining ih =>
      by_cases one : res i = 1
      · obtain ⟨count, leaks, -⟩ := ih (i + 1)
        refine ⟨1 + count, leaks_popen_bind ?_, by omega⟩
        rw [if_pos one, cacheCoresLoop, if_pos one]
        exact leaks
      · refine ⟨1 + 0, leaks_popen_bind ?_, by omega⟩
        rw [if_neg one, cacheCoresLoop, if_neg one]
        exact leaks_pure _

theorem leaks_sharedCacheLevel (fs : Sysfs) :
    ∃ count, Leaks (tracedNaGetSharedCacheLevel fs) (naGetSharedCacheLevel fs) count ∧
      (count = 0 ↔ levelsRead fs = 0) := by
  obtain ⟨count, leaks, exact⟩ := leaks_sharedCacheLevelLoop (pieces fs) 2 (levelsRead fs)
  exact ⟨0 + count, leaks_bind (leaks_numcaches fs) leaks, by rw [Nat.zero_add, exact]⟩

theorem leaks_cacheCores (fs : Sysfs) :
    ∃ count, Leaks (tracedNaGetCacheCores fs) (naGetCacheCores fs) count ∧
      (count = 0 ↔ levelsRead fs = 0) := by
  obtain ⟨count, leaks, exact⟩ := leaks_cacheCoresLoop (pieces fs) 2 (levelsRead fs)
  exact ⟨0 + count, leaks_bind (leaks_numcaches fs) leaks, by rw [Nat.zero_add, exact]⟩

theorem follows_cacheShareCores (fs : Sysfs) (core : Int) :
    Follows (tracedNaGetCacheShareCores fs core) (naGetCacheShareCores fs core) := by
  obtain ⟨_, level, -⟩ := leaks_sharedCacheLevel fs
  obtain ⟨_, cores, -⟩ := leaks_cacheCores fs
  rw [naGetCacheShareCores_eq]
  change Follows _ ((.ok (naGetSharedCacheLevel fs) : CResult Int) >>= fun shared =>
    (.ok (naGetCacheCores fs) : CResult Nat) >>= fun cacheCores =>
      shareCoresOfLine cacheCores core (fs.sharedCpuList core shared))
  refine follows_bind level.follows fun shared => follows_bind cores.follows fun cacheCores => ?_
  exact follows_fopen_bind (follows_fclose_bind (follows_lift _))

/-- A call leaves the streams of both loops. -/
theorem cacheShareCores_streams {core : Int} {s s' : Streams} {ids : CArray Int}
    (returned : tracedNaGetCacheShareCores fs core s = .ok (ids, s')) :
    ∃ count, s' = s.after count 0 ∧ (count = 0 ↔ levelsRead fs = 0) := by
  obtain ⟨first, level, firstIff⟩ := leaks_sharedCacheLevel fs
  obtain ⟨second, cores, secondIff⟩ := leaks_cacheCores fs
  obtain ⟨shared, s₁, ran, returned⟩ := traced_bind_ok.mp returned
  rw [level] at ran
  obtain ⟨rfl, rfl⟩ := Prod.mk.inj (Except.ok.inj ran)
  obtain ⟨cacheCores, s₂, ran, returned⟩ := traced_bind_ok.mp returned
  rw [cores] at ran
  obtain ⟨rfl, rfl⟩ := Prod.mk.inj (Except.ok.inj ran)
  rw [popen_fclose, Streams.after_after] at returned
  obtain rfl := keeps_lift _ _ _ _ returned
  exact ⟨first + second, rfl, by omega⟩

end Levels

/-! ### The callers -/

section Callers

variable {s s' : Streams}

theorem naGetCpusidsocket_eq (topo : ArchTopo) (fs : Sysfs) (socket : Int) :
    naGetCpusidsocket topo fs socket = (do
      let maxCoresS ← naGetCpussockets topo
      let collected ← forRange 0 topo.maxcpus (collectCore fs socket) (malloc maxCoresS, 0, none)
      let written ← forRange 0 maxCoresS
        (writeCore fs (min maxCoresS (naGetCacheCores fs - 1)) collected.1) (malloc maxCoresS, 0)
      pure written.1) := by
  simp only [naGetCpusidsocket, collectCores, bind_assoc]
  rfl

theorem follows_cpusidsocket (topo : ArchTopo) (fs : Sysfs) (socket : Int) :
    Follows (tracedNaGetCpusidsocket topo fs socket) (naGetCpusidsocket topo fs socket) := by
  obtain ⟨_, cores, -⟩ := leaks_cacheCores fs
  rw [naGetCpusidsocket_eq]
  refine follows_bind (follows_lift _) fun maxCoresS => ?_
  change Follows _ ((.ok (naGetCacheCores fs) : CResult Nat) >>= fun shared => do
    let collected ← forRange 0 topo.maxcpus (collectCore fs socket) (malloc maxCoresS, 0, none)
    let written ← forRange 0 maxCoresS
      (writeCore fs (min maxCoresS (shared - 1)) collected.1) (malloc maxCoresS, 0)
    pure written.1)
  refine follows_bind cores.follows fun shared => ?_
  refine follows_bind (follows_tracedRange (fun state i => ?_) _) fun collected =>
    follows_bind (follows_tracedRange (fun state i => ?_) _) fun written => follows_pure _
  · exact follows_fopen_bind (follows_fclose_bind (follows_lift _))
  · exact follows_bind (follows_lift _) fun core =>
      follows_bind (follows_cacheShareCores fs core) fun sCores =>
        follows_bind (follows_lift _) fun coresIds => follows_lift _

theorem leaks_maxneighbors (held : Int) (neighborFile : Option Text) :
    Leaks (tracedNaGetMaxneighbors held neighborFile) (naGetMaxneighbors held neighborFile) 0 := by
  intro s
  cases neighborFile with
  | some stream => exact (popen_fclose _ s).trans (leaks_pure _ s)
  | none => exact leaks_pure _ s

/-- With one of its files the traced call is the call. -/
theorem follows_nneighbors {maxnodes : Nat} {held node : Int} {neighborFile factorFile : Option Text}
    (present : neighborFile ≠ none ∨ factorFile ≠ none) :
    Follows (tracedNaGetNneighbors maxnodes held neighborFile factorFile node)
      (naGetNneighbors maxnodes held neighborFile factorFile node >>= fun ids => pure (some ids)) := by
  cases neighborFile with
  | some stream =>
      exact follows_fopen_bind (follows_bind (follows_lift _) fun nodeIds =>
        follows_fclose_bind (follows_pure _))
  | none =>
      cases factorFile with
      | none => simp at present
      | some stream =>
          refine follows_fopen_bind (follows_fopen_bind ?_)
          simp only [naGetNneighbors, bind_assoc]
          change Follows _ ((.ok (naGetMaxneighbors held none) : CResult Int) >>= fun n =>
            factorRows maxnodes node n stream >>= fun tmp =>
              selectNeighbors n.toNat (tmp, malloc n, 0) n.toNat >>= fun ids => pure (some ids))
          refine follows_bind (leaks_maxneighbors held none).follows fun n => ?_
          refine follows_bind (follows_lift _) fun tmp => follows_fclose_bind ?_
          exact follows_bind (follows_lift _) fun nodeIds => follows_pure _

/-- With one of its files the streams are as before. -/
theorem keeps_nneighbors {maxnodes : Nat} {held node : Int} {neighborFile factorFile : Option Text}
    (present : neighborFile ≠ none ∨ factorFile ≠ none) :
    Keeps (tracedNaGetNneighbors maxnodes held neighborFile factorFile node) := by
  cases neighborFile with
  | some stream => exact keeps_popen_fclose (keeps_lift _) fun nodeIds => keeps_pure _
  | none =>
      cases factorFile with
      | none => simp at present
      | some stream =>
          have missing : Keeps (fopen false) := fun s value s' opened =>
            (Prod.mk.inj (Except.ok.inj opened)).2.symm
          refine keeps_bind missing fun _ => ?_
          intro s ids s' returned
          refine @keeps_popen_fclose _ _
            (tracedNaGetMaxneighbors held none >>= fun n =>
              Traced.lift (factorRows maxnodes node n stream) >>= fun tmp => pure (n, tmp))
            (fun (n, tmp) => Traced.lift (selectNeighbors n.toNat (tmp, malloc n, 0) n.toNat) >>=
              fun nodeIds => pure (some nodeIds)) ?_ ?_ s ids s' ?_
          · exact keeps_bind (leaks_maxneighbors held none).keeps fun n =>
              keeps_bind (keeps_lift _) fun tmp => keeps_pure _
          · exact fun _ => keeps_bind (keeps_lift _) fun nodeIds => keeps_pure _
          · simp only [bind_assoc, pure_bind]
            exact returned

/-- And without both of them a call that returns has closed a null pointer. -/
theorem nneighbors_missing {maxnodes : Nat} {held node : Int} {ids : Option (CArray Int)}
    (returned : tracedNaGetNneighbors maxnodes held none none node s = .ok (ids, s')) :
    s' = s.after 0 1 := by
  obtain ⟨_, s₁, opened, returned⟩ := traced_bind_ok.mp returned
  obtain ⟨-, rfl⟩ := Prod.mk.inj (Except.ok.inj opened)
  obtain ⟨_, s₁, opened, returned⟩ := traced_bind_ok.mp returned
  obtain ⟨rfl, rfl⟩ := Prod.mk.inj (Except.ok.inj opened)
  obtain ⟨_, s₂, closed, returned⟩ := traced_bind_ok.mp returned
  obtain ⟨-, rfl⟩ := Prod.mk.inj (Except.ok.inj closed)
  by_cases more : 0 < held
  · rw [if_pos more] at returned
    cases returned
  · rw [if_neg more] at returned
    exact (Prod.mk.inj (Except.ok.inj returned)).2.symm

end Callers

/-! ### Runs -/

section Runs

variable {env : Environment} {call : LibraryCall} {s s' : Streams}

/-- What a call that returns does to the streams. -/
theorem runCall_streams (returned : runCall env call s = .ok ((), s')) :
    ∃ leaked nulls, s' = s.after leaked nulls ∧ (leaked = 0 ∧ nulls = 0 ↔ CallBalanced env call) := by
  cases call with
  | sharedCacheLevel =>
      obtain ⟨count, leaks, exact⟩ := leaks_sharedCacheLevel env.fs
      have streams := (leaks_bind leaks (leaks_pure ())).streams returned
      exact ⟨count, 0, streams, by rw [exact]; simp [CallBalanced]⟩
  | cacheCores =>
      obtain ⟨count, leaks, exact⟩ := leaks_cacheCores env.fs
      have streams := (leaks_bind leaks (leaks_pure ())).streams returned
      exact ⟨count, 0, streams, by rw [exact]; simp [CallBalanced]⟩
  | cacheShareCores core =>
      obtain ⟨ids, s₁, ran, result⟩ := traced_bind_ok.mp returned
      obtain ⟨count, rfl, exact⟩ := cacheShareCores_streams ran
      obtain rfl := keeps_pure () _ _ _ result
      exact ⟨count, 0, rfl, by rw [exact]; simp [CallBalanced]⟩
  | cpusidsocket socket =>
      -- this function never returns
      obtain ⟨ids, s₁, ran, -⟩ := traced_bind_ok.mp returned
      obtain ⟨fault, stopped⟩ := naGetCpusidsocket_fault env.topo env.fs socket
      rw [(follows_cpusidsocket env.topo env.fs socket).ok ran] at stopped
      cases stopped
  | nneighbors node =>
      by_cases present : env.neighborFile ≠ none ∨ env.factorFile ≠ none
      · have kept := keeps_bind (keeps_nneighbors present) (fun _ => keeps_pure ()) s () s' returned
        exact ⟨0, 0, kept.trans s.after_zero.symm, iff_of_true ⟨rfl, rfl⟩ present⟩
      · obtain ⟨ids, s₁, ran, result⟩ := traced_bind_ok.mp returned
        obtain rfl := keeps_pure () _ _ _ result
        simp only [ne_eq, not_or, not_not] at present
        rw [present.1, present.2] at ran
        exact ⟨0, 1, nneighbors_missing ran, by simp [CallBalanced, present]⟩

/-- What a sequence of calls that returns does to the streams. Nothing that is left or closed too often is
made up for by a later call, so unbalanced calls add up. -/
theorem runCalls_streams {steps : List (Environment × LibraryCall)}
    (returned : runCalls steps s = .ok ((), s')) :
    ∃ leaked nulls, s' = s.after leaked nulls ∧
      (leaked = 0 ∧ nulls = 0 ↔ ∀ step ∈ steps, CallBalanced step.1 step.2) ∧
      ((∀ step ∈ steps, ¬ CallBalanced step.1 step.2) → steps.length ≤ leaked + nulls) := by
  induction steps generalizing s with
  | nil =>
      obtain ⟨-, rfl⟩ := Prod.mk.inj (Except.ok.inj returned)
      exact ⟨0, 0, s.after_zero.symm, by simp, by simp⟩
  | cons step steps ih =>
      obtain ⟨_, s₁, first, rest⟩ := traced_bind_ok.mp returned
      obtain ⟨leaked, nulls, rfl, here⟩ := runCall_streams first
      obtain ⟨leaked', nulls', rfl, later, more⟩ := ih rest
      refine ⟨leaked + leaked', nulls + nulls', Streams.after_after _ _ _ _ _, ?_, fun unbalanced => ?_⟩
      · rw [List.forall_mem_cons, ← here, ← later]
        omega
      · have some : ¬ (leaked = 0 ∧ nulls = 0) := fun zero =>
          unbalanced step List.mem_cons_self (here.mp zero)
        have others := more fun other member => unbalanced other (List.mem_cons_of_mem _ member)
        rw [List.length_cons]
        omega

end Runs

/-- A sequence of calls that returns leaves as many streams open as there were, and closes no null pointer,
exactly when none of its calls passes through a loop over the cache levels and every call for neighbours
finds one of its files. -/
theorem streamBalance_iff {steps : List (Environment × LibraryCall)} {start final : Streams}
    (returned : runCalls steps start = .ok ((), final)) :
    (final.left = start.left ∧ final.nullCloses = start.nullCloses) ↔
      ∀ step ∈ steps, CallBalanced step.1 step.2 := by
  obtain ⟨leaked, nulls, rfl, balanced, -⟩ := runCalls_streams returned
  rw [← balanced, ← Streams.ext_iff]
  exact Streams.after_eq_self_iff

/-- The packages that share their second-level caches, with a file of one neighbour for each of two nodes. -/
def sharedPairsEnvironment : Environment where
  topo := sharedPairsTopo
  fs := sharedPairs
  neighborFile := some (streamOf ["1".toList, "1".toList, "0".toList])
  factorFile := none
  held := 0

theorem streamBalance_iff_neighbors :
    ∃ final, runCalls [(sharedPairsEnvironment, .nneighbors 1), (sharedPairsEnvironment, .nneighbors 0)]
      { left := 3, nullCloses := 0 } = .ok ((), final) ∧ final.left = 3 ∧ final.nullCloses = 0 := by
  have returned : runCalls
      [(sharedPairsEnvironment, .nneighbors 1), (sharedPairsEnvironment, .nneighbors 0)]
      { left := 3, nullCloses := 0 } = .ok ((), { left := 3, nullCloses := 0 }) := by decide
  have present : sharedPairsEnvironment.neighborFile ≠ none := by decide
  refine ⟨_, returned, (streamBalance_iff returned).mpr fun step member => ?_⟩
  simp only [List.mem_cons, List.not_mem_nil, or_false] at member
  rcases member with rfl | rfl
  · exact Or.inl present
  · exact Or.inl present

/-- One call for the siblings of a core: two pipes of the loops are still open. -/
theorem not_streamBalance_sharedPairs :
    ∃ final, runCalls [(sharedPairsEnvironment, .cacheShareCores 0)] { left := 0, nullCloses := 0 } =
      .ok ((), final) ∧ ¬ (final.left = 0 ∧ final.nullCloses = 0) :=
  ⟨{ left := 2, nullCloses := 0 }, by decide, by decide⟩

end Numafac
