/-
Module: Numafac.Lmbench.Benchmp
Layer: Lmbench
Purpose: The protocol of `benchmp`: the parent and its children over the pipe for responses and the three
  pipes for signals. A child is described by what it does to the pipes. Between two of its system calls any
  number of steps of the others may come, a read takes any part of the bytes that are there, and a child may
  die at any time. The parent may find at any of its waits that a child died, that it has been sent SIGTERM,
  or that the pipe for responses is broken. The invariant of all runs says what is in the pipes in each
  phase of the parent.
Trusted boundary: pipes keep the order of the bytes; a signal pipe is never full; a `select` that times out
  has no effect, and neither have the times that the parent waits; the allocations of the parent succeed
Main exports: Label, Shared, ErrorCause, Parent, effect, ParentStep, Stage, Worker, WorkerStep, protocol,
  Complete
-/
import Numafac.Base.Composition
import Numafac.Lmbench.ResultBytes

namespace Numafac.LibTiming

/-! ### The pipes -/

/-- What a child does between two points of its program. -/
inductive Label where
  | quiet
  | ready
  | seesStart
  | takesStart
  | done
  | seesResult
  | takesResult
  | writes (bytes : List Nat)
  | takesExit
  | dies
deriving DecidableEq, Repr

/-- What sends the parent to its error exit: the death of a child, SIGTERM, an exceptional condition of the
pipe for responses, or a read from it that fails. -/
inductive ErrorCause where
  | childDied
  | sigterm
  | exceptional
  | readFailed
deriving DecidableEq, Repr

/-- Where `benchmp_parent` is: in one of its two loops that count signals, in front of asking child `i`, in
the loop that reads its results, behind `set_results`, in its error exit, or behind a store outside of the
merged results. -/
inductive Parent where
  | ready (got : Nat)
  | done (got : Nat)
  | asking (i : Nat) (merged : Results)
  | reading (i : Nat) (buf : List Nat) (merged : Results)
  | finished (merged : Results)
  | failed (cause : ErrorCause)
  | faulted

/-- The parent is in its error exit. -/
def Parent.Failed (parent : Parent) : Prop :=
  ∃ cause, parent = .failed cause

/-- The parent still has its handler for SIGCHLD. -/
def Parent.watches : Parent → Bool
  | .ready _ | .done _ | .asking _ _ | .reading _ _ _ => true
  | .finished _ | .failed _ | .faulted => false

/-- The bytes in the pipes, and `benchmp_sigchld_received`. -/
structure Shared where
  parent : Parent
  response : List Nat
  start : Nat
  result : Nat
  exit : Nat
  sigchld : Bool

/-- What a step of a child does to the pipes. The bytes of the signals are any bytes. -/
def effect (label : Label) (g g' : Shared) : Prop :=
  match label with
  | .quiet => g' = g
  | .ready | .done => ∃ c, g' = { g with response := g.response ++ [c] }
  | .seesStart => 0 < g.start ∧ g' = g
  | .takesStart => 0 < g.start ∧ g' = { g with start := g.start - 1 }
  | .seesResult => 0 < g.result ∧ g' = g
  | .takesResult => 0 < g.result ∧ g' = { g with result := g.result - 1 }
  | .writes bytes => g' = { g with response := g.response ++ bytes }
  | .takesExit => 0 < g.exit ∧ g' = { g with exit := g.exit - 1, sigchld := g.sigchld || g.parent.watches }
  | .dies => g' = { g with sigchld := g.sigchld || g.parent.watches }

/-! ### The parent -/

/-- So many children and repetitions. Their product is an `int`, and so is `sizeof_result` of a child and of
the merged results. -/
structure Setup where
  format : FloatFormat
  parallel : Nat
  repetitions : Int
  product : -2 ^ 31 ≤ (parallel : Int) * repetitions
  fits : resultBytes repetitions < 2 ^ 31
  mergedFits : resultBytes (parallel * repetitions) < 2 ^ 31

variable (setup : Setup)

/-- The parent is in one of its loops, where it looks at the signals and the pipe before each read. -/
def Parent.Waits : Parent → Prop
  | .ready got | .done got => got < setup.parallel
  | .reading _ buf _ => buf.length < sizeofResult setup.repetitions
  | .asking _ _ | .finished _ | .failed _ | .faulted => False

/-- The steps of `benchmp_parent`. Each read takes at least one byte, and at most as many as it asks for. -/
inductive ParentStep : Shared → Shared → Prop where
  | readReady {g : Shared} {got k : Nat} (here : g.parent = .ready got) (some : 0 < k)
      (asked : k ≤ setup.parallel - got) (there : k ≤ g.response.length) :
      ParentStep g { g with parent := .ready (got + k), response := g.response.drop k }
  | sendStart {g : Shared} {got : Nat} (here : g.parent = .ready got) (all : setup.parallel ≤ got) :
      ParentStep g { g with parent := .done 0, start := g.start + setup.parallel }
  | readDone {g : Shared} {got k : Nat} (here : g.parent = .done got) (some : 0 < k)
      (asked : k ≤ setup.parallel - got) (there : k ≤ g.response.length) :
      ParentStep g { g with parent := .done (got + k), response := g.response.drop k }
  | collect {g : Shared} {got : Nat} (here : g.parent = .done got) (all : setup.parallel ≤ got) :
      ParentStep g { g with
        parent := .asking 0 (insertinit (malloc (entries (setup.parallel * setup.repetitions)))) }
  | ask {g : Shared} {i : Nat} {merged : Results} (here : g.parent = .asking i merged)
      (more : i < setup.parallel) :
      ParentStep g { g with parent := .reading i [] merged, result := g.result + 1 }
  | readResults {g : Shared} {i k : Nat} {buf : List Nat} {merged : Results}
      (here : g.parent = .reading i buf merged) (some : 0 < k)
      (asked : k ≤ sizeofResult setup.repetitions - buf.length) (there : k ≤ g.response.length) :
      ParentStep g { g with
        parent := .reading i (buf ++ g.response.take k) merged, response := g.response.drop k }
  | merge {g : Shared} {i : Nat} {buf : List Nat} {merged merged' : Results}
      (here : g.parent = .reading i buf merged) (all : sizeofResult setup.repetitions ≤ buf.length)
      (ran : mergeResults setup.format buf merged = .ok merged') :
      ParentStep g { g with parent := .asking (i + 1) merged' }
  | fault {g : Shared} {i : Nat} {buf : List Nat} {merged : Results} {fault : Fault}
      (here : g.parent = .reading i buf merged) (all : sizeofResult setup.repetitions ≤ buf.length)
      (ran : mergeResults setup.format buf merged = .error fault) :
      ParentStep g { g with parent := .faulted }
  | finish {g : Shared} {i : Nat} {merged : Results} (here : g.parent = .asking i merged)
      (all : setup.parallel ≤ i) :
      ParentStep g { g with parent := .finished merged, exit := g.exit + setup.parallel }
  | fail {g : Shared} (waits : g.parent.Waits setup) (died : g.sigchld = true) :
      ParentStep g { g with parent := .failed .childDied }
  -- the two signals are also looked at on entry, without a loop
  | giveUp {g : Shared} {cause : ErrorCause} (waits : g.parent.Waits setup ∨ g.parent = .ready 0)
      (other : cause ≠ .childDied) : ParentStep g { g with parent := .failed cause }

/-! ### The children -/

/-- Where a child is: running the benchmark before the start, having seen the start signal, having read it
before it was ready itself, measuring, running the benchmark after its measurement, having seen the signal
for its results, writing them with these bytes left, or gone. -/
inductive Stage where
  | warm
  | entering
  | late
  | timing
  | cool
  | called
  | sending (rest : List Nat)
  | gone
deriving DecidableEq, Repr

/-- A child as the others see it: whether it lives, whether it has sent its ready signal, and its results. -/
structure Worker where
  alive : Bool
  announced : Bool
  stage : Stage
  r : Results

/-- The results of a measurement: values with a time, at least one of them allowed. -/
def Complete (r : Results) : Prop :=
  ∃ values, Holds setup.format (entries setup.repetitions) values r ∧
    values.length ≤ max 1 setup.repetitions.toNat ∧ ∀ value ∈ values, value.u ≠ 0 ∧ value.Fits

section Complete

variable {setup}

theorem Complete.length {r : Results} (complete : Complete setup r) :
    8 + 16 * r.v.length = sizeofResult setup.repetitions := by
  obtain ⟨values, holds, -⟩ := complete
  have room := holds.room
  rw [holds.array, sizeofResult_eq setup.fits]
  simp only [malloc, List.length_append, CArray.length_filled, List.length_replicate]
  omega

/-- Results that are complete can be written. -/
theorem Complete.exists_written {r : Results} (complete : Complete setup r) : ∃ bytes, Written r bytes := by
  obtain ⟨values, holds, -, measured⟩ := complete
  let spare := entries setup.repetitions - values.length
  refine ⟨encode r.N 0 (values ++ List.replicate spare ⟨0, 0⟩), 0, _, rfl, ?_, ?_, ?_⟩
  · rw [holds.array]
    simp [malloc, spare]
  · intro value member
    rcases List.mem_append.mp member with own | zero
    · exact (measured value own).2
    · rw [List.eq_of_mem_replicate zero]
      exact ⟨by decide, by decide⟩
  · intro j value found
    rw [holds.array] at found
    by_cases inside : j < values.length
    · rw [List.getElem?_append_left (by simpa using inside)] at found ⊢
      simpa [CArray.filled] using found
    · rw [List.getElem?_append_right (by simpa using inside)] at found
      simp [malloc, List.getElem?_replicate] at found

end Complete

/-- The steps of a child. -/
inductive WorkerStep : Worker → Label → Worker → Prop where
  | run {w : Worker} (alive : w.alive = true) (here : w.stage = .warm ∨ w.stage = .cool) :
      WorkerStep w .quiet w
  | measure {w : Worker} (r : Results) (alive : w.alive = true) (here : w.stage = .timing) :
      WorkerStep w .quiet { w with r }
  | announce {w : Worker} (alive : w.alive = true) (here : w.stage = .warm) (first : w.announced = false) :
      WorkerStep w .ready { w with announced := true }
  | seeStart {w : Worker} (alive : w.alive = true) (here : w.stage = .warm) :
      WorkerStep w .seesStart { w with stage := .entering }
  | takeStart {w : Worker} (alive : w.alive = true) (here : w.stage = .entering) :
      WorkerStep w .takesStart { w with stage := if w.announced then .timing else .late }
  | announceLate {w : Worker} (alive : w.alive = true) (here : w.stage = .late) :
      WorkerStep w .ready { w with announced := true, stage := .timing }
  | complete {w : Worker} {r : Results} (alive : w.alive = true) (here : w.stage = .timing)
      (complete : Complete setup r) : WorkerStep w .done { w with stage := .cool, r }
  | seeResult {w : Worker} (alive : w.alive = true) (here : w.stage = .cool) :
      WorkerStep w .seesResult { w with stage := .called }
  | takeResult {w : Worker} {bytes : List Nat} (alive : w.alive = true) (here : w.stage = .called)
      (written : Written w.r bytes) : WorkerStep w .takesResult { w with stage := .sending bytes }
  | write {w : Worker} {piece rest : List Nat} (alive : w.alive = true)
      (here : w.stage = .sending (piece ++ rest)) (some : piece ≠ []) :
      WorkerStep w (.writes piece) { w with stage := .sending rest }
  | leave {w : Worker} (alive : w.alive = true) (here : w.stage = .sending []) :
      WorkerStep w .takesExit { w with stage := .gone }
  | die {w : Worker} (alive : w.alive = true) (here : w.stage ≠ .gone) :
      WorkerStep w .dies { w with alive := false }

/-- The rules of the protocol. -/
def protocol : Composite.Rules Worker Label Shared :=
  ⟨WorkerStep setup, effect, ParentStep setup⟩

/-- A child after `fork`. -/
def Worker.forked (r : Results) : Worker :=
  { alive := true, announced := false, stage := .warm, r }

/-- The parent when all children have been forked. -/
def Shared.initial : Shared :=
  { parent := .ready 0, response := [], start := 0, result := 0, exit := 0, sigchld := false }

end Numafac.LibTiming
