/-
Module: Numafac.Lmbench.Interval
Layer: Lmbench
Purpose: A child of `benchmp`: `benchmp_child` calls `benchmp_interval` again and again, which waits for the
  start signal, measures until it has its results, and waits for the signals to report them and to exit.
  `Child.Step` follows it from one system call to the next. However long the intervals were, a child never
  stores outside of its results, ends with at most as many values as it was asked for (but at least one),
  and does to the pipes what the protocol says (`child_simulates`).
Trusted boundary: the translation of `benchmp_interval`; the parent does not end first; the times that are
  measured are arbitrary numbers below 2 ^ 64
Main exports: BenchmpState, ChildState, intervalTiming, Point, Child, Child.Step, Child.Ok, Child.worker,
  child_simulates
-/
import Mathlib.Data.Rat.Floor
import Numafac.Lmbench.Benchmp

namespace Numafac.LibTiming

/-- `benchmp_state`. -/
inductive BenchmpState where
  | warmup
  | timingInterval
  | cooldown
deriving DecidableEq, Repr

/-- `benchmp_child_state`, the fields that change. -/
structure ChildState where
  state : BenchmpState
  iterations : Nat
  iterationsBatch : Nat
  needWarmup : Bool
  i : Nat
  r : Results

variable (setup : Setup) (enough : Nat)

/-- `percent * state->enough` in `double`, with the constant given in hundredths. -/
def Setup.times (percent : Nat) : ℚ≥0 :=
  setup.format.round (setup.format.round (percent / 100) * enough)

/-- `(uint64)result`, or zero for a negative one: what `gettime` gives afterwards. -/
def usecs (result : ℚ) : Nat :=
  if 0 ≤ result then ⌊result⌋.toNat else 0

/-- The interval is long enough to count. -/
def Counts (result : ℚ) : Prop :=
  1 < setup.parallel ∨ (setup.times enough 95 : ℚ) < result

instance (result : ℚ) : Decidable (Counts setup enough result) :=
  inferInstanceAs (Decidable (1 < setup.parallel ∨ (setup.times enough 95 : ℚ) < result))

/-- The first part of `timing_interval`. -/
def intervalResult (result : ℚ) (s : ChildState) : CResult ChildState :=
  if Counts setup enough result then do
    let r ← insertsort setup.format (usecs result) s.iterations s.r
    let i := s.i + 1
    pure { s with r, i, state := if setup.repetitions ≤ i then .cooldown else s.state }
  else .ok s

/-- The second part: the number of iterations of the next interval. A number that is no `iter_t` is not
converted. -/
def intervalIterations (result : ℚ) (s : ChildState) : CResult ChildState :=
  if setup.parallel = 1 ∧ (result < setup.times enough 99 ∨ (setup.times enough 120 : ℚ) < result) then
    if 150 < result then
      let tmp := setup.format.round (setup.format.round s.iterations / result.toNNRat)
      let tmp := setup.format.round (tmp * setup.times enough 110)
      let iterations := ⌊setup.format.round (tmp + 1)⌋₊
      if iterations < 2 ^ 64 then .ok { s with iterations } else .error .intOverflow
    else
      let iterations := (s.iterations <<< 3) % 2 ^ 64
      .ok { s with
        iterations
        state := if 1 <<< 27 < iterations ∨ result < 0 ∧ 1 <<< 20 < iterations then .cooldown else s.state }
  else .ok s

/-- `case timing_interval`, up to the signal that the child is done. -/
def intervalTiming (result : ℚ) (s : ChildState) : CResult ChildState := do
  let s ← intervalResult setup enough result s
  intervalIterations setup enough result s

/-- Where a child is: in the benchmark or in front of its next interval, in front of reading the start
signal, of its ready signal after that, of reading the signal for its results, of writing the rest of them,
or behind `exit`. -/
inductive Point where
  | loop
  | startRead
  | readyWrite
  | resultRead
  | resultWrite (rest : List Nat)
  | exited
deriving DecidableEq, Repr

/-- A child process. The benchmark has `ran` so many iterations when `benchmp_interval` is called again.
`intervals` are the ones that counted, with their time and their iterations. -/
structure Child where
  alive : Bool
  point : Point
  ran : Nat
  st : ChildState
  intervals : List Value

/-- The intervals that counted after the next one. -/
def Child.measured (result : ℚ) (c : Child) : List Value :=
  if Counts setup enough result then c.intervals ++ [⟨usecs result, c.ran⟩] else c.intervals

/-- `benchmp_child` from one system call to the next. -/
inductive Child.Step : Child → Label → Child → Prop where
  | warm {c : Child} (alive : c.alive = true) (here : c.point = .loop) (state : c.st.state = .warmup)
      (again : c.st.needWarmup = false) : Step c .quiet { c with ran := c.st.iterationsBatch }
  | ready {c : Child} (alive : c.alive = true) (here : c.point = .loop) (state : c.st.state = .warmup)
      (first : c.st.needWarmup = true) :
      Step c .ready { c with ran := c.st.iterationsBatch, st := { c.st with needWarmup := false } }
  | seeStart {c : Child} (alive : c.alive = true) (here : c.point = .loop) (state : c.st.state = .warmup) :
      Step c .seesStart { c with point := .startRead, st := { c.st with state := .timingInterval } }
  | readStart {c : Child} (alive : c.alive = true) (here : c.point = .startRead) :
      Step c .takesStart { c with
        point := if c.st.needWarmup then .readyWrite else .loop
        ran := c.st.iterations }
  | readyLate {c : Child} (alive : c.alive = true) (here : c.point = .readyWrite) :
      Step c .ready { c with point := .loop, ran := c.st.iterations, st := { c.st with needWarmup := false } }
  | timing {c : Child} {st : ChildState} (result : ℚ) (small : result < 2 ^ 64) (alive : c.alive = true)
      (here : c.point = .loop) (state : c.st.state = .timingInterval)
      (ran : intervalTiming setup enough result c.st = .ok st) (more : st.state ≠ .cooldown) :
      Step c .quiet { c with ran := st.iterations, st, intervals := c.measured setup enough result }
  | done {c : Child} {st : ChildState} (result : ℚ) (small : result < 2 ^ 64) (alive : c.alive = true)
      (here : c.point = .loop) (state : c.st.state = .timingInterval)
      (ran : intervalTiming setup enough result c.st = .ok st) (last : st.state = .cooldown) :
      Step c .done { c with ran := st.iterationsBatch, st, intervals := c.measured setup enough result }
  | cool {c : Child} (alive : c.alive = true) (here : c.point = .loop) (state : c.st.state = .cooldown) :
      Step c .quiet { c with ran := c.st.iterationsBatch }
  | seeResult {c : Child} (alive : c.alive = true) (here : c.point = .loop)
      (state : c.st.state = .cooldown) : Step c .seesResult { c with point := .resultRead }
  | readResult {c : Child} {bytes : List Nat} (alive : c.alive = true) (here : c.point = .resultRead)
      (written : Written c.st.r bytes) : Step c .takesResult { c with point := .resultWrite bytes }
  | write {c : Child} {piece rest : List Nat} (alive : c.alive = true)
      (here : c.point = .resultWrite (piece ++ rest)) (some : piece ≠ []) :
      Step c (.writes piece) { c with point := .resultWrite rest }
  | leave {c : Child} (alive : c.alive = true) (here : c.point = .resultWrite []) :
      Step c .takesExit { c with point := .exited }
  | die {c : Child} (alive : c.alive = true) (here : c.point ≠ .exited) :
      Step c .dies { c with alive := false }

/-! ### The measurement -/

/-- The results so far: at most one for each counted interval. -/
def Counted (r : Results) (i : Nat) : Prop :=
  ∃ values, Holds setup.format (entries setup.repetitions) values r ∧ values.length ≤ i ∧
    ∀ value ∈ values, value.u ≠ 0 ∧ value.Fits

/-- What a child keeps while it measures. -/
structure ChildState.Ok (s : ChildState) : Prop where
  counted : Counted setup s.r s.i
  iterations : s.iterations < 2 ^ 64
  more : s.state ≠ .cooldown → s.i < max 1 setup.repetitions.toNat
  enough : s.i ≤ max 1 setup.repetitions.toNat

section Timing

variable {setup} {enough} {s : ChildState} {result : ℚ}

theorem usecs_lt (small : result < 2 ^ 64) : usecs result < 2 ^ 64 := by
  unfold usecs
  split
  · have floor : ⌊result⌋ < 2 ^ 64 := Int.floor_lt.mpr (by exact_mod_cast small)
    omega
  · decide

theorem one_le_entries (setup : Setup) : max 1 setup.repetitions.toNat ≤ entries setup.repetitions := by
  rw [entries_eq setup.fits]
  omega

/-- What one call does to the state while the child measures: `new` are the intervals that count. -/
structure Measures (setup : Setup) (new : List Value) (s s' : ChildState) : Prop where
  ok : s'.Ok setup
  needWarmup : s'.needWarmup = s.needWarmup
  going : s'.state ≠ .cooldown → s'.state = s.state
  recorded : (valuesOf s'.r).Perm (valuesOf s.r ++ measuredPairs new)

/-- The first part never stores outside of the results. -/
theorem intervalResult_ok (ok : s.Ok setup) (state : s.state = .timingInterval) (small : result < 2 ^ 64) :
    ∃ s', intervalResult setup enough result s = .ok s' ∧ s'.iterations = s.iterations ∧
      Measures setup (if Counts setup enough result then [⟨usecs result, s.iterations⟩] else []) s s' := by
  obtain ⟨⟨values, holds, few, measured⟩, iterations, more, -⟩ := ok
  have open' := more (by simp [state])
  have wide := one_le_entries setup
  unfold intervalResult
  split
  · have after : ∀ {r : Results}, Counted setup r (s.i + 1) → ChildState.Ok setup
        { s with
          r, i := s.i + 1,
          state := if setup.repetitions ≤ (s.i + 1 : Nat) then .cooldown else s.state } := by
      intro r counted
      refine ⟨counted, iterations, ?_, open'⟩
      intro notCool
      dsimp only at notCool ⊢
      split at notCool
      · exact absurd rfl notCool
      · omega
    have going : (if setup.repetitions ≤ (s.i + 1 : Nat) then BenchmpState.cooldown else s.state) ≠ .cooldown →
        (if setup.repetitions ≤ (s.i + 1 : Nat) then BenchmpState.cooldown else s.state) = s.state := by
      intro notCool
      split at notCool
      · exact absurd rfl notCool
      · rename_i fewer
        exact if_neg fewer
    by_cases none : usecs result = 0
    · refine ⟨_, bind_eq_ok.mpr ⟨s.r, if_pos none, rfl⟩, rfl,
        after ⟨values, holds, by omega, measured⟩, rfl, going,
        ?_⟩
      simp [measuredPairs, none]
    · obtain ⟨r, ran, holds'⟩ := holds.insertsort (by omega) none s.iterations
      refine ⟨_, bind_eq_ok.mpr ⟨r, ran, rfl⟩, rfl, after ⟨_, holds', ?_, ?_⟩, rfl, going, ?_⟩
      · rw [length_insertBefore]
        omega
      · intro value member
        rcases List.mem_cons.mp ((perm_insertBefore _ _ values).mem_iff.mp member) with rfl | old
        · exact ⟨none, usecs_lt small, iterations⟩
        · exact measured value old
      · have one : measuredPairs [⟨usecs result, s.iterations⟩] = [⟨usecs result, s.iterations⟩] := by
          simp [measuredPairs, none]
        rw [one, holds'.valuesOf, holds.valuesOf]
        exact (perm_insertBefore _ _ values).trans (List.perm_append_singleton _ _).symm
  · exact ⟨s, rfl, rfl, ⟨⟨values, holds, few, measured⟩, iterations, more, open'.le⟩, rfl, fun _ => rfl,
      by simp [measuredPairs]⟩

/-- The second part changes the number of iterations and may end the measurement. -/
theorem intervalIterations_ok {s' : ChildState} (ok : s.Ok setup)
    (ran : intervalIterations setup enough result s = .ok s') : Measures setup [] s s' := by
  obtain ⟨counted, iterations, more, enough'⟩ := ok
  have same : (valuesOf s.r).Perm (valuesOf s.r ++ measuredPairs []) := by simp [measuredPairs]
  unfold intervalIterations at ran
  split at ran
  · split at ran
    · dsimp only at ran
      split at ran
      · rename_i small
        obtain rfl := Except.ok.inj ran
        exact ⟨⟨counted, small, more, enough'⟩, rfl, fun _ => rfl, same⟩
      · cases ran
    · obtain rfl := Except.ok.inj ran
      refine ⟨⟨counted, Nat.mod_lt _ (by decide), ?_, enough'⟩, rfl, ?_, same⟩
      · intro notCool
        dsimp only at notCool
        split at notCool
        · exact absurd rfl notCool
        · exact more notCool
      · intro notCool
        dsimp only at notCool ⊢
        split at notCool
        · exact absurd rfl notCool
        · rename_i short
          exact if_neg short
  · obtain rfl := Except.ok.inj ran
    exact ⟨⟨counted, iterations, more, enough'⟩, rfl, fun _ => rfl, same⟩

/-- The second part fails on no store. -/
theorem intervalIterations_error {fault : Fault}
    (failed : intervalIterations setup enough result s = .error fault) :
    fault = .intOverflow := by
  unfold intervalIterations at failed
  split at failed
  · split at failed
    · dsimp only at failed
      split at failed
      · cases failed
      · exact (Except.error.inj failed).symm
    · cases failed
  · cases failed

theorem intervalTiming_ok {s' : ChildState} (ok : s.Ok setup) (state : s.state = .timingInterval)
    (small : result < 2 ^ 64) (ran : intervalTiming setup enough result s = .ok s') :
    Measures setup (if Counts setup enough result then [⟨usecs result, s.iterations⟩] else []) s s' := by
  obtain ⟨s₁, first, -, measures⟩ := @intervalResult_ok setup enough s result ok state small
  obtain ⟨s₂, first', second⟩ := bind_eq_ok.mp ran
  obtain rfl := Except.ok.inj (first.symm.trans first')
  obtain ⟨ok', warm', going', recorded'⟩ := intervalIterations_ok measures.ok second
  refine ⟨ok', warm'.trans measures.needWarmup, fun notCool => ?_, ?_⟩
  · have same := going' notCool
    exact same.trans (measures.going (same ▸ notCool))
  · simp only [measuredPairs, List.filter_nil, List.append_nil] at recorded'
    exact recorded'.trans measures.recorded

/-- While it measures a child never stores outside of its results: an interval of any length fails only on a
number of iterations that is no `iter_t`. -/
theorem intervalTiming_error {fault : Fault} (ok : s.Ok setup) (state : s.state = .timingInterval)
    (small : result < 2 ^ 64) (failed : intervalTiming setup enough result s = .error fault) :
    fault = .intOverflow := by
  obtain ⟨s₁, first, -⟩ := @intervalResult_ok setup enough s result ok state small
  have second : intervalIterations setup enough result s₁ = .error fault := by
    rwa [intervalTiming, first] at failed
  exact intervalIterations_error second

end Timing

/-! ### The child in the protocol -/

/-- Where the child is in the protocol. -/
def Child.stage (c : Child) : Stage :=
  match c.point with
  | .loop =>
      match c.st.state with
      | .warmup => .warm
      | .timingInterval => .timing
      | .cooldown => .cool
  | .startRead => .entering
  | .readyWrite => .late
  | .resultRead => .called
  | .resultWrite rest => .sending rest
  | .exited => .gone

/-- The child as the others see it. -/
def Child.worker (c : Child) : Worker :=
  { alive := c.alive, announced := !c.st.needWarmup, stage := c.stage, r := c.st.r }

/-- Where a child is that the others see in a stage. -/
theorem Child.point_of_stage (c : Child) :
    match c.worker.stage with
    | .warm => c.point = .loop ∧ c.st.state = .warmup
    | .entering => c.point = .startRead
    | .late => c.point = .readyWrite
    | .timing => c.point = .loop ∧ c.st.state = .timingInterval
    | .cool => c.point = .loop ∧ c.st.state = .cooldown
    | .called => c.point = .resultRead
    | .sending rest => c.point = .resultWrite rest
    | .gone => c.point = .exited := by
  unfold Child.worker Child.stage
  cases point : c.point with
  | loop =>
      cases state : c.st.state with
      | warmup => exact ⟨rfl, rfl⟩
      | timingInterval => exact ⟨rfl, rfl⟩
      | cooldown => exact ⟨rfl, rfl⟩
  | startRead => rfl
  | readyWrite => rfl
  | resultRead => rfl
  | resultWrite rest => rfl
  | exited => rfl

/-- The states in which a child can be at a point. -/
def Child.Placed (c : Child) : Prop :=
  match c.point with
  | .loop => (c.st.state = .warmup ∨ c.st.needWarmup = false) ∧
      (c.st.state = .timingInterval → c.ran = c.st.iterations)
  | .startRead => c.st.state = .timingInterval
  | .readyWrite => c.st.state = .timingInterval ∧ c.st.needWarmup = true
  | .resultRead | .resultWrite _ | .exited => c.st.state = .cooldown ∧ c.st.needWarmup = false

/-- What every step of a child keeps: its results are the intervals that counted and took time. -/
structure Child.Ok (c : Child) : Prop where
  st : c.st.Ok setup
  placed : c.Placed
  recorded : (valuesOf c.st.r).Perm (measuredPairs c.intervals)

section Simulation

variable {setup} {enough} {c c' : Child} {label : Label}

/-- A state without another number of counted intervals, results or measurement. -/
theorem ChildState.Ok.of_same {s s' : ChildState} (ok : s.Ok setup) (r : s'.r = s.r) (i : s'.i = s.i)
    (iterations : s'.iterations = s.iterations) (more : s'.state ≠ .cooldown → s.state ≠ .cooldown) :
    s'.Ok setup := by
  obtain ⟨counted, small, open', enough'⟩ := ok
  refine ⟨?_, ?_, ?_, ?_⟩
  · rwa [r, i]
  · rwa [iterations]
  · rw [i]
    exact fun notCool => open' (more notCool)
  · rwa [i]

/-- An interval adds what it counts to the results. -/
theorem Child.Ok.measured {st' : ChildState} {result : ℚ} (ok : c.Ok setup) (here : c.point = .loop)
    (state : c.st.state = .timingInterval) (small : result < 2 ^ 64)
    (ran : intervalTiming setup enough result c.st = .ok st') :
    st'.Ok setup ∧ st'.needWarmup = false ∧ (st'.state ≠ .cooldown → st'.state = .timingInterval) ∧
      (valuesOf st'.r).Perm (measuredPairs (c.measured setup enough result)) := by
  obtain ⟨st, placed, recorded⟩ := ok
  rw [Child.Placed, here] at placed
  obtain ⟨announced, same⟩ := placed
  obtain ⟨ok', warm, going, recorded'⟩ := intervalTiming_ok st state small ran
  refine ⟨ok', warm.trans (announced.resolve_left (by simp [state])), fun more => (going more).trans state, ?_⟩
  refine recorded'.trans ((recorded.append_right _).trans (.of_eq ?_))
  unfold Child.measured
  split
  · rw [same state, measuredPairs, measuredPairs, measuredPairs, List.filter_append]
  · simp [measuredPairs]

theorem Child.Ok.step (ok : c.Ok setup) (moves : Child.Step setup enough c label c') : c'.Ok setup := by
  have before := ok
  obtain ⟨st, placed, recorded⟩ := ok
  unfold Child.Placed at placed
  cases moves with
  | warm alive here state again =>
      refine ⟨st, ?_, recorded⟩
      rw [here] at placed
      rw [Child.Placed, here]
      exact ⟨placed.1, fun timing => by simp [state] at timing⟩
  | ready alive here state first =>
      refine ⟨st.of_same rfl rfl rfl id, ?_, recorded⟩
      rw [Child.Placed, here]
      exact ⟨.inr rfl, fun timing => by simp [state] at timing⟩
  | seeStart alive here state =>
      refine ⟨st.of_same rfl rfl rfl fun _ => ?_, rfl, recorded⟩
      rw [state]
      decide
  | readStart alive here =>
      rw [here] at placed
      refine ⟨st, ?_, recorded⟩
      cases late : c.st.needWarmup
      · exact ⟨.inr late, fun _ => rfl⟩
      · exact ⟨placed, late⟩
  | readyLate alive here => exact ⟨st.of_same rfl rfl rfl id, ⟨.inr rfl, fun _ => rfl⟩, recorded⟩
  | timing result small alive here state ran more =>
      obtain ⟨ok', announced, -, recorded'⟩ := before.measured here state small ran
      refine ⟨ok', ?_, recorded'⟩
      rw [Child.Placed, here]
      exact ⟨.inr announced, fun _ => rfl⟩
  | done result small alive here state ran last =>
      obtain ⟨ok', announced, -, recorded'⟩ := before.measured here state small ran
      refine ⟨ok', ?_, recorded'⟩
      rw [Child.Placed, here]
      exact ⟨.inr announced, fun timing => by simp [last] at timing⟩
  | cool alive here state =>
      refine ⟨st, ?_, recorded⟩
      rw [here] at placed
      rw [Child.Placed, here]
      exact ⟨placed.1, fun timing => by simp [state] at timing⟩
  | seeResult alive here state =>
      rw [here, state] at placed
      exact ⟨st, ⟨state, placed.1.resolve_left (by decide)⟩, recorded⟩
  | readResult alive here written =>
      rw [here] at placed
      exact ⟨st, placed, recorded⟩
  | write alive here some =>
      rw [here] at placed
      exact ⟨st, placed, recorded⟩
  | leave alive here =>
      rw [here] at placed
      exact ⟨st, placed, recorded⟩
  | die alive here => exact ⟨st, placed, recorded⟩

/-- Results that an ended measurement leaves are complete. -/
theorem ChildState.Ok.complete {s : ChildState} (ok : s.Ok setup) : Complete setup s.r := by
  obtain ⟨⟨values, holds, few, measured⟩, -, -, enough'⟩ := ok
  exact ⟨values, holds, few.trans enough', measured⟩

theorem Child.Ok.follows (ok : c.Ok setup) (moves : Child.Step setup enough c label c') :
    WorkerStep setup c.worker label c'.worker := by
  have placed := ok.placed
  unfold Child.Placed at placed
  cases moves with
  | warm alive here state again =>
      exact .run alive (.inl (by simp [Child.worker, Child.stage, here, state]))
  | ready alive here state first =>
      have moved : WorkerStep setup c.worker .ready { c.worker with announced := true } :=
        .announce alive (by simp [Child.worker, Child.stage, here, state]) (by simp [Child.worker, first])
      exact moved
  | seeStart alive here state =>
      have moved : WorkerStep setup c.worker .seesStart { c.worker with stage := .entering } :=
        .seeStart alive (by simp [Child.worker, Child.stage, here, state])
      exact moved
  | readStart alive here =>
      rw [here] at placed
      have moved : WorkerStep setup c.worker .takesStart
          { c.worker with stage := if c.worker.announced then .timing else .late } :=
        .takeStart alive (by simp [Child.worker, Child.stage, here])
      cases late : c.st.needWarmup
      · simpa [Child.worker, Child.stage, late, placed] using moved
      · simpa [Child.worker, Child.stage, late] using moved
  | readyLate alive here =>
      rw [here] at placed
      have moved : WorkerStep setup c.worker .ready { c.worker with announced := true, stage := .timing } :=
        .announceLate alive (by simp [Child.worker, Child.stage, here])
      simpa [Child.worker, Child.stage, placed.1] using moved
  | @timing st' result small alive here state ran more =>
      obtain ⟨-, announced', going, -⟩ := ok.measured here state small ran
      replace going := going more
      rw [here, state] at placed
      have announced := placed.1.resolve_left (by decide)
      have stage : c.worker.stage = .timing := by simp [Child.worker, Child.stage, here, state]
      have moved : WorkerStep setup c.worker .quiet { c.worker with r := st'.r } := .measure st'.r alive stage
      simpa [Child.worker, Child.stage, here, state, going, announced, announced'] using moved
  | @done st' result small alive here state ran last =>
      obtain ⟨ok', announced', -⟩ := ok.measured here state small ran
      rw [here, state] at placed
      have announced := placed.1.resolve_left (by decide)
      have stage : c.worker.stage = .timing := by simp [Child.worker, Child.stage, here, state]
      have moved := WorkerStep.complete (w := c.worker) alive stage ok'.complete
      simpa [Child.worker, Child.stage, here, last, announced, announced'] using moved
  | cool alive here state =>
      exact .run alive (.inr (by simp [Child.worker, Child.stage, here, state]))
  | seeResult alive here state =>
      have moved : WorkerStep setup c.worker .seesResult { c.worker with stage := .called } :=
        .seeResult alive (by simp [Child.worker, Child.stage, here, state])
      exact moved
  | readResult alive here written =>
      exact .takeResult (w := c.worker) alive (by simp [Child.worker, Child.stage, here]) written
  | write alive here some =>
      exact .write (w := c.worker) alive (by simp [Child.worker, Child.stage, here]) some
  | leave alive here => exact .leave (w := c.worker) alive (by simp [Child.worker, Child.stage, here])
  | die alive here =>
      refine .die (w := c.worker) alive ?_
      unfold Child.worker Child.stage
      cases place : c.point with
      | loop => cases c.st.state <;> simp
      | startRead => simp
      | readyWrite => simp
      | resultRead => simp
      | resultWrite rest => simp
      | exited => exact absurd place here

/-- A child of `benchmp` keeps to the protocol. -/
theorem child_simulates :
    Composite.Simulates (Child.Step setup enough) (WorkerStep setup) (Child.Ok setup) Child.worker :=
  ⟨Child.Ok.step, Child.Ok.follows⟩

end Simulation

end Numafac.LibTiming
