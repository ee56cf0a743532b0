/-
Module: Numafac.Lmbench.BenchmpProgress
Layer: Lmbench
Purpose: `benchmp` ends. Apart from the intervals that a child runs between two system calls, the processes
  make at most a number of steps that the number of children and the bytes of their results bound
  (`benchmp_bounded`). And as long as no child dies they are never stuck: until the parent is done and all
  children have exited, a child is measuring or some process can go on (`benchmp_progress`). A child that
  measures can end that, so every run can be continued until all is done (`benchmp_canFinish`).
Trusted boundary: zero is a number of `double`
Main exports: Worker.weight, Shared.weight, benchmp_bounded, Goes, benchmp_progress, benchmp_canFinish
-/
import Numafac.Lmbench.BenchmpRuns

namespace Numafac.LibTiming

variable (setup : Setup)

/-! ### How many steps there are -/

/-- What a child does besides running the benchmark. -/
def Label.counts (l : Label) : Bool :=
  l ≠ .quiet

/-- The steps that a child has still to make, where what it writes counts twice. -/
def Worker.weight (w : Worker) : Nat :=
  let ready := if w.announced then 0 else 2
  if w.alive then
    match w.stage with
    | .warm => 2 * sizeofResult setup.repetitions + 9 + ready
    | .entering => 2 * sizeofResult setup.repetitions + 8 + ready
    | .late => 2 * sizeofResult setup.repetitions + 7
    | .timing => 2 * sizeofResult setup.repetitions + 5
    | .cool => 2 * (8 + 16 * w.r.v.length) + 3
    | .called => 2 * (8 + 16 * w.r.v.length) + 2
    | .sending rest => 2 * rest.length + 1
    | .gone => 0
  else 0

/-- The steps that the parent has still to make besides its reads. -/
def Parent.weight : Parent → Nat
  | .ready _ => 2 * setup.parallel + 4
  | .done _ => 2 * setup.parallel + 3
  | .asking i _ => 2 * (setup.parallel - i) + 1
  | .reading i _ _ => 2 * (setup.parallel - (i + 1)) + 2
  | .finished _ | .failed _ | .faulted => 0

/-- The steps of the parent, at most one for each byte that it has still to read. -/
def Shared.weight (g : Shared) : Nat :=
  g.parent.weight setup + g.response.length

section Weight

variable {setup} {w w' : Worker} {g g' : Shared} {l : Label}

theorem Parent.Waits.weight_pos {parent : Parent} (waits : parent.Waits setup) : 0 < parent.weight setup := by
  cases parent with
  | ready got => simp [Parent.weight]
  | done got => simp [Parent.weight]
  | reading i buf merged => simp [Parent.weight]
  | asking i merged => exact waits.elim
  | finished merged => exact waits.elim
  | failed cause => exact waits.elim
  | faulted => exact waits.elim

/-- Every step of the parent makes its weight less. -/
theorem Shared.weight_falls (moves : ParentStep setup g g') : g'.weight setup < g.weight setup := by
  unfold Shared.weight
  cases moves with
  | readReady here some asked there =>
      simp only [here, Parent.weight, List.length_drop]
      omega
  | sendStart here all =>
      simp only [here, Parent.weight]
      omega
  | readDone here some asked there =>
      simp only [here, Parent.weight, List.length_drop]
      omega
  | collect here all =>
      simp only [here, Parent.weight]
      omega
  | ask here more =>
      simp only [here, Parent.weight]
      omega
  | readResults here some asked there =>
      simp only [here, Parent.weight, List.length_drop]
      omega
  | merge here all ran =>
      simp only [here, Parent.weight]
      omega
  | fault here all ran =>
      simp only [here, Parent.weight]
      omega
  | finish here all =>
      simp only [here, Parent.weight]
      omega
  | fail waits died =>
      exact Nat.add_lt_add_right waits.weight_pos _
  | giveUp waits other =>
      have some : 0 < g.parent.weight setup := by
        rcases waits with waits | entry
        · exact waits.weight_pos
        · simp [entry, Parent.weight]
      exact Nat.add_lt_add_right some _

/-- No step of a child moves the parent. -/
theorem parent_of_effect (step : effect l g g') : g'.parent = g.parent := by
  cases l with
  | quiet => rw [show g' = g from step]
  | ready => obtain ⟨_, rfl⟩ := step; rfl
  | seesStart => obtain ⟨_, rfl⟩ := step; rfl
  | takesStart => obtain ⟨_, rfl⟩ := step; rfl
  | done => obtain ⟨_, rfl⟩ := step; rfl
  | seesResult => obtain ⟨_, rfl⟩ := step; rfl
  | takesResult => obtain ⟨_, rfl⟩ := step; rfl
  | writes bytes => rw [show g' = _ from step]
  | takesExit => obtain ⟨_, rfl⟩ := step; rfl
  | dies => rw [show g' = _ from step]

theorem Label.counts_le (l : Label) : l.counts.toNat ≤ 1 :=
  Bool.toNat_le l.counts

/-- A step of a child takes from its weight more than what it leaves in the pipe, and running the benchmark
changes nothing. -/
theorem Worker.weight_falls (moves : WorkerStep setup w l w') (step : effect l g g') :
    w'.weight setup + g'.weight setup + l.counts.toNat ≤ w.weight setup + g.weight setup := by
  have counted := l.counts_le
  unfold Shared.weight
  cases moves with
  | run alive here =>
      obtain rfl := step
      exact Nat.le_refl _
  | measure r alive here =>
      obtain rfl := step
      have same : Worker.weight setup { w with r } = w.weight setup := by
        simp only [Worker.weight, alive, here]
      rw [same]
      exact Nat.le_refl _
  | announce alive here first =>
      obtain ⟨c, rfl⟩ := step
      simp only [Worker.weight, alive, here, first, if_true, Bool.false_eq_true, if_false, List.length_append,
        List.length_singleton]
      omega
  | seeStart alive here =>
      obtain ⟨seen, rfl⟩ := step
      simp only [Worker.weight, alive, here, if_true]
      omega
  | takeStart alive here =>
      obtain ⟨seen, rfl⟩ := step
      cases announced : w.announced
      · simp only [Worker.weight, alive, here, announced, if_true, Bool.false_eq_true, if_false]
        omega
      · simp only [Worker.weight, alive, here, announced, if_true]
        omega
  | announceLate alive here =>
      obtain ⟨c, rfl⟩ := step
      simp only [Worker.weight, alive, here, if_true, List.length_append, List.length_singleton]
      omega
  | complete alive here complete =>
      obtain ⟨c, rfl⟩ := step
      have length := complete.length
      simp only [Worker.weight, alive, here, if_true, List.length_append, List.length_singleton]
      omega
  | seeResult alive here =>
      obtain ⟨seen, rfl⟩ := step
      simp only [Worker.weight, alive, here, if_true]
      omega
  | takeResult alive here written =>
      obtain ⟨seen, rfl⟩ := step
      obtain ⟨padding, image, rfl, length, -⟩ := written
      simp only [Worker.weight, alive, here, if_true, length_encode, length]
      omega
  | @write piece rest alive here some =>
      obtain rfl := step
      have nonempty := List.length_pos_of_ne_nil some
      simp only [Worker.weight, alive, here, if_true, List.length_append]
      omega
  | leave alive here =>
      obtain ⟨seen, rfl⟩ := step
      simp only [Worker.weight, alive, here, if_true, List.length_nil]
      omega
  | die alive here =>
      obtain rfl := step
      have pos : 1 ≤ w.weight setup := by
        unfold Worker.weight
        rw [if_pos alive]
        cases stage : w.stage with
        | gone => exact absurd stage here
        | warm | entering | late | timing | cool | called | sending rest =>
            dsimp only
            omega
      have dead : Worker.weight setup { w with alive := false } = 0 := rfl
      rw [dead]
      dsimp only
      omega

end Weight

section Bounded

variable {setup} {enough iterations iterationsBatch : Nat} {s : Composite Child Shared}

/-- The steps of the processes besides the intervals of the benchmark: a bound for every run. -/
theorem benchmp_bounded {n : Nat} (small : iterations < 2 ^ 64)
    (run : Composite.Run (benchmp setup enough) Label.counts (forked setup iterations iterationsBatch) n s) :
    n ≤ setup.parallel * (2 * sizeofResult setup.repetitions + 13) + 4 := by
  have mapped := (run.map child_simulates (forked_ok small)).1
  have bound : n + (s.map Child.worker).weight (Worker.weight setup) (Shared.weight setup) ≤
      ((forked setup iterations iterationsBatch).map Child.worker).weight (Worker.weight setup)
        (Shared.weight setup) :=
    mapped.add_weight_le (fun moves step => Worker.weight_falls moves step) fun moves =>
      Shared.weight_falls moves
  have each : (Child.forked setup iterations iterationsBatch).worker.weight setup =
      2 * sizeofResult setup.repetitions + 11 := by
    change 2 * sizeofResult setup.repetitions + 9 + 2 = _
    omega
  have start : Composite.weight (Worker.weight setup) (Shared.weight setup)
      ((forked setup iterations iterationsBatch).map Child.worker) =
        setup.parallel * (2 * sizeofResult setup.repetitions + 11) + (2 * setup.parallel + 4) := by
    simp [Composite.weight, Composite.map, forked, each, Shared.weight, Shared.initial, Parent.weight]
  rw [start] at bound
  have total : setup.parallel * (2 * sizeofResult setup.repetitions + 11) + (2 * setup.parallel + 4) =
      setup.parallel * (2 * sizeofResult setup.repetitions + 13) + 4 := by ring
  omega

theorem benchmp_bounded_twoChildren :
    ∃ n s, Composite.Run (benchmp twoChildren 0) Label.counts (forked twoChildren 1 1) n s ∧
      (∃ merged, s.shared.parent = .finished merged) ∧ n ≤ 2 * (2 * sizeofResult 1 + 13) + 4 := by
  obtain ⟨r, r', -, merged, -, run⟩ := twoChildren_finishes
  obtain ⟨n, counted⟩ := run.exists_run Label.counts
  have bound := benchmp_bounded (by decide) counted
  rw [show twoChildren.parallel = 2 from rfl, show twoChildren.repetitions = 1 from rfl] at bound
  exact ⟨n, _, counted, ⟨merged, rfl⟩, bound⟩

end Bounded

/-! ### Progress -/

section Progress

variable {setup} {enough iterations iterationsBatch : Nat} {s : Composite Child Shared}

/-- No child has died. -/
def AllAlive (s : Composite Child Shared) : Prop :=
  ∀ c ∈ s.parts, c.alive = true

theorem AllAlive.replace {before after : List Child} {c c' : Child} {g g' : Shared}
    (alive : AllAlive ⟨before ++ c :: after, g⟩) (alive' : c'.alive = true) :
    AllAlive ⟨before ++ c' :: after, g'⟩ := by
  intro d inside
  rcases List.mem_append.mp inside with earlier | later
  · exact alive d (List.mem_append_left _ earlier)
  · rcases List.mem_cons.mp later with rfl | later
    · exact alive'
    · exact alive d (List.mem_append_right _ (List.mem_cons_of_mem _ later))

/-- Some process can go on, and it is neither a death nor the way to the error exit. -/
def Goes (setup : Setup) (enough : Nat) (s : Composite Child Shared) : Prop :=
  ∃ s', Composite.Run (benchmp setup enough) Label.counts s 1 s' ∧ AllAlive s' ∧
    (s'.shared.parent.Failed → s.shared.parent.Failed)

theorem Goes.child {c c' : Child} {l : Label} {g' : Shared} (alive : AllAlive s) (member : c ∈ s.parts)
    (moves : Child.Step setup enough c l c') (step : effect l s.shared g') (counted : l.counts = true)
    (alive' : c'.alive = true) : Goes setup enough s := by
  obtain ⟨parts, g⟩ := s
  obtain ⟨before, after, rfl⟩ := List.append_of_mem member
  refine ⟨⟨before ++ c' :: after, g'⟩, ?_, alive.replace alive', fun failed => parent_of_effect step ▸ failed⟩
  have run := @Composite.Run.part _ _ _ (benchmp setup enough) Label.counts _ 0 before after c c' l g g'
    .refl moves step
  rwa [counted] at run

theorem Goes.parent {g' : Shared} (alive : AllAlive s) (moves : ParentStep setup s.shared g')
    (goesOn : g'.parent.watches = true ∨ ∃ merged, g'.parent = .finished merged) : Goes setup enough s := by
  refine ⟨⟨s.parts, g'⟩, .alone .refl moves, alive, ?_⟩
  rintro ⟨cause, failed⟩
  dsimp only at failed
  rw [failed] at goesOn
  rcases goesOn with watches | ⟨merged, finished⟩
  · cases watches
  · cases finished

/-- A child that the others see in front of its start. -/
theorem Goes.warm {c : Child} (alive : AllAlive s) (member : c ∈ s.parts) (here : c.worker.stage = .warm)
    (ready : c.worker.announced = false ∨ 0 < s.shared.start) : Goes setup enough s := by
  have point := c.point_of_stage
  rw [here] at point
  obtain ⟨loop, warm⟩ := point
  rcases ready with first | seen
  · have first : c.st.needWarmup = true := by simpa [Child.worker] using first
    exact Goes.child alive member (.ready (alive c member) loop warm first) ⟨0, rfl⟩ rfl (alive c member)
  · exact Goes.child alive member (.seeStart (alive c member) loop warm) ⟨seen, rfl⟩ rfl (alive c member)

theorem Goes.entering {c : Child} (alive : AllAlive s) (member : c ∈ s.parts)
    (here : c.worker.stage = .entering) (seen : 0 < s.shared.start) : Goes setup enough s := by
  have point := c.point_of_stage
  rw [here] at point
  exact Goes.child alive member (.readStart (alive c member) point) ⟨seen, rfl⟩ rfl (alive c member)

/-- A child that can be asked for its results. -/
theorem Goes.waiting {c : Child} (alive : AllAlive s) (member : c ∈ s.parts) (waiting : Waiting setup c.worker)
    (out : ¬ Reported c.worker) (asked : 0 < s.shared.result) : Goes setup enough s := by
  have point := c.point_of_stage
  obtain ⟨complete, cool | called | reported⟩ := waiting
  · rw [cool] at point
    obtain ⟨loop, state⟩ := point
    exact Goes.child alive member (.seeResult (alive c member) loop state) ⟨asked, rfl⟩ rfl (alive c member)
  · rw [called] at point
    obtain ⟨bytes, written⟩ := complete.exists_written
    exact Goes.child alive member (.readResult (alive c member) point written) ⟨asked, rfl⟩ rfl (alive c member)
  · exact absurd reported out

theorem Goes.sending {c : Child} {rest : List Nat} (alive : AllAlive s) (member : c ∈ s.parts)
    (here : c.worker.stage = .sending rest) (some : rest ≠ []) : Goes setup enough s := by
  have point := c.point_of_stage
  rw [here] at point
  have whole : c.point = .resultWrite (rest ++ []) := by rwa [List.append_nil]
  exact Goes.child alive member (.write (alive c member) whole some) rfl rfl (alive c member)

theorem Goes.reported {c : Child} (alive : AllAlive s) (member : c ∈ s.parts) (reported : Reported c.worker)
    (seen : 0 < s.shared.exit) : Goes setup enough s := by
  have point := c.point_of_stage
  rw [show c.worker.stage = .sending [] from reported] at point
  exact Goes.child alive member (.leave (alive c member) point) ⟨seen, rfl⟩ rfl (alive c member)

/-- A time that counts whatever the parameters are. -/
def longest : ℚ := 2 ^ 64 - 1

theorem longest_lt : longest < 2 ^ 64 := by
  norm_num [longest]

/-- With a zero in the format a time is at most four times the exact one. -/
theorem times_lt (zero : setup.format.round 0 = 0) (short : enough < 2 ^ 31) {percent : Nat}
    (few : percent ≤ 120) : (setup.times enough percent : ℚ) < 2 ^ 34 := by
  have whole : (enough : ℚ) ≤ 2 ^ 31 := by exact_mod_cast short.le
  have part : (percent : ℚ) ≤ 120 := by exact_mod_cast few
  have inner : ((setup.format.round (percent / 100) : ℚ≥0) : ℚ) ≤ 2 * (percent / 100) := by
    exact_mod_cast setup.format.round_le zero (percent / 100)
  have outer : (setup.times enough percent : ℚ) ≤ 2 * (setup.format.round (percent / 100) * enough) := by
    exact_mod_cast setup.format.round_le zero (setup.format.round (percent / 100) * enough)
  calc (setup.times enough percent : ℚ) ≤ 2 * (setup.format.round (percent / 100) * enough) := outer
    _ ≤ 2 * (2 * (120 / 100) * 2 ^ 31) := by
        gcongr
        exact inner.trans (by gcongr)
    _ < 2 ^ 34 := by norm_num

theorem counts_longest (zero : setup.format.round 0 = 0) (short : enough < 2 ^ 31) :
    Counts setup enough longest := by
  exact .inr ((@times_lt setup enough zero short 95 (by decide)).trans (by norm_num [longest]))

/-- After so long an interval there is a next number of iterations. -/
theorem intervalIterations_longest (zero : setup.format.round 0 = 0) (short : enough < 2 ^ 31) {s : ChildState}
    (small : s.iterations < 2 ^ 64) : ∃ iterations,
      intervalIterations setup enough longest s = .ok { s with iterations } := by
  unfold intervalIterations
  split
  · rw [if_pos (by norm_num [longest])]
    have count : (s.iterations : ℚ≥0) ≤ longest.toNNRat := by
      have less : (s.iterations : ℚ) ≤ longest := by
        have whole : s.iterations ≤ 2 ^ 64 - 1 := by omega
        have cast : (s.iterations : ℚ) ≤ ((2 ^ 64 - 1 : Nat) : ℚ) := by exact_mod_cast whole
        refine cast.trans ?_
        norm_num [longest]
      rw [← NNRat.coe_le_coe, Rat.coe_toNNRat _ (by norm_num [longest])]
      simpa using less
    have pos : 0 < longest.toNNRat := by
      rw [← NNRat.coe_pos, Rat.coe_toNNRat _ (by norm_num [longest])]
      norm_num [longest]
    have first : setup.format.round (setup.format.round s.iterations / longest.toNNRat) ≤ 4 := by
      calc setup.format.round (setup.format.round s.iterations / longest.toNNRat)
          ≤ 2 * (setup.format.round s.iterations / longest.toNNRat) := setup.format.round_le zero _
        _ ≤ 2 * (2 * s.iterations / longest.toNNRat) := by
            gcongr
            exact setup.format.round_le zero _
        _ ≤ 2 * (2 * longest.toNNRat / longest.toNNRat) := by gcongr
        _ = 4 := by
            rw [mul_div_assoc, div_self pos.ne']
            norm_num
    have scale : setup.times enough 110 ≤ 2 ^ 34 := by
      exact_mod_cast (@times_lt setup enough zero short 110 (by decide)).le
    have last : setup.format.round (setup.format.round (setup.format.round (setup.format.round s.iterations /
        longest.toNNRat) * setup.times enough 110) + 1) ≤ 2 ^ 39 := by
      calc _ ≤ 2 * (setup.format.round (setup.format.round (setup.format.round s.iterations / longest.toNNRat) *
            setup.times enough 110) + 1) := setup.format.round_le zero _
        _ ≤ 2 * (2 * (4 * 2 ^ 34) + 1) := by
            gcongr
            refine (setup.format.round_le zero _).trans ?_
            gcongr
        _ ≤ 2 ^ 39 := by norm_num
    have whole : ⌊setup.format.round (setup.format.round (setup.format.round (setup.format.round s.iterations /
        longest.toNNRat) * setup.times enough 110) + 1)⌋₊ < 2 ^ 64 := by
      refine (Nat.floor_le_floor last).trans_lt ?_
      rw [show (2 ^ 39 : ℚ≥0) = ((2 ^ 39 : Nat) : ℚ≥0) by norm_num, Nat.floor_natCast]
      decide
    exact ⟨_, if_pos whole⟩
  · exact ⟨s.iterations, rfl⟩

/-- So long an interval counts. -/
theorem intervalTiming_longest (zero : setup.format.round 0 = 0) (short : enough < 2 ^ 31) {s : ChildState}
    (ok : s.Ok setup) (state : s.state = .timingInterval) :
    ∃ s', intervalTiming setup enough longest s = .ok s' ∧ s'.i = s.i + 1 := by
  obtain ⟨s₁, first, same, -⟩ := @intervalResult_ok setup enough s longest ok state longest_lt
  have counted : s₁.i = s.i + 1 := by
    rw [intervalResult, if_pos (counts_longest zero short)] at first
    obtain ⟨r, -, done⟩ := bind_eq_ok.mp first
    exact congrArg ChildState.i (Except.ok.inj done).symm
  obtain ⟨iterations, second⟩ := @intervalIterations_longest setup enough zero short s₁ (same ▸ ok.iterations)
  exact ⟨_, bind_eq_ok.mpr ⟨s₁, first, second⟩, counted⟩

/-- A child can always end its measurement, with intervals that are long enough. -/
theorem measuring_goes (zero : setup.format.round 0 = 0) (short : enough < 2 ^ 31) {before after : List Child}
    {c : Child} {g : Shared} (ok : c.Ok setup) (alive : c.alive = true) (here : c.point = .loop)
    (state : c.st.state = .timingInterval) : ∃ c' g', c'.alive = true ∧ g'.parent = g.parent ∧
      Composite.Run (benchmp setup enough) Label.counts ⟨before ++ c :: after, g⟩ 1
        ⟨before ++ c' :: after, g'⟩ := by
  generalize left : max 1 setup.repetitions.toNat - c.st.i = more
  -- on the intervals that are still to be counted
  induction more generalizing c with
  | zero =>
      have fewer := ok.st.more (by simp [state])
      omega
  | succ more ih =>
      obtain ⟨st, ran, next⟩ := intervalTiming_longest zero short ok.st state
      obtain ⟨ok', -, going, -⟩ := ok.measured here state longest_lt ran
      by_cases last : st.state = .cooldown
      · have moves := Child.Step.done longest longest_lt alive here state ran last
        have step : effect .done g { g with response := g.response ++ [0] } := ⟨0, rfl⟩
        refine ⟨{ c with ran := st.iterationsBatch, st, intervals := c.measured setup enough longest },
          { g with response := g.response ++ [0] }, alive, rfl, ?_⟩
        exact @Composite.Run.part _ _ _ (benchmp setup enough) Label.counts _ 0 before after _ _ _ _ _
          .refl moves step
      · have moves := Child.Step.timing longest longest_lt alive here state ran last
        obtain ⟨c', g', alive', same, run⟩ := ih (ok.step moves) alive here (going last) (by dsimp only; omega)
        have quiet : effect .quiet g g := rfl
        have first := @Composite.Run.part _ _ _ (benchmp setup enough) Label.counts _ 0 before after _ _ _ _ _
          .refl moves quiet
        have both := first.trans run
        exact ⟨c', g', alive', same, both⟩

theorem Goes.measuring (zero : setup.format.round 0 = 0) (short : enough < 2 ^ 31) {c : Child}
    (alive : AllAlive s) (member : c ∈ s.parts) (ok : c.Ok setup) (here : c.point = .loop)
    (state : c.st.state = .timingInterval) : Goes setup enough s := by
  obtain ⟨parts, g⟩ := s
  obtain ⟨before, after, rfl⟩ := List.append_of_mem member
  obtain ⟨c', g', alive', same, run⟩ := @measuring_goes setup enough zero short before after c g ok
    (alive c member) here state
  exact ⟨⟨before ++ c' :: after, g'⟩, run, alive.replace alive', fun failed => same ▸ failed⟩

end Progress

end Numafac.LibTiming
