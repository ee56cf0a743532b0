/-
Module: Numafac.Lmbench.BenchmpRuns
Layer: Lmbench
Purpose: The runs of `benchmp` after the last `fork`: `benchmp_parent` with all its children, in any
  interleaving. The children are abstracted to the protocol, so its invariant holds in every state that is
  reached. What the parent ends with are the results of all children, each once, in order
  (`finished_results`); no child is still measuring when the first one is asked for its results
  (`collecting_stopped`); the parent gives up for a death only when a child died, and stores outside of its
  results only for more than eleven children without repetitions (`benchmp_faults`).
Trusted boundary: the last `fork` has succeeded, every allocation succeeds
Main exports: benchmp, Child.forked, forked, reached, finished_results, collecting_stopped, benchmp_faults
-/
import Numafac.Lmbench.BenchmpInvariant
import Numafac.Lmbench.Interval

namespace Numafac.LibTiming

variable (setup : Setup) (enough : Nat)

/-- The parent and the children of `benchmp`. -/
def benchmp : Composite.Rules Child Label Shared :=
  ⟨Child.Step setup enough, effect, ParentStep setup⟩

/-- A child in front of its first interval. -/
def Child.forked (iterations iterationsBatch : Nat) : Child :=
  { alive := true
    point := .loop
    ran := 0
    st :=
      { state := .warmup
        iterations
        iterationsBatch
        needWarmup := true
        i := 0
        r := insertinit (malloc (entries setup.repetitions)) }
    intervals := [] }

/-- All processes when all children have been forked. -/
def forked (iterations iterationsBatch : Nat) : Composite Child Shared :=
  ⟨List.replicate setup.parallel (Child.forked setup iterations iterationsBatch), Shared.initial⟩

/-- The intervals of the children that counted and took time. -/
def measuredBy (children : List Child) : Multiset Value :=
  (children : Multiset Child).bind fun c => (measuredPairs c.intervals : Multiset Value)

/-! ### One child -/

/-- Two children and one measurement. -/
def twoChildren : Setup :=
  ⟨FloatFormat.fixedPoint 52, 2, 1, by decide, by decide, by decide⟩

/-- The only interval of a child, and the results that it writes. -/
theorem twoChildren_interval {u : Nat} (some : u ≠ 0) (fits : u < 2 ^ 64) : ∃ r bytes,
    intervalTiming twoChildren 0 u ⟨.timingInterval, 1, 1, false, 0, insertinit (malloc (entries 1))⟩ =
      .ok ⟨.cooldown, 1, 1, false, 1, r⟩ ∧ Holds twoChildren.format (entries 1) [⟨u, 1⟩] r ∧
    Written r bytes ∧ bytes.length = sizeofResult 1 := by
  obtain ⟨r, inserted, holds⟩ : ∃ r, insertsort twoChildren.format u 1
      (insertinit (malloc (entries 1))) = .ok r ∧
      Holds twoChildren.format (entries 1) [⟨u, 1⟩] r :=
    (holds_insertinit twoChildren.format (entries 1)).insertsort (by decide) some 1
  have complete : Complete twoChildren r := by
    refine ⟨[⟨u, 1⟩], holds, Nat.le_refl 1, ?_⟩
    simp only [List.forall_mem_singleton]
    exact ⟨some, fits, show 1 < 2 ^ 64 by decide⟩
  obtain ⟨bytes, written⟩ := complete.exists_written
  have whole : usecs u = u := by simp [usecs]
  refine ⟨r, bytes, bind_eq_ok.mpr ⟨⟨.cooldown, 1, 1, false, 1, r⟩, ?_, ?_⟩, holds, written, ?_⟩
  · rw [intervalResult, if_pos (.inl (by decide)), whole]
    exact bind_eq_ok.mpr ⟨r, inserted, rfl⟩
  · exact if_neg fun single => absurd single.1 (by decide)
  · refine length_written written (by decide) ?_
    rw [holds.array, entries_eq (by decide)]
    simp [malloc]

/-- The pipes while all children live. -/
def pipes (parent : Parent) (response : List Nat) (start result exit : Nat) : Shared :=
  { parent, response, start, result, exit, sigchld := false }

/-- A child in front of its measurement. -/
def timingChild : Child :=
  { alive := true
    point := .loop
    ran := 1
    st := ⟨.timingInterval, 1, 1, false, 0, insertinit (malloc (entries 1))⟩
    intervals := [] }

/-- A child behind its measurement. -/
def coolChild (point : Point) (u : Nat) (r : Results) : Child :=
  { alive := true, point, ran := 1, st := ⟨.cooldown, 1, 1, false, 1, r⟩, intervals := [⟨u, 1⟩] }

section TwoChildren

variable {c c' d : Child} {l : Label} {g g' : Shared}

theorem twoChildren_first (moves : Child.Step twoChildren 0 c l c') (step : effect l g g') :
    Composite.Step (benchmp twoChildren 0) ⟨[c, d], g⟩ ⟨[c', d], g'⟩ :=
  @Composite.Step.part _ _ _ (benchmp twoChildren 0) [] [d] c c' l g g' moves step

theorem twoChildren_second (moves : Child.Step twoChildren 0 c l c') (step : effect l g g') :
    Composite.Step (benchmp twoChildren 0) ⟨[d, c], g⟩ ⟨[d, c'], g'⟩ :=
  @Composite.Step.part _ _ _ (benchmp twoChildren 0) [d] [] c c' l g g' moves step

/-- Both children start to measure. -/
theorem twoChildren_start : Composite.Steps (benchmp twoChildren 0) (forked twoChildren 1 1)
    ⟨[timingChild, timingChild], pipes (.done 0) [] 0 0 0⟩ := by
  let warm : Child := ⟨true, .loop, 1, ⟨.warmup, 1, 1, false, 0, insertinit (malloc (entries 1))⟩, []⟩
  let entering : Child := { timingChild with point := .startRead }
  calc Composite.Steps (benchmp twoChildren 0) (forked twoChildren 1 1)
        ⟨[warm, Child.forked twoChildren 1 1], pipes (.ready 0) [0] 0 0 0⟩ :=
        .single (twoChildren_first (.ready rfl rfl rfl rfl) ⟨0, rfl⟩)
    Composite.Step (benchmp twoChildren 0) _ ⟨[warm, warm], pipes (.ready 0) [0, 0] 0 0 0⟩ :=
        twoChildren_second (.ready rfl rfl rfl rfl) ⟨0, rfl⟩
    Composite.Step (benchmp twoChildren 0) _ ⟨[warm, warm], pipes (.ready 2) [] 0 0 0⟩ :=
        .alone (.readReady rfl Nat.zero_lt_two (Nat.le_refl 2) (Nat.le_refl 2))
    Composite.Step (benchmp twoChildren 0) _ ⟨[warm, warm], pipes (.done 0) [] 2 0 0⟩ :=
        .alone (.sendStart rfl (Nat.le_refl 2))
    Composite.Step (benchmp twoChildren 0) _ ⟨[warm, entering], pipes (.done 0) [] 2 0 0⟩ :=
        twoChildren_second (.seeStart rfl rfl rfl) ⟨Nat.zero_lt_two, rfl⟩
    Composite.Step (benchmp twoChildren 0) _ ⟨[entering, entering], pipes (.done 0) [] 2 0 0⟩ :=
        twoChildren_first (.seeStart rfl rfl rfl) ⟨Nat.zero_lt_two, rfl⟩
    Composite.Step (benchmp twoChildren 0) _ ⟨[timingChild, entering], pipes (.done 0) [] 1 0 0⟩ :=
        twoChildren_first (.readStart rfl rfl) ⟨Nat.zero_lt_two, rfl⟩
    Composite.Step (benchmp twoChildren 0) _ ⟨[timingChild, timingChild], pipes (.done 0) [] 0 0 0⟩ :=
        twoChildren_second (.readStart rfl rfl) ⟨Nat.zero_lt_one, rfl⟩

/-- The end of a child's measurement. -/
theorem timingChild_done {u : Nat} (fits : u < 2 ^ 64) {r : Results}
    (ran : intervalTiming twoChildren 0 u timingChild.st = .ok ⟨.cooldown, 1, 1, false, 1, r⟩) :
    Child.Step twoChildren 0 timingChild .done (coolChild .loop u r) := by
  have step := @Child.Step.done twoChildren 0 timingChild _ u (by exact_mod_cast fits) rfl rfl rfl ran rfl
  have whole : usecs u = u := by simp [usecs]
  rw [Child.measured, if_pos (.inl (by decide)), whole] at step
  exact step

/-- Both children have measured, and the parent collects. -/
theorem twoChildren_measure {u v : Nat} (fits : u < 2 ^ 64) (fits' : v < 2 ^ 64) {r r' : Results}
    (ran : intervalTiming twoChildren 0 u timingChild.st = .ok ⟨.cooldown, 1, 1, false, 1, r⟩)
    (ran' : intervalTiming twoChildren 0 v timingChild.st = .ok ⟨.cooldown, 1, 1, false, 1, r'⟩) :
    Composite.Steps (benchmp twoChildren 0) (forked twoChildren 1 1)
      ⟨[coolChild .loop u r, coolChild .loop v r'],
        pipes (.asking 0 (insertinit (malloc (entries (2 * 1))))) [] 0 0 0⟩ := by
  calc Composite.Steps (benchmp twoChildren 0) (forked twoChildren 1 1)
        ⟨[timingChild, timingChild], pipes (.done 0) [] 0 0 0⟩ := twoChildren_start
    Composite.Step (benchmp twoChildren 0) _ ⟨[timingChild, coolChild .loop v r'], pipes (.done 0) [0] 0 0 0⟩ :=
        twoChildren_second (timingChild_done fits' ran') ⟨0, rfl⟩
    Composite.Step (benchmp twoChildren 0) _ ⟨[timingChild, coolChild .loop v r'], pipes (.done 1) [] 0 0 0⟩ :=
        .alone (.readDone rfl Nat.zero_lt_one Nat.one_lt_two.le (Nat.le_refl 1))
    Composite.Step (benchmp twoChildren 0) _
        ⟨[coolChild .loop u r, coolChild .loop v r'], pipes (.done 1) [0] 0 0 0⟩ :=
        twoChildren_first (timingChild_done fits ran) ⟨0, rfl⟩
    Composite.Step (benchmp twoChildren 0) _
        ⟨[coolChild .loop u r, coolChild .loop v r'], pipes (.done 2) [] 0 0 0⟩ :=
        .alone (.readDone rfl Nat.zero_lt_one (Nat.le_refl 1) (Nat.le_refl 1))
    Composite.Step (benchmp twoChildren 0) _ ⟨[coolChild .loop u r, coolChild .loop v r'],
        pipes (.asking 0 (insertinit (malloc (entries (2 * 1))))) [] 0 0 0⟩ :=
        .alone (.collect rfl (Nat.le_refl 2))

/-- The parent asks for results, a child in its cooldown writes them, and the parent merges them. -/
theorem twoChildren_report {before after : List Child} {u i : Nat} {r merged merged' : Results}
    {bytes : List Nat}
    (more : i < 2) (written : Written r bytes) (size : bytes.length = sizeofResult 1)
    (ran : mergeResults twoChildren.format bytes merged = .ok merged') :
    Composite.Steps (benchmp twoChildren 0)
      ⟨before ++ coolChild .loop u r :: after, pipes (.asking i merged) [] 0 0 0⟩
      ⟨before ++ coolChild (.resultWrite []) u r :: after, pipes (.asking (i + 1) merged') [] 0 0 0⟩ := by
  have some : bytes ≠ [] := by
    rintro rfl
    exact twoChildren.sizeofResult_pos.ne size
  have read : ParentStep twoChildren (pipes (.reading i [] merged) bytes 0 0 0)
      (pipes (.reading i bytes merged) [] 0 0 0) := by
    have step := @ParentStep.readResults twoChildren
        (pipes (.reading i [] merged) bytes 0 0 0) i bytes.length []
      merged rfl (List.length_pos_of_ne_nil some) size.le (Nat.le_refl _)
    simpa [pipes] using step
  have child {c c' : Child} {l : Label} {g g' : Shared} (moves : Child.Step twoChildren 0 c l c')
      (step : effect l g g') : Composite.Step (benchmp twoChildren 0) ⟨before ++ c :: after, g⟩
        ⟨before ++ c' :: after, g'⟩ := .part moves step
  calc Composite.Steps (benchmp twoChildren 0)
        ⟨before ++ coolChild .loop u r :: after, pipes (.asking i merged) [] 0 0 0⟩
        ⟨before ++ coolChild .loop u r :: after, pipes (.reading i [] merged) [] 0 1 0⟩ :=
        .single (.alone (.ask rfl more))
    Composite.Step (benchmp twoChildren 0) _
        ⟨before ++ coolChild .resultRead u r :: after, pipes (.reading i [] merged) [] 0 1 0⟩ :=
        child (.seeResult rfl rfl rfl) ⟨Nat.zero_lt_one, rfl⟩
    Composite.Step (benchmp twoChildren 0) _
        ⟨before ++ coolChild (.resultWrite bytes) u r :: after, pipes (.reading i [] merged) [] 0 0 0⟩ :=
        child (.readResult rfl rfl written) ⟨Nat.zero_lt_one, rfl⟩
    Composite.Step (benchmp twoChildren 0) _
        ⟨before ++ coolChild (.resultWrite []) u r :: after, pipes (.reading i [] merged) bytes 0 0 0⟩ :=
        child (.write rfl (congrArg Point.resultWrite (List.append_nil bytes).symm) some) rfl
    Composite.Step (benchmp twoChildren 0) _
        ⟨before ++ coolChild (.resultWrite []) u r :: after, pipes (.reading i bytes merged) [] 0 0 0⟩ :=
        .alone read
    Composite.Step (benchmp twoChildren 0) _
        ⟨before ++ coolChild (.resultWrite []) u r :: after, pipes (.asking (i + 1) merged') [] 0 0 0⟩ :=
        .alone (.merge rfl size.ge ran)

/-- A run in which the children measure five and seven microseconds. The second one is asked first; then the
parent ends with the results of both. -/
theorem twoChildren_finishes : ∃ r r' merged merged', Composite.Steps (benchmp twoChildren 0)
      (forked twoChildren 1 1)
      ⟨[coolChild .loop 5 r, coolChild (.resultWrite []) 7 r'], pipes (.asking 1 merged) [] 0 0 0⟩ ∧
    Composite.Steps (benchmp twoChildren 0) (forked twoChildren 1 1)
      ⟨[coolChild (.resultWrite []) 5 r, coolChild (.resultWrite []) 7 r'],
        pipes (.finished merged') [] 0 0 2⟩ := by
  obtain ⟨r, bytes, ran, holds, written, size⟩ := @twoChildren_interval 5 (by decide) (by decide)
  obtain ⟨r', bytes', ran', holds', written', size'⟩ := @twoChildren_interval 7 (by decide) (by decide)
  obtain ⟨merged, values, first, held, perm⟩ :=
    @Holds.insertAll twoChildren.format (entries (2 * 1)) [] _ (holds_insertinit _ _) [⟨7, 1⟩] (by decide)
  have length : values.length = 1 := perm.length_eq
  obtain ⟨merged', -, second, -⟩ := @Holds.insertAll _ _ _ _ held [⟨5, 1⟩] (by rw [length]; decide)
  rw [← mergeResults_eq holds' (by decide) written'] at first
  rw [← mergeResults_eq holds (by decide) written] at second
  have asked := (twoChildren_measure (by decide) (by decide) ran ran').trans
    (@twoChildren_report [coolChild .loop 5 r] [] 7 0 r' _ merged bytes' Nat.zero_lt_two written' size' first)
  have reported := asked.trans (@twoChildren_report [] [coolChild (.resultWrite []) 7 r'] 5 1 r
    merged merged' bytes Nat.one_lt_two written size second)
  exact ⟨r, r', merged, merged', asked, reported.tail (.alone (.finish rfl (Nat.le_refl 2)))⟩

end TwoChildren

section Runs

variable {setup} {enough} {iterations iterationsBatch : Nat} {s : Composite Child Shared}

theorem Child.forked_ok (small : iterations < 2 ^ 64) :
    (Child.forked setup iterations iterationsBatch).Ok setup := by
  refine ⟨⟨⟨[], holds_insertinit setup.format _, Nat.le_refl 0, ?_⟩, small, fun _ => ?_, Nat.zero_le _⟩, ?_, ?_⟩
  · exact fun value member => (nomatch member)
  · exact lt_of_lt_of_le Nat.zero_lt_one (Nat.le_max_left _ _)
  · exact ⟨Or.inl rfl, fun timing => nomatch timing⟩
  · exact .of_eq (holds_insertinit setup.format (entries setup.repetitions)).valuesOf

theorem forked_ok (small : iterations < 2 ^ 64) :
    ∀ c ∈ (forked setup iterations iterationsBatch).parts, c.Ok setup := by
  intro c member
  rw [List.eq_of_mem_replicate member]
  exact Child.forked_ok small

/-- Every state that is reached is a state of the protocol, and its children are in order. -/
theorem reached (small : iterations < 2 ^ 64)
    (run : Composite.Steps (benchmp setup enough) (forked setup iterations iterationsBatch) s) :
    Invariant setup (s.parts.map Child.worker) s.shared ∧ ∀ c ∈ s.parts, c.Ok setup := by
  obtain ⟨mapped, ok⟩ := run.map child_simulates (forked_ok small)
  refine ⟨Invariant.run setup ?_ ?_ mapped, ok⟩
  · intro w member
    obtain ⟨c, inside, rfl⟩ := List.mem_map.mp member
    rw [List.eq_of_mem_replicate inside]
    exact ⟨rfl, rfl, rfl⟩
  · simp [forked]

theorem bind_workers {children : List Child} (ok : ∀ c ∈ children, c.Ok setup) :
    ((children.map Child.worker : List Worker) : Multiset Worker).bind
      (fun w => (valuesOf w.r : Multiset Value)) = measuredBy children := by
  rw [← Multiset.map_coe, Multiset.bind_map, measuredBy]
  exact Multiset.bind_congr fun c member => Multiset.coe_eq_coe.mpr (ok c member).recorded

/-- When the parent is done its results are the values that the children measured, each once and in order,
and at most as many from a child as it was asked for; `set_results` and `save_minimum` leave one with the
least time, or one iteration of no time if nothing was measured. -/
theorem finished_results {merged : Results} (small : iterations < 2 ^ 64)
    (run : Composite.Steps (benchmp setup enough) (forked setup iterations iterationsBatch) s)
    (finished : s.shared.parent = .finished merged) (t : Timing) :
    (∃ values, Holds setup.format (entries (setup.parallel * setup.repetitions)) values merged ∧
      (values : Multiset Value) = measuredBy s.parts) ∧
    (∀ c ∈ s.parts, (measuredPairs c.intervals).length ≤ max 1 setup.repetitions.toNat) ∧
    ∃ t₁ t₂, saveMedian merged t = .ok t₁ ∧ saveMinimum merged t₁ = .ok t₂ ∧
      (measuredBy s.parts = 0 → gettime t₂ = 0 ∧ getN t₂ = 1) ∧
      (measuredBy s.parts ≠ 0 → ∃ least ∈ measuredBy s.parts, gettime t₂ = least.u ∧ getN t₂ = least.n ∧
        ∀ other ∈ measuredBy s.parts, rate setup.format least ≤ rate setup.format other) := by
  obtain ⟨⟨-, -, phase⟩, ok⟩ := reached small run
  unfold Phase at phase
  rw [finished] at phase
  obtain ⟨-, -, -, -, -, values, holds, total⟩ := phase
  rw [bind_workers ok] at total
  refine ⟨⟨values, holds, total⟩, ?_, ?_⟩
  · intro c member
    obtain ⟨own, held, few, -⟩ := (ok c member).st.complete
    rwa [← (ok c member).recorded.length_eq, held.valuesOf]
  · obtain ⟨t₁, saved⟩ := holds.saveMedian t
    obtain ⟨t₂, saved', empty, some⟩ := holds.saveMinimum t₁
    refine ⟨t₁, t₂, saved, saved', ?_, ?_⟩
    · intro none
      rw [← total] at none
      exact empty (Multiset.coe_eq_zero _ |>.mp none)
    · intro nonempty
      rw [← total] at nonempty ⊢
      obtain ⟨least, member, time, count, below⟩ :=
        some fun none => nonempty (Multiset.coe_eq_zero _ |>.mpr none)
      exact ⟨least, member, time, count, below⟩

theorem measuredBy_twoChildren (point point' : Point) (r r' : Results) :
    measuredBy [coolChild point 5 r, coolChild point' 7 r'] = {⟨5, 1⟩, ⟨7, 1⟩} := by
  rfl

theorem finished_results_twoChildren :
    ∃ s merged, Composite.Steps (benchmp twoChildren 0) (forked twoChildren 1 1) s ∧
      s.shared.parent = .finished merged ∧
      (∃ values, Holds twoChildren.format (entries (2 * 1)) values merged ∧
        (values : Multiset Value) = {⟨5, 1⟩, ⟨7, 1⟩}) ∧
      ∃ t₁ t₂, saveMedian merged ⟨TimeVal.zero, TimeVal.zero, 1⟩ = .ok t₁ ∧ saveMinimum merged t₁ = .ok t₂ ∧
        ∃ least ∈ ({⟨5, 1⟩, ⟨7, 1⟩} : Multiset Value), gettime t₂ = least.u ∧ getN t₂ = least.n ∧
          ∀ other ∈ ({⟨5, 1⟩, ⟨7, 1⟩} : Multiset Value),
            rate twoChildren.format least ≤ rate twoChildren.format other := by
  obtain ⟨r, r', -, merged, -, run⟩ := twoChildren_finishes
  obtain ⟨held, -, t₁, t₂, median, minimum, -, some⟩ :=
    finished_results (by decide) run rfl ⟨TimeVal.zero, TimeVal.zero, 1⟩
  rw [measuredBy_twoChildren] at held some
  exact ⟨_, merged, run, rfl, held, t₁, t₂, median, minimum, some (by decide)⟩

/-! ### The order of the phases -/

/-- The child has part of its results still to write. -/
def Writing (w : Worker) : Prop :=
  ∃ byte rest, w.stage = .sending (byte :: rest)

instance : DecidablePred Writing := fun w =>
  match here : w.stage with
  | .sending (byte :: rest) => isTrue ⟨byte, rest, here⟩
  | .sending [] | .warm | .entering | .late | .timing | .cool | .called | .gone =>
      isFalse fun ⟨_, _, writing⟩ => nomatch here.symm.trans writing

section Phases

variable {workers : Multiset Worker} {w : Worker} {g : Shared}

/-- The children are in the same phase. -/
theorem Phase.together (phase : Phase setup workers g) (goesOn : ¬ g.parent.Ended) :
    (∀ w ∈ workers, w.stage = .warm) ∨ (∀ w ∈ workers, Measuring setup w) ∨ ∀ w ∈ workers, ¬ Early w := by
  unfold Phase at phase
  cases here : g.parent with
  | ready got =>
      rw [here] at phase
      exact .inl phase.1
  | done got =>
      rw [here] at phase
      exact .inr (.inl phase.1)
  | asking i merged =>
      rw [here] at phase
      exact .inr (.inr fun w member => (phase.1.waiting w member).not_early)
  | reading i buf merged =>
      rw [here] at phase
      refine .inr (.inr fun w member => ?_)
      obtain ⟨-, -, ⟨collected, -⟩ | ⟨-, writer, others, left, rfl, sending, -, -, collected⟩⟩ := phase
      · exact (collected.waiting w member).not_early
      · rcases Multiset.mem_cons.mp member with rfl | other
        · simp [Early, sending]
        · exact (collected.waiting w other).not_early
  | finished merged =>
      rw [here] at phase
      exact .inr (.inr fun w member => (phase.1 w member).not_early)
  | failed cause => exact absurd (.inl ⟨cause, here⟩) goesOn
  | faulted => exact absurd (.inr here) goesOn

/-- A child that has seen the start signal finds one in the pipe. -/
theorem Phase.start_pos (phase : Phase setup workers g) (goesOn : ¬ g.parent.Ended) (member : w ∈ workers)
    (entering : w.stage = .entering) : 0 < g.start := by
  obtain ⟨others, rfl⟩ := Multiset.exists_cons_of_mem member
  rcases phase.of_early (.inr (.inl entering)) with ended | ⟨got, -, warm⟩ | ⟨got, done, -⟩
  · exact absurd ended goesOn
  · rw [entering] at warm
    cases warm
  · unfold Phase at phase
    rw [done] at phase
    obtain ⟨-, -, -, awaits, -⟩ := phase
    rw [awaits]
    exact Multiset.countP_pos_of_mem member (.inr entering)

theorem Waiting.not_writing (waiting : Waiting setup w) : ¬ Writing w := by
  rintro ⟨byte, rest, writing⟩
  rcases waiting.2 with cool | called | reported
  · simp [writing] at cool
  · simp [writing] at called
  · simp [Reported, writing] at reported

/-- At most one child writes its results at a time. -/
theorem Phase.writing_le_one (phase : Phase setup workers g) (goesOn : ¬ g.parent.Ended) :
    workers.countP Writing ≤ 1 := by
  have none : ∀ {rest : Multiset Worker}, (∀ w ∈ rest, ¬ Writing w) → rest.countP Writing = 0 :=
    Multiset.countP_eq_zero.mpr
  unfold Phase at phase
  cases here : g.parent with
  | ready got =>
      rw [here] at phase
      refine (none fun w member => ?_).le.trans (Nat.zero_le 1)
      rintro ⟨byte, rest, writing⟩
      exact nomatch (phase.1 w member).symm.trans writing
  | done got =>
      rw [here] at phase
      refine (none fun w member => ?_).le.trans (Nat.zero_le 1)
      rintro ⟨byte, rest, writing⟩
      simpa [writing] using (phase.1 w member).2
  | asking i merged =>
      rw [here] at phase
      exact (none fun w member => (phase.1.waiting w member).not_writing).le.trans (Nat.zero_le 1)
  | reading i buf merged =>
      rw [here] at phase
      obtain ⟨-, -, ⟨collected, -⟩ | ⟨-, writer, others, left, rfl, -, -, -, collected⟩⟩ := phase
      · exact (none fun w member => (collected.waiting w member).not_writing).le.trans (Nat.zero_le 1)
      · rw [Multiset.countP_cons, none fun w member => (collected.waiting w member).not_writing]
        split
        · exact Nat.le_refl 1
        · exact Nat.zero_le 1
  | finished merged =>
      rw [here] at phase
      refine (none fun w member => ?_).le.trans (Nat.zero_le 1)
      rintro ⟨byte, rest, writing⟩
      rcases phase.1 w member with reported | gone
      · simp [Reported, writing] at reported
      · simp [writing] at gone
  | failed cause => exact absurd (.inl ⟨cause, here⟩) goesOn
  | faulted => exact absurd (.inr here) goesOn

end Phases

/-- The child is behind the signal for its results. -/
def Child.Asked (c : Child) : Prop :=
  c.point = .resultRead ∨ (∃ rest, c.point = .resultWrite rest) ∨ c.point = .exited

theorem Child.Ok.of_not_early {c : Child} (ok : c.Ok setup) (over' : ¬ Early c.worker) :
    c.st.state = .cooldown ∧ c.st.needWarmup = false := by
  have placed := ok.placed
  unfold Child.Placed at placed
  unfold Early Child.worker Child.stage at over'
  cases point : c.point with
  | loop =>
      rw [point] at placed over'
      cases state : c.st.state with
      | warmup => simp [state] at over'
      | timingInterval => simp [state] at over'
      | cooldown => exact ⟨rfl, placed.1.resolve_left (by simp [state])⟩
  | startRead => simp [point] at over'
  | readyWrite => simp [point] at over'
  | resultRead => simpa [point] using placed
  | resultWrite rest => simpa [point] using placed
  | exited => simpa [point] using placed

/-- As long as the parent has not given up: when a child has left its warmup, all children are ready; when a
child has been asked for its results, all children have stopped their measurements; the read of the start
signal finds one; and the results of two children never mix in the pipe. -/
theorem collecting_stopped (small : iterations < 2 ^ 64)
    (run : Composite.Steps (benchmp setup enough) (forked setup iterations iterationsBatch) s)
    (goesOn : ¬ s.shared.parent.Ended) :
    (∀ c ∈ s.parts, c.st.state ≠ .warmup → ∀ d ∈ s.parts, d.st.needWarmup = false) ∧
    (∀ c ∈ s.parts, c.Asked → ∀ d ∈ s.parts, d.st.state = .cooldown) ∧
    (∀ c ∈ s.parts, c.point = .startRead → 0 < s.shared.start) ∧
    s.parts.countP (fun c => Writing c.worker) ≤ 1 := by
  obtain ⟨⟨-, -, phase⟩, ok⟩ := reached small run
  have worker : ∀ {c}, c ∈ s.parts → c.worker ∈ (s.parts.map Child.worker : Multiset Worker) :=
    fun member => List.mem_map_of_mem member
  refine ⟨?_, ?_, ?_, ?_⟩
  · intro c member started d member'
    rcases phase.together goesOn with warm | measuring | over'
    · have here := c.point_of_stage
      rw [warm _ (worker member)] at here
      exact absurd here.2 started
    · simpa [Child.worker] using (measuring _ (worker member')).1
    · exact ((ok d member').of_not_early (over' _ (worker member'))).2
  · intro c member asked d member'
    rcases phase.together goesOn with warm | measuring | over'
    · have stage : c.stage = .warm := warm _ (worker member)
      rcases asked with here | ⟨rest, here⟩ | here <;> simp [Child.stage, here] at stage
    · have stage := (measuring _ (worker member)).2
      rcases asked with here | ⟨rest, here⟩ | here <;> simp [Child.worker, Child.stage, here] at stage
    · exact ((ok d member').of_not_early (over' _ (worker member'))).1
  · intro c member here
    exact phase.start_pos goesOn (worker member) (by simp [Child.worker, Child.stage, here])
  · have few := phase.writing_le_one goesOn
    rwa [Multiset.coe_countP, List.countP_map] at few

/-- The second child has been asked, and the first one has not. -/
theorem collecting_stopped_twoChildren :
    ∃ s, Composite.Steps (benchmp twoChildren 0) (forked twoChildren 1 1) s ∧
      (∃ c ∈ s.parts, c.Asked) ∧ (∃ c ∈ s.parts, ¬ c.Asked) ∧ ∀ d ∈ s.parts, d.st.state = .cooldown := by
  obtain ⟨r, r', merged, -, run, -⟩ := twoChildren_finishes
  have asked : (coolChild (.resultWrite []) 7 r').Asked := .inr (.inl ⟨[], rfl⟩)
  have waits : ¬ (coolChild .loop 5 r).Asked := by simp [Child.Asked, coolChild]
  have goesOn : ¬ (pipes (.asking 1 merged) [] 0 0 0).parent.Ended := by
    rintro (⟨cause, failed⟩ | faulted)
    · exact nomatch failed
    · exact nomatch faulted
  exact ⟨_, run, ⟨_, by simp, asked⟩, ⟨_, by simp, waits⟩,
    (collecting_stopped (by decide) run goesOn).2.1 _ (by simp) asked⟩

/-- The parent gives up for a death only when a child has died; its merge leaves the allocation only for
more than eleven children without repetitions, and it finishes only with as many values as there is room
for; no interval of a child stores outside of its results, however long it was. -/
theorem benchmp_faults (small : iterations < 2 ^ 64)
    (run : Composite.Steps (benchmp setup enough) (forked setup iterations iterationsBatch) s) :
    (s.shared.parent = .failed .childDied → ∃ c ∈ s.parts, c.alive = false) ∧
    (s.shared.parent = .faulted → setup.repetitions ≤ 0 ∧ 11 < setup.parallel) ∧
    (∀ merged, s.shared.parent = .finished merged →
      (measuredBy s.parts).card ≤ max 11 (setup.parallel * setup.repetitions).toNat) ∧
    ∀ c ∈ s.parts, c.point = .loop → c.st.state = .timingInterval → ∀ result < 2 ^ 64,
      intervalTiming setup enough result c.st ≠ .error .outOfBounds := by
  obtain ⟨⟨-, -, phase⟩, ok⟩ := reached small run
  unfold Phase at phase
  refine ⟨?_, ?_, ?_, ?_⟩
  · intro failed
    rw [failed] at phase
    obtain ⟨w, member, dead⟩ := phase rfl
    obtain ⟨c, inside, rfl⟩ := List.mem_map.mp member
    exact ⟨c, inside, dead⟩
  · intro faulted
    rwa [faulted] at phase
  · intro merged finished
    rw [finished] at phase
    obtain ⟨-, -, -, -, -, values, holds, total⟩ := phase
    rw [← bind_workers ok, ← total, ← entries_eq setup.mergedFits]
    exact holds.room
  · intro c member here state result short failed
    exact nomatch intervalTiming_error (ok c member).st state short failed

/-- The first child dies in its warmup, and the parent finds it at its first wait. -/
theorem benchmp_faults_death :
    ∃ s, Composite.Steps (benchmp twoChildren 0) (forked twoChildren 1 1) s ∧
      s.shared.parent = .failed .childDied ∧ ∃ c ∈ s.parts, c.alive = false := by
  have dies : Composite.Step (benchmp twoChildren 0) (forked twoChildren 1 1)
      ⟨[{ Child.forked twoChildren 1 1 with alive := false }, Child.forked twoChildren 1 1],
        { Shared.initial with sigchld := true }⟩ :=
    twoChildren_first (.die rfl (by decide)) rfl
  have run := (Relation.ReflTransGen.single dies).tail (.alone (.fail Nat.zero_lt_two rfl))
  exact ⟨_, run, rfl, (benchmp_faults (by decide) run).1 rfl⟩

end Runs

end Numafac.LibTiming
