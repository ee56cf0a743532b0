/-
Module: Numafac.Lmbench.BenchmpInvariant
Layer: Lmbench
Purpose: What holds in every state that the protocol of `benchmp` reaches, phase by phase: how many signals
  are on their way, which children have not seen the start, that at most one child writes its results and
  that the bytes read, the bytes in the pipe and the bytes left are those results. Each step of a child and
  of the parent keeps it (`Invariant.worker`, `Invariant.parent`).
Trusted boundary: none
Main exports: Merged, Collected, Reporting, Phase, Invariant, Invariant.initial, Invariant.worker,
  Invariant.parent
-/
import Mathlib.Data.Multiset.Bind
import Mathlib.Data.Multiset.Count
import Mathlib.Algebra.Order.BigOperators.Group.Multiset
import Numafac.Lmbench.Benchmp

namespace Numafac.LibTiming

/-- The child has sent its ready signal. -/
def Announced (w : Worker) : Prop :=
  w.announced = true

/-- The child has not read its start signal. -/
def AwaitsStart (w : Worker) : Prop :=
  w.stage = .warm ∨ w.stage = .entering

/-- The child has not finished its measurement. -/
def Early (w : Worker) : Prop :=
  w.stage = .warm ∨ w.stage = .entering ∨ w.stage = .late ∨ w.stage = .timing

/-- The child has written all its results and waits for the exit signal. -/
def Reported (w : Worker) : Prop :=
  w.stage = .sending []

instance : DecidablePred Announced := fun w => inferInstanceAs (Decidable (w.announced = true))

instance : DecidablePred AwaitsStart := fun w =>
  inferInstanceAs (Decidable (w.stage = .warm ∨ w.stage = .entering))

instance : DecidablePred Early := fun w =>
  inferInstanceAs (Decidable (w.stage = .warm ∨ w.stage = .entering ∨ w.stage = .late ∨ w.stage = .timing))

instance : DecidablePred Reported := fun w => inferInstanceAs (Decidable (w.stage = .sending []))

variable (setup : Setup)

/-- The parent's results hold the values of these children. -/
def Merged (merged : Results) (workers : Multiset Worker) : Prop :=
  ∃ values, Holds setup.format (entries (setup.parallel * setup.repetitions)) values merged ∧
    (values : Multiset Value) = workers.bind fun w => (valuesOf w.r : Multiset Value)

/-- Before the results are collected: a child runs the benchmark, and has its results if it is done. -/
def Measuring (w : Worker) : Prop :=
  w.announced = true ∧
    (w.stage = .warm ∨ w.stage = .entering ∨ w.stage = .timing ∨ w.stage = .cool ∧ Complete setup w.r)

/-- While they are collected: a child has its results, and it waits for the signal or has sent them. -/
def Waiting (w : Worker) : Prop :=
  Complete setup w.r ∧ (w.stage = .cool ∨ w.stage = .called ∨ Reported w)

/-- The results of `i` children have been merged, and none is on its way. -/
structure Collected (i : Nat) (merged : Results) (workers : Multiset Worker) : Prop where
  waiting : ∀ w ∈ workers, Waiting setup w
  count : workers.countP Reported = i
  merged : Merged setup merged (workers.filter Reported)

/-- One child writes its results: they are what the parent has read, what is in the pipe and what is left. -/
def Reporting (i : Nat) (buf : List Nat) (merged : Results) (response : List Nat)
    (workers : Multiset Worker) : Prop :=
  ∃ w others rest, workers = w ::ₘ others ∧ w.stage = .sending rest ∧ Complete setup w.r ∧
    Written w.r (buf ++ (response ++ rest)) ∧ Collected setup i merged others

/-- The results are out: a child has sent them, or is gone. -/
def Sent (w : Worker) : Prop :=
  Reported w ∨ w.stage = .gone

/-- What holds in each phase of the parent. -/
def Phase (workers : Multiset Worker) (g : Shared) : Prop :=
  match g.parent with
  | .ready got => (∀ w ∈ workers, w.stage = .warm) ∧ g.start = 0 ∧ g.result = 0 ∧ g.exit = 0 ∧
      got + g.response.length = workers.countP Announced
  | .done got => (∀ w ∈ workers, Measuring setup w) ∧ g.result = 0 ∧ g.exit = 0 ∧
      g.start = workers.countP AwaitsStart ∧
      got + g.response.length = workers.countP (¬ Early ·)
  | .asking i merged => Collected setup i merged workers ∧ g.start = 0 ∧ g.result = 0 ∧ g.exit = 0 ∧
      g.response = []
  | .reading i buf merged => g.start = 0 ∧ g.exit = 0 ∧
      (Collected setup i merged workers ∧ g.result = 1 ∧ buf = [] ∧ g.response = [] ∨
        g.result = 0 ∧ Reporting setup i buf merged g.response workers)
  | .finished merged => (∀ w ∈ workers, Sent w) ∧ g.start = 0 ∧ g.result = 0 ∧ g.response = [] ∧
      g.exit = workers.countP Reported ∧ Merged setup merged workers
  | .failed cause => cause = .childDied → ∃ w ∈ workers, w.alive = false
  | .faulted => setup.repetitions ≤ 0 ∧ 11 < setup.parallel

/-- The invariant: the children are all there, the phase, and only a death sets the flag. -/
structure Invariant (workers : Multiset Worker) (g : Shared) : Prop where
  card : workers.card = setup.parallel
  died : g.sigchld = true → ∃ w ∈ workers, w.alive = false
  phase : Phase setup workers g

/-! ### One child -/

section OneWorker

variable {setup} {w w' : Worker} {rest : Multiset Worker} {g g' : Shared}

/-- A step of a child that lives leaves the dead ones. -/
theorem exists_dead_replace (alive : w.alive = true) (dead : ∃ v ∈ w ::ₘ rest, v.alive = false) :
    ∃ v ∈ w' ::ₘ rest, v.alive = false := by
  obtain ⟨v, member, died⟩ := dead
  rcases Multiset.mem_cons.mp member with rfl | other
  · rw [alive] at died
    cases died
  · exact ⟨v, Multiset.mem_cons_of_mem other, died⟩

/-- Two children that differ in nothing but their life are counted alike. -/
structure Alike (w w' : Worker) : Prop where
  announced : w'.announced = w.announced
  stage : w'.stage = w.stage
  r : w'.r = w.r

theorem countP_replace {p : Worker → Prop} [DecidablePred p] (same : p w' ↔ p w) :
    (w' ::ₘ rest).countP p = (w ::ₘ rest).countP p := by
  rw [Multiset.countP_cons, Multiset.countP_cons, if_congr same rfl rfl]

theorem Collected.replace {i : Nat} {merged : Results}
    (collected : Collected setup i merged (w ::ₘ rest)) (waiting : Waiting setup w')
    (same : Reported w' ↔ Reported w) (r : w'.r = w.r) : Collected setup i merged (w' ::ₘ rest) := by
  obtain ⟨all, count, merged⟩ := collected
  have all' : ∀ d ∈ w' ::ₘ rest, Waiting setup d := by
    intro d member
    rcases Multiset.mem_cons.mp member with rfl | other
    · exact waiting
    · exact all d (Multiset.mem_cons_of_mem other)
  by_cases sent : Reported w
  · have sent' := same.mpr sent
    rw [Multiset.countP_cons_of_pos _ sent] at count
    rw [Multiset.filter_cons_of_pos _ sent] at merged
    refine ⟨all', ?_, ?_⟩
    · rw [Multiset.countP_cons_of_pos _ sent', count]
    · rw [Multiset.filter_cons_of_pos _ sent']
      unfold Merged at merged ⊢
      rw [Multiset.cons_bind] at merged ⊢
      rw [r]
      exact merged
  · have sent' : ¬ Reported w' := fun contra => sent (same.mp contra)
    rw [Multiset.countP_cons_of_neg _ sent] at count
    rw [Multiset.filter_cons_of_neg _ sent] at merged
    refine ⟨all', ?_, ?_⟩
    · rw [Multiset.countP_cons_of_neg _ sent', count]
    · rwa [Multiset.filter_cons_of_neg _ sent']

theorem Waiting.alike (alike : Alike w w') (waiting : Waiting setup w) : Waiting setup w' := by
  obtain ⟨-, stage, r⟩ := alike
  unfold Waiting Reported at *
  rwa [stage, r]

theorem Collected.alike {i : Nat} {merged : Results} (alike : Alike w w')
    (collected : Collected setup i merged (w ::ₘ rest)) : Collected setup i merged (w' ::ₘ rest) :=
  collected.replace ((collected.waiting w (by simp)).alike alike)
    (by rw [Reported, alike.stage, Reported]) alike.r

/-- A child that is not counted does not change what is collected. -/
theorem Collected.of_cons {i : Nat} {merged : Results}
    (collected : Collected setup i merged (w ::ₘ rest)) (out : ¬ Reported w) :
    Collected setup i merged rest := by
  obtain ⟨all, count, merged⟩ := collected
  rw [Multiset.countP_cons_of_neg _ out] at count
  rw [Multiset.filter_cons_of_neg _ out] at merged
  exact ⟨fun d member => all d (Multiset.mem_cons_of_mem member), count, merged⟩

/-- The invariant says nothing of a child that does not depend on its signals and results. -/
theorem Phase.alike (alike : Alike w w') (alive : w.alive = true) (phase : Phase setup (w ::ₘ rest) g) :
    Phase setup (w' ::ₘ rest) g := by
  obtain ⟨announced, stage, r⟩ := id alike
  unfold Phase at *
  cases here : g.parent with
  | ready got =>
      rw [here] at phase
      obtain ⟨warm, start, result, exit, total⟩ := phase
      refine ⟨?_, start, result, exit, ?_⟩
      · simpa [stage] using warm
      · exact total.trans (countP_replace (by simp only [Announced, announced])).symm
  | done got =>
      rw [here] at phase
      obtain ⟨measuring, result, exit, awaits, total⟩ := phase
      refine ⟨?_, result, exit, ?_, ?_⟩
      · simpa [Measuring, announced, stage, r] using measuring
      · exact awaits.trans (countP_replace (by simp only [AwaitsStart, stage])).symm
      · exact total.trans (countP_replace (by simp only [Early, stage])).symm
  | asking i merged =>
      rw [here] at phase
      exact ⟨phase.1.alike alike, phase.2⟩
  | reading i buf merged =>
      rw [here] at phase
      obtain ⟨start, exit, ⟨collected, waits⟩ | ⟨result, writer, others, left, split, reporting⟩⟩ := phase
      · exact ⟨start, exit, Or.inl ⟨collected.alike alike, waits⟩⟩
      · refine ⟨start, exit, Or.inr ⟨result, ?_⟩⟩
        obtain ⟨sending, complete, written, collected⟩ := reporting
        rcases Multiset.cons_eq_cons.mp split with ⟨rfl, rfl⟩ | ⟨-, common, rfl, rfl⟩
        · exact ⟨w', rest, left, rfl, stage.trans sending, by rwa [r], by rwa [r], collected⟩
        · exact ⟨writer, w' ::ₘ common, left, Multiset.cons_swap _ _ _, sending, complete, written,
            collected.alike alike⟩
  | finished merged =>
      rw [here] at phase
      obtain ⟨sent, start, result, response, exit, merged⟩ := phase
      refine ⟨?_, start, result, response, ?_, ?_⟩
      · simpa [Sent, Reported, stage] using sent
      · exact exit.trans (countP_replace (by simp only [Reported, stage])).symm
      · unfold Merged at *
        rw [Multiset.cons_bind] at merged ⊢
        rwa [r]
  | failed cause =>
      rw [here] at phase
      exact fun childDied => exists_dead_replace alive (phase childDied)
  | faulted =>
      rw [here] at phase
      exact phase

/-- The parent has given up. -/
def Parent.Ended (parent : Parent) : Prop :=
  parent.Failed ∨ parent = .faulted

theorem Phase.ended (ended : g.parent.Ended) (same : g'.parent = g.parent) (alive : w.alive = true)
    (phase : Phase setup (w ::ₘ rest) g) : Phase setup (w' ::ₘ rest) g' := by
  unfold Phase at *
  rw [same]
  rcases ended with ⟨cause, here⟩ | here
  · rw [here] at phase ⊢
    exact fun childDied => exists_dead_replace alive (phase childDied)
  · rw [here] at phase ⊢
    exact phase

theorem Waiting.not_early (waiting : Waiting setup w) : ¬ Early w := by
  unfold Early
  rcases waiting.2 with cool | called | reported
  · simp [cool]
  · simp [called]
  · simp [show w.stage = .sending [] from reported]

theorem Sent.not_early (sent : Sent w) : ¬ Early w := by
  unfold Early
  rcases sent with reported | gone
  · simp [show w.stage = .sending [] from reported]
  · simp [gone]

/-- Where the parent is while a child is in a stage. -/
theorem Phase.parent_cases (phase : Phase setup (w ::ₘ rest) g) :
    g.parent.Ended ∨ (∃ got, g.parent = .ready got ∧ w.stage = .warm) ∨
      (∃ got, g.parent = .done got ∧ Measuring setup w) ∨
      (∃ i merged, g.parent = .asking i merged ∧ Waiting setup w) ∨
      (∃ i buf merged, g.parent = .reading i buf merged ∧ (Waiting setup w ∨ ∃ left, w.stage = .sending left)) ∨
      ∃ merged, g.parent = .finished merged ∧ Sent w := by
  unfold Phase at phase
  cases here : g.parent with
  | ready got =>
      rw [here] at phase
      exact .inr (.inl ⟨got, rfl, phase.1 w (by simp)⟩)
  | done got =>
      rw [here] at phase
      exact .inr (.inr (.inl ⟨got, rfl, phase.1 w (by simp)⟩))
  | asking i merged =>
      rw [here] at phase
      exact .inr (.inr (.inr (.inl ⟨i, merged, rfl, phase.1.waiting w (by simp)⟩)))
  | reading i buf merged =>
      rw [here] at phase
      refine .inr (.inr (.inr (.inr (.inl ⟨i, buf, merged, rfl, ?_⟩))))
      obtain ⟨-, -, ⟨collected, -⟩ | ⟨-, writer, others, left, split, sending, -, -, collected⟩⟩ := phase
      · exact Or.inl (collected.waiting w (by simp))
      · rcases Multiset.cons_eq_cons.mp split with ⟨rfl, rfl⟩ | ⟨-, common, rfl, rfl⟩
        · exact Or.inr ⟨left, sending⟩
        · exact Or.inl (collected.waiting w (by simp))
  | finished merged =>
      rw [here] at phase
      exact .inr (.inr (.inr (.inr (.inr ⟨merged, rfl, phase.1 w (by simp)⟩))))
  | failed cause => exact .inl (.inl ⟨cause, rfl⟩)
  | faulted => exact .inl (.inr rfl)

/-- Where the parent is while a child has not finished its measurement. -/
theorem Phase.of_early (phase : Phase setup (w ::ₘ rest) g) (early : Early w) :
    g.parent.Ended ∨ (∃ got, g.parent = .ready got ∧ w.stage = .warm) ∨
      ∃ got, g.parent = .done got ∧ Measuring setup w := by
  rcases phase.parent_cases with ended | ready | done | ⟨i, merged, -, waiting⟩ |
    ⟨i, buf, merged, -, waiting | ⟨left, sending⟩⟩ | ⟨merged, -, sent⟩
  · exact .inl ended
  · exact .inr (.inl ready)
  · exact .inr (.inr done)
  · exact absurd early waiting.not_early
  · exact absurd early waiting.not_early
  · simp [Early, sending] at early
  · exact absurd early sent.not_early

/-- A step of one child while the parent counts the ends of the measurements. -/
theorem Phase.step_done {got : Nat} (here : g.parent = .done got) (phase : Phase setup (w ::ₘ rest) g)
    (measuring : Measuring setup w') (parent : g'.parent = g.parent) (result : g'.result = g.result)
    (exit : g'.exit = g.exit)
    (start : g'.start + (if AwaitsStart w then 1 else 0) = g.start + if AwaitsStart w' then 1 else 0)
    (response : g'.response.length + (if ¬ Early w then 1 else 0) =
      g.response.length + if ¬ Early w' then 1 else 0) : Phase setup (w' ::ₘ rest) g' := by
  unfold Phase at *
  rw [parent, here]
  rw [here] at phase
  obtain ⟨all, noResult, noExit, awaits, total⟩ := phase
  rw [Multiset.countP_cons] at awaits total
  refine ⟨?_, result.trans noResult, exit.trans noExit, ?_, ?_⟩
  · intro d member
    rcases Multiset.mem_cons.mp member with rfl | other
    · exact measuring
    · exact all d (Multiset.mem_cons_of_mem other)
  · rw [Multiset.countP_cons]
    omega
  · rw [Multiset.countP_cons]
    omega

/-- A child sends its ready signal. -/
theorem Phase.announce {c : Nat} (alive : w.alive = true) (here : w.stage = .warm)
    (first : w.announced = false) (phase : Phase setup (w ::ₘ rest) g) :
    Phase setup ({ w with announced := true } ::ₘ rest) { g with response := g.response ++ [c] } := by
  rcases phase.of_early (.inl here) with ended | ⟨got, ready, -⟩ | ⟨got, -, announced, -⟩
  · exact phase.ended ended rfl alive
  · unfold Phase at *
    dsimp only
    rw [ready] at phase ⊢
    obtain ⟨warm, start, result, exit, total⟩ := phase
    refine ⟨?_, start, result, exit, ?_⟩
    · intro d member
      rcases Multiset.mem_cons.mp member with rfl | other
      · exact here
      · exact warm d (Multiset.mem_cons_of_mem other)
    · rw [Multiset.countP_cons_of_neg _ (by simp [Announced, first])] at total
      have after : Announced { w with announced := true } := rfl
      rw [Multiset.countP_cons_of_pos _ after, List.length_append, List.length_singleton]
      omega
  · rw [first] at announced
    cases announced

/-- A child sees the start signal. -/
theorem Phase.seeStart (alive : w.alive = true) (here : w.stage = .warm) (seen : 0 < g.start)
    (phase : Phase setup (w ::ₘ rest) g) : Phase setup ({ w with stage := .entering } ::ₘ rest) g := by
  rcases phase.of_early (.inl here) with ended | ⟨got, ready, -⟩ | ⟨got, done, announced, -⟩
  · exact phase.ended ended rfl alive
  · unfold Phase at phase
    rw [ready] at phase
    omega
  · refine phase.step_done done ?_ rfl rfl rfl ?_ ?_
    · exact ⟨announced, .inr (.inl rfl)⟩
    · simp [AwaitsStart, here]
    · simp [Early, here]

/-- A child reads its start signal. -/
theorem Phase.takeStart (alive : w.alive = true) (here : w.stage = .entering) (seen : 0 < g.start)
    (phase : Phase setup (w ::ₘ rest) g) :
    Phase setup ({ w with stage := if w.announced then .timing else .late } ::ₘ rest)
      { g with start := g.start - 1 } := by
  rcases phase.of_early (.inr (.inl here)) with ended | ⟨got, -, warm⟩ | ⟨got, done, announced, -⟩
  · exact phase.ended ended rfl alive
  · rw [here] at warm
    cases warm
  · rw [if_pos announced]
    refine phase.step_done done ?_ rfl rfl rfl ?_ ?_
    · exact ⟨announced, .inr (.inr (.inl rfl))⟩
    · have before : AwaitsStart w := .inr here
      have after : ¬ AwaitsStart { w with stage := .timing } := by simp [AwaitsStart]
      rw [if_pos before, if_neg after]
      dsimp only
      omega
    · simp [Early, here]

/-- A child that would be ready after the start. -/
theorem Phase.announceLate {c : Nat} (alive : w.alive = true) (here : w.stage = .late)
    (phase : Phase setup (w ::ₘ rest) g) :
    Phase setup ({ w with announced := true, stage := .timing } ::ₘ rest)
      { g with response := g.response ++ [c] } := by
  rcases phase.of_early (.inr (.inr (.inl here))) with ended | ⟨got, -, warm⟩ | ⟨got, -, -, measuring⟩
  · exact phase.ended ended rfl alive
  · rw [here] at warm
    cases warm
  · simp [here] at measuring

/-- A child goes on measuring. -/
theorem Phase.measure (r : Results) (alive : w.alive = true) (here : w.stage = .timing)
    (phase : Phase setup (w ::ₘ rest) g) : Phase setup ({ w with r } ::ₘ rest) g := by
  rcases phase.of_early (.inr (.inr (.inr here))) with ended | ⟨got, -, warm⟩ | ⟨got, done, announced, -⟩
  · exact phase.ended ended rfl alive
  · rw [here] at warm
    cases warm
  · refine phase.step_done done ?_ rfl rfl rfl ?_ ?_
    · exact ⟨announced, .inr (.inr (.inl here))⟩
    · simp [AwaitsStart, here]
    · simp [Early, here]

/-- A child ends its measurement. -/
theorem Phase.complete {r : Results} {c : Nat} (alive : w.alive = true) (here : w.stage = .timing)
    (complete : Complete setup r) (phase : Phase setup (w ::ₘ rest) g) :
    Phase setup ({ w with stage := .cool, r } ::ₘ rest) { g with response := g.response ++ [c] } := by
  rcases phase.of_early (.inr (.inr (.inr here))) with ended | ⟨got, -, warm⟩ | ⟨got, done, announced, -⟩
  · exact phase.ended ended rfl alive
  · rw [here] at warm
    cases warm
  · refine phase.step_done done ?_ rfl rfl rfl ?_ ?_
    · exact ⟨announced, .inr (.inr (.inr ⟨rfl, complete⟩))⟩
    · simp [AwaitsStart, here]
    · simp [Early, here]

/-- A child sees the signal for its results. -/
theorem Phase.seeResult (alive : w.alive = true) (here : w.stage = .cool) (seen : 0 < g.result)
    (phase : Phase setup (w ::ₘ rest) g) : Phase setup ({ w with stage := .called } ::ₘ rest) g := by
  rcases phase.parent_cases with ended | ⟨got, -, warm⟩ | ⟨got, done, -⟩ | ⟨i, merged, asking, -⟩ |
    ⟨i, buf, merged, reading, -⟩ | ⟨merged, finished, -⟩
  · exact phase.ended ended rfl alive
  · rw [here] at warm
    cases warm
  · unfold Phase at phase
    rw [done] at phase
    omega
  · unfold Phase at phase
    rw [asking] at phase
    omega
  · unfold Phase at *
    rw [reading] at phase ⊢
    obtain ⟨start, exit, ⟨collected, waits⟩ | ⟨result, -⟩⟩ := phase
    · refine ⟨start, exit, .inl ⟨?_, waits⟩⟩
      have waiting := collected.waiting w (by simp)
      refine collected.replace ?_ ?_ rfl
      · exact ⟨waiting.1, .inr (.inl rfl)⟩
      · simp [Reported, here]
    · omega
  · unfold Phase at phase
    rw [finished] at phase
    omega

/-- A child reads the signal and begins to write its results. -/
theorem Phase.takeResult {bytes : List Nat} (alive : w.alive = true) (here : w.stage = .called)
    (written : Written w.r bytes) (seen : 0 < g.result) (phase : Phase setup (w ::ₘ rest) g) :
    Phase setup ({ w with stage := .sending bytes } ::ₘ rest) { g with result := g.result - 1 } := by
  rcases phase.parent_cases with ended | ⟨got, -, warm⟩ | ⟨got, done, -⟩ | ⟨i, merged, asking, -⟩ |
    ⟨i, buf, merged, reading, -⟩ | ⟨merged, finished, -⟩
  · exact phase.ended ended rfl alive
  · rw [here] at warm
    cases warm
  · unfold Phase at phase
    rw [done] at phase
    omega
  · unfold Phase at phase
    rw [asking] at phase
    omega
  · unfold Phase at *
    dsimp only
    rw [reading] at phase ⊢
    obtain ⟨start, exit, ⟨collected, result, buf, response⟩ | ⟨result, -⟩⟩ := phase
    · refine ⟨start, exit, .inr ⟨by omega, _, rest, bytes, rfl, rfl, ?_, ?_, ?_⟩⟩
      · exact (collected.waiting w (by simp)).1
      · rw [buf, response]
        exact written
      · exact collected.of_cons (by simp [Reported, here])
    · omega
  · unfold Phase at phase
    rw [finished] at phase
    omega

/-- A child writes a piece of its results. -/
theorem Phase.write {piece left : List Nat} (alive : w.alive = true)
    (here : w.stage = .sending (piece ++ left)) (some : piece ≠ []) (phase : Phase setup (w ::ₘ rest) g) :
    Phase setup ({ w with stage := .sending left } ::ₘ rest) { g with response := g.response ++ piece } := by
  have notReported : ¬ Reported w := by simp [Reported, here, some]
  have notWaiting : ¬ Waiting setup w := by
    rintro ⟨-, cool | called | reported⟩
    · simp [here] at cool
    · simp [here] at called
    · exact notReported reported
  rcases phase.parent_cases with ended | ⟨got, -, warm⟩ | ⟨got, -, -, measuring⟩ | ⟨i, merged, -, waiting⟩ |
    ⟨i, buf, merged, reading, -⟩ | ⟨merged, -, reported | gone⟩
  · exact phase.ended ended rfl alive
  · simp [here] at warm
  · simp [here] at measuring
  · exact absurd waiting notWaiting
  · unfold Phase at *
    dsimp only
    rw [reading] at phase ⊢
    obtain ⟨start, exit, ⟨collected, -⟩ | ⟨result, writer, others, left', split, reporting⟩⟩ := phase
    · exact absurd (collected.waiting w (by simp)) notWaiting
    · obtain ⟨sending, complete, written, collected⟩ := reporting
      rcases Multiset.cons_eq_cons.mp split with ⟨rfl, rfl⟩ | ⟨-, common, rfl, rfl⟩
      · refine ⟨start, exit, .inr ⟨result, _, rest, left, rfl, rfl, complete, ?_, collected⟩⟩
        obtain rfl : piece ++ left = left' := Stage.sending.inj (here.symm.trans sending)
        rwa [List.append_assoc]
      · exact absurd (collected.waiting w (by simp)) notWaiting
  · exact absurd reported notReported
  · simp [here] at gone

/-- A child exits. -/
theorem Phase.leave {sigchld : Bool} (alive : w.alive = true) (here : w.stage = .sending [])
    (seen : 0 < g.exit) (phase : Phase setup (w ::ₘ rest) g) :
    Phase setup ({ w with stage := .gone } ::ₘ rest) { g with exit := g.exit - 1, sigchld } := by
  rcases phase.parent_cases with ended | ⟨got, -, warm⟩ | ⟨got, -, -, measuring⟩ | ⟨i, merged, asking, -⟩ |
    ⟨i, buf, merged, reading, -⟩ | ⟨merged, finished, -⟩
  · exact phase.ended ended rfl alive
  · simp [here] at warm
  · simp [here] at measuring
  · unfold Phase at phase
    rw [asking] at phase
    omega
  · unfold Phase at phase
    rw [reading] at phase
    omega
  · unfold Phase at *
    dsimp only
    rw [finished] at phase ⊢
    obtain ⟨sent, start, result, response, exit, held⟩ := phase
    refine ⟨?_, start, result, response, ?_, ?_⟩
    · intro d member
      rcases Multiset.mem_cons.mp member with rfl | other
      · exact .inr rfl
      · exact sent d (Multiset.mem_cons_of_mem other)
    · have before : Reported w := here
      rw [Multiset.countP_cons_of_pos _ before] at exit
      rw [Multiset.countP_cons_of_neg _ (by simp [Reported])]
      omega
    · unfold Merged at *
      rw [Multiset.cons_bind] at held ⊢
      exact held

/-- Every step of a child keeps the phase. -/
theorem Phase.worker {l : Label} (moves : WorkerStep setup w l w') (step : effect l g g')
    (phase : Phase setup (w ::ₘ rest) g) : Phase setup (w' ::ₘ rest) g' := by
  cases moves with
  | run alive here =>
      obtain rfl := step
      exact phase
  | measure r alive here =>
      obtain rfl := step
      exact phase.measure r alive here
  | announce alive here first =>
      obtain ⟨c, rfl⟩ := step
      exact phase.announce alive here first
  | seeStart alive here =>
      obtain ⟨seen, rfl⟩ := step
      exact phase.seeStart alive here seen
  | takeStart alive here =>
      obtain ⟨seen, rfl⟩ := step
      exact phase.takeStart alive here seen
  | announceLate alive here =>
      obtain ⟨c, rfl⟩ := step
      exact phase.announceLate alive here
  | complete alive here complete =>
      obtain ⟨c, rfl⟩ := step
      exact phase.complete alive here complete
  | seeResult alive here =>
      obtain ⟨seen, rfl⟩ := step
      exact phase.seeResult alive here seen
  | takeResult alive here written =>
      obtain ⟨seen, rfl⟩ := step
      exact phase.takeResult alive here written seen
  | write alive here some =>
      obtain rfl := step
      exact phase.write alive here some
  | leave alive here =>
      obtain ⟨seen, rfl⟩ := step
      exact phase.leave alive here seen
  | die alive here =>
      obtain rfl := step
      have alike : Alike w { w with alive := false } := ⟨rfl, rfl, rfl⟩
      exact phase.alike alike alive

/-- A child that steps is alive. -/
theorem WorkerStep.alive {l : Label} (moves : WorkerStep setup w l w') : w.alive = true := by
  cases moves
  all_goals assumption

/-- No exit signal is on its way while the parent still has its handler. -/
theorem Phase.noExit (phase : Phase setup (w ::ₘ rest) g) (watches : g.parent.watches = true) :
    g.exit = 0 := by
  unfold Phase at phase
  cases here : g.parent with
  | ready got =>
      rw [here] at phase
      exact phase.2.2.2.1
  | done got =>
      rw [here] at phase
      exact phase.2.2.1
  | asking i merged =>
      rw [here] at phase
      exact phase.2.2.2.1
  | reading i buf merged =>
      rw [here] at phase
      exact phase.2.1
  | finished merged => simp [here, Parent.watches] at watches
  | failed cause => simp [here, Parent.watches] at watches
  | faulted => simp [here, Parent.watches] at watches

/-- Only an exit and a death can set the flag. -/
theorem sigchld_of_effect {l : Label} (step : effect l g g') :
    g'.sigchld = g.sigchld ∨ l = .dies ∨
      0 < g.exit ∧ g'.sigchld = (g.sigchld || g.parent.watches) := by
  cases l with
  | quiet =>
      obtain rfl := step
      exact .inl rfl
  | ready =>
      obtain ⟨c, rfl⟩ := step
      exact .inl rfl
  | seesStart =>
      obtain ⟨-, rfl⟩ := step
      exact .inl rfl
  | takesStart =>
      obtain ⟨-, rfl⟩ := step
      exact .inl rfl
  | done =>
      obtain ⟨c, rfl⟩ := step
      exact .inl rfl
  | seesResult =>
      obtain ⟨-, rfl⟩ := step
      exact .inl rfl
  | takesResult =>
      obtain ⟨-, rfl⟩ := step
      exact .inl rfl
  | writes bytes =>
      obtain rfl := step
      exact .inl rfl
  | takesExit =>
      obtain ⟨seen, rfl⟩ := step
      exact .inr (.inr ⟨seen, rfl⟩)
  | dies => exact .inr (.inl rfl)

/-- Every step of a child keeps the invariant. -/
theorem Invariant.worker {l : Label} (moves : WorkerStep setup w l w') (step : effect l g g')
    (inv : Invariant setup (w ::ₘ rest) g) : Invariant setup (w' ::ₘ rest) g' := by
  obtain ⟨card, died, phase⟩ := inv
  refine ⟨by simpa using card, ?_, phase.worker moves step⟩
  have kept : g.sigchld = true → ∃ d ∈ w' ::ₘ rest, d.alive = false := by
    intro flag
    obtain ⟨dead, member, gone⟩ := died flag
    rcases Multiset.mem_cons.mp member with rfl | other
    · rw [moves.alive] at gone
      cases gone
    · exact ⟨dead, Multiset.mem_cons_of_mem other, gone⟩
  intro flag
  rcases sigchld_of_effect step with same | rfl | ⟨seen, exits⟩
  · exact kept (same ▸ flag)
  · cases moves with
    | die alive here => exact ⟨_, Multiset.mem_cons_self _ _, rfl⟩
  · rw [exits] at flag
    rcases Bool.or_eq_true_iff.mp flag with before | watches
    · exact kept before
    · have none := phase.noExit watches
      omega

end OneWorker

/-! ### The parent -/

section TheParent

variable {setup} {workers : Multiset Worker} {g g' : Shared}

/-- All children have sent a signal when the parent has counted as many. -/
theorem all_of_count {p : Worker → Prop} [DecidablePred p] {got len : Nat}
    (card : workers.card = setup.parallel) (total : got + len = workers.countP p)
    (enough : setup.parallel ≤ got) : len = 0 ∧ ∀ w ∈ workers, p w := by
  have most := Multiset.countP_le_card p workers
  have every : workers.countP p = workers.card := by omega
  exact ⟨by omega, Multiset.countP_eq_card.mp every⟩

/-- The parent reads ready signals. -/
theorem Phase.readReady {got k : Nat} (here : g.parent = .ready got) (there : k ≤ g.response.length)
    (phase : Phase setup workers g) :
    Phase setup workers { g with parent := .ready (got + k), response := g.response.drop k } := by
  unfold Phase at *
  rw [here] at phase
  obtain ⟨warm, start, result, exit, total⟩ := phase
  refine ⟨warm, start, result, exit, ?_⟩
  dsimp only
  rw [List.length_drop]
  omega

/-- The parent starts all children. -/
theorem Phase.sendStart {got : Nat} (here : g.parent = .ready got) (all : setup.parallel ≤ got)
    (card : workers.card = setup.parallel) (phase : Phase setup workers g) :
    Phase setup workers { g with parent := .done 0, start := g.start + setup.parallel } := by
  unfold Phase at *
  rw [here] at phase
  obtain ⟨warm, start, result, exit, total⟩ := phase
  obtain ⟨empty, announced⟩ := all_of_count card total all
  have awaits : workers.countP AwaitsStart = workers.card :=
    Multiset.countP_eq_card.mpr fun w member => .inl (warm w member)
  have none : workers.countP (¬ Early ·) = 0 :=
    Multiset.countP_eq_zero.mpr fun w member notEarly => notEarly (.inl (warm w member))
  refine ⟨fun w member => ⟨announced w member, .inl (warm w member)⟩, result, exit, ?_, ?_⟩
  · dsimp only
    omega
  · dsimp only
    omega

/-- The parent reads the signals at the end of the measurements. -/
theorem Phase.readDone {got k : Nat} (here : g.parent = .done got) (there : k ≤ g.response.length)
    (phase : Phase setup workers g) :
    Phase setup workers { g with parent := .done (got + k), response := g.response.drop k } := by
  unfold Phase at *
  rw [here] at phase
  obtain ⟨measuring, result, exit, awaits, total⟩ := phase
  refine ⟨measuring, result, exit, awaits, ?_⟩
  dsimp only
  rw [List.length_drop]
  omega

/-- The parent begins to collect. -/
theorem Phase.collect {got : Nat} (here : g.parent = .done got) (all : setup.parallel ≤ got)
    (card : workers.card = setup.parallel) (phase : Phase setup workers g) :
    Phase setup workers { g with
      parent := .asking 0 (insertinit (malloc (entries (setup.parallel * setup.repetitions)))) } := by
  unfold Phase at *
  rw [here] at phase
  obtain ⟨measuring, result, exit, awaits, total⟩ := phase
  obtain ⟨empty, cooled⟩ := all_of_count card total all
  have cool : ∀ w ∈ workers, w.stage = .cool ∧ Complete setup w.r := by
    intro w member
    have notEarly := cooled w member
    rcases measuring w member with ⟨-, warm | entering | timing | cool⟩
    · exact absurd (.inl warm) notEarly
    · exact absurd (.inr (.inl entering)) notEarly
    · exact absurd (.inr (.inr (.inr timing))) notEarly
    · exact cool
  have unsent : ∀ w ∈ workers, ¬ Reported w := by
    intro w member
    simp [Reported, (cool w member).1]
  have started : workers.countP AwaitsStart = 0 := by
    apply Multiset.countP_eq_zero.mpr
    intro w member
    simp [AwaitsStart, (cool w member).1]
  refine ⟨⟨?_, Multiset.countP_eq_zero.mpr unsent, [], holds_insertinit _ _, ?_⟩, awaits.trans started, result,
    exit, List.eq_nil_of_length_eq_zero empty⟩
  · exact fun w member => ⟨(cool w member).2, .inl (cool w member).1⟩
  · rw [Multiset.filter_eq_nil.mpr unsent, Multiset.zero_bind]
    rfl

/-- The parent asks for the results of one child. -/
theorem Phase.ask {i : Nat} {merged : Results} (here : g.parent = .asking i merged)
    (phase : Phase setup workers g) :
    Phase setup workers { g with parent := .reading i [] merged, result := g.result + 1 } := by
  unfold Phase at *
  rw [here] at phase
  obtain ⟨collected, start, result, exit, response⟩ := phase
  exact ⟨start, exit, .inl ⟨collected, by dsimp only; omega, rfl, response⟩⟩

/-- The parent reads a piece of the results. -/
theorem Phase.readResults {i k : Nat} {buf : List Nat} {merged : Results}
    (here : g.parent = .reading i buf merged) (some : 0 < k) (there : k ≤ g.response.length)
    (phase : Phase setup workers g) :
    Phase setup workers { g with
      parent := .reading i (buf ++ g.response.take k) merged, response := g.response.drop k } := by
  unfold Phase at *
  rw [here] at phase
  obtain ⟨start, exit, ⟨-, -, -, empty⟩ | ⟨result, w, others, left, split, sending, complete, written, rest⟩⟩ :=
    phase
  · rw [empty] at there
    exact absurd (some.trans_le there) (Nat.lt_irrefl 0)
  · refine ⟨start, exit, .inr ⟨result, w, others, left, split, sending, complete, ?_, rest⟩⟩
    dsimp only
    rwa [List.append_assoc, ← List.append_assoc (g.response.take k), List.take_append_drop]

theorem Setup.sizeofResult_pos (setup : Setup) : 0 < sizeofResult setup.repetitions := by
  rw [sizeofResult_of_fits setup.fits]
  omega

theorem Setup.entries_lt (setup : Setup) : entries setup.repetitions < 2 ^ 32 := by
  have fits := setup.fits
  rw [entries_eq fits]
  rw [resultBytes_eq] at fits
  omega

/-- When the buffer is full it holds the results of the child. -/
theorem Reporting.full {i : Nat} {buf response : List Nat} {merged : Results}
    (reporting : Reporting setup i buf merged response workers)
    (all : sizeofResult setup.repetitions ≤ buf.length) :
    response = [] ∧ ∃ w others values, workers = w ::ₘ others ∧ Reported w ∧
      Holds setup.format (entries setup.repetitions) values w.r ∧
      values.length ≤ max 1 setup.repetitions.toNat ∧ (∀ value ∈ values, value.u ≠ 0 ∧ value.Fits) ∧
      Written w.r buf ∧ Collected setup i merged others := by
  obtain ⟨w, others, left, split, sending, ⟨values, holds, few, measured⟩, written, collected⟩ := reporting
  have allocated : w.r.v.length = entries setup.repetitions := by
    rw [holds.array]
    have room := holds.room
    simp [malloc]
    omega
  have total := length_written written setup.fits allocated
  rw [List.length_append, List.length_append] at total
  obtain rfl := List.eq_nil_of_length_eq_zero (show response.length = 0 by omega)
  obtain rfl := List.eq_nil_of_length_eq_zero (show left.length = 0 by omega)
  rw [List.append_nil, List.append_nil] at written
  exact ⟨rfl, w, others, values, split, sending, holds, few, measured, written, collected⟩

/-- Values with a time are all inserted, unless there is no room for them. -/
theorem Holds.insertMeasured {format : FloatFormat} {size : Nat} {old values : List Value} {merged : Results}
    (held : Holds format size old merged) (measured : ∀ value ∈ values, value.u ≠ 0) :
    (∃ merged' values', LibTiming.insertAll format values merged = .ok merged' ∧
      Holds format size values' merged' ∧
      values'.Perm (old ++ values)) ∨
    (LibTiming.insertAll format values merged = .error .outOfBounds ∧ size < old.length + values.length) := by
  have every : measuredPairs values = values := by
    apply List.filter_eq_self.mpr
    intro value member
    simpa using measured value member
  by_cases room : old.length + values.length ≤ size
  · obtain ⟨merged', values', ran, held', perm⟩ := @Holds.insertAll _ _ _ _ held values (by rwa [every])
    rw [every] at perm
    exact .inl ⟨merged', values', ran, held', perm⟩
  · exact .inr ⟨held.insertAll_full (by rw [every]; omega), Nat.lt_of_not_le room⟩

/-- A child that has reported is counted with its values. -/
theorem Collected.add {i : Nat} {merged merged' : Results} {w : Worker} {others : Multiset Worker}
    {values values' : List Value} (collected : Collected setup i merged others) (reported : Reported w)
    (complete : Complete setup w.r) (own : valuesOf w.r = values)
    (held : Holds setup.format (entries (setup.parallel * setup.repetitions)) values' merged')
    (total : (values' : Multiset Value) =
      ((others.filter Reported).bind fun w => (valuesOf w.r : Multiset Value)) + values) :
    Collected setup (i + 1) merged' (w ::ₘ others) := by
  obtain ⟨waiting, count, -⟩ := collected
  refine ⟨?_, ?_, values', held, ?_⟩
  · intro d member
    rcases Multiset.mem_cons.mp member with rfl | other
    · exact ⟨complete, .inr (.inr reported)⟩
    · exact waiting d other
  · rw [Multiset.countP_cons_of_pos _ reported, count]
  · rw [Multiset.filter_cons_of_pos _ reported, Multiset.cons_bind, own, total, add_comm]

/-- The parent merges the results it has read. -/
theorem Phase.merge {i : Nat} {buf : List Nat} {merged merged' : Results}
    (here : g.parent = .reading i buf merged) (all : sizeofResult setup.repetitions ≤ buf.length)
    (ran : mergeResults setup.format buf merged = .ok merged') (phase : Phase setup workers g) :
    Phase setup workers { g with parent := .asking (i + 1) merged' } := by
  unfold Phase at *
  rw [here] at phase
  obtain ⟨start, exit, ⟨-, -, rfl, -⟩ | ⟨result, reporting⟩⟩ := phase
  · exact absurd setup.sizeofResult_pos (Nat.not_lt.mpr all)
  · obtain ⟨empty, w, others, values, rfl, reported, holds, few, measured, written, collected⟩ :=
      reporting.full all
    obtain ⟨old, held, oldValues⟩ := collected.merged
    rw [mergeResults_eq holds setup.entries_lt written] at ran
    rcases held.insertMeasured fun value member => (measured value member).1 with
      ⟨merged'', values', ran', held', perm⟩ | ⟨full, -⟩
    · obtain rfl := Except.ok.inj (ran.symm.trans ran')
      refine ⟨collected.add reported ⟨values, holds, few, measured⟩ holds.valuesOf held' ?_, start,
        result, exit,
        empty⟩
      rw [← oldValues, Multiset.coe_add]
      exact Multiset.coe_eq_coe.mpr perm
    · rw [full] at ran
      cases ran

/-- The values of the children that have reported. -/
theorem Collected.few {i : Nat} {merged : Results} (collected : Collected setup i merged workers) :
    ∃ values, Holds setup.format (entries (setup.parallel * setup.repetitions)) values merged ∧
      values.length ≤ i * max 1 setup.repetitions.toNat := by
  obtain ⟨waiting, count, values, held, total⟩ := collected
  refine ⟨values, held, ?_⟩
  have each : ∀ n ∈ (workers.filter Reported).map fun w => (valuesOf w.r).length,
      n ≤ max 1 setup.repetitions.toNat := by
    intro n member
    obtain ⟨w, inside, rfl⟩ := Multiset.mem_map.mp member
    obtain ⟨⟨own, holds, few, -⟩, -⟩ := waiting w (Multiset.mem_of_mem_filter inside)
    rwa [holds.valuesOf]
  have sum := Multiset.sum_le_card_nsmul _ _ each
  have length := congrArg Multiset.card total
  rw [Multiset.coe_card, Multiset.card_bind] at length
  rw [Multiset.card_map, ← Multiset.countP_eq_card_filter, count, nsmul_eq_mul] at sum
  rw [length]
  exact sum

/-- The merge leaves the allocation only when nothing was allocated for more children than eleven. -/
theorem Phase.fault {i : Nat} {buf : List Nat} {merged : Results} {fault : Fault}
    (here : g.parent = .reading i buf merged) (all : sizeofResult setup.repetitions ≤ buf.length)
    (card : workers.card = setup.parallel)
    (ran : mergeResults setup.format buf merged = .error fault) (phase : Phase setup workers g) :
    setup.repetitions ≤ 0 ∧ 11 < setup.parallel := by
  unfold Phase at phase
  rw [here] at phase
  obtain ⟨start, exit, ⟨-, -, rfl, -⟩ | ⟨result, reporting⟩⟩ := phase
  · exact absurd setup.sizeofResult_pos (Nat.not_lt.mpr all)
  · obtain ⟨empty, w, others, values, rfl, reported, holds, few, measured, written, collected⟩ :=
      reporting.full all
    obtain ⟨old, held, oldFew⟩ := collected.few
    rw [mergeResults_eq holds setup.entries_lt written] at ran
    rcases held.insertMeasured fun value member => (measured value member).1 with
      ⟨merged', values', ran', -⟩ | ⟨-, full⟩
    · rw [ran'] at ran
      cases ran
    · have served : i ≤ others.card := collected.count ▸ Multiset.countP_le_card _ _
      rw [Multiset.card_cons] at card
      have most : old.length + values.length ≤ setup.parallel * max 1 setup.repetitions.toNat := by
        calc old.length + values.length
            ≤ i * max 1 setup.repetitions.toNat + max 1 setup.repetitions.toNat := Nat.add_le_add oldFew few
          _ = (i + 1) * max 1 setup.repetitions.toNat := (Nat.add_one_mul _ _).symm
          _ ≤ setup.parallel * max 1 setup.repetitions.toNat := Nat.mul_le_mul_right _ (by omega)
      rw [entries_eq setup.mergedFits] at full
      by_cases positive : 0 < setup.repetitions
      · obtain ⟨n, same⟩ := Int.eq_ofNat_of_zero_le positive.le
        rw [same] at full most positive
        have product : ((setup.parallel : Int) * (n : Int)).toNat = setup.parallel * n := by
          rw [← Int.natCast_mul, Int.toNat_natCast]
        rw [product] at full
        rw [Int.toNat_natCast, Nat.max_eq_right (by omega)] at most
        omega
      · rw [Int.toNat_eq_zero.mpr (by omega), Nat.max_eq_left (by decide), Nat.mul_one] at most
        exact ⟨by omega, by omega⟩

/-- The parent is done when all children have reported. -/
theorem Phase.finish {i : Nat} {merged : Results} (here : g.parent = .asking i merged)
    (all : setup.parallel ≤ i) (card : workers.card = setup.parallel) (phase : Phase setup workers g) :
    Phase setup workers { g with parent := .finished merged, exit := g.exit + setup.parallel } := by
  unfold Phase at *
  rw [here] at phase
  obtain ⟨⟨waiting, count, held⟩, start, result, exit, response⟩ := phase
  have most := Multiset.countP_le_card Reported workers
  have every : workers.countP Reported = workers.card := by omega
  have reported := Multiset.countP_eq_card.mp every
  rw [Multiset.filter_eq_self.mpr reported] at held
  exact ⟨fun w member => .inl (reported w member), start, result, response, by dsimp only; omega, held⟩

/-- Every step of the parent keeps the invariant. -/
theorem Invariant.parent (moves : ParentStep setup g g') (inv : Invariant setup workers g) :
    Invariant setup workers g' := by
  obtain ⟨card, died, phase⟩ := inv
  cases moves with
  | readReady here some asked there => exact ⟨card, died, phase.readReady here there⟩
  | sendStart here all => exact ⟨card, died, phase.sendStart here all card⟩
  | readDone here some asked there => exact ⟨card, died, phase.readDone here there⟩
  | collect here all => exact ⟨card, died, phase.collect here all card⟩
  | ask here more => exact ⟨card, died, phase.ask here⟩
  | readResults here some asked there => exact ⟨card, died, phase.readResults here some there⟩
  | merge here all ran => exact ⟨card, died, phase.merge here all ran⟩
  | fault here all ran => exact ⟨card, died, phase.fault here all card ran⟩
  | finish here all => exact ⟨card, died, phase.finish here all card⟩
  | fail waits flag => exact ⟨card, died, fun _ => died flag⟩
  | giveUp waits other => exact ⟨card, died, fun same => absurd same other⟩

end TheParent

/-! ### Runs -/

/-- The children after they were forked. -/
def Forked (workers : List Worker) : Prop :=
  ∀ w ∈ workers, w.alive = true ∧ w.announced = false ∧ w.stage = .warm

theorem Invariant.initial {workers : List Worker} (forked : Forked workers)
    (card : workers.length = setup.parallel) : Invariant setup workers Shared.initial := by
  refine ⟨card, fun flag => (nomatch flag), ?_, rfl, rfl, rfl, ?_⟩
  · exact fun w member => (forked w member).2.2
  · have none : (workers : Multiset Worker).countP Announced = 0 := by
      apply Multiset.countP_eq_zero.mpr
      intro w member
      simp [Announced, (forked w member).2.1]
    exact none.symm

/-- The invariant holds in every state that the protocol reaches. -/
theorem Invariant.run {workers : List Worker} {s : Composite Worker Shared} (forked : Forked workers)
    (card : workers.length = setup.parallel)
    (run : Composite.Steps (protocol setup) ⟨workers, Shared.initial⟩ s) :
    Invariant setup s.parts s.shared := by
  apply Composite.Steps.invariant_multiset (Invariant setup) run (Invariant.initial setup forked card)
  · exact fun rest c l c' g g' moves step inv => inv.worker moves step
  · exact fun parts g g' moves inv => inv.parent moves

end Numafac.LibTiming
