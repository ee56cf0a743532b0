/-
Module: Numafac.Lmbench.LoadWalk
Layer: Lmbench
Purpose: `benchmark_loads` walks along the pointers that an initialization left in the buffer. In a
  measurement the initialization runs before every interval, so when it leaves one and the same ring each
  time, each interval makes exactly the number of loads that its time is divided by, and loads every cell of
  the ring equally often but for one time (`measure_of_chained`).
Trusted boundary: the translation of `benchmark_loads` and of the calls of `benchmp_interval`; an interval
  has at least one iteration
Main exports: benchmarkLoads, loadCount, measure, Chained, EvenLoads, StrideFits, measure_of_chained
-/
import Numafac.Base.PointerRing
import Numafac.Lmbench.BufferLayout

namespace Numafac.LibMem

/-- `benchmark_loads`, with the addresses that are loaded. Each of the `iterations` runs `HUNDRED` loads
`count` times. -/
def benchmarkLoads (iterations : Nat) (s : MemState) : CResult (List Nat × MemState) :=
  match s.p with
  | none => .error .uninitialised
  | some p => do
      let count := s.len / (s.line * 100) + 1
      let (loaded, p) ←
        forRange 0 iterations (fun walked _ => chaseRounds s.block.loadPointer count 100 walked) ([], p)
      pure (loaded, { s with p := some p })

/-- `count` of `loads` and `compute_latency`: what the time of one iteration is divided by. -/
def loadCount (s : MemState) : Nat :=
  100 * (s.len / (s.line * 100) + 1)

/-- The intervals of a measurement: before each one `benchmp_interval` calls `fpInit` with the number of
iterations that the benchmark runs. -/
def measure (fpInit : Nat → MemState → CResult MemState) :
    List Nat → MemState → CResult (List (List Nat) × MemState)
  | [], s => .ok ([], s)
  | iterations :: intervals, s => do
      let s ← fpInit iterations s
      let (loaded, s) ← benchmarkLoads iterations s
      let (later, s) ← measure fpInit intervals s
      pure (loaded :: later, s)

/-- The buffer holds a ring of pointers, and `p[0]` points to its first cell. -/
structure Chained (s : MemState) (count : Nat) (cell : Nat → Nat) : Prop where
  laid : Laid s
  start : s.p = some (cell 0)
  ring : Ring s.block.loadPointer count cell

/-- The loads of one interval: as many as its time is divided by, all in the ring, every cell at least once
in each iteration, and as often as any other cell but for one time. -/
structure EvenLoads (count : Nat) (cell : Nat → Nat) (perIteration iterations : Nat)
    (loaded : List Nat) : Prop where
  length : loaded.length = iterations * perIteration
  inside : ∀ a ∈ loaded, ∃ k < count, a = cell k
  every : ∀ k < count, iterations ≤ loaded.count (cell k)
  low : ∀ k < count, iterations * perIteration / count ≤ loaded.count (cell k)
  high : ∀ k < count, loaded.count (cell k) ≤ iterations * perIteration / count + 1

/-- Pointers at multiples of a stride that holds a pointer do not overlap. -/
theorem eq_or_apart_of_stride {base stride : Nat} (pointer : 8 ≤ stride) (i j : Nat) :
    base + i * stride = base + j * stride ∨ Apart 8 (base + i * stride) (base + j * stride) := by
  rcases Nat.lt_trichotomy i j with less | rfl | more
  · have room : (i + 1) * stride ≤ j * stride := Nat.mul_le_mul_right stride less
    rw [Nat.add_one_mul] at room
    exact Or.inr (Or.inl (by omega))
  · exact Or.inl rfl
  · have room : (j + 1) * stride ≤ i * stride := Nat.mul_le_mul_right stride more
    rw [Nat.add_one_mul] at room
    exact Or.inr (Or.inr (by omega))

/-- What a measurement needs: a stride that holds a pointer, pages as well, and a range that is not empty and
not longer than the buffer. -/
structure StrideFits (s : MemState) : Prop where
  pointer : 8 ≤ s.line
  page : 8 ≤ s.pagesize
  nonempty : 0 < s.len
  room : s.len ≤ s.maxlen

theorem StrideFits.congr {s s' : MemState} (fits : StrideFits s) (same : SameParameters s s') :
    StrideFits s' := by
  obtain ⟨pointer, page, nonempty, room⟩ := fits
  obtain ⟨len, maxlen, line, pagesize⟩ := same
  rw [← line] at pointer
  rw [← pagesize] at page
  rw [← len] at nonempty
  rw [← len, ← maxlen] at room
  exact ⟨pointer, page, nonempty, room⟩

/-- Three kilobytes of a buffer of one megabyte, in strides of 256 bytes. -/
def threeKilobytes : MemState where
  len := 3072
  maxlen := 2 ^ 20
  line := 256
  pagesize := 4096
  initialized := false
  nwords := 0
  nlines := 0
  npages := 0
  pages := none
  words := none
  block := { base := 0, size := 0, bytes := fun _ => none }
  base := 0
  p := none
  line_pos := by decide
  pagesize_pos := by decide
  pagesize_int := by decide
  nmpages_int := by decide

theorem strideFits_threeKilobytes : StrideFits threeKilobytes :=
  ⟨by decide, by decide, by decide, by decide⟩

variable {s : MemState} {count : Nat} {cell : Nat → Nat}

theorem Chained.benchmarkLoads (chained : Chained s count cell) (iterations : Nat) :
    benchmarkLoads iterations s =
      .ok ((Ring.walk count cell 0 (iterations * loadCount s)).1,
        { s with p := some (Ring.walk count cell 0 (iterations * loadCount s)).2 }) := by
  have walked := chained.ring.forRange_chaseRounds 0 iterations (s.len / (s.line * 100) + 1) 100
  have start : Ring.walk count cell 0 0 = ([], cell 0) := by
    simp [Ring.walk]
  have total : iterations * ((s.len / (s.line * 100) + 1) * 100) = iterations * loadCount s := by
    rw [loadCount, Nat.mul_comm 100]
  rw [start, total] at walked
  rw [LibMem.benchmarkLoads, chained.start]
  exact bind_eq_ok.mpr ⟨_, walked, rfl⟩

/-- One iteration makes at least a load for every stride of the range. -/
theorem le_loadCount (s : MemState) : s.len / s.line + 1 ≤ loadCount s := by
  have split : s.len / (s.line * 100) = s.len / s.line / 100 := (Nat.div_div_eq_div_mul _ _ _).symm
  rw [loadCount, split]
  omega

theorem evenLoads_of_ring {next : Nat → CResult Nat} (ring : Ring next count cell) {perIteration : Nat}
    (enough : count ≤ perIteration) (iterations : Nat) :
    EvenLoads count cell perIteration iterations
      (Ring.walk count cell 0 (iterations * perIteration)).1 := by
  constructor
  case length => simp [Ring.walk]
  case inside =>
    intro a member
    obtain ⟨k, -, rfl⟩ := List.mem_map.mp member
    exact ⟨_, Nat.mod_lt _ ring.pos, rfl⟩
  case every =>
    intro k inside
    have laps : iterations ≤ iterations * perIteration / count :=
      (Nat.le_div_iff_mul_le ring.pos).mpr (Nat.mul_le_mul_left iterations enough)
    exact laps.trans (ring.visits_bounds inside 0 _).1
  case low => exact fun k inside => (ring.visits_bounds inside 0 _).1
  case high => exact fun k inside => (ring.visits_bounds inside 0 _).2

/-- When every call of `fpInit` for an interval leaves the same ring, wherever `p[0]` points to before it, a
measurement never faults and each of its intervals loads evenly. -/
theorem measure_of_chained {fpInit : Nat → MemState → CResult MemState} {ready : MemState → Prop}
    {perIteration : Nat} (enough : count ≤ perIteration)
    (links : ∀ s, ready s → ∀ n, 0 < n → ∃ s', fpInit n s = .ok s' ∧ Chained s' count cell ∧
      loadCount s' = perIteration ∧ ∀ p, ready { s' with p })
    (start : ready s) {intervals : List Nat} (pos : ∀ n ∈ intervals, 0 < n) :
    ∃ loads final, measure fpInit intervals s = .ok (loads, final) ∧
      List.Forall₂ (EvenLoads count cell perIteration) intervals loads := by
  induction intervals generalizing s with
  | nil => exact ⟨[], s, rfl, List.Forall₂.nil⟩
  | cons n intervals ih =>
      obtain ⟨s₁, linked, chained, loads, again⟩ := links s start n (pos n (by simp))
      have loaded := chained.benchmarkLoads n
      have even := evenLoads_of_ring chained.ring enough n
      rw [loads] at loaded
      obtain ⟨later, final, ran, even'⟩ := ih (again _) fun m member => pos m (by simp [member])
      refine ⟨_ :: later, final, ?_, List.Forall₂.cons even even'⟩
      exact bind_eq_ok.mpr ⟨s₁, linked, bind_eq_ok.mpr ⟨_, loaded, bind_eq_ok.mpr ⟨_, ran, rfl⟩⟩⟩

end Numafac.LibMem
