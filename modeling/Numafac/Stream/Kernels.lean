/-
Module: Numafac.Stream.Kernels
Layer: Stream
Purpose: The arrays of `stream.c`. Every loop of the benchmark is parallel, so its iterations come in any
  order, in each of the repetitions another one. In any arithmetic every element ends with the number that
  `checkSTREAMresults` computes for it, and each of its sums adds that one number up (`stream_checks`).
Trusted boundary: the translation of the loops; the numbers of an array are as `double` stores them
Main exports: Arrays, Pass, stream, expected, checkSums, stream_checks, stream_validates
-/
import Mathlib.Algebra.Ring.Defs
import Mathlib.Logic.Function.Iterate
import Numafac.Base.ParallelFor

namespace Numafac.Stream

variable {α : Type} {n : Nat}

/-- The arrays `a`, `b` and `c`. -/
structure Arrays (α : Type) where
  a : Nat → α
  b : Nat → α
  c : Nat → α

/-- What the three arrays hold at one index. -/
structure Cell (α : Type) where
  a : α
  b : α
  c : α

def Arrays.cell (s : Arrays α) (j : Nat) : Cell α :=
  ⟨s.a j, s.b j, s.c j⟩

/-- `a[j] = v`. -/
def store (a : Nat → α) (j : Nat) (v : α) : Nat → α :=
  fun i => if i = j then v else a i

/-! ### The loop bodies -/

/-- The initial values. -/
def setArrays [NatCast α] (j : Nat) (s : Arrays α) : Arrays α :=
  ⟨store s.a j (1 : Nat), store s.b j (2 : Nat), store s.c j (0 : Nat)⟩

/-- The loop that the clock is checked with. -/
def timingCheck [Mul α] [NatCast α] (j : Nat) (s : Arrays α) : Arrays α :=
  { s with a := store s.a j ((2 : Nat) * s.a j) }

def copy (j : Nat) (s : Arrays α) : Arrays α :=
  { s with c := store s.c j (s.a j) }

def scale [Mul α] (scalar : α) (j : Nat) (s : Arrays α) : Arrays α :=
  { s with b := store s.b j (scalar * s.c j) }

def add [Add α] (j : Nat) (s : Arrays α) : Arrays α :=
  { s with c := store s.c j (s.a j + s.b j) }

def triad [Add α] [Mul α] (scalar : α) (j : Nat) (s : Arrays α) : Arrays α :=
  { s with a := store s.a j (s.b j + scalar * s.c j) }

/-- An order in which the threads run the iterations below `n`. -/
structure Order (n : Nat) where
  order : List Nat
  perm : order.Perm (List.range n)

/-- The orders of the four loops in one repetition. -/
structure Pass (n : Nat) where
  copy : Order n
  scale : Order n
  add : Order n
  triad : Order n

section Arithmetic

variable [Add α] [Mul α] [NatCast α]

/-- One repetition of the main loop, with `scalar = 3.0`. -/
def repetition (s : Arrays α) (pass : Pass n) : Arrays α :=
  let s := parallelFor copy pass.copy.order s
  let s := parallelFor (scale ((3 : Nat) : α)) pass.scale.order s
  let s := parallelFor add pass.add.order s
  parallelFor (triad ((3 : Nat) : α)) pass.triad.order s

/-- `main` up to the end of the main loop. -/
def stream (first second : Order n) (passes : List (Pass n)) (s : Arrays α) : Arrays α :=
  passes.foldl repetition (parallelFor timingCheck second.order (parallelFor setArrays first.order s))

/-! ### The check -/

/-- One turn of the loop of `checkSTREAMresults` on `aj`, `bj` and `cj`. -/
def expectedTurn (e : Cell α) : Cell α :=
  let cj := e.a
  let bj := (3 : Nat) * cj
  let cj := e.a + bj
  let aj := bj + (3 : Nat) * cj
  ⟨aj, bj, cj⟩

/-- `aj`, `bj` and `cj` after so many turns. -/
def expected (turns : Nat) : Cell α :=
  expectedTurn^[turns] ⟨(2 : Nat) * (1 : Nat), (2 : Nat), (0 : Nat)⟩

/-- `asum`, `bsum` and `csum`. -/
def checkSums (n : Nat) (s : Arrays α) : Cell α :=
  (List.range n).foldl (fun sums j => ⟨sums.a + s.a j, sums.b + s.b j, sums.c + s.c j⟩)
    ⟨(0 : Nat), (0 : Nat), (0 : Nat)⟩

end Arithmetic

theorem store_self (a : Nat → α) (j : Nat) (v : α) : store a j v j = v :=
  if_pos rfl

theorem store_of_ne (a : Nat → α) {i j : Nat} (other : i ≠ j) (v : α) : store a j v i = a i :=
  if_neg other

section Bodies

theorem pointwise_setArrays [NatCast α] :
    Pointwise Arrays.cell (setArrays : Nat → Arrays α → Arrays α)
      fun _ => ⟨(1 : Nat), (2 : Nat), (0 : Nat)⟩ := by
  refine ⟨fun j s => ?_, fun s other => ?_⟩
  · simp only [Arrays.cell, setArrays, store_self]
  · simp only [Arrays.cell, setArrays, store_of_ne _ other]

theorem pointwise_timingCheck [Mul α] [NatCast α] :
    Pointwise Arrays.cell (timingCheck : Nat → Arrays α → Arrays α)
      fun e => { e with a := (2 : Nat) * e.a } := by
  refine ⟨fun j s => ?_, fun s other => ?_⟩
  · simp only [Arrays.cell, timingCheck, store_self]
  · simp only [Arrays.cell, timingCheck, store_of_ne _ other]

theorem pointwise_copy :
    Pointwise Arrays.cell (copy : Nat → Arrays α → Arrays α) fun e => { e with c := e.a } := by
  refine ⟨fun j s => ?_, fun s other => ?_⟩
  · simp only [Arrays.cell, copy, store_self]
  · simp only [Arrays.cell, copy, store_of_ne _ other]

theorem pointwise_scale [Mul α] (scalar : α) :
    Pointwise Arrays.cell (scale scalar) fun e => { e with b := scalar * e.c } := by
  refine ⟨fun j s => ?_, fun s other => ?_⟩
  · simp only [Arrays.cell, scale, store_self]
  · simp only [Arrays.cell, scale, store_of_ne _ other]

theorem pointwise_add [Add α] :
    Pointwise Arrays.cell (add : Nat → Arrays α → Arrays α) fun e => { e with c := e.a + e.b } := by
  refine ⟨fun j s => ?_, fun s other => ?_⟩
  · simp only [Arrays.cell, add, store_self]
  · simp only [Arrays.cell, add, store_of_ne _ other]

theorem pointwise_triad [Add α] [Mul α] (scalar : α) :
    Pointwise Arrays.cell (triad scalar) fun e => { e with a := e.b + scalar * e.c } := by
  refine ⟨fun j s => ?_, fun s other => ?_⟩
  · simp only [Arrays.cell, triad, store_self]
  · simp only [Arrays.cell, triad, store_of_ne _ other]

end Bodies

section Run

variable [Add α] [Mul α] [NatCast α]

/-- A repetition does to every element what a turn of the check does. -/
theorem cell_repetition (s : Arrays α) (pass : Pass n) {j : Nat} (inside : j < n) :
    (repetition s pass).cell j = expectedTurn (s.cell j) := by
  rw [repetition, cell_parallelFor_range (pointwise_triad _) pass.triad.perm _ inside,
    cell_parallelFor_range pointwise_add pass.add.perm _ inside,
    cell_parallelFor_range (pointwise_scale _) pass.scale.perm _ inside,
    cell_parallelFor_range pointwise_copy pass.copy.perm _ inside]
  rfl

theorem cell_repetitions (passes : List (Pass n)) (s : Arrays α) {j : Nat} (inside : j < n) :
    (passes.foldl repetition s).cell j = expectedTurn^[passes.length] (s.cell j) := by
  induction passes generalizing s with
  | nil => rfl
  | cons pass passes ih =>
      rw [List.foldl_cons, ih, cell_repetition s pass inside, List.length_cons, Function.iterate_succ_apply]

/-- Every element ends as the check expects it. -/
theorem cell_stream (first second : Order n) (passes : List (Pass n)) (s : Arrays α) {j : Nat}
    (inside : j < n) :
    (stream first second passes s).cell j = expected passes.length := by
  rw [stream, cell_repetitions passes _ inside,
    cell_parallelFor_range pointwise_timingCheck second.perm _ inside,
    cell_parallelFor_range pointwise_setArrays first.perm _ inside]
  rfl

end Run

/-- Sums of arrays that hold the same numbers everywhere. -/
theorem checkSums_eq [Add α] [NatCast α] {s : Arrays α} {e : Cell α} (same : ∀ j < n, s.cell j = e) :
    checkSums n s = (fun sums : Cell α => ⟨sums.a + e.a, sums.b + e.b, sums.c + e.c⟩)^[n]
      ⟨(0 : Nat), (0 : Nat), (0 : Nat)⟩ := by
  induction n with
  | zero => rfl
  | succ n ih =>
      have last := same n (Nat.lt_succ_self n)
      have before := ih fun j less => same j (Nat.lt_succ_of_lt less)
      rw [checkSums] at before ⊢
      rw [List.range_succ, List.foldl_append, before, Function.iterate_succ_apply', ← last]
      rfl

/-- In any arithmetic, and in any order of the iterations of each loop: every element ends with the number
that the check computes for it, and each sum of the check adds up that one number. -/
theorem stream_checks [Add α] [Mul α] [NatCast α] (first second : Order n) (passes : List (Pass n))
    (s : Arrays α) :
    let e : Cell α := expected passes.length
    (∀ j < n, (stream first second passes s).cell j = e) ∧
      checkSums n (stream first second passes s) =
        (fun sums : Cell α => ⟨sums.a + e.a, sums.b + e.b, sums.c + e.c⟩)^[n]
          ⟨(0 : Nat), (0 : Nat), (0 : Nat)⟩ := by
  have cells : ∀ j < n, (stream first second passes s).cell j = expected passes.length :=
    fun j inside => cell_stream first second passes s inside
  exact ⟨cells, checkSums_eq cells⟩

/-- Without rounding the sums are what the check compares them with. -/
theorem stream_validates {R : Type} [Semiring R] (first second : Order n) (passes : List (Pass n))
    (s : Arrays R) :
    let e : Cell R := expected passes.length
    checkSums n (stream first second passes s) = ⟨e.a * n, e.b * n, e.c * n⟩ := by
  intro e
  have added : ∀ m : Nat, (fun sums : Cell R => ⟨sums.a + e.a, sums.b + e.b, sums.c + e.c⟩)^[m]
      ⟨(0 : Nat), (0 : Nat), (0 : Nat)⟩ = (⟨e.a * m, e.b * m, e.c * m⟩ : Cell R) := by
    intro m
    induction m with
    | zero => simp
    | succ m ih =>
        rw [Function.iterate_succ_apply', ih]
        simp only [Nat.cast_succ, mul_add, mul_one]
  exact (checkSums_eq fun j inside => cell_stream first second passes s inside).trans (added n)

end Numafac.Stream
