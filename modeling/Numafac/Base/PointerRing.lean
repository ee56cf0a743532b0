/-
Module: Numafac.Base.PointerRing
Layer: Base
Purpose: Walks along pointers, and rings of them: `count` cells where each one points to the next and the
  last one to the first. A walk in a ring never leaves it and never ends, `count` steps visit every cell
  once (`Ring.lap`), and after any number of steps no cell has been visited twice more often than another
  (`Ring.visits_bounds`). Several pointers that are moved together walk around a ring as well
  (`Ring.parallel`).
Trusted boundary: none
Main exports: chase, chaseRounds, Ring, Ring.chase, Ring.chaseRounds, Ring.lap, Ring.visits,
  Ring.visits_bounds, mapM_ok, exists_of_mapM_ok, Ring.parallel, Ring.nodup_parallel,
  exists_ring_of_lastStore, ringStores, ringStores_eq
-/
import Mathlib.Data.List.Nodup
import Mathlib.Data.Nat.ModEq
import Numafac.Base.Memory

namespace Numafac

variable {α : Type}

/-- `p = *p` so many times: the cells that are read, in order, and the last pointer. -/
def chase (next : α → CResult α) : Nat → α → CResult (List α × α)
  | 0, p => .ok ([], p)
  | steps + 1, p => do
      let q ← next p
      let (visited, last) ← chase next steps q
      pure (p :: visited, last)

/-- `for (i = 0; i < rounds; ++i)` with so many steps in each round, and the cells that are read. -/
def chaseRounds (next : α → CResult α) (rounds steps : Nat) (walked : List α × α) : CResult (List α × α) :=
  forRange 0 rounds (fun walked _ => do
    let (visited, last) ← chase next steps walked.2
    pure (walked.1 ++ visited, last)) walked

variable {next : α → CResult α}

/-- `count` different cells, each with the pointer to the next one; the last one points to the first. -/
structure Ring (next : α → CResult α) (count : Nat) (cell : Nat → α) : Prop where
  pos : 0 < count
  distinct : ∀ i < count, ∀ j < count, cell i = cell j → i = j
  next_eq : ∀ i < count, next (cell i) = .ok (cell ((i + 1) % count))

namespace Ring

variable {count : Nat} {cell : Nat → α}

/-- The cells that `steps` steps from the cell at `start` read, and where they end. -/
def walk (count : Nat) (cell : Nat → α) (start steps : Nat) : List α × α :=
  ((List.range' start steps).map (fun s => cell (s % count)), cell ((start + steps) % count))

/-- A walk along the pointers of a ring. -/
theorem chase (ring : Ring next count cell) (start steps : Nat) :
    Numafac.chase next steps (cell (start % count)) = .ok (walk count cell start steps) := by
  induction steps generalizing start with
  | zero => rfl
  | succ steps ih =>
      have here := ring.next_eq (start % count) (Nat.mod_lt _ ring.pos)
      rw [Nat.mod_add_mod] at here
      have rest := ih (start + 1)
      rw [walk, Nat.add_assoc, Nat.add_comm 1 steps] at rest
      exact bind_eq_ok.mpr ⟨_, here, bind_eq_ok.mpr ⟨_, rest, rfl⟩⟩

/-- Rounds of a walk are one walk. -/
theorem chaseRounds (ring : Ring next count cell) (start before rounds steps : Nat) :
    Numafac.chaseRounds next rounds steps (walk count cell start before) =
      .ok (walk count cell start (before + rounds * steps)) := by
  have step : ∀ i state, 0 ≤ i → i < rounds → state = walk count cell start (before + i * steps) →
      ∃ state', (do
        let (visited, last) ← Numafac.chase next steps state.2
        pure (state.1 ++ visited, last)) = .ok state' ∧
          state' = walk count cell start (before + (i + 1) * steps) := by
    rintro i state - - rfl
    have walked := ring.chase (start + (before + i * steps)) steps
    refine ⟨_, bind_eq_ok.mpr ⟨_, walked, rfl⟩, ?_⟩
    have total : before + (i + 1) * steps = before + i * steps + steps := by
      rw [Nat.add_one_mul, Nat.add_assoc]
    simp only [walk]
    rw [total, ← List.map_append, List.range'_append_1, Nat.add_assoc start _ steps]
  obtain ⟨final, ran, rfl⟩ := forRange_ok
    (fun i state => state = walk count cell start (before + i * steps)) (Nat.zero_le rounds)
    (by rw [Nat.zero_mul, Nat.add_zero]) step
  exact ran

/-- Rounds of rounds as well. -/
theorem forRange_chaseRounds (ring : Ring next count cell) (start passes rounds steps : Nat) :
    forRange 0 passes (fun walked _ => Numafac.chaseRounds next rounds steps walked)
        (walk count cell start 0) = .ok (walk count cell start (passes * (rounds * steps))) := by
  have step : ∀ i walked, 0 ≤ i → i < passes → walked = walk count cell start (i * (rounds * steps)) →
      ∃ walked', Numafac.chaseRounds next rounds steps walked = .ok walked' ∧
        walked' = walk count cell start ((i + 1) * (rounds * steps)) := by
    rintro i walked - - rfl
    refine ⟨_, ring.chaseRounds start (i * (rounds * steps)) rounds steps, ?_⟩
    rw [Nat.add_one_mul]
  obtain ⟨final, ran, rfl⟩ := forRange_ok
    (fun i walked => walked = walk count cell start (i * (rounds * steps))) (Nat.zero_le passes)
    (by rw [Nat.zero_mul]) step
  exact ran

/-- One lap reads every cell once, in order, and is back at the start. -/
theorem lap (ring : Ring next count cell) :
    Numafac.chase next count (cell 0) = .ok ((List.range count).map cell, cell 0) := by
  have walked := ring.chase 0 count
  rw [walk, Nat.zero_mod, Nat.zero_add, Nat.mod_self] at walked
  rw [walked, List.range_eq_range']
  congr 2
  apply List.map_congr_left
  intro s member
  rw [Nat.mod_eq_of_lt (by simpa using member)]

/-- No cell is read twice in a lap. -/
theorem nodup_lap (ring : Ring next count cell) : ((List.range count).map cell).Nodup := by
  apply List.Nodup.map_on _ List.nodup_range
  intro i hi j hj same
  exact ring.distinct i (List.mem_range.mp hi) j (List.mem_range.mp hj) same

end Ring

/-- Remainders by divisibility. -/
theorem mod_eq_iff_dvd {count j : Nat} (hj : j < count) (s : Nat) :
    s % count = j ↔ count ∣ s + (count - j) := by
  have split := Nat.mod_add_div s count
  constructor
  · intro same
    refine ⟨s / count + 1, ?_⟩
    rw [Nat.mul_add_one]
    omega
  · rintro ⟨laps, total⟩
    cases laps with
    | zero => omega
    | succ laps =>
        rw [Nat.mul_add_one] at total
        have back : s = j + count * laps := by omega
        rw [back, Nat.add_mul_mod_self_left, Nat.mod_eq_of_lt hj]

namespace Ring

variable {count : Nat} {cell : Nat → α} [DecidableEq α]

/-- How often a walk reads the cell `j`: once for every `count` steps, counted from the step on which it
would have been read last before the start. -/
theorem visits (ring : Ring next count cell) {j : Nat} (hj : j < count) (start steps : Nat) :
    (walk count cell start steps).1.count (cell j) =
      ((start + (count - 1 - j)) % count + steps) / count := by
  simp only [walk]
  induction steps with
  | zero => simp [Nat.div_eq_of_lt (Nat.mod_lt _ ring.pos)]
  | succ steps ih =>
      have reached : cell ((start + steps) % count) = cell j ↔
          count ∣ (start + (count - 1 - j)) % count + steps + 1 := by
        have small := Nat.mod_lt (start + steps) ring.pos
        calc cell ((start + steps) % count) = cell j
            ↔ (start + steps) % count = j :=
              ⟨ring.distinct _ small _ hj, fun same => congrArg cell same⟩
          _ ↔ count ∣ start + steps + (count - j) := mod_eq_iff_dvd hj _
          _ ↔ count ∣ start + (count - 1 - j) + (steps + 1) := by
              rw [show start + steps + (count - j) = start + (count - 1 - j) + (steps + 1) by omega]
          _ ↔ count ∣ (start + (count - 1 - j)) % count + steps + 1 := by
              rw [Nat.dvd_iff_mod_eq_zero, Nat.dvd_iff_mod_eq_zero, Nat.add_assoc _ steps 1, Nat.mod_add_mod]
      rw [List.range'_concat, Nat.one_mul, List.map_append, List.count_append, ih, ← Nat.add_assoc,
        Nat.succ_div, List.map_singleton, List.count_singleton]
      simp only [beq_iff_eq, reached]

/-- Every cell is read once for every whole lap, and at most once more. -/
theorem visits_bounds (ring : Ring next count cell) {j : Nat} (hj : j < count) (start steps : Nat) :
    steps / count ≤ (walk count cell start steps).1.count (cell j) ∧
      (walk count cell start steps).1.count (cell j) ≤ steps / count + 1 := by
  have early : (start + (count - 1 - j)) % count < count := Nat.mod_lt _ ring.pos
  rw [ring.visits hj]
  constructor
  · exact Nat.div_le_div_right (Nat.le_add_left _ _)
  · calc ((start + (count - 1 - j)) % count + steps) / count
        ≤ (steps + count) / count := Nat.div_le_div_right (by omega)
      _ = steps / count + 1 := Nat.add_div_right _ ring.pos

end Ring

/-! ### Several pointers -/

/-- Calls for each element of a list that all return. -/
theorem mapM_ok {β : Type} {call : α → CResult β} {value : α → β} {values : List α}
    (returned : ∀ a ∈ values, call a = .ok (value a)) : values.mapM call = .ok (values.map value) := by
  induction values with
  | nil => rfl
  | cons a values ih =>
      have later := ih fun b member => returned b (List.mem_cons_of_mem _ member)
      rw [List.mapM_cons]
      exact bind_eq_ok.mpr ⟨_, returned a List.mem_cons_self, bind_eq_ok.mpr ⟨_, later, rfl⟩⟩

/-- Each call returns when all of them do. -/
theorem exists_of_mapM_ok {β : Type} {call : α → CResult β} {values : List α} {results : List β}
    (returned : values.mapM call = .ok results) : ∀ a ∈ values, ∃ b, call a = .ok b := by
  induction values generalizing results with
  | nil => exact fun a member => by cases member
  | cons a values ih =>
      rw [List.mapM_cons] at returned
      obtain ⟨b, here, returned⟩ := bind_eq_ok.mp returned
      obtain ⟨later, rest, -⟩ := bind_eq_ok.mp returned
      intro a' member
      rcases List.mem_cons.mp member with rfl | member
      · exact ⟨b, here⟩
      · exact ih rest a' member

/-- Pointers that are moved all at once, in turn, keep their distances: together they walk around a ring. -/
theorem Ring.parallel {count : Nat} {cell : Nat → α} (ring : Ring next count cell) {turns : List Nat}
    (several : turns ≠ []) :
    Ring (fun ps : List α => ps.mapM next) count fun s => turns.map fun t => cell ((t + s) % count) := by
  refine ⟨ring.pos, fun s inside s' inside' same => ?_, fun s inside => ?_⟩
  · obtain ⟨t, rest, rfl⟩ := List.exists_cons_of_ne_nil several
    have first := (List.cons.inj same).1
    have places := ring.distinct _ (Nat.mod_lt _ ring.pos) _ (Nat.mod_lt _ ring.pos) first
    have steps : s % count = s' % count := Nat.ModEq.add_left_cancel' t places
    rwa [Nat.mod_eq_of_lt inside, Nat.mod_eq_of_lt inside'] at steps
  · rw [List.mapM_map]
    apply mapM_ok
    intro t _
    rw [Nat.add_mod_mod, ← Nat.add_assoc, ← Nat.mod_add_mod]
    exact ring.next_eq ((t + s) % count) (Nat.mod_lt _ ring.pos)

/-- Pointers that start at different cells are never at the same one. -/
theorem Ring.nodup_parallel {count : Nat} {cell : Nat → α} (ring : Ring next count cell) {turns : List Nat}
    (small : ∀ t ∈ turns, t < count) (distinct : turns.Nodup) (s : Nat) :
    (turns.map fun t => cell ((t + s) % count)).Nodup := by
  apply List.Nodup.map_on _ distinct
  intro t member t' member' same
  have places := ring.distinct _ (Nat.mod_lt _ ring.pos) _ (Nat.mod_lt _ ring.pos) same
  have turns : t % count = t' % count := Nat.ModEq.add_right_cancel' s places
  rwa [Nat.mod_eq_of_lt (small t member), Nat.mod_eq_of_lt (small t' member')] at turns

/-- Stores that leave at each cell the address of the next one leave a ring. -/
theorem exists_ring_of_lastStore {m : Memory} {stores : List (Nat × Nat)} {count : Nat} {cell : Nat → Nat}
    (inside : ∀ s ∈ stores, m.Inside s.1 8) (small : ∀ s ∈ stores, s.2 < 2 ^ 64)
    (apart : ∀ s ∈ stores, ∀ t ∈ stores, s.1 = t.1 ∨ Apart 8 s.1 t.1) (pos : 0 < count)
    (distinct : ∀ i < count, ∀ j < count, cell i = cell j → i = j)
    (last : ∀ i < count, lastStore stores (cell i) = some (cell ((i + 1) % count))) :
    ∃ m', m.storeAll stores = .ok m' ∧ m'.base = m.base ∧ m'.size = m.size ∧
      Ring m'.loadPointer count cell := by
  obtain ⟨m', ran, base, size, loads⟩ := Memory.storeAll_spec inside small apart
  exact ⟨m', ran, base, size, pos, distinct, fun i hi => loads _ _ (last i hi)⟩

/-- The stores that link cells in order: each one gets the address of the next, the last one that of the
first. -/
def ringStores (count : Nat) (cell : Nat → Nat) : List (Nat × Nat) :=
  (List.range count).map fun k => (cell k, cell ((k + 1) % count))

theorem mem_ringStores {count : Nat} {cell : Nat → Nat} {store : Nat × Nat} :
    store ∈ ringStores count cell ↔ ∃ k < count, (cell k, cell ((k + 1) % count)) = store := by
  simp [ringStores]

/-- A loop over all but the last cell, and the store that closes the ring. -/
theorem ringStores_eq {count : Nat} (pos : 0 < count) (cell : Nat → Nat) :
    ringStores count cell =
      ((List.range (count - 1)).map fun k => (cell k, cell (k + 1))) ++ [(cell (count - 1), cell 0)] := by
  obtain ⟨rest, rfl⟩ : ∃ rest, count = rest + 1 := ⟨count - 1, by omega⟩
  rw [ringStores, List.range_succ, List.map_append, Nat.add_sub_cancel]
  congr 1
  · apply List.map_congr_left
    intro k member
    rw [Nat.mod_eq_of_lt (Nat.succ_lt_succ (List.mem_range.mp member))]
  · rw [List.map_singleton, Nat.mod_self]

end Numafac
