/-
Module: Numafac.Lmbench.StrideChain
Layer: Lmbench
Purpose: What `lat_mem_rd` and `compute-latencies` time. `stride_initialize` leaves one ring of pointers
  through the buffer, a cell for every stride, inside the allocated block (`strideInitialize_chain`), and a
  measurement loads every cell of it evenly (`measure_loads`).
Trusted boundary: the translation of `stride_initialize`
Main exports: strideLoop, strideInitialize, chainLength, strideCell, linkStrides, strideInitialize_chain,
  measure_loads
-/
import Numafac.Lmbench.LoadWalk

namespace Numafac.LibMem

/-- `for (i = stride; i < range; i += stride) *(char **)&addr[i - stride] = &addr[i];`, and `i` after it. -/
def strideLoop (addr stride range : Nat) (pos : 0 < stride) (block : Memory) (i : Nat) :
    CResult (Memory × Nat) :=
  if i < range then do
    let block ← block.storePointer (addr + (i - stride)) (addr + i)
    strideLoop addr stride range pos block (i + stride)
  else .ok (block, i)
termination_by range - i

/-- `stride_initialize`. -/
def strideInitialize (heap : Heap) (draws : Draws) (iterations : Nat) (s : MemState) : CResult MemState := do
  let s ← baseInitialize heap draws iterations s
  if s.initialized then
    let addr := s.base
    let (block, i) ← strideLoop addr s.line s.len s.line_pos s.block s.line
    let block ← block.storePointer (addr + (i - s.line)) addr
    pure { s with block, p := some addr }
  else pure s

/-! ### The ring -/

/-- The number of strides that begin below the range. -/
def chainLength (range stride : Nat) : Nat :=
  (range + stride - 1) / stride

theorem lt_chainLength {range stride : Nat} (pos : 0 < stride) (k : Nat) :
    k < chainLength range stride ↔ k * stride < range := by
  rw [chainLength, Nat.lt_iff_add_one_le, Nat.le_div_iff_mul_le pos, Nat.add_one_mul]
  omega

theorem chainLength_pos {range stride : Nat} (pos : 0 < stride) (nonempty : 0 < range) :
    0 < chainLength range stride := by
  rw [lt_chainLength pos, Nat.zero_mul]
  exact nonempty

/-- The address of a stride. -/
def strideCell (base stride k : Nat) : Nat :=
  base + k * stride

section Loop

variable {addr stride range : Nat} (pos : 0 < stride)

/-- The stores of the loop from the cell `k` on. -/
theorem strideLoop_eq {k : Nat} (block : Memory) (inside : k < chainLength range stride) :
    strideLoop addr stride range pos block ((k + 1) * stride) =
      block.storeAll ((List.range' k (chainLength range stride - 1 - k)).map fun k =>
        (strideCell addr stride k, strideCell addr stride (k + 1))) >>= fun block =>
          .ok (block, chainLength range stride * stride) := by
  induction hrest : chainLength range stride - 1 - k generalizing k block with
  | zero =>
      have last : k + 1 = chainLength range stride := by omega
      have done : ¬ (k + 1) * stride < range := by
        rw [← lt_chainLength pos]
        omega
      rw [strideLoop, if_neg done, last]
      rfl
  | succ rest ih =>
      have more : (k + 1) * stride < range := by
        rw [← lt_chainLength pos]
        omega
      have here : (k + 1) * stride - stride = k * stride := by
        rw [Nat.add_one_mul, Nat.add_sub_cancel]
      have next : (k + 1) * stride + stride = (k + 1 + 1) * stride := by
        rw [Nat.add_one_mul (k + 1)]
      rw [strideLoop, if_pos more, here, next, List.range'_succ, List.map_cons, Memory.storeAll,
        List.foldlM_cons, bind_assoc]
      exact congrArg (block.storePointer _ _ >>= ·) (funext fun block => ih block (by omega) (by omega))

end Loop

theorem strideCell_zero (base stride : Nat) : strideCell base stride 0 = base := by
  rw [strideCell, Nat.zero_mul, Nat.add_zero]

theorem strideCell_injective {base stride i j : Nat} (pos : 0 < stride)
    (same : strideCell base stride i = strideCell base stride j) : i = j :=
  Nat.eq_of_mul_eq_mul_right pos (Nat.add_left_cancel same)

/-- The buffer holds the ring of its strides. -/
def StrideChain (s : MemState) : Prop :=
  Chained s (chainLength s.len s.line) (strideCell s.base s.line)

/-- In a buffer that is laid out the stores succeed and leave the ring. -/
theorem strides_ring {s : MemState} (fits : StrideFits s) (laid : Laid s) :
    ∃ block, s.block.storeAll (ringStores (chainLength s.len s.line) (strideCell s.base s.line)) = .ok block ∧
      block.base = s.block.base ∧ block.size = s.block.size ∧
      Ring block.loadPointer (chainLength s.len s.line) (strideCell s.base s.line) := by
  have count := chainLength_pos s.line_pos fits.nonempty
  have within : ∀ k < chainLength s.len s.line,
      s.block.Inside (strideCell s.base s.line k) 8 ∧ strideCell s.base s.line k < 2 ^ 64 := by
    intro k inside
    have below := (lt_chainLength s.line_pos k).mp inside
    have page := fits.page
    have room := fits.room
    exact laid.inside (by omega)
  apply exists_ring_of_lastStore
  · intro store member
    obtain ⟨k, inside, rfl⟩ := mem_ringStores.mp member
    exact (within k inside).1
  · intro store member
    obtain ⟨k, -, rfl⟩ := mem_ringStores.mp member
    exact (within _ (Nat.mod_lt _ count)).2
  · intro store member store' member'
    obtain ⟨i, -, rfl⟩ := mem_ringStores.mp member
    obtain ⟨j, -, rfl⟩ := mem_ringStores.mp member'
    exact eq_or_apart_of_stride fits.pointer i j
  · exact count
  · exact fun i _ j _ same => strideCell_injective s.line_pos same
  · intro k inside
    -- each stride is stored to once
    apply lastStore_map_range inside
    intro j later _ same
    exact absurd (strideCell_injective s.line_pos same) (Nat.ne_of_gt later)

/-- The second part of `stride_initialize`, on a buffer that is laid out. -/
theorem linkStrides {s : MemState} (fits : StrideFits s) (laid : Laid s) :
    ∃ block, (do
      let (block, i) ← strideLoop s.base s.line s.len s.line_pos s.block s.line
      block.storePointer (s.base + (i - s.line)) s.base) = .ok block ∧
        StrideChain { s with block, p := some s.base } := by
  have count := chainLength_pos s.line_pos fits.nonempty
  obtain ⟨block, ran, base, size, ring⟩ := strides_ring fits laid
  refine ⟨block, ?_, ⟨(laid.setBlock base size).setPointer _, ?_, ring⟩⟩
  · have loop := @strideLoop_eq s.base s.line s.len s.line_pos 0 s.block count
    have last : chainLength s.len s.line * s.line - s.line = (chainLength s.len s.line - 1) * s.line :=
      (Nat.sub_one_mul _ _).symm
    rw [Nat.zero_add, Nat.one_mul, Nat.sub_zero, ← List.range_eq_range'] at loop
    rw [ringStores_eq count, storeAll_append, strideCell_zero] at ran
    obtain ⟨block', linked, closed⟩ := bind_eq_ok.mp ran
    obtain ⟨block'', stored, done⟩ := bind_eq_ok.mp closed
    obtain rfl := Except.ok.inj done
    rw [loop, linked]
    refine bind_eq_ok.mpr ⟨(block', _), rfl, ?_⟩
    change block'.storePointer (s.base + (chainLength s.len s.line * s.line - s.line)) s.base = _
    rw [last]
    exact stored
  · rw [strideCell_zero]

/-- The first call: without room nothing is initialised, with room the ring is linked. -/
theorem exists_strideChain (heap : Heap) (draws : Draws) {s : MemState} (fits : StrideFits s) :
    ∃ s', strideInitialize heap draws 0 s = .ok s' ∧ SameParameters s s' ∧
      s'.initialized = heap.hasRoom s ∧ (heap.hasRoom s = true → StrideChain s') := by
  obtain ⟨s₁, ran, same, initialized, laidOut⟩ :=
    baseInitialize_spec heap draws (s := s) (fits.nonempty.trans_le fits.room)
  cases room : heap.hasRoom s with
  | false =>
      rw [room] at initialized
      refine ⟨s₁, bind_eq_ok.mpr ⟨s₁, ran, ?_⟩, same, initialized, fun contra => by cases contra⟩
      rw [initialized]
      rfl
  | true =>
      rw [room] at initialized
      obtain ⟨block, linked, chain⟩ := linkStrides (fits.congr same) (laidOut room)
      refine ⟨{ s₁ with block, p := some s₁.base }, bind_eq_ok.mpr ⟨s₁, ran, ?_⟩, same, initialized,
        fun _ => chain⟩
      obtain ⟨⟨block', i⟩, looped, stored⟩ := bind_eq_ok.mp linked
      rw [if_pos initialized]
      exact bind_eq_ok.mpr ⟨(block', i), looped, bind_eq_ok.mpr ⟨block, stored, rfl⟩⟩

/-- Before an interval the ring is built again in the same buffer. -/
theorem Laid.strideInitialize {s : MemState} (fits : StrideFits s) (laid : Laid s) (heap : Heap)
    (draws : Draws) {iterations : Nat} (pos : 0 < iterations) :
    ∃ s', strideInitialize heap draws iterations s = .ok s' ∧ StrideChain s' ∧ SameParameters s s' ∧
      s'.base = s.base := by
  obtain ⟨block, linked, chain⟩ := linkStrides fits laid
  obtain ⟨⟨block', i⟩, looped, stored⟩ := bind_eq_ok.mp linked
  refine ⟨{ s with block, p := some s.base }, ?_, chain, ⟨rfl, rfl, rfl, rfl⟩, rfl⟩
  refine bind_eq_ok.mpr ⟨s, if_pos (Nat.ne_of_gt pos), ?_⟩
  rw [if_pos laid.initialized]
  exact bind_eq_ok.mpr ⟨(block', i), looped, bind_eq_ok.mpr ⟨block, stored, rfl⟩⟩

/-- One iteration loads every cell. -/
theorem chainLength_le_loadCount (s : MemState) : chainLength s.len s.line ≤ loadCount s := by
  have few : chainLength s.len s.line ≤ s.len / s.line + 1 := by
    rw [chainLength, ← Nat.add_div_right _ s.line_pos]
    exact Nat.div_le_div_right (by omega)
  exact few.trans (le_loadCount s)

/-! ### The results -/

/-- `stride_initialize` never leaves the block. Where there is room for it, it leaves one ring of pointers
through the range: every stride has a cell, the cells do not overlap, and the walk from `p[0]` reads them all
in order and returns to the first one. -/
theorem strideInitialize_chain (heap : Heap) (draws : Draws) {s : MemState} (fits : StrideFits s) :
    ∃ s', strideInitialize heap draws 0 s = .ok s' ∧ SameParameters s s' ∧
      s'.initialized = heap.hasRoom s ∧ (heap.hasRoom s = true → s'.p = some s'.base ∧
        chase s'.block.loadPointer (chainLength s.len s.line) s'.base =
          .ok ((List.range (chainLength s.len s.line)).map (strideCell s'.base s.line), s'.base) ∧
        ∀ k < chainLength s.len s.line, s'.block.Inside (strideCell s'.base s.line k) 8) := by
  obtain ⟨s', ran, same, initialized, chained⟩ := exists_strideChain heap draws fits
  obtain ⟨len, maxlen, line, pagesize⟩ := same
  refine ⟨s', ran, ⟨len, maxlen, line, pagesize⟩, initialized, fun room => ?_⟩
  have chain := chained room
  have first := strideCell_zero s'.base s'.line
  have lap := chain.ring.lap
  rw [first, len, line] at lap
  refine ⟨first ▸ chain.start, lap, fun k inside => ?_⟩
  have below := (lt_chainLength s.line_pos k).mp inside
  have low := chain.laid.low
  have high := chain.laid.high
  have room := fits.room
  have page := fits.page
  rw [maxlen, pagesize] at high
  exact ⟨low.trans (Nat.le_add_right _ _), by rw [strideCell]; omega⟩

theorem strideInitialize_chain_threeKilobytes :
    ∃ s', strideInitialize wideHeap ⟨1, id⟩ 0 threeKilobytes = .ok s' ∧
      SameParameters threeKilobytes s' ∧ s'.initialized = wideHeap.hasRoom threeKilobytes ∧
        (wideHeap.hasRoom threeKilobytes = true → s'.p = some s'.base ∧
          chase s'.block.loadPointer (chainLength 3072 256) s'.base =
            .ok ((List.range (chainLength 3072 256)).map (strideCell s'.base 256), s'.base) ∧
          ∀ k < chainLength 3072 256, s'.block.Inside (strideCell s'.base 256 k) 8) :=
  strideInitialize_chain wideHeap ⟨1, id⟩ strideFits_threeKilobytes

/-- A measurement never faults: after the first initialization, for any numbers of iterations, every
interval loads from the ring only, makes the number of loads that its time is divided by, and loads every
cell in each iteration and as often as any other cell but for one time. -/
theorem measure_loads (heap : Heap) (draws : Draws) {s : MemState} (fits : StrideFits s)
    (room : heap.hasRoom s = true) {intervals : List Nat} (pos : ∀ n ∈ intervals, 0 < n) :
    ∃ s' loads final, strideInitialize heap draws 0 s = .ok s' ∧
      measure (strideInitialize heap draws) intervals s' = .ok (loads, final) ∧
        List.Forall₂ (EvenLoads (chainLength s.len s.line) (strideCell s'.base s.line) (loadCount s))
          intervals loads := by
  obtain ⟨s', built, same, -, chained⟩ := exists_strideChain heap draws fits
  let ready (t : MemState) : Prop := Laid t ∧ SameParameters s t ∧ t.base = s'.base
  have links : ∀ t, ready t → ∀ n, 0 < n → ∃ t', strideInitialize heap draws n t = .ok t' ∧
      Chained t' (chainLength s.len s.line) (strideCell s'.base s.line) ∧ loadCount t' = loadCount s ∧
        ∀ p, ready { t' with p } := by
    rintro t ⟨laid, same, base⟩ n pos
    obtain ⟨t', ran, chain, same', base'⟩ := laid.strideInitialize (fits.congr same) heap draws pos
    have now := same.trans same'
    obtain ⟨len, -, line, -⟩ := id now
    rw [StrideChain, len, line, base', base] at chain
    refine ⟨t', ran, chain, by rw [loadCount, loadCount, len, line], fun p => ⟨?_, now, base'.trans base⟩⟩
    exact chain.laid.setPointer p
  obtain ⟨loads, final, ran, even⟩ := measure_of_chained (chainLength_le_loadCount s) links
    ⟨(chained room).laid, same, rfl⟩ pos
  exact ⟨s', loads, final, built, ran, even⟩

theorem measure_loads_threeKilobytes :
    ∃ s' loads final, strideInitialize wideHeap ⟨1, id⟩ 0 threeKilobytes = .ok s' ∧
      measure (strideInitialize wideHeap ⟨1, id⟩) [1, 8, 64] s' = .ok (loads, final) ∧
        List.Forall₂ (EvenLoads (chainLength 3072 256) (strideCell s'.base 256) (loadCount threeKilobytes))
          [1, 8, 64] loads :=
  measure_loads wideHeap ⟨1, id⟩ strideFits_threeKilobytes (by decide) (by decide)

end Numafac.LibMem
