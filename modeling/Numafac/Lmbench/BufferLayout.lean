/-
Module: Numafac.Lmbench.BufferLayout
Layer: Lmbench
Purpose: The buffer that `lat_mem_rd` and `compute-latencies` load from: `base_initialize` allocates it,
  aligns its base to a page, and lays out the order of its pages with `permutation`. Whatever `rand`
  returns, the order holds every page once (`permutation_perm`), and the aligned buffer with one more page
  lies in the allocated block (`baseInitialize_spec`).
  The number of bytes goes through a variable of type `int`, so from two gigabytes on the number of pages is
  not that of the range (`pageCount`, `Laid.npages_eq`).
Trusted boundary: `malloc` as documented; sizes and page offsets that do not leave `size_t`, and a size of
  the stride in words that does not leave `int`; `getpagesize` and the stride are not zero (`loads` divides
  by the stride)
Main exports: Draws, shuffle, permutation, permutation_perm, Heap, MemState, pageCount, baseInitialize, Laid,
  Laid.npages_eq, baseInitialize_spec
-/
import Numafac.Base.Memory

namespace Numafac.LibMem

/-! ### The order of the pages -/

/-- What `permutation` draws from: its static variable `r`, and the results of `rand`. -/
structure Draws where
  r : Nat
  rand : Nat → Nat

/-- `for (; i > 0; --i)`: the element at `i` changes places with a drawn one. -/
def shuffle (rand : Nat → Nat) : Nat → Nat → Nat → CArray Nat → CResult (CArray Nat)
  | 0, _, _, result => .ok result
  | i + 1, r, draw, result => do
      let r := (r <<< 1 ^^^ rand draw) % 2 ^ 64
      let v ← result.read (r % (i + 2))
      let w ← result.read (i + 1)
      let result ← result.write (r % (i + 2)) w
      let result ← result.write (i + 1) v
      shuffle rand i r (draw + 1) result

/-- `permutation`. For `max` zero the index `max - 1` is the largest `size_t`. -/
def permutation (draws : Draws) (max scale : Nat) : CResult (CArray Nat) :=
  if max = 0 then .error .outOfBounds
  else do
    let result ← fillArray max fun i => .ok (i * scale)
    shuffle draws.rand (max - 1) draws.r 0 result

/-- The passes exchange two elements each. -/
theorem shuffle_perm (rand : Nat → Nat) {i : Nat} (r draw : Nat) {values : List Nat}
    (inside : i < values.length) :
    ∃ values', shuffle rand i r draw (CArray.filled values) = .ok (CArray.filled values') ∧
      values'.Perm values := by
  induction i generalizing r draw values with
  | zero => exact ⟨values, rfl, List.Perm.refl values⟩
  | succ i ih =>
      let r' := (r <<< 1 ^^^ rand draw) % 2 ^ 64
      have drawn : r' % (i + 2) < values.length := (Nat.mod_lt r' (by omega)).trans_le inside
      let values₁ := values.set (r' % (i + 2)) values[i + 1]
      let values₂ := values₁.set (i + 1) values[r' % (i + 2)]
      have length₁ : values₁.length = values.length := List.length_set
      have length₂ : values₂.length = values.length := List.length_set.trans length₁
      obtain ⟨values', ran, perm⟩ := @ih r' (draw + 1) values₂ (by omega)
      refine ⟨values', ?_, perm.trans (List.set_set_perm drawn inside)⟩
      have written : (CArray.filled values).write (r' % (i + 2)) values[i + 1] =
          .ok (CArray.filled values₁) := CArray.write_filled drawn _
      have written' : (CArray.filled values₁).write (i + 1) values[r' % (i + 2)] =
          .ok (CArray.filled values₂) := CArray.write_filled (by omega) _
      exact bind_eq_ok.mpr ⟨_, CArray.read_filled drawn, bind_eq_ok.mpr ⟨_, CArray.read_filled inside,
        bind_eq_ok.mpr ⟨_, written, bind_eq_ok.mpr ⟨_, written', ran⟩⟩⟩⟩

/-- The offsets of the first pages of a buffer, in order. -/
def offsets (count scale : Nat) : List Nat :=
  (List.range count).map (· * scale)

theorem fillArray_offsets (count scale : Nat) :
    fillArray count (fun i => .ok (i * scale)) = .ok (CArray.filled (offsets count scale)) :=
  fillArray_map count (· * scale)

/-- Every page once, in some order. -/
theorem permutation_perm (draws : Draws) {max : Nat} (scale : Nat) (pos : 0 < max) :
    ∃ pages, permutation draws max scale = .ok (CArray.filled pages) ∧
      pages.Perm (offsets max scale) := by
  have inside : max - 1 < (offsets max scale).length := by
    simp [offsets]
    omega
  obtain ⟨pages, ran, perm⟩ := shuffle_perm draws.rand draws.r 0 inside
  refine ⟨pages, ?_, perm⟩
  rw [permutation, if_neg (Nat.ne_of_gt pos)]
  exact bind_eq_ok.mpr ⟨_, fillArray_offsets max scale, ran⟩

/-! ### The buffer -/

/-- What the calls of `malloc` answer: an address for a size, or the null pointer, and whether there is room
for the arrays of pages and words. A block ends below the last address. -/
structure Heap where
  buffer : Nat → Option Nat
  pageArray : Bool
  wordArray : Bool
  inRange : ∀ {size addr : Nat}, buffer size = some addr → addr + size < 2 ^ 64

/-- A heap that answers every reasonable size with one address. -/
def wideHeap : Heap where
  buffer size := if size < 2 ^ 40 then some 4104 else none
  pageArray := true
  wordArray := true
  inRange := by
    intro size addr found
    split at found
    · obtain rfl := Option.some.inj found
      omega
    · cases found

/-- `struct mem_state`, as far as the two programs use it; `block` is what `addr` points to. `getpagesize`
returns an `int`, and `permutation` takes the number of pages of the buffer as one. -/
structure MemState where
  len : Nat
  maxlen : Nat
  line : Nat
  pagesize : Nat
  initialized : Bool
  nwords : Nat
  nlines : Nat
  npages : Nat
  pages : Option (CArray Nat)
  words : Option (CArray Nat)
  block : Memory
  base : Nat
  p : Option Nat
  line_pos : 0 < line
  pagesize_pos : 0 < pagesize
  pagesize_int : pagesize < 2 ^ 31
  nmpages_int : (maxlen + pagesize - 1) / pagesize < 2 ^ 31

/-- `p` rounded up to a multiple of the page size. -/
def pageAligned (p pagesize : Nat) : Nat :=
  if p % pagesize ≠ 0 then p + (pagesize - p % pagesize) else p

/-- `permutation(nmpages, state->pagesize)`, or the null pointer. -/
def orderPages (heap : Heap) (draws : Draws) (s : MemState) : CResult (Option (CArray Nat)) :=
  if heap.pageArray then
    some <$> permutation draws ((s.maxlen + s.pagesize - 1) / s.pagesize) s.pagesize
  else .ok none

/-- `npages` of `base_initialize`, which goes through `nbytes` and `npages` of type `int`, with a sum of type
`size_t` between them. -/
def pageCount (len pagesize : Nat) : Nat :=
  let nbytes := (len : Int).bmod (2 ^ 32)
  let npages := ((nbytes + pagesize - 1) % 2 ^ 64 / pagesize).bmod (2 ^ 32)
  (npages % 2 ^ 64).toNat

/-- A number of pages that is an `int` comes back from it. -/
theorem stored_pages {pages : Nat} (few : pages < 2 ^ 31) :
    (((pages : Int).bmod (2 ^ 32)) % 2 ^ 64).toNat = pages := by
  rw [Int.bmod_eq_of_le_mul_two (by omega) (by omega)]
  omega

/-- Below two gigabytes it is the number of pages that hold the range. -/
theorem pageCount_eq {len pagesize : Nat} (short : len < 2 ^ 31) (pos : 0 < pagesize)
    (page : pagesize < 2 ^ 31) : pageCount len pagesize = (len + pagesize - 1) / pagesize := by
  have bytes : (len : Int).bmod (2 ^ 32) = len := Int.bmod_eq_of_le_mul_two (by omega) (by omega)
  have sum : ((len : Int) + pagesize - 1) % 2 ^ 64 = (len + pagesize - 1 : Nat) := by omega
  have few : (len + pagesize - 1) / pagesize < 2 ^ 31 := by
    rw [Nat.div_lt_iff_lt_mul pos]
    have grows : 2 ^ 31 - 1 ≤ (2 ^ 31 - 1) * pagesize := Nat.le_mul_of_pos_right _ pos
    omega
  have value : pageCount len pagesize = ((((len : Int).bmod (2 ^ 32) + pagesize - 1) % 2 ^ 64 / pagesize).bmod
      (2 ^ 32) % 2 ^ 64).toNat := rfl
  rw [value, bytes, sum, ← Int.natCast_ediv, stored_pages few]

/-- The counts and the order of the pages, before the buffer is known to be there. -/
def counted (s : MemState) (pages : Option (CArray Nat)) : MemState :=
  { s with
    initialized := false
    nwords := s.line / 8
    nlines := s.pagesize / s.line
    npages := pageCount s.len s.pagesize
    pages
    words := none }

/-- The rest of `base_initialize`: without the buffer or the pages the state stays uninitialised. -/
def allocate (heap : Heap) (s : MemState) (pages : Option (CArray Nat)) : MemState :=
  match heap.buffer (s.maxlen + 2 * s.pagesize), pages with
  | some addr, some _ =>
      { counted s pages with
        block := { base := addr, size := s.maxlen + 2 * s.pagesize, bytes := fun _ => none }
        base := pageAligned addr s.pagesize
        initialized := true }
  | _, _ => counted s pages

/-- `base_initialize`. -/
def baseInitialize (heap : Heap) (draws : Draws) (iterations : Nat) (s : MemState) : CResult MemState :=
  if iterations ≠ 0 then .ok s
  else do
    let pages ← orderPages heap draws s
    pure (allocate heap s pages)

theorem pageAligned_spec {p pagesize : Nat} (pos : 0 < pagesize) :
    p ≤ pageAligned p pagesize ∧ pageAligned p pagesize < p + pagesize ∧
      pageAligned p pagesize % pagesize = 0 := by
  have small := Nat.mod_lt p pos
  unfold pageAligned
  split
  · rename_i unaligned
    have split := Nat.div_add_mod p pagesize
    have next : p + (pagesize - p % pagesize) = pagesize * (p / pagesize + 1) := by
      rw [Nat.mul_add_one]
      omega
    refine ⟨Nat.le_add_right _ _, by omega, ?_⟩
    rw [next, Nat.mul_mod_right]
  · rename_i aligned
    exact ⟨Nat.le_refl _, by omega, not_not.mp aligned⟩

/-- The buffer that `base_initialize` leaves: `maxlen` bytes and a page more, from an aligned base on, lie in
the block, and the pages of the buffer are ordered in some way. -/
structure Laid (s : MemState) : Prop where
  initialized : s.initialized = true
  aligned : s.base % s.pagesize = 0
  low : s.block.base ≤ s.base
  high : s.base + s.maxlen + s.pagesize ≤ s.block.base + s.block.size
  inRange : s.block.base + s.block.size < 2 ^ 64
  npages : s.npages = pageCount s.len s.pagesize
  ordered : ∃ pages, s.pages = some (CArray.filled pages) ∧
    pages.Perm (offsets ((s.maxlen + s.pagesize - 1) / s.pagesize) s.pagesize)

theorem Laid.npages_eq {s : MemState} (laid : Laid s) (short : s.len < 2 ^ 31) :
    s.npages = (s.len + s.pagesize - 1) / s.pagesize :=
  laid.npages.trans (pageCount_eq short s.pagesize_pos s.pagesize_int)

/-- The parameters of a measurement, which `base_initialize` leaves alone. -/
def SameParameters (s s' : MemState) : Prop :=
  s'.len = s.len ∧ s'.maxlen = s.maxlen ∧ s'.line = s.line ∧ s'.pagesize = s.pagesize

theorem SameParameters.trans {s s' s'' : MemState} (first : SameParameters s s')
    (second : SameParameters s' s'') : SameParameters s s'' := by
  obtain ⟨len, maxlen, line, pagesize⟩ := first
  obtain ⟨len', maxlen', line', pagesize'⟩ := second
  exact ⟨len'.trans len, maxlen'.trans maxlen, line'.trans line, pagesize'.trans pagesize⟩

/-- Pointers at offsets below the end of the buffer lie in the block, and so do their addresses in 64 bits. -/
theorem Laid.inside {s : MemState} (laid : Laid s) {offset : Nat} (below : offset + 8 ≤ s.maxlen + s.pagesize) :
    s.block.Inside (s.base + offset) 8 ∧ s.base + offset < 2 ^ 64 := by
  have low := laid.low
  have high := laid.high
  have inRange := laid.inRange
  exact ⟨⟨by omega, by omega⟩, by omega⟩

/-- The layout does not depend on what the block holds. -/
theorem Laid.setBlock {s : MemState} (laid : Laid s) {block : Memory} (base : block.base = s.block.base)
    (size : block.size = s.block.size) : Laid { s with block } := by
  obtain ⟨initialized, aligned, low, high, inRange, npages, ordered⟩ := laid
  exact ⟨initialized, aligned, base ▸ low, by rw [base, size]; exact high, by rw [base, size]; exact inRange,
    npages, ordered⟩

/-- Nor on the order of the words. -/
theorem Laid.setWords {s : MemState} (laid : Laid s) (nwords : Nat) (words : Option (CArray Nat)) :
    Laid { s with nwords, words } := by
  obtain ⟨initialized, aligned, low, high, inRange, npages, ordered⟩ := laid
  exact ⟨initialized, aligned, low, high, inRange, npages, ordered⟩

/-- Nor on where `p[0]` points to. -/
theorem Laid.setPointer {s : MemState} (laid : Laid s) (p : Option Nat) : Laid { s with p } := by
  obtain ⟨initialized, aligned, low, high, inRange, npages, ordered⟩ := laid
  exact ⟨initialized, aligned, low, high, inRange, npages, ordered⟩

/-- There is room for the buffer and for the array of its pages. -/
def Heap.hasRoom (heap : Heap) (s : MemState) : Bool :=
  heap.pageArray && (heap.buffer (s.maxlen + 2 * s.pagesize)).isSome

theorem orderPages_ok (heap : Heap) (draws : Draws) {s : MemState} (nonempty : 0 < s.maxlen) :
    ∃ pages, orderPages heap draws s = .ok pages ∧ pages.isSome = heap.pageArray ∧ ∀ a, pages = some a →
      ∃ order, a = CArray.filled order ∧
        order.Perm (offsets ((s.maxlen + s.pagesize - 1) / s.pagesize) s.pagesize) := by
  have count : 0 < (s.maxlen + s.pagesize - 1) / s.pagesize :=
    Nat.div_pos (by omega) s.pagesize_pos
  obtain ⟨order, ran, perm⟩ := permutation_perm draws s.pagesize count
  unfold orderPages
  split
  · rename_i room
    refine ⟨some (CArray.filled order), ?_, room.symm, ?_⟩
    · rw [ran]
      rfl
    · rintro a ⟨⟩
      exact ⟨order, rfl, perm⟩
  · rename_i noRoom
    exact ⟨none, rfl, (Bool.eq_false_of_not_eq_true noRoom).symm, fun a some => by cases some⟩

/-- Where there is room the buffer is laid out, and otherwise the state is not initialised. -/
theorem baseInitialize_spec (heap : Heap) (draws : Draws) {s : MemState} (nonempty : 0 < s.maxlen) :
    ∃ s', baseInitialize heap draws 0 s = .ok s' ∧ SameParameters s s' ∧
      s'.initialized = heap.hasRoom s ∧ (heap.hasRoom s = true → Laid s') := by
  obtain ⟨pages, ran, array, ordered⟩ := orderPages_ok heap draws nonempty
  refine ⟨allocate heap s pages, bind_eq_ok.mpr ⟨pages, ran, rfl⟩, ?_⟩
  cases found : heap.buffer (s.maxlen + 2 * s.pagesize) with
  | none =>
      have absent : heap.hasRoom s = false := by simp [Heap.hasRoom, found]
      unfold allocate
      rw [absent, found]
      exact ⟨⟨rfl, rfl, rfl, rfl⟩, rfl, fun room => by cases room⟩
  | some addr =>
      have same : heap.hasRoom s = pages.isSome := by simp [Heap.hasRoom, found, array]
      unfold allocate
      rw [same, found]
      rcases pages with _ | a
      · exact ⟨⟨rfl, rfl, rfl, rfl⟩, rfl, fun room => by cases room⟩
      · obtain ⟨order, rfl, perm⟩ := ordered a rfl
        obtain ⟨low, high, aligned⟩ := pageAligned_spec (p := addr) s.pagesize_pos
        have room : pageAligned addr s.pagesize + s.maxlen + s.pagesize ≤
            addr + (s.maxlen + 2 * s.pagesize) := by omega
        refine ⟨⟨rfl, rfl, rfl, rfl⟩, rfl, fun _ =>
          ⟨rfl, aligned, low, room, heap.inRange found, ?_, order, rfl, perm⟩⟩
        simp only [counted]

end Numafac.LibMem
