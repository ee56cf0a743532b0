/-
Module: Numafac.Script.BufferSize
Layer: Script
Purpose: The two arguments that `calc_numafactor.sh` and `topology.sh` compute for `lat_mem_rd` from the
  cache sizes and the number of nodes. `bufferRight_iff` says for which machines the buffer is larger
  than the last-level cache, at most twice as large as all of them, and its last measured range is out
  of the cache. With two levels of shared size the kilobytes are passed where megabytes are expected,
  so only machines with 512 nodes get a buffer within the bound.
Trusted boundary: the translation of the two lines of shell arithmetic, which stay below `2 ^ 63`; the
  file `size` of a cache holds a number of kilobytes and `K`
Main exports: latMemRdArguments, measuredRanges, BufferRight, bufferRight_iff
-/
import Numafac.Lmbench.RangeLoop

namespace Numafac

open LatMemRd

/-- `LLC_SIZE` and `L2_SIZE` for the index `llc` of the last cache. `cacheSize` is the number in the file
`size` of each index, and `nodes` is `NODE_POSSIBLE_COUNT`. -/
def latMemRdArguments (llc : Nat) (cacheSize : Nat → Nat) (nodes : Nat) : Nat × Nat :=
  let llcSize := cacheSize llc
  if llc = 2 then
    let l2Size := llcSize
    (llcSize, l2Size * nodes)
  else
    let l2Size := cacheSize 2
    let llcSize := llcSize / 1024
    (llcSize * nodes * 2, l2Size)

/-- The ranges of `./lat_mem_rd -P 1 -N 1 $LLC_SIZE $L2_SIZE`. -/
def measuredRanges (llc : Nat) (cacheSize : Nat → Nat) (nodes : Nat) : CResult (List Nat) :=
  let (llcSize, l2Size) := latMemRdArguments llc cacheSize nodes
  latMemRd (natText llcSize) (natText l2Size)

/-- The buffer, in kilobytes, is larger than the last-level cache and at most twice as large as the caches
of all nodes, and the last measured range, in bytes, is larger than the cache. -/
structure BufferRight (llc : Nat) (cacheSize : Nat → Nat) (nodes : Nat) : Prop where
  larger : cacheSize llc < (latMemRdArguments llc cacheSize nodes).1 * 1024
  bounded : (latMemRdArguments llc cacheSize nodes).1 * 1024 ≤ 2 * nodes * cacheSize llc
  outOfCache : ∃ ranges last, measuredRanges llc cacheSize nodes = .ok ranges ∧
    ranges.getLast? = some last ∧ cacheSize llc * 1024 < last

/-! ### The arguments as `lat_mem_rd` reads them -/

/-- A number without a suffix. -/
theorem bytes_natText (n : Nat) : bytes (natText n) = n := by
  have digits : ∀ c ∈ natText n, c.isDigit = true := fun c member => isDigit_of_mem_natText member
  have noSuffix : ∀ c : Char, c.isDigit = false → (natText n).getLast? ≠ some c := by
    intro c other last
    have digit := digits c (List.mem_of_getLast? last)
    rw [other] at digit
    cases digit
  have whole : (natText n).takeWhile Char.isDigit = natText n := List.takeWhile_eq_self_iff.mpr digits
  rw [bytes, whole, digitsValue_natText]
  simp only [noSuffix 'k' rfl, noSuffix 'K' rfl, noSuffix 'm' rfl, noSuffix 'M' rfl, or_self, if_false]

theorem latMemRd_natText {size : Nat} (small : size < 2 ^ 31) (stride : Nat) :
    latMemRd (natText size) (natText stride) =
      .ok (rangeLoop (size * 2 ^ 20) stride lower (by decide)) := by
  have product : ((size : Int) * (1024 * 1024) % 2 ^ 64).toNat = size * 2 ^ 20 := by omega
  rw [latMemRd, atoi_natText small, bytes_natText]
  change Except.ok (rangeLoop ((size : Int) * (1024 * 1024) % 2 ^ 64).toNat stride lower _) = _
  rw [product]

/-- A number that does not fit an `int` is not measured with. -/
theorem small_of_latMemRd_ok {size stride : Nat} {ranges : List Nat}
    (ok : latMemRd (natText size) (natText stride) = .ok ranges) : size < 2 ^ 31 := by
  obtain ⟨len, converted, -⟩ := bind_eq_ok.mp ok
  exact lt_of_atoi_natText_ok converted

/-- A stride of zero measures nothing. -/
theorem rangeLoop_zero (len range : Nat) (pos : 0 < range) : rangeLoop len 0 range pos = [] := by
  fun_induction rangeLoop with
  | case1 range pos more ih =>
      rw [ih]
      rfl
  | case2 range pos done => rfl

/-- A last measurement shows that some range has room for the stride. -/
theorem fits_of_measured {size stride last : Nat} {ranges : List Nat} (nonempty : 1 ≤ size)
    (ok : latMemRd (natText size) (natText stride) = .ok ranges)
    (measured : ranges.getLast? = some last) :
    size < 2 ^ 31 ∧ 1 ≤ stride ∧
      ∃ range, IsRange range ∧ stride ≤ range ∧ range ≤ size * 2 ^ 20 := by
  have small : size < 2 ^ 31 := small_of_latMemRd_ok ok
  rw [latMemRd_natText small stride] at ok
  obtain rfl := Except.ok.inj ok
  have positive : 1 ≤ stride := by
    by_contra zero
    obtain rfl : stride = 0 := by omega
    rw [rangeLoop_zero] at measured
    cases measured
  obtain ⟨range, isRange, low, -, -, shown⟩ :=
    @exists_last (size * 2 ^ 20) stride (by omega) positive
  by_cases room : stride ≤ range
  · exact ⟨small, positive, range, isRange, room, low⟩
  · rw [shown, if_neg room] at measured
    cases measured

/-- When some range has room for the stride, the largest one is the last measurement. -/
theorem measured_of_fits {size stride : Nat} (nonempty : 1 ≤ size) (small : size < 2 ^ 31)
    (positive : 1 ≤ stride)
    (fits : ∃ range, IsRange range ∧ stride ≤ range ∧ range ≤ size * 2 ^ 20) :
    ∃ ranges last, latMemRd (natText size) (natText stride) = .ok ranges ∧
      ranges.getLast? = some last ∧ 2 * (size * 2 ^ 20) < 3 * last ∧
      ∀ range, IsRange range → range ≤ size * 2 ^ 20 → range ≤ last := by
  obtain ⟨range, isRange, room, inside⟩ := fits
  obtain ⟨last, -, -, covers, largest, shown⟩ :=
    @exists_last (size * 2 ^ 20) stride (by omega) positive
  have measured : stride ≤ last := room.trans (largest range isRange inside)
  rw [if_pos measured] at shown
  exact ⟨_, last, latMemRd_natText small stride, shown, covers, largest⟩

/-! ### The exact condition -/

/-- With the last-level cache at index 2 the size in kilobytes is taken for megabytes: the buffer is 1024
times the cache, so it stays within twice the caches of all nodes from 512 nodes on. -/
theorem bufferRight_two_iff {cacheSize : Nat → Nat} {nodes : Nat} (cache : 1 ≤ cacheSize 2)
    (node : 1 ≤ nodes) :
    BufferRight 2 cacheSize nodes ↔ 512 ≤ nodes ∧ cacheSize 2 < 2 ^ 31 ∧
      ∃ range, IsRange range ∧ cacheSize 2 * nodes ≤ range ∧ range ≤ cacheSize 2 * 2 ^ 20 := by
  constructor
  · rintro ⟨-, bounded, ranges, last, ok, measured, -⟩
    change cacheSize 2 * 1024 ≤ 2 * nodes * cacheSize 2 at bounded
    obtain ⟨small, -, fits⟩ := fits_of_measured cache ok measured
    rw [Nat.mul_comm] at bounded
    have many : 1024 ≤ 2 * nodes := Nat.le_of_mul_le_mul_right bounded cache
    exact ⟨by omega, small, fits⟩
  · rintro ⟨many, small, fits⟩
    have positive : 1 ≤ cacheSize 2 * nodes := Nat.mul_pos cache node
    obtain ⟨ranges, last, ok, measured, covers, -⟩ := measured_of_fits cache small positive fits
    refine ⟨?_, ?_, ranges, last, ok, measured, ?_⟩
    · change cacheSize 2 < cacheSize 2 * 1024
      omega
    · change cacheSize 2 * 1024 ≤ 2 * nodes * cacheSize 2
      rw [Nat.mul_comm]
      exact Nat.mul_le_mul_right _ (by omega)
    · omega

/-- With a third level or more the size is rounded down to whole megabytes, so a cache of less than one
megabyte gets no buffer. Otherwise the buffer is right if some range has room for the stride. -/
theorem bufferRight_other_iff {llc : Nat} {cacheSize : Nat → Nat} {nodes : Nat} (other : llc ≠ 2)
    (cache : 1 ≤ cacheSize llc) (node : 1 ≤ nodes) :
    BufferRight llc cacheSize nodes ↔ 1024 ≤ cacheSize llc ∧ cacheSize llc / 1024 * nodes * 2 < 2 ^ 31 ∧
      1 ≤ cacheSize 2 ∧ ∃ range, IsRange range ∧ cacheSize 2 ≤ range ∧
        range ≤ cacheSize llc / 1024 * nodes * 2 * 2 ^ 20 := by
  have arguments : latMemRdArguments llc cacheSize nodes =
      (cacheSize llc / 1024 * nodes * 2, cacheSize 2) := if_neg other
  have measuredWith : measuredRanges llc cacheSize nodes =
      latMemRd (natText (cacheSize llc / 1024 * nodes * 2)) (natText (cacheSize 2)) := by
    rw [measuredRanges, arguments]
  constructor
  · rintro ⟨larger, -, ranges, last, ok, measured, -⟩
    rw [arguments] at larger
    change cacheSize llc < cacheSize llc / 1024 * nodes * 2 * 1024 at larger
    have megabytes : 1024 ≤ cacheSize llc := by
      by_contra few
      rw [Nat.div_eq_of_lt (Nat.lt_of_not_le few), Nat.zero_mul] at larger
      omega
    rw [measuredWith] at ok
    have fits := fits_of_measured (by omega) ok measured
    exact ⟨megabytes, fits⟩
  · rintro ⟨megabytes, small, positive, fits⟩
    obtain ⟨size, hsize⟩ : ∃ size, size = cacheSize llc / 1024 := ⟨_, rfl⟩
    rw [← hsize] at arguments measuredWith small fits
    have atLeast : size * 1 ≤ size * nodes := Nat.mul_le_mul_left size node
    obtain ⟨ranges, last, ok, measured, covers, largest⟩ :=
      measured_of_fits (by omega) small positive fits
    refine ⟨?_, ?_, ranges, last, measuredWith.trans ok, measured, ?_⟩
    · rw [arguments]
      change cacheSize llc < size * nodes * 2 * 1024
      omega
    · rw [arguments]
      calc size * nodes * 2 * 1024 = 2 * nodes * (size * 1024) := by ring
        _ ≤ 2 * nodes * cacheSize llc := Nat.mul_le_mul_left _ (by omega)
    · -- two thirds of the buffer are enough, except for one node with one or two megabytes
      have one : size * nodes = 1 → 2 ^ 21 ≤ last := fun product =>
        largest (2 ^ 21) ⟨12, Or.inl rfl⟩ (by omega)
      have two : size * nodes = 2 → 2 ^ 22 ≤ last := fun product =>
        largest (2 ^ 22) ⟨13, Or.inl rfl⟩ (by omega)
      omega

/-- The buffer is right exactly when: with the last cache at index 2, there are at least 512 nodes and some
range lies between the stride and the buffer; with a later last cache, it holds at least a megabyte, the
stride is not zero, and some range lies between the stride and the buffer. -/
theorem bufferRight_iff {llc : Nat} {cacheSize : Nat → Nat} {nodes : Nat}
    (cache : 1 ≤ cacheSize llc) (node : 1 ≤ nodes) :
    BufferRight llc cacheSize nodes ↔
      (llc = 2 → 512 ≤ nodes ∧ cacheSize llc < 2 ^ 31 ∧
        ∃ range, IsRange range ∧ cacheSize llc * nodes ≤ range ∧ range ≤ cacheSize llc * 2 ^ 20) ∧
      (llc ≠ 2 → 1024 ≤ cacheSize llc ∧ cacheSize llc / 1024 * nodes * 2 < 2 ^ 31 ∧
        1 ≤ cacheSize 2 ∧ ∃ range, IsRange range ∧ cacheSize 2 ≤ range ∧
          range ≤ cacheSize llc / 1024 * nodes * 2 * 2 ^ 20) := by
  by_cases two : llc = 2
  · subst two
    simp only [bufferRight_two_iff cache node, forall_const, ne_eq, not_true_eq_false,
      false_implies, and_true]
  · simp only [bufferRight_other_iff two cache node, two, false_implies, true_and, ne_eq,
      not_false_eq_true, forall_const]

/-- Eight megabytes at index 3 and two nodes: a buffer of 32 megabytes, and strides of 256. -/
theorem bufferRight_iff_thirdLevel :
    BufferRight 3 (fun index => if index = 3 then 8192 else 256) 2 :=
  (bufferRight_iff (by decide) (by decide)).mpr
    ⟨fun two => absurd two (by decide), fun _ => ⟨by decide, by decide, by decide, 2 ^ 25,
      ⟨16, Or.inl rfl⟩, by decide, by decide⟩⟩

/-- Eight megabytes at index 2 and two nodes: the buffer has 8192 megabytes. -/
theorem not_bufferRight_secondLevel : ¬ BufferRight 2 (fun _ => 8192) 2 := by
  rintro ⟨-, bounded, -⟩
  exact absurd bounded (by decide)

end Numafac
