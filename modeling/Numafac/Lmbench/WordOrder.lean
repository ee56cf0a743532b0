/-
Module: Numafac.Lmbench.WordOrder
Layer: Lmbench
Purpose: The order in which `thrash_initialize` uses the words of a page. `words_initialize` reverses the
  bits of the index, with as many bits as the largest power of two that is not larger than the number of
  words has zeros. The words in use are the first ones up to this power of two, so every word has its turn
  exactly when the number of words is a power of two (`wordsInitialize_spec`). The bits are shifted as `int`,
  so there may be at most 31 of them.
Trusted boundary: the translation of `words_initialize`; a scale that is an `int`
Main exports: countShifts, wordsInitialize, wordOrder, wordsInitialize_eq, mem_wordOrder, wordOrder_injOn,
  wordsInitialize_spec
-/
import Numafac.Base.BitReversal
import Numafac.Lmbench.BufferLayout

namespace Numafac.LibMem

/-- `nbits` after `for (; i != 0; i >>= 1, nbits++);`. -/
def countShifts (i nbits : Nat) : Nat :=
  if i ≠ 0 then countShifts (i >>> 1) (nbits + 1) else nbits
termination_by i
decreasing_by
  rw [Nat.shiftRight_eq_div_pow]
  omega

/-- One word: the loop over the bits starts at zero, as `bzero` leaves the word. The largest shift is
`1 << (nbits - 1)`, and the type of `1` is `int`. -/
def reversedWord (nbits scale i : Nat) : CResult Nat :=
  if nbits ≤ 31 then .ok (reverseBits nbits i * scale) else .error .intOverflow

/-- `words_initialize`. -/
def wordsInitialize (heap : Heap) (max scale : Nat) : CResult (Option (CArray Nat)) :=
  if heap.wordArray then do
    let nbits := countShifts (max >>> 1) 0
    let words ← fillArray max (reversedWord nbits scale)
    pure (some words)
  else .ok none

/-- The offsets that `words_initialize` leaves. -/
def wordOrder (max scale : Nat) : List Nat :=
  (List.range max).map fun i => reverseBits max.log2 i * scale

theorem countShifts_eq (i nbits : Nat) :
    countShifts i nbits = if i = 0 then nbits else nbits + i.log2 + 1 := by
  fun_induction countShifts with
  | case1 i nbits more ih =>
      rw [ih, Nat.shiftRight_one, if_neg more, Nat.log2_def i]
      by_cases two : 2 ≤ i
      · rw [if_neg (by omega), if_pos two]
        omega
      · rw [if_pos (by omega), if_neg two]
  | case2 i nbits done => rw [if_pos (not_not.mp done)]

theorem countShifts_log2 (max : Nat) : countShifts (max >>> 1) 0 = max.log2 := by
  rw [countShifts_eq, Nat.shiftRight_one, Nat.log2_def max]
  by_cases two : 2 ≤ max
  · rw [if_neg (by omega), if_pos two]
    omega
  · rw [if_pos (by omega), if_neg two]

theorem wordsInitialize_eq {heap : Heap} (room : heap.wordArray = true) {max : Nat} (few : max < 2 ^ 32)
    (scale : Nat) : wordsInitialize heap max scale = .ok (some (CArray.filled (wordOrder max scale))) := by
  have narrow : max.log2 ≤ 31 := by
    by_cases none : max = 0
    · simp [none]
    · exact Nat.le_of_lt_succ ((Nat.log2_lt none).mpr few)
  have word : reversedWord max.log2 scale = fun i => .ok (reverseBits max.log2 i * scale) :=
    funext fun _ => if_pos narrow
  unfold wordsInitialize
  rw [if_pos room, countShifts_log2]
  simp only [word]
  exact bind_eq_ok.mpr ⟨_, fillArray_map max _, rfl⟩

section Order

variable {max scale : Nat}

/-- The words in use are the first ones up to the largest power of two. -/
theorem mem_wordOrder (pos : 0 < max) {w : Nat} :
    w ∈ wordOrder max scale ↔ ∃ k < 2 ^ max.log2, w = k * scale := by
  constructor
  · intro member
    obtain ⟨i, -, rfl⟩ := List.mem_map.mp member
    exact ⟨_, reverseBits_lt _ i, rfl⟩
  · rintro ⟨k, small, rfl⟩
    have low := Nat.log2_self_le (Nat.ne_of_gt pos)
    have back := reverseBits_lt max.log2 k
    refine List.mem_map.mpr ⟨reverseBits max.log2 k, List.mem_range.mpr (by omega), ?_⟩
    rw [reverseBits_reverseBits, Nat.mod_eq_of_lt small]

/-- Two turns use the same word exactly when they are a multiple of the power of two apart. -/
theorem word_eq_iff (positive : 0 < scale) {i j : Nat} :
    reverseBits max.log2 i * scale = reverseBits max.log2 j * scale ↔
      i % 2 ^ max.log2 = j % 2 ^ max.log2 := by
  rw [← reverseBits_eq_iff]
  exact ⟨Nat.eq_of_mul_eq_mul_right positive, fun same => congrArg (· * scale) same⟩

/-- The number of words is a power of two, or there are turns left when every word in use has had one. -/
theorem power_or_lt (max : Nat) (pos : 0 < max) : max = 2 ^ max.log2 ∨ 2 ^ max.log2 < max := by
  have low := Nat.log2_self_le (Nat.ne_of_gt pos)
  omega

theorem nodup_wordOrder_iff (pos : 0 < max) (positive : 0 < scale) :
    (wordOrder max scale).Nodup ↔ max = 2 ^ max.log2 := by
  constructor
  · intro nodup
    rcases power_or_lt max pos with power | more
    · exact power
    · have twice := List.inj_on_of_nodup_map nodup (List.mem_range.mpr pos) (List.mem_range.mpr more)
      have same := twice ((word_eq_iff positive).mpr (by rw [Nat.zero_mod, Nat.mod_self]))
      exact absurd same.symm (Nat.ne_of_gt (Nat.two_pow_pos _))
  · intro power
    apply List.Nodup.map_on _ List.nodup_range
    intro i hi j hj same
    have turns := (word_eq_iff positive).mp same
    rw [← power, Nat.mod_eq_of_lt (List.mem_range.mp hi), Nat.mod_eq_of_lt (List.mem_range.mp hj)] at turns
    exact turns

end Order

/-- The words are used up to the largest power of two, and every word of the page has its turn exactly
when their number is a power of two. -/
theorem wordsInitialize_spec {heap : Heap} (room : heap.wordArray = true) {max scale : Nat}
    (pos : 0 < max) (few : max < 2 ^ 32) (positive : 0 < scale) :
    ∃ words, wordsInitialize heap max scale = .ok (some (CArray.filled words)) ∧ words.length = max ∧
      (∀ w, w ∈ words ↔ ∃ k < 2 ^ max.log2, w = k * scale) ∧
        (words.Perm (offsets max scale) ↔ ∃ b, max = 2 ^ b) := by
  have offsetsNodup : (offsets max scale).Nodup := by
    apply List.Nodup.map_on _ List.nodup_range
    exact fun i _ j _ same => Nat.eq_of_mul_eq_mul_right positive same
  refine ⟨wordOrder max scale, wordsInitialize_eq room few scale, by simp [wordOrder],
    fun w => mem_wordOrder pos, ?_⟩
  constructor
  · intro perm
    exact ⟨max.log2, (nodup_wordOrder_iff pos positive).mp (perm.nodup_iff.mpr offsetsNodup)⟩
  · rintro ⟨b, rfl⟩
    have nodup := (nodup_wordOrder_iff pos positive).mpr (by rw [Nat.log2_two_pow])
    apply (List.perm_ext_iff_of_nodup nodup offsetsNodup).mpr
    intro w
    rw [mem_wordOrder pos, Nat.log2_two_pow]
    simp [offsets, eq_comm]

theorem wordsInitialize_spec_twelve :
    ∃ words, wordsInitialize wideHeap 12 256 = .ok (some (CArray.filled words)) ∧ words.length = 12 ∧
      (∀ w, w ∈ words ↔ ∃ k < 2 ^ Nat.log2 12, w = k * 256) ∧
        (words.Perm (offsets 12 256) ↔ ∃ b, 12 = 2 ^ b) :=
  wordsInitialize_spec rfl (by decide) (by decide) (by decide)

end Numafac.LibMem
