/-
Module: Numafac.ArchTopology.CacheLoops
Layer: ArchTopology
Purpose: The two scanning loops over one sequence of counts. `na_get_shared_cacheLevel` stops at the first
  count above one and `na_get_cache_cores` at the first count other than one, so they separate at an
  index file that cannot be read, where the count is zero. `loopsAgree_iff` is the exact condition on the
  sequence, and `callsAgree_iff` what it asks of the cache directory of `cpu0`.
Trusted boundary: none beyond `CacheLevels`
Main exports: LoopsAgree, NoGapBeforeShared, loopsAgree_iff, callsAgree_iff
-/
import Numafac.ArchTopology.CacheLevels

namespace Numafac

/-- The loops over the counts `res 2`, ..., `res nrCaches` agree on the first shared level and its count, and
the arrays of `cache_cores-1` elements have a size. -/
structure LoopsAgree (res : Nat → Nat) (nrCaches : Int) : Prop where
  unshared : sharedCacheLevelLoop res 2 (nrCaches - 1).toNat = -1 →
    cacheCoresLoop res 2 (nrCaches - 1).toNat = 1
  shared : ∀ s : Nat, sharedCacheLevelLoop res 2 (nrCaches - 1).toNat = s →
    cacheCoresLoop res 2 (nrCaches - 1).toNat = res s
  positive : 1 ≤ cacheCoresLoop res 2 (nrCaches - 1).toNat
  sizes : 0 ≤ (cacheCoresLoop res 2 (nrCaches - 1).toNat : Int) - 1

/-- Every level without a count has a shared level below it. -/
def NoGapBeforeShared (res : Nat → Nat) (nrCaches : Int) : Prop :=
  ∀ k : Nat, 2 ≤ k → (k : Int) ≤ nrCaches → res k = 0 → ∃ j, 2 ≤ j ∧ j < k ∧ 1 < res j

section Loops

variable {res : Nat → Nat} {nrCaches : Int}

/-- Below the first shared level, or without one, every count is one. -/
theorem NoGapBeforeShared.eq_one (noGap : NoGapBeforeShared res nrCaches) {k : Nat} (low : 2 ≤ k)
    (high : (k : Int) ≤ nrCaches) (few : ∀ j, 2 ≤ j → j ≤ k → res j ≤ 1) : res k = 1 := by
  have notZero : res k ≠ 0 := by
    intro zero
    obtain ⟨j, hj, less, several⟩ := noGap k low high zero
    exact absurd (few j hj (Nat.le_of_lt less)) (Nat.not_le.mpr several)
  have atMost := few k low (Nat.le_refl k)
  omega

theorem loopsAgree_of_noGap (noGap : NoGapBeforeShared res nrCaches) : LoopsAgree res nrCaches := by
  rcases sharedCacheLevelLoop_cases res 2 (nrCaches - 1).toNat with
    ⟨level, few⟩ | ⟨s, level, low, high, several, least⟩
  · have cores : cacheCoresLoop res 2 (nrCaches - 1).toNat = 1 :=
      cacheCoresLoop_of_all fun k low high => noGap.eq_one low (by omega) fun j hj less =>
        few j hj (by omega)
    refine ⟨fun _ => cores, fun s found => ?_, by omega, by omega⟩
    rw [level] at found
    omega
  · have cores : cacheCoresLoop res 2 (nrCaches - 1).toNat = res s :=
      cacheCoresLoop_of_first low high (Nat.ne_of_gt several) fun k hk less =>
        noGap.eq_one hk (by omega) fun j hj le => least j hj (Nat.lt_of_le_of_lt le less)
    refine ⟨fun missed => ?_, fun s' found => ?_, by omega, by omega⟩
    · rw [level] at missed
      omega
    · rw [level] at found
      rw [cores, Int.ofNat_inj.mp found]

theorem noGap_of_loopsAgree (agree : LoopsAgree res nrCaches) : NoGapBeforeShared res nrCaches := by
  intro k low high zero
  by_contra noShared
  -- the second loop stops at the first level without a count
  have gap : ∃ k, 2 ≤ k ∧ res k = 0 := ⟨k, low, zero⟩
  obtain ⟨gapLow, gapZero⟩ := Nat.find_spec gap
  have gapLe : Nat.find gap ≤ k := Nat.find_min' gap ⟨low, zero⟩
  have before : ∀ j, 2 ≤ j → j < Nat.find gap → res j = 1 := by
    intro j hj less
    have notZero : res j ≠ 0 := fun zero => Nat.find_min gap less ⟨hj, zero⟩
    have atMost : ¬ 1 < res j := fun several => noShared ⟨j, hj, by omega, several⟩
    omega
  have cores := cacheCoresLoop_of_first gapLow (show Nat.find gap < 2 + (nrCaches - 1).toNat by omega)
    (by rw [gapZero]; exact Nat.zero_ne_one) before
  have positive := agree.positive
  rw [cores, gapZero] at positive
  exact absurd positive (by decide)

/-- The loops agree on a sequence of counts exactly when no level without a count comes before the first
shared one. -/
theorem loopsAgree_iff (res : Nat → Nat) (nrCaches : Int) :
    LoopsAgree res nrCaches ↔ NoGapBeforeShared res nrCaches :=
  ⟨noGap_of_loopsAgree, loopsAgree_of_noGap⟩

end Loops

/-! ### On a machine -/

section Machine

variable {fs : Sysfs}

theorem pieces_eq_zero_iff {i : Nat} : pieces fs i = 0 ↔ (fs.cacheDir 0).lists.length ≤ i := by
  cases found : (fs.cacheDir 0).lists[i]? with
  | none =>
      have missing := List.getElem?_eq_none_iff.mp found
      exact iff_of_true (pieces_of_missing missing) missing
  | some list =>
      have inside := (List.getElem?_eq_some_iff.mp found).1
      rw [pieces_of_list found]
      omega

theorem one_lt_pieces_iff {i : Nat} : 1 < pieces fs i ↔
    ∃ list, (fs.cacheDir 0).lists[i]? = some list ∧ 2 ≤ list.items.length := by
  constructor
  · intro several
    obtain ⟨list, found, -⟩ := sharedAt_of_pieces several
    rw [pieces_of_list found] at several
    exact ⟨list, found, by omega⟩
  · rintro ⟨list, found, several⟩
    rw [pieces_of_list found]
    omega

/-- The two calls agree exactly on machines where the loops do not come to an index without a file, which
the other entries of the directory are counted as, or where they stop before. -/
theorem callsAgree_iff (fs : Sysfs) : LoopsAgree (pieces fs) (naGetNumcaches fs) ↔
    0 ∉ fs.cpus 0 ∨ (fs.cacheDir 0).others = 0 ∨
      (fs.cacheDir 0).lists.length + (fs.cacheDir 0).others ≤ 2 ∨
      ∃ i list, 2 ≤ i ∧ (fs.cacheDir 0).lists[i]? = some list ∧ 2 ≤ list.items.length := by
  rw [loopsAgree_iff]
  constructor
  · intro noGap
    by_contra reaches
    simp only [not_or, not_not] at reaches
    obtain ⟨inNode, others, entries, noShared⟩ := reaches
    have count := naGetNumcaches_eq inNode
    obtain ⟨j, low, -, several⟩ := noGap (max 2 (fs.cacheDir 0).lists.length) (by omega) (by omega)
      (pieces_eq_zero_iff.mpr (by omega))
    obtain ⟨list, found, items⟩ := one_lt_pieces_iff.mp several
    exact noShared ⟨j, list, low, found, items⟩
  · intro stops k low high zero
    have missing := pieces_eq_zero_iff.mp zero
    have inNode : 0 ∈ fs.cpus 0 := by
      by_contra outside
      rw [naGetNumcaches, if_neg outside] at high
      omega
    have count := naGetNumcaches_eq inNode
    rcases stops with outside | none | few | ⟨i, list, hi, found, items⟩
    · exact absurd inNode outside
    · omega
    · omega
    · have inside := (List.getElem?_eq_some_iff.mp found).1
      exact ⟨i, hi, by omega, one_lt_pieces_iff.mpr ⟨list, found, items⟩⟩

end Machine

/-- One node of two CPUs without shared caches, the cache directory holding an entry `uevent` besides the
index directories. -/
def ueventEntry : Sysfs :=
  Sysfs.ofNodes [[0, 1]] (by decide) (by decide) (fun _ => some 0) fun cpu =>
    { lists := [.single cpu, .single cpu, .single cpu], others := 1 }

/-- The first loop finds no shared level and the second one counts no core at `index3`. -/
theorem not_loopsAgree_ueventEntry :
    ¬ LoopsAgree (pieces ueventEntry) (naGetNumcaches ueventEntry) := by
  intro agree
  have positive := agree.positive
  revert positive
  decide

end Numafac
