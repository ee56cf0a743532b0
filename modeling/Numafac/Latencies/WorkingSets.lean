/-
Module: Numafac.Latencies.WorkingSets
Layer: Latencies
Purpose: The working sets that `compute-latencies` measures. `main` stores the size of every cache above
  the first processing unit in an array of three elements, and halves the differences of neighbouring
  elements. `workingSetsRight_iff` says for which cache sizes each measurement falls between its own
  level and the one below: there have to be three levels, each more than three times as large as the
  one below.
Trusted boundary: the size of a cache is the value of a `long`
Main exports: cacheSizesOf, differencesOf, workingSetsOf, cacheSizesOf_eq, WorkingSetsRight,
  workingSetsRight_iff
-/
import Numafac.Latencies.CoreMatrix

namespace Numafac

def HwlocObj.cacheSize? : HwlocObj → Option Nat
  | cache _ size => some size
  | _ => none

/-- The sizes of the caches among the objects above a processing unit, from the smallest on. -/
def cacheSizeList (objs : List HwlocObj) : List Nat :=
  objs.filterMap HwlocObj.cacheSize?

/-- The loop of `main` over the objects from a processing unit to the root. -/
def cacheSizesOf (objs : List HwlocObj) : CResult (CArray Int) := do
  let (cacheSizes, _) ← objs.foldlM storeCacheSize (CArray.filled [0, 0, 0], 0)
  pure cacheSizes

/-- What the three calls of `compute_latency` halve. -/
def differencesOf (objs : List HwlocObj) : CResult (List Int) := do
  let cacheSizes ← cacheSizesOf objs
  let first ← cacheSizes.read 0
  let second ← cacheSizes.read 1
  let third ← cacheSizes.read 2
  pure [first, second - first, third - second]

/-- The arguments of the three calls, before they are converted to `size_t`. -/
def workingSetsOf (objs : List HwlocObj) : CResult (List Int) := do
  let differences ← differencesOf objs
  pure (differences.map (·.tdiv 2))

/-- `cache_latencies` holds the measurements of these working sets. -/
theorem cacheLatencies_eq_measured (t : HwlocTopology) (measure : Nat → Int → ℚ) :
    cacheLatencies t measure = (do
      let sets ← workingSetsOf t.firstChain
      pure (CArray.filled (sets.mapIdx measure))) := by
  have same : cacheSizes t = cacheSizesOf t.firstChain := rfl
  simp only [cacheLatencies, workingSetsOf, differencesOf, same, bind_assoc, pure_bind]
  rfl

/-! ### What the working sets are for -/

/-- All sizes are stored, no length is made from a negative difference, and every level is measured with
a working set that it holds and the level below does not. -/
structure WorkingSetsRight (objs : List HwlocObj) : Prop where
  stored : cacheSizesOf objs = .ok (CArray.filled ((cacheSizeList objs).map Nat.cast ++
    List.replicate (3 - (cacheSizeList objs).length) 0))
  nonnegative : ∃ differences, differencesOf objs = .ok differences ∧ ∀ d ∈ differences, 0 ≤ d
  between : ∃ sets, workingSetsOf objs = .ok sets ∧
    ∀ (level size below : Nat), (cacheSizeList objs)[level]? = some size →
      (0 :: cacheSizeList objs)[level]? = some below →
        ∃ set : Int, sets[level]? = some set ∧ below < set ∧ set ≤ size

/-! ### The loop -/

theorem cacheSizeList_cons_cache (depth size : Nat) (objs : List HwlocObj) :
    cacheSizeList (.cache depth size :: objs) = size :: cacheSizeList objs := rfl

theorem cacheSizeList_cons_other {obj : HwlocObj} (objs : List HwlocObj)
    (other : obj.cacheDepth? = none) : cacheSizeList (obj :: objs) = cacheSizeList objs := by
  cases obj with
  | cache depth size => cases other
  | machine => rfl
  | group => rfl
  | socket => rfl
  | core => rfl
  | node osIndex => rfl
  | pu osIndex => rfl

/-- Three sizes have room; the fourth is written behind the array. -/
theorem storeCacheSizes_eq (objs : List HwlocObj) {sizes : List Nat} (few : sizes.length ≤ 3) :
    objs.foldlM storeCacheSize
        (CArray.filled (sizes.map Nat.cast ++ List.replicate (3 - sizes.length) 0), sizes.length) =
      let sizes' := sizes ++ cacheSizeList objs
      if sizes'.length ≤ 3 then
        .ok (CArray.filled (sizes'.map Nat.cast ++ List.replicate (3 - sizes'.length) 0), sizes'.length)
      else .error .outOfBounds := by
  induction objs generalizing sizes with
  | nil => simp [cacheSizeList, few, pure, Except.pure]
  | cons obj objs ih =>
      rw [List.foldlM_cons]
      cases depth : obj.cacheDepth? with
      | none =>
          rw [storeCacheSize_other depth, cacheSizeList_cons_other objs depth]
          exact ih few
      | some d =>
          obtain ⟨size, rfl⟩ := HwlocObj.eq_cache_of_cacheDepth? depth
          rw [cacheSizeList_cons_cache]
          by_cases room : sizes.length < 3
          · have stored := @CArray.write_filled_rest Int (sizes.map Nat.cast) 3 0
              (by rwa [List.length_map]) size
            rw [List.length_map, List.length_append, List.length_map, List.length_singleton] at stored
            have next : storeCacheSize (CArray.filled (sizes.map Nat.cast ++
                List.replicate (3 - sizes.length) 0), sizes.length) (.cache d size) =
                .ok (CArray.filled ((sizes ++ [size]).map Nat.cast ++
                  List.replicate (3 - (sizes ++ [size]).length) 0), (sizes ++ [size]).length) := by
              rw [storeCacheSize, stored, List.length_append, List.map_append]
              rfl
            have rest := @ih (sizes ++ [size]) (by rw [List.length_append]; exact room)
            rw [List.append_assoc, List.singleton_append] at rest
            rw [next]
            exact rest
          · have full : sizes.length = 3 := by omega
            have outside : storeCacheSize (CArray.filled (sizes.map Nat.cast ++
                List.replicate (3 - sizes.length) 0), sizes.length) (.cache d size) =
                .error .outOfBounds := by
              simp [storeCacheSize, CArray.write, full, bind, Except.bind]
            have many : ¬ (sizes ++ size :: cacheSizeList objs).length ≤ 3 := by simp [full]
            rw [outside]
            simp only [if_neg many]
            rfl

/-- The array after the loop. -/
theorem cacheSizesOf_eq (objs : List HwlocObj) : cacheSizesOf objs =
    if (cacheSizeList objs).length ≤ 3 then
      .ok (CArray.filled ((cacheSizeList objs).map Nat.cast ++
        List.replicate (3 - (cacheSizeList objs).length) 0))
    else .error .outOfBounds := by
  have ran := @storeCacheSizes_eq objs [] (Nat.zero_le 3)
  simp only [List.map_nil, List.nil_append, List.length_nil] at ran
  rw [cacheSizesOf]
  change (objs.foldlM storeCacheSize (CArray.filled (List.replicate 3 0), 0)).bind _ = _
  rw [ran]
  split
  · rfl
  · rfl

/-! ### The exact condition -/

/-- Half of a difference is above the lower size exactly when the upper size is large enough. -/
theorem lt_half_sub_iff {below size : Nat} (larger : below ≤ size) :
    (below : Int) < ((size : Int) - below).tdiv 2 ↔ 3 * below + 2 ≤ size := by
  rw [Int.tdiv_eq_ediv_of_nonneg (by omega)]
  omega

theorem half_sub_le {below size : Nat} (larger : below ≤ size) :
    ((size : Int) - below).tdiv 2 ≤ size := by
  rw [Int.tdiv_eq_ediv_of_nonneg (by omega)]
  omega

/-- The smallest level has none below it. -/
theorem half_pos_iff {size : Nat} : 0 < (size : Int).tdiv 2 ↔ 2 ≤ size := by
  have above := @lt_half_sub_iff 0 size (Nat.zero_le size)
  simpa using above

theorem half_le (size : Nat) : (size : Int).tdiv 2 ≤ size := by
  have inside := @half_sub_le 0 size (Nat.zero_le size)
  simpa using inside

/-- The lengths that are computed from three stored sizes. -/
theorem differencesOf_eq {objs : List HwlocObj} {first second third : Int}
    (array : cacheSizesOf objs = .ok (CArray.filled [first, second, third])) :
    differencesOf objs = .ok [first, second - first, third - second] ∧
      workingSetsOf objs =
        .ok [first.tdiv 2, (second - first).tdiv 2, (third - second).tdiv 2] := by
  have differences : differencesOf objs = .ok [first, second - first, third - second] := by
    rw [differencesOf, array]
    rfl
  exact ⟨differences, by rw [workingSetsOf, differences]; rfl⟩

/-- Every measurement belongs to its level exactly when there are three levels, the smallest cache has at
least two bytes, and each size is at least three times the one below and two bytes more. -/
theorem workingSetsRight_iff {objs : List HwlocObj} (levels : cacheSizeList objs ≠ [])
    (increasing : (cacheSizeList objs).Pairwise (· < ·)) :
    WorkingSetsRight objs ↔ ∃ first second third, cacheSizeList objs = [first, second, third] ∧
      2 ≤ first ∧ 3 * first + 2 ≤ second ∧ 3 * second + 2 ≤ third := by
  constructor
  · rintro ⟨stored, ⟨differences, computed, nonnegative⟩, sets, ran, between⟩
    have few : (cacheSizeList objs).length ≤ 3 := by
      by_contra many
      rw [cacheSizesOf_eq, if_neg many] at stored
      cases stored
    generalize cacheSizeList objs = sizes at *
    rcases sizes with _ | ⟨first, _ | ⟨second, _ | ⟨third, _ | ⟨fourth, more⟩⟩⟩⟩
    · exact absurd rfl levels
    · -- the second length comes from the missing second level
      obtain ⟨computed', ran'⟩ := differencesOf_eq stored
      rw [computed] at computed'
      rw [ran] at ran'
      obtain rfl := Except.ok.inj computed'
      obtain rfl := Except.ok.inj ran'
      have second := nonnegative ((0 : Int) - first) (by simp)
      obtain ⟨set, found, above, below⟩ := between 0 first 0 rfl rfl
      omega
    · -- the third length comes from the missing third level
      obtain ⟨computed', -⟩ := differencesOf_eq stored
      rw [computed] at computed'
      obtain rfl := Except.ok.inj computed'
      have third := nonnegative ((0 : Int) - second) (by simp)
      have larger := List.pairwise_pair.mp increasing
      omega
    · obtain ⟨-, ran'⟩ := differencesOf_eq stored
      rw [ran] at ran'
      obtain rfl := Except.ok.inj ran'
      obtain ⟨larger, increasing'⟩ := List.pairwise_cons.mp increasing
      have larger' := List.pairwise_pair.mp increasing'
      have smaller := larger second (by simp)
      obtain ⟨_, ⟨⟩, low, -⟩ := between 0 first 0 rfl rfl
      obtain ⟨_, ⟨⟩, middle, -⟩ := between 1 second first rfl rfl
      obtain ⟨_, ⟨⟩, high, -⟩ := between 2 third second rfl rfl
      exact ⟨first, second, third, rfl, half_pos_iff.mp low, (lt_half_sub_iff smaller.le).mp middle,
        (lt_half_sub_iff larger'.le).mp high⟩
    · exact absurd few (by simp)
  · rintro ⟨first, second, third, sizes, low, middle, high⟩
    have stored := cacheSizesOf_eq objs
    rw [sizes, if_pos (show [first, second, third].length ≤ 3 from Nat.le_refl 3)] at stored
    obtain ⟨computed, ran⟩ := differencesOf_eq stored
    refine ⟨by rw [sizes]; exact stored, ⟨_, computed, ?_⟩, _, ran, ?_⟩
    · intro d member
      simp only [List.mem_cons, List.not_mem_nil, or_false] at member
      omega
    · intro level size below found found'
      rw [sizes] at found found'
      rcases level with _ | _ | _ | level
      · cases found
        cases found'
        exact ⟨_, rfl, half_pos_iff.mpr low, half_le first⟩
      · cases found
        cases found'
        exact ⟨_, rfl, (lt_half_sub_iff (by omega)).mpr middle, half_sub_le (by omega)⟩
      · cases found
        cases found'
        exact ⟨_, rfl, (lt_half_sub_iff (by omega)).mpr high, half_sub_le (by omega)⟩
      · cases found

/-- A processing unit below three caches, each four times as large as the one below. -/
def threeLevels : List HwlocObj :=
  [.pu 0, .core, .cache 1 32768, .cache 2 262144, .socket, .cache 3 8388608, .machine]

/-- These sizes are apart enough. -/
theorem workingSetsRight_iff_threeLevels : WorkingSetsRight threeLevels :=
  (workingSetsRight_iff (by decide) (by decide)).mpr
    ⟨32768, 262144, 8388608, rfl, by decide, by decide, by decide⟩

/-- Below two caches the third length is made from a negative difference. -/
theorem not_workingSetsRight_twoLevels :
    ¬ WorkingSetsRight [.pu 0, .core, .cache 1 32768, .cache 2 4194304, .machine] := by
  rintro ⟨-, ⟨differences, computed, nonnegative⟩, -⟩
  have third : differencesOf [.pu 0, .core, .cache 1 32768, .cache 2 4194304, .machine] =
      .ok [32768, 4161536, -4194304] := by decide
  rw [third] at computed
  obtain rfl := Except.ok.inj computed
  exact absurd (nonnegative (-4194304) (by simp)) (by decide)

end Numafac
