/-
Module: Numafac.ArchTopology.CacheLevels
Layer: ArchTopology
Purpose: The three functions about the caches of `cpu0`: `na_get_numcaches` counts directory entries,
  `na_get_shared_cacheLevel` and `na_get_cache_cores` count comma-separated pieces of the shared CPU
  lists. `cacheLevelsRight_iff` compares them with the sets of CPUs that the lists denote: the answers
  are right exactly when the first truly shared list is written without ranges and the directory entries
  besides the index directories do not get in the way.
Trusted boundary: the translation of the three functions and of the branch test
Main exports: naGetNumcaches, pieces, naGetSharedCacheLevel, naGetCacheCores, linesBranch,
  CacheLevelsRight, CacheTextOk, cacheLevelsRight_iff
-/
import Numafac.ArchTopology.Sysfs

namespace Numafac

/-- `na_get_numcaches`: `ls /sys/devices/system/node/node0/cpu0/cache/ | wc -l`, less one. `ls` prints
nothing on standard output when `cpu0` is not in `node0`. -/
def naGetNumcaches (fs : Sysfs) : Int :=
  ((if 0 ∈ fs.cpus 0 then (fs.cacheDir 0).lists.length + (fs.cacheDir 0).others else 0 : Nat) : Int) - 1

/-- `sed s/,/'\n'/g`. -/
def sedCommas (text : Text) : Text :=
  text.map fun c => if c = ',' then '\n' else c

/-- `wc -l`. -/
def wcLines (text : Text) : Nat :=
  text.count '\n'

/-- `res` after reading `index{i}/shared_cpu_list | sed s/,/'\n'/g | wc -l`. -/
def pieces (fs : Sysfs) (i : Nat) : Nat :=
  wcLines (sedCommas (fs.sharedCpuList 0 i))

/-- `for(i=2;i<=nr_caches && shared == -1;i++)`, with the number of values of `i` that remain. -/
def sharedCacheLevelLoop (res : Nat → Nat) (i : Nat) : Nat → Int
  | 0 => -1
  | remaining + 1 => if 1 < res i then i else sharedCacheLevelLoop res (i + 1) remaining

/-- `for(i=2;i<=nr_caches && res == 1;i++)`. -/
def cacheCoresLoop (res : Nat → Nat) (i : Nat) : Nat → Nat
  | 0 => 1
  | remaining + 1 => if res i = 1 then cacheCoresLoop res (i + 1) remaining else res i

/-- The number of values that `i` takes in both loops. -/
def levelsRead (fs : Sysfs) : Nat :=
  (naGetNumcaches fs - 1).toNat

/-- `na_get_shared_cacheLevel`. -/
def naGetSharedCacheLevel (fs : Sysfs) : Int :=
  sharedCacheLevelLoop (pieces fs) 2 (levelsRead fs)

/-- `na_get_cache_cores`. -/
def naGetCacheCores (fs : Sysfs) : Nat :=
  cacheCoresLoop (pieces fs) 2 (levelsRead fs)

/-- `shared == -1 || shared == na_get_numcaches()`: no cache is shared or the last level is. -/
def linesBranch (fs : Sysfs) : Bool :=
  naGetSharedCacheLevel fs = -1 || naGetSharedCacheLevel fs = naGetNumcaches fs

/-! ### What the lists denote -/

/-- The set of CPUs at an index of `cpu0` has more than one CPU. -/
def SharedAt (fs : Sysfs) (i : Nat) : Prop :=
  ∃ list, (fs.cacheDir 0).lists[i]? = some list ∧ 1 < list.cpus.length

/-- The least shared index from 2 on. -/
structure FirstShared (fs : Sysfs) (s : Nat) : Prop where
  two_le : 2 ≤ s
  shared : SharedAt fs s
  least : ∀ i, 2 ≤ i → i < s → ¬ SharedAt fs i

/-- The answers agree with the sets: the first shared level, the number of CPUs that share it, and whether
it is the last index. -/
structure CacheLevelsRight (fs : Sysfs) : Prop where
  level : ∀ s, FirstShared fs s → naGetSharedCacheLevel fs = s
  cores : ∀ s, FirstShared fs s → ∀ list, (fs.cacheDir 0).lists[s]? = some list →
    naGetCacheCores fs = list.cpus.length
  branch : ∀ s, FirstShared fs s →
    (linesBranch fs = true ↔ s + 1 = (fs.cacheDir 0).lists.length)
  unshared : (∀ s, ¬ FirstShared fs s) →
    naGetSharedCacheLevel fs = -1 ∧ naGetCacheCores fs = 1 ∧ linesBranch fs = true

/-- The first shared list has no range, and other directory entries neither follow it as the last index nor
make the loops read past an unshared last index. A shared level is only seen when `cpu0` is in `node0`. -/
structure CacheTextOk (fs : Sysfs) : Prop where
  shared : ∀ s, FirstShared fs s → 0 ∈ fs.cpus 0 ∧
    (∀ list, (fs.cacheDir 0).lists[s]? = some list → ∀ item ∈ list.items, item.low = item.high) ∧
    (s + 1 = (fs.cacheDir 0).lists.length → (fs.cacheDir 0).others = 0)
  unshared : (∀ s, ¬ FirstShared fs s) → 0 ∈ fs.cpus 0 →
    (fs.cacheDir 0).others = 0 ∨ (fs.cacheDir 0).lists.length + (fs.cacheDir 0).others ≤ 2

/-! ### The loops -/

theorem sharedCacheLevelLoop_of_first {res : Nat → Nat} {i s remaining : Nat} (low : i ≤ s)
    (high : s < i + remaining) (shared : 1 < res s) (least : ∀ k, i ≤ k → k < s → res k ≤ 1) :
    sharedCacheLevelLoop res i remaining = s := by
  induction remaining generalizing i with
  | zero => omega
  | succ remaining ih =>
      rw [sharedCacheLevelLoop]
      by_cases here : i = s
      · rw [here, if_pos shared]
      · rw [if_neg (Nat.not_lt.mpr (least i (Nat.le_refl i) (by omega)))]
        exact ih (by omega) (by omega) fun k hk => least k (by omega)

theorem sharedCacheLevelLoop_of_none {res : Nat → Nat} {i remaining : Nat}
    (none : ∀ k, i ≤ k → k < i + remaining → res k ≤ 1) :
    sharedCacheLevelLoop res i remaining = -1 := by
  induction remaining generalizing i with
  | zero => rfl
  | succ remaining ih =>
      rw [sharedCacheLevelLoop, if_neg (Nat.not_lt.mpr (none i (Nat.le_refl i) (by omega)))]
      exact ih fun k low high => none k (by omega) (by omega)

/-- The level found is in range, has several pieces, and is the first such. -/
theorem sharedCacheLevelLoop_cases (res : Nat → Nat) (i remaining : Nat) :
    (sharedCacheLevelLoop res i remaining = -1 ∧ ∀ k, i ≤ k → k < i + remaining → res k ≤ 1) ∨
      ∃ s : Nat, sharedCacheLevelLoop res i remaining = (s : Int) ∧ i ≤ s ∧ s < i + remaining ∧
        1 < res s ∧ ∀ k, i ≤ k → k < s → res k ≤ 1 := by
  induction remaining generalizing i with
  | zero => exact Or.inl ⟨rfl, fun k low high => by omega⟩
  | succ remaining ih =>
      rw [sharedCacheLevelLoop]
      by_cases here : 1 < res i
      · rw [if_pos here]
        exact Or.inr ⟨i, rfl, Nat.le_refl i, by omega, here, fun k low high => by omega⟩
      · rw [if_neg here]
        rcases ih (i + 1) with ⟨found, none⟩ | ⟨s, found, low, high, shared, least⟩
        · refine Or.inl ⟨found, fun k low high => ?_⟩
          by_cases first : k = i
          · exact first ▸ Nat.not_lt.mp here
          · exact none k (by omega) (by omega)
        · refine Or.inr ⟨s, found, by omega, by omega, shared, fun k low' high' => ?_⟩
          by_cases first : k = i
          · exact first ▸ Nat.not_lt.mp here
          · exact least k (by omega) high'

theorem cacheCoresLoop_of_first {res : Nat → Nat} {i s remaining : Nat} (low : i ≤ s)
    (high : s < i + remaining) (stops : res s ≠ 1) (before : ∀ k, i ≤ k → k < s → res k = 1) :
    cacheCoresLoop res i remaining = res s := by
  induction remaining generalizing i with
  | zero => omega
  | succ remaining ih =>
      rw [cacheCoresLoop]
      by_cases here : i = s
      · rw [here, if_neg stops]
      · rw [if_pos (before i (Nat.le_refl i) (by omega))]
        exact ih (by omega) (by omega) fun k hk => before k (by omega)

theorem cacheCoresLoop_of_all {res : Nat → Nat} {i remaining : Nat}
    (all : ∀ k, i ≤ k → k < i + remaining → res k = 1) : cacheCoresLoop res i remaining = 1 := by
  induction remaining generalizing i with
  | zero => rfl
  | succ remaining ih =>
      rw [cacheCoresLoop, if_pos (all i (Nat.le_refl i) (by omega))]
      exact ih fun k low high => all k (by omega) (by omega)

/-- The second loop ends with one only when it read nothing else. -/
theorem eq_one_of_cacheCoresLoop {res : Nat → Nat} {i remaining : Nat}
    (one : cacheCoresLoop res i remaining = 1) (k : Nat) (low : i ≤ k) (high : k < i + remaining) :
    res k = 1 := by
  induction remaining generalizing i with
  | zero => omega
  | succ remaining ih =>
      rw [cacheCoresLoop] at one
      by_cases here : res i = 1
      · rw [if_pos here] at one
        by_cases first : k = i
        · exact first ▸ here
        · exact ih one (by omega) (by omega)
      · rw [if_neg here] at one
        exact absurd one here

/-! ### Pieces and sets -/

theorem wcLines_sedCommas (text : Text) :
    wcLines (sedCommas text) = text.count ',' + text.count '\n' := by
  unfold wcLines sedCommas
  induction text with
  | nil => rfl
  | cons c text ih =>
      rw [List.map_cons, List.count_cons, List.count_cons, List.count_cons, ih]
      by_cases comma : c = ','
      · simp [comma]
        omega
      · simp [comma]
        omega

section Pieces

variable {fs : Sysfs} {i : Nat}

theorem pieces_of_list {list : CpuList} (found : (fs.cacheDir 0).lists[i]? = some list) :
    pieces fs i = list.items.length - 1 + 1 := by
  have stream : fs.sharedCpuList 0 i = list.text ++ ['\n'] := by
    simp [Sysfs.sharedCpuList, found]
  rw [pieces, stream, wcLines_sedCommas, List.count_append, List.count_append, count_comma_text,
    count_newline_text]
  rfl

theorem pieces_of_missing (missing : (fs.cacheDir 0).lists.length ≤ i) : pieces fs i = 0 := by
  have stream : fs.sharedCpuList 0 i = [] := by
    simp [Sysfs.sharedCpuList, List.getElem?_eq_none missing]
  rw [pieces, stream]
  rfl

/-- Several pieces denote several CPUs. -/
theorem sharedAt_of_pieces (several : 1 < pieces fs i) : SharedAt fs i := by
  cases found : (fs.cacheDir 0).lists[i]? with
  | none =>
      rw [pieces_of_missing (List.getElem?_eq_none_iff.mp found)] at several
      omega
  | some list =>
      rw [pieces_of_list found] at several
      have more := length_items_le list
      exact ⟨list, found, by omega⟩

/-- An index that exists and is not shared has one piece. -/
theorem pieces_eq_one (inside : i < (fs.cacheDir 0).lists.length) (notShared : ¬ SharedAt fs i) :
    pieces fs i = 1 := by
  have atMost : ¬ 1 < pieces fs i := fun several => notShared (sharedAt_of_pieces several)
  have found := List.getElem?_eq_getElem inside
  rw [pieces_of_list found] at atMost ⊢
  omega

/-- Some shared index has no shared one before it. -/
theorem not_sharedAt_of_none (none : ∀ s, ¬ FirstShared fs s) (k : Nat) (low : 2 ≤ k) :
    ¬ SharedAt fs k := by
  induction k using Nat.strong_induction_on with
  | _ k ih => exact fun shared => none k ⟨low, shared, fun i hi small => ih i small hi⟩

theorem lt_of_sharedAt (shared : SharedAt fs i) : i < (fs.cacheDir 0).lists.length := by
  obtain ⟨list, found, -⟩ := shared
  exact (List.getElem?_eq_some_iff.mp found).1

/-- Before the first shared level every list is one piece. -/
theorem FirstShared.pieces_before {s : Nat} (first : FirstShared fs s) {k : Nat} (low : 2 ≤ k)
    (small : k < s) : pieces fs k = 1 :=
  pieces_eq_one (Nat.lt_trans small (lt_of_sharedAt first.shared)) (first.least k low small)

theorem naGetNumcaches_eq (inNode : 0 ∈ fs.cpus 0) :
    naGetNumcaches fs = (fs.cacheDir 0).lists.length + (fs.cacheDir 0).others - 1 := by
  simp [naGetNumcaches, inNode]

theorem levelsRead_eq (fs : Sysfs) : levelsRead fs =
    if 0 ∈ fs.cpus 0 then (fs.cacheDir 0).lists.length + (fs.cacheDir 0).others - 2 else 0 := by
  unfold levelsRead naGetNumcaches
  split <;> omega

end Pieces

/-! ### The exact condition -/

section Exact

variable {fs : Sysfs}

/-- Under the condition the loops stop at the first shared level and count its CPUs. -/
theorem answers_of_textOk (ok : CacheTextOk fs) {s : Nat} (first : FirstShared fs s) {list : CpuList}
    (found : (fs.cacheDir 0).lists[s]? = some list) :
    naGetSharedCacheLevel fs = s ∧ naGetCacheCores fs = list.cpus.length := by
  obtain ⟨inNode, noRange, -⟩ := ok.shared s first
  obtain ⟨list', found', several⟩ := first.shared
  rw [found] at found'
  cases found'
  have inside := lt_of_sharedAt first.shared
  have low := first.two_le
  have reads := levelsRead_eq fs
  rw [if_pos inNode] at reads
  have count := (length_items_eq_iff list).mpr (noRange list found)
  have here : pieces fs s = list.cpus.length := by
    rw [pieces_of_list found]
    omega
  have high : s < 2 + levelsRead fs := by omega
  constructor
  · apply sharedCacheLevelLoop_of_first low high
    · rw [here]
      exact several
    · exact fun k hk small => (first.pieces_before hk small).le
  · rw [← here]
    apply cacheCoresLoop_of_first low high
    · rw [here]
      exact Nat.ne_of_gt several
    · exact fun k hk small => first.pieces_before hk small

/-- Without a shared level the loops only see lists of one piece. -/
theorem pieces_eq_one_of_textOk (ok : CacheTextOk fs) (none : ∀ s, ¬ FirstShared fs s) (k : Nat)
    (low : 2 ≤ k) (high : k < 2 + levelsRead fs) : pieces fs k = 1 := by
  have reads := levelsRead_eq fs
  by_cases inNode : 0 ∈ fs.cpus 0
  · rw [if_pos inNode] at reads
    rcases ok.unshared none inNode with noOthers | few
    · exact pieces_eq_one (by omega) (not_sharedAt_of_none none k low)
    · omega
  · rw [if_neg inNode] at reads
    omega

theorem cacheLevelsRight_of_textOk (ok : CacheTextOk fs) : CacheLevelsRight fs := by
  constructor
  · intro s first
    obtain ⟨list, found, -⟩ := first.shared
    exact (answers_of_textOk ok first found).1
  · intro s first list found
    exact (answers_of_textOk ok first found).2
  · intro s first
    obtain ⟨list, found, -⟩ := first.shared
    obtain ⟨inNode, -, noOthers⟩ := ok.shared s first
    have inside := lt_of_sharedAt first.shared
    rw [linesBranch, (answers_of_textOk ok first found).1, naGetNumcaches_eq inNode]
    simp only [Bool.or_eq_true, decide_eq_true_eq]
    omega
  · intro none
    have one := pieces_eq_one_of_textOk ok none
    have level : naGetSharedCacheLevel fs = -1 :=
      sharedCacheLevelLoop_of_none fun k low high => (one k low high).le
    exact ⟨level, cacheCoresLoop_of_all one, by simp [linesBranch, level]⟩

/-- And where the answers are right the condition holds. -/
theorem textOk_of_cacheLevelsRight (right : CacheLevelsRight fs) : CacheTextOk fs := by
  constructor
  · intro s first
    have level := right.level s first
    have low := first.two_le
    have inside := lt_of_sharedAt first.shared
    have reads := levelsRead_eq fs
    obtain ⟨list, found, several⟩ := first.shared
    rcases sharedCacheLevelLoop_cases (pieces fs) 2 (levelsRead fs) with
      ⟨missed, -⟩ | ⟨s', stopped, -, high, severalPieces, -⟩
    · rw [naGetSharedCacheLevel] at level
      omega
    · have same : s' = s := by
        rw [naGetSharedCacheLevel, stopped] at level
        exact_mod_cast level
      rw [same] at high severalPieces
      have inNode : 0 ∈ fs.cpus 0 := by
        by_contra outside
        rw [if_neg outside] at reads
        omega
      have cores := right.cores s first list found
      rw [naGetCacheCores, cacheCoresLoop_of_first low high (Nat.ne_of_gt severalPieces)
        fun k hk small => first.pieces_before hk small, pieces_of_list found] at cores
      rw [pieces_of_list found] at severalPieces
      refine ⟨inNode, fun list' found' => ?_, fun last => ?_⟩
      · rw [found] at found'
        cases found'
        exact (length_items_eq_iff list).mp (by omega)
      · have branch := (right.branch s first).mpr last
        rw [linesBranch, level, naGetNumcaches_eq inNode] at branch
        simp only [Bool.or_eq_true, decide_eq_true_eq] at branch
        omega
  · intro none inNode
    obtain ⟨-, cores, -⟩ := right.unshared none
    by_contra bad
    have notShared := not_sharedAt_of_none none
    have reads := levelsRead_eq fs
    rw [if_pos inNode] at reads
    -- the loop reads one index past the last one, where nothing is counted
    obtain ⟨past, hpast⟩ : ∃ past, past = max 2 (fs.cacheDir 0).lists.length := ⟨_, rfl⟩
    have missing : pieces fs past = 0 := pieces_of_missing (by omega)
    have before : ∀ k, 2 ≤ k → k < past → pieces fs k = 1 := fun k low small =>
      pieces_eq_one (by omega) (notShared k low)
    rw [naGetCacheCores, cacheCoresLoop_of_first (by omega : 2 ≤ past) (by omega) (by omega) before,
      missing] at cores
    omega

/-- The three functions agree with the sets exactly under the condition on the texts. -/
theorem cacheLevelsRight_iff (fs : Sysfs) : CacheLevelsRight fs ↔ CacheTextOk fs :=
  ⟨textOk_of_cacheLevelsRight, cacheLevelsRight_of_textOk⟩

end Exact

/-- Four CPUs of one node that share the last cache, as current kernels write it. -/
def sharedRange : Sysfs :=
  Sysfs.ofNodes [[0, 1, 2, 3]] (by decide) (by decide) (fun _ => some 0) fun cpu =>
    { lists := [.single cpu, .single cpu, .single cpu, .range 0 3 (by decide)], others := 0 }

theorem not_cacheLevelsRight_sharedRange : ¬ CacheLevelsRight sharedRange := by
  intro right
  have shared : SharedAt sharedRange 3 := ⟨_, rfl, by decide⟩
  have first : FirstShared sharedRange 3 := by
    refine ⟨by decide, shared, fun i low high => ?_⟩
    obtain rfl : i = 2 := by omega
    rintro ⟨list, found, several⟩
    cases found
    exact absurd several (by decide)
  have level := right.level 3 first
  revert level
  decide

end Numafac
