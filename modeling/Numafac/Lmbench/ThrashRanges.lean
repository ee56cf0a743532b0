/-
Module: Numafac.Lmbench.ThrashRanges
Layer: Lmbench
Purpose: The measurements of `lat_mem_rd -t`. Every interval loads evenly from the ring of
  `thrash_initialize`. With pages of 4096 bytes and a stride that is a power of two the ring holds every
  stride of every range but two: of 3072 and of 6144 bytes it holds a third (`thrash_measurements`). A
  stride larger than a page leaves no ring in a range of whole pages (`thrash_largeStride`).
Trusted boundary: that of `ThrashChain` and `RangeLoop`
Main exports: measure_thrash, mem_rangeLoop, thrashLength_range, thrash_measurements, thrash_largeStride
-/
import Numafac.Lmbench.RangeLoop
import Numafac.Lmbench.ThrashChain

namespace Numafac.LibMem

/-! ### The intervals -/

/-- One iteration loads every cell. -/
theorem thrashLength_le_loadCount {s : MemState} (stride : s.line ≤ s.len) : thrashLength s ≤ loadCount s := by
  have few : thrashLength s ≤ s.len / s.line := by
    unfold thrashLength
    split
    · exact (turnCount_le (Nat.div_pos stride s.line_pos)).2
    · rw [Nat.le_div_iff_mul_le s.line_pos, Nat.mul_assoc]
      calc s.len / s.pagesize * (s.pagesize / s.line * s.line)
          ≤ s.len / s.pagesize * s.pagesize := Nat.mul_le_mul_left _ (Nat.div_mul_le_self _ _)
        _ ≤ s.len := Nat.div_mul_le_self _ _
  exact few.trans ((Nat.le_succ _).trans (le_loadCount s))

/-- The measurement after the first initialization. -/
theorem measure_thrash {heap : Heap} (draws : Draws) {s : MemState} (fits : ThrashFits s)
    (room : heap.hasRoom s = true) (array : heap.wordArray = true) {intervals : List Nat}
    (pos : ∀ n ∈ intervals, 0 < n) :
    ∃ s' cell loads final, thrashInitialize heap draws 0 s = .ok s' ∧
      measure (thrashInitialize heap draws) intervals s' = .ok (loads, final) ∧
        List.Forall₂ (EvenLoads (thrashLength s) cell (loadCount s)) intervals loads := by
  obtain ⟨s', pages, built, same, ordered, perm, chained⟩ := exists_thrashChain draws fits room array
  let ready (t : MemState) : Prop :=
    Laid t ∧ SameParameters s t ∧ t.base = s'.base ∧ t.pages = some (CArray.filled pages)
  have links : ∀ t, ready t → ∀ n, 0 < n → ∃ t', thrashInitialize heap draws n t = .ok t' ∧
      Chained t' (thrashLength s) (thrashCell s s'.base pages) ∧ loadCount t' = loadCount s ∧
        ∀ p, ready { t' with p } := by
    rintro t ⟨laid, same, base, ordered⟩ n pos
    obtain ⟨len, maxlen, line, pagesize⟩ := id same
    rw [← maxlen, ← pagesize] at perm
    obtain ⟨t', linked, chained, same', base', kept⟩ :=
      linkThrash_chained array (fits.congr same) laid ordered perm
    have length : thrashLength t = thrashLength s := by rw [thrashLength, thrashLength, len, line, pagesize]
    have cell : thrashCell t t.base pages = thrashCell s s'.base pages := by
      funext k
      rw [thrashCell, thrashCell, len, line, pagesize, base]
    rw [length, cell] at chained
    have now := same.trans same'
    have count : loadCount t' = loadCount s := by
      obtain ⟨len', -, line', -⟩ := now
      rw [loadCount, loadCount, len', line']
    refine ⟨t', bind_eq_ok.mpr ⟨t, if_pos (Nat.ne_of_gt pos), ?_⟩, chained, count,
      fun p => ⟨chained.laid.setPointer p, now, base'.trans base, kept.trans ordered⟩⟩
    rw [if_pos laid.initialized]
    exact linked
  obtain ⟨loads, final, ran, even⟩ := measure_of_chained (thrashLength_le_loadCount fits.stride) links
    ⟨chained.laid, same, rfl, ordered⟩ pos
  exact ⟨s', _, loads, final, built, ran, even⟩

/-! ### The ranges of `lat_mem_rd` -/

open LatMemRd

/-- What the range loop measures. -/
theorem mem_rangeLoop_from {len stride range : Nat} (pos : 0 < range) (positive : 0 < stride) (measured : Nat) :
    measured ∈ rangeLoop len stride range pos ↔
      (∃ m, step^[m] range = measured) ∧ stride ≤ measured ∧ measured ≤ len := by
  fun_induction rangeLoop with
  | case1 range pos more ih =>
      rw [List.mem_append, ih]
      constructor
      · rintro (here | ⟨⟨m, rfl⟩, large, inside⟩)
        · unfold loads at here
          split at here
          · cases here
          · obtain rfl := List.mem_singleton.mp here
            exact ⟨⟨0, rfl⟩, by omega, more⟩
        · exact ⟨⟨m + 1, rfl⟩, large, inside⟩
      · rintro ⟨⟨m, rfl⟩, large, inside⟩
        cases m with
        | zero =>
            left
            have taken : loads range stride = [range] := if_neg (by simp at large; omega)
            rw [taken]
            exact List.mem_singleton.mpr rfl
        | succ m => exact Or.inr ⟨⟨m, rfl⟩, large, inside⟩
  | case2 range pos done =>
      constructor
      · intro member
        cases member
      · rintro ⟨⟨m, rfl⟩, -, inside⟩
        exact absurd ((le_iterate_step pos m).trans inside) done

theorem mem_rangeLoop {len stride range : Nat} (positive : 0 < stride) :
    range ∈ rangeLoop len stride lower (by decide) ↔ IsRange range ∧ stride ≤ range ∧ range ≤ len := by
  rw [mem_rangeLoop_from _ positive, isRange_iff_iterate]

/-! ### The rings of the ranges -/

theorem turnCount_power (b : Nat) : turnCount (2 ^ b) = 2 ^ b := by
  rw [turnCount, Nat.log2_two_pow, if_pos rfl]

theorem turnCount_between (b : Nat) : turnCount (3 * 2 ^ b) = 2 ^ b := by
  have positive := Nat.two_pow_pos b
  have width : (3 * 2 ^ b).log2 = b + 1 := by
    rw [Nat.log2_eq_iff (by omega), Nat.pow_succ, Nat.pow_succ]
    omega
  rw [turnCount, width, Nat.pow_succ, if_neg (by omega)]
  omega

/-- The quotient of two multiples of powers of two. -/
theorem mul_two_pow_div {m b e : Nat} (small : e ≤ b) : m * 2 ^ b / 2 ^ e = m * 2 ^ (b - e) := by
  have split : 2 ^ b = 2 ^ (b - e) * 2 ^ e := by rw [← Nat.pow_add, Nat.sub_add_cancel small]
  rw [split, ← Nat.mul_assoc, Nat.mul_div_cancel _ (Nat.two_pow_pos e)]

/-- Whole pages: every stride is in the ring. -/
theorem pages_mul_words {m b e : Nat} (page : 12 ≤ b) (small : e ≤ 12) :
    m * 2 ^ b / 4096 * (4096 / 2 ^ e) = m * 2 ^ b / 2 ^ e := by
  have pages := @mul_two_pow_div m b 12 page
  have words := @mul_two_pow_div 1 12 e small
  rw [Nat.one_mul, Nat.one_mul] at words
  rw [show (4096 : Nat) = 2 ^ 12 from rfl, pages, words, mul_two_pow_div (small.trans page), Nat.mul_assoc,
    ← Nat.pow_add, show b - 12 + (12 - e) = b - e by omega]

/-- The ring of a range that is a power of two. -/
theorem ring_of_power {b e : Nat} (fits : e ≤ b) (small : e ≤ 12) :
    (if 2 ^ b % 4096 ≠ 0 then turnCount (2 ^ b / 2 ^ e) else 2 ^ b / 4096 * (4096 / 2 ^ e)) =
      2 ^ b / 2 ^ e := by
  by_cases page : 12 ≤ b
  · have whole : 2 ^ b % 4096 = 0 := Nat.mod_eq_zero_of_dvd (Nat.pow_dvd_pow 2 page)
    have words := @pages_mul_words 1 b e page small
    rw [Nat.one_mul] at words
    rw [if_neg (not_not.mpr whole), words]
  · have part : 2 ^ b % 4096 ≠ 0 := by
      have smaller : 2 ^ b < 2 ^ 12 := Nat.pow_lt_pow_right (by decide) (by omega)
      have positive := Nat.two_pow_pos b
      omega
    have strides := @mul_two_pow_div 1 b e fits
    rw [Nat.one_mul, Nat.one_mul] at strides
    rw [if_pos part, strides, turnCount_power]

/-- The ring of a range halfway between two powers of two, with a stride that divides it. -/
theorem ring_of_between {b e : Nat} (fits : e ≤ b) (small : e ≤ 12) :
    (if 3 * 2 ^ b % 4096 ≠ 0 then turnCount (3 * 2 ^ b / 2 ^ e) else 3 * 2 ^ b / 4096 * (4096 / 2 ^ e)) =
      if 12 ≤ b then 3 * 2 ^ b / 2 ^ e else 3 * 2 ^ b / 2 ^ e / 3 := by
  by_cases page : 12 ≤ b
  · have whole : 3 * 2 ^ b % 4096 = 0 :=
      Nat.mod_eq_zero_of_dvd (Dvd.dvd.mul_left (Nat.pow_dvd_pow 2 page) 3)
    rw [if_neg (not_not.mpr whole), if_pos page, pages_mul_words page small]
  · have part : 3 * 2 ^ b % 4096 ≠ 0 := by
      have odd : ¬ 2 ^ 12 ∣ 3 * 2 ^ b := by
        intro divides
        have coprime : Nat.Coprime (2 ^ 12) 3 := by decide
        have smaller : 2 ^ b < 2 ^ 12 := Nat.pow_lt_pow_right (by decide) (by omega)
        exact absurd (Nat.le_of_dvd (Nat.two_pow_pos b) (coprime.dvd_of_dvd_mul_left divides)) (by omega)
      exact fun whole => odd (Nat.dvd_of_mod_eq_zero whole)
    rw [if_pos part, if_neg page, mul_two_pow_div fits, turnCount_between,
      Nat.mul_div_cancel_left _ (by decide)]

/-- The ring of a range between its stride and twice its stride. -/
theorem ring_of_single {b : Nat} (small : b + 1 ≤ 12) :
    (if 3 * 2 ^ b % 4096 ≠ 0 then turnCount (3 * 2 ^ b / 2 ^ (b + 1))
      else 3 * 2 ^ b / 4096 * (4096 / 2 ^ (b + 1))) = 3 * 2 ^ b / 2 ^ (b + 1) := by
  have positive := Nat.two_pow_pos b
  have smaller : 2 ^ b ≤ 2 ^ 11 := Nat.pow_le_pow_right (by decide) (by omega)
  have one : 3 * 2 ^ b / 2 ^ (b + 1) = 1 := by
    rw [Nat.div_eq_iff (Nat.two_pow_pos _), Nat.pow_succ]
    omega
  by_cases part : 3 * 2 ^ b % 4096 ≠ 0
  · rw [if_pos part, one]
    rfl
  · have page : 3 * 2 ^ b = 4096 := by omega
    omega

theorem two_pow_ne_between (k b : Nat) : 2 ^ k ≠ 3 * 2 ^ b := by
  have positive := Nat.two_pow_pos b
  by_cases low : k ≤ b + 1
  · have bound := Nat.pow_le_pow_right (show 0 < 2 by decide) low
    rw [Nat.pow_succ] at bound
    omega
  · have bound := Nat.pow_le_pow_right (show 0 < 2 by decide) (show b + 2 ≤ k by omega)
    rw [Nat.pow_add] at bound
    omega

/-- The range is one of the two of which the ring holds a third. -/
def ThirdOnly (range stride : Nat) : Prop :=
  (range = 3072 ∨ range = 6144) ∧ range % stride = 0

instance (range stride : Nat) : Decidable (ThirdOnly range stride) :=
  inferInstanceAs (Decidable (_ ∧ _))

/-- The ring holds every stride of the range, or a third of them. -/
theorem thrashLength_range {s : MemState} {e : Nat} (page : s.pagesize = 4096) (line : s.line = 2 ^ e)
    (small : e ≤ 12) (isRange : IsRange s.len) (stride : s.line ≤ s.len) :
    thrashLength s = if ThirdOnly s.len s.line then s.len / s.line / 3 else s.len / s.line := by
  rw [thrashLength, page, line]
  rw [line] at stride
  obtain ⟨j, power | between⟩ := isRange
  · rw [power] at stride ⊢
    have fits : e ≤ j + 9 := (Nat.pow_le_pow_iff_right (by decide)).mp stride
    have other : ¬ ThirdOnly (2 ^ (j + 9)) (2 ^ e) := by
      rintro ⟨first | second, -⟩
      · exact two_pow_ne_between (j + 9) 10 first
      · exact two_pow_ne_between (j + 9) 11 second
    rw [if_neg other, ring_of_power fits small]
  · rw [between] at stride ⊢
    by_cases fits : e ≤ j + 10
    · have divides : 3 * 2 ^ (j + 10) % 2 ^ e = 0 :=
        Nat.mod_eq_zero_of_dvd (Dvd.dvd.mul_left (Nat.pow_dvd_pow 2 fits) 3)
      have third : ThirdOnly (3 * 2 ^ (j + 10)) (2 ^ e) ↔ ¬ 12 ≤ j + 10 := by
        constructor
        · rintro ⟨first | second, -⟩ large
          · have grows : 2 ^ 12 ≤ 2 ^ (j + 10) := Nat.pow_le_pow_right (by decide) large
            omega
          · have grows : 2 ^ 12 ≤ 2 ^ (j + 10) := Nat.pow_le_pow_right (by decide) large
            omega
        · intro early
          have named : j = 0 ∨ j = 1 := by omega
          refine ⟨named.imp (fun zero => ?_) (fun one => ?_), divides⟩
          · simp [zero]
          · simp [one]
      rw [ring_of_between fits small]
      by_cases page : 12 ≤ j + 10
      · rw [if_pos page, if_neg fun part => third.mp part page]
      · rw [if_neg page, if_pos (third.mpr page)]
    · -- the stride is between a half of the range and the range
      have last : e = j + 10 + 1 := by
        have tooLarge : ¬ j + 10 + 2 ≤ e := by
          intro large
          have grows := Nat.pow_le_pow_right (show 0 < 2 by decide) large
          rw [Nat.pow_add] at grows
          have positive := Nat.two_pow_pos (j + 10)
          omega
        omega
      have rest : ¬ ThirdOnly (3 * 2 ^ (j + 10)) (2 ^ e) := by
        rintro ⟨-, divides⟩
        have positive := Nat.two_pow_pos (j + 10)
        have double : 2 ^ (j + 10 + 1) = 2 ^ (j + 10) * 2 := by rw [Nat.pow_succ]
        have split : 3 * 2 ^ (j + 10) = 2 ^ (j + 10 + 1) + 2 ^ (j + 10) := by omega
        rw [last, split, Nat.add_mod_left, Nat.mod_eq_of_lt (by omega)] at divides
        omega
      rw [if_neg rest, last]
      exact ring_of_single (last ▸ small)

/-! ### The results -/

/-- All measurements of `lat_mem_rd -t` with pages of 4096 bytes and a stride that is a power of two: in every
range and for any numbers of iterations, each interval makes the loads that its time is divided by, evenly on
a ring of all strides of the range, or in the ranges of 3072 and 6144 bytes of a third of them. -/
theorem thrash_measurements {heap : Heap} (draws : Draws) (array : heap.wordArray = true) {s : MemState}
    {e : Nat} (page : s.pagesize = 4096) (line : s.line = 2 ^ e) (pointer : 3 ≤ e) (inPage : e ≤ 12)
    (measured : s.len ∈ rangeLoop s.maxlen s.line lower (by decide)) (short : s.len < 2 ^ 31)
    (room : heap.hasRoom s = true) {intervals : List Nat} (pos : ∀ n ∈ intervals, 0 < n) :
    ∃ s' cell loads final, thrashInitialize heap draws 0 s = .ok s' ∧
      measure (thrashInitialize heap draws) intervals s' = .ok (loads, final) ∧
        List.Forall₂ (EvenLoads
          (if ThirdOnly s.len s.line then s.len / s.line / 3 else s.len / s.line) cell (loadCount s))
            intervals loads := by
  obtain ⟨isRange, stride, inside⟩ := (mem_rangeLoop s.line_pos).mp measured
  have eight : 8 ≤ s.line := by
    rw [line]
    exact Nat.pow_le_pow_right (show 0 < 2 by decide) pointer
  have words : s.line ≤ s.pagesize ∧ s.pagesize / s.line = 2 ^ (s.pagesize / s.line).log2 := by
    have quotient := @mul_two_pow_div 1 12 e inPage
    rw [Nat.one_mul, Nat.one_mul] at quotient
    rw [page, line, show (4096 : Nat) = 2 ^ 12 from rfl, quotient, Nat.log2_two_pow]
    exact ⟨Nat.pow_le_pow_right (by decide) inPage, rfl⟩
  have fits : ThrashFits s :=
    ⟨⟨eight, by omega, s.line_pos.trans_le stride, inside⟩, short, stride, fun _ => words⟩
  rw [← thrashLength_range page line inPage isRange stride]
  exact measure_thrash draws fits room array pos

theorem thrash_measurements_threeKilobytes :
    ∃ s' cell loads final, thrashInitialize wideHeap ⟨1, id⟩ 0 threeKilobytes = .ok s' ∧
      measure (thrashInitialize wideHeap ⟨1, id⟩) [1, 8, 64] s' = .ok (loads, final) ∧
        List.Forall₂ (EvenLoads (if ThirdOnly 3072 256 then 3072 / 256 / 3 else 3072 / 256) cell
          (loadCount threeKilobytes)) [1, 8, 64] loads :=
  @thrash_measurements wideHeap ⟨1, id⟩ rfl threeKilobytes 8 rfl (by decide) (by decide) (by decide)
    ((mem_rangeLoop (by decide)).mpr ⟨⟨0, Or.inr rfl⟩, by decide, by decide⟩) (by decide) (by decide) [1, 8, 64]
    (by decide)

/-! ### A stride larger than a page -/

/-- No store has been made in the block. -/
def Blank (s : MemState) : Prop :=
  s.block.bytes = fun _ => none

theorem blank_allocate {heap : Heap} {s : MemState} {pages : Option (CArray Nat)}
    (initialized : (allocate heap s pages).initialized = true) : Blank (allocate heap s pages) := by
  unfold allocate at *
  split at initialized
  · rfl
  · cases initialized

/-- Without a word on a page nothing is linked. -/
theorem linkThrash_largeStride {heap : Heap} (array : heap.wordArray = true) {s : MemState}
    (fits : StrideFits s) (short : s.len < 2 ^ 31) (laid : Laid s) (whole : s.len % s.pagesize = 0)
    (large : s.pagesize < s.line) (blank : Blank s) :
    ∃ s' p, linkThrash heap s = .ok s' ∧ s'.p = some p ∧ s'.block.loadPointer p = .error .uninitialised ∧
      Laid s' ∧ SameParameters s s' ∧ Blank s' := by
  obtain ⟨pages, ordered, perm⟩ := laid.ordered
  obtain ⟨count, pos, enough⟩ := npages_of_whole fits whole
  have none : s.pagesize / s.line = 0 := Nat.div_eq_of_lt large
  have length : pages.length = (s.maxlen + s.pagesize - 1) / s.pagesize := by
    rw [perm.length_eq]
    simp [offsets]
  obtain ⟨q, small, page⟩ := page_of_perm perm (pos.trans_le enough)
  have below : (q + 1) * s.pagesize ≤ (s.maxlen + s.pagesize - 1) / s.pagesize * s.pagesize :=
    Nat.mul_le_mul_right _ small
  have few := Nat.div_mul_le_self (s.maxlen + s.pagesize - 1) s.pagesize
  have least := fits.page
  rw [Nat.add_one_mul] at below
  have inside := (laid.inside (show pages.getD 0 0 + 8 ≤ s.maxlen + s.pagesize by omega)).1
  have npages := laid.npages_eq short
  have fewer := Nat.div_le_self s.len s.pagesize
  have linked : linkPages s.base s.pages (some (CArray.filled (wordOrder (s.pagesize / s.line) s.line)))
      s.npages (s.pagesize / s.line) s.block = .ok s.block := by
    rw [ordered, linkPages_eq (by omega) (by omega) (by omega), none]
    have noStores : (List.range s.npages).flatMap (pageStores s.base pages s.npages 0 s.line) = [] := by
      simp [pageStores]
    rw [noStores]
    rfl
  have first : element s.pages 0 = .ok (pages.getD 0 0) := by
    rw [ordered, element_pages (by omega)]
  have laid' := (laid.setWords (s.pagesize / s.line)
    (some (CArray.filled (wordOrder (s.pagesize / s.line) s.line)))).setPointer
      (some (s.base + pages.getD 0 0))
  unfold linkThrash
  rw [if_neg (not_not.mpr whole)]
  refine ⟨_, s.base + pages.getD 0 0, bind_eq_ok.mpr ⟨_, wordsInitialize_eq array (by omega) _,
    bind_eq_ok.mpr ⟨_, linked, bind_eq_ok.mpr ⟨_, first, rfl⟩⟩⟩, rfl, ?_,
    laid', ⟨rfl, rfl, rfl, rfl⟩, blank⟩
  have unread : s.block.bytesFrom (s.base + pages.getD 0 0) 8 = Option.none := by
    rw [Memory.bytesFrom, blank]
    rfl
  change s.block.loadPointer _ = _
  rw [Memory.loadPointer, Memory.load, if_pos inside, unread]
  rfl

/-- A walk that cannot load its first pointer. -/
theorem benchmarkLoads_error {s : MemState} {p iterations : Nat} {fault : Fault} (start : s.p = some p)
    (unread : s.block.loadPointer p = .error fault) (pos : 0 < iterations) :
    benchmarkLoads iterations s = .error fault := by
  rw [benchmarkLoads, start]
  simp only
  rw [forRange_step pos, chaseRounds, forRange_step (Nat.succ_pos _), chase, unread]
  rfl

/-- With a stride larger than a page no word of a range of whole pages below two gigabytes is linked: the
first load of the first interval reads memory that nothing was stored to. -/
theorem thrash_largeStride {heap : Heap} (draws : Draws) {s : MemState} (fits : StrideFits s)
    (short : s.len < 2 ^ 31) (whole : s.len % s.pagesize = 0) (large : s.pagesize < s.line)
    (room : heap.hasRoom s = true) (array : heap.wordArray = true) :
    ∃ s', thrashInitialize heap draws 0 s = .ok s' ∧ ∀ iterations intervals, 0 < iterations →
      measure (thrashInitialize heap draws) (iterations :: intervals) s' = .error .uninitialised := by
  obtain ⟨s₁, ran, same, initialized, laidOut⟩ :=
    baseInitialize_spec heap draws (s := s) (fits.nonempty.trans_le fits.room)
  rw [room] at initialized
  have blank : Blank s₁ := by
    obtain ⟨pages, -, allocated⟩ := bind_eq_ok.mp ran
    obtain rfl := Except.ok.inj allocated
    exact blank_allocate initialized
  have params {t : MemState} (same : SameParameters s t) :
      StrideFits t ∧ t.len < 2 ^ 31 ∧ t.len % t.pagesize = 0 ∧ t.pagesize < t.line := by
    have fits' := fits.congr same
    obtain ⟨len, -, line, pagesize⟩ := same
    exact ⟨fits', by rwa [len], by rwa [len, pagesize], by rwa [line, pagesize]⟩
  obtain ⟨fits₁, short₁, whole₁, large₁⟩ := params same
  obtain ⟨s', -, linked, -, -, laid', same', blank'⟩ :=
    linkThrash_largeStride array fits₁ short₁ (laidOut room) whole₁ large₁ blank
  refine ⟨s', bind_eq_ok.mpr ⟨s₁, ran, (if_pos initialized).trans linked⟩, ?_⟩
  intro iterations intervals pos
  obtain ⟨fits₂, short₂, whole₂, large₂⟩ := params (same.trans same')
  obtain ⟨s₂, p, linked₂, start, unread, -⟩ :=
    linkThrash_largeStride array fits₂ short₂ laid' whole₂ large₂ blank'
  have again : thrashInitialize heap draws iterations s' = .ok s₂ :=
    bind_eq_ok.mpr ⟨s', if_pos (Nat.ne_of_gt pos), (if_pos laid'.initialized).trans linked₂⟩
  rw [measure, again]
  change (benchmarkLoads iterations s₂ >>= _) = _
  rw [benchmarkLoads_error start unread pos]
  rfl

/-- Two pages in a stride of two pages. -/
def twoPages : MemState :=
  { eightKilobytes with line := 8192, line_pos := by decide }

theorem thrash_largeStride_twoPages :
    ∃ s', thrashInitialize wideHeap ⟨1, id⟩ 0 twoPages = .ok s' ∧ ∀ iterations intervals, 0 < iterations →
      measure (thrashInitialize wideHeap ⟨1, id⟩) (iterations :: intervals) s' = .error .uninitialised :=
  thrash_largeStride ⟨1, id⟩ ⟨by decide, by decide, by decide, by decide⟩ (by decide) (by decide) (by decide)
    (by decide) rfl

end Numafac.LibMem
