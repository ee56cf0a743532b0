/-
Module: Numafac.Lmbench.ThrashChain
Layer: Lmbench
Purpose: The other initialization of `lat_mem_rd`, chosen with `-t`. In a range of whole pages
  `thrash_initialize` links every word of every page into one ring that changes the page with each load. In
  any other range it links the words of `words_initialize`; when their number is not a power of two the
  later turns of a word overwrite the pointers of the earlier ones, and the ring that is left holds only the
  words beyond the power of two.
Trusted boundary: the translation of `thrash_initialize`
Main exports: element, before, linkWords, linkPages, thrashInitialize
-/
import Mathlib.Data.Nat.ModEq
import Numafac.Lmbench.LoadWalk
import Numafac.Lmbench.WordOrder

namespace Numafac.LibMem

/-- An element behind a pointer that may be null. -/
def element (array : Option (CArray Nat)) (i : Nat) : CResult Nat :=
  match array with
  | none => .error .nullPointer
  | some a => a.read i

/-- `n - 1` of a `size_t`. -/
def before (n : Nat) : Nat :=
  (n + (2 ^ 64 - 1)) % 2 ^ 64

/-- The loop over the words of a range that is not a number of pages, and the store after it. -/
def linkWords (addr : Nat) (words : Option (CArray Nat)) (nwords : Nat) (block : Memory) :
    CResult Memory := do
  let block ← forRange 0 (before nwords) (fun block i => do
    let cur ← element words i
    let next ← element words (i + 1)
    block.storePointer (addr + cur) (addr + next)) block
  let last ← element words (before nwords)
  block.storePointer (addr + last) addr

/-- `for (j = 0; j < nwords; ++j)` from the page `cpage` to the page `npage`: the words begin with turn
`turn` on one page and with turn `turn'` on the other. -/
def linkPage (addr : Nat) (words : Option (CArray Nat)) (nwords cpage npage turn turn' : Nat)
    (block : Memory) : CResult Memory :=
  forRange 0 nwords (fun block j => do
    let w ← element words ((turn + j) % nwords)
    let w' ← element words ((turn' + j) % nwords)
    block.storePointer (addr + (cpage + w)) (addr + (npage + w'))) block

/-- The loops over the pages of a range. -/
def linkPages (addr : Nat) (pages words : Option (CArray Nat)) (npages nwords : Nat) (block : Memory) :
    CResult Memory := do
  let block ← forRange 0 (before npages) (fun block i => do
    let cpage ← element pages i
    let npage ← element pages (i + 1)
    linkPage addr words nwords cpage npage i (i + 1) block) block
  let cpage ← element pages (before npages)
  let npage ← element pages 0
  linkPage addr words nwords cpage npage (before npages) 1 block

/-- The circular list of `thrash_initialize`. -/
def linkThrash (heap : Heap) (s : MemState) : CResult MemState :=
  if s.len % s.pagesize ≠ 0 then do
    let nwords := s.len / s.line
    let words ← wordsInitialize heap nwords s.line
    let block ← linkWords s.base words nwords s.block
    pure { s with nwords, words, block, p := some s.base }
  else do
    let nwords := s.pagesize / s.line
    let words ← wordsInitialize heap nwords s.line
    let block ← linkPages s.base s.pages words s.npages nwords s.block
    let first ← element s.pages 0
    pure { s with nwords, words, block, p := some (s.base + first) }

/-- `thrash_initialize`. -/
def thrashInitialize (heap : Heap) (draws : Draws) (iterations : Nat) (s : MemState) : CResult MemState := do
  let s ← baseInitialize heap draws iterations s
  if s.initialized then linkThrash heap s else pure s

theorem before_eq {n : Nat} (pos : 0 < n) (small : n < 2 ^ 64) : before n = n - 1 := by
  unfold before
  omega

theorem element_filled {values : List Nat} {i : Nat} (inside : i < values.length) :
    element (some (CArray.filled values)) i = .ok values[i] :=
  CArray.read_filled inside

theorem element_wordOrder {nwords line i : Nat} (inside : i < nwords) :
    element (some (CArray.filled (wordOrder nwords line))) i = .ok (reverseBits nwords.log2 i * line) := by
  have length : i < (wordOrder nwords line).length := by simpa [wordOrder] using inside
  rw [element_filled length]
  simp [wordOrder]

/-! ### A range that is not a number of pages -/

/-- The address of a turn. -/
def wordCell (addr nwords line turn : Nat) : Nat :=
  addr + reverseBits nwords.log2 turn * line

/-- The number of turns in the ring that is left. -/
def turnCount (nwords : Nat) : Nat :=
  if nwords = 2 ^ nwords.log2 then nwords else nwords - 2 ^ nwords.log2

section Words

variable {addr nwords line : Nat}

theorem linkWords_eq (pos : 0 < nwords) (small : nwords < 2 ^ 64) (block : Memory) :
    linkWords addr (some (CArray.filled (wordOrder nwords line))) nwords block =
      block.storeAll (ringStores nwords (wordCell addr nwords line)) := by
  have first : wordCell addr nwords line 0 = addr := by
    rw [wordCell, reverseBits_zero, Nat.zero_mul, Nat.add_zero]
  have passes : ∀ block : Memory, ∀ i < nwords - 1, (do
      let cur ← element (some (CArray.filled (wordOrder nwords line))) i
      let next ← element (some (CArray.filled (wordOrder nwords line))) (i + 1)
      block.storePointer (addr + cur) (addr + next)) =
        block.storePointer (wordCell addr nwords line i) (wordCell addr nwords line (i + 1)) := by
    intro block i inside
    rw [element_wordOrder (by omega), element_wordOrder (by omega)]
    rfl
  rw [ringStores_eq pos, storeAll_append, first, linkWords, before_eq pos small,
    @forRange_stores (nwords - 1) _ (fun i => (wordCell addr nwords line i, wordCell addr nwords line (i + 1)))
      passes,
    element_wordOrder (Nat.sub_one_lt (Nat.ne_of_gt pos))]
  exact congrArg (block.storeAll _ >>= ·) (funext fun block => (storeAll_singleton block _ _).symm)

theorem turnCount_le (pos : 0 < nwords) : 0 < turnCount nwords ∧ turnCount nwords ≤ nwords := by
  have low := Nat.log2_self_le (Nat.ne_of_gt pos)
  have power := Nat.two_pow_pos nwords.log2
  unfold turnCount
  split
  · exact ⟨pos, Nat.le_refl _⟩
  · omega

theorem turnCount_le_power (pos : 0 < nwords) : turnCount nwords ≤ 2 ^ nwords.log2 := by
  have high := @Nat.lt_log2_self nwords
  unfold turnCount
  split
  · omega
  · rw [Nat.pow_succ] at high
    omega

theorem wordCell_eq_iff (positive : 0 < line) {i j : Nat} :
    wordCell addr nwords line i = wordCell addr nwords line j ↔
      i % 2 ^ nwords.log2 = j % 2 ^ nwords.log2 := by
  rw [← word_eq_iff positive]
  exact ⟨Nat.add_left_cancel, fun same => congrArg (addr + ·) same⟩

/-- The last turn of a word: the second one if it has two. -/
theorem exists_lastTurn (pos : 0 < nwords) {k : Nat} (inside : k < turnCount nwords) :
    ∃ turn < nwords, turn % 2 ^ nwords.log2 = k ∧ (turn + 1) % nwords % 2 ^ nwords.log2 =
      (k + 1) % turnCount nwords ∧ ∀ j, turn < j → j < nwords → j % 2 ^ nwords.log2 ≠ k := by
  have low := Nat.log2_self_le (Nat.ne_of_gt pos)
  have power := turnCount_le_power pos
  have high := @Nat.lt_log2_self nwords
  rw [Nat.pow_succ] at high
  unfold turnCount at *
  split at inside
  · rename_i full
    rw [if_pos full] at power ⊢
    refine ⟨k, inside, Nat.mod_eq_of_lt (by omega), ?_, ?_⟩
    · rw [← full, Nat.mod_mod]
    · intro j after before
      rw [← full, Nat.mod_eq_of_lt before]
      omega
  · rename_i more
    rw [if_neg more] at power ⊢
    refine ⟨2 ^ nwords.log2 + k, by omega, ?_, ?_, ?_⟩
    · rw [Nat.add_mod_left, Nat.mod_eq_of_lt (by omega)]
    · by_cases closes : k + 1 = nwords - 2 ^ nwords.log2
      · have round : 2 ^ nwords.log2 + k + 1 = nwords := by omega
        rw [round, Nat.mod_self, Nat.zero_mod, closes, Nat.mod_self]
      · rw [Nat.mod_eq_of_lt (by omega : 2 ^ nwords.log2 + k + 1 < nwords), Nat.add_assoc, Nat.add_mod_left,
          Nat.mod_eq_of_lt (by omega), Nat.mod_eq_of_lt (by omega)]
    · intro j after before same
      have split : j = 2 ^ nwords.log2 + (j - 2 ^ nwords.log2) := by omega
      rw [split, Nat.add_mod_left, Nat.mod_eq_of_lt (by omega)] at same
      omega

/-- The ring that the words leave. -/
theorem words_ring {s : MemState} (fits : StrideFits s) (laid : Laid s) (stride : s.line ≤ s.len) :
    ∃ block, linkWords s.base (some (CArray.filled (wordOrder (s.len / s.line) s.line))) (s.len / s.line)
        s.block = .ok block ∧ block.base = s.block.base ∧ block.size = s.block.size ∧
      Ring block.loadPointer (turnCount (s.len / s.line)) (wordCell s.base (s.len / s.line) s.line) := by
  have pos : 0 < s.len / s.line := Nat.div_pos stride s.line_pos
  have few : s.len / s.line * s.line ≤ s.len := Nat.div_mul_le_self _ _
  have low := Nat.log2_self_le (Nat.ne_of_gt pos)
  have within : ∀ turn, s.block.Inside (wordCell s.base (s.len / s.line) s.line turn) 8 ∧
      wordCell s.base (s.len / s.line) s.line turn < 2 ^ 64 := by
    intro turn
    have word := reverseBits_lt (s.len / s.line).log2 turn
    have offset : reverseBits (s.len / s.line).log2 turn * s.line ≤ s.len / s.line * s.line :=
      Nat.mul_le_mul_right _ (by omega)
    have room := fits.room
    have page := fits.page
    exact laid.inside (by omega)
  have small : s.len / s.line < 2 ^ 64 := by
    have bound := (within 0).2
    have short := Nat.div_le_self s.len s.line
    have high := laid.high
    have room := fits.room
    have inRange := laid.inRange
    omega
  rw [linkWords_eq pos small]
  apply exists_ring_of_lastStore
  · intro store member
    obtain ⟨k, -, rfl⟩ := mem_ringStores.mp member
    exact (within k).1
  · intro store member
    obtain ⟨k, -, rfl⟩ := mem_ringStores.mp member
    exact (within _).2
  · intro store member store' member'
    obtain ⟨i, -, rfl⟩ := mem_ringStores.mp member
    obtain ⟨j, -, rfl⟩ := mem_ringStores.mp member'
    exact eq_or_apart_of_stride fits.pointer _ _
  · exact (turnCount_le pos).1
  · intro i hi j hj same
    have turns := (wordCell_eq_iff s.line_pos).mp same
    have power := turnCount_le_power pos
    rwa [Nat.mod_eq_of_lt (by omega), Nat.mod_eq_of_lt (by omega)] at turns
  · intro k inside
    have power := turnCount_le_power pos
    have residue : k % 2 ^ (s.len / s.line).log2 = k := Nat.mod_eq_of_lt (by omega)
    have wrapped := Nat.mod_lt (k + 1) (turnCount_le pos).1
    obtain ⟨turn, ran, same, next, last⟩ := exists_lastTurn pos inside
    have here : wordCell s.base (s.len / s.line) s.line k = wordCell s.base (s.len / s.line) s.line turn :=
      (wordCell_eq_iff s.line_pos).mpr (residue.trans same.symm)
    have value : wordCell s.base (s.len / s.line) s.line ((k + 1) % turnCount (s.len / s.line)) =
        wordCell s.base (s.len / s.line) s.line ((turn + 1) % (s.len / s.line)) := by
      apply (wordCell_eq_iff s.line_pos).mpr
      rw [next, Nat.mod_eq_of_lt (by omega)]
    rw [here, value]
    apply lastStore_map_range ran
    intro j after before reached
    exact last j after before (((wordCell_eq_iff s.line_pos).mp reached).trans same)

end Words

/-! ### A range of whole pages -/

/-- The address of a turn on a page. -/
def slot (addr : Nat) (pages : List Nat) (nwords line i turn : Nat) : Nat :=
  addr + (pages.getD i 0 + reverseBits nwords.log2 (turn % nwords) * line)

/-- The cells of the ring: each lap over the pages begins with the next turn, and so does each page. -/
def pageCell (addr : Nat) (pages : List Nat) (npages nwords line k : Nat) : Nat :=
  slot addr pages nwords line (k % npages) (k % npages + k / npages)

section Pages

variable {addr : Nat} {pages : List Nat} {npages nwords line : Nat}

/-- The stores from one page to the next. -/
def pageStores (addr : Nat) (pages : List Nat) (npages nwords line i : Nat) : List (Nat × Nat) :=
  (List.range nwords).map fun j =>
    (pageCell addr pages npages nwords line (i + npages * j),
      pageCell addr pages npages nwords line ((i + npages * j + 1) % (npages * nwords)))

theorem pageCell_add {i : Nat} (inside : i < npages) (j : Nat) :
    pageCell addr pages npages nwords line (i + npages * j) = slot addr pages nwords line i (i + j) := by
  have pos : 0 < npages := by omega
  rw [pageCell, Nat.add_mul_mod_self_left, Nat.mod_eq_of_lt inside, Nat.add_mul_div_left _ _ pos,
    Nat.div_eq_of_lt inside, Nat.zero_add]

/-- The cell after a turn on a page that is not the last one. -/
theorem pageCell_next {i j : Nat} (inside : i + 1 < npages) (turn : j < nwords) :
    pageCell addr pages npages nwords line ((i + npages * j + 1) % (npages * nwords)) =
      slot addr pages nwords line (i + 1) (i + 1 + j) := by
  have below : npages * (j + 1) ≤ npages * nwords := Nat.mul_le_mul_left npages turn
  rw [Nat.mul_add_one] at below
  rw [Nat.add_right_comm, Nat.mod_eq_of_lt (by omega), pageCell_add inside]

/-- The cell after a turn on the last page. -/
theorem pageCell_wrap (pos : 0 < npages) (j : Nat) :
    pageCell addr pages npages nwords line ((npages - 1 + npages * j + 1) % (npages * nwords)) =
      slot addr pages nwords line 0 (1 + j) := by
  have total : npages - 1 + npages * j + 1 = 0 + npages * (j + 1) := by
    rw [Nat.mul_add_one]
    omega
  rw [total, Nat.zero_add, Nat.mul_mod_mul_left]
  have cell := @pageCell_add addr pages npages nwords line 0 pos ((j + 1) % nwords)
  rw [Nat.zero_add, Nat.zero_add] at cell
  rw [cell, slot, slot, Nat.mod_mod, Nat.add_comm 1 j]

theorem linkPage_eq {cpage npage turn turn' : Nat} {store : Nat → Nat × Nat}
    (stores : ∀ j < nwords, store j =
      (addr + (cpage + reverseBits nwords.log2 ((turn + j) % nwords) * line),
        addr + (npage + reverseBits nwords.log2 ((turn' + j) % nwords) * line))) (block : Memory) :
    linkPage addr (some (CArray.filled (wordOrder nwords line))) nwords cpage npage turn turn' block =
      block.storeAll ((List.range nwords).map store) := by
  apply forRange_stores
  intro block j inside
  have pos : 0 < nwords := by omega
  rw [element_wordOrder (Nat.mod_lt _ pos), element_wordOrder (Nat.mod_lt _ pos), stores j inside]
  rfl

theorem element_pages {i : Nat} (inside : i < pages.length) :
    element (some (CArray.filled pages)) i = .ok (pages.getD i 0) := by
  rw [element_filled inside, List.getD_eq_getElem _ _ inside]

theorem linkPages_eq (pos : 0 < npages) (small : npages < 2 ^ 64) (enough : npages ≤ pages.length)
    (block : Memory) :
    linkPages addr (some (CArray.filled pages)) (some (CArray.filled (wordOrder nwords line))) npages nwords
        block =
      block.storeAll ((List.range npages).flatMap (pageStores addr pages npages nwords line)) := by
  have rows : ∀ block : Memory, ∀ i < npages - 1, (do
      let cpage ← element (some (CArray.filled pages)) i
      let npage ← element (some (CArray.filled pages)) (i + 1)
      linkPage addr (some (CArray.filled (wordOrder nwords line))) nwords cpage npage i (i + 1) block) =
        block.storeAll (pageStores addr pages npages nwords line i) := by
    intro block i inside
    rw [element_pages (by omega), element_pages (by omega)]
    apply linkPage_eq
    intro j turn
    rw [pageCell_add (by omega), pageCell_next (by omega) turn]
    rfl
  have last : ∀ block : Memory, (do
      let cpage ← element (some (CArray.filled pages)) (npages - 1)
      let npage ← element (some (CArray.filled pages)) 0
      linkPage addr (some (CArray.filled (wordOrder nwords line))) nwords cpage npage (npages - 1) 1 block) =
        block.storeAll (pageStores addr pages npages nwords line (npages - 1)) := by
    intro block
    rw [element_pages (by omega), element_pages (by omega)]
    apply linkPage_eq
    intro j turn
    rw [pageCell_add (by omega), pageCell_wrap pos j]
    rfl
  obtain ⟨rest, rfl⟩ : ∃ rest, npages = rest + 1 := ⟨npages - 1, by omega⟩
  rw [linkPages, before_eq pos small, forRange_storeRows rows, List.range_succ, List.flatMap_append,
    storeAll_append]
  refine congrArg (block.storeAll _ >>= ·) (funext fun block => ?_)
  rw [last, List.flatMap_singleton, Nat.add_sub_cancel]

end Pages

/-- The page at a place of the order. -/
theorem page_of_perm {pages : List Nat} {count pagesize : Nat} (perm : pages.Perm (offsets count pagesize))
    {i : Nat} (inside : i < count) : ∃ q < count, pages.getD i 0 = q * pagesize := by
  have length : i < pages.length := by
    rw [perm.length_eq]
    simpa [offsets] using inside
  have member := perm.mem_iff.mp (List.getElem_mem length)
  obtain ⟨q, small, same⟩ := List.mem_map.mp member
  rw [List.getD_eq_getElem _ _ length]
  exact ⟨q, List.mem_range.mp small, same.symm⟩

/-- Different places of the order hold different pages. -/
theorem page_injective {pages : List Nat} {count pagesize : Nat} (pos : 0 < pagesize)
    (perm : pages.Perm (offsets count pagesize)) {i j : Nat} (hi : i < count) (hj : j < count)
    (same : pages.getD i 0 = pages.getD j 0) : i = j := by
  have nodup : (offsets count pagesize).Nodup := by
    apply List.Nodup.map_on _ List.nodup_range
    exact fun i _ j _ same => Nat.eq_of_mul_eq_mul_right pos same
  have length : pages.length = count := by
    rw [perm.length_eq]
    simp [offsets]
  rw [List.getD_eq_getElem _ _ (by omega), List.getD_eq_getElem _ _ (by omega)] at same
  exact (perm.nodup_iff.mpr nodup).getElem_inj_iff.mp same

/-- Words on pages: equal, or so far apart that pointers do not overlap. -/
theorem eq_or_apart_of_pages {base pagesize line q q' r r' : Nat} (pointer : 8 ≤ line)
    (fits : r * line + line ≤ pagesize) (fits' : r' * line + line ≤ pagesize) :
    q = q' ∧ r = r' ∨ Apart 8 (base + (q * pagesize + r * line)) (base + (q' * pagesize + r' * line)) := by
  rcases Nat.lt_trichotomy q q' with less | rfl | more
  · have room : (q + 1) * pagesize ≤ q' * pagesize := Nat.mul_le_mul_right pagesize less
    rw [Nat.add_one_mul] at room
    exact Or.inr (Or.inl (by omega))
  · rcases Nat.lt_trichotomy r r' with less | rfl | more
    · have room : (r + 1) * line ≤ r' * line := Nat.mul_le_mul_right line less
      rw [Nat.add_one_mul] at room
      exact Or.inr (Or.inl (by omega))
    · exact Or.inl ⟨rfl, rfl⟩
    · have room : (r' + 1) * line ≤ r * line := Nat.mul_le_mul_right line more
      rw [Nat.add_one_mul] at room
      exact Or.inr (Or.inr (by omega))
  · have room : (q' + 1) * pagesize ≤ q * pagesize := Nat.mul_le_mul_right pagesize more
    rw [Nat.add_one_mul] at room
    exact Or.inr (Or.inr (by omega))

section PageRing

variable {addr : Nat} {pages : List Nat} {npages nwords line count pagesize : Nat}

/-- A cell by its page and its word. -/
theorem pageCell_split (pos : 0 < npages) (power : nwords = 2 ^ nwords.log2)
    (room : nwords * line ≤ pagesize) (enough : npages ≤ count)
    (perm : pages.Perm (offsets count pagesize)) (k : Nat) :
    ∃ q < count, ∃ r, pages.getD (k % npages) 0 = q * pagesize ∧
      r = reverseBits nwords.log2 ((k % npages + k / npages) % nwords) ∧ r * line + line ≤ pagesize ∧
      pageCell addr pages npages nwords line k = addr + (q * pagesize + r * line) := by
  have place : k % npages < count := (Nat.mod_lt _ pos).trans_le enough
  have word := reverseBits_lt nwords.log2 ((k % npages + k / npages) % nwords)
  obtain ⟨q, small, page⟩ := page_of_perm perm place
  refine ⟨q, small, _, page, rfl, ?_, by rw [pageCell, slot, page]⟩
  have fits : (reverseBits nwords.log2 ((k % npages + k / npages) % nwords) + 1) * line ≤ nwords * line :=
    Nat.mul_le_mul_right line (by omega)
  rw [Nat.add_one_mul] at fits
  omega

/-- Cells of the ring that are on one page and one word are one cell. -/
theorem cell_of_place (power : nwords = 2 ^ nwords.log2) {k k' : Nat}
    (inside : k < npages * nwords) (inside' : k' < npages * nwords) (page : k % npages = k' % npages)
    (word : reverseBits nwords.log2 ((k % npages + k / npages) % nwords) =
      reverseBits nwords.log2 ((k' % npages + k' / npages) % nwords)) : k = k' := by
  have turns := reverseBits_eq_iff.mp word
  rw [← power, Nat.mod_mod, Nat.mod_mod, page] at turns
  have lap : k / npages % nwords = k' / npages % nwords := Nat.ModEq.add_left_cancel' _ turns
  rw [Nat.mod_eq_of_lt (Nat.div_lt_of_lt_mul inside), Nat.mod_eq_of_lt (Nat.div_lt_of_lt_mul inside')] at lap
  rw [← Nat.mod_add_div k npages, ← Nat.mod_add_div k' npages, page, lap]

/-- Cells of the ring are one cell, or their pointers do not overlap. -/
theorem pageCell_eq_or_apart (pos : 0 < npages) (power : nwords = 2 ^ nwords.log2) (pointer : 8 ≤ line)
    (room : nwords * line ≤ pagesize) (enough : npages ≤ count)
    (perm : pages.Perm (offsets count pagesize)) {k k' : Nat} (inside : k < npages * nwords)
    (inside' : k' < npages * nwords) :
    k = k' ∨ Apart 8 (pageCell addr pages npages nwords line k)
      (pageCell addr pages npages nwords line k') := by
  obtain ⟨q, -, r, page, word, fits, cell⟩ :=
    @pageCell_split addr pages npages nwords line count pagesize pos power room enough perm k
  obtain ⟨q', -, r', page', word', fits', cell'⟩ :=
    @pageCell_split addr pages npages nwords line count pagesize pos power room enough perm k'
  rw [cell, cell']
  rcases @eq_or_apart_of_pages addr pagesize line q q' r r' pointer fits fits' with ⟨rfl, rfl⟩ | apart
  · left
    have positive : 0 < pagesize := by omega
    have place := page_injective positive perm ((Nat.mod_lt k pos).trans_le enough)
      ((Nat.mod_lt k' pos).trans_le enough) (page.trans page'.symm)
    exact cell_of_place power inside inside' place (word.symm.trans word')
  · exact Or.inr apart

/-- Consecutive cells are on different pages. -/
theorem page_changes (several : 1 < npages) (power : nwords = 2 ^ nwords.log2)
    (positive : 0 < line) (room : nwords * line ≤ pagesize) (enough : npages ≤ count)
    (perm : pages.Perm (offsets count pagesize)) (aligned : addr % pagesize = 0) (k : Nat) :
    pageCell addr pages npages nwords line k / pagesize ≠
      pageCell addr pages npages nwords line (k + 1) / pagesize := by
  have pos : 0 < npages := by omega
  obtain ⟨q, -, r, page, -, fits, cell⟩ :=
    @pageCell_split addr pages npages nwords line count pagesize pos power room enough perm k
  obtain ⟨q', -, r', page', -, fits', cell'⟩ :=
    @pageCell_split addr pages npages nwords line count pagesize pos power room enough perm (k + 1)
  have nonempty : 0 < pagesize := by omega
  obtain ⟨base, rfl⟩ := Nat.dvd_of_mod_eq_zero aligned
  have number : ∀ q r : Nat, r * line + line ≤ pagesize →
      (pagesize * base + (q * pagesize + r * line)) / pagesize = base + q := by
    intro q r fits
    rw [Nat.mul_comm pagesize base, ← Nat.add_assoc, ← Nat.add_mul, Nat.add_comm _ (r * line),
      Nat.add_mul_div_right _ _ nonempty, Nat.div_eq_of_lt (by omega), Nat.zero_add]
  rw [cell, cell', number q r fits, number q' r' fits']
  intro same
  obtain rfl : q = q' := Nat.add_left_cancel same
  have place := page_injective nonempty perm ((Nat.mod_lt k pos).trans_le enough)
    ((Nat.mod_lt (k + 1) pos).trans_le enough) (page.trans page'.symm)
  have next : (k + 1) % npages = (k % npages + 1) % npages := (Nat.mod_add_mod k npages 1).symm
  have small := Nat.mod_lt k pos
  rw [next] at place
  by_cases last : k % npages + 1 = npages
  · rw [last, Nat.mod_self] at place
    omega
  · rw [Nat.mod_eq_of_lt (show k % npages + 1 < npages by omega)] at place
    omega

end PageRing

/-- The number of pages of a range of whole pages. -/
theorem npages_of_whole {s : MemState} (fits : StrideFits s) (whole : s.len % s.pagesize = 0) :
    (s.len + s.pagesize - 1) / s.pagesize = s.len / s.pagesize ∧ 0 < s.len / s.pagesize ∧
      s.len / s.pagesize ≤ (s.maxlen + s.pagesize - 1) / s.pagesize := by
  have positive := s.pagesize_pos
  have nonempty := fits.nonempty
  have room := fits.room
  obtain ⟨pages, total⟩ := Nat.dvd_of_mod_eq_zero whole
  rw [total] at nonempty room ⊢
  have some : 0 < pages := Nat.pos_of_mul_pos_left nonempty
  have quotient : (s.pagesize * pages + s.pagesize - 1) / s.pagesize = pages := by
    rw [Nat.add_sub_assoc positive, Nat.mul_add_div positive, Nat.div_eq_of_lt (by omega), Nat.add_zero]
  rw [quotient, Nat.mul_div_cancel_left _ positive]
  refine ⟨rfl, some, ?_⟩
  calc pages = (s.pagesize * pages + s.pagesize - 1) / s.pagesize := quotient.symm
    _ ≤ (s.maxlen + s.pagesize - 1) / s.pagesize := Nat.div_le_div_right (by omega)

/-- The ring that the pages leave. -/
theorem pages_ring {s : MemState} {pages : List Nat} (fits : StrideFits s) (short : s.len < 2 ^ 31)
    (laid : Laid s) (ordered : s.pages = some (CArray.filled pages))
    (perm : pages.Perm (offsets ((s.maxlen + s.pagesize - 1) / s.pagesize) s.pagesize))
    (whole : s.len % s.pagesize = 0) (word : s.line ≤ s.pagesize)
    (power : s.pagesize / s.line = 2 ^ (s.pagesize / s.line).log2) :
    ∃ block, linkPages s.base s.pages (some (CArray.filled (wordOrder (s.pagesize / s.line) s.line))) s.npages
        (s.pagesize / s.line) s.block = .ok block ∧ block.base = s.block.base ∧ block.size = s.block.size ∧
      Ring block.loadPointer (s.npages * (s.pagesize / s.line))
        (pageCell s.base pages s.npages (s.pagesize / s.line) s.line) := by
  obtain ⟨npages, pos, enough⟩ := npages_of_whole fits whole
  rw [← npages, ← laid.npages_eq short] at pos enough
  have some : 0 < s.pagesize / s.line := Nat.div_pos word s.line_pos
  have room : s.pagesize / s.line * s.line ≤ s.pagesize := Nat.div_mul_le_self _ _
  have total : 0 < s.npages * (s.pagesize / s.line) := Nat.mul_pos pos some
  have length : s.npages ≤ pages.length := by
    rw [perm.length_eq]
    simpa [offsets] using enough
  have separate := @pageCell_eq_or_apart s.base pages s.npages (s.pagesize / s.line) s.line _ s.pagesize
    pos power fits.pointer room enough perm
  have within : ∀ k, s.block.Inside (pageCell s.base pages s.npages (s.pagesize / s.line) s.line k) 8 ∧
      pageCell s.base pages s.npages (s.pagesize / s.line) s.line k < 2 ^ 64 := by
    intro k
    obtain ⟨q, small, r, -, -, inPage, cell⟩ := @pageCell_split s.base pages s.npages (s.pagesize / s.line)
      s.line _ s.pagesize pos power room enough perm k
    have below : (q + 1) * s.pagesize ≤ (s.maxlen + s.pagesize - 1) / s.pagesize * s.pagesize :=
      Nat.mul_le_mul_right _ small
    have few := Nat.div_mul_le_self (s.maxlen + s.pagesize - 1) s.pagesize
    have pointer := fits.pointer
    rw [Nat.add_one_mul] at below
    rw [cell]
    exact laid.inside (by omega)
  have small : s.npages < 2 ^ 64 := by
    have fewer := Nat.div_le_self s.len s.pagesize
    rw [laid.npages_eq short, npages]
    omega
  have stored : ∀ store ∈ (List.range s.npages).flatMap
      (pageStores s.base pages s.npages (s.pagesize / s.line) s.line),
      ∃ k < s.npages * (s.pagesize / s.line),
        store = (pageCell s.base pages s.npages (s.pagesize / s.line) s.line k,
          pageCell s.base pages s.npages (s.pagesize / s.line) s.line
            ((k + 1) % (s.npages * (s.pagesize / s.line)))) := by
    intro store member
    obtain ⟨i, page, member⟩ := List.mem_flatMap.mp member
    obtain ⟨j, turn, rfl⟩ := List.mem_map.mp member
    have below : s.npages * (j + 1) ≤ s.npages * (s.pagesize / s.line) :=
      Nat.mul_le_mul_left _ (List.mem_range.mp turn)
    rw [Nat.mul_add_one] at below
    have first := List.mem_range.mp page
    exact ⟨i + s.npages * j, by omega, rfl⟩
  rw [ordered, linkPages_eq pos small length]
  apply exists_ring_of_lastStore
  · intro store member
    obtain ⟨k, -, rfl⟩ := stored store member
    exact (within k).1
  · intro store member
    obtain ⟨k, -, rfl⟩ := stored store member
    exact (within _).2
  · intro store member store' member'
    obtain ⟨k, inside, rfl⟩ := stored store member
    obtain ⟨k', inside', rfl⟩ := stored store' member'
    exact (separate inside inside').imp (fun same => by rw [same]) id
  · exact total
  · intro k inside k' inside' same
    rcases separate inside inside' with equal | apart
    · exact equal
    · rw [same] at apart
      rcases apart with low | high
      · omega
      · omega
  · intro k inside
    apply lastStore_of_unique
    · refine List.mem_flatMap.mpr ⟨k % s.npages, List.mem_range.mpr (Nat.mod_lt k pos), ?_⟩
      refine List.mem_map.mpr ⟨k / s.npages, List.mem_range.mpr (Nat.div_lt_of_lt_mul inside), ?_⟩
      rw [Nat.mod_add_div]
    · intro v member
      obtain ⟨k', inside', same⟩ := stored _ member
      obtain ⟨address, value⟩ := Prod.mk.inj same
      rcases separate inside inside' with rfl | apart
      · exact value
      · rw [address] at apart
        rcases apart with low | high
        · omega
        · omega

/-! ### The results -/

/-- What the order of the words needs: a range below two gigabytes, a stride within the range, and in a range
of whole pages a page of a power of two of words. -/
structure ThrashFits (s : MemState) : Prop extends StrideFits s where
  short : s.len < 2 ^ 31
  stride : s.line ≤ s.len
  words : s.len % s.pagesize = 0 →
    s.line ≤ s.pagesize ∧ s.pagesize / s.line = 2 ^ (s.pagesize / s.line).log2

theorem ThrashFits.congr {s s' : MemState} (fits : ThrashFits s) (same : SameParameters s s') :
    ThrashFits s' := by
  have strides := fits.toStrideFits.congr same
  obtain ⟨-, short, stride, words⟩ := fits
  obtain ⟨len, maxlen, line, pagesize⟩ := same
  exact ⟨strides, by rwa [len], by rwa [len, line], by rwa [len, line, pagesize]⟩

/-- The number of cells in the ring. -/
def thrashLength (s : MemState) : Nat :=
  if s.len % s.pagesize ≠ 0 then turnCount (s.len / s.line)
  else s.len / s.pagesize * (s.pagesize / s.line)

/-- The cells of the ring, with the order of the pages. -/
def thrashCell (s : MemState) (base : Nat) (pages : List Nat) (k : Nat) : Nat :=
  if s.len % s.pagesize ≠ 0 then wordCell base (s.len / s.line) s.line k
  else pageCell base pages (s.len / s.pagesize) (s.pagesize / s.line) s.line k

/-- On a buffer that is laid out the list is linked. -/
theorem linkThrash_chained {heap : Heap} (array : heap.wordArray = true) {s : MemState} {pages : List Nat}
    (fits : ThrashFits s) (laid : Laid s) (ordered : s.pages = some (CArray.filled pages))
    (perm : pages.Perm (offsets ((s.maxlen + s.pagesize - 1) / s.pagesize) s.pagesize)) :
    ∃ s', linkThrash heap s = .ok s' ∧ Chained s' (thrashLength s) (thrashCell s s.base pages) ∧
      SameParameters s s' ∧ s'.base = s.base ∧ s'.pages = s.pages := by
  have short := fits.short
  unfold linkThrash thrashLength
  by_cases partPage : s.len % s.pagesize ≠ 0
  · obtain ⟨block, linked, base, size, ring⟩ := words_ring fits.toStrideFits laid fits.stride
    have laid' := ((laid.setBlock base size).setWords (s.len / s.line)
      (some (CArray.filled (wordOrder (s.len / s.line) s.line)))).setPointer (some s.base)
    have cell : thrashCell s s.base pages = wordCell s.base (s.len / s.line) s.line :=
      funext fun k => if_pos partPage
    have few : s.len / s.line < 2 ^ 32 := (Nat.div_le_self _ _).trans_lt (by omega)
    rw [if_pos partPage, if_pos partPage, cell]
    refine ⟨_, bind_eq_ok.mpr ⟨_, wordsInitialize_eq array few _, bind_eq_ok.mpr ⟨block, linked, rfl⟩⟩,
      ⟨laid', ?_, ring⟩, ⟨rfl, rfl, rfl, rfl⟩, rfl, rfl⟩
    rw [wordCell, reverseBits_zero, Nat.zero_mul, Nat.add_zero]
  · have whole := not_not.mp partPage
    obtain ⟨word, power⟩ := fits.words whole
    obtain ⟨count, pos, enough⟩ := npages_of_whole fits.toStrideFits whole
    obtain ⟨block, linked, base, size, ring⟩ :=
      pages_ring fits.toStrideFits short laid ordered perm whole word power
    have laid' := ((laid.setBlock base size).setWords (s.pagesize / s.line)
      (some (CArray.filled (wordOrder (s.pagesize / s.line) s.line)))).setPointer
        (some (s.base + pages.getD 0 0))
    have nonempty : 0 < pages.length := by
      rw [perm.length_eq]
      simp only [offsets, List.length_map, List.length_range]
      omega
    have first : element s.pages 0 = .ok (pages.getD 0 0) := by
      rw [ordered, element_pages nonempty]
    have cell : thrashCell s s.base pages =
        pageCell s.base pages (s.len / s.pagesize) (s.pagesize / s.line) s.line :=
      funext fun k => if_neg partPage
    have few : s.pagesize / s.line < 2 ^ 32 :=
      (Nat.div_le_self _ _).trans_lt (s.pagesize_int.trans (by decide))
    rw [laid.npages_eq short, count] at ring
    rw [if_neg partPage, if_neg partPage, cell]
    refine ⟨_, bind_eq_ok.mpr ⟨_, wordsInitialize_eq array few _, bind_eq_ok.mpr ⟨block, linked,
      bind_eq_ok.mpr ⟨_, first, rfl⟩⟩⟩, ⟨laid', ?_, ring⟩, ⟨rfl, rfl, rfl, rfl⟩, rfl, rfl⟩
    rw [pageCell, slot, Nat.zero_mod, Nat.zero_div, Nat.zero_mod, reverseBits_zero, Nat.zero_mul, Nat.add_zero]

/-- The first call. -/
theorem exists_thrashChain {heap : Heap} (draws : Draws) {s : MemState} (fits : ThrashFits s)
    (room : heap.hasRoom s = true) (array : heap.wordArray = true) :
    ∃ s' pages, thrashInitialize heap draws 0 s = .ok s' ∧ SameParameters s s' ∧
      s'.pages = some (CArray.filled pages) ∧
      pages.Perm (offsets ((s.maxlen + s.pagesize - 1) / s.pagesize) s.pagesize) ∧
      Chained s' (thrashLength s) (thrashCell s s'.base pages) := by
  obtain ⟨s₁, ran, same, initialized, laidOut⟩ :=
    baseInitialize_spec heap draws (s := s) (fits.nonempty.trans_le fits.room)
  rw [room] at initialized
  have laid := laidOut room
  obtain ⟨pages, ordered, perm⟩ := laid.ordered
  obtain ⟨s', linked, chained, same', base, kept⟩ :=
    linkThrash_chained array (fits.congr same) laid ordered perm
  obtain ⟨len, maxlen, line, pagesize⟩ := id same
  have length : thrashLength s₁ = thrashLength s := by rw [thrashLength, thrashLength, len, line, pagesize]
  have cell : thrashCell s₁ s₁.base pages = thrashCell s s'.base pages := by
    funext k
    rw [thrashCell, thrashCell, len, line, pagesize, base]
  rw [maxlen, pagesize] at perm
  rw [length, cell] at chained
  refine ⟨s', pages, bind_eq_ok.mpr ⟨s₁, ran, ?_⟩, same.trans same', kept.trans ordered, perm, chained⟩
  rw [if_pos initialized]
  exact linked

/-- In a range of whole pages below two gigabytes the walk from `p[0]` reads every word of every page of the
range once before it is back, and, if there is more than one page, each load is on another page than the one
before it. -/
theorem thrashInitialize_pages {heap : Heap} (draws : Draws) {s : MemState} (fits : StrideFits s)
    (short : s.len < 2 ^ 31) (stride : s.line ≤ s.len) (whole : s.len % s.pagesize = 0)
    (word : s.line ≤ s.pagesize)
    (power : ∃ b, s.pagesize / s.line = 2 ^ b) (room : heap.hasRoom s = true)
    (array : heap.wordArray = true) :
    ∃ s' pages, thrashInitialize heap draws 0 s = .ok s' ∧
      pages.Perm (offsets ((s.maxlen + s.pagesize - 1) / s.pagesize) s.pagesize) ∧
      let npages := s.len / s.pagesize
      let nwords := s.pagesize / s.line
      let cell := pageCell s'.base pages npages nwords s.line
      s'.p = some (cell 0) ∧ ((List.range (npages * nwords)).map cell).Nodup ∧
        chase s'.block.loadPointer (npages * nwords) (cell 0) =
          .ok ((List.range (npages * nwords)).map cell, cell 0) ∧
        (1 < npages → ∀ k, cell k / s.pagesize ≠ cell (k + 1) / s.pagesize) := by
  have power' : s.pagesize / s.line = 2 ^ (s.pagesize / s.line).log2 := by
    obtain ⟨b, same⟩ := power
    rw [same, Nat.log2_two_pow]
  obtain ⟨s', pages, ran, same, -, perm, chained⟩ :=
    exists_thrashChain draws ⟨fits, short, stride, fun _ => ⟨word, power'⟩⟩ room array
  have part : ¬ s.len % s.pagesize ≠ 0 := not_not.mpr whole
  have length : thrashLength s = s.len / s.pagesize * (s.pagesize / s.line) := if_neg part
  have cell : thrashCell s s'.base pages =
      pageCell s'.base pages (s.len / s.pagesize) (s.pagesize / s.line) s.line := funext fun k => if_neg part
  have aligned := chained.laid.aligned
  obtain ⟨-, -, -, pagesize⟩ := same
  rw [length, cell] at chained
  rw [pagesize] at aligned
  refine ⟨s', pages, ran, perm, chained.start, chained.ring.nodup_lap, chained.ring.lap, ?_⟩
  intro several k
  exact page_changes several power' s.line_pos (Nat.div_mul_le_self _ _) (npages_of_whole fits whole).2.2 perm
    aligned k

/-- Eight kilobytes of the same buffer. -/
def eightKilobytes : MemState :=
  { threeKilobytes with len := 8192 }

theorem thrashInitialize_pages_eightKilobytes :
    ∃ s' pages, thrashInitialize wideHeap ⟨1, id⟩ 0 eightKilobytes = .ok s' ∧
      pages.Perm (offsets 256 4096) ∧
      let cell := pageCell s'.base pages 2 16 256
      s'.p = some (cell 0) ∧ ((List.range 32).map cell).Nodup ∧
        chase s'.block.loadPointer 32 (cell 0) = .ok ((List.range 32).map cell, cell 0) ∧
        (1 < 2 → ∀ k, cell k / 4096 ≠ cell (k + 1) / 4096) :=
  thrashInitialize_pages ⟨1, id⟩ (s := eightKilobytes) ⟨by decide, by decide, by decide, by decide⟩
    (by decide) (by decide) (by decide) (by decide) ⟨4, by decide⟩ (by decide) rfl

end Numafac.LibMem
