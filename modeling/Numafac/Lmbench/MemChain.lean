/-
Module: Numafac.Lmbench.MemChain
Layer: Lmbench
Purpose: The list that the programs about caches walk along. `mem_initialize` links the lines of the pages,
  page after page, once for every word of a line, and points some pointers into this list. When it sets all
  of its pointers the links are one ring through all words of the lines (`memInitialize_chain`), and it has
  a result only then (`memInitialize_returns_iff`).
Trusted boundary: the translation of `mem_initialize` and of `mem_benchmark_N`; counts that are an `int`
Main exports: ChainState, linkChain, memBenchmarks, memInitialize, ChainFits, rangeLines, rangeLinks,
  chainCell, ChainLinked, exists_chainLinked, memInitialize_chain, memInitialize_returns_iff
-/
import Numafac.Lmbench.LineChain

namespace Numafac.LibMem

/-- The state of `mem_initialize`; its `p` is the whole array of start pointers. -/
structure ChainState extends LineState where
  width : Nat
  p : CArray Nat

/-- `MAX_MEM_PARALLELISM`. -/
def maxMemParallelism : Nat := 16

/-- `p + pages[i] + lines[j]`, without `p`. -/
def lineOffset (pages lines : Option (CArray Nat)) (i j : Nat) : CResult Nat := do
  let page ← element pages i
  let line ← element lines j
  pure (page + line)

/-- The links from each word of a line to the same word of the next line. -/
def linkWordsOf (m : MemState) (lines : Option (CArray Nat)) (i j : Nat) (block : Memory) : CResult Memory :=
  forRange 0 ((m.line + 7) / 8) (fun block c => do
    let here ← lineOffset m.pages lines i j
    let next ← lineOffset m.pages lines i (j + 1)
    block.storePointer (m.base + (here + c * 8)) (m.base + (next + c * 8))) block

/-- `state->p[k] = ...` when the number of links `l` has reached a multiple of the part for one pointer. -/
def setStart (m : MemState) (lines : Option (CArray Nat)) (width npointers i j l : Nat) (p : CArray Nat) :
    CResult (CArray Nat) :=
  let part := npointers / width
  if part = 0 then .error .noValue
  else if l % part = 0 ∧ l / part < maxMemParallelism then do
    let here ← lineOffset m.pages lines i j
    let word ← element m.words (l / part % m.nwords)
    p.write (l / part) (m.base + (here + word))
  else .ok p

/-- What the loops over the pages change. -/
structure ChainWalk where
  j : Nat
  l : Nat
  block : Memory
  p : CArray Nat

/-- The loop over the lines of a page, with so many of them left before the last one. -/
def linkPageLines (m : MemState) (lines : Option (CArray Nat)) (width npointers i : Nat) :
    Nat → ChainWalk → CResult ChainWalk
  | 0, w => .ok w
  | rest + 1, w =>
      if w.l + 1 < npointers then do
        let block ← linkWordsOf m lines i w.j w.block
        let p ← setStart m lines width npointers i w.j w.l w.p
        linkPageLines m lines width npointers i rest ⟨w.j + 1, w.l + 1, block, p⟩
      else .ok w

/-- The links from each word of a line to a word of the first line of a page. -/
def linkAcross (m : MemState) (lines : Option (CArray Nat)) (i j i' : Nat) (nw : Nat → Nat) (block : Memory) :
    CResult Memory :=
  forRange 0 m.nwords (fun block k => do
    let here ← lineOffset m.pages lines i j
    let word ← element m.words k
    let next ← lineOffset m.pages lines i' 0
    let word' ← element m.words (nw k)
    block.storePointer (m.base + (here + word)) (m.base + (next + word'))) block

/-- One pass of the loop over the pages. -/
def linkChainPage (m : MemState) (lines : Option (CArray Nat)) (width npointers : Nat)
    (w : ChainWalk) (i : Nat) :
    CResult ChainWalk := do
  let w ← linkPageLines m lines width npointers i (m.nlines - 1) { w with j := 0 }
  if i + 1 < m.npages then do
    let block ← linkAcross m lines i w.j (i + 1) id w.block
    pure { w with block }
  else pure w

/-- The loops over the pages, and the one that leads from each word of the last line to the next word of the
first line. -/
def linkChain (m : MemState) (lines : Option (CArray Nat)) (width npointers : Nat) (p : CArray Nat) :
    CResult (Memory × CArray Nat) := do
  let w ← forRange 0 m.npages (linkChainPage m lines width npointers) ⟨0, 0, m.block, p⟩
  let block ← linkAcross m lines (before m.npages) w.j 0
    (fun k => if k = m.nwords - 1 then 0 else k + 1) w.block
  pure (block, w.p)

/-- `mem_benchmark_N` with `N = width - 1`, behind `mem_reset`: the addresses that its pointers load from,
step by step. -/
def memBenchmarks (width iterations : Nat) (block : Memory) (p : CArray Nat) : CResult (List (List Nat)) :=
  if 0 < width ∧ width ≤ maxMemParallelism then do
    let starts ← (List.range width).mapM p.read
    let (loaded, _) ← chaseRounds (fun ps => ps.mapM block.loadPointer) iterations 100 ([], starts)
    pure loaded
  else .error .outOfBounds

/-- The part of `mem_initialize` behind its allocations, with the addresses that it loads to clear the
cache. -/
def linkAndClear (m : MemState) (lines : Option (CArray Nat)) (s : ChainState) :
    CResult (List (List Nat) × ChainState) := do
  let npointers := m.len / m.line
  let (block, p) ← linkChain m lines s.width npointers s.p
  let loaded ← memBenchmarks s.width ((m.nwords * npointers + 100) / 100) block p
  pure (loaded, { s with mem := { m with block }, lines, p })

/-- `mem_initialize`. -/
def memInitialize (heap : Heap) (draws : Draws) (iterations : Nat) (s : ChainState) :
    CResult (List (List Nat) × ChainState) :=
  if iterations ≠ 0 then .ok ([], s)
  else do
    let m ← baseInitialize heap draws iterations s.mem
    if m.initialized then
      let words ← wordsInitialize heap m.nwords 8
      let lines ← wordsInitialize heap m.nlines m.line
      if words.isNone ∨ lines.isNone then
        pure ([], { s with mem := { m with initialized := false, words }, lines })
      else linkAndClear { m with words } lines s
    else pure ([], { s with mem := m, lines := none })

/-! ### The cells -/

/-- The address of a word in a line of a page. -/
def wordAt (m : MemState) (pages : List Nat) (i j offset : Nat) : Nat :=
  m.base + (pages.getD i 0 + reverseBits m.nlines.log2 j * m.line + offset)

/-- The offset of the word in turn. -/
def wordOffset (m : MemState) (k : Nat) : Nat :=
  reverseBits m.nwords.log2 k * 8

/-- A buffer with the orders of its pages, of their lines and of the words of these. -/
structure ChainOrders (m : MemState) (pages : List Nat) : Prop where
  lines : LineOrders m pages
  line : m.line = m.nwords * 8
  power : m.nwords = 2 ^ m.nwords.log2
  words : m.words = some (CArray.filled (wordOrder m.nwords 8))

section Cells

variable {m : MemState} {pages : List Nat} {i j i' j' c c' : Nat}

theorem ChainOrders.nwords_pos (orders : ChainOrders m pages) : 0 < m.nwords := by
  rw [orders.power]
  exact Nat.two_pow_pos _

theorem ChainOrders.reverse_lt (orders : ChainOrders m pages) (c : Nat) :
    reverseBits m.nwords.log2 c < m.nwords := by
  have small := reverseBits_lt m.nwords.log2 c
  rwa [← orders.power] at small

theorem ChainOrders.wordOffset_lt (orders : ChainOrders m pages) (k : Nat) :
    ∃ c < m.nwords, wordOffset m k = c * 8 :=
  ⟨_, orders.reverse_lt k, rfl⟩

theorem ChainOrders.wordOffset_reverse (orders : ChainOrders m pages) (small : c < m.nwords) :
    wordOffset m (reverseBits m.nwords.log2 c) = c * 8 := by
  rw [wordOffset, reverseBits_reverseBits, ← orders.power, Nat.mod_eq_of_lt small]

theorem ChainOrders.wordOffset_injective (orders : ChainOrders m pages) {k k' : Nat} (small : k < m.nwords)
    (small' : k' < m.nwords) (same : wordOffset m k = wordOffset m k') : k = k' := by
  have turns := reverseBits_eq_iff.mp (Nat.eq_of_mul_eq_mul_right (by decide) same)
  rwa [← orders.power, Nat.mod_eq_of_lt small, Nat.mod_eq_of_lt small'] at turns

/-- Words in a line stay in their page. -/
theorem ChainOrders.wordAt_split (orders : ChainOrders m pages) (page : i < m.npages) (small : c < m.nwords) :
    ∃ q < (m.maxlen + m.pagesize - 1) / m.pagesize, ∃ r, pages.getD i 0 = q * m.pagesize ∧
      r = reverseBits m.nlines.log2 j ∧ r * m.line + m.line ≤ m.pagesize ∧ c * 8 + 8 ≤ m.line ∧
      wordAt m pages i j (c * 8) = m.base + (q * m.pagesize + r * m.line + c * 8) := by
  obtain ⟨q, inside, page⟩ := page_of_perm orders.lines.perm (page.trans_le orders.lines.enough)
  have below : (reverseBits m.nlines.log2 j + 1) * m.line ≤ 2 ^ m.nlines.log2 * m.line :=
    Nat.mul_le_mul_right _ (reverseBits_lt _ _)
  have word : (c + 1) * 8 ≤ m.nwords * 8 := Nat.mul_le_mul_right 8 small
  have fits := orders.lines.fits
  have line := orders.line
  rw [Nat.add_one_mul] at below word
  exact ⟨q, inside, _, page, rfl, by omega, by omega, by rw [wordAt, page]⟩

theorem ChainOrders.inside (orders : ChainOrders m pages) (page : i < m.npages) (small : c < m.nwords) :
    m.block.Inside (wordAt m pages i j (c * 8)) 8 ∧ wordAt m pages i j (c * 8) < 2 ^ 64 := by
  obtain ⟨q, inside, r, -, -, inPage, inLine, cell⟩ := @wordAt_split m pages i j c orders page small
  have below : (q + 1) * m.pagesize ≤ (m.maxlen + m.pagesize - 1) / m.pagesize * m.pagesize :=
    Nat.mul_le_mul_right _ inside
  have few := Nat.div_mul_le_self (m.maxlen + m.pagesize - 1) m.pagesize
  rw [Nat.add_one_mul] at below
  rw [cell]
  exact orders.lines.laid.inside (by omega)

/-- Words are one word, or their pointers do not overlap. -/
theorem ChainOrders.eq_or_apart (orders : ChainOrders m pages) (page : i < m.npages) (page' : i' < m.npages)
    (turn : j < m.nlines) (turn' : j' < m.nlines) (small : c < m.nwords) (small' : c' < m.nwords) :
    i = i' ∧ j = j' ∧ c = c' ∨ Apart 8 (wordAt m pages i j (c * 8)) (wordAt m pages i' j' (c' * 8)) := by
  obtain ⟨q, inside, r, place, line, inPage, inLine, cell⟩ := @wordAt_split m pages i j c orders page small
  obtain ⟨q', inside', r', place', line', inPage', inLine', cell'⟩ :=
    @wordAt_split m pages i' j' c' orders page' small'
  rw [cell, cell']
  have pages_apart : ∀ {a b : Nat}, a < b → a * m.pagesize + m.pagesize ≤ b * m.pagesize := mul_add_le_of_lt
  have lines_apart : ∀ {a b : Nat}, a < b → a * m.line + m.line ≤ b * m.line := mul_add_le_of_lt
  rcases Nat.lt_trichotomy q q' with less | rfl | more
  · exact Or.inr (Or.inl (by have := pages_apart less; omega))
  · rcases Nat.lt_trichotomy r r' with less | rfl | more
    · exact Or.inr (Or.inl (by have := lines_apart less; omega))
    · rcases Nat.lt_trichotomy c c' with less | rfl | more
      · exact Or.inr (Or.inl (by omega))
      · left
        have enough := orders.lines.enough
        have same := page_injective m.pagesize_pos orders.lines.perm (page.trans_le enough)
            (page'.trans_le enough)
          (place.trans place'.symm)
        have turns := reverseBits_eq_iff.mp (line.symm.trans line')
        rw [← orders.lines.power, Nat.mod_eq_of_lt turn, Nat.mod_eq_of_lt turn'] at turns
        exact ⟨same, turns, rfl⟩
      · exact Or.inr (Or.inr (by omega))
    · exact Or.inr (Or.inr (by have := lines_apart more; omega))
  · exact Or.inr (Or.inr (by have := pages_apart more; omega))

end Cells

/-! ### The list -/

/-- How many lines of the last page are linked. -/
def lastLines (m : MemState) (npointers : Nat) : Nat :=
  min (m.nlines - 1) (npointers - 1 - (m.npages - 1) * (m.nlines - 1)) + 1

theorem lastLines_le {m : MemState} (lines : 0 < m.nlines) (npointers : Nat) :
    lastLines m npointers ≤ m.nlines := by
  rw [lastLines]
  omega

/-- How many lines are linked. -/
def chainLines (m : MemState) (npointers : Nat) : Nat :=
  (m.npages - 1) * m.nlines + lastLines m npointers

/-- The cells of the list: all lines for each of the words. -/
def chainCell (m : MemState) (pages : List Nat) (count t : Nat) : Nat :=
  wordAt m pages (t % count / m.nlines) (t % count % m.nlines) (wordOffset m (t / count))

/-- The links from the words of a line to those of the next one. -/
def rowStores (m : MemState) (pages : List Nat) (i j : Nat) : List (Nat × Nat) :=
  (List.range m.nwords).map fun c => (wordAt m pages i j (c * 8), wordAt m pages i (j + 1) (c * 8))

/-- The links from the words of a line to those of the first line of a page. -/
def acrossStores (m : MemState) (pages : List Nat) (i j i' : Nat) (nw : Nat → Nat) : List (Nat × Nat) :=
  (List.range m.nwords).map fun k => (wordAt m pages i j (wordOffset m k),
    wordAt m pages i' 0 (wordOffset m (nw k)))

/-- The links of a page in front of the last one. -/
def chainPageStores (m : MemState) (pages : List Nat) (i : Nat) : List (Nat × Nat) :=
  (List.range (m.nlines - 1)).flatMap (rowStores m pages i) ++ acrossStores m pages i (m.nlines - 1) (i + 1) id

/-- All links. -/
def chainStores (m : MemState) (pages : List Nat) (last : Nat) : List (Nat × Nat) :=
  (List.range (m.npages - 1)).flatMap (chainPageStores m pages) ++
    ((List.range (last - 1)).flatMap (rowStores m pages (m.npages - 1)) ++
      acrossStores m pages (m.npages - 1) (last - 1) 0 (nextPage m.nwords))

section Links

variable {m : MemState} {pages : List Nat} {last : Nat}

theorem chainCell_add {count i j : Nat} (turn : j < m.nlines) (inside : i * m.nlines + j < count) (w : Nat) :
    chainCell m pages count (w * count + (i * m.nlines + j)) = wordAt m pages i j (wordOffset m w) := by
  have some : 0 < m.nlines := by omega
  rw [chainCell, Nat.mul_comm w, Nat.mul_add_div (by omega), Nat.div_eq_of_lt inside, Nat.mul_add_mod,
    Nat.mod_eq_of_lt inside, Nat.mul_comm i, Nat.mul_add_div some, Nat.div_eq_of_lt turn, Nat.mul_add_mod,
    Nat.mod_eq_of_lt turn, Nat.add_zero, Nat.add_zero]

/-- The link that leads away from a turn. -/
def chainLink (m : MemState) (pages : List Nat) (count t : Nat) : Nat × Nat :=
  (chainCell m pages count t, chainCell m pages count ((t + 1) % (m.nwords * count)))

variable {count i j w : Nat}

/-- To the next line of the page. -/
theorem chainLink_row (word : w < m.nwords) (turn : j + 1 < m.nlines)
    (inside : i * m.nlines + (j + 1) < count) :
    chainLink m pages count (w * count + (i * m.nlines + j)) =
      (wordAt m pages i j (wordOffset m w), wordAt m pages i (j + 1) (wordOffset m w)) := by
  rw [chainLink, Nat.add_assoc, Nat.add_assoc, Nat.mod_eq_of_lt (turn_lt word inside),
    chainCell_add (by omega) (by omega), chainCell_add turn inside]

/-- To the next page. -/
theorem chainLink_across (word : w < m.nwords) (lines : 0 < m.nlines) (inside : (i + 1) * m.nlines < count) :
    chainLink m pages count (w * count + (i * m.nlines + (m.nlines - 1))) =
      (wordAt m pages i (m.nlines - 1) (wordOffset m w), wordAt m pages (i + 1) 0 (wordOffset m w)) := by
  have behind : i * m.nlines + (m.nlines - 1) + 1 = (i + 1) * m.nlines + 0 := by
    rw [Nat.add_one_mul]
    omega
  have next : (i + 1) * m.nlines + 0 < count := inside
  rw [chainLink, Nat.add_assoc, behind, Nat.mod_eq_of_lt (turn_lt word next),
    chainCell_add (by omega) (by omega),
    chainCell_add lines next]

/-- From the last line back to the first one, at the next word. -/
theorem chainLink_last (word : w < m.nwords) (turn : j < m.nlines) (end_eq : i * m.nlines + j + 1 = count) :
    chainLink m pages count (w * count + (i * m.nlines + j)) =
      (wordAt m pages i j (wordOffset m w), wordAt m pages 0 0 (wordOffset m (nextPage m.nwords w))) := by
  have next := next_of_last (show 0 < count by omega) word
  have first := @chainCell_add m pages count 0 0 (by omega) (by omega) (nextPage m.nwords w)
  have here : count - 1 = i * m.nlines + j := by omega
  simp only [Nat.zero_mul, Nat.add_zero] at first
  rw [here] at next
  rw [chainLink, next, first, chainCell_add turn (by omega)]

/-- The links that are made are those of the list. -/
theorem ChainOrders.link_of_mem (orders : ChainOrders m pages) (some : 0 < last) (few : last ≤ m.nlines)
    (total : (m.npages - 1) * m.nlines + last = count) {store : Nat × Nat}
    (member : store ∈ chainStores m pages last) :
      ∃ t < m.nwords * count, chainLink m pages count t = store := by
  have lines := orders.lines.nlines_pos
  have row : ∀ {i j}, j + 1 < m.nlines → i * m.nlines + (j + 1) < count → store ∈ rowStores m pages i j →
      ∃ t < m.nwords * count, chainLink m pages count t = store := by
    intro i j turn inside member
    obtain ⟨c, word, rfl⟩ := List.mem_map.mp member
    have word' := orders.reverse_lt c
    refine ⟨_, turn_lt word' (show i * m.nlines + j < count by omega), ?_⟩
    rw [chainLink_row word' turn inside, orders.wordOffset_reverse (List.mem_range.mp word)]
  rcases List.mem_append.mp member with member | member
  · obtain ⟨i, page, member⟩ := List.mem_flatMap.mp member
    have room := @mul_add_le_of_lt i (m.npages - 1) m.nlines (List.mem_range.mp page)
    rcases List.mem_append.mp member with member | member
    · obtain ⟨j, turn, member⟩ := List.mem_flatMap.mp member
      have turn := List.mem_range.mp turn
      exact row (by omega) (by omega) member
    · obtain ⟨k, word, rfl⟩ := List.mem_map.mp member
      have word := List.mem_range.mp word
      refine ⟨_, turn_lt word (show i * m.nlines + (m.nlines - 1) < count by omega), ?_⟩
      exact chainLink_across word lines (by rw [Nat.add_one_mul]; omega)
  · rcases List.mem_append.mp member with member | member
    · obtain ⟨j, turn, member⟩ := List.mem_flatMap.mp member
      have turn := List.mem_range.mp turn
      exact row (by omega) (by omega) member
    · obtain ⟨k, word, rfl⟩ := List.mem_map.mp member
      have word := List.mem_range.mp word
      refine ⟨_, turn_lt word (show (m.npages - 1) * m.nlines + (last - 1) < count by omega), ?_⟩
      exact chainLink_last word (by omega) (by omega)

theorem ChainOrders.lines_le (orders : ChainOrders m pages) (few : last ≤ m.nlines)
    (total : (m.npages - 1) * m.nlines + last = count) : count ≤ m.npages * m.nlines := by
  obtain ⟨n, pages⟩ : ∃ n, m.npages = n + 1 := ⟨m.npages - 1, by have := orders.lines.nonempty; omega⟩
  rw [← total, pages, Nat.add_sub_cancel, Nat.add_one_mul]
  omega

/-- A turn by its page, line and word. -/
theorem ChainOrders.turn_split (orders : ChainOrders m pages) (few : count ≤ m.npages * m.nlines) {t : Nat}
    (inside : t < m.nwords * count) : ∃ i < m.npages, ∃ j < m.nlines, ∃ w < m.nwords,
      t = w * count + (i * m.nlines + j) ∧ i * m.nlines + j < count := by
  have pos : 0 < count := Nat.pos_of_mul_pos_left (Nat.zero_lt_of_lt inside)
  have place := Nat.mod_lt t pos
  have split : t % count / m.nlines * m.nlines + t % count % m.nlines = t % count := Nat.div_add_mod' _ _
  refine ⟨t % count / m.nlines, Nat.div_lt_of_lt_mul ?_, t % count % m.nlines,
    Nat.mod_lt _ orders.lines.nlines_pos,
    t / count, Nat.div_lt_of_lt_mul (by rwa [Nat.mul_comm]), ?_, by omega⟩
  · rw [Nat.mul_comm]
    exact place.trans_le few
  · rw [split, Nat.div_add_mod']

/-- Each link of the list is made. -/
theorem ChainOrders.mem_of_link (orders : ChainOrders m pages) (some : 0 < last) (few : last ≤ m.nlines)
    (total : (m.npages - 1) * m.nlines + last = count) {t : Nat} (inside : t < m.nwords * count) :
    chainLink m pages count t ∈ chainStores m pages last := by
  have lines := orders.lines.nlines_pos
  obtain ⟨i, page, j, turn, w, word, rfl, place⟩ := orders.turn_split (orders.lines_le few total) inside
  have inRow : ∀ {n}, j < n → ∀ i, (wordAt m pages i j (wordOffset m w),
      wordAt m pages i (j + 1) (wordOffset m w)) ∈
      (List.range n).flatMap (rowStores m pages i) := by
    intro n before i
    obtain ⟨c, small, offset⟩ := orders.wordOffset_lt w
    rw [offset]
    exact List.mem_flatMap.mpr ⟨j, List.mem_range.mpr before,
      List.mem_map.mpr ⟨c, List.mem_range.mpr small, rfl⟩⟩
  rcases (Nat.le_sub_one_of_lt page).lt_or_eq with page | rfl
  · -- a page in front of the last one
    have room := @mul_add_le_of_lt i (m.npages - 1) m.nlines page
    refine List.mem_append_left _ (List.mem_flatMap.mpr ⟨i, List.mem_range.mpr page, ?_⟩)
    by_cases more : j + 1 < m.nlines
    · rw [chainLink_row word more (by omega)]
      exact List.mem_append_left _ (inRow (by omega) i)
    · have final : j = m.nlines - 1 := by omega
      rw [final, chainLink_across word lines (by rw [Nat.add_one_mul]; omega)]
      exact List.mem_append_right _ (List.mem_map.mpr ⟨w, List.mem_range.mpr word, rfl⟩)
  · refine List.mem_append_right _ ?_
    by_cases more : j + 1 < last
    · rw [chainLink_row word (by omega) (by omega)]
      exact List.mem_append_left _ (inRow (by omega) _)
    · have final : j = last - 1 := by omega
      rw [final, chainLink_last word (by omega) (by omega)]
      exact List.mem_append_right _ (List.mem_map.mpr ⟨w, List.mem_range.mpr word, rfl⟩)

theorem ChainOrders.cell_inside (orders : ChainOrders m pages) (few : count ≤ m.npages * m.nlines) {t : Nat}
    (inside : t < m.nwords * count) :
    m.block.Inside (chainCell m pages count t) 8 ∧ chainCell m pages count t < 2 ^ 64 := by
  obtain ⟨i, page, j, turn, w, -, rfl, place⟩ := orders.turn_split few inside
  obtain ⟨c, small, offset⟩ := orders.wordOffset_lt w
  rw [chainCell_add turn place, offset]
  exact orders.inside page small

theorem ChainOrders.cell_eq_or_apart (orders : ChainOrders m pages) (few : count ≤ m.npages * m.nlines)
    {t t' : Nat}
    (inside : t < m.nwords * count) (inside' : t' < m.nwords * count) :
    t = t' ∨ Apart 8 (chainCell m pages count t) (chainCell m pages count t') := by
  obtain ⟨i, page, j, turn, w, word, rfl, place⟩ := orders.turn_split few inside
  obtain ⟨i', page', j', turn', w', word', rfl, place'⟩ := orders.turn_split few inside'
  obtain ⟨c, small, offset⟩ := orders.wordOffset_lt w
  obtain ⟨c', small', offset'⟩ := orders.wordOffset_lt w'
  rw [chainCell_add turn place, chainCell_add turn' place', offset, offset']
  rcases @eq_or_apart m pages i j i' j' c c' orders page page' turn turn' small small' 
    with ⟨rfl, rfl, rfl⟩ | apart
  · rw [orders.wordOffset_injective word word' (offset.trans offset'.symm)]
    exact Or.inl rfl
  · exact Or.inr apart

/-- The links leave a ring through all words of the lines. -/
theorem ChainOrders.ring (orders : ChainOrders m pages) (some : 0 < last) (few : last ≤ m.nlines)
    (total : (m.npages - 1) * m.nlines + last = count) :
    ∃ block, m.block.storeAll (chainStores m pages last) = .ok block ∧ block.base = m.block.base ∧
      block.size = m.block.size ∧ Ring block.loadPointer (m.nwords * count) (chainCell m pages count) := by
  have all := orders.lines_le few total
  have pos : 0 < m.nwords * count := Nat.mul_pos orders.nwords_pos (by omega)
  have distinct : ∀ t < m.nwords * count, ∀ t' < m.nwords * count,
      chainCell m pages count t = chainCell m pages count t' → t = t' := by
    intro t inside t' inside' same
    have cells := orders.cell_eq_or_apart all inside inside'
    rw [same] at cells
    exact cells.resolve_right (not_apart_self _)
  have links : ∀ store ∈ chainStores m pages last, ∃ t < m.nwords * count, chainLink m pages count t = store :=
    fun store => orders.link_of_mem some few total
  apply exists_ring_of_lastStore
  · intro store member
    obtain ⟨t, inside, rfl⟩ := links store member
    exact (orders.cell_inside all inside).1
  · intro store member
    obtain ⟨t, -, rfl⟩ := links store member
    exact (orders.cell_inside all (Nat.mod_lt _ pos)).2
  · intro store member store' member'
    obtain ⟨t, inside, rfl⟩ := links store member
    obtain ⟨t', inside', rfl⟩ := links store' member'
    exact (orders.cell_eq_or_apart all inside inside').imp (fun same => by rw [same]) id
  · exact pos
  · exact distinct
  · intro t inside
    -- no other link leads away from this cell
    refine lastStore_of_unique (orders.mem_of_link some few total inside) fun v member => ?_
    obtain ⟨t', inside', same⟩ := links _ member
    obtain ⟨cell, next⟩ := Prod.mk.inj same
    rw [← next, distinct t' inside' t inside cell]

end Links

/-! ### The loops -/

section Loops

variable {m : MemState} {pages : List Nat} {i j i' : Nat}

/-- The orders as `mem_initialize` has them. -/
def lineArray (m : MemState) : Option (CArray Nat) :=
  some (CArray.filled (wordOrder m.nlines m.line))

theorem ChainOrders.lineOffset_eq (orders : ChainOrders m pages) (page : i < m.npages) (turn : j < m.nlines) :
    lineOffset m.pages (lineArray m) i j = .ok (pages.getD i 0 + reverseBits m.nlines.log2 j * m.line) := by
  have inPages := element_pages (page.trans_le orders.lines.length)
  rw [← orders.lines.ordered] at inPages
  exact bind_eq_ok.mpr ⟨_, inPages, bind_eq_ok.mpr ⟨_, element_wordOrder turn, rfl⟩⟩

theorem ChainOrders.word_eq (orders : ChainOrders m pages) {k : Nat} (word : k < m.nwords) :
    element m.words k = .ok (wordOffset m k) := by
  rw [orders.words]
  exact element_wordOrder word

theorem ChainOrders.linkWordsOf_eq (orders : ChainOrders m pages) (page : i < m.npages)
    (turn : j + 1 < m.nlines)
    (block : Memory) :
    linkWordsOf m (lineArray m) i j block = block.storeAll (rowStores m pages i j) := by
  have passes : (m.line + 7) / 8 = m.nwords := by
    have line := orders.line
    omega
  rw [linkWordsOf, passes]
  apply forRange_stores
  intro block c _
  rw [orders.lineOffset_eq page (by omega), orders.lineOffset_eq page turn]
  rfl

theorem ChainOrders.linkAcross_eq (orders : ChainOrders m pages) (page : i < m.npages) (page' : i' < m.npages)
    (turn : j < m.nlines) {nw nw' : Nat → Nat} (same : ∀ k < m.nwords, nw k = nw' k ∧ nw' k < m.nwords)
    (block : Memory) :
    linkAcross m (lineArray m) i j i' nw block = block.storeAll (acrossStores m pages i j i' nw') := by
  rw [linkAcross]
  apply forRange_stores
  intro block k word
  obtain ⟨next, word'⟩ := same k word
  rw [orders.lineOffset_eq page turn, orders.lineOffset_eq page' orders.lines.nlines_pos,
    orders.word_eq word, next,
    orders.word_eq word']
  rfl

/-- The start of the pointer `k`, when it has been set. -/
def startAt (m : MemState) (pages : List Nat) (part k : Nat) : Nat :=
  wordAt m pages (k * part / (m.nlines - 1)) (k * part % (m.nlines - 1)) (wordOffset m (k % m.nwords))

/-- The start pointers after so many links: those are set whose part has been reached. -/
structure StartsTo (m : MemState) (pages : List Nat) (part : Nat) (before : CArray Nat) (l : Nat)
    (p : CArray Nat) :
    Prop where
  length : p.length = maxMemParallelism
  read_eq : ∀ k < maxMemParallelism,
    p.read k = if k * part < l then .ok (startAt m pages part k) else before.read k

variable {width npointers l : Nat} {p₀ p : CArray Nat}

theorem ChainOrders.setStart (orders : ChainOrders m pages) (pos : 0 < npointers / width) (page : i < m.npages)
    (turn : j < m.nlines - 1) (links : l = i * (m.nlines - 1) + j)
    (starts : StartsTo m pages (npointers / width) p₀ l p) :
    ∃ p', setStart m (lineArray m) width npointers i j l p = .ok p' ∧
      StartsTo m pages (npointers / width) p₀ (l + 1) p' := by
  obtain ⟨length, reads⟩ := starts
  obtain ⟨part, hpart⟩ : ∃ part, part = npointers / width := ⟨_, rfl⟩
  rw [← hpart] at pos reads ⊢
  unfold LibMem.setStart
  simp only [← hpart, if_neg (Nat.ne_of_gt pos)]
  have reached : ∀ {k}, k * part = l → k = l / part ∧ l % part = 0 := by
    rintro k rfl
    exact ⟨(Nat.mul_div_cancel k pos).symm, Nat.mul_mod_left k part⟩
  split
  · rename_i cond
    obtain ⟨multiple, small⟩ := cond
    have back : l / part * part = l := by
      have split := Nat.div_add_mod' l part
      omega
    have inPage : l / (m.nlines - 1) = i ∧ l % (m.nlines - 1) = j := by
      rw [links, Nat.mul_comm, Nat.mul_add_div (by omega), Nat.div_eq_of_lt turn, Nat.mul_add_mod,
        Nat.mod_eq_of_lt turn]
      exact ⟨rfl, rfl⟩
    have value : startAt m pages part (l / part) =
        m.base + (pages.getD i 0 + reverseBits m.nlines.log2 j * m.line +
          wordOffset m (l / part % m.nwords)) := by
      rw [startAt, back, inPage.1, inPage.2, wordAt]
    refine ⟨p.set (l / part) (some (startAt m pages part (l / part))), ?_, by rwa [List.length_set], ?_⟩
    · refine bind_eq_ok.mpr ⟨_, orders.lineOffset_eq page (by omega), bind_eq_ok.mpr ⟨_,
        orders.word_eq (Nat.mod_lt _ orders.nwords_pos), ?_⟩⟩
      rw [CArray.write_ok (by rwa [length]), value]
    · intro k inside
      rw [CArray.read_set (by rwa [length])]
      by_cases here : k = l / part
      · rw [if_pos here, if_pos (by rw [here, back]; exact Nat.lt_succ_self l), here]
      · have other : k * part ≠ l := fun same => here (reached same).1
        rw [if_neg here, reads k inside]
        exact if_congr (by omega) rfl rfl
  · rename_i cond
    refine ⟨p, rfl, length, fun k inside => ?_⟩
    have other : k * part ≠ l := by
      intro same
      obtain ⟨quotient, multiple⟩ := reached same
      exact cond ⟨multiple, quotient ▸ inside⟩
    rw [reads k inside]
    exact if_congr (by omega) rfl rfl

/-- The loop over the lines of a page. -/
theorem ChainOrders.linkPageLines (orders : ChainOrders m pages) (pos : 0 < npointers / width)
    (page : i < m.npages)
    {rest : Nat} {w : ChainWalk} {block : Memory} (left : w.j + rest = m.nlines - 1)
    (links : w.l = i * (m.nlines - 1) + w.j)
    (starts : StartsTo m pages (npointers / width) p₀ w.l w.p)
    (stored : w.block.storeAll ((List.range' w.j (min rest (npointers - 1 - w.l))).flatMap
    (rowStores m pages i)) =
      .ok block) :
    ∃ p, linkPageLines m (lineArray m) width npointers i rest w =
        .ok ⟨w.j + min rest (npointers - 1 - w.l), w.l + min rest (npointers - 1 - w.l), block, p⟩ ∧
      StartsTo m pages (npointers / width) p₀ (w.l + min rest (npointers - 1 - w.l)) p := by
  induction rest generalizing w with
  | zero =>
      rw [Nat.zero_min] at stored ⊢
      obtain rfl := Except.ok.inj stored
      exact ⟨w.p, rfl, starts⟩
  | succ rest ih =>
      rw [LibMem.linkPageLines]
      by_cases more : w.l + 1 < npointers
      · have count : min (rest + 1) (npointers - 1 - w.l) = min rest (npointers - 1 - (w.l + 1)) + 1 := by omega
        rw [count, List.range'_succ, List.flatMap_cons, storeAll_append] at stored
        obtain ⟨block₁, row, stored⟩ := bind_eq_ok.mp stored
        obtain ⟨p₁, set, starts₁⟩ := orders.setStart pos page (by omega) links starts
        rw [← orders.linkWordsOf_eq page (by omega)] at row
        obtain ⟨p, ran, starts'⟩ := @ih ⟨w.j + 1, w.l + 1, block₁,
            p₁⟩ (by simp only; omega) (by simp only; omega)
          starts₁ stored
        rw [if_pos more, count]
        refine ⟨p, bind_eq_ok.mpr ⟨block₁, row, bind_eq_ok.mpr ⟨p₁, set, ?_⟩⟩, ?_⟩
        · rw [ran]
          simp only [Nat.add_assoc, Nat.add_comm 1]
        · simp only [Nat.add_assoc, Nat.add_comm 1] at starts'
          exact starts'
      · have done : min (rest + 1) (npointers - 1 - w.l) = 0 := by omega
        rw [done] at stored ⊢
        obtain rfl := Except.ok.inj stored
        rw [if_neg more]
        exact ⟨w.p, rfl, starts⟩

/-- How many links of lines are counted. -/
def chainLinks (m : MemState) (npointers : Nat) : Nat :=
  (m.npages - 1) * (m.nlines - 1) + (lastLines m npointers - 1)

/-- A page in front of the last one. -/
theorem ChainOrders.linkChainPage (orders : ChainOrders m pages) (pos : 0 < npointers / width)
    (reach : (m.npages - 1) * (m.nlines - 1) ≤ npointers - 1) (more : i + 1 < m.npages) {w : ChainWalk}
    {block : Memory} (links : w.l = i * (m.nlines - 1))
    (starts : StartsTo m pages (npointers / width) p₀ w.l w.p)
    (stored : w.block.storeAll (chainPageStores m pages i) = .ok block) :
    ∃ p, linkChainPage m (lineArray m) width npointers w i =
        .ok ⟨m.nlines - 1, (i + 1) * (m.nlines - 1), block, p⟩ ∧
      StartsTo m pages (npointers / width) p₀ ((i + 1) * (m.nlines - 1)) p := by
  have lines := orders.lines.nlines_pos
  have room : (i + 1) * (m.nlines - 1) ≤ npointers - 1 := (Nat.mul_le_mul_right _ (by omega)).trans reach
  have next : w.l + (m.nlines - 1) = (i + 1) * (m.nlines - 1) := by rw [links, Nat.add_one_mul]
  have all : min (m.nlines - 1) (npointers - 1 - w.l) = m.nlines - 1 := by omega
  rw [chainPageStores, storeAll_append] at stored
  obtain ⟨block₁, rows, across⟩ := bind_eq_ok.mp stored
  rw [List.range_eq_range'] at rows
  obtain ⟨p, ran, starts'⟩ := @ChainOrders.linkPageLines m pages i width npointers p₀ orders pos (by omega)
    (m.nlines - 1) { w with j := 0 } block₁ (Nat.zero_add _) links starts (by rw [all]; exact rows)
  simp only [all, next, Nat.zero_add] at ran starts'
  have last : ∀ k < m.nwords, id k = id k ∧ id k < m.nwords := fun k word => ⟨rfl, word⟩
  rw [← orders.linkAcross_eq (by omega) more (by omega) last] at across
  refine ⟨p, bind_eq_ok.mpr ⟨_, ran, ?_⟩, starts'⟩
  rw [if_pos more]
  exact bind_eq_ok.mpr ⟨block, across, rfl⟩

/-- The last page. -/
theorem ChainOrders.linkLastPage (orders : ChainOrders m pages) (pos : 0 < npointers / width) {w : ChainWalk}
    {block : Memory} (links : w.l = (m.npages - 1) * (m.nlines - 1))
    (starts : StartsTo m pages (npointers / width) p₀ w.l w.p)
    (stored : w.block.storeAll ((List.range (lastLines m npointers - 1)).flatMap
      (rowStores m pages (m.npages - 1))) = .ok block) :
    ∃ p, LibMem.linkChainPage m (lineArray m) width npointers w (m.npages - 1) =
        .ok ⟨lastLines m npointers - 1, chainLinks m npointers, block, p⟩ ∧
      StartsTo m pages (npointers / width) p₀ (chainLinks m npointers) p := by
  have nonempty := orders.lines.nonempty
  have count : min (m.nlines - 1) (npointers - 1 - w.l) = lastLines m npointers - 1 := by
    rw [lastLines, links, Nat.add_sub_cancel]
  rw [List.range_eq_range'] at stored
  obtain ⟨p, ran, starts'⟩ := @ChainOrders.linkPageLines m pages (m.npages - 1) width npointers p₀ orders pos
    (by omega) (m.nlines - 1) { w with j := 0 } block (Nat.zero_add _) links starts
    (by rw [count]; exact stored)
  have total : w.l + (lastLines m npointers - 1) = chainLinks m npointers := by rw [links, chainLinks]
  simp only [count, Nat.zero_add, total] at ran starts'
  refine ⟨p, bind_eq_ok.mpr ⟨_, ran, ?_⟩, starts'⟩
  rw [if_neg (by omega)]
  rfl

/-- The pages in front of the last one. -/
theorem ChainOrders.linkFrontPages (orders : ChainOrders m pages) (pos : 0 < npointers / width)
    (reach : (m.npages - 1) * (m.nlines - 1) ≤ npointers - 1) (length : p₀.length = maxMemParallelism)
    {block : Memory}
    (stored : m.block.storeAll ((List.range (m.npages - 1)).flatMap (chainPageStores m pages)) = .ok block) :
    ∃ w, forRange 0 (m.npages - 1) (LibMem.linkChainPage m (lineArray m) width npointers) ⟨0, 0, m.block, p₀⟩ =
        .ok w ∧ w.l = (m.npages - 1) * (m.nlines - 1) ∧ StartsTo m pages (npointers / width) p₀ w.l w.p ∧
      w.block = block := by
  let reached (i : Nat) (w : ChainWalk) : Prop :=
    w.l = i * (m.nlines - 1) ∧ StartsTo m pages (npointers / width) p₀ w.l w.p ∧
      m.block.storeAll ((List.range i).flatMap (chainPageStores m pages)) = .ok w.block
  have init : reached 0 ⟨0, 0, m.block, p₀⟩ := by
    refine ⟨(Nat.zero_mul _).symm, ⟨length, fun k _ => ?_⟩, rfl⟩
    rw [if_neg (Nat.not_lt_zero _)]
  have step : ∀ i w, 0 ≤ i → i < m.npages - 1 → reached i w →
      ∃ w', LibMem.linkChainPage m (lineArray m) width npointers w i = .ok w' ∧ reached (i + 1) w' := by
    rintro i w - page ⟨links, starts, before⟩
    -- the links of this page are a part of the stores that succeed
    obtain ⟨rest, split⟩ : ∃ rest, m.npages - 1 = i + 1 + rest := ⟨m.npages - 1 - (i + 1), by omega⟩
    rw [split, List.range_add, List.flatMap_append, storeAll_append, List.range_succ, List.flatMap_append,
      storeAll_append, List.flatMap_singleton] at stored
    obtain ⟨later, upTo, -⟩ := bind_eq_ok.mp stored
    obtain ⟨block', before', row⟩ := bind_eq_ok.mp upTo
    obtain rfl := Except.ok.inj (before.symm.trans before')
    obtain ⟨p, ran, starts'⟩ := orders.linkChainPage pos reach (by omega) links starts row
    refine ⟨_, ran, rfl, starts', ?_⟩
    rw [List.range_succ, List.flatMap_append, storeAll_append, List.flatMap_singleton]
    exact bind_eq_ok.mpr ⟨_, before, row⟩
  obtain ⟨w, ran, links, starts, stored'⟩ := forRange_ok reached (Nat.zero_le _) init step
  exact ⟨w, ran, links, starts, Except.ok.inj (stored'.symm.trans stored)⟩

/-- All of the loops. -/
theorem ChainOrders.linkChain (orders : ChainOrders m pages) (pos : 0 < npointers / width)
    (reach : (m.npages - 1) * (m.nlines - 1) ≤ npointers - 1) (length : p₀.length = maxMemParallelism)
    {block : Memory} (stored : m.block.storeAll (chainStores m pages (lastLines m npointers)) = .ok block) :
    ∃ p, linkChain m (lineArray m) width npointers p₀ = .ok (block, p) ∧
      StartsTo m pages (npointers / width) p₀ (chainLinks m npointers) p := by
  have nonempty := orders.lines.nonempty
  have lines := orders.lines.nlines_pos
  rw [chainStores, storeAll_append] at stored
  obtain ⟨block₁, front, stored⟩ := bind_eq_ok.mp stored
  rw [storeAll_append] at stored
  obtain ⟨block₂, rows, across⟩ := bind_eq_ok.mp stored
  obtain ⟨w, ran, links, starts, rfl⟩ := orders.linkFrontPages pos reach length front
  obtain ⟨p, ran', starts'⟩ := orders.linkLastPage pos links starts rows
  have loop : forRange 0 m.npages (LibMem.linkChainPage m (lineArray m) width npointers) ⟨0, 0, m.block, p₀⟩ =
      .ok ⟨lastLines m npointers - 1, chainLinks m npointers, block₂, p⟩ := by
    obtain ⟨n, pages⟩ : ∃ n, m.npages = n + 1 := ⟨m.npages - 1, by omega⟩
    rw [pages, Nat.add_sub_cancel] at ran ran'
    rw [pages, forRange_concat]
    exact bind_eq_ok.mpr ⟨w, ran, ran'⟩
  have next : ∀ k < m.nwords, (if k = m.nwords - 1 then 0 else k + 1) = nextPage m.nwords k ∧
      nextPage m.nwords k < m.nwords := by
    intro k word
    refine ⟨?_, nextPage_lt word⟩
    rw [nextPage]
    split
    · rw [if_neg (by omega)]
    · rw [if_pos (by omega)]
  have few : lastLines m npointers - 1 < m.nlines :=
    (Nat.sub_lt (Nat.succ_pos _) Nat.one_pos).trans_le (lastLines_le lines npointers)
  rw [← orders.linkAcross_eq (by omega) nonempty few next] at across
  refine ⟨p, bind_eq_ok.mpr ⟨_, loop, bind_eq_ok.mpr ⟨block, ?_, rfl⟩⟩, starts'⟩
  rw [before_eq nonempty orders.lines.npages_lt]
  exact across

end Loops

/-! ### The walk of several pointers -/

section Walk

variable {block : Memory} {p : CArray Nat} {count width : Nat} {cell : Nat → Nat}

/-- The cells of so many pointers after so many steps, from their turns at the start. -/
def pointersAt (count : Nat) (cell : Nat → Nat) (turn : Nat → Nat) (width step : Nat) : List Nat :=
  ((List.range width).map turn).map fun t => cell ((t + step) % count)

/-- Pointers that start in a ring walk around it. -/
theorem memBenchmarks_eq (ring : Ring block.loadPointer count cell) (pos : 0 < width)
    (few : width ≤ maxMemParallelism) {turn : Nat → Nat} (small : ∀ k < width, turn k < count)
    (starts : ∀ k < width, p.read k = .ok (cell (turn k))) (iterations : Nat) :
    memBenchmarks width iterations block p =
      .ok ((List.range (iterations * 100)).map fun s => pointersAt count cell turn width (s % count)) := by
  have several : (List.range width).map turn ≠ [] := by
    simpa using Nat.ne_of_gt pos
  have together : Ring (fun ps : List Nat => ps.mapM block.loadPointer) count
      (pointersAt count cell turn width) :=
    ring.parallel several
  have walked := together.chaseRounds 0 0 iterations 100
  have first : Ring.walk count (pointersAt count cell turn width) 0 0 =
      ([], (List.range width).map fun k => cell (turn k)) := by
    simp only [Ring.walk, List.range'_zero, List.map_nil, pointersAt, List.map_map, Nat.zero_mod, Nat.add_zero]
    congr 1
    apply List.map_congr_left
    intro k member
    exact congrArg cell (Nat.mod_eq_of_lt (small k (List.mem_range.mp member)))
  have read : (List.range width).mapM p.read = .ok ((List.range width).map fun k => cell (turn k)) :=
    mapM_ok fun k member => starts k (List.mem_range.mp member)
  rw [memBenchmarks, if_pos ⟨pos, few⟩]
  rw [first, Nat.zero_add] at walked
  refine bind_eq_ok.mpr ⟨_, read, bind_eq_ok.mpr ⟨_, walked, ?_⟩⟩
  rw [Ring.walk, ← List.range_eq_range']
  rfl

end Walk

/-! ### `mem_initialize` -/

/-- What the list needs: words, lines and pages that are each a power of two of the ones before, and a range
that is not empty, below two gigabytes and not longer than the buffer. -/
structure ChainFits (m : MemState) : Prop where
  line : ∃ c, m.line = 2 ^ c * 8
  page : ∃ b, m.pagesize = 2 ^ b * m.line
  nonempty : 0 < m.len
  short : m.len < 2 ^ 31
  room : m.len ≤ m.maxlen

/-- The list in the buffer. -/
structure ChainLinked (s : ChainState) (pages : List Nat) (count : Nat) : Prop where
  orders : ChainOrders s.mem pages
  lines : s.lines = lineArray s.mem
  ring : Ring s.mem.block.loadPointer (s.mem.nwords * count) (chainCell s.mem pages count)

/-- The numbers of pages, of lines in a page, and of lines in the range. -/
def rangePages (m : MemState) : Nat :=
  (m.len + m.pagesize - 1) / m.pagesize

def rangeLines (m : MemState) : Nat :=
  min (rangePages m * (m.pagesize / m.line)) (m.len / m.line + (rangePages m - 1))

/-- How often `l` is counted up. -/
def rangeLinks (m : MemState) : Nat :=
  min (rangePages m * (m.pagesize / m.line - 1)) (m.len / m.line - 1)

section Counts

variable {m : MemState}

theorem ChainFits.nlines_pos (fits : ChainFits m) : 0 < m.pagesize / m.line := by
  obtain ⟨b, page⟩ := fits.page
  rw [page, Nat.mul_div_cancel _ m.line_pos]
  exact Nat.two_pow_pos b

theorem ChainFits.line_le (fits : ChainFits m) : m.line ≤ m.pagesize := by
  obtain ⟨b, page⟩ := fits.page
  rw [page]
  exact Nat.le_mul_of_pos_left _ (Nat.two_pow_pos b)

theorem ChainFits.pagesize_eq (fits : ChainFits m) : m.pagesize / m.line * m.line = m.pagesize := by
  obtain ⟨b, page⟩ := fits.page
  rw [page, Nat.mul_div_cancel _ m.line_pos]

theorem ChainFits.rangePages_pos (fits : ChainFits m) : 0 < rangePages m :=
  Nat.div_pos (by have := fits.nonempty; omega) m.pagesize_pos

/-- The pages in front of the last one are whole. -/
theorem ChainFits.whole_pages (fits : ChainFits m) :
    (rangePages m - 1) * (m.pagesize / m.line) ≤ m.len / m.line := by
  rw [Nat.le_div_iff_mul_le m.line_pos, Nat.mul_assoc, fits.pagesize_eq]
  have most := Nat.div_mul_le_self (m.len + m.pagesize - 1) m.pagesize
  have pos := fits.rangePages_pos
  have nonempty := fits.nonempty
  rw [rangePages] at *
  have split : ((m.len + m.pagesize - 1) / m.pagesize - 1) * m.pagesize + m.pagesize =
      (m.len + m.pagesize - 1) / m.pagesize * m.pagesize := by
    rw [← Nat.add_one_mul, Nat.sub_add_cancel pos]
  have some := m.pagesize_pos
  omega

theorem ChainFits.len_le (fits : ChainFits m) : m.len / m.line ≤ rangePages m * (m.pagesize / m.line) := by
  apply Nat.div_le_of_le_mul
  rw [Nat.mul_comm, Nat.mul_assoc, fits.pagesize_eq]
  have above := Nat.lt_div_mul_add (a := m.len + m.pagesize - 1) m.pagesize_pos
  rw [rangePages]
  have some := m.pagesize_pos
  omega

/-- The counts of the loops, for `k` whole pages and `q + 1` lines in a page. -/
theorem counts_arith {k q npointers : Nat} (low : k * (q + 1) ≤ npointers) :
    k * q ≤ npointers - 1 ∧ k * q + min q (npointers - 1 - k * q) = min ((k + 1) * q) (npointers - 1) ∧
      (0 < npointers →
        k * (q + 1) + (min q (npointers - 1 - k * q) + 1) = min ((k + 1) * (q + 1)) (npointers + k)) := by
  rw [Nat.mul_add_one] at low
  have reach : k * q ≤ npointers - 1 := by
    rcases Nat.eq_zero_or_pos k with rfl | some
    · rw [Nat.zero_mul]
      exact Nat.zero_le _
    · omega
  rw [Nat.add_one_mul, Nat.add_one_mul, Nat.mul_add_one]
  exact ⟨reach, by omega, fun _ => by omega⟩

/-- The counts of `mem_initialize`. -/
theorem ChainFits.counts (fits : ChainFits m) {m' : MemState} (npages : m'.npages = rangePages m)
    (nlines : m'.nlines = m.pagesize / m.line) :
    (m'.npages - 1) * (m'.nlines - 1) ≤ m.len / m.line - 1 ∧ chainLinks m' (m.len / m.line) = rangeLinks m ∧
      (0 < m.len / m.line → chainLines m' (m.len / m.line) = rangeLines m) := by
  have whole := fits.whole_pages
  obtain ⟨k, pages⟩ : ∃ k, rangePages m = k + 1 := ⟨rangePages m - 1, by have := fits.rangePages_pos; omega⟩
  obtain ⟨q, lines⟩ : ∃ q, m.pagesize / m.line = q + 1 :=
    ⟨m.pagesize / m.line - 1, by have := fits.nlines_pos; omega⟩
  rw [pages, lines, Nat.add_sub_cancel] at whole
  unfold chainLinks chainLines lastLines rangeLinks rangeLines
  rw [npages, nlines, pages, lines]
  simp only [Nat.add_sub_cancel]
  exact counts_arith whole

end Counts

section Initialize

variable {heap : Heap} {draws : Draws}

/-- The orders that `mem_initialize` has. -/
theorem ChainFits.orders {m m' : MemState} (fits : ChainFits m) (ran : baseInitialize heap draws 0 m = .ok m')
    (same : SameParameters m m') (laid : Laid m') :
    ∃ pages, ChainOrders { m' with words := some (CArray.filled (wordOrder m'.nwords 8)) } pages := by
  obtain ⟨c, line⟩ := fits.line
  obtain ⟨b, page⟩ := fits.page
  have pointer : 8 ≤ m.line := by
    have pos := Nat.two_pow_pos c
    omega
  have power : m.pagesize / m.line = 2 ^ b := by rw [page, Nat.mul_div_cancel _ m.line_pos]
  have inPage := fits.line_le
  have lineFits : LineFits m := ⟨pointer, inPage, ⟨b, power⟩, fits.nonempty, fits.short, fits.room⟩
  obtain ⟨pages, laid', pointer', fits', power', nonempty, enough, ordered, perm⟩ :=
    lineFits.orders ran same laid
  have nwords : m'.nwords = 2 ^ c := by
    rw [(baseInitialize_counts ran).2, line, Nat.mul_div_cancel _ (by decide)]
  have line' : m'.line = m'.nwords * 8 := by rw [same.2.2.1, nwords, line]
  refine ⟨pages, ⟨laid'.setWords _ _, pointer', fits', power', nonempty, enough, ordered, perm⟩, line', ?_, rfl⟩
  change m'.nwords = 2 ^ m'.nwords.log2
  rw [nwords, Nat.log2_two_pow]

/-- The turn at which a pointer starts. -/
def startTurn (m : MemState) (count part k : Nat) : Nat :=
  k % m.nwords * count + (k * part / (m.nlines - 1) * m.nlines + k * part % (m.nlines - 1))

/-- When the last pointer is set, all of them are. -/
theorem start_lt {width part links k : Nat} (reached : (width - 1) * part < links) (inside : k < width) :
    k * part < links :=
  (Nat.mul_le_mul_right part (Nat.le_sub_one_of_lt inside)).trans_lt reached

/-- A start that has been set is a cell of the list. -/
theorem ChainOrders.startAt_eq {m : MemState} {pages : List Nat} (orders : ChainOrders m pages)
    {npointers part k : Nat} (set : k * part < chainLinks m npointers) :
    startTurn m (chainLines m npointers) part k < m.nwords * chainLines m npointers ∧
      startAt m pages part k =
        chainCell m pages (chainLines m npointers) (startTurn m (chainLines m npointers) part k) := by
  have lines := orders.lines.nlines_pos
  have few := lastLines_le lines npointers
  have some : 0 < m.nlines - 1 := by
    by_contra single
    have none : m.nlines - 1 = 0 := by omega
    rw [chainLinks, lastLines, none, Nat.mul_zero, Nat.zero_min] at set
    exact absurd set (Nat.not_lt_zero _)
  have turn := Nat.mod_lt (k * part) some
  have split := Nat.div_add_mod' (k * part) (m.nlines - 1)
  rw [startTurn, startAt]
  generalize k * part / (m.nlines - 1) = i at *
  generalize k * part % (m.nlines - 1) = j at *
  have place : i * m.nlines + j < chainLines m npointers := by
    rw [chainLines]
    rw [← split, chainLinks] at set
    rcases Nat.lt_trichotomy i (m.npages - 1) with before | rfl | behind
    · have room := Nat.mul_le_mul_right m.nlines (Nat.succ_le_of_lt before)
      rw [Nat.succ_mul] at room
      omega
    · omega
    · have room := Nat.mul_le_mul_right (m.nlines - 1) (Nat.succ_le_of_lt behind)
      rw [Nat.succ_mul] at room
      omega
  exact ⟨turn_lt (Nat.mod_lt _ orders.nwords_pos) place, (chainCell_add (by omega) place _).symm⟩

/-- With room the rest of `mem_initialize` runs in a buffer with its orders. -/
theorem memInitialize_eq (array : heap.wordArray = true) {s : ChainState} (fits : ChainFits s.mem)
    (room : heap.hasRoom s.mem = true) :
    ∃ m pages, ChainOrders m pages ∧ SameParameters s.mem m ∧ m.npages = rangePages s.mem ∧
      m.nlines = s.mem.pagesize / s.mem.line ∧ m.nwords = s.mem.line / 8 ∧
      memInitialize heap draws 0 s = linkAndClear m (lineArray m) s := by
  obtain ⟨m, ran, same, initialized, laidOut⟩ :=
    @baseInitialize_spec heap draws s.mem (fits.nonempty.trans_le fits.room)
  have laid := laidOut room
  rw [room] at initialized
  obtain ⟨pages, orders⟩ := fits.orders ran same laid
  obtain ⟨len, -, -, pagesize⟩ := id same
  obtain ⟨nlines, nwords⟩ := baseInitialize_counts ran
  refine ⟨_, pages, orders, same, ?_, nlines, nwords, ?_⟩
  · change m.npages = _
    rw [laid.npages_eq (len ▸ fits.short), len, pagesize, rangePages]
  · have lines : m.nlines < 2 ^ 32 := nlines.trans_lt ((Nat.div_le_self _ _).trans_lt
      (s.mem.pagesize_int.trans (by decide)))
    have words : m.nwords < 2 ^ 32 := nwords.trans_lt ((Nat.div_le_self _ _).trans_lt
      (fits.line_le.trans_lt (s.mem.pagesize_int.trans (by decide))))
    rw [memInitialize, if_neg (by decide), ran]
    change (if m.initialized = true then _ else _) = _
    rw [if_pos initialized, wordsInitialize_eq array words, wordsInitialize_eq array lines]
    rfl

/-- When `mem_initialize` has room and has set all of its pointers, it returns with the list. -/
theorem exists_chainLinked (array : heap.wordArray = true) {s : ChainState} (fits : ChainFits s.mem)
    (room : heap.hasRoom s.mem = true) (length : s.p.length = maxMemParallelism) (pos : 0 < s.width)
    (few : s.width ≤ maxMemParallelism) (parts : s.width ≤ s.mem.len / s.mem.line)
    (reached : (s.width - 1) * (s.mem.len / s.mem.line / s.width) < rangeLinks s.mem) :
    ∃ s' pages, memInitialize heap draws 0 s =
        .ok ((List.range ((s'.mem.nwords * (s.mem.len / s.mem.line) + 100) / 100 * 100)).map (fun step =>
          pointersAt (s'.mem.nwords * rangeLines s.mem) (chainCell s'.mem pages (rangeLines s.mem))
            (startTurn s'.mem (rangeLines s.mem) (s.mem.len / s.mem.line / s.width)) s.width
            (step % (s'.mem.nwords * rangeLines s.mem))), s') ∧
      SameParameters s.mem s'.mem ∧ s'.mem.npages = rangePages s.mem ∧
      s'.mem.nlines = s.mem.pagesize / s.mem.line ∧ s'.mem.nwords = s.mem.line / 8 ∧
      ChainLinked s' pages (rangeLines s.mem) ∧
      StartsTo s'.mem pages (s.mem.len / s.mem.line / s.width) s.p (rangeLinks s.mem) s'.p := by
  obtain ⟨m, pages, orders, same, npages, nlines, nwords, ran⟩ := @memInitialize_eq heap draws array s fits room
  obtain ⟨len, -, line, -⟩ := id same
  obtain ⟨reach, links, lines⟩ := fits.counts npages nlines
  have part : 0 < s.mem.len / s.mem.line / s.width := Nat.div_pos parts pos
  have count := lines (pos.trans_le parts)
  obtain ⟨block, stored, base, size, ring⟩ :=
    orders.ring (Nat.succ_pos _) (lastLines_le orders.lines.nlines_pos _) count
  obtain ⟨p, linked, starts⟩ := orders.linkChain part reach length stored
  have set : ∀ k < s.width, k * (s.mem.len / s.mem.line / s.width) < chainLinks m (s.mem.len / s.mem.line) :=
    fun k inside => links ▸ start_lt reached inside
  rw [links] at starts
  have begun : ∀ k < s.width, p.read k = .ok (chainCell m pages (rangeLines s.mem)
      (startTurn m (rangeLines s.mem) (s.mem.len / s.mem.line / s.width) k)) := by
    intro k inside
    have cell := (orders.startAt_eq (set k inside)).2
    rw [starts.read_eq k (inside.trans_le few), if_pos (links ▸ set k inside), cell, count]
  have turns : ∀ k < s.width, startTurn m (rangeLines s.mem) (s.mem.len / s.mem.line / s.width) k <
      m.nwords * rangeLines s.mem := by
    intro k inside
    have turn := (orders.startAt_eq (set k inside)).1
    rwa [count] at turn
  have loaded := memBenchmarks_eq ring pos few turns begun ((m.nwords * (s.mem.len / s.mem.line) + 100) / 100)
  refine ⟨{ s with mem := { m with block }, lines := lineArray m, p }, pages, ?_, same, npages, nlines, nwords,
    ⟨⟨orders.lines.setBlock base size _, orders.line, orders.power, orders.words⟩, rfl, ring⟩,
    starts.length, starts.read_eq⟩
  have npointers : m.len / m.line = s.mem.len / s.mem.line := by rw [len, line]
  rw [ran, linkAndClear, npointers]
  exact bind_eq_ok.mpr ⟨_, linked, bind_eq_ok.mpr ⟨_, loaded, rfl⟩⟩

/-- With room, and when every pointer is set, `mem_initialize` leaves one ring through all words of the
lines that are in the list: the lines of the range, and with a part of a page at its end as many more of
that page as there are pages in front of it, if it has them. Its pointers start in the ring and load from it
only. -/
theorem memInitialize_chain (array : heap.wordArray = true) {s : ChainState} (fits : ChainFits s.mem)
    (room : heap.hasRoom s.mem = true) (length : s.p.length = maxMemParallelism) (pos : 0 < s.width)
    (few : s.width ≤ maxMemParallelism) (parts : s.width ≤ s.mem.len / s.mem.line)
    (reached : (s.width - 1) * (s.mem.len / s.mem.line / s.width) < rangeLinks s.mem) :
    ∃ loaded s' pages, memInitialize heap draws 0 s = .ok (loaded, s') ∧
      pages.Perm (offsets ((s.mem.maxlen + s.mem.pagesize - 1) / s.mem.pagesize) s.mem.pagesize) ∧
      Ring s'.mem.block.loadPointer (s.mem.line / 8 * rangeLines s.mem)
        (chainCell s'.mem pages (rangeLines s.mem)) ∧
      (∀ i j c, j < s.mem.pagesize / s.mem.line → i * (s.mem.pagesize / s.mem.line) + j < rangeLines s.mem →
        c < s.mem.line / 8 → ∃ t < s.mem.line / 8 * rangeLines s.mem,
          chainCell s'.mem pages (rangeLines s.mem) t = wordAt s'.mem pages i j (c * 8)) ∧
      (∀ k < s.width, ∃ t < s.mem.line / 8 * rangeLines s.mem,
        s'.p.read k = .ok (chainCell s'.mem pages (rangeLines s.mem) t)) ∧
      ∀ step ∈ loaded, step.length = s.width ∧ ∀ a ∈ step, ∃ t < s.mem.line / 8 * rangeLines s.mem,
        a = chainCell s'.mem pages (rangeLines s.mem) t := by
  obtain ⟨s', pages, ran, ⟨-, maxlen, -, pagesize⟩, npages, nlines, nwords, ⟨orders, -, ring⟩, starts⟩ :=
    @exists_chainLinked heap draws array s fits room length pos few parts reached
  have perm := orders.lines.perm
  rw [maxlen, pagesize] at perm
  obtain ⟨-, links, lines⟩ := fits.counts npages nlines
  have count := lines (pos.trans_le parts)
  refine ⟨_, s', pages, ran, perm, nwords ▸ ring, ?_, ?_, ?_⟩
  · intro i j c turn inside word
    rw [← nlines] at turn inside
    rw [← nwords] at word ⊢
    have word' := orders.reverse_lt c
    refine ⟨_, turn_lt word' inside, ?_⟩
    rw [chainCell_add turn inside, orders.wordOffset_reverse word]
  · intro k inside
    have set := start_lt reached inside
    obtain ⟨turn, cell⟩ := orders.startAt_eq (links ▸ set)
    rw [count] at turn cell
    refine ⟨_, nwords ▸ turn, ?_⟩
    rw [starts.read_eq k (inside.trans_le few), if_pos set, cell]
  · intro step member
    obtain ⟨n, -, rfl⟩ := List.mem_map.mp member
    refine ⟨by simp [pointersAt], fun a loaded => ?_⟩
    obtain ⟨t, -, rfl⟩ := List.mem_map.mp loaded
    rw [← nwords]
    exact ⟨_, Nat.mod_lt _ ring.pos, rfl⟩

/-- Two pages in lines of 64 bytes, for four pointers. -/
def fourPointers : ChainState :=
  { twoPagesOfLines with width := 4, p := malloc 16 }

theorem chainFits_fourPointers : ChainFits fourPointers.mem :=
  ⟨⟨3, rfl⟩, ⟨6, rfl⟩, by decide, by decide, by decide⟩

theorem memInitialize_chain_fourPointers :
    ∃ loaded s' pages, memInitialize wideHeap ⟨1, id⟩ 0 fourPointers = .ok (loaded, s') ∧
      pages.Perm (offsets ((1048576 + 4096 - 1) / 4096) 4096) ∧
      Ring s'.mem.block.loadPointer (8 * 128) (chainCell s'.mem pages 128) ∧
      (∀ i j c, j < 64 → i * 64 + j < 128 → c < 8 → ∃ t < 8 * 128,
        chainCell s'.mem pages 128 t = wordAt s'.mem pages i j (c * 8)) ∧
      (∀ k < 4, ∃ t < 8 * 128, s'.p.read k = .ok (chainCell s'.mem pages 128 t)) ∧
      ∀ step ∈ loaded, step.length = 4 ∧ ∀ a ∈ step, ∃ t < 8 * 128, a = chainCell s'.mem pages 128 t :=
  memInitialize_chain rfl chainFits_fourPointers (by decide) rfl (by decide) (by decide) (by decide) (by decide)

/-- Without a part for each pointer nothing can be linked and no pointer is set. -/
theorem linkPageLines_of_no_part {m : MemState} {lines : Option (CArray Nat)} {width npointers i rest : Nat}
    {w w' : ChainWalk} (none : npointers / width = 0)
    (ran : linkPageLines m lines width npointers i rest w = .ok w') : w'.p = w.p := by
  cases rest with
  | zero => rw [← Except.ok.inj ran]
  | succ rest =>
      rw [linkPageLines] at ran
      split at ran
      · obtain ⟨block, -, ran⟩ := bind_eq_ok.mp ran
        obtain ⟨p, set, -⟩ := bind_eq_ok.mp ran
        simp [LibMem.setStart, none] at set
      · rw [← Except.ok.inj ran]

theorem linkChain_of_no_part {m : MemState} {lines : Option (CArray Nat)} {width npointers : Nat}
    {p p' : CArray Nat} {block : Memory} (none : npointers / width = 0)
    (ran : linkChain m lines width npointers p = .ok (block, p')) : p' = p := by
  obtain ⟨w, pages, ran⟩ := bind_eq_ok.mp ran
  obtain ⟨block', -, done⟩ := bind_eq_ok.mp ran
  obtain ⟨-, rfl⟩ := Prod.mk.inj (Except.ok.inj done)
  refine forRange_inv (fun _ w => w.p = p) (Nat.zero_le _) rfl ?_ pages
  intro i w next _ _ kept page
  obtain ⟨w₁, inPage, page⟩ := bind_eq_ok.mp page
  have same := linkPageLines_of_no_part none inPage
  split at page
  · obtain ⟨block'', -, done⟩ := bind_eq_ok.mp page
    rw [← Except.ok.inj done]
    exact same.trans kept
  · rw [← Except.ok.inj page]
    exact same.trans kept

/-- Pointers that have not been set before: `mem_initialize` returns exactly when it sets all of them, so when
there is a line for each and the part of the last one begins before the last link that is counted. -/
theorem memInitialize_returns_iff (array : heap.wordArray = true) {s : ChainState} (fits : ChainFits s.mem)
    (room : heap.hasRoom s.mem = true) (fresh : s.p = malloc 16) (pos : 0 < s.width)
    (few : s.width ≤ maxMemParallelism) :
    (∃ result, memInitialize heap draws 0 s = .ok result) ↔
      s.width ≤ s.mem.len / s.mem.line ∧
        (s.width - 1) * (s.mem.len / s.mem.line / s.width) < rangeLinks s.mem := by
  have length : s.p.length = maxMemParallelism := by
    rw [fresh]
    rfl
  have unset : ∀ k v, s.p.read k ≠ .ok v := by
    intro k v
    rw [fresh]
    exact CArray.read_malloc_ne 16 k v
  constructor
  · rintro ⟨result, returned⟩
    obtain ⟨m, pages, orders, same, npages, nlines, -, ran⟩ := @memInitialize_eq heap draws array s fits room
    obtain ⟨len, -, line, -⟩ := same
    obtain ⟨reach, links, -⟩ := fits.counts npages nlines
    have npointers : m.len / m.line = s.mem.len / s.mem.line := by rw [len, line]
    rw [ran, linkAndClear, npointers] at returned
    obtain ⟨⟨block, p⟩, linked, returned⟩ := bind_eq_ok.mp returned
    obtain ⟨loaded, walked, -⟩ := bind_eq_ok.mp returned
    rw [memBenchmarks, if_pos ⟨pos, few⟩] at walked
    obtain ⟨starts, read, -⟩ := bind_eq_ok.mp walked
    have begun : ∀ k < s.width, ∃ a, p.read k = .ok a :=
      fun k inside => exists_of_mapM_ok read k (List.mem_range.mpr inside)
    have parts : s.width ≤ s.mem.len / s.mem.line := by
      by_contra short
      obtain ⟨a, first⟩ := begun 0 pos
      rw [linkChain_of_no_part (Nat.div_eq_of_lt (Nat.not_le.mp short)) linked] at first
      exact unset 0 a first
    refine ⟨parts, ?_⟩
    obtain ⟨block', stored, -⟩ := orders.ring (Nat.succ_pos _) (lastLines_le orders.lines.nlines_pos _) rfl
    obtain ⟨p', linked', set⟩ := orders.linkChain (Nat.div_pos parts pos) reach length stored
    obtain ⟨-, rfl⟩ := Prod.mk.inj (Except.ok.inj (linked.symm.trans linked'))
    obtain ⟨a, last⟩ := begun (s.width - 1) (Nat.sub_lt pos Nat.one_pos)
    rw [set.read_eq _ (by omega), links] at last
    by_contra behind
    rw [if_neg behind] at last
    exact unset _ a last
  · rintro ⟨parts, reached⟩
    obtain ⟨s', _, ran, -⟩ := @exists_chainLinked heap draws array s fits room length pos few parts reached
    exact ⟨_, ran⟩

theorem memInitialize_returns_iff_fourPointers :
    (∃ result, memInitialize wideHeap ⟨1, id⟩ 0 fourPointers = .ok result) ↔
      4 ≤ 128 ∧ (4 - 1) * (128 / 4) < rangeLinks fourPointers.mem :=
  memInitialize_returns_iff rfl chainFits_fourPointers (by decide) rfl (by decide) (by decide)

end Initialize

end Numafac.LibMem
