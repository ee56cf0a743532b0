/-
Module: Numafac.Lmbench.LineChain
Layer: Lmbench
Purpose: The search for the size of a cache line. `line_initialize` links the first word of every line of
  every page, page after page (`lineInitialize_chain`). `line_test` makes the list shorter, so that it visits
  only some lines of each page, times it and repairs it: whatever tests are made one after another, each one
  walks along the first lines of every page only, and the last one leaves the list as it was
  (`lineTests_loads`).
Trusted boundary: the translation of `line_initialize` and `line_test`; how often a test runs its loop body is
  a parameter
Main exports: LineState, linkLines, lineInitialize, shortcutLines, repairLines, lineTest, lineTests, lineCell,
  LinesLinked, lineInitialize_chain, lineTests_loads
-/
import Numafac.Base.Table
import Numafac.Lmbench.ThrashChain

namespace Numafac.LibMem

/-- The state of `line_initialize` and `line_test`, which also has the order of the lines in a page. -/
structure LineState where
  mem : MemState
  lines : Option (CArray Nat)

/-- `*(char**)(p + page + line) = p + page' + line'`, with the elements of the two orders. -/
def linkLine (addr : Nat) (pages lines : Option (CArray Nat)) (page line page' line' : Nat) (block : Memory) :
    CResult Memory := do
  let page ← element pages page
  let line ← element lines line
  let page' ← element pages page'
  let line' ← element lines line'
  block.storePointer (addr + (page + line)) (addr + (page' + line'))

/-- The loops over the pages and their lines. -/
def linkLines (addr : Nat) (pages lines : Option (CArray Nat)) (npages nlines : Nat) (block : Memory) :
    CResult Memory :=
  forRange 0 npages (fun block i => do
    let block ← forRange 0 (nlines - 1) (fun block j => linkLine addr pages lines i j i (j + 1) block) block
    linkLine addr pages lines i (nlines - 1) (if i + 1 < npages then i + 1 else 0) 0 block) block

/-- `mem_benchmark_0` behind `mem_reset`: the addresses that it loads from `p[0]` on. -/
def memBenchmark0 (iterations : Nat) (s : MemState) : CResult (List Nat) :=
  match s.p with
  | none => .error .uninitialised
  | some p => do
      let (loaded, _) ← chaseRounds s.block.loadPointer iterations 100 ([], p)
      pure loaded

/-- `line_initialize`, with the addresses that it loads to clear the cache. -/
def lineInitialize (heap : Heap) (draws : Draws) (iterations : Nat) (s : LineState) :
    CResult (List Nat × LineState) :=
  if iterations ≠ 0 then .ok ([], s)
  else do
    let m ← baseInitialize heap draws iterations s.mem
    if m.initialized then
      let lines ← wordsInitialize heap m.nlines m.line
      match lines with
      | none => pure ([], ⟨{ m with initialized := false }, none⟩)
      | some _ => do
          let block ← linkLines m.base m.pages lines m.npages m.nlines m.block
          let page ← element m.pages 0
          let first ← element lines 0
          let m := { m with block, p := some (m.base + (page + first)) }
          let loaded ← memBenchmark0 ((m.nlines * m.npages + 100) / 100) m
          pure (loaded, ⟨m, lines⟩)
    else pure ([], ⟨m, none⟩)

/-- The stores of `line_test` in front of its measurement: from the last of the first `nlines` lines of each
page to the next page. -/
def shortcutLines (s : LineState) (nlines : Nat) (block : Memory) : CResult Memory :=
  let m := s.mem
  if nlines < m.nlines then do
    let block ← forRange 0 (before m.npages) (fun block i =>
      linkLine m.base m.pages s.lines i (before nlines) (i + 1) 0 block) block
    linkLine m.base m.pages s.lines (before m.npages) (before nlines) 0 0 block
  else .ok block

/-- The stores behind its measurement: from these lines to the next one of the same page. -/
def repairLines (s : LineState) (nlines : Nat) (block : Memory) : CResult Memory :=
  let m := s.mem
  if nlines < m.nlines then do
    let block ← forRange 0 (before m.npages) (fun block i =>
      linkLine m.base m.pages s.lines i (before nlines) i nlines block) block
    linkLine m.base m.pages s.lines (before m.npages) (before nlines) (before m.npages) nlines block
  else .ok block

/-- `line_test`, with the addresses that it loads when its intervals run the hundred loads `rounds` times. -/
def lineTest (line rounds : Nat) (s : LineState) : CResult (List Nat × LineState) := do
  let nlines := s.mem.pagesize / line
  let page ← element s.mem.pages 0
  let first ← element s.lines 0
  -- the elements for `last`, which is not used
  let _ ← element s.mem.pages (before s.mem.npages)
  let _ ← element s.lines (before nlines)
  let block ← shortcutLines s nlines s.mem.block
  let (loaded, _) ← chaseRounds block.loadPointer rounds 100 ([], s.mem.base + (page + first))
  let block ← repairLines s nlines block
  pure (loaded, { s with mem := { s.mem with block } })

/-- Tests one after another. -/
def lineTests : List (Nat × Nat) → LineState → CResult (List (List Nat) × LineState)
  | [], s => .ok ([], s)
  | (line, rounds) :: tests, s => do
      let (loaded, s) ← lineTest line rounds s
      let (later, s) ← lineTests tests s
      pure (loaded :: later, s)

/-! ### The cells -/

/-- The address of a turn when `visited` lines of each page have their turns. -/
def lineCell (addr : Nat) (pages : List Nat) (width line visited k : Nat) : Nat :=
  addr + (pages.getD (k / visited) 0 + reverseBits width (k % visited) * line)

section Cells

variable {addr : Nat} {pages : List Nat} {width line visited count pagesize npages : Nat}

theorem lineCell_add {i j : Nat} (inside : j < visited) :
    lineCell addr pages width line visited (i * visited + j) =
      addr + (pages.getD i 0 + reverseBits width j * line) := by
  have pos : 0 < visited := by omega
  rw [lineCell, Nat.mul_comm, Nat.mul_add_div pos, Nat.div_eq_of_lt inside, Nat.mul_add_mod,
    Nat.mod_eq_of_lt inside,
    Nat.add_zero]

theorem mul_add_le_of_lt {i n width : Nat} (less : i < n) : i * width + width ≤ n * width := by
  rw [← Nat.add_one_mul]
  exact Nat.mul_le_mul_right _ less

theorem turn_lt {i j : Nat} (page : i < npages) (turn : j < visited) : i * visited + j < npages * visited :=
  (Nat.add_lt_add_left turn _).trans_le (mul_add_le_of_lt page)

/-- The page after a page, and the first one after the last. -/
def nextPage (npages i : Nat) : Nat :=
  if i + 1 < npages then i + 1 else 0

theorem nextPage_lt {i : Nat} (page : i < npages) : nextPage npages i < npages := by
  unfold nextPage
  split
  · assumption
  · omega

/-- Behind the last turn of a page comes the first one of the next page. -/
theorem next_of_last {i : Nat} (pos : 0 < visited) (page : i < npages) :
    (i * visited + (visited - 1) + 1) % (npages * visited) = nextPage npages i * visited := by
  have behind : i * visited + (visited - 1) + 1 = (i + 1) * visited := by
    rw [Nat.add_one_mul]
    omega
  rw [behind, nextPage]
  split
  · rename_i more
    exact Nat.mod_eq_of_lt (Nat.mul_lt_mul_of_pos_right more pos)
  · have all : i + 1 = npages := by omega
    rw [all, Nat.mod_self, Nat.zero_mul]

/-- A cell by its page and its line. -/
theorem lineCell_split (room : 2 ^ width * line ≤ pagesize) (enough : npages ≤ count)
    (perm : pages.Perm (offsets count pagesize)) {k : Nat} (inside : k < npages * visited) :
    ∃ q < count, ∃ r, pages.getD (k / visited) 0 = q * pagesize ∧ r = reverseBits width (k % visited) ∧
      r * line + line ≤ pagesize ∧ lineCell addr pages width line visited k =
        addr + (q * pagesize + r * line) := by
  have place : k / visited < count := (Nat.div_lt_of_lt_mul (by rwa [Nat.mul_comm])).trans_le enough
  have word := reverseBits_lt width (k % visited)
  obtain ⟨q, small, page⟩ := page_of_perm perm place
  refine ⟨q, small, _, page, rfl, ?_, by rw [lineCell, page]⟩
  have fits : (reverseBits width (k % visited) + 1) * line ≤ 2 ^ width * line :=
    Nat.mul_le_mul_right line (by omega)
  rw [Nat.add_one_mul] at fits
  omega

/-- Cells are one cell, or their pointers do not overlap. -/
theorem lineCell_eq_or_apart (pointer : 8 ≤ line) (room : 2 ^ width * line ≤ pagesize) (enough : npages ≤ count)
    (perm : pages.Perm (offsets count pagesize)) (few : visited ≤ 2 ^ width) {k k' : Nat}
    (inside : k < npages * visited) (inside' : k' < npages * visited) :
    k = k' ∨ Apart 8 (lineCell addr pages width line visited k)
      (lineCell addr pages width line visited k') := by
  obtain ⟨q, -, r, page, word, fits, cell⟩ := @lineCell_split addr _ _ _ _ _ _ _ room enough perm _ inside
  obtain ⟨q', -, r', page', word', fits', cell'⟩ :=
    @lineCell_split addr _ _ _ _ _ _ _ room enough perm _ inside'
  rw [cell, cell']
  rcases @eq_or_apart_of_pages addr pagesize line q q' r r' pointer fits fits' with ⟨rfl, rfl⟩ | apart
  · left
    have some : 0 < visited := Nat.pos_of_mul_pos_left (Nat.zero_lt_of_lt inside)
    have places : ∀ {k}, k < npages * visited → k / visited < count :=
      fun inside => (Nat.div_lt_of_lt_mul (by rwa [Nat.mul_comm])).trans_le enough
    have place := page_injective (by omega) perm (places inside) (places inside') (page.trans page'.symm)
    have turns := reverseBits_eq_iff.mp (word.symm.trans word')
    have turn := Nat.mod_lt k some
    have turn' := Nat.mod_lt k' some
    rw [Nat.mod_eq_of_lt (turn.trans_le few), Nat.mod_eq_of_lt (turn'.trans_le few)] at turns
    rw [← Nat.div_add_mod k visited, ← Nat.div_add_mod k' visited, place, turns]
  · exact Or.inr apart

end Cells

/-! ### The list of all lines -/

section Linking

variable {addr : Nat} {pages : List Nat} {npages nlines line : Nat}

/-- One store, by the cells. -/
theorem linkLine_eq {i j i' j' : Nat} (page : i < pages.length) (page' : i' < pages.length) (turn : j < nlines)
    (turn' : j' < nlines) (block : Memory) :
    linkLine addr (some (CArray.filled pages)) (some (CArray.filled (wordOrder nlines line))) i j i' j' block =
      block.storePointer (lineCell addr pages nlines.log2 line nlines (i * nlines + j))
        (lineCell addr pages nlines.log2 line nlines (i' * nlines + j')) := by
  rw [lineCell_add turn, lineCell_add turn', linkLine, element_pages page, element_pages page',
    element_wordOrder turn, element_wordOrder turn']
  rfl

/-- The stores of the loops link the cells in order. -/
theorem linkLines_eq (pos : 0 < nlines) (enough : npages ≤ pages.length) (block : Memory) :
    linkLines addr (some (CArray.filled pages))
      (some (CArray.filled (wordOrder nlines line))) npages nlines block =
      block.storeAll (ringStores (npages * nlines) (lineCell addr pages nlines.log2 line nlines)) := by
  let cell := lineCell addr pages nlines.log2 line nlines
  let row (i : Nat) : List (Nat × Nat) := (List.range nlines).map fun j =>
    (cell (i * nlines + j), cell ((i * nlines + j + 1) % (npages * nlines)))
  have rows : ringStores (npages * nlines) cell = (List.range npages).flatMap row := by
    have flat := congrArg (List.map fun p : Nat × Nat =>
      (cell (p.1 * nlines + p.2), cell ((p.1 * nlines + p.2 + 1) % (npages * nlines))))
      (rowMajor_eq npages nlines)
    rw [rowMajor, List.map_flatMap, List.map_map] at flat
    simp only [List.map_map] at flat
    rw [ringStores]
    refine Eq.trans ?_ flat.symm
    apply List.map_congr_left
    intro k _
    simp only [Function.comp_apply, Nat.div_add_mod']
  rw [rows]
  apply forRange_storeRows
  intro block i page
  have whole : (i + 1) * nlines ≤ npages * nlines := Nat.mul_le_mul_right nlines page
  rw [Nat.add_one_mul] at whole
  have inner : ∀ block : Memory, ∀ j < nlines - 1, linkLine addr (some (CArray.filled pages))
      (some (CArray.filled (wordOrder nlines line))) i j i (j + 1) block =
        block.storePointer (cell (i * nlines + j)) (cell ((i * nlines + j + 1) % (npages * nlines))) := by
    intro block j turn
    rw [linkLine_eq (by omega) (by omega) (by omega) (by omega), Nat.mod_eq_of_lt (by omega), Nat.add_assoc]
  have last : ∀ block : Memory, linkLine addr (some (CArray.filled pages))
      (some (CArray.filled (wordOrder nlines line))) i (nlines - 1) (nextPage npages i) 0 block =
        block.storePointer (cell (i * nlines + (nlines - 1)))
          (cell ((i * nlines + (nlines - 1) + 1) % (npages * nlines))) := by
    intro block
    rw [next_of_last pos page, ← Nat.add_zero (nextPage npages i * nlines)]
    exact linkLine_eq (by omega) ((nextPage_lt page).trans_le enough) (by omega) pos block
  exact @forRange_stores_last nlines pos _ _ (fun j => (cell (i * nlines + j),
    cell ((i * nlines + j + 1) % (npages * nlines)))) inner last block

end Linking

/-- What the orders need: lines that hold a pointer, pages of a power of two of them, and a range that is not
empty, below two gigabytes and not longer than the buffer. -/
structure LineFits (m : MemState) : Prop where
  pointer : 8 ≤ m.line
  page : m.line ≤ m.pagesize
  power : ∃ b, m.pagesize / m.line = 2 ^ b
  nonempty : 0 < m.len
  short : m.len < 2 ^ 31
  room : m.len ≤ m.maxlen

/-- A buffer with the orders of its pages and of their lines. -/
structure LineOrders (m : MemState) (pages : List Nat) : Prop where
  laid : Laid m
  pointer : 8 ≤ m.line
  fits : 2 ^ m.nlines.log2 * m.line ≤ m.pagesize
  power : m.nlines = 2 ^ m.nlines.log2
  nonempty : 0 < m.npages
  enough : m.npages ≤ (m.maxlen + m.pagesize - 1) / m.pagesize
  ordered : m.pages = some (CArray.filled pages)
  perm : pages.Perm (offsets ((m.maxlen + m.pagesize - 1) / m.pagesize) m.pagesize)

section Ring

variable {m : MemState} {pages : List Nat}

/-- The cells of the list of all lines. -/
def allLines (m : MemState) (pages : List Nat) : Nat → Nat :=
  lineCell m.base pages m.nlines.log2 m.line m.nlines

theorem LineOrders.nlines_pos (orders : LineOrders m pages) : 0 < m.nlines := by
  rw [orders.power]
  exact Nat.two_pow_pos _

theorem LineOrders.length (orders : LineOrders m pages) : m.npages ≤ pages.length := by
  rw [orders.perm.length_eq]
  simpa [offsets] using orders.enough

/-- Cells lie in the buffer. -/
theorem LineOrders.inside (orders : LineOrders m pages) {k : Nat} (inside : k < m.npages * m.nlines) :
    m.block.Inside (allLines m pages k) 8 ∧ allLines m pages k < 2 ^ 64 := by
  obtain ⟨q, small, r, -, -, inPage, cell⟩ :=
    @lineCell_split m.base _ _ _ _ _ _ _ orders.fits orders.enough orders.perm _ inside
  have below : (q + 1) * m.pagesize ≤ (m.maxlen + m.pagesize - 1) / m.pagesize * m.pagesize :=
    Nat.mul_le_mul_right _ small
  have few := Nat.div_mul_le_self (m.maxlen + m.pagesize - 1) m.pagesize
  have pointer := orders.pointer
  rw [Nat.add_one_mul] at below
  rw [allLines, cell]
  exact orders.laid.inside (by omega)

theorem LineOrders.eq_or_apart (orders : LineOrders m pages) {k k' : Nat} (inside : k < m.npages * m.nlines)
    (inside' : k' < m.npages * m.nlines) : k = k' ∨ Apart 8 (allLines m pages k) (allLines m pages k') :=
  lineCell_eq_or_apart orders.pointer orders.fits orders.enough orders.perm orders.power.le inside inside'

theorem not_apart_self (a : Nat) : ¬ Apart 8 a a := by
  unfold Apart
  omega

/-- The ring that the loops leave. -/
theorem LineOrders.ring (orders : LineOrders m pages) :
    ∃ block, linkLines m.base (some (CArray.filled pages)) (some (CArray.filled (wordOrder m.nlines m.line)))
        m.npages m.nlines m.block = .ok block ∧ block.base = m.block.base ∧ block.size = m.block.size ∧
      Ring block.loadPointer (m.npages * m.nlines) (allLines m pages) := by
  have some := orders.nlines_pos
  have total : 0 < m.npages * m.nlines := Nat.mul_pos orders.nonempty some
  rw [linkLines_eq some orders.length]
  apply exists_ring_of_lastStore
  · intro store member
    obtain ⟨k, inside, rfl⟩ := mem_ringStores.mp member
    exact (orders.inside inside).1
  · intro store member
    obtain ⟨k, -, rfl⟩ := mem_ringStores.mp member
    exact (orders.inside (Nat.mod_lt _ total)).2
  · intro store member store' member'
    obtain ⟨k, inside, rfl⟩ := mem_ringStores.mp member
    obtain ⟨k', inside', rfl⟩ := mem_ringStores.mp member'
    exact (orders.eq_or_apart inside inside').imp (fun same => by rw [same]) id
  · exact total
  · intro k inside k' inside' same
    refine (orders.eq_or_apart inside inside').resolve_right fun apart => ?_
    rw [same] at apart
    exact not_apart_self _ apart
  · intro k inside
    -- each cell is stored to once
    apply lastStore_map_range inside
    intro j later inside' same
    refine (orders.eq_or_apart inside' inside).elim (fun equal => ?_) fun apart => ?_
    · omega
    · rw [show allLines m pages j = allLines m pages k from same] at apart
      exact not_apart_self _ apart

/-- The orders do not depend on what the block holds, nor on where `p[0]` points to. -/
theorem LineOrders.setBlock (orders : LineOrders m pages) {block : Memory} (base : block.base = m.block.base)
    (size : block.size = m.block.size) (p : Option Nat) : LineOrders { m with block, p } pages := by
  obtain ⟨laid, pointer, fits, power, nonempty, enough, ordered, perm⟩ := orders
  exact ⟨(laid.setBlock base size).setPointer p, pointer, fits, power, nonempty, enough, ordered, perm⟩

end Ring

/-- The list of all lines of the range. -/
structure LinesLinked (s : LineState) (pages : List Nat) : Prop where
  orders : LineOrders s.mem pages
  lines : s.lines = some (CArray.filled (wordOrder s.mem.nlines s.mem.line))
  start : s.mem.p = some (allLines s.mem pages 0)
  ring : Ring s.mem.block.loadPointer (s.mem.npages * s.mem.nlines) (allLines s.mem pages)

/-! ### `line_initialize` -/

section Initialize

variable {heap : Heap} {draws : Draws}

theorem baseInitialize_counts {m m' : MemState} (ran : baseInitialize heap draws 0 m = .ok m') :
    m'.nlines = m.pagesize / m.line ∧ m'.nwords = m.line / 8 := by
  obtain ⟨pages, -, done⟩ := bind_eq_ok.mp ran
  rw [← Except.ok.inj done]
  unfold allocate
  split
  · exact ⟨rfl, rfl⟩
  · exact ⟨rfl, rfl⟩

/-- The orders that `base_initialize` leaves. -/
theorem LineFits.orders {m m' : MemState} (fits : LineFits m) (ran : baseInitialize heap draws 0 m = .ok m')
    (same : SameParameters m m') (laid : Laid m') : ∃ pages, LineOrders m' pages := by
  obtain ⟨pointer, page, ⟨b, power⟩, nonempty, short, room⟩ := fits
  have counts := (baseInitialize_counts ran).1
  obtain ⟨len, maxlen, line, pagesize⟩ := same
  have npages := laid.npages_eq (len ▸ short)
  obtain ⟨pages, ordered, perm⟩ := laid.ordered
  have log : m'.nlines.log2 = b := by rw [counts, power, Nat.log2_two_pow]
  refine ⟨pages, laid, line ▸ pointer, ?_, ?_, ?_, ?_, ordered, perm⟩
  · rw [log, ← power, line, pagesize]
    exact Nat.div_mul_le_self _ _
  · rw [log, counts, power]
  · rw [npages, len, pagesize]
    exact Nat.div_pos (by have := m.pagesize_pos; omega) m.pagesize_pos
  · rw [npages, len, maxlen]
    exact Nat.div_le_div_right (by omega)

/-- A walk of whole hundreds that is long enough visits every cell of a ring. -/
theorem memBenchmark0_visits {m : MemState} {count : Nat} {cell : Nat → Nat} (start : m.p = some (cell 0))
    (ring : Ring m.block.loadPointer count cell) :
    ∃ loaded, memBenchmark0 ((count + 100) / 100) m = .ok loaded ∧ ∀ k < count, cell k ∈ loaded := by
  have walked := ring.chaseRounds 0 0 ((count + 100) / 100) 100
  have first : Ring.walk count cell 0 0 = ([], cell 0) := by simp [Ring.walk]
  rw [first, Nat.zero_add] at walked
  refine ⟨(Ring.walk count cell 0 ((count + 100) / 100 * 100)).1, ?_, ?_⟩
  · rw [memBenchmark0, start]
    exact bind_eq_ok.mpr ⟨_, walked, rfl⟩
  · intro k inside
    have often := (ring.visits_bounds inside 0 ((count + 100) / 100 * 100)).1
    have lap : 1 ≤ (count + 100) / 100 * 100 / count := Nat.div_pos (by omega) ring.pos
    exact List.count_pos_iff.mp (lap.trans often)

/-- With room the list of all lines is linked, and every cell of it is loaded. -/
theorem exists_linesLinked (array : heap.wordArray = true) {s : LineState} (fits : LineFits s.mem)
    (room : heap.hasRoom s.mem = true) :
    ∃ loaded s' pages, lineInitialize heap draws 0 s = .ok (loaded, s') ∧ SameParameters s.mem s'.mem ∧
      s'.mem.npages = (s.mem.len + s.mem.pagesize - 1) / s.mem.pagesize ∧
      s'.mem.nlines = s.mem.pagesize / s.mem.line ∧ LinesLinked s' pages ∧
      ∀ k < s'.mem.npages * s'.mem.nlines, allLines s'.mem pages k ∈ loaded := by
  obtain ⟨m, ran, same, initialized, laidOut⟩ :=
    @baseInitialize_spec heap draws s.mem (fits.nonempty.trans_le fits.room)
  have laid := laidOut room
  rw [room] at initialized
  have counts := (baseInitialize_counts ran).1
  obtain ⟨pages, orders⟩ := fits.orders ran same laid
  obtain ⟨block, linked, base, size, ring⟩ := orders.ring
  have first : allLines m pages 0 = m.base + (pages.getD 0 0 + reverseBits m.nlines.log2 0 * m.line) := by
    rw [allLines, lineCell, Nat.zero_div, Nat.zero_mod]
  obtain ⟨loaded, clears, visited⟩ :=
    @memBenchmark0_visits { m with block, p := some (allLines m pages 0) } _ (allLines m pages) rfl ring
  refine ⟨loaded, ⟨{ m with block, p := some (allLines m pages 0) },
    some (CArray.filled (wordOrder m.nlines m.line))⟩, pages, ?_, same, ?_, counts,
    ⟨orders.setBlock base size _, rfl, rfl, ring⟩, visited⟩
  · have page : element m.pages 0 = .ok (pages.getD 0 0) := by
      rw [orders.ordered]
      exact element_pages (orders.nonempty.trans_le orders.length)
    have line := @element_wordOrder m.nlines m.line 0 orders.nlines_pos
    rw [Nat.mul_comm] at clears
    rw [lineInitialize, if_neg (by decide)]
    refine bind_eq_ok.mpr ⟨m, ran, ?_⟩
    rw [if_pos initialized]
    have few : m.nlines < 2 ^ 32 := counts.trans_lt ((Nat.div_le_self _ _).trans_lt
      (s.mem.pagesize_int.trans (by decide)))
    refine bind_eq_ok.mpr ⟨_, wordsInitialize_eq array few _, ?_⟩
    refine bind_eq_ok.mpr ⟨block, ?_, bind_eq_ok.mpr ⟨_, page, bind_eq_ok.mpr ⟨_, line, ?_⟩⟩⟩
    · rw [orders.ordered]
      exact linked
    · rw [← first]
      exact bind_eq_ok.mpr ⟨loaded, clears, rfl⟩
  · obtain ⟨len, -, -, pagesize⟩ := same
    rw [laid.npages_eq (len ▸ fits.short), len, pagesize]

end Initialize

/-! ### `line_test` -/

section Tests

variable {s : LineState} {pages : List Nat} {visited : Nat}

/-- The cells that a test visits: the first `visited` turns of each page. -/
def firstLines (m : MemState) (pages : List Nat) (visited : Nat) : Nat → Nat :=
  lineCell m.base pages m.nlines.log2 m.line visited

theorem firstLines_add {m : MemState} (few : visited ≤ m.nlines) {i j : Nat} (turn : j < visited) :
    firstLines m pages visited (i * visited + j) = allLines m pages (i * m.nlines + j) := by
  rw [firstLines, allLines, lineCell_add turn, lineCell_add (turn.trans_le few)]

theorem LineOrders.npages_lt {m : MemState} (orders : LineOrders m pages) : m.npages < 2 ^ 64 := by
  have short := Nat.div_le_self (m.maxlen + m.pagesize - 1) m.pagesize
  have enough := orders.enough
  have low := orders.laid.low
  have high := orders.laid.high
  have inRange := orders.laid.inRange
  omega

theorem LineOrders.nlines_lt {m : MemState} (orders : LineOrders m pages) : m.nlines < 2 ^ 64 := by
  have single : m.nlines * 1 ≤ m.nlines * m.line := Nat.mul_le_mul_left _ m.line_pos
  have fits := orders.fits
  rw [← orders.power] at fits
  have low := orders.laid.low
  have high := orders.laid.high
  have inRange := orders.laid.inRange
  omega

/-- Stores to one cell of each page: the other cells stay. -/
theorem LineOrders.patch {m : MemState} (orders : LineOrders m pages) {block : Memory}
    (base : block.base = m.block.base) (size : block.size = m.block.size) {turn : Nat}
    (inside : turn < m.nlines)
    {target : Nat → Nat} (small : ∀ i < m.npages, target i < m.npages * m.nlines) :
    ∃ block', block.storeAll ((List.range m.npages).map fun i =>
        (allLines m pages (i * m.nlines + turn), allLines m pages (target i))) = .ok block' ∧
      block'.base = m.block.base ∧ block'.size = m.block.size ∧
      (∀ i < m.npages, block'.loadPointer (allLines m pages (i * m.nlines + turn)) =
        .ok (allLines m pages (target i))) ∧
      ∀ k < m.npages * m.nlines, k % m.nlines ≠ turn →
        block'.loadPointer (allLines m pages k) = block.loadPointer (allLines m pages k) := by
  have place : ∀ {i}, i < m.npages → i * m.nlines + turn < m.npages * m.nlines := fun page =>
    turn_lt page inside
  have within : ∀ {k}, k < m.npages * m.nlines → block.Inside (allLines m pages k) 8 := by
    intro k inside
    have there := (orders.inside inside).1
    rwa [Memory.Inside, ← base, ← size] at there
  let store (i : Nat) : Nat × Nat := (allLines m pages (i * m.nlines + turn), allLines m pages (target i))
  have same_or_apart : ∀ {i j}, i < m.npages → j < m.npages → i = j ∨ Apart 8 (store i).1 (store j).1 := by
    intro i j page page'
    refine (orders.eq_or_apart (place page) (place page')).imp (fun same => ?_) id
    exact Nat.eq_of_mul_eq_mul_right orders.nlines_pos (Nat.add_right_cancel same)
  have into : ∀ s ∈ (List.range m.npages).map store, block.Inside s.1 8 := by
    intro s member
    obtain ⟨i, page, rfl⟩ := List.mem_map.mp member
    exact within (place (List.mem_range.mp page))
  have values : ∀ s ∈ (List.range m.npages).map store, s.2 < 2 ^ 64 := by
    intro s member
    obtain ⟨i, page, rfl⟩ := List.mem_map.mp member
    exact (orders.inside (small i (List.mem_range.mp page))).2
  have separate : ∀ s ∈ (List.range m.npages).map store, ∀ s' ∈ (List.range m.npages).map store,
      s.1 = s'.1 ∨ Apart 8 s.1 s'.1 := by
    intro s member s' member'
    obtain ⟨i, page, rfl⟩ := List.mem_map.mp member
    obtain ⟨j, page', rfl⟩ := List.mem_map.mp member'
    exact (same_or_apart (List.mem_range.mp page) (List.mem_range.mp page')).imp (fun same => by rw [same]) id
  obtain ⟨block', ran, base', size', loads⟩ := Memory.storeAll_spec into values separate
  refine ⟨block', ran, base'.trans base, size'.trans size, fun i page => ?_, fun k inside' other => ?_⟩
  · refine loads _ _ (@lastStore_map_range store _ i page fun j later page' same => ?_)
    rcases same_or_apart page' page with equal | apart
    · omega
    · rw [same] at apart
      exact not_apart_self _ apart
  · apply Memory.storeAll_apart ran
    intro s member
    obtain ⟨i, page, rfl⟩ := List.mem_map.mp member
    refine (orders.eq_or_apart inside' (place (List.mem_range.mp page))).resolve_left fun same => other ?_
    rw [same, Nat.mul_comm, Nat.mul_add_mod, Nat.mod_eq_of_lt inside]

/-- A store of `line_test`, by the cells. -/
theorem LinesLinked.linkLine_eq (linked : LinesLinked s pages) {i j i' j' : Nat} (page : i < s.mem.npages)
    (page' : i' < s.mem.npages) (turn : j < s.mem.nlines) (turn' : j' < s.mem.nlines) (block : Memory) :
    linkLine s.mem.base s.mem.pages s.lines i j i' j' block =
      block.storePointer (allLines s.mem pages (i * s.mem.nlines + j))
        (allLines s.mem pages (i' * s.mem.nlines + j')) := by
  have length := linked.orders.length
  rw [linked.orders.ordered, linked.lines]
  exact LibMem.linkLine_eq (page.trans_le length) (page'.trans_le length) turn turn' block

theorem LinesLinked.shortcutLines_eq (linked : LinesLinked s pages) (pos : 0 < visited)
    (few : visited < s.mem.nlines) (block : Memory) :
    shortcutLines s visited block = block.storeAll ((List.range s.mem.npages).map fun i =>
      (allLines s.mem pages (i * s.mem.nlines + (visited - 1)),
        allLines s.mem pages (nextPage s.mem.npages i * s.mem.nlines + 0))) := by
  have nonempty := linked.orders.nonempty
  rw [shortcutLines, if_pos few, before_eq nonempty linked.orders.npages_lt,
    before_eq pos (few.trans linked.orders.nlines_lt)]
  refine @forRange_stores_last s.mem.npages nonempty _ _ (fun i =>
    (allLines s.mem pages (i * s.mem.nlines + (visited - 1)),
      allLines s.mem pages (nextPage s.mem.npages i * s.mem.nlines + 0))) ?_ ?_ block
  · intro block i page
    have next : nextPage s.mem.npages i = i + 1 := if_pos (by omega)
    rw [next]
    exact linked.linkLine_eq (by omega) (by omega) (by omega) (by omega) block
  · intro block
    have next : nextPage s.mem.npages (s.mem.npages - 1) = 0 := if_neg (by omega)
    rw [next]
    exact linked.linkLine_eq (by omega) nonempty (by omega) (by omega) block

theorem LinesLinked.repairLines_eq (linked : LinesLinked s pages) (pos : 0 < visited)
    (few : visited < s.mem.nlines) (block : Memory) :
    repairLines s visited block = block.storeAll ((List.range s.mem.npages).map fun i =>
      (allLines s.mem pages (i * s.mem.nlines + (visited - 1)),
        allLines s.mem pages (i * s.mem.nlines + visited))) := by
  have nonempty := linked.orders.nonempty
  rw [repairLines, if_pos few, before_eq nonempty linked.orders.npages_lt,
    before_eq pos (few.trans linked.orders.nlines_lt)]
  refine @forRange_stores_last s.mem.npages nonempty _ _ (fun i =>
    (allLines s.mem pages (i * s.mem.nlines + (visited - 1)),
      allLines s.mem pages (i * s.mem.nlines + visited))) ?_ ?_ block
  · intro block i page
    exact linked.linkLine_eq (by omega) (by omega) (by omega) few block
  · intro block
    exact linked.linkLine_eq (by omega) (by omega) (by omega) few block

/-- The lists with a shortcut: the cells that have it point to another one than before. -/
structure Shortened (s : LineState) (pages : List Nat) (visited : Nat) (block : Memory) : Prop where
  base : block.base = s.mem.block.base
  size : block.size = s.mem.block.size
  kept : ∀ k < s.mem.npages * s.mem.nlines, (visited < s.mem.nlines → k % s.mem.nlines ≠ visited - 1) →
    block.loadPointer (allLines s.mem pages k) = s.mem.block.loadPointer (allLines s.mem pages k)
  ring : Ring block.loadPointer (s.mem.npages * visited) (firstLines s.mem pages visited)

/-- The stores in front of a measurement leave a ring of the first lines only. -/
theorem LinesLinked.shortcut (linked : LinesLinked s pages) (pos : 0 < visited) (few : visited ≤ s.mem.nlines) :
    ∃ block, shortcutLines s visited s.mem.block = .ok block ∧ Shortened s pages visited block := by
  rcases few.lt_or_eq with few | rfl
  case inr => exact ⟨s.mem.block, if_neg (Nat.lt_irrefl _), rfl, rfl, fun _ _ _ => rfl, linked.ring⟩
  have orders := linked.orders
  obtain ⟨block, ran, base, size, changed, kept⟩ := @LineOrders.patch pages s.mem orders s.mem.block rfl rfl
    (visited - 1) (by omega) (fun i => nextPage s.mem.npages i * s.mem.nlines + 0)
    fun i page => turn_lt (nextPage_lt page) orders.nlines_pos
  refine ⟨block, (linked.shortcutLines_eq pos few _).trans ran, base, size,
    fun k inside other => kept k inside (other few), Nat.mul_pos orders.nonempty pos, ?_, ?_⟩
  · intro k inside k' inside' same
    have width : visited ≤ 2 ^ s.mem.nlines.log2 := orders.power ▸ few.le
    have cells : k = k' ∨ Apart 8 (firstLines s.mem pages visited k) (firstLines s.mem pages visited k') :=
      lineCell_eq_or_apart orders.pointer orders.fits orders.enough orders.perm width inside inside'
    rw [same] at cells
    exact cells.resolve_right (not_apart_self _)
  · intro k inside
    obtain ⟨i, j, turn, rfl⟩ : ∃ i j, j < visited ∧ k = i * visited + j :=
      ⟨k / visited, k % visited, Nat.mod_lt k pos, (Nat.div_add_mod' k visited).symm⟩
    have page : i < s.mem.npages := by
      by_contra beyond
      have most := Nat.mul_le_mul_right visited (Nat.not_lt.mp beyond)
      omega
    rw [firstLines_add few.le turn]
    by_cases last : j = visited - 1
    · rw [last, changed i page, next_of_last pos page, ← Nat.add_zero (nextPage s.mem.npages i * visited),
        firstLines_add few.le pos]
    · -- this cell was not stored to
      have more : j + 1 < visited := by omega
      have here : (i * s.mem.nlines + j) % s.mem.nlines = j := by
        rw [Nat.mul_comm, Nat.mul_add_mod, Nat.mod_eq_of_lt (by omega)]
      rw [kept _ (turn_lt page (by omega)) (here.trans_ne last),
        linked.ring.next_eq _ (turn_lt page (by omega)), Nat.add_assoc, Nat.add_assoc,
        Nat.mod_eq_of_lt (turn_lt page (by omega)), Nat.mod_eq_of_lt (turn_lt page more),
          firstLines_add few.le more]

/-- A block with the pointers of the list of all lines has that list. -/
theorem LinesLinked.setBlock (linked : LinesLinked s pages) {block : Memory}
    (base : block.base = s.mem.block.base)
    (size : block.size = s.mem.block.size) (next : ∀ k < s.mem.npages * s.mem.nlines,
      block.loadPointer (allLines s.mem pages k) =
        .ok (allLines s.mem pages ((k + 1) % (s.mem.npages * s.mem.nlines)))) :
    LinesLinked { s with mem := { s.mem with block } } pages := by
  obtain ⟨orders, lines, start, ring⟩ := linked
  exact ⟨orders.setBlock base size _, lines, start, ring.pos, ring.distinct, next⟩

/-- The stores behind it repair the list of all lines. -/
theorem LinesLinked.repair (linked : LinesLinked s pages) (pos : 0 < visited) (few : visited ≤ s.mem.nlines)
    {block : Memory} (shortened : Shortened s pages visited block) :
    ∃ block', repairLines s visited block = .ok block' ∧
      LinesLinked { s with mem := { s.mem with block := block' } } pages := by
  obtain ⟨base, size, kept, -⟩ := shortened
  rcases few.lt_or_eq with few | rfl
  case inr =>
    refine ⟨block, if_neg (Nat.lt_irrefl _), linked.setBlock base size fun k inside => ?_⟩
    rw [kept k inside fun less => absurd less (Nat.lt_irrefl _)]
    exact linked.ring.next_eq k inside
  obtain ⟨block', ran, base', size', changed, kept'⟩ :=
    @LineOrders.patch pages s.mem linked.orders block base size
    (visited - 1) (by omega) (fun i => i * s.mem.nlines + visited) fun i page => turn_lt page few
  refine ⟨block', (linked.repairLines_eq pos few block).trans ran,
    linked.setBlock base' size' fun k inside => ?_⟩
  by_cases last : k % s.mem.nlines = visited - 1
  · have page : k / s.mem.nlines < s.mem.npages := Nat.div_lt_of_lt_mul (by rwa [Nat.mul_comm])
    have here : k = k / s.mem.nlines * s.mem.nlines + (visited - 1) := by rw [← last, Nat.div_add_mod']
    have next : k + 1 = k / s.mem.nlines * s.mem.nlines + visited := by omega
    rw [next, Nat.mod_eq_of_lt (turn_lt page few), ← changed _ page, ← here]
  · rw [kept' k inside last, kept k inside fun _ => last]
    exact linked.ring.next_eq k inside

/-- A test walks along its ring and leaves the list of all lines. -/
theorem LinesLinked.test (linked : LinesLinked s pages) {size : Nat} (pos : 0 < s.mem.pagesize / size)
    (few : s.mem.pagesize / size ≤ s.mem.nlines) (rounds : Nat) :
    ∃ block, lineTest size rounds s =
        .ok ((Ring.walk (s.mem.npages * (s.mem.pagesize / size))
          (firstLines s.mem pages (s.mem.pagesize / size)) 0
          (rounds * 100)).1, { s with mem := { s.mem with block } }) ∧
      LinesLinked { s with mem := { s.mem with block } } pages := by
  have orders := linked.orders
  have inPages : ∀ {i}, i < s.mem.npages → element s.mem.pages i = .ok (pages.getD i 0) := by
    intro i page
    rw [orders.ordered]
    exact element_pages (page.trans_le orders.length)
  have inLines : ∀ {j}, j < s.mem.nlines →
      element s.lines j = .ok (reverseBits s.mem.nlines.log2 j * s.mem.line) := by
    intro j turn
    rw [linked.lines]
    exact element_wordOrder turn
  have lastPage : before s.mem.npages < s.mem.npages := by
    rw [before_eq orders.nonempty orders.npages_lt]
    exact Nat.pred_lt (Nat.ne_of_gt orders.nonempty)
  have lastLine : before (s.mem.pagesize / size) < s.mem.nlines := by
    rw [before_eq pos (few.trans_lt orders.nlines_lt)]
    omega
  obtain ⟨short, shortened, ring⟩ := linked.shortcut pos few
  obtain ⟨block, repaired, whole⟩ := linked.repair pos few ring
  have first : Ring.walk (s.mem.npages * (s.mem.pagesize / size))
      (firstLines s.mem pages (s.mem.pagesize / size)) 0
      0 = ([], s.mem.base + (pages.getD 0 0 + reverseBits s.mem.nlines.log2 0 * s.mem.line)) := by
    simp [Ring.walk, firstLines, lineCell]
  have walked := ring.ring.chaseRounds 0 0 rounds 100
  rw [first, Nat.zero_add] at walked
  refine ⟨block, ?_, whole⟩
  refine bind_eq_ok.mpr ⟨_, inPages orders.nonempty, bind_eq_ok.mpr ⟨_, inLines orders.nlines_pos, ?_⟩⟩
  refine bind_eq_ok.mpr ⟨_, inPages lastPage, bind_eq_ok.mpr ⟨_, inLines lastLine, ?_⟩⟩
  exact bind_eq_ok.mpr ⟨short, shortened, bind_eq_ok.mpr ⟨_, walked, bind_eq_ok.mpr ⟨block, repaired, rfl⟩⟩⟩

/-- The sizes that are tested: the line of the list times a power of two, up to the page. -/
def LineSize (m : MemState) (size : Nat) : Prop :=
  size ≤ m.pagesize ∧ ∃ e, size = m.line * 2 ^ e

/-- The loads of a test: all at multiples of the tested size in the pages of the range, at each one as often
as at any other but for one time. -/
structure LinesLoaded (m : MemState) (pages : List Nat) (test : Nat × Nat) (loaded : List Nat) : Prop where
  length : loaded.length = test.2 * 100
  inside : ∀ a ∈ loaded, ∃ i < m.npages, ∃ c < m.pagesize / test.1, a = m.base + (pages.getD i 0 + c * test.1)
  low : ∀ i < m.npages, ∀ c < m.pagesize / test.1,
    test.2 * 100 / (m.npages * (m.pagesize / test.1)) ≤ loaded.count (m.base + (pages.getD i 0 + c * test.1))
  high : ∀ i < m.npages, ∀ c < m.pagesize / test.1,
    loaded.count (m.base + (pages.getD i 0 + c * test.1)) ≤ test.2 * 100 /
      (m.npages * (m.pagesize / test.1)) + 1

/-- The multiples do not depend on what the block holds. -/
theorem LinesLoaded.of_setBlock {m : MemState} {block : Memory} {test : Nat × Nat} {loaded : List Nat}
    (even : LinesLoaded { m with block } pages test loaded) : LinesLoaded m pages test loaded := by
  obtain ⟨length, inside, low, high⟩ := even
  exact ⟨length, inside, low, high⟩

/-- The first lines of a page are the multiples of the tested size, in another order. -/
theorem lineCell_multiple {addr width low line : Nat} (fewer : low ≤ width) (k : Nat) :
    lineCell addr pages width line (2 ^ low) k =
      addr + (pages.getD (k / 2 ^ low) 0 + reverseBits low (k % 2 ^ low) * (line * 2 ^ (width - low))) := by
  rw [lineCell, reverseBits_of_lt fewer (Nat.mod_lt _ (Nat.two_pow_pos low)), Nat.mul_assoc, Nat.mul_comm line]

/-- Each multiple has its turn. -/
theorem exists_lineCell {addr width low line npages i c : Nat} (fewer : low ≤ width) (page : i < npages)
    (small : c < 2 ^ low) : ∃ k < npages * 2 ^ low,
      lineCell addr pages width line (2 ^ low) k =
        addr + (pages.getD i 0 + c * (line * 2 ^ (width - low))) := by
  have turn := reverseBits_lt low c
  refine ⟨i * 2 ^ low + reverseBits low c, turn_lt page turn, ?_⟩
  rw [lineCell_multiple fewer, Nat.mul_comm i, Nat.mul_add_div (Nat.two_pow_pos low), Nat.div_eq_of_lt turn,
    Nat.mul_add_mod, Nat.mod_eq_of_lt turn, reverseBits_reverseBits, Nat.mod_eq_of_lt small, Nat.add_zero]

/-- How many lines a test visits. -/
theorem LineOrders.visited_eq {m : MemState} (orders : LineOrders m pages)
    (counts : m.nlines = m.pagesize / m.line)
    {size : Nat} (tested : LineSize m size) : ∃ low ≤ m.nlines.log2, m.pagesize / size = 2 ^ low ∧
      size = m.line * 2 ^ (m.nlines.log2 - low) := by
  obtain ⟨inPage, e, rfl⟩ := tested
  have quotient : m.pagesize / (m.line * 2 ^ e) = m.nlines / 2 ^ e := by rw [← Nat.div_div_eq_div_mul, counts]
  have some : 0 < m.pagesize / (m.line * 2 ^ e) :=
    Nat.div_pos inPage (Nat.mul_pos m.line_pos (Nat.two_pow_pos e))
  have few : 2 ^ e ≤ 2 ^ m.nlines.log2 := by
    rw [← orders.power]
    exact (Nat.div_pos_iff.mp (quotient ▸ some)).2
  have small : e ≤ m.nlines.log2 := (Nat.pow_le_pow_iff_right (by decide)).mp few
  refine ⟨m.nlines.log2 - e, Nat.sub_le _ _, ?_, by rw [Nat.sub_sub_self small]⟩
  rw [quotient]
  conv_lhs => rw [orders.power]
  exact Nat.pow_div small (by decide)

/-- What a test loads. -/
theorem LinesLinked.linesLoaded (linked : LinesLinked s pages)
    (counts : s.mem.nlines = s.mem.pagesize / s.mem.line)
    {size : Nat} (tested : LineSize s.mem size) (rounds : Nat) :
    ∃ loaded block, lineTest size rounds s = .ok (loaded, { s with mem := { s.mem with block } }) ∧
      LinesLinked { s with mem := { s.mem with block } } pages ∧
        LinesLoaded s.mem pages (size, rounds) loaded := by
  obtain ⟨low, fewer, visited, scaled⟩ := linked.orders.visited_eq counts tested
  have pos : 0 < s.mem.pagesize / size := visited ▸ Nat.two_pow_pos low
  have few : s.mem.pagesize / size ≤ s.mem.nlines := by
    rw [visited, linked.orders.power]
    exact Nat.pow_le_pow_right (by decide) fewer
  obtain ⟨block, ran, whole⟩ := linked.test pos few rounds
  obtain ⟨_, -, -, -, -, ring⟩ := linked.shortcut pos few
  refine ⟨_, block, ran, whole, ?_⟩
  rw [firstLines, visited] at ring ⊢
  have even : ∀ i < s.mem.npages, ∀ c < s.mem.pagesize / size, ∃ k < s.mem.npages * 2 ^ low,
      lineCell s.mem.base pages s.mem.nlines.log2 s.mem.line (2 ^ low) k =
        s.mem.base + (pages.getD i 0 + c * size) := by
    intro i page c small
    rw [visited] at small
    obtain ⟨k, inside, cell⟩ := @exists_lineCell pages s.mem.base _ _ s.mem.line _ _ _ fewer page small
    exact ⟨k, inside, by rw [cell, ← scaled]⟩
  constructor
  case length => simp [Ring.walk]
  case inside =>
    intro a member
    obtain ⟨t, -, rfl⟩ := List.mem_map.mp member
    have turn := Nat.mod_lt t ring.pos
    have small := (reverseBits_lt low (t % (s.mem.npages * 2 ^ low) % 2 ^ low)).trans_eq visited.symm
    refine ⟨_, Nat.div_lt_of_lt_mul (by rwa [Nat.mul_comm]), _, small, ?_⟩
    rw [lineCell_multiple fewer, ← scaled]
  case low =>
    intro i page c small
    obtain ⟨k, inside, cell⟩ := even i page c small
    rw [← cell, visited]
    exact (ring.visits_bounds inside 0 _).1
  case high =>
    intro i page c small
    obtain ⟨k, inside, cell⟩ := even i page c small
    rw [← cell, visited]
    exact (ring.visits_bounds inside 0 _).2

/-- Every test of a run finds the list of all lines. -/
theorem LinesLinked.tests (linked : LinesLinked s pages) (counts : s.mem.nlines = s.mem.pagesize / s.mem.line)
    {tests : List (Nat × Nat)} (sizes : ∀ test ∈ tests, LineSize s.mem test.1) :
    ∃ loads block, lineTests tests s = .ok (loads, { s with mem := { s.mem with block } }) ∧
      LinesLinked { s with mem := { s.mem with block } } pages ∧
        List.Forall₂ (LinesLoaded s.mem pages) tests loads := by
  induction tests generalizing s with
  | nil => exact ⟨[], s.mem.block, rfl, linked, List.Forall₂.nil⟩
  | cons test tests ih =>
      obtain ⟨size, rounds⟩ := test
      have tested : LineSize s.mem size := sizes (size, rounds) List.mem_cons_self
      obtain ⟨loaded, block, ran, whole, even⟩ := linked.linesLoaded counts tested rounds
      obtain ⟨later, last, ran', whole', even'⟩ :=
        ih whole counts fun test member => sizes test (List.mem_cons_of_mem _ member)
      exact ⟨loaded :: later, last, bind_eq_ok.mpr ⟨_, ran, bind_eq_ok.mpr ⟨_, ran', rfl⟩⟩, whole',
        List.Forall₂.cons even (even'.imp fun _ _ => LinesLoaded.of_setBlock)⟩

end Tests

/-! ### Main results -/

section Main

variable {heap : Heap} {draws : Draws}

/-- With room `line_initialize` leaves a ring from `p[0]` on through the first word of every line of every
page of the range, each once, and its own walk has loaded every one of them. -/
theorem lineInitialize_chain (array : heap.wordArray = true) {s : LineState} (fits : LineFits s.mem)
    (room : heap.hasRoom s.mem = true) :
    ∃ loaded s' pages, lineInitialize heap draws 0 s = .ok (loaded, s') ∧
      pages.Perm (offsets ((s.mem.maxlen + s.mem.pagesize - 1) / s.mem.pagesize) s.mem.pagesize) ∧
      s'.mem.p = some (allLines s'.mem pages 0) ∧
      Ring s'.mem.block.loadPointer ((s.mem.len + s.mem.pagesize - 1) / s.mem.pagesize *
        (s.mem.pagesize / s.mem.line)) (allLines s'.mem pages) ∧
      ∀ i < (s.mem.len + s.mem.pagesize - 1) / s.mem.pagesize, ∀ c < s.mem.pagesize / s.mem.line,
        ∃ k < (s.mem.len + s.mem.pagesize - 1) / s.mem.pagesize * (s.mem.pagesize / s.mem.line),
          allLines s'.mem pages k = s'.mem.base + (pages.getD i 0 + c * s.mem.line) ∧
            allLines s'.mem pages k ∈ loaded := by
  obtain ⟨loaded, s', pages, ran, ⟨len, maxlen, line, pagesize⟩, npages, nlines, linked, visited⟩ :=
    exists_linesLinked array fits room
  have perm := linked.orders.perm
  have ring := linked.ring
  rw [maxlen, pagesize] at perm
  rw [npages, nlines] at ring visited
  refine ⟨loaded, s', pages, ran, perm, linked.start, ring, fun i page c small => ?_⟩
  have power := linked.orders.power
  rw [← nlines, power] at small
  obtain ⟨k, inside, cell⟩ := @exists_lineCell pages s'.mem.base _ _ s'.mem.line _ _ _ (le_refl _) page small
  rw [← power, nlines] at inside
  rw [← power, Nat.sub_self, Nat.pow_zero, Nat.mul_one] at cell
  exact ⟨k, inside, cell.trans (by rw [line]), visited k inside⟩

/-- Two pages of a buffer of one megabyte, in lines of 64 bytes. -/
def twoPagesOfLines : LineState :=
  ⟨{ eightKilobytes with line := 64, line_pos := by decide }, none⟩

theorem lineFits_twoPagesOfLines : LineFits twoPagesOfLines.mem :=
  ⟨by decide, by decide, ⟨6, rfl⟩, by decide, by decide, by decide⟩

theorem lineInitialize_chain_twoPagesOfLines :
    ∃ loaded s' pages, lineInitialize wideHeap ⟨1, id⟩ 0 twoPagesOfLines = .ok (loaded, s') ∧
      pages.Perm (offsets ((1048576 + 4096 - 1) / 4096) 4096) ∧ s'.mem.p = some (allLines s'.mem pages 0) ∧
      Ring s'.mem.block.loadPointer (2 * 64) (allLines s'.mem pages) ∧ ∀ i < 2, ∀ c < 64, ∃ k < 2 * 64,
        allLines s'.mem pages k = s'.mem.base + (pages.getD i 0 + c * 64) ∧ allLines s'.mem pages k ∈ loaded :=
  lineInitialize_chain rfl lineFits_twoPagesOfLines (by decide)

end Main

end Numafac.LibMem
