/-
Module: Numafac.Lmbench.ParallelWalk
Layer: Lmbench
Purpose: How many loads a machine makes at once. `par_mem` walks along the list of `mem_initialize` with one
  pointer, with two, and so on. None of its walks faults, each pointer stays in the list, and the pointers
  load different cells at every step exactly when there is a line or a word for each of them
  (`parMem_loads`).
Trusted boundary: the translation of `par_mem`; how often it repeats each walk is a parameter
Main exports: parStart, setStarts, parMem, parTurn, nodup_parTurns_iff, parMem_loads
-/
import Numafac.Lmbench.MemChain

namespace Numafac.LibMem

/-- The start of pointer `j` of `i + 1` pointers. -/
def parStart (m : MemState) (lines : Option (CArray Nat)) (i j : Nat) : CResult Nat := do
  let linesPerChunk := m.len / m.line / (i + 1)
  let linesPerPage := m.pagesize / m.line
  let line := j * linesPerChunk
  let word := j * m.nwords / (i + 1)
  let here ← lineOffset m.pages lines (line / linesPerPage) (line % linesPerPage)
  let word ← element m.words (word % m.nwords)
  pure (m.base + (here + word))

/-- The loop over the pointers. -/
def setStarts (m : MemState) (lines : Option (CArray Nat)) (i : Nat) (p : CArray Nat) : CResult (CArray Nat) :=
  forRange 0 (i + 1) (fun p j => do let start ← parStart m lines i j; p.write j start) p

/-- The walks of `par_mem` behind `mem_initialize`, one for each number of pointers, with the addresses that
they load from step by step. The walk that is timed goes on where the one in front of it ended; it makes
`rounds i` hundreds of steps. -/
def parMem (rounds : Nat → Nat) (s : ChainState) : CResult (List (List (List Nat)) × CArray Nat) :=
  forRange 0 maxMemParallelism (fun (walks, p) i => do
    let p ← setStarts s.mem s.lines i p
    let loaded ← memBenchmarks (i + 1) ((s.mem.len / 8 + 100) / 100 + rounds i) s.mem.block p
    pure (walks ++ [loaded], p)) ([], s.p)

/-! ### The turns at the start -/

/-- The turn at which pointer `j` of `i + 1` starts. -/
def parTurn (nwords npointers count i j : Nat) : Nat :=
  j * nwords / (i + 1) * count + j * (npointers / (i + 1))

section Turns

variable {nwords npointers count i j j' : Nat}

theorem parWord_lt (words : 0 < nwords) (inside : j < i + 1) : j * nwords / (i + 1) < nwords := by
  apply Nat.div_lt_of_lt_mul
  exact Nat.mul_lt_mul_of_pos_right inside words

theorem parLine_lt (lines : 0 < npointers) (inside : j < i + 1) : j * (npointers / (i + 1)) < npointers := by
  rcases Nat.eq_zero_or_pos (npointers / (i + 1)) with none | some
  · rw [none, Nat.mul_zero]
    exact lines
  · calc j * (npointers / (i + 1)) < (i + 1) * (npointers / (i + 1)) := Nat.mul_lt_mul_of_pos_right inside some
      _ ≤ npointers := Nat.mul_div_le npointers (i + 1)

/-- With a word for each pointer the words at the start differ. -/
theorem parWord_strict (enough : i + 1 ≤ nwords) (less : j < j') :
    j * nwords / (i + 1) < j' * nwords / (i + 1) := by
  have room : (j + 1) * nwords ≤ j' * nwords := Nat.mul_le_mul_right nwords less
  rw [Nat.add_one_mul] at room
  calc j * nwords / (i + 1) < (j * nwords + (i + 1)) / (i + 1) := by
        rw [Nat.add_div_right _ (Nat.succ_pos i)]
        exact Nat.lt_succ_self _
    _ ≤ j' * nwords / (i + 1) := Nat.div_le_div_right (by omega)

/-- Pointers start at different turns exactly when there is a line or a word for each of them. -/
theorem nodup_parTurns_iff (words : 0 < nwords) (lines : 0 < npointers) (few : npointers ≤ count) :
    ((List.range (i + 1)).map (parTurn nwords npointers count i)).Nodup ↔ i + 1 ≤ npointers ∨
      i + 1 ≤ nwords := by
  constructor
  · intro distinct
    by_contra neither
    obtain ⟨noLine, noWord⟩ := not_or.mp neither
    -- all pointers start in the first line, in fewer words than there are pointers
    have chunk : npointers / (i + 1) = 0 := Nat.div_eq_of_lt (Nat.not_le.mp noLine)
    have inWords : (List.range (i + 1)).map (parTurn nwords npointers count i) ⊆
        (List.range nwords).map (· * count) := by
      intro t member
      obtain ⟨j, inside, rfl⟩ := List.mem_map.mp member
      refine List.mem_map.mpr ⟨j * nwords / (i + 1),
        List.mem_range.mpr (parWord_lt words (List.mem_range.mp inside)), ?_⟩
      simp only [parTurn, chunk, Nat.mul_zero, Nat.add_zero]
    have length := (List.subperm_of_subset distinct inWords).length_le
    rw [List.length_map, List.length_map, List.length_range, List.length_range] at length
    exact noWord length
  · intro enough
    apply List.Nodup.map_on _ List.nodup_range
    intro j member j' member' same
    have inside := List.mem_range.mp member
    have inside' := List.mem_range.mp member'
    have line := (parLine_lt lines inside).trans_le few
    have line' := (parLine_lt lines inside').trans_le few
    have pos : 0 < count := lines.trans_le few
    have atLine : j * (npointers / (i + 1)) = j' * (npointers / (i + 1)) := by
      have rest := congrArg (· % count) same
      simpa only [parTurn, Nat.mul_add_mod_self_right, Nat.mod_eq_of_lt line, Nat.mod_eq_of_lt line'] using rest
    have atWord : j * nwords / (i + 1) = j' * nwords / (i + 1) := by
      rw [parTurn, parTurn, atLine] at same
      exact Nat.eq_of_mul_eq_mul_right pos (Nat.add_right_cancel same)
    rcases enough with forLines | forWords
    · exact Nat.eq_of_mul_eq_mul_right (Nat.div_pos forLines (Nat.succ_pos i)) atLine
    · rcases Nat.lt_trichotomy j j' with less | equal | more
      · exact absurd atWord (Nat.ne_of_lt (parWord_strict forWords less))
      · exact equal
      · exact absurd atWord (Nat.ne_of_gt (parWord_strict forWords more))

end Turns

/-! ### The walks -/

section Walks

variable {s : ChainState} {pages : List Nat} {count : Nat}

/-- The list is long enough for the lines of the range. -/
structure HoldsRange (m : MemState) (count : Nat) : Prop where
  lines : 0 < m.len / m.line
  enough : m.len / m.line ≤ count
  few : count ≤ m.npages * m.nlines
  nlines : m.nlines = m.pagesize / m.line

/-- The start of a pointer is a cell of the list. -/
theorem ChainLinked.parStart (linked : ChainLinked s pages count) (range : HoldsRange s.mem count) {i j : Nat}
    (inside : j < i + 1) :
    parTurn s.mem.nwords (s.mem.len / s.mem.line) count i j < s.mem.nwords * count ∧
      LibMem.parStart s.mem s.lines i j = .ok (chainCell s.mem pages count
        (parTurn s.mem.nwords (s.mem.len / s.mem.line) count i j)) := by
  obtain ⟨orders, lines, -⟩ := linked
  obtain ⟨some, enough, few, nlines⟩ := range
  have pos := orders.lines.nlines_pos
  have word := parWord_lt orders.nwords_pos inside
  have line := (parLine_lt some inside).trans_le enough
  have split := Nat.div_add_mod' (j * (s.mem.len / s.mem.line / (i + 1))) s.mem.nlines
  have turn := Nat.mod_lt (j * (s.mem.len / s.mem.line / (i + 1))) pos
  have page : j * (s.mem.len / s.mem.line / (i + 1)) / s.mem.nlines < s.mem.npages :=
    Nat.div_lt_of_lt_mul (line.trans_le (few.trans_eq (Nat.mul_comm _ _)))
  have offset := orders.lineOffset_eq page turn
  have wordHere := orders.word_eq word
  refine ⟨turn_lt word line, ?_⟩
  rw [parTurn, ← split, chainCell_add turn (by rwa [split])]
  rw [← lines] at offset
  refine bind_eq_ok.mpr ⟨_, nlines ▸ offset, bind_eq_ok.mpr
    ⟨wordOffset s.mem (j * s.mem.nwords / (i + 1)), ?_, rfl⟩⟩
  rw [Nat.mod_eq_of_lt word]
  exact wordHere

/-- The loop over the pointers sets the first ones. -/
theorem ChainLinked.setStarts (linked : ChainLinked s pages count) (range : HoldsRange s.mem count) {i : Nat}
    (inside : i < maxMemParallelism) {p : CArray Nat} (length : p.length = maxMemParallelism) :
    ∃ p', LibMem.setStarts s.mem s.lines i p = .ok p' ∧ p'.length = maxMemParallelism ∧
      ∀ j < i + 1, p'.read j = .ok (chainCell s.mem pages count
        (parTurn s.mem.nwords (s.mem.len / s.mem.line) count i j)) := by
  let cell (j : Nat) : Nat := chainCell s.mem pages count
      (parTurn s.mem.nwords (s.mem.len / s.mem.line) count i j)
  let setTo (j : Nat) (p : CArray Nat) : Prop :=
    p.length = maxMemParallelism ∧ ∀ j' < j, p.read j' = .ok (cell j')
  have step : ∀ j p, 0 ≤ j → j < i + 1 → setTo j p →
      ∃ p', (do let start ← LibMem.parStart s.mem s.lines i j; p.write j start) = .ok p' ∧
        setTo (j + 1) p' := by
    rintro j p - more ⟨length, before⟩
    have room : j < p.length := by omega
    refine ⟨p.set j (some (cell j)), bind_eq_ok.mpr ⟨_, (linked.parStart range more).2, CArray.write_ok room _⟩,
      by rwa [List.length_set], fun j' less => ?_⟩
    rw [CArray.read_set room]
    split
    · rename_i here
      rw [here]
    · exact before j' (by omega)
  have init : setTo 0 p := ⟨length, fun j' less => absurd less (Nat.not_lt_zero j')⟩
  obtain ⟨p', ran, length', set⟩ := forRange_ok setTo (Nat.zero_le _) init step
  exact ⟨p', ran, length', set⟩

/-- A walk with `i + 1` pointers: it makes the steps it is asked for, every pointer loads from the list, and
the pointers are at different cells at every step exactly when there is a line or a word for each. -/
structure WalksApart (s : ChainState) (pages : List Nat) (count steps i : Nat)
    (walk : List (List Nat)) : Prop where
  length : walk.length = steps
  inside : ∀ step ∈ walk, step.length = i + 1 ∧ ∀ a ∈ step, ∃ t < s.mem.nwords * count,
    a = chainCell s.mem pages count t
  apart : ∀ step ∈ walk, step.Nodup ↔ i + 1 ≤ s.mem.len / s.mem.line ∨ i + 1 ≤ s.mem.nwords

/-- One of the walks. -/
theorem ChainLinked.walk (linked : ChainLinked s pages count) (range : HoldsRange s.mem count) {i : Nat}
    (inside : i < maxMemParallelism) {p : CArray Nat}
    (starts : ∀ j < i + 1, p.read j = .ok (chainCell s.mem pages
      count (parTurn s.mem.nwords (s.mem.len / s.mem.line) count i j))) (iterations : Nat) :
    ∃ walk, memBenchmarks (i + 1) iterations s.mem.block p = .ok walk ∧
      WalksApart s pages count (iterations * 100) i walk := by
  have turns : ∀ j < i + 1, parTurn s.mem.nwords (s.mem.len / s.mem.line) count i j < s.mem.nwords * count :=
    fun j less => (linked.parStart range less).1
  have ran := memBenchmarks_eq linked.ring (Nat.succ_pos i) inside turns starts iterations
  refine ⟨_, ran, by simp, fun step member => ?_, fun step member => ?_⟩
  · obtain ⟨n, -, rfl⟩ := List.mem_map.mp member
    refine ⟨by simp [pointersAt], fun a loaded => ?_⟩
    obtain ⟨t, -, rfl⟩ := List.mem_map.mp loaded
    exact ⟨_, Nat.mod_lt _ linked.ring.pos, rfl⟩
  · obtain ⟨n, -, rfl⟩ := List.mem_map.mp member
    rw [← nodup_parTurns_iff linked.orders.nwords_pos range.lines range.enough]
    constructor
    · exact List.Nodup.of_map _
    · intro distinct
      apply linked.ring.nodup_parallel _ distinct
      intro t member
      obtain ⟨j, less, rfl⟩ := List.mem_map.mp member
      exact turns j (List.mem_range.mp less)

/-- All of the walks. -/
theorem ChainLinked.parMem (linked : ChainLinked s pages count) (range : HoldsRange s.mem count)
    (length : s.p.length = maxMemParallelism) (rounds : Nat → Nat) :
    ∃ walks p, parMem rounds s = .ok (walks, p) ∧ walks.length = maxMemParallelism ∧
      ∀ i walk, walks[i]? = some walk →
        WalksApart s pages count (((s.mem.len / 8 + 100) / 100 + rounds i) * 100) i walk := by
  let walked (i : Nat) (state : List (List (List Nat)) × CArray Nat) : Prop :=
    state.2.length = maxMemParallelism ∧ state.1.length = i ∧ ∀ k walk, state.1[k]? = some walk →
      WalksApart s pages count (((s.mem.len / 8 + 100) / 100 + rounds k) * 100) k walk
  have init : walked 0 ([], s.p) := ⟨length, rfl, fun k walk found => by simp at found⟩
  have step : ∀ i state, 0 ≤ i → i < maxMemParallelism → walked i state → ∃ state', (do
      let p ← LibMem.setStarts s.mem s.lines i state.2
      let loaded ← memBenchmarks (i + 1) ((s.mem.len / 8 + 100) / 100 + rounds i) s.mem.block p
      pure (state.1 ++ [loaded], p)) = .ok state' ∧ walked (i + 1) state' := by
    rintro i ⟨walks, p⟩ - inside ⟨length, many, before⟩
    replace many : walks.length = i := many
    obtain ⟨p', set, length', starts⟩ := linked.setStarts range inside length
    obtain ⟨walk, ran, apart⟩ := linked.walk range inside starts ((s.mem.len / 8 + 100) / 100 + rounds i)
    refine ⟨_, bind_eq_ok.mpr ⟨p', set, bind_eq_ok.mpr ⟨walk, ran, rfl⟩⟩, length', by simp [many],
      fun k w found => ?_⟩
    change (walks ++ [walk])[k]? = some w at found
    rcases Nat.lt_trichotomy k i with less | rfl | more
    · rw [List.getElem?_append_left (by omega)] at found
      exact before k w found
    · rw [List.getElem?_append_right (by omega), many, Nat.sub_self] at found
      rw [← Option.some.inj found]
      exact apart
    · rw [List.getElem?_eq_none (by simp; omega)] at found
      cases found
  obtain ⟨⟨walks, p⟩, ran, -, many, all⟩ := forRange_ok walked (Nat.zero_le _) init step
  exact ⟨walks, p, ran, many, all⟩

end Walks

/-! ### Main result -/

/-- Behind a `mem_initialize` that has room, for the one pointer that `par_mem` asks for, all of its walks
return, however often they are repeated. Each pointer loads words of the list only, and the pointers of a
walk load different words at every step exactly when the range has a line, or a line a word, for each of
them. -/
theorem parMem_loads {heap : Heap} {draws : Draws} (array : heap.wordArray = true) {s : ChainState}
    (fits : ChainFits s.mem) (room : heap.hasRoom s.mem = true) (length : s.p.length = maxMemParallelism)
    (single : s.width = 1) (several : 0 < rangeLinks s.mem) (rounds : Nat → Nat) :
    ∃ loaded s' pages walks p, memInitialize heap draws 0 s = .ok (loaded, s') ∧ SameParameters s.mem s'.mem ∧
      ChainLinked s' pages (rangeLines s.mem) ∧ parMem rounds s' = .ok (walks, p) ∧
      walks.length = maxMemParallelism ∧ ∀ i walk, walks[i]? = some walk →
        WalksApart s' pages (rangeLines s.mem) (((s.mem.len / 8 + 100) / 100 + rounds i) * 100) i walk := by
  have lines : 1 < s.mem.len / s.mem.line := by
    have links := several.trans_le (Nat.min_le_right _ _)
    omega
  obtain ⟨s', pages, ran, same, npages, nlines, -, linked, starts⟩ :=
    @exists_chainLinked heap draws array s fits room length (by omega) (by rw [single]; decide) (by omega)
      (by rwa [single, Nat.sub_self, Nat.zero_mul])
  obtain ⟨len, -, line, pagesize⟩ := id same
  have range : HoldsRange s'.mem (rangeLines s.mem) := by
    refine ⟨by rw [len, line]; omega, ?_, ?_, by rw [nlines, pagesize, line]⟩
    · rw [len, line]
      exact Nat.le_min.mpr ⟨fits.len_le, Nat.le_add_right _ _⟩
    · rw [npages, nlines]
      exact Nat.min_le_left _ _
  obtain ⟨walks, p, walked, many, apart⟩ := linked.parMem range starts.length rounds
  rw [len] at apart
  exact ⟨_, s', pages, walks, p, ran, same, linked, walked, many, apart⟩

/-- Two pages in lines of 64 bytes, for one pointer. -/
def onePointer : ChainState :=
  { fourPointers with width := 1 }

theorem parMem_loads_onePointer :
    ∃ loaded s' pages walks p, memInitialize wideHeap ⟨1, id⟩ 0 onePointer = .ok (loaded, s') ∧
      SameParameters onePointer.mem s'.mem ∧ ChainLinked s' pages (rangeLines onePointer.mem) ∧
      parMem id s' = .ok (walks, p) ∧ walks.length = maxMemParallelism ∧ ∀ i walk, walks[i]? = some walk →
        WalksApart s' pages (rangeLines onePointer.mem)
          (((onePointer.mem.len / 8 + 100) / 100 + i) * 100) i walk :=
  @parMem_loads wideHeap ⟨1, id⟩ rfl onePointer chainFits_fourPointers (by decide) rfl rfl (by decide) id

end Numafac.LibMem
