/-
Module: Numafac.ArchTopology.Neighbors
Layer: ArchTopology
Purpose: The neighbours of a node. `na_get_nneighbors` reads them from the rows of `numaneighbor.minas`,
  with one conversion for each entry of one row more than there are nodes: `naGetNneighbors_row` says that
  it returns the row of the node, also where the file is shorter. Without this file it reads one row of
  the NUMA factors and selects minima, with one index for both loops, so that the first round already
  writes behind its arrays: `not_nearestRight`.
Trusted boundary: the translation of the two functions. What an `int` holds that was never assigned is a
  parameter where the count of neighbours is read from it, and no value in the other places.
Main exports: naGetMaxneighbors, tableRows, factorRows, selectNeighbors, naGetNneighbors, NeighborTable,
  naGetNneighbors_row, NearestRight, not_nearestRight
-/
import Numafac.ArchTopology.Sysfs
import Numafac.Base.ScanInt
import Numafac.Base.Table

namespace Numafac

/-- `na_get_maxneighbors`, where `held` is what `n_neighbors` holds before it is assigned. -/
def naGetMaxneighbors (held : Int) (neighborFile : Option Text) : Int :=
  match neighborFile with
  | some stream => (fscanfD (some held, stream)).1.getD held
  | none => held

/-- `a[i] = temp`, where `temp` may have no value. -/
def CArray.copy {α : Type} (a : CArray α) (i : Nat) (temp : Option α) : CResult (CArray α) :=
  if i < a.length then .ok (a.set i temp) else .error .outOfBounds

/-- The body of the loops over `numaneighbor.minas`, on `node_ids`, `temp` and the stream. -/
def tableEntry (node : Int) (i : Nat) (state : CArray Int × Option Int × Text) (j : Nat) :
    CResult (CArray Int × Option Int × Text) := do
  let (temp, stream) := fscanfD state.2
  if (i : Int) = node then do
    let nodeIds ← state.1.copy j temp
    pure (nodeIds, temp, stream)
  else pure (state.1, temp, stream)

/-- `for(i=0;i<maxnodes+1;i++) for(j=0;j<n_neighbors;j++)`: `node_ids` afterwards. -/
def tableRows (maxnodes : Nat) (node n : Int) (stream : Text) : CResult (CArray Int) := do
  let (nodeIds, _) ← forRange 0 (maxnodes + 1)
    (fun state i => forRange 0 n.toNat (tableEntry node i) state) (malloc n, none, stream)
  pure nodeIds

/-- The body of the loops over `numafactor_lmbench.minas`, on `tmp`, `temp` and the stream. -/
def factorEntry (node : Int) (i : Nat) (state : CArray Int × Option Int × Text) (j : Nat) :
    CResult (CArray Int × Option Int × Text) := do
  let (temp, stream) := if (i : Int) = node then fscanfD state.2 else state.2
  let tmp ← state.1.copy j temp
  pure (tmp, temp, stream)

/-- `for(i=0;i<maxnodes+1;i++) for(j=0;j<=n_neighbors;j++)`: `tmp` afterwards. -/
def factorRows (maxnodes : Nat) (node n : Int) (stream : Text) : CResult (CArray Int) := do
  let (tmp, _) ← forRange 0 (maxnodes + 1)
    (fun state i => forRange 0 (n + 1).toNat (factorEntry node i) state) (malloc (n + 1), none, stream)
  pure tmp

/-- `min = tmp[0]; index = -1; for(i=1;i<=n_neighbors;i++)`: the index of the minimum. -/
def selectMin (n : Nat) (tmp : CArray Int) : CResult Int := do
  let first ← tmp.read 0
  let (_, index) ← forRange 1 (n + 1)
    (fun ((min : Int), (index : Int)) i => do
      let v ← tmp.read i
      if v < min ∧ v ≠ 1 then pure (v, (i : Int)) else pure (min, index))
    (first, -1)
  pure index

/-- A round of the selection on `tmp`, `node_ids` and `i`. The inner loop leaves `n_neighbors+1` in `i`, where
the two arrays are written. -/
def selectRound (n : Nat) (state : CArray Int × CArray Int × Nat) :
    CResult (CArray Int × CArray Int × Nat) := do
  let index ← selectMin n state.1
  let i := n + 1
  let tmp ← state.1.write i 1
  let nodeIds ← state.2.1.write i (if index = -1 then 0 else index)
  pure (tmp, nodeIds, i)

/-- `for(i=0;i<n_neighbors;i++)`, with a bound on the rounds. -/
def selectNeighbors (n : Nat) (state : CArray Int × CArray Int × Nat) : Nat → CResult (CArray Int)
  | 0 => .ok state.2.1
  | rounds + 1 =>
      if state.2.2 < n then do
        let (tmp, nodeIds, i) ← selectRound n state
        selectNeighbors n (tmp, nodeIds, i + 1) rounds
      else .ok state.2.1

/-- `na_get_nneighbors`. Without both files `fclose` is called with a null pointer. -/
def naGetNneighbors (maxnodes : Nat) (held : Int) (neighborFile factorFile : Option Text) (node : Int) :
    CResult (CArray Int) :=
  match neighborFile with
  | some stream =>
      let (n, rest) := fscanfD (some held, stream)
      tableRows maxnodes node (n.getD held) rest
  | none =>
      match factorFile with
      | some stream => do
          let n := naGetMaxneighbors held none
          let tmp ← factorRows maxnodes node n stream
          selectNeighbors n.toNat (tmp, malloc n, 0) n.toNat
      | none => .error .nullPointer

/-! ### The table of neighbours -/

/-- The file holds a count and rows of as many numbers. -/
structure NeighborTable (file : Text) (n : Nat) (rows : List (List Int)) : Prop where
  words : ∃ count tokens, words isSpace file = count :: tokens ∧ ReadsInt count n ∧
    List.Forall₂ ReadsInt tokens rows.flatten
  pos : 1 ≤ n
  count_int : n < 2 ^ 31
  widths : ∀ row ∈ rows, row.length = n
  ints : ∀ row ∈ rows, ∀ v ∈ row, -2 ^ 31 ≤ v ∧ v < 2 ^ 31

/-- The numbers of a table, row after row. -/
theorem getElem?_flatten_rows {rows : List (List Int)} {n i j : Nat}
    (widths : ∀ row ∈ rows, row.length = n) (inside : i < rows.length) (small : j < n) :
    rows.flatten[i * n + j]? = rows[i][j]? := by
  induction rows generalizing i with
  | nil => cases inside
  | cons row rows ih =>
      have width : row.length = n := widths row (by simp)
      cases i with
      | zero =>
          rw [List.flatten_cons, Nat.zero_mul, Nat.zero_add, List.getElem?_append_left (by omega)]
          rfl
      | succ i =>
          have position : (i + 1) * n + j - row.length = i * n + j := by
            rw [Nat.succ_mul]
            omega
          have behind : row.length ≤ (i + 1) * n + j := by
            rw [Nat.succ_mul]
            omega
          rw [List.flatten_cons, List.getElem?_append_right behind, position]
          exact ih (fun other member => widths other (by simp [member])) (by simpa using inside)

section Table

variable {tokens : List Text} {values : List Int} {stream : Text} {temp : Option Int} {node n i : Nat}

/-- A conversion reads the next number, or keeps the last one at the end of the stream. -/
theorem fscanfD_next {k : Nat} (reads : List.Forall₂ ReadsInt tokens values)
    (ints : ∀ v ∈ values, -2 ^ 31 ≤ v ∧ v < 2 ^ 31) (h : words isSpace stream = tokens.drop k) :
    words isSpace (fscanfD (temp, stream)).2 = tokens.drop (k + 1) ∧
      ∀ v, values[k]? = some v → (fscanfD (temp, stream)).1 = some v := by
  have lengths := reads.length_eq
  by_cases inside : k < tokens.length
  · rw [List.drop_eq_getElem_cons inside] at h
    have read : ReadsInt tokens[k] values[k] := (List.forall₂_iff_get.mp reads).2 k inside (by omega)
    obtain ⟨rest, converted, behind⟩ := fscanfD_word temp h read
    obtain ⟨low, high⟩ := ints values[k] (List.getElem_mem _)
    rw [converted]
    refine ⟨behind, fun v found => ?_⟩
    rw [List.getElem?_eq_getElem (by omega)] at found
    rw [storedInt_eq_self low high]
    exact found
  · rw [List.drop_eq_nil_of_le (by omega)] at h
    rw [fscanfD_exhausted temp h, List.drop_eq_nil_of_le (by omega)]
    refine ⟨words_nil _, fun v found => ?_⟩
    rw [List.getElem?_eq_none (by omega)] at found
    cases found

/-- A row of another node is passed over. -/
theorem tableRow_other {nodeIds : CArray Int} (reads : List.Forall₂ ReadsInt tokens values)
    (ints : ∀ v ∈ values, -2 ^ 31 ≤ v ∧ v < 2 ^ 31) (other : i ≠ node)
    (h : words isSpace stream = tokens.drop (i * n)) :
    ∃ temp' stream', forRange 0 n (tableEntry node i) (nodeIds, temp, stream) =
      .ok (nodeIds, temp', stream') ∧ words isSpace stream' = tokens.drop ((i + 1) * n) := by
  have step : ∀ j state, 0 ≤ j → j < n →
      (state.1 = nodeIds ∧ words isSpace state.2.2 = tokens.drop (i * n + j)) →
      ∃ next, tableEntry node i state j = .ok next ∧
        (next.1 = nodeIds ∧ words isSpace next.2.2 = tokens.drop (i * n + (j + 1))) := by
    rintro j ⟨array, temp, stream⟩ - - ⟨rfl, position⟩
    have different : (i : Int) ≠ node := by exact_mod_cast other
    obtain ⟨behind, -⟩ := @fscanfD_next _ _ _ temp _ reads ints position
    refine ⟨(array, fscanfD (temp, stream)), ?_, rfl, behind⟩
    simp only [tableEntry, if_neg different]
    rfl
  obtain ⟨⟨array, temp', stream'⟩, ran, rfl, position⟩ :=
    @forRange_ok _ 0 n (tableEntry node i) (nodeIds, temp, stream) _ (Nat.zero_le n)
      ⟨rfl, by simpa using h⟩ step
  exact ⟨temp', stream', ran, by rw [Nat.succ_mul]; exact position⟩

/-- The row of the node is stored. -/
theorem tableRow_node {row : List Int} (reads : List.Forall₂ ReadsInt tokens values)
    (ints : ∀ v ∈ values, -2 ^ 31 ≤ v ∧ v < 2 ^ 31) (width : row.length = n)
    (entries : ∀ j < n, values[node * n + j]? = row[j]?)
    (h : words isSpace stream = tokens.drop (node * n)) :
    ∃ temp' stream', forRange 0 n (tableEntry node node) (malloc n, temp, stream) =
      .ok (CArray.filled row, temp', stream') ∧
        words isSpace stream' = tokens.drop ((node + 1) * n) := by
  have step : ∀ j state, 0 ≤ j → j < n →
      (state.1 = CArray.filled (row.take j) ++ malloc (n - j : Nat) ∧
        words isSpace state.2.2 = tokens.drop (node * n + j)) →
      ∃ next, tableEntry node node state j = .ok next ∧
        (next.1 = CArray.filled (row.take (j + 1)) ++ malloc (n - (j + 1) : Nat) ∧
          words isSpace next.2.2 = tokens.drop (node * n + (j + 1))) := by
    rintro j ⟨array, temp, stream⟩ - inside ⟨rfl, position⟩
    obtain ⟨behind, value⟩ := @fscanfD_next _ _ _ temp _ reads ints position
    have entry : row[j]? = some row[j] := List.getElem?_eq_getElem (by omega)
    have read := value row[j] ((entries j inside).trans entry)
    have length : (row.take j).length = j := by
      rw [List.length_take]
      omega
    have written := write_next length inside row[j]
    refine ⟨(CArray.filled (row.take j ++ [row[j]]) ++ malloc (n - (j + 1) : Nat),
      fscanfD (temp, stream)), ?_, ?_, behind⟩
    · simp only [tableEntry, read, if_true, bind, Except.bind]
      change (CArray.write _ j row[j]).bind _ = _
      rw [written]
      rw [← read]
      rfl
    · rw [List.take_add_one, entry]
      rfl
  obtain ⟨⟨array, temp', stream'⟩, ran, rfl, position⟩ :=
    @forRange_ok _ 0 n (tableEntry node node) (malloc n, temp, stream) _ (Nat.zero_le n)
      ⟨by simp [CArray.filled], by simpa using h⟩ step
  refine ⟨temp', stream', ?_, by rw [Nat.succ_mul]; exact position⟩
  rw [ran, List.take_of_length_le (by omega)]
  simp [malloc]

/-- All rows are read in turn, also past the end of the file, and only the row of the node is kept. -/
theorem tableRows_eq {rows : List (List Int)} {maxnodes : Nat}
    (reads : List.Forall₂ ReadsInt tokens rows.flatten) (widths : ∀ row ∈ rows, row.length = n)
    (ints : ∀ row ∈ rows, ∀ v ∈ row, -2 ^ 31 ≤ v ∧ v < 2 ^ 31) (inTable : node < rows.length)
    (inLoop : node ≤ maxnodes) (h : words isSpace stream = tokens) :
    tableRows maxnodes node n stream = .ok (CArray.filled rows[node]) := by
  have inRange : ∀ v ∈ rows.flatten, -2 ^ 31 ≤ v ∧ v < 2 ^ 31 := fun v member => by
    obtain ⟨row, inRows, inside⟩ := List.mem_flatten.mp member
    exact ints row inRows v inside
  have step : ∀ i state, 0 ≤ i → i < maxnodes + 1 →
      (state.1 = (if i ≤ node then malloc n else CArray.filled rows[node]) ∧
        words isSpace state.2.2 = tokens.drop (i * n)) →
      ∃ next, forRange 0 n (tableEntry node i) state = .ok next ∧
        (next.1 = (if i + 1 ≤ node then malloc n else CArray.filled rows[node]) ∧
          words isSpace next.2.2 = tokens.drop ((i + 1) * n)) := by
    rintro i ⟨array, temp, stream⟩ - - ⟨rfl, position⟩
    by_cases here : i = node
    · subst here
      obtain ⟨temp', stream', ran, behind⟩ := @tableRow_node _ _ _ temp i n rows[i] reads inRange
        (widths _ (List.getElem_mem _)) (fun j small => getElem?_flatten_rows widths inTable small) position
      rw [if_pos (Nat.le_refl i)]
      exact ⟨_, ran, (if_neg (by omega)).symm, behind⟩
    · obtain ⟨temp', stream', ran, behind⟩ := tableRow_other reads inRange here position
      refine ⟨_, ran, ?_, behind⟩
      by_cases before : i ≤ node
      · rw [if_pos before, if_pos (by omega)]
      · rw [if_neg before, if_neg (by omega)]
  obtain ⟨⟨array, temp, stream'⟩, ran, rfl, -⟩ := @forRange_ok _ 0 (maxnodes + 1)
    (fun state i => forRange 0 n (tableEntry node i) state) (malloc n, none, stream) _
    (Nat.zero_le _) ⟨(if_pos (Nat.zero_le node)).symm, by simpa using h⟩ step
  rw [tableRows, Int.toNat_natCast]
  refine bind_eq_ok.mpr ⟨_, ran, ?_⟩
  rw [if_neg (by omega)]
  rfl

end Table

/-- The call returns the row of the node, of as many entries as `na_get_maxneighbors` says. -/
theorem naGetNneighbors_row {file : Text} {n : Nat} {rows : List (List Int)}
    (table : NeighborTable file n rows) {maxnodes node : Nat} (inTable : node < rows.length)
    (inLoop : node ≤ maxnodes) (held : Int) (factorFile : Option Text) :
    naGetMaxneighbors held (some file) = n ∧ (rows[node]).length = n ∧
      naGetNneighbors maxnodes held (some file) factorFile node = .ok (CArray.filled rows[node]) := by
  obtain ⟨count, tokens, wordsEq, countReads, reads⟩ := table.words
  obtain ⟨rest, converted, behind⟩ := fscanfD_word (some held) wordsEq countReads
  have small := table.count_int
  rw [storedInt_eq_self (by omega) (by exact_mod_cast small)] at converted
  refine ⟨?_, table.widths _ (List.getElem_mem _), ?_⟩
  · simp only [naGetMaxneighbors, converted, Option.getD_some]
  · simp only [naGetNneighbors, converted, Option.getD_some]
    exact tableRows_eq reads table.widths table.ints inTable inLoop behind

/-- Three nodes with two neighbours each, and `MAXNODES` 3: the loop asks for a fourth row. -/
def ringNeighbors : Text :=
  streamOf ["2".toList, "1 2".toList, "0 2".toList, "0 1".toList]

theorem naGetNneighbors_row_ringNeighbors :
    naGetNneighbors 3 0 (some ringNeighbors) none 2 = .ok (CArray.filled [0, 1]) := by
  have reads : List.Forall₂ ReadsInt ["1".toList, "2".toList, "0".toList, "2".toList, "0".toList,
      "1".toList] [1, 2, 0, 2, 0, 1] :=
    .cons (readsInt_natText 1) (.cons (readsInt_natText 2) (.cons (readsInt_natText 0)
      (.cons (readsInt_natText 2) (.cons (readsInt_natText 0) (.cons (readsInt_natText 1) .nil)))))
  have table : NeighborTable ringNeighbors 2 [[1, 2], [0, 2], [0, 1]] :=
    { words := ⟨"2".toList, _, by decide, readsInt_natText 2, reads⟩
      pos := by decide
      count_int := by decide
      widths := by decide
      ints := by decide }
  exact (naGetNneighbors_row table (by decide) (by decide) 0 none).2.2

/-! ### The selection of neighbours -/

section Fallback

variable {node : Int} {n : Nat} {file : Text}

/-- A pass through a row writes all of `tmp`; only the pass of the node reads. -/
theorem factorRow_ok {tmp : CArray Int} (node : Int) (i : Nat) (room : tmp.length = n + 1)
    (temp : Option Int) (stream : Text) :
    ∃ next, forRange 0 (n + 1) (factorEntry node i) (tmp, temp, stream) = .ok next ∧
      next.1.length = n + 1 ∧ ((i : Int) ≠ node → ∀ k < n + 1, next.1[k]? = some next.2.1) := by
  refine forRange_ok
    (fun j (state : CArray Int × Option Int × Text) => state.1.length = n + 1 ∧
      ((i : Int) ≠ node → ∀ k < j, state.1[k]? = some state.2.1)) (Nat.zero_le _)
    ⟨room, fun _ k less => absurd less (Nat.not_lt_zero k)⟩ ?_
  rintro j ⟨array, temp, stream⟩ - inside ⟨length, written⟩
  have fits : j < array.length := by rwa [length]
  refine ⟨(array.set j (if (i : Int) = node then fscanfD (temp, stream) else (temp, stream)).1,
    if (i : Int) = node then fscanfD (temp, stream) else (temp, stream)), ?_, ?_, ?_⟩
  · simp only [factorEntry, CArray.copy, if_pos fits]
    rfl
  · rw [List.length_set, length]
  · intro other k less
    simp only [if_neg other] at written ⊢
    rw [List.getElem?_set]
    by_cases here : j = k
    · rw [if_pos here, if_pos fits]
    · rw [if_neg here]
      exact written other k (by omega)

/-- The rows behind the one of the node are not read but written over it: in the end all of `tmp` is what the
last conversion left. -/
theorem factorRows_last {maxnodes : Nat} (before : node < maxnodes) (stream : Text) :
    ∃ temp, factorRows maxnodes node n stream = .ok (List.replicate (n + 1) temp) := by
  have step : ∀ i state, 0 ≤ i → i < maxnodes + 1 →
      (state.1.length = n + 1 ∧ (i = maxnodes + 1 → ∀ k < n + 1, state.1[k]? = some state.2.1)) →
      ∃ next, forRange 0 (n + 1) (factorEntry node i) state = .ok next ∧
        (next.1.length = n + 1 ∧
          (i + 1 = maxnodes + 1 → ∀ k < n + 1, next.1[k]? = some next.2.1)) := by
    rintro i ⟨array, temp, stream⟩ - - ⟨length, -⟩
    obtain ⟨next, ran, length', written⟩ := factorRow_ok node i length temp stream
    exact ⟨next, ran, length', fun last => written (by omega)⟩
  obtain ⟨⟨array, temp, stream'⟩, ran, length, written⟩ := @forRange_ok _ 0 (maxnodes + 1)
    (fun state i => forRange 0 (n + 1) (factorEntry node i) state)
    (malloc ((n : Int) + 1), none, stream) _ (Nat.zero_le _)
    ⟨by rw [malloc, List.length_replicate]; omega, fun last => by omega⟩ step
  have size : ((n : Int) + 1).toNat = n + 1 := by omega
  have all : array = List.replicate (n + 1) temp := by
    refine List.eq_replicate_iff.mpr ⟨length, fun element member => ?_⟩
    obtain ⟨k, inside, rfl⟩ := List.getElem_of_mem member
    have found := written rfl k (by rwa [← length])
    rw [List.getElem?_eq_getElem inside] at found
    exact Option.some.inj found
  refine ⟨temp, ?_⟩
  rw [factorRows, size]
  exact bind_eq_ok.mpr ⟨_, ran, congrArg Except.ok all⟩

/-- The first round of the selection writes behind `tmp`, if it comes that far. -/
theorem selectRound_fault {tmp nodeIds : CArray Int} {i : Nat} (room : tmp.length ≤ n + 1) :
    ∃ fault, selectRound n (tmp, nodeIds, i) = .error fault := by
  cases selected : selectMin n tmp with
  | error fault => exact ⟨fault, by simp only [selectRound, selected]; rfl⟩
  | ok index =>
      have outside : tmp.write (n + 1) 1 = .error .outOfBounds := if_neg (by omega)
      exact ⟨.outOfBounds, by simp only [selectRound, selected, bind, Except.bind, outside]⟩

theorem naGetNneighbors_fault (maxnodes : Nat) (node : Int) (file : Text) (pos : 1 ≤ n) :
    ∃ fault, naGetNneighbors maxnodes n none (some file) node = .error fault := by
  have size : ((n : Int) + 1).toNat = n + 1 := by omega
  obtain ⟨rounds, rfl⟩ : ∃ rounds, n = rounds + 1 := ⟨n - 1, by omega⟩
  cases rows : factorRows maxnodes node (rounds + 1 : Nat) file with
  | error fault => exact ⟨fault, by simp only [naGetNneighbors, naGetMaxneighbors, rows]; rfl⟩
  | ok tmp =>
      obtain ⟨final, ran, result⟩ := bind_eq_ok.mp rows
      rw [size] at ran
      have length : final.1.length = rounds + 1 + 1 := by
        refine forRange_inv (fun _ state => state.1.length = rounds + 1 + 1) (Nat.zero_le _)
          (by rw [malloc, List.length_replicate]; omega) ?_ ran
        rintro i ⟨array, temp, stream⟩ next - - room ran
        obtain ⟨next', ran', room', -⟩ := factorRow_ok node i room temp stream
        rw [ran] at ran'
        exact Except.ok.inj ran' ▸ room'
      obtain rfl : final.1 = tmp := Except.ok.inj result
      obtain ⟨fault, stopped⟩ := @selectRound_fault (rounds + 1) final.1 (malloc (rounds + 1 : Nat)) 0
        (by omega)
      refine ⟨fault, ?_⟩
      simp only [naGetNneighbors, naGetMaxneighbors, rows, Int.toNat_natCast, selectNeighbors,
        bind, Except.bind, stopped, Nat.succ_pos, if_true]

end Fallback

/-- A factor of a table of `nodes` columns. -/
def FactorAt (file : Text) (nodes i j : Nat) (factor : ℚ) : Prop :=
  ∃ token, (words isSpace file)[i * nodes + j]? = some token ∧ Reads token factor

/-- The call stays inside its arrays and returns distinct other nodes, as many as asked for, and no node that
is left out has a smaller factor in the row of the node than one that is returned. -/
def NearestRight (nodes n node : Nat) (file : Text) (call : CResult (CArray Int)) : Prop :=
  ∃ ids : List Nat, call = .ok (CArray.filled (ids.map Nat.cast)) ∧ ids.length = n ∧ ids.Nodup ∧
    (∀ id ∈ ids, id < nodes ∧ id ≠ node) ∧
    ∀ id ∈ ids, ∀ other < nodes, other ≠ node → other ∉ ids → ∀ near far,
      FactorAt file nodes node id near → FactorAt file nodes node other far → near ≤ far

/-- On no table does a call for one neighbour or more return the nearest nodes. -/
theorem not_nearestRight (nodes node n : Nat) (file : Text) :
    ¬ NearestRight nodes (n + 1) node file
      (naGetNneighbors nodes (n + 1 : Nat) none (some file) node) := by
  rintro ⟨ids, call, -⟩
  obtain ⟨fault, stopped⟩ := naGetNneighbors_fault nodes node file (Nat.succ_pos n)
  rw [stopped] at call
  cases call

/-- The factors of two nodes. -/
def twoNodeFactors : Text :=
  streamOf ["10 16".toList, "16 10".toList]

theorem not_nearestRight_twoNodeFactors :
    ¬ NearestRight 2 1 1 twoNodeFactors (naGetNneighbors 2 1 none (some twoNodeFactors) 1) := by
  rintro ⟨ids, call, -⟩
  have stopped : naGetNneighbors 2 1 none (some twoNodeFactors) 1 = .error .outOfBounds := by decide
  rw [stopped] at call
  cases call

end Numafac
