/-
Module: Numafac.ArchTopology.TableReaders
Layer: ArchTopology
Purpose: The readers of the measured tables in `archTopology.c`: `na_latency`, `na_numafactor` and
  `na_bandwidth` recount the numerals of a file under `/tmp/output` up to the asked cell. The three
  share one loop, `readCell`; each keeps its file and its initial value. The position of the cell is
  computed in `int`, which has room for tables of up to 46340 nodes (`PositionsFit`).
Trusted boundary: the translation of the three functions
Main exports: cellPosition, readCell, naLatency, naNumafactor, naBandwidth, PositionIsInt, cellPosition_eq,
  PositionsFit, readCell_eq, readCell_paste
-/
import Numafac.Base.CMemory
import Numafac.Script.Phases

namespace Numafac

/-- `((node1 - 1) * maxnodes) + node2`, in `int`. -/
def cellPosition (maxnodes : Nat) (node1 node2 : Int) : CResult Int := do
  let row ← intResult (node1 - 1)
  let before ← intResult (row * maxnodes)
  intResult (before + node2)

/-- `do { fscanf (fp, "%f", &value); i++; } while (i < (((node1 - 1) * maxnodes) + node2));`
The body runs once in any case. -/
def readCell (maxnodes : Nat) (node1 node2 : Int) (initial : Numeral) (stream : Text) :
    CResult Numeral := do
  let position ← cellPosition maxnodes node1 node2
  pure (fscanfFloat^[(position - 1).toNat + 1] (initial, stream)).1

section Readers

variable {F : Type} (toFloat : Numeral → F) (maxnodes : Nat) (node1 node2 : Int)

/-- A reader on the lines of its file. Nothing is returned when the file is missing and the program exits.
`toFloat` is the rounding of the target format. -/
def readFile (initial : Numeral) (table : Option (List Text)) : CResult (Option F) :=
  match table with
  | some lines => do
      let value ← readCell maxnodes node1 node2 initial (streamOf lines)
      pure (some (toFloat value))
  | none => .ok none

variable (files : Files File)

/-- `na_latency`. -/
def naLatency : CResult (Option F) :=
  readFile toFloat maxnodes node1 node2 (.rational 1) (files (.tmp .latencyLmbench))

/-- `na_numafactor`. -/
def naNumafactor : CResult (Option F) :=
  readFile toFloat maxnodes node1 node2 (.rational 1) (files (.tmp .numafactorLmbench))

/-- `na_bandwidth`. -/
def naBandwidth : CResult (Option F) :=
  readFile toFloat maxnodes node1 node2 (.rational 0) (files (.tmp .bandwidth))

end Readers

/-! ### The position -/

/-- Every step of the computation of a position is an `int`. -/
def PositionIsInt (maxnodes : Nat) (node1 node2 : Int) : Prop :=
  IsInt (node1 - 1) ∧ IsInt ((node1 - 1) * maxnodes) ∧ IsInt ((node1 - 1) * maxnodes + node2)

instance (maxnodes : Nat) (node1 node2 : Int) : Decidable (PositionIsInt maxnodes node1 node2) :=
  inferInstanceAs (Decidable (_ ∧ _ ∧ _))

theorem cellPosition_eq (maxnodes : Nat) (node1 node2 : Int) :
    cellPosition maxnodes node1 node2 =
      if PositionIsInt maxnodes node1 node2 then .ok ((node1 - 1) * maxnodes + node2)
      else .error .intOverflow := by
  unfold cellPosition PositionIsInt intResult
  by_cases row : IsInt (node1 - 1)
  · by_cases before : IsInt ((node1 - 1) * maxnodes)
    · simp [row, before, bind, Except.bind]
    · simp [row, before, bind, Except.bind]
  · simp [row, bind, Except.bind]

/-- The position of every cell of a square table is an `int`. -/
def PositionsFit (nodes : Nat) : Prop :=
  nodes * nodes < 2 ^ 31

theorem PositionsFit.isInt {nodes a b : Nat} (fits : PositionsFit nodes) (ha : a < nodes) (hb : b < nodes) :
    PositionIsInt nodes ((a : Int) + 1) ((b : Int) + 1) := by
  have inside := position_lt ha hb
  have wide : nodes ≤ nodes * nodes := Nat.le_mul_self nodes
  have row : (a : Int) + 1 - 1 = a := Int.add_sub_cancel _ _
  unfold PositionsFit at fits
  unfold PositionIsInt IsInt
  rw [row, ← Int.natCast_mul]
  omega

/-- The position of the last cell is the number of cells. -/
theorem positionsFit_of_last {nodes : Nat}
    (last : PositionIsInt (nodes + 1) ((nodes : Int) + 1) ((nodes : Int) + 1)) : PositionsFit (nodes + 1) := by
  obtain ⟨-, -, -, small⟩ := last
  have position : ((nodes : Int) + 1 - 1) * (nodes + 1 : Nat) + ((nodes : Int) + 1) =
      ((nodes + 1) * (nodes + 1) : Nat) := by
    push_cast
    ring
  rw [position] at small
  exact Int.ofNat_lt.mp small

/-- A number is returned only for a position that is an `int`. -/
theorem positionIsInt_of_readFile {F : Type} {toFloat : Numeral → F} {maxnodes : Nat} {node1 node2 : Int}
    {initial : Numeral} {table : Option (List Text)} {value : F}
    (ok : readFile toFloat maxnodes node1 node2 initial table = .ok (some value)) :
    PositionIsInt maxnodes node1 node2 := by
  cases table with
  | none => cases Except.ok.inj ok
  | some lines =>
      obtain ⟨read, cell, -⟩ := bind_eq_ok.mp ok
      obtain ⟨position, computed, -⟩ := bind_eq_ok.mp cell
      by_contra overflow
      rw [cellPosition_eq, if_neg overflow] at computed
      cases computed

/-! ### Square tables -/

/-- On a stream of numerals the reader returns the one at the row-major position of the cell, counted
from one. -/
theorem readCell_eq {maxnodes a b : Nat} {stream : Text} {tokens : List Text} {q : Nat → ℚ}
    (initial : Numeral) (h : words isSpace stream = tokens)
    (reads : ∀ k token, tokens[k]? = some token → Reads token (q k))
    (inside : a * maxnodes + b < tokens.length) (fits : PositionsFit maxnodes) (ha : a < maxnodes)
    (hb : b < maxnodes) :
    readCell maxnodes ((a : Int) + 1) ((b : Int) + 1) initial stream =
      .ok (.rational (q (a * maxnodes + b))) := by
  have count : (((a : Int) + 1 - 1) * maxnodes + ((b : Int) + 1) - 1).toNat = a * maxnodes + b := by
    have flat : ((a : Int) + 1 - 1) * maxnodes + ((b : Int) + 1) - 1 =
        ((a * maxnodes + b : Nat) : Int) := by
      push_cast
      ring
    rw [flat, Int.toNat_natCast]
  rw [readCell, cellPosition_eq, if_pos (fits.isInt ha hb)]
  change Except.ok (fscanfFloat^[_] (initial, stream)).1 = _
  rw [count, iterate_fscanfFloat initial h reads inside]

/-- The numerals of a square table, read row by row. -/
theorem reads_rowMajor {nodes : Nat} {token : Nat × Nat → Text} {value : Nat → Nat → ℚ}
    (reads : ∀ i j, i < nodes → j < nodes → Reads (token (i, j)) (value i j)) (k : Nat) (word : Text)
    (found : ((rowMajor nodes nodes).map token)[k]? = some word) :
    Reads word (value (k / nodes) (k % nodes)) := by
  rw [rowMajor_eq, List.map_map, List.getElem?_map] at found
  obtain ⟨k', hk', rfl⟩ := Option.map_eq_some_iff.mp found
  obtain ⟨small, rfl⟩ := List.getElem?_eq_some_iff.mp hk'
  rw [List.getElem_range]
  simp only [List.length_range] at small
  have pos : 0 < nodes := Nat.pos_of_ne_zero (by rintro rfl; simp at small)
  exact reads _ _ (Nat.div_lt_of_lt_mul small) (Nat.mod_lt _ pos)

/-- Reading a pasted square table, each of whose lines holds one numeral, returns the value of the cell. -/
theorem readCell_paste {nodes : Nat} {line token : Nat × Nat → Text} {value : Nat → Nat → ℚ}
    (initial : Numeral)
    (single : ∀ i j, i < nodes → j < nodes → words isSpace (line (i, j)) = [token (i, j)])
    (reads : ∀ i j, i < nodes → j < nodes → Reads (token (i, j)) (value i j)) (fits : PositionsFit nodes)
    {i j : Nat} (hi : i < nodes) (hj : j < nodes) :
    readCell nodes ((i : Int) + 1) ((j : Int) + 1) initial
        (streamOf (paste nodes ((rowMajor nodes nodes).map line))) =
      .ok (.rational (value i j)) := by
  have pos : 0 < nodes := Nat.zero_lt_of_lt hi
  have tokens : words isSpace (streamOf (paste nodes ((rowMajor nodes nodes).map line))) =
      (rowMajor nodes nodes).map token := by
    rw [words_streamOf_paste pos, List.flatMap_map, List.map_eq_flatMap]
    apply List.flatMap_congr
    intro cell member
    obtain ⟨hrow, hcolumn⟩ := mem_rowMajor.mp member
    exact single cell.1 cell.2 hrow hcolumn
  have read := readCell_eq (a := i) (b := j) (q := fun k => value (k / nodes) (k % nodes)) initial
    tokens (reads_rowMajor reads) (by simpa using position_lt hi hj) fits hi hj
  rw [read, position_div hj, position_mod hj]

/-- The same for lines that are numerals. -/
theorem readCell_paste_words {nodes : Nat} {line : Nat × Nat → Text} {value : Nat → Nat → ℚ}
    (initial : Numeral)
    (reads : ∀ i j, i < nodes → j < nodes → Reads (line (i, j)) (value i j)) (fits : PositionsFit nodes)
    {i j : Nat} (hi : i < nodes) (hj : j < nodes) :
    readCell nodes ((i : Int) + 1) ((j : Int) + 1) initial
        (streamOf (paste nodes ((rowMajor nodes nodes).map line))) =
      .ok (.rational (value i j)) :=
  readCell_paste initial (fun i j hi hj => words_of_isWord (reads i j hi hj).1) reads fits hi hj

/-- A table that is published is read like that. -/
theorem readFile_paste_words {F : Type} (toFloat : Numeral → F) {nodes : Nat} {line : Nat × Nat → Text}
    {value : Nat → Nat → ℚ} (initial : Numeral)
    (reads : ∀ i j, i < nodes → j < nodes → Reads (line (i, j)) (value i j)) (fits : PositionsFit nodes)
    {i j : Nat} (hi : i < nodes) (hj : j < nodes) :
    readFile toFloat nodes (i + 1 : Nat) (j + 1 : Nat) initial
        (some (paste nodes ((rowMajor nodes nodes).map line))) =
      .ok (some (toFloat (.rational (value i j)))) := by
  have read := readCell_paste_words initial reads fits hi hj
  rw [readFile, Nat.cast_add, Nat.cast_add, Nat.cast_one]
  exact bind_eq_ok.mpr ⟨_, read, rfl⟩

end Numafac
