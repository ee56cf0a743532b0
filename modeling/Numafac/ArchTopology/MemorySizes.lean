/-
Module: Numafac.ArchTopology.MemorySizes
Layer: ArchTopology
Purpose: The four functions that read amounts of memory from `meminfo` files. All of them read with `%d`,
  three into an `int` and one into the low half of an `unsigned long`, so large amounts come back changed.
  `memoryRight_iff` gives for each function the amounts that it returns or answers with an error. Where
  the reader of `LiveQueries` has a value, it is the same.
Trusted boundary: the translation of the four functions; the two lines that the kernel prints; a
  little-endian machine
Main exports: meminfoLine, Meminfo, MemoryState, awkPrint, MemoryQuery, MemoryRight, memoryRight_iff
-/
import Mathlib.Data.List.Infix
import Numafac.ArchTopology.LiveQueries
import Numafac.Base.ScanInt
import Numafac.Base.Table

namespace Numafac

/-! ### The files -/

/-- `"%s%*s%8lu kB"`: a name padded to 16 columns and an amount in kilobytes. -/
def meminfoLine (name : Text) (kib : Nat) : Text :=
  name ++ ' ' :: (List.replicate (15 - name.length + (8 - (natText kib).length)) ' ' ++
    (natText kib ++ ' ' :: "kB".toList))

/-- The lines of a `meminfo` file; the first two are the ones that are read. -/
structure Meminfo where
  memTotal : Nat
  memFree : Nat
  others : List Text

/-- `/proc/meminfo`. -/
def Meminfo.lines (info : Meminfo) : List Text :=
  meminfoLine "MemTotal:".toList info.memTotal :: meminfoLine "MemFree:".toList info.memFree ::
    info.others

/-- `"Node %d "`. -/
def nodeFront (node : Nat) : Text :=
  "Node".toList ++ ' ' :: (natText node ++ [' '])

/-- `/sys/devices/system/node/node{node}/meminfo`, whose lines begin with the number of the node. -/
def Meminfo.nodeLines (node : Nat) (info : Meminfo) : List Text :=
  info.lines.map (nodeFront node ++ ·)

/-- The files of a machine: one for the machine, and one in the directory of each node. -/
structure MemoryState where
  proc : Meminfo
  node : Nat → Option Meminfo

/-! ### The functions -/

/-- `awk '/{pattern}/ {print ${field}}'`. -/
def awkPrint (pattern : Text) (field : Nat) (lines : List Text) : List Text :=
  (lines.filter fun line => pattern <:+: line).map fun line => (words isBlank line).getD (field - 1) []

/-- The output of `awk` on the `meminfo` file of a node, empty when there is no such file. -/
def MemoryState.awkNode (s : MemoryState) (pattern : Text) (field : Nat) (nodeid : Int) : Text :=
  if 0 ≤ nodeid then
    match s.node nodeid.toNat with
    | some info => streamOf (awkPrint pattern field (info.nodeLines nodeid.toNat))
    | none => []
  else []

/-- `int mem=-1; fscanf(fp_nodes,"%d",&mem);`. -/
def readMem (stream : Text) : Int :=
  (fscanfD (some (-1), stream)).1.getD (-1)

/-- `unsigned long mem_node=0; fscanf(fp_nodes,"%d",&mem_node);`: the low half is replaced. -/
def readLowHalf (stream : Text) : Int :=
  ((fscanfD (none, stream)).1.getD 0) % 2 ^ 32

namespace MemoryState

variable (s : MemoryState)

/-- `get_totalmem`. -/
def getTotalmem : Int :=
  unsignedLong (readMem (streamOf (awkPrint "MemTotal".toList 2 s.proc.lines)))

/-- `na_get_freemem`. -/
def naGetFreemem : Int :=
  readMem (streamOf (awkPrint "MemFree".toList 2 s.proc.lines))

/-- `na_get_totalmem_node`, which always asks for `node0`. -/
def naGetTotalmemNode : Int :=
  readLowHalf (s.awkNode "MemTotal".toList 4 0)

/-- `na_get_memnode`. -/
def naGetMemnode (nodeid : Int) : Int :=
  readMem (s.awkNode "MemFree".toList 4 nodeid)

end MemoryState

/-! ### What they are for -/

/-- The four calls. -/
inductive MemoryQuery where
  | totalmem
  | freemem
  | totalmemNode
  | memnode (nodeid : Int)

/-- The answer of a call. -/
def memoryAnswer (s : MemoryState) : MemoryQuery → Int
  | .totalmem => s.getTotalmem
  | .freemem => s.naGetFreemem
  | .totalmemNode => s.naGetTotalmemNode
  | .memnode nodeid => s.naGetMemnode nodeid

/-- The error value -1 in the return type of the function. -/
def memoryError : MemoryQuery → Int
  | .totalmem => unsignedLong (-1)
  | .freemem => -1
  | .totalmemNode => unsignedLong (-1)
  | .memnode _ => -1

/-- The amount that the kernel prints for a call. -/
def memoryPrinted (s : MemoryState) : MemoryQuery → Option Nat
  | .totalmem => some s.proc.memTotal
  | .freemem => some s.proc.memFree
  | .totalmemNode => (s.node 0).map Meminfo.memTotal
  | .memnode nodeid => if 0 ≤ nodeid then (s.node nodeid.toNat).map Meminfo.memFree else none

/-- The answer is the amount, or an error. -/
def MemoryRight (s : MemoryState) (query : MemoryQuery) (kib : Nat) : Prop :=
  memoryAnswer s query = kib ∨ memoryAnswer s query = memoryError query

/-- The amounts that a call gets right. -/
def MemoryFits : MemoryQuery → Nat → Prop
  | .totalmemNode, kib => kib < 2 ^ 32
  -- a low half of all ones is read as -1
  | _, kib => kib < 2 ^ 31 ∨ kib % 2 ^ 32 = 2 ^ 32 - 1

/-! ### The output of `awk` -/

section Awk

variable {name pattern : Text} {kib : Nat}

theorem isBlank_of_isDigit {c : Char} (digit : c.isDigit = true) : isBlank c = false := by
  refine Bool.eq_false_iff.mpr fun blank => ?_
  have space := isSpace_of_isBlank blank
  rw [isSpace_of_isDigit digit] at space
  cases space

theorem isWord_natText_blank (n : Nat) : IsWord isBlank (natText n) :=
  isWord_natText (fun _ => isBlank_of_isDigit) n

theorem words_meminfoLine (word : IsWord isBlank name) (kib : Nat) :
    words isBlank (meminfoLine name kib) = [name, natText kib, "kB".toList] := by
  have unit : IsWord isBlank "kB".toList := by decide
  rw [meminfoLine, words_append_sep _ _ rfl, words_of_isWord word, words_leading _ (by simp [isBlank]),
    words_append_sep _ _ rfl, words_of_isWord (isWord_natText_blank kib), words_of_isWord unit]
  rfl

theorem words_nodeLine (word : IsWord isBlank name) (node kib : Nat) :
    words isBlank (nodeFront node ++ meminfoLine name kib) =
      ["Node".toList, natText node, name, natText kib, "kB".toList] := by
  have front : IsWord isBlank "Node".toList := by decide
  have line : nodeFront node ++ meminfoLine name kib =
      "Node".toList ++ ' ' :: (natText node ++ ' ' :: meminfoLine name kib) := by
    simp [nodeFront]
  rw [line, words_append_sep _ _ rfl, words_append_sep _ _ rfl, words_of_isWord front,
    words_of_isWord (isWord_natText_blank node), words_meminfoLine word]
  rfl

/-- The first line that matches is printed first. -/
theorem awkPrint_cons_of_match {field : Nat} {line : Text} (found : pattern <:+: line)
    (lines : List Text) : awkPrint pattern field (line :: lines) =
      (words isBlank line).getD (field - 1) [] :: awkPrint pattern field lines := by
  rw [awkPrint, List.filter_cons_of_pos (by simpa using found), List.map_cons]
  rfl

theorem awkPrint_cons_of_no_match {field : Nat} {line : Text} (other : ¬ pattern <:+: line)
    (lines : List Text) :
    awkPrint pattern field (line :: lines) = awkPrint pattern field lines := by
  rw [awkPrint, List.filter_cons_of_neg (by simpa using other)]
  rfl

theorem infix_meminfoLine (found : pattern <:+: name) (front : Text) (kib : Nat) :
    pattern <:+: front ++ meminfoLine name kib :=
  (found.trans (List.prefix_append name _).isInfix).trans (List.suffix_append front _).isInfix

/-- No letter of the line of the total amount is an `F`. -/
theorem memFree_notIn_total {front : Text} (clean : 'F' ∉ front) :
    ¬ "MemFree".toList <:+: front ++ meminfoLine "MemTotal:".toList kib := by
  intro found
  have letter : 'F' ∈ front ++ meminfoLine "MemTotal:".toList kib := found.subset (by decide)
  have digits : 'F' ∉ natText kib := notMem_natText (by decide) kib
  have fixed : 'F' ∉ "MemTotal:".toList ∧ 'F' ∉ "kB".toList := by decide
  simp only [meminfoLine, List.mem_append, List.mem_cons, List.mem_replicate] at letter
  rcases letter with inFront | inName | blank | ⟨-, blank⟩ | inDigits | blank | inUnit
  · exact clean inFront
  · exact fixed.1 inName
  · exact absurd blank (by decide)
  · exact absurd blank (by decide)
  · exact digits inDigits
  · exact absurd blank (by decide)
  · exact fixed.2 inUnit

/-- The total amount is printed from the first line, and the free amount from the second one, if the field is
the one with the amount. -/
theorem awkPrint_amounts {front : Text} {field : Nat} (clean : 'F' ∉ front)
    (amount : ∀ name kib, IsWord isBlank name →
      (words isBlank (front ++ meminfoLine name kib)).getD (field - 1) [] = natText kib)
    (info : Meminfo) :
    (∃ more, awkPrint "MemTotal".toList field (info.lines.map (front ++ ·)) =
      natText info.memTotal :: more) ∧
    ∃ more, awkPrint "MemFree".toList field (info.lines.map (front ++ ·)) =
      natText info.memFree :: more := by
  have total : "MemTotal".toList <:+: "MemTotal:".toList := by decide
  have free : "MemFree".toList <:+: "MemFree:".toList := by decide
  rw [Meminfo.lines, List.map_cons, List.map_cons,
    awkPrint_cons_of_match (infix_meminfoLine total front info.memTotal),
    awkPrint_cons_of_no_match (memFree_notIn_total clean),
    awkPrint_cons_of_match (infix_meminfoLine free front info.memFree), amount _ _ (by decide),
    amount _ _ (by decide)]
  exact ⟨⟨_, rfl⟩, _, rfl⟩

theorem awkPrint_lines (info : Meminfo) :
    (∃ more, awkPrint "MemTotal".toList 2 info.lines = natText info.memTotal :: more) ∧
    ∃ more, awkPrint "MemFree".toList 2 info.lines = natText info.memFree :: more := by
  have amounts := @awkPrint_amounts [] 2 (by decide)
    (fun name kib word => by rw [List.nil_append, words_meminfoLine word]; rfl) info
  simpa using amounts

theorem awkPrint_nodeLines (node : Nat) (info : Meminfo) :
    (∃ more, awkPrint "MemTotal".toList 4 (info.nodeLines node) = natText info.memTotal :: more) ∧
    ∃ more, awkPrint "MemFree".toList 4 (info.nodeLines node) = natText info.memFree :: more := by
  have clean : 'F' ∉ nodeFront node := by
    have digits : 'F' ∉ natText node := notMem_natText (by decide) node
    simp [nodeFront, digits]
  exact awkPrint_amounts clean (fun name kib word => by rw [words_nodeLine word]; rfl) info

end Awk

/-! ### The answers -/

section Answers

variable {s : MemoryState} {query : MemoryQuery} {kib : Nat}

/-- The first conversion of a stream reads the number in its first line. -/
theorem fscanfD_first (value : Option Int) (kib : Nat) (more : List Text) :
    (fscanfD (value, streamOf (natText kib :: more))).1 = some (storedInt kib) := by
  have word : words isSpace (streamOf (natText kib :: more)) =
      natText kib :: words isSpace (streamOf more) := by
    rw [words_streamOf, words_streamOf, List.flatMap_cons, words_of_isWord (readsInt_natText kib).1]
    rfl
  obtain ⟨rest, read, -⟩ := fscanfD_word value word (readsInt_natText kib)
  rw [read]

/-- What a call makes of the `int` that was stored. -/
def memoryReturned : MemoryQuery → Int → Int
  | .totalmem, word => unsignedLong word
  | .freemem, word => word
  | .totalmemNode, word => word % 2 ^ 32
  | .memnode _, word => word

theorem memoryAnswer_eq (printed : memoryPrinted s query = some kib) :
    memoryAnswer s query = memoryReturned query (storedInt kib) := by
  cases query with
  | totalmem =>
      obtain rfl := Option.some.inj printed
      obtain ⟨⟨more, output⟩, -⟩ := awkPrint_lines s.proc
      simp only [memoryAnswer, MemoryState.getTotalmem, readMem, output, fscanfD_first, Option.getD_some,
        memoryReturned]
  | freemem =>
      obtain rfl := Option.some.inj printed
      obtain ⟨-, more, output⟩ := awkPrint_lines s.proc
      simp only [memoryAnswer, MemoryState.naGetFreemem, readMem, output, fscanfD_first, Option.getD_some,
        memoryReturned]
  | totalmemNode =>
      obtain ⟨info, found, rfl⟩ := Option.map_eq_some_iff.mp printed
      obtain ⟨⟨more, output⟩, -⟩ := awkPrint_nodeLines 0 info
      have stream : s.awkNode "MemTotal".toList 4 0 = streamOf (natText info.memTotal :: more) := by
        simp only [MemoryState.awkNode, Int.le_refl, if_true, Int.toNat_zero, found, output]
      simp only [memoryAnswer, MemoryState.naGetTotalmemNode, readLowHalf, stream, fscanfD_first,
        Option.getD_some, memoryReturned]
  | memnode nodeid =>
      by_cases present : 0 ≤ nodeid
      · simp only [memoryPrinted, if_pos present] at printed
        obtain ⟨info, found, rfl⟩ := Option.map_eq_some_iff.mp printed
        obtain ⟨-, more, output⟩ := awkPrint_nodeLines nodeid.toNat info
        have stream : s.awkNode "MemFree".toList 4 nodeid = streamOf (natText info.memFree :: more) := by
          simp only [MemoryState.awkNode, if_pos present, found, output]
        simp only [memoryAnswer, MemoryState.naGetMemnode, readMem, stream, fscanfD_first,
          Option.getD_some, memoryReturned]
      · simp only [memoryPrinted, if_neg present] at printed
        cases printed

/-- Where the range of `int` is not left, the answer is that of the reader that stops there. -/
theorem getTotalmem_eq_live {m : Machine} {value : Int} (others : List Text) {memFree : Nat}
    {node : Nat → Option Meminfo} (live : getTotalmem m = .ok value) :
    MemoryState.getTotalmem
      { proc := { memTotal := m.memTotal, memFree := memFree, others := others }, node := node } =
        value := by
  obtain ⟨mem, read, result⟩ := bind_eq_ok.mp live
  obtain rfl := Except.ok.inj result
  unfold fscanfInt at read
  simp only at read
  split at read
  · rename_i small
    obtain rfl := Except.ok.inj read
    have answer := @memoryAnswer_eq
      { proc := { memTotal := m.memTotal, memFree := memFree, others := others }, node := node }
      .totalmem m.memTotal rfl
    rw [storedInt_eq_self (by omega) (by exact_mod_cast small)] at answer
    exact answer
  · cases read

/-! ### Exact conditions -/

/-- An `int` holds the number, or -1. -/
theorem storedInt_right_iff (range : kib < 2 ^ 63) :
    (storedInt kib = kib ∨ storedInt kib = -1) ↔ kib < 2 ^ 31 ∨ kib % 2 ^ 32 = 2 ^ 32 - 1 := by
  rw [storedInt_natCast range]
  split
  · omega
  · omega

/-- The same after the conversion to `unsigned long`, which extends the sign. -/
theorem unsignedLong_right_iff (range : kib < 2 ^ 63) :
    (unsignedLong (storedInt kib) = kib ∨ unsignedLong (storedInt kib) = unsignedLong (-1)) ↔
      kib < 2 ^ 31 ∨ kib % 2 ^ 32 = 2 ^ 32 - 1 := by
  rw [storedInt_natCast range]
  unfold unsignedLong
  split
  · omega
  · omega

/-- The low half of an `unsigned long` is never -1. -/
theorem lowHalf_right_iff (range : kib < 2 ^ 63) :
    (storedInt kib % 2 ^ 32 = kib ∨ storedInt kib % 2 ^ 32 = unsignedLong (-1)) ↔ kib < 2 ^ 32 := by
  rw [storedInt_natCast range]
  unfold unsignedLong
  split
  · omega
  · omega

end Answers

/-- Each function returns the amount that the kernel prints, or an error, exactly for the amounts that fit. -/
theorem memoryRight_iff {s : MemoryState} {query : MemoryQuery} {kib : Nat}
    (printed : memoryPrinted s query = some kib) (range : kib < 2 ^ 63) :
    MemoryRight s query kib ↔ MemoryFits query kib := by
  rw [MemoryRight, memoryAnswer_eq printed]
  cases query with
  | totalmem => exact unsignedLong_right_iff range
  | freemem => exact storedInt_right_iff range
  | totalmemNode => exact lowHalf_right_iff range
  | memnode nodeid => exact storedInt_right_iff range

/-- A machine of 2 TiB in two nodes, with all of it free. -/
def twoTebibytes : MemoryState where
  proc := { memTotal := 2 ^ 31, memFree := 2 ^ 31, others := [] }
  node n := if n < 2 then some { memTotal := 2 ^ 30, memFree := 2 ^ 30, others := [] } else none

/-- The amount of a node is returned. -/
theorem memoryRight_iff_twoTebibytes : MemoryRight twoTebibytes (.memnode 1) (2 ^ 30) := by
  have printed : memoryPrinted twoTebibytes (.memnode 1) = some (2 ^ 30) := by decide
  exact (memoryRight_iff printed (by decide)).mpr (Or.inl (by decide))

/-- And the amount of the machine is not. -/
theorem not_memoryRight_twoTebibytes : memoryPrinted twoTebibytes .totalmem = some (2 ^ 31) ∧
    ¬ MemoryRight twoTebibytes .totalmem (2 ^ 31) := by
  refine ⟨rfl, fun right => ?_⟩
  rw [MemoryRight, memoryAnswer_eq rfl] at right
  rcases (unsignedLong_right_iff (by decide)).mp right with small | ones
  · exact absurd small (by decide)
  · exact absurd ones (by decide)

end Numafac
