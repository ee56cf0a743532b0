/-
Module: Numafac.ArchTopology.SortedIds
Layer: ArchTopology
Purpose: The plain path of `na_get_cpusidnode` on its line: the line is read into a buffer of four
  characters for each CPU and one more, split into tokens, and sorted in place. For distinct ids of at
  most three digits nothing is cut and no token is missing, and the array ends in ascending order
  (`cpusOfText_sorted`). An access outside an array would be a fault.
Trusted boundary: none beyond `NodeCpus`
Main exports: idsLine, tokensOfLine, cpusOfText, cpusOfLine_eq_cpusOfText, cpusOfText_sorted
-/
import Numafac.ArchTopology.NodeCpus

namespace Numafac

/-- CPU ids separated by single spaces, as a line. -/
def idsLine (ids : List Nat) : Text :=
  List.intercalate [' '] (ids.map natText) ++ ['\n']

/-- `cpu = strtok (resp," \n"); cpusid[0] = atoi(cpu);` and the loop over the other tokens. -/
def tokensOfLine (tcpus : Nat) (resp : Text) : CResult (CArray Int × Text) := do
  let state ← storeToken blankOrNewline (malloc tcpus, resp) 0
  forRange 1 tcpus (storeToken blankOrNewline) state

/-- `na_get_cpusidnode` from `tcpus` and the line on, where no cache is shared or the last one is. -/
def cpusOfText (tcpus : Nat) (line : Text) : CResult (CArray Int) := do
  let resp ← bufferText (fgets (tcpus * 4 + 1) line)
  let (cpusid, _) ← tokensOfLine tcpus resp
  insertionSort tcpus cpusid

theorem cpusOfLine_eq_cpusOfText (fs : Sysfs) (nodeid : Int) :
    cpusOfLine fs nodeid = cpusOfText (fs.cpus 0).length (echoNodeCpuids fs nodeid) := by
  simp only [cpusOfLine, cpusOfText, tokensOfLine, bind_assoc]

/-! ### The stages -/

section Stages

variable {ids : List Nat}

theorem words_idsLine (ids : List Nat) : words blankOrNewline (idsLine ids) = ids.map natText := by
  rw [idsLine, words_append_sep _ _ rfl, words_nil, List.append_nil,
    words_ids rfl fun _ => blankOrNewline_digit]

/-- Every token of the line is found, in its order. -/
theorem tokensOfLine_eq (nonempty : ids ≠ []) (ints : ∀ id ∈ ids, id < 2 ^ 31) :
    ∃ rest, tokensOfLine ids.length (idsLine ids) =
      .ok (CArray.filled (ids.map Nat.cast), rest) := by
  have read : ((words blankOrNewline (idsLine ids)).take ids.length).map atoi =
      (ids.map (Nat.cast : Nat → Int)).map .ok := by
    rw [words_idsLine, ← List.map_take, List.take_length, List.map_map, List.map_map]
    exact List.map_congr_left fun id member => atoi_natText (ints id member)
  obtain ⟨final, ran, array⟩ := storeTokens_ok (List.length_map _) read
  refine ⟨final.2, ?_⟩
  rw [forRange_step (List.length_pos_of_ne_nil nonempty)] at ran
  rw [← array]
  exact ran

/-- Distinct ids that are in order ascend. -/
theorem ascending_of_perm {sorted : List Int} (distinct : ids.Nodup)
    (perm : sorted.Perm (ids.map Nat.cast)) (ordered : sorted.Pairwise (· ≤ ·)) :
    ∃ ascending : List Nat, sorted = ascending.map Nat.cast ∧ ascending.Perm ids ∧
      ascending.Pairwise (· < ·) := by
  have natural : (sorted.map Int.toNat).map Nat.cast = sorted := by
    rw [List.map_map]
    conv_rhs => rw [← List.map_id sorted]
    refine List.map_congr_left fun v member => ?_
    obtain ⟨id, -, rfl⟩ := List.mem_map.mp (perm.subset member)
    rfl
  have back : (ids.map (Nat.cast : Nat → Int)).map Int.toNat = ids := by
    rw [List.map_map]
    exact List.map_id ids
  have permIds : (sorted.map Int.toNat).Perm ids := by
    have mapped := perm.map Int.toNat
    rwa [back] at mapped
  refine ⟨sorted.map Int.toNat, natural.symm, permIds, ?_⟩
  have apart : (sorted.map Int.toNat).Pairwise (· ≠ ·) := permIds.nodup_iff.mpr distinct
  have steps : (sorted.map Int.toNat).Pairwise (· ≤ ·) :=
    List.pairwise_map.mpr (ordered.imp fun le => Int.toNat_le_toNat le)
  exact (steps.and apart).imp fun ⟨le, ne⟩ => Nat.lt_of_le_of_ne le ne

end Stages

/-- For distinct ids of at most three digits the buffer holds the whole line, all tokens are stored, and the
sort ends with the ids in ascending order; so does the call on every machine with this node. -/
theorem cpusOfText_sorted {ids : List Nat} (occupied : 1 ≤ ids.length) (distinct : ids.Nodup)
    (short : ∀ id ∈ ids, id < 1000) :
    fgets (ids.length * 4 + 1) (idsLine ids) = some (idsLine ids) ∧
    (∃ rest, tokensOfLine ids.length (idsLine ids) =
      .ok (CArray.filled (ids.map Nat.cast), rest)) ∧
    ∃ ascending : List Nat, ascending.Perm ids ∧ ascending.Pairwise (· < ·) ∧
      cpusOfText ids.length (idsLine ids) = .ok (CArray.filled (ascending.map Nat.cast)) ∧
      ∀ (topo : ArchTopo) (fs : Sysfs) (node depth : Nat), linesBranch fs = true → fs.cpus node = ids →
        (fs.cpus 0).length = ids.length → naGetCpusidnode topo fs node (depth + 1) =
          some (.ok (CArray.filled (ascending.map Nat.cast))) := by
  have nonempty : ids ≠ [] := List.length_pos_iff.mp occupied
  have buffer : fgets (ids.length * 4 + 1) (idsLine ids) = some (idsLine ids) :=
    fgets_ids (by decide) nonempty short
  obtain ⟨rest, tokens⟩ := tokensOfLine_eq nonempty fun id member => (short id member).trans (by decide)
  obtain ⟨sorted, sort, perm, ordered⟩ := insertionSort_sorted (ids.map Nat.cast)
  obtain ⟨ascending, rfl, permIds, ascends⟩ := ascending_of_perm distinct perm ordered
  have call : cpusOfText ids.length (idsLine ids) =
      .ok (CArray.filled (ascending.map Nat.cast)) := by
    rw [List.length_map] at sort
    rw [cpusOfText, buffer]
    refine bind_eq_ok.mpr ⟨idsLine ids, rfl, bind_eq_ok.mpr ⟨_, tokens, sort⟩⟩
  refine ⟨buffer, ⟨rest, tokens⟩, ascending, permIds, ascends, call, ?_⟩
  intro topo fs node depth branch cpus count
  rw [naGetCpusidnode_of_lines branch, cpusOfLine_eq_cpusOfText, count, echoNodeCpuids_eq, cpus]
  exact congrArg some call

theorem cpusOfText_sorted_threeIds :
    ∃ ascending : List Nat, ascending.Perm [10, 2, 0] ∧ ascending.Pairwise (· < ·) ∧
      cpusOfText 3 (idsLine [10, 2, 0]) = .ok (CArray.filled (ascending.map Nat.cast)) := by
  obtain ⟨-, -, ascending, perm, ascends, call, -⟩ :=
    @cpusOfText_sorted [10, 2, 0] (by decide) (by decide) (by decide)
  exact ⟨ascending, perm, ascends, call⟩

end Numafac
