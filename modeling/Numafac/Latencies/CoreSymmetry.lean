/-
Module: Numafac.Latencies.CoreSymmetry
Layer: Latencies
Purpose: What the matrix of core latencies does not depend on. An entry is a function of the nodes of the
  two cores and of the deepest common ancestor that hwloc reports, so a symmetric table of nodes gives a
  symmetric matrix, and renaming the cores without changing these data renames the entries
  (`coresMatrix_invariant`). The entries are first looked at with any answers of hwloc (`matrixOf_entry`),
  and then with those on the tree (`coresMatrix_eq`).
Trusted boundary: none beyond `Latencies/CoreMatrix`
Main exports: factorOf, matrixOf, coresMatrix_eq, matrixOf_entry, PreservesCores, coresMatrix_invariant
-/
import Numafac.Latencies.CoreMatrix

namespace Numafac

section Answers

variable (count : Nat) (ancestor : Nat → Nat → CResult HwlocObj) (latencies : CArray ℚ)
  (nodes : CArray (CArray ℚ)) (table : CArray Int)

/-- `coreFactor`, where `ancestor i j` is the common ancestor that hwloc finds for the cores number `i` and
`j`. -/
def factorOf (i j : Nat) : CResult ℚ :=
  if i ≠ j then do
    let ancestor ← ancestor i j
    match ancestor with
    | .cache depth _ => latencies.readAt ((depth : Int) - 1)
    | _ => do
        let node ← table.read i
        cellOf nodes node node
  else latencies.read 0

/-- `cores_matrix`, with these answers. -/
def matrixOf : CResult (CArray (CArray ℚ)) :=
  fillArray count fun i => do
    let currentNode ← table.read i
    fillArray count fun j => do
      let node ← table.read j
      if node = currentNode then factorOf ancestor latencies nodes table i j
      else cellOf nodes currentNode node

/-- The entry of the table for the nodes of two cores. -/
def nodeEntry (i j : Nat) : CResult ℚ := do
  let node ← table.read i
  let node' ← table.read j
  cellOf nodes node node'

end Answers

/-- What hwloc answers for the cores number `i` and `j` of a topology. -/
def HwlocTopology.coreAncestor (t : HwlocTopology) (i j : Nat) : CResult HwlocObj :=
  t.getCommonAncestorObj (t.getObjByType HwlocObj.isCore i) (t.getObjByType HwlocObj.isCore j)

/-- `cores_matrix` is the matrix with these answers. -/
theorem coresMatrix_eq (t : HwlocTopology) (latencies : CArray ℚ) (nodes : CArray (CArray ℚ))
    (table : CArray Int) :
    coresMatrix t latencies nodes table = matrixOf (nbCores t) t.coreAncestor latencies nodes table :=
  rfl

theorem commonPrefix_comm (p q : Path) : commonPrefix p q = commonPrefix q p := by
  induction p generalizing q with
  | nil => cases q <;> rfl
  | cons i p ih =>
      cases q with
      | nil => rfl
      | cons j q =>
          by_cases same : i = j
          · simp [commonPrefix, same, ih q]
          · simp [commonPrefix, same, Ne.symm same]

/-- There the order of the objects does not matter. -/
theorem getCommonAncestorObj_comm (t : HwlocTopology) (p q : Option Path) :
    t.getCommonAncestorObj p q = t.getCommonAncestorObj q p := by
  cases p with
  | none => cases q <;> rfl
  | some p =>
      cases q with
      | none => rfl
      | some q => rw [HwlocTopology.getCommonAncestorObj, HwlocTopology.getCommonAncestorObj,
          commonPrefix_comm]

/-- A renaming of the cores that keeps whether two cores are on one node, the kind and the depth of the
common ancestor of two cores of one node, and the entry of the table for their nodes. -/
structure PreservesCores {count : Nat} (ancestor : Nat → Nat → CResult HwlocObj)
    (nodes : CArray (CArray ℚ)) (table : CArray Int) (p : Equiv.Perm (Fin count)) : Prop where
  sameNode : ∀ i j : Fin count, table.read i = table.read j ↔ table.read (p i) = table.read (p j)
  ancestors : ∀ i j : Fin count, i ≠ j → table.read i = table.read j →
    (ancestor (p i) (p j)).map HwlocObj.cacheDepth? = (ancestor i j).map HwlocObj.cacheDepth?
  entries : ∀ i j : Fin count, nodeEntry nodes table (p i) (p j) = nodeEntry nodes table i j

/-! ### Entries -/

section Entries

variable {count : Nat} {ancestor : Nat → Nat → CResult HwlocObj} {latencies : CArray ℚ}
  {nodes matrix : CArray (CArray ℚ)} {table : CArray Int}

/-- An entry of the matrix, by the data it depends on. -/
def entryOf (ancestor : Nat → Nat → CResult HwlocObj) (latencies : CArray ℚ)
    (nodes : CArray (CArray ℚ)) (table : CArray Int) (i j : Nat) : CResult ℚ :=
  if i = j then latencies.read 0
  else if table.read i = table.read j then
    ((ancestor i j).map HwlocObj.cacheDepth?).bind fun depth? => match depth? with
      | some depth => latencies.readAt ((depth : Int) - 1)
      | none => nodeEntry nodes table i j
  else nodeEntry nodes table i j

theorem nodeEntry_eq {i j : Nat} {node node' : Int} (first : table.read i = .ok node)
    (second : table.read j = .ok node') : nodeEntry nodes table i j = cellOf nodes node node' := by
  rw [nodeEntry, first, second]
  rfl

/-- `coreFactor` for two cores of one node. -/
theorem factorOf_eq {i j : Nat} {node : Int} (other : i ≠ j) (first : table.read i = .ok node)
    (second : table.read j = .ok node) : factorOf ancestor latencies nodes table i j =
      ((ancestor i j).map HwlocObj.cacheDepth?).bind fun depth? => match depth? with
        | some depth => latencies.readAt ((depth : Int) - 1)
        | none => nodeEntry nodes table i j := by
  rw [factorOf, if_pos other, nodeEntry_eq first second]
  cases found : ancestor i j with
  | error fault => rfl
  | ok obj =>
      cases depth : obj.cacheDepth? with
      | some d =>
          obtain ⟨size, rfl⟩ := HwlocObj.eq_cache_of_cacheDepth? depth
          rfl
      | none =>
          simp only [Except.map, depth, bind, Except.bind, first]
          split
          · cases depth
          · rfl

/-- The entry that is computed is this one, and it is defined. -/
theorem matrixOf_entry (ran : matrixOf count ancestor latencies nodes table = .ok matrix) {i j : Nat}
    (hi : i < count) (hj : j < count) :
    cellOf matrix i j = entryOf ancestor latencies nodes table i j ∧
      ∃ v, entryOf ancestor latencies nodes table i j = .ok v := by
  obtain ⟨row, elements, filled⟩ := (read_fillArray ran).2 i hi
  rw [filled] at row
  obtain ⟨node, first, filled⟩ := bind_eq_ok.mp filled
  obtain ⟨cell, v, defined⟩ := (read_fillArray filled).2 j hj
  obtain ⟨node', second, value⟩ := bind_eq_ok.mp defined
  have entry : entryOf ancestor latencies nodes table i j = .ok v := by
    unfold entryOf
    by_cases diagonal : i = j
    · subst diagonal
      obtain rfl := Except.ok.inj (first.symm.trans second)
      rw [if_pos rfl] at value ⊢
      rw [factorOf, if_neg fun other => other rfl] at value
      exact value
    · rw [if_neg diagonal, first, second]
      by_cases same : node = node'
      · subst same
        rw [if_pos rfl] at value ⊢
        rw [factorOf_eq diagonal first second] at value
        exact value
      · rw [if_neg (Ne.symm same)] at value
        rw [if_neg fun equal => same (Except.ok.inj equal), nodeEntry_eq first second]
        exact value
  rw [cellOf_of_row row, cell, defined]
  exact ⟨entry.symm, v, entry⟩

/-! ### Symmetry and renaming -/

/-- An entry and its mirror image are found in the same place. -/
theorem entryOf_comm (symmetric : ∀ i j, ancestor i j = ancestor j i)
    (mirrored : ∀ a b v, cellOf nodes a b = .ok v → cellOf nodes b a = .ok v) {i j : Nat} {v : ℚ}
    (entry : entryOf ancestor latencies nodes table i j = .ok v) :
    entryOf ancestor latencies nodes table j i = .ok v := by
  have mirror : ∀ {w}, nodeEntry nodes table i j = .ok w → nodeEntry nodes table j i = .ok w := by
    intro w found
    obtain ⟨node, first, found⟩ := bind_eq_ok.mp found
    obtain ⟨node', second, found⟩ := bind_eq_ok.mp found
    rw [nodeEntry_eq second first]
    exact mirrored node node' w found
  unfold entryOf at entry ⊢
  by_cases diagonal : i = j
  · rw [if_pos diagonal] at entry
    rwa [if_pos diagonal.symm]
  · rw [if_neg diagonal] at entry
    rw [if_neg (Ne.symm diagonal)]
    by_cases same : table.read i = table.read j
    · rw [if_pos same] at entry
      rw [if_pos same.symm, ← symmetric i j]
      obtain ⟨depth?, found, latency⟩ := bind_eq_ok.mp entry
      refine bind_eq_ok.mpr ⟨depth?, found, ?_⟩
      cases depth? with
      | some depth => exact latency
      | none => exact mirror latency
    · rw [if_neg same] at entry
      rw [if_neg (Ne.symm same)]
      exact mirror entry

/-- A renaming that keeps the data of an entry keeps the entry. -/
theorem entryOf_rename {p : Equiv.Perm (Fin count)} (preserves : PreservesCores ancestor nodes table p)
    (i j : Fin count) : entryOf ancestor latencies nodes table (p i) (p j) =
      entryOf ancestor latencies nodes table i j := by
  unfold entryOf
  by_cases diagonal : i = j
  · rw [diagonal, if_pos rfl, if_pos rfl]
  · have moved : (p i : Nat) ≠ p j := fun same => diagonal (p.injective (Fin.ext same))
    have other : (i : Nat) ≠ j := fun same => diagonal (Fin.ext same)
    rw [if_neg moved, if_neg other, preserves.entries i j]
    by_cases same : table.read i = table.read j
    · rw [if_pos same, if_pos ((preserves.sameNode i j).mp same), preserves.ancestors i j diagonal same]
    · rw [if_neg same, if_neg fun moved => same ((preserves.sameNode i j).mpr moved)]

/-- With answers that do not depend on the order, a symmetric table gives a symmetric matrix. -/
theorem matrixOf_symmetric (ran : matrixOf count ancestor latencies nodes table = .ok matrix)
    (symmetric : ∀ i j, ancestor i j = ancestor j i)
    (mirrored : ∀ a b v, cellOf nodes a b = .ok v → cellOf nodes b a = .ok v) {i j : Nat} (hi : i < count)
    (hj : j < count) : ∃ v, cellOf matrix i j = .ok v ∧ cellOf matrix j i = .ok v := by
  obtain ⟨cell, v, entry⟩ := matrixOf_entry ran hi hj
  obtain ⟨mirror, -⟩ := matrixOf_entry ran hj hi
  exact ⟨v, cell.trans entry, mirror.trans (entryOf_comm symmetric mirrored entry)⟩

/-- Renaming the cores renames the entries of the matrix. -/
theorem matrixOf_rename (ran : matrixOf count ancestor latencies nodes table = .ok matrix)
    {p : Equiv.Perm (Fin count)} (preserves : PreservesCores ancestor nodes table p) (i j : Fin count) :
    ∃ v, cellOf matrix (p i : Nat) (p j : Nat) = .ok v ∧ cellOf matrix (i : Nat) (j : Nat) = .ok v := by
  obtain ⟨cell, v, entry⟩ := matrixOf_entry ran i.isLt j.isLt
  obtain ⟨moved, -⟩ := matrixOf_entry ran (p i).isLt (p j).isLt
  exact ⟨v, moved.trans ((entryOf_rename preserves i j).trans entry), cell.trans entry⟩

end Entries

/-- Where all lookups are defined, every entry of the matrix has a value; a symmetric table gives a symmetric
matrix, and renaming the cores renames its entries. -/
theorem coresMatrix_invariant {t : HwlocTopology} {latencies : CArray ℚ} {nodes matrix : CArray (CArray ℚ)}
    {table : CArray Int} (ran : coresMatrix t latencies nodes table = .ok matrix) :
    ((∀ a b v, cellOf nodes a b = .ok v → cellOf nodes b a = .ok v) →
      ∀ i < nbCores t, ∀ j < nbCores t, ∃ v, cellOf matrix i j = .ok v ∧ cellOf matrix j i = .ok v) ∧
    ∀ p : Equiv.Perm (Fin (nbCores t)), PreservesCores t.coreAncestor nodes table p →
      ∀ i j : Fin (nbCores t), ∃ v,
        cellOf matrix (p i : Nat) (p j : Nat) = .ok v ∧ cellOf matrix (i : Nat) (j : Nat) = .ok v := by
  rw [coresMatrix_eq] at ran
  have symmetric : ∀ i j, t.coreAncestor i j = t.coreAncestor j i :=
    fun i j => getCommonAncestorObj_comm t _ _
  exact ⟨fun mirrored i hi j hj => matrixOf_symmetric ran symmetric mirrored hi hj,
    fun p preserves i j => matrixOf_rename ran preserves i j⟩

/-- The only index of an array of one element is 0. -/
theorem index_of_readAt {α : Type} {element v : α} {i : Int}
    (read : (CArray.filled [element]).readAt i = .ok v) : i = 0 := by
  unfold CArray.readAt at read
  split at read
  · have inside := CArray.lt_of_read_ok read
    rw [CArray.length_filled, List.length_singleton] at inside
    omega
  · cases read

/-- Two cores with caches of their own below a common one. -/
def twoCores : HwlocTopology where
  tree := .object .machine [.object (.cache 2 1048576) [
    .object (.cache 1 32768) [.object .core [.object (.pu 0) []]],
    .object (.cache 1 32768) [.object .core [.object (.pu 1) []]]]]
  depths := by decide
  levels := by decide
  pus := by decide

/-- Exchanging the two cores changes nothing: between them is the second cache, and each is at the first. -/
theorem coresMatrix_invariant_twoCores : ∃ matrix,
    coresMatrix twoCores (CArray.filled [1, 2, 3]) (CArray.filled [CArray.filled [9]])
      (CArray.filled [0, 0]) = .ok matrix ∧
    (cellOf matrix 0 1 = .ok 2 ∧ cellOf matrix 1 0 = .ok 2) ∧
      cellOf matrix 1 1 = .ok 1 ∧ cellOf matrix 0 0 = .ok 1 := by
  have ran : coresMatrix twoCores (CArray.filled [1, 2, 3]) (CArray.filled [CArray.filled [9]])
      (CArray.filled [0, 0]) = .ok (CArray.filled [CArray.filled [1, 2], CArray.filled [2, 1]]) := by decide
  have mirrored : ∀ a b v, cellOf (CArray.filled [CArray.filled [(9 : ℚ)]]) a b = .ok v →
      cellOf (CArray.filled [CArray.filled [(9 : ℚ)]]) b a = .ok v := by
    intro a b v cell
    obtain ⟨row, read, found⟩ := bind_eq_ok.mp cell
    obtain rfl := index_of_readAt read
    obtain rfl : row = CArray.filled [9] := (Except.ok.inj read).symm
    obtain rfl := index_of_readAt found
    exact cell
  obtain ⟨symmetric, rename⟩ := coresMatrix_invariant ran
  obtain ⟨v, here, there⟩ := symmetric mirrored 0 (by decide) 1 (by decide)
  obtain ⟨w, moved, stayed⟩ := rename (Equiv.swap ⟨0, by decide⟩ ⟨1, by decide⟩)
    ⟨by decide, by decide, by decide⟩ ⟨0, by decide⟩ ⟨0, by decide⟩
  obtain rfl : 2 = v := Except.ok.inj here
  obtain rfl : 1 = w := Except.ok.inj stayed
  exact ⟨_, ran, ⟨here, there⟩, moved, stayed⟩

end Numafac
