/-
Module: Numafac.Latencies.Hwloc
Layer: Latencies
Purpose: The part of hwloc that `compute-latencies` uses. A topology is a tree of objects; the objects
  of a type are numbered from left to right, and two objects have a deepest common ancestor. Processing
  units and nodes also carry the number that the operating system gives them, which need not follow the
  tree.
Trusted boundary: that hwloc answers as its documentation says
Main exports: HwlocObj, HwlocTopology, HwlocTopology.getObjByType, HwlocTopology.getCommonAncestorObj,
  HwlocTopology.puAt, HwlocTopology.nodeOf, HwlocTopology.sharedCache, sharedCache_smallest
-/
import Numafac.Base.CMemory
import Numafac.Base.ObjectTree

namespace Numafac

/-- An object with the attributes that are read: `os_index` of nodes and processing units,
`attr->cache.depth` and `attr->cache.size` of caches. -/
inductive HwlocObj where
  | machine
  | group
  | socket
  | core
  | node (osIndex : Nat)
  | cache (depth size : Nat)
  | pu (osIndex : Nat)
deriving DecidableEq, Repr

namespace HwlocObj

def isCore : HwlocObj → Bool
  | core => true
  | _ => false

def nodeIndex? : HwlocObj → Option Nat
  | node osIndex => some osIndex
  | _ => none

def cacheDepth? : HwlocObj → Option Nat
  | cache depth _ => some depth
  | _ => none

def puIndex? : HwlocObj → Option Nat
  | pu osIndex => some osIndex
  | _ => none

theorem eq_cache_of_cacheDepth? {obj : HwlocObj} {depth : Nat} (h : obj.cacheDepth? = some depth) :
    ∃ size, obj = cache depth size := by
  cases obj with
  | cache depth' size =>
      cases h
      exact ⟨size, rfl⟩
  | machine => cases h
  | group => cases h
  | socket => cases h
  | core => cases h
  | node osIndex => cases h
  | pu osIndex => cases h

end HwlocObj

/-- A topology with up to three cache levels whose processing units have different numbers. -/
structure HwlocTopology where
  tree : ObjectTree HwlocObj
  depths : ∀ path ∈ tree.paths, ∀ depth ∈ (tree.label? path).bind HwlocObj.cacheDepth?,
    1 ≤ depth ∧ depth ≤ 3
  levels : ∀ path ∈ tree.paths, (tree.lineage path).countP (·.cacheDepth?.isSome) ≤ 3
  pus : (tree.paths.filterMap fun path => (tree.label? path).bind HwlocObj.puIndex?).Nodup

namespace HwlocTopology

variable (t : HwlocTopology)

/-- The objects of a type in logical order. -/
def objects (isType : HwlocObj → Bool) : List Path :=
  t.tree.paths.filter fun path => (t.tree.label? path).any isType

/-- `hwloc_get_obj_by_type`: null when there are not so many. -/
def getObjByType (isType : HwlocObj → Bool) (k : Nat) : Option Path :=
  (t.objects isType)[k]?

/-- `hwloc_get_common_ancestor_obj`, and the object it returns. -/
def getCommonAncestorObj : Option Path → Option Path → CResult HwlocObj
  | some p, some q => match t.tree.label? (commonPrefix p q) with
    | some obj => .ok obj
    | none => .error .nullPointer
  | _, _ => .error .nullPointer

/-! ### What the operating system's numbers mean -/

/-- The processing unit with a number. -/
def puAt (osIndex : Nat) : Option Path :=
  t.tree.paths.find? fun path => decide (t.tree.label? path = some (.pu osIndex))

/-- The number of the node that contains an object, 0 on a machine without nodes. -/
def nodeOf (path : Path) : Nat :=
  ((t.tree.lineage path).findSome? HwlocObj.nodeIndex?).getD 0

/-- The level of the smallest cache that contains two objects. -/
def sharedCache (p q : Path) : Option Nat :=
  (t.tree.lineage (commonPrefix p q)).findSome? HwlocObj.cacheDepth?

end HwlocTopology

section Facts

variable {t : HwlocTopology}

theorem mem_paths_of_label {path : Path} {obj : HwlocObj} (label : t.tree.label? path = some obj) :
    path ∈ t.tree.paths := by
  rw [ObjectTree.mem_paths]
  rw [ObjectTree.label?, Option.map_eq_some_iff] at label
  obtain ⟨subtree, found, -⟩ := label
  simp [found]

/-- Caches are numbered from 1 to 3. -/
theorem depth_bounds {path : Path} {depth size : Nat}
    (label : t.tree.label? path = some (.cache depth size)) : 1 ≤ depth ∧ depth ≤ 3 :=
  t.depths path (mem_paths_of_label label) depth (by rw [label]; rfl)

/-- Any cache that contains both objects contains the one found. -/
theorem sharedCache_smallest {p q : Path} {depth : Nat} (found : t.sharedCache p q = some depth) :
    ∃ r size, r <+: p ∧ r <+: q ∧ t.tree.label? r = some (.cache depth size) ∧
      ∀ s depth' size', s <+: p → s <+: q → t.tree.label? s = some (.cache depth' size') → s <+: r := by
  obtain ⟨r, isPrefix, ⟨obj, label, here⟩, deepest⟩ := ObjectTree.deepest_of_findSome? found
  obtain ⟨left, right⟩ := prefix_commonPrefix_iff.mp isPrefix
  obtain ⟨size, rfl⟩ := HwlocObj.eq_cache_of_cacheDepth? here
  refine ⟨r, size, left, right, label, fun s depth' size' hp hq label' => ?_⟩
  have common : s <+: commonPrefix p q := prefix_commonPrefix_iff.mpr ⟨hp, hq⟩
  rcases Nat.lt_or_ge r.length s.length with longer | short
  · cases deepest s _ common longer label'
  · exact List.prefix_of_prefix_length_le common isPrefix short

/-- The deepest common ancestor of two objects is an object. -/
theorem getCommonAncestorObj_ok {k l : Nat} {isType : HwlocObj → Bool} {obj : HwlocObj} :
    t.getCommonAncestorObj (t.getObjByType isType k) (t.getObjByType isType l) = .ok obj ↔
      ∃ p q, t.getObjByType isType k = some p ∧ t.getObjByType isType l = some q ∧
        t.tree.label? (commonPrefix p q) = some obj := by
  cases first : t.getObjByType isType k with
  | none => simp [HwlocTopology.getCommonAncestorObj]
  | some p =>
      cases second : t.getObjByType isType l with
      | none => simp [HwlocTopology.getCommonAncestorObj]
      | some q =>
          cases label : t.tree.label? (commonPrefix p q) with
          | none => simp [HwlocTopology.getCommonAncestorObj, label]
          | some obj' => simp [HwlocTopology.getCommonAncestorObj, label]

end Facts

end Numafac
