/-
Module: Numafac.Base.ObjectTree
Layer: Base
Purpose: Trees of labelled objects, whose objects are named by their paths of child indices from the
  root. An object is an ancestor of another when its path is a prefix, so the deepest common ancestor of
  two objects is at their longest common prefix (`prefix_commonPrefix_iff`), and the objects of a kind
  are numbered in the order of `paths`, from left to right.
Trusted boundary: none
Main exports: ObjectTree, ObjectTree.label?, ObjectTree.paths, ObjectTree.lineage, commonPrefix,
  prefix_commonPrefix_iff, ObjectTree.mem_paths, ObjectTree.deepest_of_findSome?
-/
import Mathlib.Data.List.Basic
import Mathlib.Tactic.Common

namespace Numafac

/-- An object with its children from left to right. -/
inductive ObjectTree (α : Type) where
  | object (label : α) (children : List (ObjectTree α))

/-- The child indices on the way from the root to an object. -/
abbrev Path := List Nat

/-! ### Common ancestors -/

/-- The longest common prefix of two paths. -/
def commonPrefix : Path → Path → Path
  | i :: p, j :: q => if i = j then i :: commonPrefix p q else []
  | _, _ => []

/-- The common ancestors of two objects are the ancestors of the object at the longest common prefix. -/
theorem prefix_commonPrefix_iff {r p q : Path} : r <+: commonPrefix p q ↔ r <+: p ∧ r <+: q := by
  induction p generalizing q r with
  | nil =>
      simp only [commonPrefix, List.prefix_nil]
      exact ⟨fun empty => ⟨empty, empty ▸ List.nil_prefix⟩, fun both => both.1⟩
  | cons i p ih =>
      cases q with
      | nil =>
          simp only [commonPrefix, List.prefix_nil]
          exact ⟨fun empty => ⟨empty ▸ List.nil_prefix, empty⟩, fun both => both.2⟩
      | cons j q =>
          cases r with
          | nil => simp
          | cons k r =>
              by_cases same : i = j
              · subst same
                simp only [commonPrefix, if_true, List.cons_prefix_cons, ih]
                exact ⟨fun ⟨first, left, right⟩ => ⟨⟨first, left⟩, first, right⟩,
                  fun ⟨⟨first, left⟩, _, right⟩ => ⟨first, left, right⟩⟩
              · simp only [commonPrefix, if_neg same, List.cons_prefix_cons, List.prefix_nil]
                refine iff_of_false (by simp) ?_
                rintro ⟨⟨first, -⟩, second, -⟩
                exact same (first.symm.trans second)

namespace ObjectTree

variable {α : Type}

def label : ObjectTree α → α
  | object label _ => label

def children : ObjectTree α → List (ObjectTree α)
  | object _ children => children

/-- The object at a path, with everything below it. -/
def at? (tree : ObjectTree α) : Path → Option (ObjectTree α)
  | [] => some tree
  | i :: path => match tree.children[i]? with
    | some child => child.at? path
    | none => none

/-- The label of the object at a path. -/
def label? (tree : ObjectTree α) (path : Path) : Option α :=
  (tree.at? path).map label

mutual
/-- The paths of all objects, each object before its children and these from left to right. -/
def paths : ObjectTree α → List Path
  | object _ children => [] :: childPaths 0 children
def childPaths (i : Nat) : List (ObjectTree α) → List Path
  | [] => []
  | child :: children => child.paths.map (i :: ·) ++ childPaths (i + 1) children
end

/-- The labels from an object up to the root. -/
def lineage (tree : ObjectTree α) : Path → List α
  | [] => [tree.label]
  | i :: path => match tree.children[i]? with
    | some child => child.lineage path ++ [tree.label]
    | none => [tree.label]

theorem at?_cons (tree : ObjectTree α) (i : Nat) (path : Path) :
    tree.at? (i :: path) = tree.children[i]?.bind fun child => child.at? path := by
  rw [at?]
  cases tree.children[i]? with
  | none => rfl
  | some child => rfl

mutual
theorem mem_paths : ∀ {tree : ObjectTree α} {path : Path}, path ∈ tree.paths ↔ (tree.at? path).isSome
  | object label children, [] => by simp [paths, at?]
  | object label children, i :: path => by
      have inChildren := @mem_childPaths children 0 (i :: path)
      simp only [paths, List.mem_cons, reduceCtorEq, false_or, at?_cons, ObjectTree.children]
      rw [inChildren]
      constructor
      · rintro ⟨k, child, rest, shape, found, present⟩
        obtain ⟨rfl, rfl⟩ := List.cons.inj shape
        rw [Nat.zero_add, found]
        exact present
      · intro present
        cases found : children[i]? with
        | none => simp [found] at present
        | some child =>
            rw [found] at present
            exact ⟨i, child, path, by rw [Nat.zero_add], found, present⟩
theorem mem_childPaths : ∀ {children : List (ObjectTree α)} {start : Nat} {path : Path},
    path ∈ childPaths start children ↔ ∃ k child rest, path = (start + k) :: rest ∧
      children[k]? = some child ∧ (child.at? rest).isSome
  | [], start, path => by simp [childPaths]
  | child :: children, start, path => by
      have here := fun rest => @mem_paths child rest
      have later := @mem_childPaths children (start + 1) path
      simp only [childPaths, List.mem_append, List.mem_map, later, here]
      constructor
      · rintro (⟨rest, present, rfl⟩ | ⟨k, other, rest, rfl, found, present⟩)
        · exact ⟨0, child, rest, rfl, rfl, present⟩
        · exact ⟨k + 1, other, rest, by rw [Nat.add_right_comm, Nat.add_assoc], found, present⟩
      · rintro ⟨k, other, rest, rfl, found, present⟩
        cases k with
        | zero =>
            cases found
            exact Or.inl ⟨rest, present, rfl⟩
        | succ k =>
            exact Or.inr ⟨k, other, rest, by rw [Nat.add_right_comm, Nat.add_assoc], found, present⟩
end

theorem label?_cons {tree child : ObjectTree α} {i : Nat} (found : tree.children[i]? = some child)
    (path : Path) : tree.label? (i :: path) = child.label? path := by
  rw [label?, at?_cons, found]
  rfl

theorem label?_cons_none {tree : ObjectTree α} {i : Nat} (missing : tree.children[i]? = none)
    (path : Path) : tree.label? (i :: path) = none := by
  rw [label?, at?_cons, missing]
  rfl

/-- The labels on the way up are those of the ancestors. -/
theorem mem_lineage {tree : ObjectTree α} {path r : Path} {a : α} (ancestor : r <+: path)
    (label : tree.label? r = some a) : a ∈ tree.lineage path := by
  induction path generalizing tree r with
  | nil =>
      obtain rfl := List.prefix_nil.mp ancestor
      exact List.mem_singleton.mpr (Option.some.inj label).symm
  | cons i path ih =>
      cases r with
      | nil =>
          have root : a = tree.label := (Option.some.inj label).symm
          rw [lineage]
          cases tree.children[i]? with
          | none => exact List.mem_singleton.mpr root
          | some child => exact List.mem_append_right _ (List.mem_singleton.mpr root)
      | cons j r =>
          obtain ⟨rfl, below⟩ := List.cons_prefix_cons.mp ancestor
          rw [lineage]
          cases found : tree.children[j]? with
          | none =>
              rw [label?_cons_none found] at label
              cases label
          | some child =>
              rw [label?_cons found] at label
              exact List.mem_append_left _ (ih below label)

/-- A search on the way up ends at the deepest ancestor where it succeeds. -/
theorem deepest_of_findSome? {β : Type} {f : α → Option β} {b : β} {tree : ObjectTree α} {path : Path}
    (found : (tree.lineage path).findSome? f = some b) :
    ∃ r, r <+: path ∧ (∃ a, tree.label? r = some a ∧ f a = some b) ∧
      ∀ s a, s <+: path → r.length < s.length → tree.label? s = some a → f a = none := by
  induction path generalizing tree with
  | nil =>
      refine ⟨[], List.prefix_rfl, ⟨tree.label, rfl, by simpa [lineage] using found⟩, ?_⟩
      intro s a isPrefix longer
      rw [List.prefix_nil.mp isPrefix] at longer
      exact absurd longer (Nat.lt_irrefl 0)
  | cons i path ih =>
      rw [lineage] at found
      cases child : tree.children[i]? with
      | none =>
          rw [child] at found
          refine ⟨[], List.nil_prefix, ⟨tree.label, rfl, by simpa using found⟩, ?_⟩
          intro s a isPrefix longer label
          cases s with
          | nil => exact absurd longer (Nat.lt_irrefl 0)
          | cons j s =>
              obtain ⟨rfl, -⟩ := List.cons_prefix_cons.mp isPrefix
              rw [label?_cons_none child] at label
              cases label
      | some child' =>
          simp only [child, List.findSome?_append] at found
          cases below : (child'.lineage path).findSome? f with
          | some b' =>
              rw [below] at found
              obtain rfl : b' = b := Option.some.inj found
              obtain ⟨r, isPrefix, label, deepest⟩ := ih below
              refine ⟨i :: r, List.cons_prefix_cons.mpr ⟨rfl, isPrefix⟩, ?_, ?_⟩
              · rwa [label?_cons child]
              · intro s a isPrefix longer label
                cases s with
                | nil => simp at longer
                | cons j s =>
                    obtain ⟨rfl, below⟩ := List.cons_prefix_cons.mp isPrefix
                    rw [label?_cons child] at label
                    exact deepest s a below (by simpa using longer) label
          | none =>
              rw [below] at found
              refine ⟨[], List.nil_prefix, ⟨tree.label, rfl, by simpa using found⟩, ?_⟩
              intro s a isPrefix longer label
              cases s with
              | nil => exact absurd longer (Nat.lt_irrefl 0)
              | cons j s =>
                  obtain ⟨rfl, isPrefix'⟩ := List.cons_prefix_cons.mp isPrefix
                  rw [label?_cons child] at label
                  exact List.findSome?_eq_none_iff.mp below a (mem_lineage isPrefix' label)

end ObjectTree

end Numafac
