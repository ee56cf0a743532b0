/-
Module: Numafac.Base.ParallelFor
Layer: Base
Purpose: Loops whose iterations may come in any order. An iteration that reads and writes only what belongs
  to its index commutes with the others: the loop applies one function to each index that it has, whatever
  the order (`cell_parallelFor`).
Trusted boundary: none
Main exports: parallelFor, Pointwise, cell_parallelFor, cell_parallelFor_range
-/
import Mathlib.Data.List.Nodup

namespace Numafac

variable {ι σ γ : Type}

/-- The iterations in this order. -/
def parallelFor (body : ι → σ → σ) (order : List ι) (s : σ) : σ :=
  order.foldl (fun s j => body j s) s

/-- An iteration does `f` to what belongs to its index, and nothing to what belongs to another one. -/
structure Pointwise (cell : σ → ι → γ) (body : ι → σ → σ) (f : γ → γ) : Prop where
  here : ∀ j s, cell (body j s) j = f (cell s j)
  elsewhere : ∀ {i j} s, i ≠ j → cell (body j s) i = cell s i

variable {cell : σ → ι → γ} {body : ι → σ → σ} {f : γ → γ}

/-- Indices that do not come are left alone, and the others come once. -/
theorem cell_parallelFor [DecidableEq ι] (pointwise : Pointwise cell body f) {order : List ι}
    (nodup : order.Nodup) (s : σ) (i : ι) :
    cell (parallelFor body order s) i = if i ∈ order then f (cell s i) else cell s i := by
  induction order generalizing s with
  | nil => rfl
  | cons j order ih =>
      obtain ⟨fresh, nodup⟩ := List.nodup_cons.mp nodup
      have later := ih nodup (body j s)
      rw [parallelFor, List.foldl_cons]
      rw [parallelFor] at later
      rw [later]
      by_cases same : i = j
      · subst same
        rw [if_neg fresh, if_pos (List.mem_cons_self), pointwise.here]
      · rw [pointwise.elsewhere s same]
        exact if_congr (by simp [same]) rfl rfl

/-- A loop over the numbers below `n` in any order. -/
theorem cell_parallelFor_range {cell : σ → Nat → γ} {body : Nat → σ → σ} (pointwise : Pointwise cell body f)
    {n : Nat} {order : List Nat} (perm : order.Perm (List.range n)) (s : σ) {i : Nat} (inside : i < n) :
    cell (parallelFor body order s) i = f (cell s i) := by
  have member : i ∈ order := perm.mem_iff.mpr (List.mem_range.mpr inside)
  rw [cell_parallelFor pointwise (perm.nodup_iff.mpr List.nodup_range), if_pos member]

end Numafac
