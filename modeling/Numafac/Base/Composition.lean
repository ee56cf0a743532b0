/-
Module: Numafac.Base.Composition
Layer: Base
Purpose: Systems of parts that step one at a time. A part makes a labelled step, and the label says what it
  does to the state that all parts share; the shared state also changes on its own. `Steps.invariant` is the
  induction over runs in any interleaving, `Run.add_weight_le` bounds the steps of a run by a weight, and
  `Steps.map` carries runs of concrete parts to runs of abstract ones when each step of a part has a
  counterpart.
Trusted boundary: none
Main exports: Composite, Composite.Step, Composite.Steps, Composite.Steps.invariant,
  Composite.Steps.invariant_multiset, Composite.Run, Composite.Run.trans, Composite.Run.add_weight_le,
  Composite.Simulates, Composite.Run.map, Composite.Steps.map
-/
import Mathlib.Algebra.GroupWithZero.Nat
import Mathlib.Data.Multiset.ZeroCons
import Mathlib.Logic.Relation

namespace Numafac

/-- Parts in a row, and the state they share. -/
structure Composite (C G : Type) where
  parts : List C
  shared : G

namespace Composite

variable {C A L G : Type}

/-- How the parts of a system step, what each label does to the shared state, and how that changes on its
own. -/
structure Rules (C L G : Type) where
  part : C → L → C → Prop
  effect : L → G → G → Prop
  alone : G → G → Prop

/-- One step of one part, or of the shared state. -/
inductive Step (rules : Rules C L G) : Composite C G → Composite C G → Prop where
  | part {before after : List C} {c c' : C} {l : L} {g g' : G} (moves : rules.part c l c')
      (effect : rules.effect l g g') : Step rules ⟨before ++ c :: after, g⟩ ⟨before ++ c' :: after, g'⟩
  | alone {parts : List C} {g g' : G} (moves : rules.alone g g') : Step rules ⟨parts, g⟩ ⟨parts, g'⟩

/-- Any number of steps. -/
abbrev Steps (rules : Rules C L G) : Composite C G → Composite C G → Prop :=
  Relation.ReflTransGen (Step rules)

variable {rules : Rules C L G} {s s' : Composite C G}

/-- What holds at the start and is kept by every step holds after every run. -/
theorem Steps.invariant (inv : Composite C G → Prop) (run : Steps rules s s') (start : inv s)
    (part : ∀ before c after l c' g g', rules.part c l c' → rules.effect l g g' →
      inv ⟨before ++ c :: after, g⟩ → inv ⟨before ++ c' :: after, g'⟩)
    (alone : ∀ parts g g', rules.alone g g' → inv ⟨parts, g⟩ → inv ⟨parts, g'⟩) : inv s' := by
  induction run with
  | refl => exact start
  | tail _ step ih =>
      cases step with
      | part moves effect => exact part _ _ _ _ _ _ _ moves effect ih
      | alone moves => exact alone _ _ _ moves ih

/-- The same for what does not depend on the order of the parts. -/
theorem Steps.invariant_multiset (inv : Multiset C → G → Prop) (run : Steps rules s s')
    (start : inv s.parts s.shared)
    (part : ∀ rest c l c' g g', rules.part c l c' → rules.effect l g g' → inv (c ::ₘ rest) g →
      inv (c' ::ₘ rest) g')
    (alone : ∀ parts g g', rules.alone g g' → inv parts g → inv parts g') : inv s'.parts s'.shared := by
  apply Steps.invariant (fun t => inv t.parts t.shared) run start
  · intro before c after l c' g g' moves effect held
    have middle : ∀ d : C, ((before ++ d :: after : List C) : Multiset C) = d ::ₘ ↑(before ++ after) := by
      intro d
      rw [Multiset.cons_coe]
      exact Multiset.coe_eq_coe.mpr List.perm_middle
    simp only [middle] at held ⊢
    exact part _ c l c' g g' moves effect held
  · exact fun parts g g' moves held => alone parts g g' moves held

/-- Every step of a concrete part that keeps to `ok` is a step of its abstraction. -/
structure Simulates (concrete : C → L → C → Prop) (abstract : A → L → A → Prop) (ok : C → Prop)
    (f : C → A) : Prop where
  keeps : ∀ {c l c'}, ok c → concrete c l c' → ok c'
  follows : ∀ {c l c'}, ok c → concrete c l c' → abstract (f c) l (f c')

/-- The abstraction of a system. -/
def map (f : C → A) (s : Composite C G) : Composite A G :=
  ⟨s.parts.map f, s.shared⟩

/-- A run with so many steps that count: all steps of the shared state, and those of parts with such a
label. -/
inductive Run (rules : Rules C L G) (counts : L → Bool) (s : Composite C G) : Nat → Composite C G → Prop where
  | refl : Run rules counts s 0 s
  | part {n : Nat} {before after : List C} {c c' : C} {l : L} {g g' : G}
      (run : Run rules counts s n ⟨before ++ c :: after, g⟩) (moves : rules.part c l c')
      (effect : rules.effect l g g') : Run rules counts s (n + (counts l).toNat) ⟨before ++ c' :: after, g'⟩
  | alone {n : Nat} {parts : List C} {g g' : G} (run : Run rules counts s n ⟨parts, g⟩)
      (moves : rules.alone g g') : Run rules counts s (n + 1) ⟨parts, g'⟩

theorem Run.steps {counts : L → Bool} {n : Nat} (run : Run rules counts s n s') : Steps rules s s' := by
  induction run with
  | refl => exact .refl
  | part run moves effect ih => exact ih.tail (.part moves effect)
  | alone run moves ih => exact ih.tail (.alone moves)

theorem Run.trans {counts : L → Bool} {n m : Nat} {s'' : Composite C G} (first : Run rules counts s n s')
    (second : Run rules counts s' m s'') : Run rules counts s (n + m) s'' := by
  induction second with
  | refl => exact first
  | part run moves effect ih => exact Nat.add_assoc n _ _ ▸ ih.part moves effect
  | alone run moves ih => exact ih.alone moves

theorem Steps.exists_run (run : Steps rules s s') (counts : L → Bool) : ∃ n, Run rules counts s n s' := by
  induction run with
  | refl => exact ⟨0, .refl⟩
  | tail _ step ih =>
      obtain ⟨n, before⟩ := ih
      cases step with
      | part moves effect => exact ⟨_, before.part moves effect⟩
      | alone moves => exact ⟨_, before.alone moves⟩

/-- The weight of a system. -/
def weight (part : C → Nat) (shared : G → Nat) (s : Composite C G) : Nat :=
  (s.parts.map part).sum + shared s.shared

/-- When every step that counts takes from the weight, and no other adds to it, a run counts no more than the
weight. -/
theorem Run.add_weight_le {counts : L → Bool} {n : Nat} {part : C → Nat} {shared : G → Nat}
    (run : Run rules counts s n s')
    (falls : ∀ {c l c' g g'}, rules.part c l c' → rules.effect l g g' →
      part c' + shared g' + (counts l).toNat ≤ part c + shared g)
    (alone : ∀ {g g'}, rules.alone g g' → shared g' < shared g) :
    n + s'.weight part shared ≤ s.weight part shared := by
  induction run with
  | refl => exact (Nat.zero_add _).le
  | part run moves effect ih =>
      have step := falls moves effect
      simp only [weight, List.map_append, List.map_cons, List.sum_append, List.sum_cons] at ih ⊢
      omega
  | alone run moves ih =>
      have step := alone moves
      simp only [weight] at ih ⊢
      omega

/-- A run of concrete parts is a run of their abstractions, with the same steps that count. -/
theorem Run.map {counts : L → Bool} {n : Nat} {abstract : A → L → A → Prop} {ok : C → Prop} {f : C → A}
    (simulates : Simulates rules.part abstract ok f) (run : Run rules counts s n s')
    (start : ∀ c ∈ s.parts, ok c) :
    Run ⟨abstract, rules.effect, rules.alone⟩ counts (s.map f) n (s'.map f) ∧ ∀ c ∈ s'.parts, ok c := by
  induction run with
  | refl => exact ⟨.refl, start⟩
  | @part n before after c c' l g g' run moves effect ih =>
      obtain ⟨reached, oks⟩ := ih
      have here := oks c (by simp)
      constructor
      · simp only [Composite.map, List.map_append, List.map_cons] at reached ⊢
        exact reached.part (simulates.follows here moves) effect
      · intro d member
        rcases List.mem_append.mp member with earlier | later
        · exact oks d (List.mem_append_left _ earlier)
        · rcases List.mem_cons.mp later with rfl | later
          · exact simulates.keeps here moves
          · exact oks d (List.mem_append_right _ (List.mem_cons_of_mem _ later))
  | alone run moves ih => exact ⟨ih.1.alone moves, ih.2⟩

/-- A run of concrete parts is a run of their abstractions. -/
theorem Steps.map {abstract : A → L → A → Prop} {ok : C → Prop} {f : C → A}
    (simulates : Simulates rules.part abstract ok f) (run : Steps rules s s') (start : ∀ c ∈ s.parts, ok c) :
    Steps ⟨abstract, rules.effect, rules.alone⟩ (s.map f) (s'.map f) ∧ ∀ c ∈ s'.parts, ok c := by
  obtain ⟨n, counted⟩ := run.exists_run fun _ => true
  obtain ⟨mapped, oks⟩ := counted.map simulates start
  exact ⟨mapped.steps, oks⟩

end Composite

end Numafac
