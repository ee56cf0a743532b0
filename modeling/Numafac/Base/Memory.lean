/-
Module: Numafac.Base.Memory
Layer: Base
Purpose: One block of memory, byte by byte, with the pointers that a C program stores in it. Pointers have
  eight bytes, so two of them that are less than eight bytes apart overwrite each other. `storeAll_spec`
  says what a list of stores leaves: at each address the value stored there last, if no two of the
  addresses overlap. Loops over stores are such lists.
Trusted boundary: none
Main exports: toBytes, ofBytes, ofBytes_toBytes, Memory, Memory.load, Memory.store, Memory.loadPointer,
  Memory.storePointer, Apart, Memory.storeAll, lastStore, lastStore_map_range,
  Memory.storeAll_spec, Memory.storeAll_apart, forRange_stores, forRange_stores_last,
  forRange_storeRows
-/
import Mathlib.Data.List.Induction
import Numafac.Base.CMemory

namespace Numafac

/-! ### The bytes of a number -/

/-- The lowest `width` bytes of a number, lowest first. -/
def toBytes : Nat → Nat → List Nat
  | 0, _ => []
  | width + 1, v => v % 256 :: toBytes width (v / 256)

/-- The number that has these bytes. -/
def ofBytes : List Nat → Nat
  | [] => 0
  | byte :: bytes => byte + 256 * ofBytes bytes

@[simp] theorem length_toBytes (width v : Nat) : (toBytes width v).length = width := by
  induction width generalizing v with
  | zero => rfl
  | succ width ih => simp [toBytes, ih]

theorem ofBytes_toBytes (width v : Nat) : ofBytes (toBytes width v) = v % 256 ^ width := by
  induction width generalizing v with
  | zero => rw [toBytes, ofBytes, Nat.pow_zero, Nat.mod_one]
  | succ width ih => rw [toBytes, ofBytes, ih, Nat.pow_succ', Nat.mod_mul]

/-! ### Blocks -/

/-- Two ranges of `width` bytes do not overlap. -/
def Apart (width a b : Nat) : Prop :=
  a + width ≤ b ∨ b + width ≤ a

/-- A block from `malloc`: its address, its size, and the bytes that have been stored so far. -/
structure Memory where
  base : Nat
  size : Nat
  bytes : Nat → Option Nat

namespace Memory

/-- So many bytes from an address on lie in the block. -/
def Inside (m : Memory) (a width : Nat) : Prop :=
  m.base ≤ a ∧ a + width ≤ m.base + m.size

instance (m : Memory) (a width : Nat) : Decidable (m.Inside a width) :=
  inferInstanceAs (Decidable (_ ∧ _))

/-- The bytes from an address on, if all of them have been stored. -/
def bytesFrom (m : Memory) (a : Nat) : Nat → Option (List Nat)
  | 0 => some []
  | width + 1 => do
      let byte ← m.bytes a
      let rest ← m.bytesFrom (a + 1) width
      some (byte :: rest)

def load (m : Memory) (a width : Nat) : CResult (List Nat) :=
  if m.Inside a width then
    match m.bytesFrom a width with
    | some data => .ok data
    | none => .error .uninitialised
  else .error .outOfBounds

/-- The block after these bytes are stored from an address on. -/
def stored (m : Memory) (a : Nat) (data : List Nat) : Memory :=
  { m with bytes := fun x => if a ≤ x ∧ x < a + data.length then data[x - a]? else m.bytes x }

def store (m : Memory) (a : Nat) (data : List Nat) : CResult Memory :=
  if m.Inside a data.length then .ok (m.stored a data) else .error .outOfBounds

/-- `*(char **)a`. -/
def loadPointer (m : Memory) (a : Nat) : CResult Nat := do
  let data ← m.load a 8
  pure (ofBytes data)

/-- `*(char **)a = v`. -/
def storePointer (m : Memory) (a v : Nat) : CResult Memory :=
  m.store a (toBytes 8 v)

section Loads

variable {m : Memory} {a b : Nat} {data : List Nat}

theorem bytesFrom_eq_some (here : ∀ i < data.length, m.bytes (a + i) = data[i]?) :
    m.bytesFrom a data.length = some data := by
  induction data generalizing a with
  | nil => rfl
  | cons byte data ih =>
      have first : m.bytes a = some byte := here 0 (by simp)
      have rest : m.bytesFrom (a + 1) data.length = some data := by
        apply ih
        intro i inside
        rw [Nat.add_assoc, Nat.add_comm 1 i]
        exact here (i + 1) (by simpa using inside)
      rw [List.length_cons, bytesFrom, first, rest]
      rfl

theorem bytesFrom_congr {m' : Memory} {width : Nat}
    (same : ∀ x, a ≤ x → x < a + width → m'.bytes x = m.bytes x) :
    m'.bytesFrom a width = m.bytesFrom a width := by
  induction width generalizing a with
  | zero => rfl
  | succ width ih =>
      have rest : m'.bytesFrom (a + 1) width = m.bytesFrom (a + 1) width :=
        ih fun x low high => same x (by omega) (by omega)
      rw [bytesFrom, bytesFrom, same a (Nat.le_refl a) (by omega), rest]

theorem load_stored_same (inside : m.Inside a data.length) :
    (m.stored a data).load a data.length = .ok data := by
  have found : (m.stored a data).bytesFrom a data.length = some data := by
    apply bytesFrom_eq_some
    intro i small
    simp [stored, small]
  have inside' : (m.stored a data).Inside a data.length := inside
  rw [load, if_pos inside', found]

theorem load_stored_apart (apart : Apart data.length a b) :
    (m.stored b data).load a data.length = m.load a data.length := by
  have same : (m.stored b data).bytesFrom a data.length = m.bytesFrom a data.length := by
    apply bytesFrom_congr
    intro x low high
    apply if_neg
    rcases apart with before | after
    · omega
    · omega
  simp only [load, same]
  rfl

end Loads

/-! ### Pointers -/

section Pointers

variable {m m' : Memory} {a b v : Nat}

theorem storePointer_ok (inside : m.Inside a 8) :
    m.storePointer a v = .ok (m.stored a (toBytes 8 v)) := by
  apply if_pos
  rwa [length_toBytes]

/-- A pointer that was stored is loaded again. -/
theorem loadPointer_stored_same (inside : m.Inside a 8) (small : v < 2 ^ 64) :
    (m.stored a (toBytes 8 v)).loadPointer a = .ok v := by
  have found := @load_stored_same m a (toBytes 8 v) (by rwa [length_toBytes])
  rw [length_toBytes] at found
  rw [loadPointer, found]
  change Except.ok (ofBytes (toBytes 8 v)) = _
  rw [ofBytes_toBytes, Nat.mod_eq_of_lt (by omega)]

theorem loadPointer_stored_apart (apart : Apart 8 a b) :
    (m.stored b (toBytes 8 v)).loadPointer a = m.loadPointer a := by
  have kept := @load_stored_apart m a b (toBytes 8 v) (by rwa [length_toBytes])
  rw [length_toBytes] at kept
  rw [loadPointer, loadPointer, kept]

end Pointers

/-- A sequence of stores `*(char **)a = v`, in order. -/
def storeAll (m : Memory) (stores : List (Nat × Nat)) : CResult Memory :=
  stores.foldlM (fun m s => m.storePointer s.1 s.2) m

end Memory

/-- The value that a sequence of stores leaves at an address. -/
def lastStore (stores : List (Nat × Nat)) (a : Nat) : Option Nat :=
  stores.reverse.lookup a

theorem lastStore_concat (stores : List (Nat × Nat)) (a b v : Nat) :
    lastStore (stores ++ [(b, v)]) a = if a = b then some v else lastStore stores a := by
  rw [lastStore, List.reverse_append, List.reverse_singleton, List.singleton_append, List.lookup_cons]
  by_cases same : a = b
  · simp [same]
  · rw [beq_false_of_ne same, if_neg same]
    rfl

theorem mem_of_lastStore {stores : List (Nat × Nat)} {a v : Nat} (found : lastStore stores a = some v) :
    (a, v) ∈ stores := by
  induction stores using List.reverseRecOn with
  | nil => cases found
  | append_singleton stores last ih =>
      obtain ⟨b, w⟩ := last
      rw [lastStore_concat] at found
      by_cases same : a = b
      · subst same
        rw [if_pos rfl] at found
        simp [Option.some.inj found]
      · rw [if_neg same] at found
        exact List.mem_append_left _ (ih found)

/-- Where every address is stored to once, the last store is the only one. -/
theorem lastStore_of_unique {stores : List (Nat × Nat)} {a v : Nat} (member : (a, v) ∈ stores)
    (unique : ∀ w, (a, w) ∈ stores → w = v) : lastStore stores a = some v := by
  induction stores using List.reverseRecOn with
  | nil => cases member
  | append_singleton stores last ih =>
      obtain ⟨b, w⟩ := last
      rw [lastStore_concat]
      by_cases same : a = b
      · subst same
        rw [if_pos rfl, unique w (by simp)]
      · rw [if_neg same]
        refine ih ?_ fun w' earlier => unique w' (List.mem_append_left _ earlier)
        simpa [same] using member

/-- The last store of a loop to an address is the one after which no pass stores to it. -/
theorem lastStore_map_range {store : Nat → Nat × Nat} {passes k : Nat} (inside : k < passes)
    (later : ∀ j, k < j → j < passes → (store j).1 ≠ (store k).1) :
    lastStore ((List.range passes).map store) (store k).1 = some (store k).2 := by
  induction passes with
  | zero => cases inside
  | succ passes ih =>
      rw [List.range_succ, List.map_append, List.map_singleton, lastStore_concat]
      by_cases last : k = passes
      · rw [last, if_pos rfl]
      · have before : k < passes := by omega
        rw [if_neg (later passes before (by omega)).symm]
        exact ih before fun j above below => later j above (by omega)

/-- Stores to addresses that are equal or apart succeed, and at each address the last one stays. -/
theorem Memory.storeAll_spec {m : Memory} {stores : List (Nat × Nat)}
    (inside : ∀ s ∈ stores, m.Inside s.1 8) (small : ∀ s ∈ stores, s.2 < 2 ^ 64)
    (apart : ∀ s ∈ stores, ∀ t ∈ stores, s.1 = t.1 ∨ Apart 8 s.1 t.1) :
    ∃ m', m.storeAll stores = .ok m' ∧ m'.base = m.base ∧ m'.size = m.size ∧
      ∀ a v, lastStore stores a = some v → m'.loadPointer a = .ok v := by
  induction stores using List.reverseRecOn with
  | nil => exact ⟨m, rfl, rfl, rfl, fun a v found => by cases found⟩
  | append_singleton stores last ih =>
      obtain ⟨b, w⟩ := last
      obtain ⟨m', ran, base, size, loads⟩ := ih
        (fun s member => inside s (by simp [member])) (fun s member => small s (by simp [member]))
        (fun s member t member' => apart s (by simp [member]) t (by simp [member']))
      have room : m'.Inside b 8 := by
        have room := inside (b, w) (by simp)
        rwa [Inside, ← base, ← size] at room
      refine ⟨m'.stored b (toBytes 8 w), ?_, base, size, ?_⟩
      · rw [storeAll, List.foldlM_append]
        refine bind_eq_ok.mpr ⟨m', ran, ?_⟩
        rw [List.foldlM_cons, storePointer_ok room]
        rfl
      · intro a v found
        rw [lastStore_concat] at found
        by_cases same : a = b
        · subst same
          rw [if_pos rfl] at found
          obtain rfl := Option.some.inj found
          exact loadPointer_stored_same room (small (a, w) (by simp))
        · rw [if_neg same] at found
          have member := mem_of_lastStore found
          have apart' := (apart (a, v) (by simp [member]) (b, w) (by simp)).resolve_left same
          rw [loadPointer_stored_apart apart']
          exact loads a v found

/-- Pointers away from all stores stay. -/
theorem Memory.storeAll_apart {m m' : Memory} {stores : List (Nat × Nat)} {a : Nat}
    (ran : m.storeAll stores = .ok m') (apart : ∀ s ∈ stores, Apart 8 a s.1) :
    m'.loadPointer a = m.loadPointer a := by
  induction stores generalizing m with
  | nil => rw [← Except.ok.inj ran]
  | cons store stores ih =>
      obtain ⟨m₁, first, rest⟩ := bind_eq_ok.mp ran
      rw [ih rest fun s member => apart s (List.mem_cons_of_mem _ member)]
      replace first : m.storePointer store.1 store.2 = .ok m₁ := first
      unfold storePointer Memory.store at first
      split at first
      · rw [← Except.ok.inj first]
        exact loadPointer_stored_apart (apart store List.mem_cons_self)
      · cases first

/-! ### Loops over stores -/

theorem storeAll_append (m : Memory) (first second : List (Nat × Nat)) :
    m.storeAll (first ++ second) = m.storeAll first >>= fun m' => m'.storeAll second :=
  List.foldlM_append

theorem storeAll_singleton (m : Memory) (a v : Nat) : m.storeAll [(a, v)] = m.storePointer a v := by
  rw [Memory.storeAll, List.foldlM_cons]
  cases m.storePointer a v with
  | ok m' => rfl
  | error fault => rfl

/-- A loop whose passes each make one store. -/
theorem forRange_stores {passes : Nat} {body : Memory → Nat → CResult Memory} {store : Nat → Nat × Nat}
    (stores : ∀ m, ∀ i < passes, body m i = m.storePointer (store i).1 (store i).2) (m : Memory) :
    forRange 0 passes body m = m.storeAll ((List.range passes).map store) := by
  rw [forRange_congr (fun m i _ inside => stores m i inside), forRange, Memory.storeAll, List.foldlM_map,
    Nat.sub_zero, List.range_eq_range']

/-- The same when the store of the last pass stands behind the loop. -/
theorem forRange_stores_last {passes : Nat} (pos : 0 < passes) {body : Memory → Nat → CResult Memory}
    {last : Memory → CResult Memory} {store : Nat → Nat × Nat}
    (stores : ∀ m, ∀ i < passes - 1, body m i = m.storePointer (store i).1 (store i).2)
    (stored : ∀ m, last m = m.storePointer (store (passes - 1)).1 (store (passes - 1)).2) (m : Memory) :
    forRange 0 (passes - 1) body m >>= last = m.storeAll ((List.range passes).map store) := by
  obtain ⟨rest, rfl⟩ : ∃ rest, passes = rest + 1 := ⟨passes - 1, by omega⟩
  rw [forRange_stores stores, List.range_succ, List.map_append, List.map_singleton, storeAll_append]
  exact congrArg (m.storeAll _ >>= ·) (funext fun m => (stored m).trans (storeAll_singleton m _ _).symm)

/-- A loop whose passes each make a row of stores. -/
theorem forRange_storeRows {passes : Nat} {body : Memory → Nat → CResult Memory}
    {row : Nat → List (Nat × Nat)} (stores : ∀ m, ∀ i < passes, body m i = m.storeAll (row i)) (m : Memory) :
    forRange 0 passes body m = m.storeAll ((List.range passes).flatMap row) := by
  rw [forRange_congr (fun m i _ inside => stores m i inside), forRange, Nat.sub_zero, ← List.range_eq_range']
  induction List.range passes generalizing m with
  | nil => rfl
  | cons i rest ih =>
      rw [List.foldlM_cons, List.flatMap_cons, storeAll_append]
      exact congrArg (m.storeAll _ >>= ·) (funext ih)

end Numafac
