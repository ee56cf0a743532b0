/-
Module: Numafac.Base.SortedArray
Layer: Base
Purpose: Insertion into an array that is kept sorted by a key, biggest first: a search for the first smaller
  element, a loop that moves the rest up by one, and the store. A new element comes behind those with the
  same key. With a spare element the insertion succeeds (`insertDescending_spec`), without one it leaves
  the array (`insertDescending_full`).
Trusted boundary: none
Main exports: slotFor, shiftDown, insertDescending, insertBefore, insertDescending_spec,
  insertDescending_full, perm_insertBefore, pairwise_insertBefore
-/
import Mathlib.Order.Defs.LinearOrder
import Numafac.Base.CMemory

namespace Numafac

variable {α κ : Type} [LinearOrder κ] (key : α → κ)

/-- `i` after `for (; i < count; ++i) if (key(new) > key(a[i])) break;`, with `count - i` passes left. -/
def slotFor (new : α) (a : CArray α) : Nat → Nat → CResult Nat
  | 0, i => .ok i
  | rest + 1, i => do
      let v ← a.read i
      if key v < key new then .ok i else slotFor new a rest (i + 1)

/-- `for (j = count; j > i; --j) a[j] = a[j - 1];`. -/
def shiftDown (i : Nat) : Nat → CArray α → CResult (CArray α)
  | 0, a => .ok a
  | j + 1, a =>
      if i < j + 1 then do
        let v ← a.read j
        let a ← a.write (j + 1) v
        shiftDown i j a
      else .ok a

/-- The search, the loop and the store. -/
def insertDescending (new : α) (a : CArray α) (count : Nat) : CResult (CArray α) := do
  let i ← slotFor key new a count 0
  let a ← shiftDown i count a
  a.write i new

/-- The new element in front of the first smaller one. -/
def insertBefore (new : α) (values : List α) : List α :=
  values.takeWhile (key new ≤ key ·) ++ new :: values.dropWhile (key new ≤ key ·)

theorem read_front (front back : List α) (rest : CArray α) (v : α) :
    CArray.read (CArray.filled (front ++ v :: back) ++ rest) front.length = .ok v := by
  simp [CArray.read, CArray.filled]

theorem set_behind (front : List α) (spare : Option α) (rest : CArray α) (v : α) :
    (CArray.filled front ++ spare :: rest).set front.length (some v) =
      CArray.filled front ++ some v :: rest := by
  rw [List.set_append_right _ _ (by simp)]
  simp

theorem shiftDown_self (i : Nat) (a : CArray α) : shiftDown i i a = .ok a := by
  cases i with
  | zero => rfl
  | succ i => exact if_neg (Nat.lt_irrefl _)

section Insertion

variable (new : α) (values : List α) (rest : CArray α)

/-- The search stops at the first smaller element. -/
theorem slotFor_eq (front back : List α) :
    slotFor key new (CArray.filled (front ++ back) ++ rest) back.length front.length =
      .ok (front.length + (back.takeWhile (key new ≤ key ·)).length) := by
  induction back generalizing front with
  | nil => rfl
  | cons v back ih =>
      refine bind_eq_ok.mpr ⟨v, read_front front back rest v, ?_⟩
      by_cases smaller : key v < key new
      · rw [if_pos smaller, List.takeWhile_cons_of_neg (by simpa using smaller)]
        rfl
      · have later := ih (front ++ [v])
        rw [List.append_assoc, List.singleton_append, List.length_append, List.length_singleton] at later
        rw [if_neg smaller, List.takeWhile_cons_of_pos (by simpa using smaller), later, List.length_cons]
        congr 1
        omega

/-- The loop moves the smaller elements into the spare one and leaves a hole. -/
theorem shiftDown_eq (low high : List α) (spare : Option α) :
    ∃ hole, shiftDown low.length (low.length + high.length)
        (CArray.filled (low ++ high) ++ spare :: rest) =
      .ok (CArray.filled low ++ hole :: (CArray.filled high ++ rest)) := by
  induction high using List.reverseRecOn generalizing spare rest with
  | nil =>
      refine ⟨spare, ?_⟩
      simpa [CArray.filled] using shiftDown_self low.length _
  | append_singleton high v ih =>
      obtain ⟨hole, ran⟩ := ih (some v :: rest) (some v)
      have read := read_front (low ++ high) [] (spare :: rest) v
      have place : low.length + high.length + 1 = (low ++ high ++ [v]).length := by
        simp [Nat.add_assoc]
      have stored : CArray.write (CArray.filled (low ++ high ++ [v]) ++ spare :: rest)
          (low.length + high.length + 1) v =
            .ok (CArray.filled (low ++ high) ++ some v :: some v :: rest) := by
        rw [place, CArray.write_ok (by simp), set_behind]
        simp [CArray.filled]
      refine ⟨hole, ?_⟩
      rw [List.length_append, List.length_singleton, ← Nat.add_assoc, ← List.append_assoc]
      rw [List.length_append] at read
      unfold shiftDown
      rw [if_pos (by omega)]
      refine bind_eq_ok.mpr ⟨v, read, bind_eq_ok.mpr ⟨_, stored, ?_⟩⟩
      rw [ran]
      simp [CArray.filled]

/-- With a spare element the new one comes in front of the first smaller one. -/
theorem insertDescending_spec (spare : Option α) :
    insertDescending key new (CArray.filled values ++ spare :: rest) values.length =
      .ok (CArray.filled (insertBefore key new values) ++ rest) := by
  have slot := slotFor_eq key new (spare :: rest) [] values
  have split := List.takeWhile_append_dropWhile (p := (key new ≤ key ·)) (l := values)
  have length := congrArg List.length split
  rw [List.length_append] at length
  obtain ⟨hole, shifted⟩ := shiftDown_eq rest (values.takeWhile (key new ≤ key ·))
    (values.dropWhile (key new ≤ key ·)) spare
  rw [split, length] at shifted
  rw [List.nil_append, List.length_nil, Nat.zero_add] at slot
  refine bind_eq_ok.mpr ⟨_, slot, bind_eq_ok.mpr ⟨_, shifted, ?_⟩⟩
  rw [CArray.write_ok (by simp), set_behind]
  simp [insertBefore, CArray.filled]

/-- Without one the first store is outside of the array. -/
theorem insertDescending_full :
    insertDescending key new (CArray.filled values) values.length = .error .outOfBounds := by
  have slot := slotFor_eq key new [] [] values
  have split := List.takeWhile_append_dropWhile (p := (key new ≤ key ·)) (l := values)
  rw [List.nil_append, List.append_nil, List.length_nil, Nat.zero_add] at slot
  rw [insertDescending, slot]
  generalize values.takeWhile (key new ≤ key ·) = low at split ⊢
  generalize values.dropWhile (key new ≤ key ·) = high at split
  subst split
  change (shiftDown low.length (low ++ high).length (CArray.filled (low ++ high)) >>= _) = _
  rcases List.eq_nil_or_concat' high with rfl | ⟨front, last, rfl⟩
  · rw [List.append_nil, shiftDown_self]
    change CArray.write (CArray.filled low) low.length new = _
    exact if_neg (by simp)
  · have read := read_front (low ++ front) [] [] last
    have outside : CArray.write (CArray.filled (low ++ (front ++ [last])))
        (low.length + front.length + 1) last = .error .outOfBounds := by
      apply if_neg
      simp [Nat.add_assoc]
    rw [List.append_nil, List.append_assoc, List.length_append] at read
    rw [List.length_append, List.length_append, List.length_singleton, ← Nat.add_assoc]
    unfold shiftDown
    rw [if_pos (by omega), read]
    change ((CArray.write _ _ last >>= _) >>= _) = _
    rw [outside]
    rfl

end Insertion

/-! ### The order -/

section Order

variable (new : α) (values : List α)

theorem perm_insertBefore : (insertBefore key new values).Perm (new :: values) := by
  have middle : (insertBefore key new values).Perm
      (new :: (values.takeWhile (key new ≤ key ·) ++ values.dropWhile (key new ≤ key ·))) :=
    List.perm_middle
  rwa [List.takeWhile_append_dropWhile] at middle

@[simp] theorem length_insertBefore : (insertBefore key new values).length = values.length + 1 := by
  rw [(perm_insertBefore key new values).length_eq, List.length_cons]

/-- The order is kept. -/
theorem pairwise_insertBefore {values : List α} (sorted : values.Pairwise (fun a b => key b ≤ key a)) :
    (insertBefore key new values).Pairwise (fun a b => key b ≤ key a) := by
  induction values with
  | nil => simp [insertBefore]
  | cons v values ih =>
      obtain ⟨above, sorted⟩ := List.pairwise_cons.mp sorted
      by_cases before : key new ≤ key v
      · have step : insertBefore key new (v :: values) = v :: insertBefore key new values := by
          simp [insertBefore, before]
        rw [step]
        refine List.pairwise_cons.mpr ⟨?_, ih sorted⟩
        intro w member
        rcases List.mem_cons.mp ((perm_insertBefore key new values).mem_iff.mp member) with rfl | old
        · exact before
        · exact above w old
      · have step : insertBefore key new (v :: values) = new :: v :: values := by
          simp [insertBefore, before]
        have larger := (lt_of_not_ge before).le
        rw [step]
        refine List.pairwise_cons.mpr ⟨?_, List.pairwise_cons.mpr ⟨above, sorted⟩⟩
        intro w member
        rcases List.mem_cons.mp member with rfl | later
        · exact larger
        · exact (above w later).trans larger

end Order

end Numafac
