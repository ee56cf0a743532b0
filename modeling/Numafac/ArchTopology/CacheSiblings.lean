/-
Module: Numafac.ArchTopology.CacheSiblings
Layer: ArchTopology
Purpose: The CPUs that share a cache with a core. `na_get_cacheShare_cores` counts the tokens of a shared
  CPU list and the elements of its array with one variable, so the token of the core itself leaves an
  element without a value and the last token unread. `shareCoresOfLine_eq` gives the array for every
  list, and `siblingsExact_iff` says when it is the list without the core.
Trusted boundary: none beyond `SocketCpus`
Main exports: siblingsLine, shareCoresOfLine, shareCoresOfLine_eq, SiblingsExact, siblingsExact_iff
-/
import Numafac.ArchTopology.SocketCpus

namespace Numafac

/-- CPU ids separated by commas, as the line of a file. -/
def siblingsLine (ids : List Nat) : Text :=
  List.intercalate [','] (ids.map natText) ++ ['\n']

/-- The body of the loop of `na_get_cacheShare_cores`. -/
def storeSibling (core : Int) (state : CArray Int × Text) (i : Nat) : CResult (CArray Int × Text) := do
  let (cpu, rest) := strtok commaOrNewline state.2
  let next ← atoiToken cpu
  if next ≠ core then do
    let taux ← state.1.write i next
    pure (taux, rest)
  else pure (state.1, rest)

/-- `na_get_cacheShare_cores` from the number of cores and the line of the shared CPU list on. -/
def shareCoresOfLine (cacheCores : Nat) (core : Int) (line : Text) : CResult (CArray Int) := do
  let resp ← bufferText (fgets (cacheCores * 4 + 1) line)
  let taux : CArray Int := malloc ((cacheCores : Int) - 1)
  let (cpu, rest) := strtok commaOrNewline resp
  let first ← atoiToken cpu
  let (taux, k) ←
    if first ≠ core then do
      let taux ← taux.write 0 first
      pure (taux, 1)
    else pure (taux, 0)
  let (taux, _) ← forRange k (cacheCores - 1) (storeSibling core) (taux, rest)
  pure taux

theorem naGetCacheShareCores_eq (fs : Sysfs) (core : Int) : naGetCacheShareCores fs core =
    shareCoresOfLine (naGetCacheCores fs) core (fs.sharedCpuList core (naGetSharedCacheLevel fs)) :=
  rfl

/-- What the function is for: the list without the core, in its order. -/
def SiblingsExact (ids : List Nat) (core : Nat) (call : CResult (CArray Int)) : Prop :=
  call = .ok (CArray.filled ((ids.erase core).map Nat.cast))

/-! ### The line -/

theorem commaOrNewline_digit {c : Char} (digit : c.isDigit = true) : commaOrNewline c = false :=
  delimiters_digit (by decide) (by decide) digit

theorem words_siblingsLine (ids : List Nat) :
    words commaOrNewline (siblingsLine ids) = ids.map natText := by
  rw [siblingsLine, words_append_sep _ _ rfl, words_nil, List.append_nil,
    words_ids rfl fun _ => commaOrNewline_digit]

theorem bufferText_siblingsLine {ids : List Nat} (nonempty : ids ≠ []) (small : ∀ id ∈ ids, id < 1000) :
    bufferText (fgets (ids.length * 4 + 1) (siblingsLine ids)) = .ok (siblingsLine ids) := by
  rw [siblingsLine, fgets_ids (by decide) nonempty small]
  rfl

/-! ### The loop -/

section Loop

variable {core : Nat}

/-- The element for a token: none for the core itself. -/
def siblingCell (core id : Nat) : Option Int :=
  if id = core then none else some id

/-- The loop takes one token for each element, and skips the element of the core's token. The induction is
on the tokens that are taken; `front` is what is stored before. -/
theorem storeSiblings_eq {queue later : List Nat} {front : CArray Int} {rest : Text} {stop : Nat}
    (small : ∀ id ∈ queue, id < 2 ^ 31)
    (tokens : words commaOrNewline rest = (queue ++ later).map natText)
    (length : front.length + queue.length = stop) :
    ∃ rest', forRange front.length stop (storeSibling core)
        (front ++ List.replicate queue.length none, rest) =
      .ok (front ++ queue.map (siblingCell core), rest') := by
  induction queue generalizing front rest with
  | nil =>
      obtain rfl : front.length = stop := by simpa using length
      exact ⟨rest, by rw [forRange_self]; rfl⟩
  | cons id queue ih =>
      obtain ⟨token, behind⟩ := strtok_eq commaOrNewline rest
      rw [tokens] at token behind
      simp only [List.cons_append, List.map_cons, List.head?_cons, List.tail_cons] at token behind
      have value := atoi_natText (small id (by simp))
      have stored : storeSibling core (front ++ List.replicate (queue.length + 1) none, rest)
          front.length = .ok (front ++ siblingCell core id :: List.replicate queue.length none,
            (strtok commaOrNewline rest).2) := by
        have inside : front.length < (front ++ List.replicate (queue.length + 1) none).length := by
          simp
        simp only [storeSibling, token, atoiToken, value, bind, Except.bind, pure, Except.pure]
        by_cases self : id = core
        · simp [self, siblingCell, List.replicate_succ]
        · have other : (id : Int) ≠ core := by exact_mod_cast self
          rw [if_pos other, CArray.write_ok inside]
          simp [self, siblingCell, List.replicate_succ]
      obtain ⟨rest', ran⟩ := @ih (front ++ [siblingCell core id]) (strtok commaOrNewline rest).2
        (fun other member => small other (by simp [member])) behind
        (by rw [← length]; simp; omega)
      refine ⟨rest', ?_⟩
      rw [List.length_cons, forRange_step (by rw [← length]; simp), stored]
      simpa [Except.bind] using ran

/-- The array for a list of at least two ids: the tokens behind the first one if this is the core, else
those in front of the last one, and no value where the core stands. -/
theorem shareCoresOfLine_eq {ids : List Nat} (two_le : 2 ≤ ids.length) (small : ∀ id ∈ ids, id < 1000) :
    shareCoresOfLine ids.length core (siblingsLine ids) =
      .ok ((if ids.head? = some core then ids.tail else ids.dropLast).map (siblingCell core)) := by
  obtain ⟨first, queue, rfl⟩ := List.exists_cons_of_length_pos (by omega : 0 < ids.length)
  have fits : ∀ id ∈ first :: queue, id < 2 ^ 31 := fun id member =>
    (small id member).trans (by decide)
  obtain ⟨token, behind⟩ := strtok_eq commaOrNewline (siblingsLine (first :: queue))
  rw [words_siblingsLine] at token behind
  simp only [List.map_cons, List.head?_cons, List.tail_cons] at token behind
  have size : (malloc (((first :: queue).length : Int) - 1) : CArray Int) =
      List.replicate queue.length none := by
    rw [malloc, List.length_cons]
    congr 1
    omega
  simp only [shareCoresOfLine, bufferText_siblingsLine (List.cons_ne_nil _ _) small, size, token,
    atoiToken, atoi_natText (fits first (by simp)), bind, Except.bind, pure, Except.pure]
  by_cases self : first = core
  · subst self
    obtain ⟨rest', ran⟩ := @storeSiblings_eq first queue [] [] _ queue.length
      (fun id member => fits id (by simp [member])) (by rw [behind, List.append_nil]) (by simp)
    simp only [List.length_nil, List.nil_append] at ran
    simp [ran]
  · obtain ⟨middle, last, rfl⟩ : ∃ middle last, queue = middle ++ [last] := by
      refine ⟨queue.dropLast, queue.getLast ?_, (List.dropLast_append_getLast _).symm⟩
      rintro rfl
      simp at two_le
    obtain ⟨rest', ran⟩ := @storeSiblings_eq core middle [last] [some (first : Int)] _
      (middle.length + 1) (fun id member => fits id (by simp [member])) behind (by simp; omega)
    have other : (first : Int) ≠ core := by exact_mod_cast self
    have length : (middle ++ [last]).length = middle.length + 1 := by simp
    have stop : (first :: (middle ++ [last])).length - 1 = middle.length + 1 := by simp
    have first_stored : CArray.write (List.replicate (middle ++ [last]).length none) 0 (first : Int) =
        .ok (some (first : Int) :: List.replicate middle.length none) := by
      rw [length, List.replicate_succ]
      exact CArray.write_ok (Nat.succ_pos _) _
    rw [if_pos other, first_stored, stop]
    simp only [List.length_singleton, List.singleton_append] at ran
    have front : ((first :: (middle ++ [last])).dropLast) = first :: middle := by
      rw [← List.cons_append, List.dropLast_concat]
    simp [ran, front, self, siblingCell]

end Loop

/-! ### The exact condition -/

/-- An array without the element of the core is the list of the others. -/
theorem map_siblingCell {core : Nat} {ids : List Nat} (notMem : core ∉ ids) :
    ids.map (siblingCell core) = CArray.filled (ids.map Nat.cast) := by
  rw [CArray.filled, List.map_map]
  refine List.map_congr_left fun id member => ?_
  have other : id ≠ core := fun same => notMem (same ▸ member)
  simp [siblingCell, other]

/-- And one with it is no list of values. -/
theorem map_siblingCell_ne {core : Nat} {ids : List Nat} (member : core ∈ ids) (values : List Int) :
    ids.map (siblingCell core) ≠ CArray.filled values := by
  intro same
  have hole : none ∈ ids.map (siblingCell core) := List.mem_map.mpr ⟨core, member, by simp [siblingCell]⟩
  rw [same] at hole
  simp [CArray.filled] at hole

/-- The siblings of a core are returned exactly when it is the first or the last of the list. -/
theorem siblingsExact_iff {ids : List Nat} {core : Nat} (two_le : 2 ≤ ids.length)
    (distinct : ids.Nodup) (small : ∀ id ∈ ids, id < 1000) (listed : core ∈ ids) :
    (SiblingsExact ids core (shareCoresOfLine ids.length core (siblingsLine ids)) ↔
        ids.head? = some core ∨ ids.getLast? = some core) ∧
      ∀ fs : Sysfs, naGetCacheCores fs = ids.length →
        fs.sharedCpuList core (naGetSharedCacheLevel fs) = siblingsLine ids →
          (SiblingsExact ids core (naGetCacheShareCores fs core) ↔
            ids.head? = some core ∨ ids.getLast? = some core) := by
  have exact : SiblingsExact ids core (shareCoresOfLine ids.length core (siblingsLine ids)) ↔
      ids.head? = some core ∨ ids.getLast? = some core := by
    rw [SiblingsExact, shareCoresOfLine_eq two_le small]
    by_cases first : ids.head? = some core
    · obtain ⟨queue, rfl⟩ := List.head?_eq_some_iff.mp first
      have others := map_siblingCell (List.nodup_cons.mp distinct).1
      simp [others]
    · rw [if_neg first]
      have nonempty : ids ≠ [] := List.ne_nil_of_mem listed
      obtain ⟨front, last, rfl⟩ : ∃ front last, ids = front ++ [last] :=
        ⟨ids.dropLast, ids.getLast nonempty, (List.dropLast_append_getLast nonempty).symm⟩
      rw [List.dropLast_concat, List.getLast?_concat]
      by_cases isLast : last = core
      · subst isLast
        have notFront : last ∉ front := fun member => by
          have apart := (List.nodup_append.mp distinct).2.2
          exact apart last member last (by simp) rfl
        rw [map_siblingCell notFront, List.erase_append_right _ notFront]
        simp
      · have inFront : core ∈ front := by
          rcases List.mem_append.mp listed with inFront | inLast
          · exact inFront
          · exact absurd (List.mem_singleton.mp inLast).symm isLast
        refine iff_of_false (fun same => map_siblingCell_ne inFront _ (Except.ok.inj same)) ?_
        rintro (isFirst | same)
        · exact first isFirst
        · exact isLast (Option.some.inj same)
  refine ⟨exact, fun fs cores line => ?_⟩
  rw [naGetCacheShareCores_eq, cores, line]
  exact exact

/-- Three cores that share a second-level cache, in each of two packages. -/
def threeSiblings : Sysfs :=
  Sysfs.ofNodes [[0, 2, 4], [1, 3, 5]] (by decide) (by decide) (fun cpu => some (cpu % 2 : Nat))
    fun cpu =>
      { lists := [.single cpu, .single cpu,
          { items := [⟨cpu % 2, cpu % 2, Nat.le_refl _⟩, ⟨cpu % 2 + 2, cpu % 2 + 2, Nat.le_refl _⟩,
              ⟨cpu % 2 + 4, cpu % 2 + 4, Nat.le_refl _⟩]
            ascending := by simp }],
        others := 0 }

/-- The first core of the list gets both others. -/
theorem siblingsExact_iff_threeSiblings :
    SiblingsExact [0, 2, 4] 0 (naGetCacheShareCores threeSiblings 0) :=
  ((siblingsExact_iff (by decide) (by decide) (by decide) (by decide)).2 threeSiblings (by decide)
    (by decide)).mpr (Or.inl rfl)

/-- The core in the middle leaves an element without a value, and the last one is missing. -/
theorem not_siblingsExact_threeSiblings :
    ¬ SiblingsExact [0, 2, 4] 2 (naGetCacheShareCores threeSiblings 2) := by
  have hole : naGetCacheShareCores threeSiblings 2 = .ok [some 0, none] := by decide
  rw [SiblingsExact, hole]
  decide

end Numafac
