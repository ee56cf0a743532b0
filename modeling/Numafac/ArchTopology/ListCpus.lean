/-
Module: Numafac.ArchTopology.ListCpus
Layer: ArchTopology
Purpose: The listing of the CPUs of all nodes. `na_list_allcpus` appends the name of each directory entry
  that starts with `cpu` to one buffer, which it only resets for the next node, and prints the buffer
  each time. So the line of a second entry also holds the first one, `cpumap` and `cpulist` are printed
  like CPUs, and many entries overflow the buffer. `eachCpuListed_iff` says which directories are listed
  as they should be.
Trusted boundary: the translation of `na_list_allcpus`. The names that `readdir` gives are arbitrary texts.
Main exports: listEntries, naListAllcpus, cpuOfName, EachCpuListed, OneCpu, OneCpuEach,
  eachCpuListed_iff
-/
import Numafac.ArchTopology.NodeOfCpu

namespace Numafac

/-- `!strncmp("cpu", dirent->d_name, 3)`. -/
def startsCpu (name : Text) : Bool :=
  "cpu".toList.isPrefixOf name

/-- `while ((dirent = readdir(dir)) != 0)`: the lines printed for the entries of one directory. The buffer
`dirnamec` keeps what is appended to it. -/
def listEntries (dirnamec : Text) : List Text → CResult (List Text)
  | [] => .ok []
  | name :: names =>
      if startsCpu name then do
        let dirnamec ← storeString 256 (dirnamec ++ name)
        let later ← listEntries dirnamec names
        pure (("dir ".toList ++ dirnamec) :: later)
      else listEntries dirnamec names

/-- `for(i=0;i<maxnodes;i++)`, with the number of values of `i` that remain. A directory that is not there
ends the call. -/
def listNodes (opendir : Text → Option (List Text)) (i : Nat) : Nat → CResult (List Text)
  | 0 => .ok []
  | remaining + 1 => do
      let temp ← storeString 33 (natText i)
      let dirnamep ← storeString 256 ("/sys/devices/system/node/node".toList ++ temp)
      let dirnamec ← storeString 256 ("/sys/devices/system/node/node".toList ++ temp)
      match opendir dirnamep with
      | none => .ok []
      | some names => do
          let lines ← listEntries dirnamec names
          let later ← listNodes opendir (i + 1) remaining
          pure (lines ++ later)

/-- `na_list_allcpus`: the lines printed. -/
def naListAllcpus (maxnodes : Nat) (opendir : Text → Option (List Text)) : CResult (List Text) :=
  listNodes opendir 0 maxnodes

/-! ### What the listing is for -/

/-- The CPU of an entry `cpu<k>`. -/
def cpuOfName (name : Text) : Option Nat :=
  if name = cpuName (digitsValue (name.drop 3)) then some (digitsValue (name.drop 3)) else none

/-- The entries `cpu<k>` of all nodes, as pairs of a node and a CPU. -/
def cpuEntries (maxnodes : Nat) (listing : Nat → List Text) : List (Nat × Nat) :=
  (List.range maxnodes).flatMap fun i =>
    (listing i).filterMap fun name => (cpuOfName name).map fun k => (i, k)

/-- A line names a node and one CPU, with or without a slash between them. -/
def NamesCpu (line : Text) (entry : Nat × Nat) : Prop :=
  line = "dir ".toList ++ (nodeDirectory entry.1 ++ cpuName entry.2) ∨
    line = "dir ".toList ++ (nodeDirectory entry.1 ++ '/' :: cpuName entry.2)

/-- The call stays inside its buffer and prints one line for each entry `cpu<k>` of each node, naming the
node and that CPU, in some order, and nothing else. -/
def EachCpuListed (maxnodes : Nat) (opendir : Text → Option (List Text)) (listing : Nat → List Text) :
    Prop :=
  ∃ lines order, naListAllcpus maxnodes opendir = .ok lines ∧
    order.Perm (cpuEntries maxnodes listing) ∧ List.Forall₂ NamesCpu lines order

/-- At most one entry of a directory starts with `cpu`, and this is a `cpu<k>` whose path fits. -/
def OneCpu (node : Nat) (names : List Text) : Prop :=
  names.filter startsCpu = [] ∨
    ∃ k, names.filter startsCpu = [cpuName k] ∧ (nodeDirectory node ++ cpuName k).length < 256

def OneCpuEach (maxnodes : Nat) (listing : Nat → List Text) : Prop :=
  ∀ i < maxnodes, OneCpu i (listing i)

/-! ### Names -/

theorem startsCpu_cpuName (k : Nat) : startsCpu (cpuName k) = true := rfl

theorem exists_of_startsCpu {name : Text} (starts : startsCpu name = true) :
    ∃ rest, name = "cpu".toList ++ rest := by
  obtain ⟨rest, shape⟩ := List.isPrefixOf_iff_prefix.mp starts
  exact ⟨rest, shape.symm⟩

theorem cpuOfName_cpuName (k : Nat) : cpuOfName (cpuName k) = some k := by
  have value : digitsValue ((cpuName k).drop 3) = k := digitsValue_natText k
  rw [cpuOfName, value, if_pos rfl]

theorem startsCpu_of_cpuOfName {name : Text} {k : Nat} (cpu : cpuOfName name = some k) :
    startsCpu name = true := by
  unfold cpuOfName at cpu
  split at cpu
  · rename_i same
    rw [same]
    exact startsCpu_cpuName _
  · cases cpu

/-- A letter `c` behind a number ends it, so the number and what follows can be told apart. -/
theorem append_natText_cancel {n m : Nat} {rest other : Text}
    (stops : ∀ c, rest.head? = some c → c.isDigit = false)
    (stops' : ∀ c, other.head? = some c → c.isDigit = false)
    (same : natText n ++ rest = natText m ++ other) : n = m ∧ rest = other := by
  have digits : ∀ k : Nat, ∀ c ∈ natText k, c.isDigit = true := fun k c => isDigit_of_mem_natText
  have front := congrArg (List.takeWhile Char.isDigit) same
  have back := congrArg (List.dropWhile Char.isDigit) same
  rw [takeWhile_stop (digits n) stops, takeWhile_stop (digits m) stops'] at front
  rw [dropWhile_stop (digits n) stops, dropWhile_stop (digits m) stops'] at back
  exact ⟨natText_injective front, back⟩

/-- The name of a CPU does not go on with a digit. -/
theorem head_cpu {c : Char} (rest : Text) (first : ("cpu".toList ++ rest).head? = some c) :
    c.isDigit = false := by
  have letters : "cpu".toList = ['c', 'p', 'u'] := by decide
  rw [letters] at first
  cases first
  rfl

/-- The letter `c` stands once in the name of a CPU and once in the path of a node. -/
theorem count_append_natText {front : Text} (n : Nat) :
    (front ++ natText n).count 'c' = front.count 'c' := by
  have none : (natText n).count 'c' = 0 := List.count_eq_zero.mpr (notMem_natText (by decide) n)
  rw [List.count_append, none, Nat.add_zero]

theorem count_cpuName (k : Nat) : (cpuName k).count 'c' = 1 :=
  (count_append_natText k).trans (by decide)

theorem count_nodeDirectory (node : Nat) : (nodeDirectory node).count 'c' = 1 :=
  (count_append_natText node).trans (by decide)

theorem count_of_namesCpu {line : Text} {entry : Nat × Nat} (names : NamesCpu line entry) :
    line.count 'c' = 2 := by
  have dir : ("dir ".toList : Text).count 'c' = 0 := by decide
  rcases names with rfl | rfl
  · rw [List.count_append, List.count_append, count_nodeDirectory, count_cpuName, dir]
  · rw [List.count_append, List.count_append, List.count_cons, count_nodeDirectory, count_cpuName, dir]
    rfl

/-- Paths below node directories are equal only below the same node. -/
theorem nodeDirectory_cancel {node node' : Nat} {rest rest' : Text}
    (stops : ∀ c, rest.head? = some c → c.isDigit = false)
    (stops' : ∀ c, rest'.head? = some c → c.isDigit = false)
    (same : nodeDirectory node ++ rest = nodeDirectory node' ++ rest') :
    node = node' ∧ rest = rest' := by
  have paths : "/sys/devices/system/node/node".toList ++ (natText node ++ rest) =
      "/sys/devices/system/node/node".toList ++ (natText node' ++ rest') := by
    rw [← List.append_assoc _ (natText node), ← List.append_assoc _ (natText node')]
    exact same
  exact append_natText_cancel stops stops' (List.append_cancel_left paths)

/-- A line of the entry `cpu...` of a node that names a CPU names this entry. -/
theorem eq_cpuName_of_namesCpu {i : Nat} {tail : Text} {entry : Nat × Nat}
    (names : NamesCpu ("dir ".toList ++ (nodeDirectory i ++ ("cpu".toList ++ tail))) entry) :
    "cpu".toList ++ tail = cpuName entry.2 := by
  have slash : ∀ rest : Text, ∀ c, ('/' :: rest).head? = some c → c.isDigit = false := by
    rintro rest c first
    cases first
    rfl
  have letters : "cpu".toList = ['c', 'p', 'u'] := by decide
  rcases names with same | same
  · exact (nodeDirectory_cancel (fun _ => head_cpu tail) (fun _ => head_cpu (natText entry.2))
      (List.append_cancel_left same)).2
  · obtain ⟨-, behind⟩ := nodeDirectory_cancel (fun _ => head_cpu tail) (slash (cpuName entry.2))
      (List.append_cancel_left same)
    rw [letters] at behind
    cases behind

/-! ### One directory -/

section Directory

variable {dirnamec : Text} {names lines : List Text}

/-- Other entries are passed over. -/
theorem listEntries_filter (dirnamec : Text) (names : List Text) :
    listEntries dirnamec names = listEntries dirnamec (names.filter startsCpu) := by
  induction names generalizing dirnamec with
  | nil => rfl
  | cons name names ih =>
      by_cases starts : startsCpu name = true
      · rw [List.filter_cons_of_pos starts]
        simp only [listEntries, if_pos starts, ih]
      · rw [List.filter_cons_of_neg starts, listEntries, if_neg starts, ih]

theorem listEntries_cons_ok {name : Text} (starts : startsCpu name = true) :
    listEntries dirnamec (name :: names) = .ok lines ↔ (dirnamec ++ name).length < 256 ∧
      ∃ later, listEntries (dirnamec ++ name) names = .ok later ∧
        lines = ("dir ".toList ++ (dirnamec ++ name)) :: later := by
  rw [listEntries, if_pos starts, bind_eq_ok]
  constructor
  · rintro ⟨stored, store, rest⟩
    obtain ⟨later, ran, result⟩ := bind_eq_ok.mp rest
    unfold storeString at store
    split at store
    · rename_i fits
      obtain rfl := Except.ok.inj store
      exact ⟨fits, later, ran, (Except.ok.inj result).symm⟩
    · cases store
  · rintro ⟨fits, later, ran, rfl⟩
    exact ⟨dirnamec ++ name, if_pos fits, bind_eq_ok.mpr ⟨later, ran, rfl⟩⟩

/-- If every line names an entry, at most one entry starts with `cpu`. -/
theorem oneCpu_of_named {i : Nat} (ran : listEntries (nodeDirectory i) names = .ok lines)
    (named : ∀ line ∈ lines, ∃ entry, NamesCpu line entry) : OneCpu i names := by
  rw [listEntries_filter] at ran
  have starts : ∀ name ∈ names.filter startsCpu, startsCpu name = true := fun name member =>
    (List.mem_filter.mp member).2
  rcases entries : names.filter startsCpu with _ | ⟨first, rest⟩
  · exact Or.inl entries
  · rw [entries] at ran starts
    obtain ⟨fits, later, rest_ran, rfl⟩ := (listEntries_cons_ok (starts first (by simp))).mp ran
    obtain ⟨⟨node, k⟩, name⟩ := named _ List.mem_cons_self
    obtain ⟨tail, rfl⟩ := exists_of_startsCpu (starts first (by simp))
    have single := eq_cpuName_of_namesCpu name
    rw [single] at fits rest_ran entries
    rcases rest with _ | ⟨second, rest⟩
    · exact Or.inr ⟨k, entries, fits⟩
    · -- the line of a second entry holds one letter `c` too many
      exfalso
      obtain ⟨-, last, -, rfl⟩ := (listEntries_cons_ok (starts second (by simp))).mp rest_ran
      obtain ⟨entry, name⟩ := named _ (List.mem_cons_of_mem _ List.mem_cons_self)
      obtain ⟨tail, rfl⟩ := exists_of_startsCpu (starts second (by simp))
      have count := count_of_namesCpu name
      have cpu : ("cpu".toList : Text).count 'c' = 1 := by decide
      simp only [List.count_append, count_nodeDirectory, count_cpuName, cpu] at count
      omega

/-- And a single entry `cpu<k>` gives one line that names it. -/
theorem listEntries_oneCpu {i k : Nat} (single : names.filter startsCpu = [cpuName k])
    (fits : (nodeDirectory i ++ cpuName k).length < 256) :
    listEntries (nodeDirectory i) names =
      .ok ["dir ".toList ++ (nodeDirectory i ++ cpuName k)] := by
  rw [listEntries_filter, single]
  exact (listEntries_cons_ok (startsCpu_cpuName k)).mpr ⟨fits, [], rfl, rfl⟩

/-- Only entries that start with `cpu` are CPUs. -/
theorem filterMap_cpuOfName (names : List Text) :
    names.filterMap cpuOfName = (names.filter startsCpu).filterMap cpuOfName := by
  induction names with
  | nil => rfl
  | cons name names ih =>
      by_cases starts : startsCpu name = true
      · rw [List.filter_cons_of_pos starts, List.filterMap_cons, List.filterMap_cons, ih]
      · have none : cpuOfName name = none := by
          cases cpu : cpuOfName name with
          | none => rfl
          | some k => exact absurd (startsCpu_of_cpuOfName cpu) starts
        rw [List.filter_cons_of_neg starts, List.filterMap_cons, none, ih]

end Directory

/-! ### All directories -/

section Nodes

variable {opendir : Text → Option (List Text)} {listing : Nat → List Text} {i remaining : Nat}
  {lines : List Text}

/-- One directory of the loop. -/
theorem listNodes_succ_ok (small : i < 2 ^ 31) (opened : opendir (nodeDirectory i) = some (listing i)) :
    listNodes opendir i (remaining + 1) = .ok lines ↔
      ∃ here later, listEntries (nodeDirectory i) (listing i) = .ok here ∧
        listNodes opendir (i + 1) remaining = .ok later ∧ lines = here ++ later := by
  have digits : i < 10 ^ 10 := small.trans (by decide)
  have temp : storeString 33 (natText i) = .ok (natText i) :=
    @storeString_of_digits 33 i [] 10 (by decide) digits (by decide)
  have dirname : storeString 256 ("/sys/devices/system/node/node".toList ++ natText i) =
      .ok (nodeDirectory i) := storeString_of_digits 10 (by decide) digits (by decide)
  rw [listNodes, temp]
  simp only [bind, Except.bind, dirname, opened]
  constructor
  · intro ran
    obtain ⟨here, first, ran⟩ := bind_eq_ok.mp ran
    obtain ⟨later, rest, result⟩ := bind_eq_ok.mp ran
    exact ⟨here, later, first, rest, (Except.ok.inj result).symm⟩
  · rintro ⟨here, later, first, rest, rfl⟩
    exact bind_eq_ok.mpr ⟨here, first, bind_eq_ok.mpr ⟨later, rest, rfl⟩⟩

theorem oneCpuEach_of_named (small : i + remaining ≤ 2 ^ 31)
    (opened : ∀ k, i ≤ k → k < i + remaining → opendir (nodeDirectory k) = some (listing k))
    (ran : listNodes opendir i remaining = .ok lines)
    (named : ∀ line ∈ lines, ∃ entry, NamesCpu line entry) (k : Nat) (low : i ≤ k)
    (high : k < i + remaining) : OneCpu k (listing k) := by
  induction remaining generalizing i lines with
  | zero => omega
  | succ remaining ih =>
      obtain ⟨here, later, first, rest, rfl⟩ :=
        (listNodes_succ_ok (by omega) (opened i (Nat.le_refl i) (by omega))).mp ran
      by_cases same : k = i
      · subst same
        exact oneCpu_of_named first fun line member => named line (List.mem_append_left _ member)
      · exact ih (by omega) (fun k low high => opened k (by omega) (by omega)) rest
          (fun line member => named line (List.mem_append_right _ member)) (by omega) (by omega)

/-- The entries `cpu<k>` of one node, as pairs. -/
theorem entries_oneCpu {cpu : Nat} (single : (listing i).filter startsCpu = [cpuName cpu]) :
    (listing i).filterMap (fun name => (cpuOfName name).map fun k => (i, k)) = [(i, cpu)] := by
  rw [← List.map_filterMap, filterMap_cpuOfName, single]
  simp [cpuOfName_cpuName]

theorem entries_noCpu (none : (listing i).filter startsCpu = []) :
    (listing i).filterMap (fun name => (cpuOfName name).map fun k => (i, k)) = [] := by
  rw [← List.map_filterMap, filterMap_cpuOfName, none]
  rfl

theorem named_of_oneCpuEach (small : i + remaining ≤ 2 ^ 31)
    (opened : ∀ k, i ≤ k → k < i + remaining → opendir (nodeDirectory k) = some (listing k))
    (each : ∀ k, i ≤ k → k < i + remaining → OneCpu k (listing k)) :
    ∃ lines, listNodes opendir i remaining = .ok lines ∧ List.Forall₂ NamesCpu lines
      ((List.range' i remaining).flatMap fun i =>
        (listing i).filterMap fun name => (cpuOfName name).map fun k => (i, k)) := by
  induction remaining generalizing i with
  | zero => exact ⟨[], rfl, List.Forall₂.nil⟩
  | succ remaining ih =>
      have inside : i < 2 ^ 31 := by omega
      have step := fun lines => @listNodes_succ_ok opendir listing i remaining lines inside
        (opened i (Nat.le_refl i) (by omega))
      obtain ⟨later, rest, names⟩ := @ih (i + 1) (by omega)
        (fun k low high => opened k (by omega) (by omega))
        (fun k low high => each k (by omega) (by omega))
      rw [List.range'_succ, List.flatMap_cons]
      rcases each i (Nat.le_refl i) (by omega) with none | ⟨cpu, single, fits⟩
      · have first : listEntries (nodeDirectory i) (listing i) = .ok [] := by
          rw [listEntries_filter, none]
          rfl
        rw [entries_noCpu none]
        exact ⟨later, (step later).mpr ⟨[], later, first, rest, rfl⟩, names⟩
      · rw [entries_oneCpu single]
        exact ⟨_, (step _).mpr ⟨_, later, listEntries_oneCpu single fits, rest, rfl⟩,
          List.Forall₂.cons (Or.inl rfl) names⟩

theorem oneCpuEach_of_eachCpuListed {maxnodes : Nat} (small : maxnodes < 2 ^ 31)
    (opened : ∀ i < maxnodes, opendir (nodeDirectory i) = some (listing i))
    (listed : EachCpuListed maxnodes opendir listing) : OneCpuEach maxnodes listing := by
  obtain ⟨lines, order, ran, -, names⟩ := listed
  have named : ∀ line ∈ lines, ∃ entry, NamesCpu line entry := by
    intro line member
    clear ran
    induction names with
    | nil => cases member
    | cons name names ih =>
        rcases List.mem_cons.mp member with rfl | later
        · exact ⟨_, name⟩
        · exact ih later
  intro i inside
  exact oneCpuEach_of_named (by omega) (fun k _ high => opened k (by omega)) ran named i (Nat.zero_le i)
    (by omega)

end Nodes

/-- Every CPU of every node is listed in a line of its own, inside the buffer, exactly where no node directory
has more than one entry that starts with `cpu`, and this one is a CPU. -/
theorem eachCpuListed_iff {maxnodes : Nat} {opendir : Text → Option (List Text)}
    {listing : Nat → List Text} (small : maxnodes < 2 ^ 31)
    (opened : ∀ i < maxnodes, opendir (nodeDirectory i) = some (listing i)) :
    EachCpuListed maxnodes opendir listing ↔ OneCpuEach maxnodes listing := by
  constructor
  · exact oneCpuEach_of_eachCpuListed small opened
  · intro each
    obtain ⟨lines, ran, names⟩ := @named_of_oneCpuEach opendir listing 0 maxnodes (by omega)
      (fun k _ high => opened k (by omega)) fun k _ high => each k (by omega)
    rw [← List.range_eq_range'] at names
    exact ⟨lines, _, ran, List.Perm.refl _, names⟩

/-- The kernel puts an entry `cpumap` into every node directory; with it nothing is listed right. -/
theorem not_eachCpuListed_of_cpumap {maxnodes i : Nat} {opendir : Text → Option (List Text)}
    {listing : Nat → List Text} (small : maxnodes < 2 ^ 31)
    (opened : ∀ i < maxnodes, opendir (nodeDirectory i) = some (listing i)) (inside : i < maxnodes)
    (cpumap : "cpumap".toList ∈ listing i) : ¬ EachCpuListed maxnodes opendir listing := by
  intro listed
  have member : "cpumap".toList ∈ (listing i).filter startsCpu :=
    List.mem_filter.mpr ⟨cpumap, by decide⟩
  rcases oneCpuEach_of_eachCpuListed small opened listed i inside with none | ⟨k, single, -⟩
  · rw [none] at member
    cases member
  · rw [single, List.mem_singleton] at member
    have letter : 'm' ∈ natText k := by
      have tail : "cpumap".toList.drop 3 = natText k := congrArg (List.drop 3) member
      rw [← tail]
      decide
    exact notMem_natText (by decide) k letter

/-- Directories with given listings. -/
def opendirOf (maxnodes : Nat) (listing : Nat → List Text) (dirnamep : Text) : Option (List Text) :=
  ((List.range maxnodes).find? fun i => nodeDirectory i = dirnamep).map listing

theorem opendirOf_nodeDirectory {maxnodes i : Nat} {listing : Nat → List Text} (inside : i < maxnodes) :
    opendirOf maxnodes listing (nodeDirectory i) = some (listing i) := by
  rw [opendirOf, find?_nodeDirectory, if_pos (List.mem_range.mpr inside)]
  rfl

/-- A node without CPUs and one with CPU 7. -/
def sparseListing (i : Nat) : List Text :=
  if i = 0 then [".".toList, "..".toList, "meminfo".toList]
  else [".".toList, "cpu7".toList, "..".toList, "meminfo".toList]

theorem eachCpuListed_iff_sparseListing :
    EachCpuListed 2 (opendirOf 2 sparseListing) sparseListing := by
  refine (eachCpuListed_iff (by decide) fun i inside => opendirOf_nodeDirectory inside).mpr ?_
  intro i inside
  obtain rfl | rfl : i = 0 ∨ i = 1 := by omega
  · exact Or.inl (by decide)
  · exact Or.inr ⟨7, by decide, by decide⟩

/-- A node with two CPUs, as the kernel lists it. -/
def pairListing (_ : Nat) : List Text :=
  [".".toList, "..".toList, "cpu0".toList, "cpumap".toList, "cpu1".toList, "cpulist".toList,
    "meminfo".toList]

theorem not_eachCpuListed_pairListing :
    ¬ EachCpuListed 1 (opendirOf 1 pairListing) pairListing := by
  have listed : "cpumap".toList ∈ pairListing 0 := by decide
  exact not_eachCpuListed_of_cpumap (by decide) (fun i inside => opendirOf_nodeDirectory inside)
    Nat.one_pos listed

end Numafac
