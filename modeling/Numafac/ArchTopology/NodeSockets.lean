/-
Module: Numafac.ArchTopology.NodeSockets
Layer: ArchTopology
Purpose: The sockets of a node. `na_get_socketsId_node` walks over the CPUs of the node and stores each
  package id that it does not find in its array. The array starts as `-1` everywhere, and the search
  passes over these elements too; `socketsOfCpus_spec` carries the filled front, the package ids seen so
  far and the untouched tail through the loop.
Trusted boundary: none beyond `NodeCpus`
Main exports: packagesOf, findSocket_eq, socketsOfCpus_spec, naGetSocketsIdNode_exact
-/
import Mathlib.Data.Finset.Card
import Numafac.ArchTopology.NodeCpus

namespace Numafac

/-- The package ids of CPUs, in the order of the CPUs. -/
def packagesOf (fs : Sysfs) (cpus : List Int) : List Int :=
  cpus.map (naGetSocketCpu fs)

/-! ### Removing duplicates -/

section Distinct

variable {α : Type} [DecidableEq α]

theorem eraseDups_concat (values : List α) (v : α) :
    (values ++ [v]).eraseDups = if v ∈ values then values.eraseDups else values.eraseDups ++ [v] := by
  rw [List.eraseDups_append]
  by_cases seen : v ∈ values
  · simp [List.removeAll, seen]
  · simp [List.removeAll, seen, List.eraseDups_cons]

theorem nodup_eraseDups (values : List α) : values.eraseDups.Nodup := by
  induction values using List.reverseRecOn with
  | nil => exact List.nodup_nil
  | append_singleton values v ih =>
      rw [eraseDups_concat]
      by_cases seen : v ∈ values
      · rwa [if_pos seen]
      · rw [if_neg seen]
        exact List.nodup_append_comm.mp (List.nodup_cons.mpr ⟨by simpa using seen, ih⟩)

/-- The first occurrences are as many as the distinct values. -/
theorem length_eraseDups (values : List α) : values.eraseDups.length = values.toFinset.card := by
  rw [← List.toFinset_card_of_nodup (nodup_eraseDups values)]
  congr 1
  ext v
  simp

end Distinct

/-! ### The search and the loop -/

/-- The search finds what is in the rest of the array. -/
theorem findSocket_eq {elements : List Int} (socket : Int) {j remaining : Nat}
    (inside : j + remaining = elements.length) :
    findSocket (CArray.filled elements) socket j remaining = .ok (decide (socket ∈ elements.drop j)) := by
  induction remaining generalizing j with
  | zero =>
      have behind : elements.length ≤ j := by omega
      simp [findSocket, List.drop_of_length_le behind]
  | succ remaining ih =>
      have here : j < elements.length := by omega
      have read : (CArray.filled elements).read j = .ok elements[j] := by
        simp [CArray.read, CArray.filled, here]
      have split : elements.drop j = elements[j] :: elements.drop (j + 1) :=
        List.drop_eq_getElem_cons here
      rw [findSocket, read, split]
      change (if socket = elements[j] then _ else _) = _
      by_cases known : socket = elements[j]
      · rw [if_pos known, decide_eq_true (List.mem_cons.mpr (Or.inl known))]
      · rw [if_neg known, ih (by omega)]
        simp only [List.mem_cons, known, false_or]

section Loop

variable {topo : ArchTopo} {fs : Sysfs} {cpus : List Int}

/-- The array when the package ids `seen` are stored and the other elements are as they were set first. -/
def socketArray (size : Nat) (seen : List Int) : CArray Int :=
  CArray.filled (seen ++ List.replicate (size - seen.length) (-1))

/-- One pass for a package id: only a new one is stored, behind those that are. -/
theorem storeSocket_ok {size : Nat} {seen : List Int} {socket : Int} (nonneg : 0 ≤ socket)
    (few : seen.length ≤ size) (room : socket ∉ seen → seen.length < size) :
    (do
      let find ← findSocket (socketArray size seen) socket 0 size
      if find then pure (socketArray size seen, seen.length)
      else do
        let socketsId ← (socketArray size seen).write seen.length socket
        pure (socketsId, seen.length + 1) : CResult (CArray Int × Nat)) =
      let seen' := if socket ∈ seen then seen else seen ++ [socket]
      .ok (socketArray size seen', seen'.length) := by
  have whole : 0 + size = (seen ++ List.replicate (size - seen.length) (-1)).length := by
    rw [List.length_append, List.length_replicate]
    omega
  -- the elements that are not set are no package id
  have found : socket ∈ seen ++ List.replicate (size - seen.length) (-1) ↔ socket ∈ seen := by
    rw [List.mem_append, List.mem_replicate]
    constructor
    · rintro (stored | ⟨-, unset⟩)
      · exact stored
      · omega
    · exact Or.inl
  have search : findSocket (socketArray size seen) socket 0 size = .ok (decide (socket ∈ seen)) := by
    rw [socketArray, findSocket_eq socket whole, List.drop_zero]
    simp only [found]
  rw [search]
  by_cases known : socket ∈ seen
  · simp [known, bind, Except.bind, pure, Except.pure]
  · have small := room known
    have stored : (socketArray size seen).write seen.length socket =
        .ok (socketArray size (seen ++ [socket])) := CArray.write_filled_rest (-1) small socket
    simp [known, stored, bind, Except.bind, pure, Except.pure]

/-- The ids seen so far are no more than all of them. -/
theorem length_seen_le (packages : List Int) (i : Nat) :
    (packages.take i).eraseDups.length ≤ packages.eraseDups.length := by
  conv_rhs => rw [← List.take_append_drop i packages, List.eraseDups_append, List.length_append]
  exact Nat.le_add_right _ _

/-- The package ids seen so far are in the front of the array, in the order in which they were first seen,
and nothing else was written. -/
def SocketsStored (size : Nat) (packages : List Int) (i : Nat) (state : CArray Int × Nat) : Prop :=
  state = (socketArray size (packages.take i).eraseDups, (packages.take i).eraseDups.length)

/-- The loop leaves the distinct package ids, in the order of their first CPUs. -/
theorem socketsOfCpus_spec (count : cpus.length = topo.cpusnode)
    (readable : ∀ package ∈ packagesOf fs cpus, 0 ≤ package)
    (sockets : topo.socketsnode = (packagesOf fs cpus).eraseDups.length) :
    socketsOfCpus topo fs (CArray.filled cpus) =
      .ok (CArray.filled (packagesOf fs cpus).eraseDups) := by
  have length : (packagesOf fs cpus).length = cpus.length := by simp [packagesOf]
  have step : ∀ (i : Nat) (state : CArray Int × Nat), 0 ≤ i → i < topo.cpusnode →
      SocketsStored topo.socketsnode (packagesOf fs cpus) i state →
      ∃ next, (do
        let cpu ← (CArray.filled cpus).read i
        let socket := naGetSocketCpu fs cpu
        let find ← findSocket state.1 socket 0 topo.socketsnode
        if find then pure (state.1, state.2)
        else do
          let socketsId ← state.1.write state.2 socket
          pure (socketsId, state.2 + 1) : CResult (CArray Int × Nat)) = .ok next ∧
        SocketsStored topo.socketsnode (packagesOf fs cpus) (i + 1) next := by
    rintro i _ - more rfl
    have inside : i < cpus.length := by omega
    have read : (CArray.filled cpus).read i = .ok cpus[i] := by
      simp [CArray.read, CArray.filled, inside]
    have package : (packagesOf fs cpus)[i]? = some (naGetSocketCpu fs cpus[i]) := by
      simp [packagesOf, inside]
    have next : ((packagesOf fs cpus).take (i + 1)).eraseDups =
        if naGetSocketCpu fs cpus[i] ∈ ((packagesOf fs cpus).take i).eraseDups then
          ((packagesOf fs cpus).take i).eraseDups
        else ((packagesOf fs cpus).take i).eraseDups ++ [naGetSocketCpu fs cpus[i]] := by
      rw [List.take_add_one, package, Option.toList_some, eraseDups_concat]
      simp only [List.mem_eraseDups]
    have bound := length_seen_le (packagesOf fs cpus) i
    have bound' := length_seen_le (packagesOf fs cpus) (i + 1)
    rw [next] at bound'
    refine ⟨_, bind_eq_ok.mpr ⟨_, read, storeSocket_ok
      (readable _ (List.mem_of_getElem? package)) (by omega) fun unknown => ?_⟩, by
        rw [SocketsStored, next]⟩
    rw [if_neg unknown, List.length_append, List.length_singleton] at bound'
    omega
  have start : SocketsStored topo.socketsnode (packagesOf fs cpus) 0
      (CArray.filled (List.replicate topo.socketsnode (-1)), 0) := rfl
  obtain ⟨final, ran, rfl⟩ := forRange_ok (SocketsStored topo.socketsnode (packagesOf fs cpus))
    (Nat.zero_le topo.cpusnode) start step
  refine bind_eq_ok.mpr ⟨_, ran, ?_⟩
  rw [List.take_of_length_le (by omega)]
  simp [socketArray, sockets, pure, Except.pure]

end Loop

section Node

variable {fs : Sysfs} {node : Nat} {cpus : List Int}

/-- The packages of a right listing are those of the node's CPUs. -/
theorem packagesOf_perm (exact : cpus.Perm ((fs.cpus node).map Nat.cast))
    (packages : ∀ cpu ∈ fs.cpus node, ∃ package, fs.packageId cpu = some package ∧ 0 ≤ package) :
    ((packagesOf fs cpus).map some).Perm ((fs.cpus node).map fs.packageId) := by
  have same : (((fs.cpus node).map (Nat.cast : Nat → Int)).map (naGetSocketCpu fs)).map some =
      (fs.cpus node).map fs.packageId := by
    rw [List.map_map, List.map_map]
    refine List.map_congr_left fun cpu member => ?_
    obtain ⟨package, found, -⟩ := packages cpu member
    simp [naGetSocketCpu, found]
  rw [← same]
  exact (exact.map _).map _

/-- For a node whose CPUs are listed right, and with as many sockets as the node has, the call returns the
package ids of the node's CPUs, each once and in the order of the listing. -/
theorem naGetSocketsIdNode_exact {topo : ArchTopo} {depth : Nat}
    (listed : naGetCpusidnode topo fs node depth = some (.ok (CArray.filled cpus)))
    (exact : cpus.Perm ((fs.cpus node).map Nat.cast)) (count : cpus.length = topo.cpusnode)
    (packages : ∀ cpu ∈ fs.cpus node, ∃ package, fs.packageId cpu = some package ∧ 0 ≤ package)
    (sockets : topo.socketsnode = ((fs.cpus node).map fs.packageId).toFinset.card) :
    ∃ ids, naGetSocketsIdNode topo fs node (depth + 1) = some (.ok (CArray.filled ids)) ∧
      ids = (packagesOf fs cpus).eraseDups ∧ ids.Nodup ∧
      (∀ package : Int, package ∈ ids ↔ ∃ cpu ∈ fs.cpus node, fs.packageId cpu = some package) ∧
      -1 ∉ ids := by
  have perm := packagesOf_perm exact packages
  have stored : ∀ package : Int, package ∈ packagesOf fs cpus ↔
      ∃ cpu ∈ fs.cpus node, fs.packageId cpu = some package := fun package => by
    have same := perm.mem_iff (a := some package)
    rwa [List.mem_map_of_injective (Option.some_injective _), List.mem_map] at same
  have readable : ∀ package ∈ packagesOf fs cpus, 0 ≤ package := by
    intro package member
    obtain ⟨cpu, inNode, found⟩ := (stored package).mp member
    obtain ⟨package', found', nonneg⟩ := packages cpu inNode
    rw [found] at found'
    exact Option.some.inj found' ▸ nonneg
  have number : topo.socketsnode = (packagesOf fs cpus).eraseDups.length := by
    have image : ((packagesOf fs cpus).map some).toFinset = (packagesOf fs cpus).toFinset.image some := by
      ext package
      simp
    rw [sockets, ← List.toFinset_eq_of_perm _ _ perm, length_eraseDups, image,
      Finset.card_image_of_injective _ (Option.some_injective _)]
  refine ⟨_, ?_, rfl, nodup_eraseDups _, fun package => ?_, fun unset => ?_⟩
  · rw [naGetSocketsIdNode, listed, Option.map_some]
    exact congrArg some (socketsOfCpus_spec count readable number)
  · rw [List.mem_eraseDups, stored]
  · exact absurd (readable _ (List.mem_eraseDups.mp unset)) (by decide)

end Node

theorem oneNode_few : [[0, 1, 2, 3]].length ≤ 2 ^ 31 := by decide

theorem oneNode_distinct : [[0, 1, 2, 3]].flatten.Nodup := by decide

/-- One node whose CPUs belong to two packages in turn, the second package first. -/
def twoPackages : Sysfs :=
  Sysfs.ofNodes [[0, 1, 2, 3]] oneNode_few oneNode_distinct (fun cpu => some ((cpu + 1) % 2 : Nat)) fun cpu =>
    { lists := [.single cpu, .single cpu], others := 0 }

def twoPackagesTopo : ArchTopo where
  isnuma := true
  maxnodes := 1
  maxcpus := 4
  cpusnode := 4
  socketsnode := 2
  maxcoressocket := some 2

/-- The packages come in the order of their first CPUs. -/
theorem naGetSocketsIdNode_exact_twoPackages :
    ∃ ids, naGetSocketsIdNode twoPackagesTopo twoPackages (0 : Nat) 2 = some (.ok (CArray.filled ids)) ∧
      ids = (packagesOf twoPackages [0, 1, 2, 3]).eraseDups ∧ ids.Nodup ∧
      (∀ package : Int, package ∈ ids ↔
        ∃ cpu ∈ twoPackages.cpus 0, twoPackages.packageId cpu = some package) ∧ -1 ∉ ids :=
  naGetSocketsIdNode_exact (by decide) (by decide) rfl
    (fun cpu _ => ⟨_, rfl, Int.natCast_nonneg _⟩) (by decide)

end Numafac
