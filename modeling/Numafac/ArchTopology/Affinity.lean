/-
Module: Numafac.ArchTopology.Affinity
Layer: ArchTopology
Purpose: `na_set_core` and `na_get_core`: binding a process to a core and asking for it. Over any sequence of
  calls for any processes, the core of a process is the one of the last call for it that succeeded
  (`naGetCore_after`), as long as its number is below `MAXCPUS`; from there on `na_get_core` reaches its end
  without a value. A call that fails, and a call for another process, change nothing.
Trusted boundary: `sched_setaffinity` and `sched_getaffinity` as the manual describes them, for masks of 1024
  CPUs; no CPU goes offline between the calls
Main exports: CpuSet, Task, schedSetaffinity, naSetCore, naGetCore, Binds, bindAll, naGetCore_after
-/
import Mathlib.Data.Finset.Basic
import Numafac.Base.CMemory

namespace Numafac

/-! ### The scheduler -/

/-- `cpu_set_t`. -/
abbrev CpuSet := Finset (Fin 1024)

/-- `CPU_SET(core, &mask)`. A number that is no bit of the mask changes nothing. -/
def cpuSet (core : Int) (mask : CpuSet) : CpuSet :=
  if bit : 0 ≤ core ∧ core < 1024 then insert ⟨core.toNat, by omega⟩ mask else mask

/-- `CPU_ISSET(i, &mask)`. -/
def cpuIsset (i : Nat) (mask : CpuSet) : Bool :=
  if bit : i < 1024 then decide (⟨i, bit⟩ ∈ mask) else false

/-- A process: the CPUs that it may have, and those that it is bound to. -/
structure Task where
  allowed : CpuSet
  affinity : CpuSet

/-- The processes by their ids. -/
abbrev Tasks := Int → Option Task

/-- The process that an id means: zero is the caller. -/
def target (caller id : Int) : Int :=
  if id = 0 then caller else id

/-- `sched_setaffinity`. It fails when there is no such process, when the caller may not change it, and when
the mask has no CPU that the process may have. -/
def schedSetaffinity (permitted : Int → Int → Bool) (caller id : Int) (mask : CpuSet) (tasks : Tasks) :
    Option Tasks :=
  match tasks (target caller id) with
  | none => none
  | some task =>
      if permitted caller (target caller id) = true ∧ mask ∩ task.allowed ≠ ∅ then
        some fun other =>
          if other = target caller id then some { task with affinity := mask ∩ task.allowed } else tasks other
      else none

/-! ### The two functions -/

/-- `na_set_core`: what it returns, and the processes afterwards. -/
def naSetCore (permitted : Int → Int → Bool) (caller id core : Int) (tasks : Tasks) : Int × Tasks :=
  match schedSetaffinity permitted caller id (cpuSet core ∅) tasks with
  | none => (-1, tasks)
  | some tasks => (0, tasks)

/-- `na_get_core`: the first CPU below `MAXCPUS` in the mask. Without one it ends without a value. -/
def naGetCore (maxcpus : Nat) (caller id : Int) (tasks : Tasks) : CResult Int :=
  match tasks (target caller id) with
  | none => .ok (-1)
  | some task =>
      match (List.range maxcpus).find? fun i => cpuIsset i task.affinity with
      | some i => .ok i
      | none => .error .noValue

/-! ### Sequences of calls -/

/-- A call of `na_set_core`. -/
structure SetCore where
  caller : Int
  id : Int
  core : Int

variable (permitted : Int → Int → Bool)

/-- The call binds this process to its core. -/
def Binds (pid : Int) (allowed : CpuSet) (call : SetCore) : Prop :=
  target call.caller call.id = pid ∧ permitted call.caller pid = true ∧
    cpuSet call.core ∅ ∩ allowed ≠ ∅

instance (pid : Int) (allowed : CpuSet) : DecidablePred (Binds permitted pid allowed) := fun call =>
  inferInstanceAs (Decidable (target call.caller call.id = pid ∧ permitted call.caller pid = true ∧
    cpuSet call.core ∅ ∩ allowed ≠ ∅))

/-- The calls one after another. -/
def bindAll (calls : List SetCore) (tasks : Tasks) : Tasks :=
  calls.foldl (fun tasks call => (naSetCore permitted call.caller call.id call.core tasks).2) tasks

/-- The cores of the calls that bind this process. -/
def boundCores (pid : Int) (allowed : CpuSet) (calls : List SetCore) : List Int :=
  (calls.filter fun call => Binds permitted pid allowed call).map SetCore.core

section Calls

variable {permitted} {pid : Int} {tasks : Tasks} {task : Task}

theorem cpuSet_inter {core : Int} {allowed : CpuSet} (some : cpuSet core ∅ ∩ allowed ≠ ∅) :
    ∃ bit : 0 ≤ core ∧ core < 1024, cpuSet core ∅ ∩ allowed = {⟨core.toNat, by omega⟩} := by
  unfold cpuSet at some ⊢
  split at some
  · rename_i bit
    refine ⟨bit, ?_⟩
    rw [dif_pos bit, LawfulSingleton.insert_empty_eq] at *
    by_cases member : (⟨core.toNat, by omega⟩ : Fin 1024) ∈ allowed
    · rw [Finset.singleton_inter_of_mem member]
    · exact absurd (Finset.singleton_inter_of_notMem member) some
  · exact absurd (Finset.empty_inter allowed) some

theorem schedSetaffinity_some {caller id : Int} {mask : CpuSet} (found : tasks (target caller id) = some task) :
    schedSetaffinity permitted caller id mask tasks =
      if permitted caller (target caller id) = true ∧ mask ∩ task.allowed ≠ ∅ then
        some fun other =>
          if other = target caller id then some { task with affinity := mask ∩ task.allowed } else tasks other
      else none := by
  rw [schedSetaffinity, found]

/-- Another process is left alone. -/
theorem schedSetaffinity_other {caller id : Int} {mask : CpuSet} {tasks' : Tasks}
    (other : pid ≠ target caller id) (done : schedSetaffinity permitted caller id mask tasks = some tasks') :
    tasks' pid = tasks pid := by
  cases found : tasks (target caller id) with
  | none =>
      rw [schedSetaffinity, found] at done
      cases done
  | some task =>
      rw [schedSetaffinity_some found] at done
      split at done
      · rw [← Option.some.inj done]
        exact if_neg other
      · cases done

/-- What one call does to a process. -/
theorem naSetCore_task (found : tasks pid = some task) (call : SetCore) :
    (naSetCore permitted call.caller call.id call.core tasks).2 pid =
      if Binds permitted pid task.allowed call then
        some { task with affinity := cpuSet call.core ∅ ∩ task.allowed }
      else some task := by
  obtain ⟨caller, id, core⟩ := call
  unfold naSetCore
  by_cases same : target caller id = pid
  · subst same
    rw [schedSetaffinity_some found]
    by_cases done : permitted caller (target caller id) = true ∧ cpuSet core ∅ ∩ task.allowed ≠ ∅
    · rw [if_pos done, if_pos ⟨rfl, done⟩]
      exact if_pos rfl
    · rw [if_neg done, if_neg fun binds => done binds.2]
      exact found
  · rw [if_neg fun binds => same binds.1]
    cases done : schedSetaffinity permitted caller id (cpuSet core ∅) tasks with
    | none => exact found
    | some tasks' => exact (schedSetaffinity_other (Ne.symm same) done).trans found

/-- A sequence of calls leaves a process bound to the core of the last one that binds it. -/
theorem bindAll_task (found : tasks pid = some task) (calls : List SetCore) :
    bindAll permitted calls tasks pid = some { task with
      affinity :=
        match (boundCores permitted pid task.allowed calls).getLast? with
        | none => task.affinity
        | some core => cpuSet core ∅ ∩ task.allowed } := by
  induction calls using List.reverseRecOn with
  | nil => exact found
  | append_singleton calls call ih =>
      have step := @naSetCore_task permitted _ _ _ ih call
      rw [bindAll, List.foldl_append]
      rw [bindAll] at step
      refine step.trans ?_
      by_cases binds : Binds permitted pid task.allowed call
      · simp [boundCores, List.filter_append, binds]
      · simp [boundCores, List.filter_append, binds]

theorem cpuIsset_singleton (i : Nat) (cpu : Fin 1024) : cpuIsset i {cpu} = true ↔ i = cpu.val := by
  unfold cpuIsset
  split
  · rw [decide_eq_true_eq, Finset.mem_singleton, Fin.ext_iff]
  · constructor
    · intro none
      cases none
    · have bit := cpu.isLt
      omega

/-- The first bit of a mask with one bit. -/
theorem find?_cpuIsset (maxcpus : Nat) (cpu : Fin 1024) :
    ((List.range maxcpus).find? fun i => cpuIsset i {cpu}) =
      if cpu.val < maxcpus then some cpu.val else none := by
  split
  · rename_i below
    rw [List.find?_range_eq_some]
    refine ⟨(cpuIsset_singleton _ cpu).mpr rfl, List.mem_range.mpr below, fun j less => ?_⟩
    rw [Bool.not_eq_true', ← Bool.not_eq_true, cpuIsset_singleton]
    omega
  · rename_i above
    rw [List.find?_range_eq_none]
    intro j less
    rw [Bool.not_eq_true', ← Bool.not_eq_true, cpuIsset_singleton]
    omega

/-- What `na_get_core` gives after any calls of `na_set_core`: what it gave before when none of them binds the
process, and otherwise the core of the last one that does, if it is below `MAXCPUS`. -/
theorem naGetCore_after (found : tasks pid = some task) (calls : List SetCore) {maxcpus : Nat} {caller id : Int}
    (asked : target caller id = pid) :
    naGetCore maxcpus caller id (bindAll permitted calls tasks) =
      match (boundCores permitted pid task.allowed calls).getLast? with
      | none => naGetCore maxcpus caller id tasks
      | some core => if core < maxcpus then .ok core else .error .noValue := by
  have bound := @bindAll_task permitted _ _ _ found calls
  unfold naGetCore
  rw [asked, bound, found]
  cases last : (boundCores permitted pid task.allowed calls).getLast? with
  | none => rfl
  | some core =>
      obtain ⟨call, member, rfl⟩ := List.mem_map.mp (List.mem_of_getLast? last)
      have binds : Binds permitted pid task.allowed call := by simpa using (List.mem_filter.mp member).2
      obtain ⟨bit, one⟩ := cpuSet_inter binds.2.2
      dsimp only
      rw [one, find?_cpuIsset]
      by_cases below : call.core < maxcpus
      · rw [if_pos below, if_pos (by dsimp only; omega)]
        exact congrArg Except.ok (Int.toNat_of_nonneg bit.1)
      · rw [if_neg below, if_neg (by dsimp only; omega)]

end Calls

/-- Two processes on four CPUs. -/
def twoTasks : Tasks := fun pid =>
  if pid = 7 ∨ pid = 8 then some { allowed := {0, 1, 2, 3}, affinity := {0, 1, 2, 3} } else none

/-- The process asks for CPU 2, then for one that it may not have, and the other process asks for CPU 1. -/
def threeCalls : List SetCore :=
  [⟨7, 0, 2⟩, ⟨7, 0, 9⟩, ⟨7, 8, 1⟩]

theorem naGetCore_after_twoTasks :
    naGetCore 4 7 0 (bindAll (fun _ _ => true) threeCalls twoTasks) = .ok 2 := by
  have cores : boundCores (fun _ _ => true) 7 {0, 1, 2, 3} threeCalls = [2] := by decide
  have found : twoTasks 7 = some { allowed := {0, 1, 2, 3}, affinity := {0, 1, 2, 3} } := rfl
  have after := @naGetCore_after (fun _ _ => true) _ _ _ found threeCalls 4 7 0 rfl
  dsimp only at after
  rw [cores] at after
  exact after

end Numafac
