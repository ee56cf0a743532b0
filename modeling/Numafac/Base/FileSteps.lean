/-
Module: Numafac.Base.FileSteps
Layer: Base
Purpose: Scripts as lists of file-system steps over a set of file names and a shell state, their runs,
  and runs that stop after any step. A stopped run leaves its files and loses its shell state. The
  library has three rules: a file that no step touches is unchanged (`run_files_of_avoids`), a loop of
  appends adds its lines in order (`run_appendLoop`), and a file whose last touch in every stopped run
  is a removal holds nothing when the next run starts (`content_history_nil`).
Trusted boundary: none
Main exports: World, FileStep, FileStep.exec, run, run_append, run_files_of_avoids, run_appendLoop,
  settledAfter, history, content_history_nil
-/
import Mathlib.Logic.Function.Basic
import Mathlib.Data.List.Basic
import Numafac.Base.Text

namespace Numafac

/-- The files of a tree: the lines of each file, or nothing where there is no file. -/
abbrev Files (φ : Type) := φ → Option (List Text)

/-- The files and the variables of the running shell. -/
structure World (φ σ : Type) where
  files : Files φ
  shell : σ

/-- What a command reads from a file; a missing file reads as empty. -/
def Files.content {φ : Type} (files : Files φ) (file : φ) : List Text :=
  (files file).getD []

/-- One command of a script, as far as files and variables are concerned. -/
inductive FileStep (φ σ : Type) where
  | create (file : φ) (lines : World φ σ → List Text)
  | append (file : φ) (lines : World φ σ → List Text)
  | remove (file : φ)
  | removeAll (inside : φ → Bool)
  | copyAll (source : φ → Option φ)
  | assign (update : World φ σ → σ)

variable {φ σ : Type} [DecidableEq φ]

/-- The effect of one step. `copyAll` overwrites every file whose source exists. -/
def FileStep.exec (world : World φ σ) : FileStep φ σ → World φ σ
  | .create file lines => { world with files := Function.update world.files file (some (lines world)) }
  | .append file lines =>
      { world with
        files := Function.update world.files file (some (world.files.content file ++ lines world)) }
  | .remove file => { world with files := Function.update world.files file none }
  | .removeAll inside =>
      { world with files := fun file => if inside file then none else world.files file }
  | .copyAll source =>
      { world with
        files := fun file => match (source file).bind world.files with
          | some lines => some lines
          | none => world.files file }
  | .assign update => { world with shell := update world }

/-- A run executes its steps in order. -/
def run (steps : List (FileStep φ σ)) (world : World φ σ) : World φ σ :=
  steps.foldl FileStep.exec world

@[simp] theorem run_nil (world : World φ σ) : run [] world = world := rfl

@[simp] theorem run_cons (step : FileStep φ σ) (steps : List (FileStep φ σ)) (world : World φ σ) :
    run (step :: steps) world = run steps (step.exec world) := rfl

theorem run_append (front back : List (FileStep φ σ)) (world : World φ σ) :
    run (front ++ back) world = run back (run front world) := by
  simp [run, List.foldl_append]

/-! ### One step -/

theorem content_update (files : Files φ) (file other : φ) (lines : Option (List Text)) :
    Files.content (Function.update files file lines) other =
      if other = file then lines.getD [] else files.content other := by
  by_cases same : other = file
  · subst same
    simp [Files.content]
  · simp [Files.content, same]

/-- The files that a step may change. -/
def FileStep.touches (file : φ) : FileStep φ σ → Bool
  | .create target _ | .append target _ | .remove target => file = target
  | .removeAll inside => inside file
  | .copyAll source => (source file).isSome
  | .assign _ => false

theorem exec_files_of_untouched {file : φ} {step : FileStep φ σ} (world : World φ σ)
    (untouched : step.touches file = false) : (step.exec world).files file = world.files file := by
  cases step with
  | create target lines | append target lines | remove target =>
      have other : file ≠ target := by simpa [FileStep.touches] using untouched
      simp [FileStep.exec, other]
  | removeAll inside =>
      have outside : inside file = false := untouched
      simp [FileStep.exec, outside]
  | copyAll source =>
      have noSource : source file = none := by simpa [FileStep.touches] using untouched
      simp [FileStep.exec, noSource]
  | assign update => rfl

/-! ### Whole runs -/

/-- No step touches the file. -/
def avoids (file : φ) (steps : List (FileStep φ σ)) : Bool :=
  steps.all fun step => !step.touches file

@[simp] theorem avoids_nil (file : φ) : avoids file ([] : List (FileStep φ σ)) = true := rfl

@[simp] theorem avoids_cons (file : φ) (step : FileStep φ σ) (steps : List (FileStep φ σ)) :
    avoids file (step :: steps) = (!step.touches file && avoids file steps) := rfl

@[simp] theorem avoids_append (file : φ) (front back : List (FileStep φ σ)) :
    avoids file (front ++ back) = (avoids file front && avoids file back) := by
  simp [avoids]

theorem avoids_flatMap {ι : Type} {file : φ} {body : ι → List (FileStep φ σ)} (items : List ι)
    (h : ∀ item, avoids file (body item) = true) : avoids file (items.flatMap body) = true := by
  induction items with
  | nil => rfl
  | cons item items ih => rw [List.flatMap_cons, avoids_append, h item, ih, Bool.and_self]

/-- The frame rule: a file that no step touches is unchanged. -/
theorem run_files_of_avoids {file : φ} {steps : List (FileStep φ σ)} (world : World φ σ)
    (h : avoids file steps = true) : (run steps world).files file = world.files file := by
  induction steps generalizing world with
  | nil => rfl
  | cons step steps ih =>
      simp only [avoids_cons, Bool.and_eq_true, Bool.not_eq_true'] at h
      rw [run_cons, ih _ h.2, exec_files_of_untouched world h.1]

theorem run_content_of_avoids {file : φ} {steps : List (FileStep φ σ)} (world : World φ σ)
    (h : avoids file steps = true) :
    (run steps world).files.content file = world.files.content file := by
  simp only [Files.content, run_files_of_avoids world h]

/-- The rule for loops that append: if every body keeps an invariant and, under it, adds its lines to
the file, then the whole loop keeps the invariant and adds the lines in the order of the loop. -/
theorem run_appendLoop {ι : Type} {body : ι → List (FileStep φ σ)} (file : φ)
    (invariant : World φ σ → Prop) (lines : ι → List Text)
    (keeps : ∀ item world, invariant world → invariant (run (body item) world))
    (adds : ∀ item world, invariant world →
      (run (body item) world).files.content file = world.files.content file ++ lines item)
    (items : List ι) {world : World φ σ} (start : invariant world) :
    invariant (run (items.flatMap body) world) ∧
      (run (items.flatMap body) world).files.content file =
        world.files.content file ++ items.flatMap lines := by
  induction items generalizing world with
  | nil => simpa using start
  | cons item items ih =>
      rw [List.flatMap_cons, run_append]
      obtain ⟨kept, added⟩ := ih (keeps item world start)
      refine ⟨kept, ?_⟩
      rw [added, adds item world start, List.flatMap_cons, List.append_assoc]

/-! ### Runs that stop -/

/-- Whether a file is known to hold nothing after a step: a removal settles it, a write unsettles it. -/
def FileStep.settles (file : φ) (settled : Bool) : FileStep φ σ → Bool
  | .create target _ | .append target _ => if file = target then false else settled
  | .remove target => if file = target then true else settled
  | .removeAll inside => inside file || settled
  | .copyAll source => if (source file).isSome then false else settled
  | .assign _ => settled

/-- The last step that touches the file, if any, removes it. -/
def settledAfter (file : φ) (steps : List (FileStep φ σ)) : Bool :=
  steps.foldl (FileStep.settles file) true

/-- One step keeps the meaning of the flag. -/
theorem content_nil_of_settles {file : φ} {settled : Bool} {world : World φ σ}
    (before : settled = true → world.files.content file = []) (step : FileStep φ σ)
    (after : step.settles file settled = true) : (step.exec world).files.content file = [] := by
  have kept : step.touches file = false → settled = true →
      (step.exec world).files.content file = [] := by
    intro untouched flag
    rw [Files.content, exec_files_of_untouched world untouched]
    exact before flag
  cases step with
  | create target lines | append target lines =>
      by_cases same : file = target
      · simp [FileStep.settles, same] at after
      · exact kept (by simp [FileStep.touches, same]) (by simpa [FileStep.settles, same] using after)
  | remove target =>
      by_cases same : file = target
      · simp [FileStep.exec, same, content_update]
      · exact kept (by simp [FileStep.touches, same]) (by simpa [FileStep.settles, same] using after)
  | removeAll inside =>
      cases hit : inside file with
      | true => simp [FileStep.exec, Files.content, hit]
      | false => exact kept hit (by simpa [FileStep.settles, hit] using after)
  | copyAll source =>
      cases from? : source file with
      | none =>
          exact kept (by simp [FileStep.touches, from?])
            (by simpa [FileStep.settles, from?] using after)
      | some other => simp [FileStep.settles, from?] at after
  | assign update => exact kept rfl (by simpa [FileStep.settles] using after)

theorem content_run_nil_of_settled {file : φ} {steps : List (FileStep φ σ)} {world : World φ σ}
    (settled : settledAfter file steps = true) (empty : world.files.content file = []) :
    (run steps world).files.content file = [] := by
  have general : ∀ (steps : List (FileStep φ σ)) (flag : Bool) (world : World φ σ),
      (flag = true → world.files.content file = []) →
        steps.foldl (FileStep.settles file) flag = true →
          (run steps world).files.content file = [] := by
    intro steps
    induction steps with
    | nil => intro flag world before after; exact before after
    | cons step steps ih =>
        intro flag world before after
        exact ih (step.settles file flag) (step.exec world)
          (content_nil_of_settles before step) after
  exact general steps true world (fun _ => empty) settled

/-- Steps that avoid the file keep the flag. -/
theorem foldl_settles_of_avoids {file : φ} {steps : List (FileStep φ σ)} (flag : Bool)
    (untouched : avoids file steps = true) : steps.foldl (FileStep.settles file) flag = flag := by
  induction steps generalizing flag with
  | nil => rfl
  | cons step steps ih =>
      simp only [avoids_cons, Bool.and_eq_true, Bool.not_eq_true'] at untouched
      have same : step.settles file flag = flag := by
        cases step with
        | create target lines | append target lines | remove target =>
            have other : file ≠ target := by simpa [FileStep.touches] using untouched.1
            simp [FileStep.settles, other]
        | removeAll inside =>
            have outside : inside file = false := untouched.1
            simp [FileStep.settles, outside]
        | copyAll source =>
            have noSource : source file = none := by simpa [FileStep.touches] using untouched.1
            simp [FileStep.settles, noSource]
        | assign update => rfl
      rw [List.foldl_cons, same]
      exact ih flag untouched.2

/-- An attempt is a script together with the number of steps it completed. -/
abbrev Attempt (φ σ : Type) := List (FileStep φ σ) × Nat

/-- The files that an attempt leaves; its shell starts with `initial` and is lost at the end. -/
def attemptFiles (initial : σ) (files : Files φ) (attempt : Attempt φ σ) : Files φ :=
  (run (attempt.1.take attempt.2) { files := files, shell := initial }).files

/-- The files after a sequence of attempts. -/
def history (initial : σ) (attempts : List (Attempt φ σ)) (files : Files φ) : Files φ :=
  attempts.foldl (attemptFiles initial) files

/-- If no attempt stopped between a write to the file and its removal, the file holds nothing. -/
theorem content_history_nil {file : φ} {initial : σ} {attempts : List (Attempt φ σ)} {files : Files φ}
    (settled : ∀ attempt ∈ attempts, settledAfter file (attempt.1.take attempt.2) = true)
    (empty : files.content file = []) : (history initial attempts files).content file = [] := by
  induction attempts generalizing files with
  | nil => exact empty
  | cons attempt attempts ih =>
      apply ih fun other member => settled other (by simp [member])
      exact content_run_nil_of_settled (settled attempt (by simp)) empty

end Numafac
