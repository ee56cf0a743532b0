/-
Module: Numafac.Base.Streams
Layer: Base
Purpose: C calls together with the streams they leave open. A `Traced` call is a call that also counts:
  `fopen` and `popen` add a stream, `fclose` takes one away, and an `fclose` of a stream that failed to open
  is counted for itself and does nothing. `Follows` says that a traced call computes what a call without
  streams computes, `Leaks` how many streams it leaves behind, and `Keeps` that it leaves none. All three go
  through sequences, and `Follows` through loops.
Trusted boundary: `popen` always starts a shell
Main exports: Streams, Traced, fopen, popen, fclose, tracedRange, Follows, follows_bind,
  follows_tracedRange, Leaks, leaks_bind, popen_fclose, Keeps, keeps_bind, keeps_popen_fclose,
  traced_bind_ok
-/
import Numafac.Base.CMemory

namespace Numafac

/-- The streams that are open, counted from some moment on, and the closes of streams that failed to open. -/
@[ext] structure Streams where
  left : Int
  nullCloses : Nat
deriving DecidableEq

/-- So many streams are left open, and so many closes had none. -/
def Streams.after (s : Streams) (leaked nulls : Nat) : Streams where
  left := s.left + leaked
  nullCloses := s.nullCloses + nulls

@[simp] theorem Streams.after_zero (s : Streams) : s.after 0 0 = s := by
  simp [Streams.after]

@[simp] theorem Streams.after_after (s : Streams) (a b c d : Nat) :
    (s.after a b).after c d = s.after (a + c) (b + d) := by
  simp [Streams.after, Int.add_assoc, Nat.add_assoc]

theorem Streams.after_eq_self_iff {s : Streams} {leaked nulls : Nat} :
    s.after leaked nulls = s ↔ leaked = 0 ∧ nulls = 0 := by
  rw [Streams.ext_iff]
  simp only [Streams.after]
  omega

/-- A call that counts its streams. -/
abbrev Traced := StateT Streams CResult

section Calls

variable {α β σ : Type}

/-- A call that opens and closes nothing. -/
def Traced.lift (call : CResult α) : Traced α := fun s =>
  call.map fun value => (value, s)

/-- `fopen` of a file that is there or not: the stream, where `false` is the null pointer. -/
def fopen (present : Bool) : Traced Bool := fun s =>
  .ok (present, if present then s.after 1 0 else s)

def popen : Traced Bool :=
  fopen true

def fclose (stream : Bool) : Traced Unit := fun s =>
  .ok ((), if stream then { s with left := s.left - 1 } else s.after 0 1)

/-- `for (i = start; i < stop; i++) body`. -/
def tracedRange (start stop : Nat) (body : σ → Nat → Traced σ) (state : σ) : Traced σ :=
  (List.range' start (stop - start)).foldlM body state

/-- A sequence returns exactly when both parts do. -/
theorem traced_bind_ok {x : Traced α} {rest : α → Traced β} {s : Streams} {result : β × Streams} :
    (x >>= rest) s = .ok result ↔ ∃ value s', x s = .ok (value, s') ∧ rest value s' = .ok result := by
  change (x s >>= fun p => rest p.1 p.2) = _ ↔ _
  rw [bind_eq_ok]
  exact ⟨fun ⟨p, first, second⟩ => ⟨p.1, p.2, first, second⟩,
    fun ⟨value, s', first, second⟩ => ⟨(value, s'), first, second⟩⟩

theorem lift_ok {call : CResult α} {s s' : Streams} {value : α} :
    Traced.lift call s = .ok (value, s') ↔ call = .ok value ∧ s' = s := by
  cases call with
  | error fault => exact ⟨fun ran => (nomatch ran), fun ran => (nomatch ran.1)⟩
  | ok result =>
      constructor
      · intro ran
        obtain ⟨rfl, rfl⟩ := Prod.mk.inj (Except.ok.inj ran)
        exact ⟨rfl, rfl⟩
      · rintro ⟨ran, rfl⟩
        rw [Except.ok.inj ran]
        rfl

/-! ### The results -/

/-- Up to the streams the traced call is the call. -/
def Follows (traced : Traced α) (call : CResult α) : Prop :=
  ∀ s, (traced s).map Prod.fst = call

theorem follows_lift (call : CResult α) : Follows (Traced.lift call) call := by
  intro s
  cases call with
  | ok value => rfl
  | error fault => rfl

theorem follows_pure (value : α) : Follows (pure value) (.ok value) := fun _ => rfl

theorem follows_bind {x : Traced α} {call : CResult α} {rest : α → Traced β} {later : α → CResult β}
    (first : Follows x call) (second : ∀ value, Follows (rest value) (later value)) :
    Follows (x >>= rest) (call >>= later) := by
  intro s
  have here := first s
  change ((x s).bind fun p => rest p.1 p.2).map Prod.fst = _
  cases ran : x s with
  | error fault =>
      rw [ran] at here
      rw [← here]
      rfl
  | ok p =>
      rw [ran] at here
      rw [← here]
      exact second p.1 p.2

/-- Opening and closing do not change what is computed. -/
theorem follows_fopen_bind {present : Bool} {rest : Bool → Traced β} {call : CResult β}
    (second : Follows (rest present) call) : Follows (fopen present >>= rest) call :=
  fun s => second (if present then s.after 1 0 else s)

theorem follows_fclose_bind {stream : Bool} {rest : Unit → Traced β} {call : CResult β}
    (second : Follows (rest ()) call) : Follows (fclose stream >>= rest) call :=
  fun s => second (if stream then { s with left := s.left - 1 } else s.after 0 1)

theorem follows_foldlM {body : σ → Nat → Traced σ} {pass : σ → Nat → CResult σ}
    (same : ∀ state i, Follows (body state i) (pass state i)) (indices : List Nat) (state : σ) :
    Follows (indices.foldlM body state) (indices.foldlM pass state) := by
  induction indices generalizing state with
  | nil => exact follows_pure state
  | cons i indices ih =>
      rw [List.foldlM_cons, List.foldlM_cons]
      exact follows_bind (same state i) ih

theorem follows_tracedRange {start stop : Nat} {body : σ → Nat → Traced σ} {pass : σ → Nat → CResult σ}
    (same : ∀ state i, Follows (body state i) (pass state i)) (state : σ) :
    Follows (tracedRange start stop body state) (forRange start stop pass state) :=
  follows_foldlM same _ state

/-- A traced call returns only what the call returns. -/
theorem Follows.ok {traced : Traced α} {call : CResult α} (follows : Follows traced call) {s s' : Streams}
    {value : α} (returned : traced s = .ok (value, s')) : call = .ok value := by
  rw [← follows s, returned]
  rfl

/-! ### The streams -/

/-- The call returns the value and leaves so many streams open. -/
def Leaks (traced : Traced α) (value : α) (count : Nat) : Prop :=
  ∀ s, traced s = .ok (value, s.after count 0)

theorem leaks_pure (value : α) : Leaks (pure value) value 0 := by
  intro s
  rw [Streams.after_zero]
  rfl

theorem leaks_bind {x : Traced α} {rest : α → Traced β} {value : α} {result : β} {count later : Nat}
    (first : Leaks x value count) (second : Leaks (rest value) result later) :
    Leaks (x >>= rest) result (count + later) := by
  intro s
  refine traced_bind_ok.mpr ⟨value, s.after count 0, first s, ?_⟩
  rw [second, Streams.after_after]

theorem leaks_popen_bind {rest : Bool → Traced β} {result : β} {later : Nat}
    (second : Leaks (rest true) result later) : Leaks (popen >>= rest) result (1 + later) :=
  leaks_bind (fun _ => rfl) second

/-- A stream that is closed again is not left. -/
theorem popen_fclose (rest : Traced β) (s : Streams) :
    (popen >>= fun stream => fclose stream >>= fun _ => rest) s = rest s := by
  change rest { s.after 1 0 with left := (s.after 1 0).left - 1 } = rest s
  congr 1
  simp [Streams.after]

theorem Leaks.follows {traced : Traced α} {value : α} {count : Nat} (leaks : Leaks traced value count) :
    Follows traced (.ok value) := by
  intro s
  rw [leaks s]
  rfl

theorem Leaks.streams {traced : Traced α} {value result : α} {count : Nat} {s s' : Streams}
    (leaks : Leaks traced value count) (returned : traced s = .ok (result, s')) :
    s' = s.after count 0 := by
  rw [leaks s] at returned
  exact (Prod.mk.inj (Except.ok.inj returned)).2.symm

/-- If the call returns, the streams are as before. -/
def Keeps (traced : Traced α) : Prop :=
  ∀ s value s', traced s = .ok (value, s') → s' = s

theorem Leaks.keeps {traced : Traced α} {value : α} (leaks : Leaks traced value 0) : Keeps traced := by
  intro s result s' returned
  rw [leaks.streams returned, Streams.after_zero]

theorem keeps_pure (value : α) : Keeps (pure value) := (leaks_pure value).keeps

theorem keeps_lift (call : CResult α) : Keeps (Traced.lift call) := fun _ _ _ returned =>
  (lift_ok.mp returned).2

theorem keeps_bind {x : Traced α} {rest : α → Traced β} (first : Keeps x)
    (second : ∀ value, Keeps (rest value)) : Keeps (x >>= rest) := by
  intro s result s' returned
  obtain ⟨value, s₁, ran, returned⟩ := traced_bind_ok.mp returned
  rw [second value s₁ result s' returned, first s value s₁ ran]

/-- A stream may be used before it is closed. -/
theorem keeps_popen_fclose {body : Traced α} {rest : α → Traced β} (use : Keeps body)
    (second : ∀ value, Keeps (rest value)) :
    Keeps (popen >>= fun stream => body >>= fun value => fclose stream >>= fun _ => rest value) := by
  intro s result s' returned
  obtain ⟨stream, s₁, opened, returned⟩ := traced_bind_ok.mp returned
  obtain ⟨rfl, rfl⟩ := Prod.mk.inj (Except.ok.inj opened)
  obtain ⟨value, s₂, ran, returned⟩ := traced_bind_ok.mp returned
  obtain rfl := use _ value s₂ ran
  obtain ⟨_, s₃, closed, returned⟩ := traced_bind_ok.mp returned
  obtain ⟨-, rfl⟩ := Prod.mk.inj (Except.ok.inj closed)
  rw [second value _ result s' returned]
  simp [Streams.after]

end Calls

end Numafac
