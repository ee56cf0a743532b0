/-
Module: Numafac.Lmbench.Results
Layer: Lmbench
Purpose: The clock and the results of lmbench. A time is kept as a pair of time values that `settime` sets
  and `gettime` subtracts. The results of a benchmark are pairs of a time and a number of iterations, kept
  with the biggest time for an iteration first. Any sequence of insertions that the allocation has room for
  leaves all measured pairs in order (`insertAll_spec`), and `save_minimum` saves one with the least time
  (`saveMinimum_least`).
Trusted boundary: time values as `gettimeofday` and `settime` leave them; `double` is any rounding to a
  nearest number of a format
Main exports: TimeVal, tvsub, tvdelta, tvdelta_eq, Timing, settime, gettime, gettime_settime, Value,
  Results, resultBytes, sizeofResult, entries, rate, insertsort, insertAll, saveMinimum, saveMedian,
  valuesOf, insertAll_spec, saveMinimum_least
-/
import Numafac.Base.Rounding
import Numafac.Base.SortedArray

namespace Numafac.LibTiming

/-! ### The clock -/

/-- `struct timeval`, with less than a second of microseconds. -/
structure TimeVal where
  sec : Int
  usec : Int
  nonneg : 0 ≤ usec
  small : usec < 1000000

/-- The zeros that `bzero` leaves. -/
def TimeVal.zero : TimeVal := ⟨0, 0, by decide, by decide⟩

/-- `tvsub`: `t1 - t0`, and zero when the time went backwards. -/
def tvsub (t1 t0 : TimeVal) : TimeVal :=
  let sec := t1.sec - t0.sec
  let usec := t1.usec - t0.usec
  have low := t1.nonneg
  have high := t1.small
  have low' := t0.nonneg
  have high' := t0.small
  if borrow : usec < 0 ∧ 0 < sec then
    if t1.sec < t0.sec then TimeVal.zero else ⟨sec - 1, usec + 1000000, by omega, by omega⟩
  else if backwards : usec < 0 ∨ t1.sec < t0.sec then TimeVal.zero
  else ⟨sec, usec, by omega, by omega⟩

/-- `tvdelta`, in microseconds. -/
def tvdelta (start stop : TimeVal) : Nat :=
  let td := tvsub stop start
  (td.sec * 1000000 + td.usec).toNat

/-- The two time values and the number of iterations that the library keeps. -/
structure Timing where
  startTv : TimeVal
  stopTv : TimeVal
  iterations : Nat

def saveN (n : Nat) (t : Timing) : Timing :=
  { t with iterations := n }

def getN (t : Timing) : Nat :=
  t.iterations

/-- `settime`: the time spent becomes so many microseconds. -/
def settime (usecs : Nat) (t : Timing) : Timing :=
  { t with
    startTv := TimeVal.zero
    stopTv := ⟨usecs / 1000000, usecs % 1000000, by omega, by omega⟩ }

def gettime (t : Timing) : Nat :=
  tvdelta t.startTv t.stopTv

/-- The difference in microseconds, or zero. -/
theorem tvdelta_eq (start stop : TimeVal) :
    (tvdelta start stop : Int) =
      max 0 (stop.sec * 1000000 + stop.usec - (start.sec * 1000000 + start.usec)) := by
  obtain ⟨sec, usec, low, high⟩ := start
  obtain ⟨sec', usec', low', high'⟩ := stop
  unfold tvdelta tvsub
  dsimp only
  split
  · split
    · omega
    · dsimp only
      omega
  · split
    · dsimp only [TimeVal.zero]
      omega
    · dsimp only
      omega

@[simp] theorem gettime_settime (usecs : Nat) (t : Timing) : gettime (settime usecs t) = usecs := by
  have difference := tvdelta_eq TimeVal.zero ⟨usecs / 1000000, usecs % 1000000, by omega, by omega⟩
  have sec : TimeVal.zero.sec = 0 := rfl
  have usec : TimeVal.zero.usec = 0 := rfl
  rw [sec, usec] at difference
  dsimp only at difference
  change tvdelta TimeVal.zero ⟨usecs / 1000000, usecs % 1000000, _, _⟩ = usecs
  omega

@[simp] theorem gettime_saveN (n : Nat) (t : Timing) : gettime (saveN n t) = gettime t := rfl

@[simp] theorem getN_saveN (n : Nat) (t : Timing) : getN (saveN n t) = n := rfl

@[simp] theorem getN_settime (usecs : Nat) (t : Timing) : getN (settime usecs t) = getN t := rfl

/-! ### The results -/

/-- `value_t`. -/
structure Value where
  u : Nat
  n : Nat
deriving DecidableEq, Repr

/-- `result_t`, with as many entries as were allocated. -/
structure Results where
  N : Nat
  v : CArray Value

/-- `TRIES`. -/
def tries : Nat := 11

/-- The bytes of `N` with its padding, and of the entries. -/
def resultBytes (repetitions : Int) : Nat :=
  if repetitions ≤ tries then 8 + tries * 16
  else 8 + tries * 16 + (repetitions - tries).toNat * 16

/-- `sizeof_result`, which returns the bytes as an `int`. A negative size counts as zero: no allocation has
it, and the parent asks for no byte. -/
def sizeofResult (repetitions : Int) : Nat :=
  ((resultBytes repetitions : Int).bmod (2 ^ 32)).toNat

/-- The entries that fit into `sizeof_result` bytes. -/
def entries (repetitions : Int) : Nat :=
  (sizeofResult repetitions - 8) / 16

/-- `insertinit` on so many entries. -/
def insertinit (v : CArray Value) : Results :=
  { N := 0, v }

/-- `u/(double)n`, where a quotient by zero is infinite. -/
def rate (format : FloatFormat) (value : Value) : WithTop ℚ≥0 :=
  if value.n = 0 then ⊤ else (format.round (format.round value.u / format.round value.n) : ℚ≥0)

/-- `insertsort`. -/
def insertsort (format : FloatFormat) (u n : Nat) (r : Results) : CResult Results :=
  if u = 0 then .ok r
  else do
    let v ← insertDescending (rate format) ⟨u, n⟩ r.v r.N
    pure { N := r.N + 1, v }

/-- `save_minimum`. -/
def saveMinimum (r : Results) (t : Timing) : CResult Timing :=
  if r.N = 0 then .ok (settime 0 (saveN 1 t))
  else do
    let last ← r.v.read (r.N - 1)
    pure (settime last.u (saveN last.n t))

/-- `save_median`. -/
def saveMedian (r : Results) (t : Timing) : CResult Timing :=
  let i := r.N / 2
  if r.N = 0 then .ok (settime 0 (saveN 1 t))
  else if r.N % 2 ≠ 0 then do
    let middle ← r.v.read i
    pure (settime middle.u (saveN middle.n t))
  else do
    let upper ← r.v.read i
    let lower ← r.v.read (i - 1)
    pure (settime ((upper.u + lower.u) % 2 ^ 64 / 2) (saveN ((upper.n + lower.n) % 2 ^ 64 / 2) t))

theorem resultBytes_eq (repetitions : Int) : resultBytes repetitions = 8 + 16 * max 11 repetitions.toNat := by
  unfold resultBytes tries
  split
  · omega
  · omega

/-- A size in the range of `int` is returned as it is. -/
theorem sizeofResult_of_fits {repetitions : Int} (fits : resultBytes repetitions < 2 ^ 31) :
    sizeofResult repetitions = 8 + 16 * max 11 repetitions.toNat := by
  have kept : (resultBytes repetitions : Int).bmod (2 ^ 32) = resultBytes repetitions :=
    Int.bmod_eq_of_le_mul_two (by omega) (by omega)
  change ((resultBytes repetitions : Int).bmod (2 ^ 32)).toNat = _
  rw [kept, Int.toNat_natCast, resultBytes_eq]

theorem entries_eq {repetitions : Int} (fits : resultBytes repetitions < 2 ^ 31) :
    entries repetitions = max 11 repetitions.toNat := by
  rw [entries, sizeofResult_of_fits fits]
  omega

theorem sizeofResult_eq {repetitions : Int} (fits : resultBytes repetitions < 2 ^ 31) :
    sizeofResult repetitions = 8 + 16 * entries repetitions := by
  rw [entries_eq fits, sizeofResult_of_fits fits]

/-- The results hold these values, in order, and nothing else. -/
structure Holds (format : FloatFormat) (size : Nat) (values : List Value) (r : Results) : Prop where
  count : r.N = values.length
  room : values.length ≤ size
  array : r.v = CArray.filled values ++ malloc (size - values.length : Nat)
  sorted : values.Pairwise fun a b => rate format b ≤ rate format a

theorem holds_insertinit (format : FloatFormat) (size : Nat) :
    Holds format size [] (insertinit (malloc size)) :=
  ⟨rfl, Nat.zero_le size, rfl, List.Pairwise.nil⟩

/-- The values in the first `N` entries. -/
def valuesOf (r : Results) : List Value :=
  (r.v.take r.N).filterMap id

theorem Holds.valuesOf {format : FloatFormat} {size : Nat} {values : List Value} {r : Results}
    (holds : Holds format size values r) : valuesOf r = values := by
  obtain ⟨count, -, array, -⟩ := holds
  have front : (CArray.filled values ++ malloc (size - values.length : Nat)).take values.length =
      CArray.filled values := List.take_left' (CArray.length_filled values)
  rw [LibTiming.valuesOf, count, array, front, CArray.filled, List.filterMap_map]
  simp

section Insert

variable {format : FloatFormat} {size : Nat} {values : List Value} {r : Results}

/-- With room for it a pair with a time comes to its place. -/
theorem Holds.insertsort (holds : Holds format size values r) (more : values.length < size) {u : Nat}
    (measured : u ≠ 0) (n : Nat) :
    ∃ r', LibTiming.insertsort format u n r = .ok r' ∧
      Holds format size (insertBefore (rate format) ⟨u, n⟩ values) r' := by
  obtain ⟨count, -, array, sorted⟩ := holds
  obtain ⟨spare, left⟩ : ∃ spare, size - values.length = spare + 1 :=
    ⟨size - values.length - 1, by omega⟩
  have inserted := insertDescending_spec (rate format) ⟨u, n⟩ values (malloc (spare : Nat)) none
  refine ⟨⟨values.length + 1, CArray.filled (insertBefore (rate format) ⟨u, n⟩ values) ++ malloc (spare : Nat)⟩,
    ?_, ⟨?_, ?_, ?_, pairwise_insertBefore (rate format) ⟨u, n⟩ sorted⟩⟩
  · rw [LibTiming.insertsort, if_neg measured, count, array, left]
    exact bind_eq_ok.mpr ⟨_, inserted, rfl⟩
  · simp
  · rw [length_insertBefore]
    exact more
  · have rest : size - (values.length + 1) = spare := by omega
    rw [length_insertBefore, rest]

/-- Without room the store is outside of the allocation. -/
theorem Holds.insertsort_full (holds : Holds format size values r) (full : values.length = size) {u : Nat}
    (measured : u ≠ 0) (n : Nat) : LibTiming.insertsort format u n r = .error .outOfBounds := by
  obtain ⟨count, -, array, -⟩ := holds
  have none : (malloc (size - values.length : Nat) : CArray Value) = [] := by
    rw [full, Nat.sub_self]
    rfl
  rw [LibTiming.insertsort, if_neg measured, count, array, none, List.append_nil, insertDescending_full]
  rfl

end Insert

/-- A sequence of insertions. -/
def insertAll (format : FloatFormat) (pairs : List Value) (r : Results) : CResult Results :=
  pairs.foldlM (fun r pair => insertsort format pair.u pair.n r) r

/-- The pairs that `insertsort` does not drop. -/
def measuredPairs (pairs : List Value) : List Value :=
  pairs.filter fun pair => pair.u ≠ 0

theorem Holds.insertAll {format : FloatFormat} {size : Nat} {values : List Value} {r : Results}
    (holds : Holds format size values r) {pairs : List Value}
    (room : values.length + (measuredPairs pairs).length ≤ size) :
    ∃ r' values', LibTiming.insertAll format pairs r = .ok r' ∧ Holds format size values' r' ∧
      values'.Perm (values ++ measuredPairs pairs) := by
  induction pairs generalizing r values with
  | nil => exact ⟨r, values, rfl, holds, by simp [measuredPairs]⟩
  | cons pair pairs ih =>
      by_cases dropped : pair.u = 0
      · have rest : measuredPairs (pair :: pairs) = measuredPairs pairs := by simp [measuredPairs, dropped]
        rw [rest] at room ⊢
        obtain ⟨r', values', ran, holds', perm⟩ := ih holds room
        exact ⟨r', values', bind_eq_ok.mpr ⟨r, if_pos dropped, ran⟩, holds', perm⟩
      · have rest : measuredPairs (pair :: pairs) = pair :: measuredPairs pairs := by
          simp [measuredPairs, dropped]
        rw [rest, List.length_cons] at room
        obtain ⟨r₁, inserted, holds₁⟩ := holds.insertsort (by omega) dropped pair.n
        obtain ⟨r', values', ran, holds', perm⟩ := ih holds₁ (by rw [length_insertBefore]; omega)
        refine ⟨r', values', bind_eq_ok.mpr ⟨r₁, inserted, ran⟩, holds', ?_⟩
        rw [rest]
        refine perm.trans (((perm_insertBefore (rate format) _ values).append_right _).trans ?_)
        exact List.perm_middle.symm

theorem Holds.insertAll_full {format : FloatFormat} {size : Nat} {values : List Value} {r : Results}
    (holds : Holds format size values r) {pairs : List Value}
    (beyond : size < values.length + (measuredPairs pairs).length) :
    LibTiming.insertAll format pairs r = .error .outOfBounds := by
  induction pairs generalizing r values with
  | nil =>
      have room := holds.room
      simp [measuredPairs] at beyond
      omega
  | cons pair pairs ih =>
      by_cases dropped : pair.u = 0
      · have rest : measuredPairs (pair :: pairs) = measuredPairs pairs := by simp [measuredPairs, dropped]
        rw [rest] at beyond
        have first : LibTiming.insertsort format pair.u pair.n r = .ok r := if_pos dropped
        rw [LibTiming.insertAll, List.foldlM_cons, first]
        exact ih holds beyond
      · have rest : measuredPairs (pair :: pairs) = pair :: measuredPairs pairs := by
          simp [measuredPairs, dropped]
        rw [rest, List.length_cons] at beyond
        rw [LibTiming.insertAll, List.foldlM_cons]
        by_cases full : values.length = size
        · rw [holds.insertsort_full full dropped]
          rfl
        · have room := holds.room
          obtain ⟨r₁, inserted, holds₁⟩ := holds.insertsort (by omega) dropped pair.n
          rw [inserted]
          exact ih holds₁ (by rw [length_insertBefore]; omega)

/-- Any sequence of insertions into an allocation for so many repetitions, whose size is an `int`: as many
pairs with a time as there are entries end up in order, none lost and none added, and one more leaves the
allocation. -/
theorem insertAll_spec (format : FloatFormat) {repetitions : Int} (fits : resultBytes repetitions < 2 ^ 31)
    (pairs : List Value) :
    ((measuredPairs pairs).length ≤ max 11 repetitions.toNat → ∃ r values,
      insertAll format pairs (insertinit (malloc (entries repetitions))) = .ok r ∧
        Holds format (entries repetitions) values r ∧ values.Perm (measuredPairs pairs)) ∧
    (max 11 repetitions.toNat < (measuredPairs pairs).length →
      insertAll format pairs (insertinit (malloc (entries repetitions))) = .error .outOfBounds) := by
  rw [← entries_eq fits]
  have start := holds_insertinit format (entries repetitions)
  constructor
  · intro room
    obtain ⟨r, values, ran, holds, perm⟩ := start.insertAll (by simpa using room)
    exact ⟨r, values, ran, holds, by simpa using perm⟩
  · intro beyond
    exact start.insertAll_full (by simpa using beyond)

/-- Three pairs, one without a time, in the results of one repetition. -/
theorem insertAll_spec_three :
    ((measuredPairs [⟨90, 8⟩, ⟨0, 8⟩, ⟨80, 8⟩]).length ≤ 11 → ∃ r values,
      insertAll (FloatFormat.fixedPoint 52) [⟨90, 8⟩, ⟨0, 8⟩, ⟨80, 8⟩]
          (insertinit (malloc (entries 1))) = .ok r ∧
        Holds (FloatFormat.fixedPoint 52) (entries 1) values r ∧
          values.Perm (measuredPairs [⟨90, 8⟩, ⟨0, 8⟩, ⟨80, 8⟩])) ∧
    (11 < (measuredPairs [⟨90, 8⟩, ⟨0, 8⟩, ⟨80, 8⟩]).length →
      insertAll (FloatFormat.fixedPoint 52) [⟨90, 8⟩, ⟨0, 8⟩, ⟨80, 8⟩]
        (insertinit (malloc (entries 1))) = .error .outOfBounds) :=
  @insertAll_spec (FloatFormat.fixedPoint 52) 1 (by decide) _

/-- The results hold a value exactly when there is one: the last is a least one. -/
theorem Holds.saveMinimum {format : FloatFormat} {size : Nat} {values : List Value} {r : Results}
    (holds : Holds format size values r) (t : Timing) :
    ∃ t', LibTiming.saveMinimum r t = .ok t' ∧ (values = [] → gettime t' = 0 ∧ getN t' = 1) ∧
      (values ≠ [] → ∃ least ∈ values, gettime t' = least.u ∧ getN t' = least.n ∧
        ∀ other ∈ values, rate format least ≤ rate format other) := by
  obtain ⟨count, -, array, sorted⟩ := holds
  rcases List.eq_nil_or_concat' values with rfl | ⟨front, least, rfl⟩
  · refine ⟨settime 0 (saveN 1 t), if_pos count, fun _ => by simp, fun some => absurd rfl some⟩
  · have some : r.N ≠ 0 := by simp [count]
    have place : r.N - 1 = front.length := by simp [count]
    have found : r.v.read (r.N - 1) = .ok least := by
      rw [array, place]
      exact read_front front [] _ least
    refine ⟨settime least.u (saveN least.n t), ?_, fun empty => by simp at empty, fun _ => ?_⟩
    · rw [LibTiming.saveMinimum, if_neg some, found]
      rfl
    · refine ⟨least, by simp, by simp, by simp, ?_⟩
      intro other member
      rcases List.mem_append.mp member with earlier | last
      · exact (List.pairwise_append.mp sorted).2.2 other earlier least (by simp)
      · rw [List.mem_singleton.mp last]

/-- `save_median` reads only entries that hold a value. -/
theorem Holds.saveMedian {format : FloatFormat} {size : Nat} {values : List Value} {r : Results}
    (holds : Holds format size values r) (t : Timing) : ∃ t', LibTiming.saveMedian r t = .ok t' := by
  obtain ⟨count, -, array, -⟩ := holds
  have found : ∀ i < r.N, ∃ value, r.v.read i = .ok value := by
    intro i inside
    rw [count] at inside
    have place : r.v[i]? = some (some values[i]) := by
      rw [array, List.getElem?_append_left (by simpa using inside)]
      simp [CArray.filled, inside]
    exact ⟨values[i], by rw [CArray.read, place]⟩
  unfold LibTiming.saveMedian
  dsimp only
  split
  · exact ⟨_, rfl⟩
  · split
    · obtain ⟨middle, read⟩ := found (r.N / 2) (by omega)
      exact ⟨_, bind_eq_ok.mpr ⟨middle, read, rfl⟩⟩
    · obtain ⟨upper, read⟩ := found (r.N / 2) (by omega)
      obtain ⟨lower, read'⟩ := found (r.N / 2 - 1) (by omega)
      exact ⟨_, bind_eq_ok.mpr ⟨upper, read, bind_eq_ok.mpr ⟨lower, read', rfl⟩⟩⟩

/-- What is saved after a measurement in results whose size is an `int`: a measured pair with the least time
for an iteration, or one iteration that took no time when nothing was measured. -/
theorem saveMinimum_least (format : FloatFormat) {repetitions : Int} (fits : resultBytes repetitions < 2 ^ 31)
    {pairs : List Value} (room : (measuredPairs pairs).length ≤ max 11 repetitions.toNat) (t : Timing) :
    ∃ r t', insertAll format pairs (insertinit (malloc (entries repetitions))) = .ok r ∧
      saveMinimum r t = .ok t' ∧ (measuredPairs pairs = [] → gettime t' = 0 ∧ getN t' = 1) ∧
        (measuredPairs pairs ≠ [] → ∃ least ∈ measuredPairs pairs, gettime t' = least.u ∧ getN t' = least.n ∧
          ∀ other ∈ measuredPairs pairs, rate format least ≤ rate format other) := by
  rw [← entries_eq fits] at room
  obtain ⟨r, values, ran, holds, perm⟩ :=
    (holds_insertinit format (entries repetitions)).insertAll (by simpa using room)
  rw [List.nil_append] at perm
  obtain ⟨t', saved, empty, some⟩ := holds.saveMinimum t
  refine ⟨r, t', ran, saved, ?_, ?_⟩
  · intro none
    rw [none] at perm
    exact empty perm.eq_nil
  · intro nonempty
    have filled : values ≠ [] := by
      rintro rfl
      exact nonempty perm.symm.eq_nil
    obtain ⟨least, member, time, count, below⟩ := some filled
    exact ⟨least, perm.mem_iff.mp member, time,
      count, fun other member' => below other (perm.mem_iff.mpr member')⟩

theorem saveMinimum_least_three :
    ∃ r t', insertAll (FloatFormat.fixedPoint 52) [⟨90, 8⟩, ⟨0, 8⟩, ⟨80, 8⟩]
        (insertinit (malloc (entries 1))) = .ok r ∧
      saveMinimum r ⟨TimeVal.zero, TimeVal.zero, 1⟩ = .ok t' ∧
        (measuredPairs [⟨90, 8⟩, ⟨0, 8⟩, ⟨80, 8⟩] = [] → gettime t' = 0 ∧ getN t' = 1) ∧
        (measuredPairs [⟨90, 8⟩, ⟨0, 8⟩, ⟨80, 8⟩] ≠ [] →
          ∃ least ∈ measuredPairs [⟨90, 8⟩, ⟨0, 8⟩, ⟨80, 8⟩], gettime t' = least.u ∧ getN t' = least.n ∧
            ∀ other ∈ measuredPairs [⟨90, 8⟩, ⟨0, 8⟩, ⟨80, 8⟩],
              rate (FloatFormat.fixedPoint 52) least ≤ rate (FloatFormat.fixedPoint 52) other) :=
  saveMinimum_least (FloatFormat.fixedPoint 52) (by decide) (by decide) ⟨TimeVal.zero, TimeVal.zero, 1⟩

end Numafac.LibTiming
