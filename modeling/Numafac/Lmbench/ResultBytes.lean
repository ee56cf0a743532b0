/-
Module: Numafac.Lmbench.ResultBytes
Layer: Lmbench
Purpose: The bytes that a child writes to the response pipe and how the parent reads them: `result_t` as it
  lies in memory, with the padding behind `N` and with whatever the entries without a value hold. The
  parent finds the child's values in them (`decode_encode`) and inserts each into its own results
  (`mergeResults_eq`).
Trusted boundary: the layout of `result_t`, lowest byte first
Main exports: encode, decode, decode_encode, Written, length_written, mergeResults,
  mergeResults_eq
-/
import Numafac.Base.Memory
import Numafac.Lmbench.Results

namespace Numafac.LibTiming

/-- The bytes of a `value_t`. -/
def encodeValue (value : Value) : List Nat :=
  toBytes 8 value.u ++ toBytes 8 value.n

/-- The bytes of a `result_t`: `N`, four bytes of padding, and all entries. -/
def encode (N padding : Nat) (image : List Value) : List Nat :=
  toBytes 4 N ++ (toBytes 4 padding ++ image.flatMap encodeValue)

/-- So many entries from these bytes. -/
def decodeValues : Nat → List Nat → List Value
  | 0, _ => []
  | count + 1, bytes =>
      ⟨ofBytes (bytes.take 8), ofBytes ((bytes.drop 8).take 8)⟩ :: decodeValues count (bytes.drop 16)

/-- `N` and the entries of a `result_t` that has these bytes. -/
def decode (bytes : List Nat) : Nat × List Value :=
  (ofBytes (bytes.take 4), decodeValues ((bytes.length - 8) / 16) (bytes.drop 8))

/-- The fields of a value are `uint64`. -/
def Value.Fits (value : Value) : Prop :=
  value.u < 2 ^ 64 ∧ value.n < 2 ^ 64

@[simp] theorem length_encodeValue (value : Value) : (encodeValue value).length = 16 := by
  simp [encodeValue]

@[simp] theorem length_encode (N padding : Nat) (image : List Value) :
    (encode N padding image).length = 8 + 16 * image.length := by
  induction image with
  | nil => simp [encode]
  | cons value image ih =>
      simp only [encode, List.length_append, length_toBytes, List.flatMap_cons, length_encodeValue,
        List.length_cons] at ih ⊢
      omega

theorem decodeValues_encode {image : List Value} (fits : ∀ value ∈ image, value.Fits) :
    decodeValues image.length (image.flatMap encodeValue) = image := by
  induction image with
  | nil => rfl
  | cons value image ih =>
      obtain ⟨small, small'⟩ := fits value (by simp)
      have first : ofBytes (toBytes 8 value.u) = value.u := by
        rw [ofBytes_toBytes, Nat.mod_eq_of_lt (by omega)]
      have second : ofBytes (toBytes 8 value.n) = value.n := by
        rw [ofBytes_toBytes, Nat.mod_eq_of_lt (by omega)]
      rw [List.flatMap_cons, List.length_cons, decodeValues, encodeValue, List.append_assoc]
      have front : (toBytes 8 value.u ++ (toBytes 8 value.n ++ image.flatMap encodeValue)).take 8 =
          toBytes 8 value.u := List.take_left' (length_toBytes 8 value.u)
      have middle : (toBytes 8 value.u ++ (toBytes 8 value.n ++ image.flatMap encodeValue)).drop 8 =
          toBytes 8 value.n ++ image.flatMap encodeValue := List.drop_left' (length_toBytes 8 value.u)
      have next : (toBytes 8 value.n ++ image.flatMap encodeValue).take 8 = toBytes 8 value.n :=
        List.take_left' (length_toBytes 8 value.n)
      have last : (toBytes 8 value.u ++ (toBytes 8 value.n ++ image.flatMap encodeValue)).drop 16 =
          image.flatMap encodeValue := by
        rw [show 16 = 8 + 8 from rfl, ← List.drop_drop, middle]
        exact List.drop_left' (length_toBytes 8 value.n)
      rw [front, middle, next, last, first, second, ih fun other member => fits other (by simp [member])]

/-- What was encoded is decoded. -/
theorem decode_encode {N : Nat} (padding : Nat) {image : List Value} (small : N < 2 ^ 32)
    (fits : ∀ value ∈ image, value.Fits) : decode (encode N padding image) = (N, image) := by
  have front : (encode N padding image).take 4 = toBytes 4 N := List.take_left' (length_toBytes 4 N)
  have back : (encode N padding image).drop 8 = image.flatMap encodeValue := by
    have first : (encode N padding image).drop 4 = toBytes 4 padding ++ image.flatMap encodeValue :=
      List.drop_left' (length_toBytes 4 N)
    rw [show 8 = 4 + 4 from rfl, ← List.drop_drop, first]
    exact List.drop_left' (length_toBytes 4 padding)
  have count : ((encode N padding image).length - 8) / 16 = image.length := by
    rw [length_encode]
    omega
  rw [decode, front, back, count, decodeValues_encode fits, ofBytes_toBytes, Nat.mod_eq_of_lt (by omega)]

/-- These bytes are the results as they lie in memory: an entry without a value holds anything. -/
def Written (r : Results) (bytes : List Nat) : Prop :=
  ∃ (padding : Nat) (image : List Value), bytes = encode r.N padding image ∧ image.length = r.v.length ∧
    (∀ value ∈ image, value.Fits) ∧ ∀ (j : Nat) (value : Value), r.v[j]? = some (some value) →
      image[j]? = some value

/-- The loop of the parent over the results it has read. -/
def mergeResults (format : FloatFormat) (bytes : List Nat) (merged : Results) : CResult Results :=
  let results := decode bytes
  forRange 0 results.1 (fun merged j => do
    let value ← CArray.read (CArray.filled results.2) j
    insertsort format value.u value.n merged) merged

/-- A loop that reads an array in order. -/
theorem forRange_read {σ α : Type} (f : σ → α → CResult σ) (front back : List α) (rest : List α) (state : σ) :
    forRange front.length (front.length + back.length) (fun state j => do
      let v ← CArray.read (CArray.filled (front ++ back ++ rest)) j
      f state v) state = back.foldlM f state := by
  induction back generalizing front state with
  | nil => exact forRange_self _ _ _
  | cons v back ih =>
      have read : CArray.read (CArray.filled (front ++ v :: back ++ rest)) front.length = .ok v := by
        simp [CArray.read, CArray.filled]
      have later := ih (front ++ [v])
      have shape : front ++ [v] ++ back ++ rest = front ++ v :: back ++ rest := by simp
      rw [shape, List.length_append, List.length_singleton, Nat.add_assoc, Nat.add_comm 1] at later
      rw [forRange_step (by simp), read, List.foldlM_cons, List.length_cons]
      exact congrArg (f state v >>= ·) (funext later)

/-- A child writes as many bytes as the parent reads. -/
theorem length_written {r : Results} {bytes : List Nat} (written : Written r bytes) {repetitions : Int}
    (fits : resultBytes repetitions < 2 ^ 31) (allocated : r.v.length = entries repetitions) :
      bytes.length = sizeofResult repetitions := by
  obtain ⟨padding, image, rfl, length, -⟩ := written
  rw [length_encode, length, allocated, sizeofResult_eq fits]

/-- The parent inserts the values that the child holds. -/
theorem mergeResults_eq {format : FloatFormat} {size : Nat} {values : List Value} {r : Results}
    (holds : Holds format size values r) (small : size < 2 ^ 32) {bytes : List Nat}
    (written : Written r bytes) (merged : Results) :
    mergeResults format bytes merged = insertAll format values merged := by
  obtain ⟨padding, image, rfl, length, fits, same⟩ := written
  obtain ⟨count, room, array, -⟩ := holds
  have total : image.length = size := by
    rw [length, array]
    simp [malloc]
    omega
  have front : image.take values.length = values := by
    apply List.ext_getElem?
    intro j
    by_cases inside : j < values.length
    · have here := same j values[j] (by
      rw [array, List.getElem?_append_left (by simpa using inside)]
      simp [CArray.filled, inside])
      rw [List.getElem?_take_of_lt inside, here, List.getElem?_eq_getElem inside]
    · rw [List.getElem?_eq_none (by simp; omega), List.getElem?_eq_none (by omega)]
  have split : values ++ image.drop values.length = image := by
    conv_rhs => rw [← List.take_append_drop values.length image, front]
  have read := forRange_read (fun merged value => insertsort format value.u value.n merged) [] values
    (image.drop values.length) merged
  rw [List.nil_append, List.length_nil, Nat.zero_add, split] at read
  rw [mergeResults, decode_encode padding (by omega) fits, count]
  exact read

end Numafac.LibTiming
