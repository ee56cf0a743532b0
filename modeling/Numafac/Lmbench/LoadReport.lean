/-
Module: Numafac.Lmbench.LoadReport
Layer: Lmbench
Purpose: What `lat_mem_rd` prints: a line with the stride, a line for each measured range with its megabytes
  and the nanoseconds of a load, and an empty line.
Trusted boundary: the translation of `main` and `loads`; what `benchmp` and `save_minimum` left for a range
  is a parameter
Main exports: loadsMade, nanosecondsPerLoad, resultText, loadsLine, report, latMemRdReport
-/
import Numafac.Lmbench.RangeLoop
import Numafac.Lmbench.Results

namespace Numafac.LatMemRd

open LibTiming (Timing gettime getN)

variable (format : FloatFormat)

/-- `count * get_n()`, where the product is a `uint64`. -/
def loadsMade (range stride : Nat) (t : Timing) : Nat :=
  100 * (range / (stride * 100) + 1) * getN t % 2 ^ 64

/-- `1000. * (double)gettime()`. -/
def nanoseconds (t : Timing) : ℚ≥0 :=
  format.round (1000 * format.round (gettime t))

/-- `result` in `loads`, when loads were made. -/
def nanosecondsPerLoad (range stride : Nat) (t : Timing) : ℚ≥0 :=
  format.round (nanoseconds format t / format.round (loadsMade range stride t))

/-- `%.3f` of `result`. The quotient by zero is infinite, or no number. -/
def resultText (range stride : Nat) (t : Timing) : Text :=
  if loadsMade range stride t = 0 then
    if nanoseconds format t = 0 then ['-', 'n', 'a', 'n'] else ['i', 'n', 'f']
  else (roundedTo 3 (nanosecondsPerLoad format range stride t)).text

/-- `%.5f` of the range in megabytes. -/
def megabytesText (range : Nat) : Text :=
  (roundedTo 5 (format.round (range / 2 ^ 20))).text

/-- The line of `loads` for a range. -/
def loadsLine (range stride : Nat) (t : Timing) : Text :=
  megabytesText format range ++ ' ' :: resultText format range stride t

/-- `%d` of `(int)stride`. -/
def intText (stride : Nat) : Text :=
  let low := stride % 2 ^ 32
  if low < 2 ^ 31 then natText low else '-' :: natText (2 ^ 32 - low)

/-- The first line, with the stride. -/
def strideLine (stride : Nat) : Text :=
  ['"', 's', 't', 'r', 'i', 'd', 'e', '='] ++ intText stride

/-- The output for one stride: `time` is what was measured for each of the ranges. -/
def report (stride : Nat) (time : Nat → Timing) (ranges : List Nat) : List Text :=
  strideLine stride :: ranges.map (fun range => loadsLine format range stride (time range)) ++ [[]]

/-- `main` with the arguments `size` and `stride`. -/
def latMemRdReport (time : Nat → Timing) (size stride : Text) : CResult (List Text) := do
  let ranges ← latMemRd size stride
  pure (report format (bytes stride) time ranges)

end Numafac.LatMemRd
