import LibFatbat.Scripts.BenchmarkLog
import LibFatbat.Text.Regex
import Mathlib.Data.Rat.Defs

/-!
# Reading the logs

`parse_file` of `plot_benchmark_results.py`, with its regular expressions and
`maybe_benchmark_from_filename`. Of the classes `\d` and `\s` only the ASCII characters are
modelled, and numbers are compared as printed: `float` gives the number that the text stands for,
not the double nearest to it.
-/

namespace LibFatbat

open Text

/-! ### Regular expressions -/

/-- `\s`. -/
def isPySpace (c : Char) : Bool :=
  c.toNat = 32 || (9 ≤ c.toNat && c.toNat ≤ 13) || (28 ≤ c.toNat && c.toNat ≤ 31)

/-- `[0-9.]`. -/
def isFloatChar (c : Char) : Bool := c.isDigit || c == '.'

/-- `RUN_RE`. -/
def runRe : Regex :=
  .seq (.text "--- Run: NODES=".toList) (.seq (.group "nodes" (.plus Char.isDigit))
    (.seq (.text " RPN=".toList) (.seq (.group "rpn" (.plus Char.isDigit))
      (.seq (.text " TASKS=".toList) (.seq (.group "tasks" (.plus Char.isDigit))
        (.seq (.text " GPU=".toList) (.seq (.group "gpu" (.plus Char.isDigit))
          (.seq (.text " GPU_DEVICE=".toList) (.seq (.group "gpu_device" (.plus Char.isDigit))
            (.seq (.text " ---".toList) .eos))))))))))

/-- `BENCH_RE`. -/
def benchRe : Regex :=
  .seq (.textIgnoreCase "#".toList) (.seq (.plus isPySpace)
    (.seq (.textIgnoreCase "rdma".toList) (.seq (.plus isPySpace)
      (.seq (.group "bench" (.alt (.textIgnoreCase "read".toList)
          (.alt (.textIgnoreCase "write".toList) (.textIgnoreCase "writedata".toList))))
        (.seq (.plus isPySpace) (.seq (.textIgnoreCase "benchmark".toList)
          (.seq (.star isPySpace) .eos)))))))

/-- `ROW_RE`. -/
def rowRe : Regex :=
  .seq (.star isPySpace) (.seq (.group "bytes" (.plus Char.isDigit)) (.seq (.plus isPySpace)
    (.seq (.group "iters" (.plus Char.isDigit)) (.seq (.plus isPySpace)
      (.seq (.group "ops" (.plus Char.isDigit)) (.seq (.plus isPySpace)
        (.seq (.group "time_ms" (.plus isFloatChar)) (.seq (.plus isPySpace)
          (.seq (.group "msg_rate" (.plus isFloatChar)) (.seq (.plus isPySpace)
            (.seq (.group "agg_bw" (.plus isFloatChar))
              (.seq (.star isPySpace) .eos))))))))))))

/-- `m.group(name)`. -/
def groupText (groups : List (String × List Char)) (name : String) : List Char :=
  (groups.lookup name).getD []

/-! ### Numbers -/

/-- A number of type `float`. -/
inductive PyFloat
  | finite (value : ℚ)
  | inf
  | nan
  deriving DecidableEq

/-- `float`, for what `[0-9.]+` matches: an exception if there are two points, or no digit. -/
def pyFloat (cs : List Char) : Option PyFloat :=
  match cs.splitOn '.' with
  | [whole] => if whole.isEmpty then none else some (.finite (digitsValue whole))
  | [whole, fraction] =>
    if whole.isEmpty && fraction.isEmpty then none
    else some (.finite (digitsValue whole + digitsValue fraction / 10 ^ fraction.length))
  | _ => none

/-! ### `parse_file` -/

/-- What is recorded for a row of a table. -/
structure Record where
  file : List Char
  benchmark : List Char
  run : Run
  bytes : ℕ
  iters : ℕ
  ops : ℕ
  timeMs : PyFloat
  msgRateMps : PyFloat
  aggBwMbS : PyFloat
  deriving DecidableEq

/-- The variables of the loop over the lines. -/
structure ParseState where
  currentRun : Option Run
  currentBench : Option (List Char)
  rows : List Record

/-- `maybe_benchmark_from_filename`. -/
def maybeBenchmarkFromFilename (name : List Char) : Option (List Char) :=
  ["read".toList, "write".toList, "writedata".toList].find? fun bench =>
    decide ("-lfb-".toList ++ bench <:+: name)

/-- The parameters of a run, from the groups of `RUN_RE`. -/
def readRun (groups : List (String × List Char)) : Run where
  nodes := digitsValue (groupText groups "nodes")
  rpn := digitsValue (groupText groups "rpn")
  tasks := digitsValue (groupText groups "tasks")
  gpu := digitsValue (groupText groups "gpu")
  gpuDevice := digitsValue (groupText groups "gpu_device")

/-- A record, from the groups of `ROW_RE`, unless `float` throws. -/
def readRow (file bench : List Char) (run : Run) (groups : List (String × List Char)) :
    Option Record := do
  let timeMs ← pyFloat (groupText groups "time_ms")
  let msgRate ← pyFloat (groupText groups "msg_rate")
  let aggBw ← pyFloat (groupText groups "agg_bw")
  return {
    file := file
    benchmark := bench
    run := run
    bytes := digitsValue (groupText groups "bytes")
    iters := digitsValue (groupText groups "iters")
    ops := digitsValue (groupText groups "ops")
    timeMs := timeMs
    msgRateMps := msgRate
    aggBwMbS := aggBw }

/-- The body of the loop; `none` is an exception. `splitlines` has left no newline to strip. -/
def parseLine (file : List Char) (st : ParseState) (line : List Char) : Option ParseState :=
  match runRe.match? line with
  | some groups => some { st with currentRun := some (readRun groups), currentBench := none }
  | none =>
    match benchRe.match? line with
    | some groups =>
      some { st with currentBench := some ((groupText groups "bench").map Char.toLower) }
    | none =>
      match rowRe.match? line, st.currentRun with
      | some groups, some run =>
        -- the name of a benchmark is not empty, so `or` goes on only after `None`
        match st.currentBench.or (maybeBenchmarkFromFilename file) with
        | none => some st
        | some bench => do
          let record ← readRow file bench run groups
          return { st with rows := st.rows ++ [record] }
      | _, _ => some st

/-- `parse_file`, given the name of the file and its text; `none` is an exception. -/
def parseFile (file text : List Char) : Option (List Record) :=
  ((splitLines text).foldlM (parseLine file) ⟨none, none, []⟩).map ParseState.rows

end LibFatbat
