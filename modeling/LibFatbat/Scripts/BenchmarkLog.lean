import LibFatbat.Text.Lines

/-!
# Logs of the benchmarks

What a job script that `gen-rdma-bench-sbatch.sh` generates writes to its log, and what the log is
called. For each number of ranks per node the script prints a line with the parameters of the run;
the benchmark prints its name, its own parameters, the headings of a table and its rows. Before the
first run and after the last one the script prints a line of its own.
-/

namespace LibFatbat

open Text

/-- The modes of the benchmarks. -/
inductive BenchMode
  | read
  | write
  | writedata
  deriving DecidableEq

def BenchMode.name : BenchMode → List Char
  | .read => "read".toList
  | .write => "write".toList
  | .writedata => "writedata".toList

/-! ### What `printf` prints -/

/-- A number of type `double` that is not negative, as `%.3f` shows it. -/
inductive PrintedFloat
  /-- In thousandths. -/
  | finite (thousandths : ℕ)
  /-- What a division by an elapsed time of 0 gives. -/
  | inf
  /-- What it gives when nothing was transferred. Which sign is shown depends on the machine. -/
  | nan (negative : Bool)
  deriving DecidableEq

/-- `%.3f`, for a finite number. -/
def fixed3 (thousandths : ℕ) : List Char :=
  decimal (thousandths / 1000) ++
    ['.', Nat.digitChar (thousandths / 100 % 10), Nat.digitChar (thousandths / 10 % 10),
      Nat.digitChar (thousandths % 10)]

/-- `%.3f`. -/
def PrintedFloat.text : PrintedFloat → List Char
  | .finite thousandths => fixed3 thousandths
  | .inf => "inf".toList
  | .nan negative => (if negative then "-nan" else "nan").toList

/-- A row of the table, all of whose fields but the last are narrower than their columns. -/
structure TableRow where
  bytes : ℕ
  iters : ℕ
  ops : ℕ
  timeMs : PrintedFloat
  msgRate : PrintedFloat
  aggBw : PrintedFloat
  bytes_narrow : (decimal bytes).length < 12
  iters_narrow : (decimal iters).length < 14
  ops_narrow : (decimal ops).length < 14
  timeMs_narrow : timeMs.text.length < 14
  msgRate_narrow : msgRate.text.length < 16

/-- `%-12zu%-14zu%-14zu%-14.3f%-16.3f%-22.3f`. -/
def TableRow.line (row : TableRow) : List Char :=
  padRight 12 (decimal row.bytes) ++ (padRight 14 (decimal row.iters) ++
    (padRight 14 (decimal row.ops) ++ (padRight 14 row.timeMs.text ++
      (padRight 16 row.msgRate.text ++ padRight 22 row.aggBw.text))))

/-- The parameters of a run of the benchmark. -/
structure Run where
  nodes : ℕ
  rpn : ℕ
  tasks : ℕ
  gpu : ℕ
  gpuDevice : ℕ
  deriving DecidableEq

/-- The line that the job script prints before a run. -/
def Run.line (run : Run) : List Char :=
  "--- Run: NODES=".toList ++ (decimal run.nodes ++ (" RPN=".toList ++ (decimal run.rpn ++
    (" TASKS=".toList ++ (decimal run.tasks ++ (" GPU=".toList ++ (decimal run.gpu ++
      (" GPU_DEVICE=".toList ++ (decimal run.gpuDevice ++ " ---".toList)))))))))

/-- The header line of a benchmark. -/
def headerLine (mode : BenchMode) : List Char :=
  "# rdma ".toList ++ (mode.name ++ " benchmark".toList)

/-- The lines that a benchmark prints between its header and the rows. -/
inductive ParameterLine
  | parameters (iterations minShift maxShift peersPerRank : ℕ) (useGpu : Bool) (gpuDevice : ℕ)
  /-- The headings of the table. -/
  | headings

/-- The headings of the columns of a benchmark. -/
def headingLine (mode : BenchMode) : List Char :=
  let (ops, aggBw) :=
    match mode with
    | .read => ("reads", "agg_read_MB/s")
    | .write | .writedata => ("writes", "agg_write_MB/s")
  padRight 12 "bytes".toList ++ (padRight 14 "iters".toList ++ (padRight 14 ops.toList ++
    (padRight 14 "time_ms".toList ++ (padRight 16 "msg_rate_M/s".toList ++
      padRight 22 aggBw.toList))))

def ParameterLine.line (mode : BenchMode) : ParameterLine → List Char
  | .parameters iterations minShift maxShift peersPerRank useGpu gpuDevice =>
    "# iterations=".toList ++ (decimal iterations ++ (" min_shift=".toList ++ (decimal minShift ++
      (" max_shift=".toList ++ (decimal maxShift ++ (" peers_per_rank=".toList ++
        (decimal peersPerRank ++ (" memory=".toList ++
          ((if useGpu then "gpu" else "host").toList ++ (" gpu_device=".toList ++
            decimal gpuDevice))))))))))
  | .headings => headingLine mode

/-! ### The log -/

/-- The lines of one run. -/
structure RunBlock where
  run : Run
  /-- Whether the header line was not lost. -/
  header : Bool
  parameters : List ParameterLine
  rows : List TableRow

def RunBlock.lines (mode : BenchMode) (block : RunBlock) : List (List Char) :=
  block.run.line :: ((if block.header then [headerLine mode] else []) ++
    (block.parameters.map (ParameterLine.line mode) ++ block.rows.map TableRow.line))

/-- What the runs of a job write to its log. -/
def logText (mode : BenchMode) (blocks : List RunBlock) : List Char :=
  unlines (blocks.flatMap (RunBlock.lines mode))

/-- The first line of a log. -/
def startLine (mode : BenchMode) (nodes : ℕ) : List Char :=
  "=== Benchmark start: benchmark=".toList ++ (mode.name ++ (" nodes=".toList ++
    (decimal nodes ++ " ===".toList)))

/-- The last line of a log. -/
def endLine (mode : BenchMode) (nodes : ℕ) : List Char :=
  "=== Benchmark end: benchmark=".toList ++ (mode.name ++ (" nodes=".toList ++
    (decimal nodes ++ " ===".toList)))

/-- The log of a job. -/
def jobLogText (mode : BenchMode) (nodes : ℕ) (blocks : List RunBlock) : List Char :=
  unlines (startLine mode nodes :: (blocks.flatMap (RunBlock.lines mode) ++ [endLine mode nodes]))

/-- The name of the log, `slurm-%x-%j.out` with the name of the job, which ends in the number of
nodes, and its id. -/
def logFileName (mode : BenchMode) (gpuMode : Bool) (nodes jobId : ℕ) : List Char :=
  "slurm-lfb-".toList ++ (mode.name ++ ((if gpuMode then "-gpu" else "").toList ++ ("-N".toList ++
    (decimal nodes ++ ("-".toList ++ (decimal jobId ++ ".out".toList))))))

end LibFatbat
