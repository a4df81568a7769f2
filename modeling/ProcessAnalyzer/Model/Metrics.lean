import ProcessAnalyzer.Lib.CTime
import ProcessAnalyzer.Lib.Ranking
import ProcessAnalyzer.Model.Config
import ProcessAnalyzer.Model.ProcessStats

/-!
# `ProcessAnalyzer.Model.Metrics`: the end-of-run report

`process_stats_print_metrics` of `code/process_stats/process_stats.c` with the functions
it calls: the averages, the eleven comparators, the descriptor table `g_metrics`, the
console blocks and the writers of `metrics.json`.

The eleven blocks of the source differ in the flag and the limit they read, the
comparator, the column they print and the descriptor they pass on. `Metric` names them in
the order of `t_metrics`, each of these choices is a function on `Metric`, and
`metricBlock` is the common body. `printOrder` is the order of the blocks in the source,
which is not the order of the enumeration.

The console report is kept as data (a title, a column name and one record per row), and
the text of `metrics.json` as the sequence of pieces that the `fprintf` calls write: the
literal parts of the format, and each converted argument with its value.

A write through a null stream ends the run with `Fault.nullStream`. `qsort` is a
parameter (`Lib.Qsort`), and so are the outcomes of the two allocations, of `fopen` and of
`gethostname` (`MetricsEnv`).
-/

set_option autoImplicit false

namespace ProcessAnalyzer.Stats

open ProcessAnalyzer.Lib

/-! ### Arguments and metrics -/

/-- `process_stats_metrics_arguments`. -/
structure MetricsArguments where
  cpuAverageRequested : Bool := false
  cpuAveragePidsToDisplay : Int32 := 0
  rssAverageRequested : Bool := false
  rssAveragePidsToDisplay : Int32 := 0
  rssIncreaseRequested : Bool := false
  rssIncreasePidsToDisplay : Int32 := 0
  rssDeltaRequested : Bool := false
  rssDeltaPidsToDisplay : Int32 := 0
  bytesReadRequested : Bool := false
  bytesReadPidsToDisplay : Int32 := 0
  bytesWriteRequested : Bool := false
  bytesWritePidsToDisplay : Int32 := 0
  readRateRequested : Bool := false
  readRatePidsToDisplay : Int32 := 0
  writeRateRequested : Bool := false
  writeRatePidsToDisplay : Int32 := 0
  fdsIncreaseRequested : Bool := false
  fdsIncreasePidsToDisplay : Int32 := 0
  openedFdsRequested : Bool := false
  openedFdsPidsToDisplay : Int32 := 0
  fdsDeltaRequested : Bool := false
  fdsDeltaPidsToDisplay : Int32 := 0
  deriving DecidableEq

/-- `t_metrics`. -/
inductive Metric where
  | avgCpu
  | avgRss
  | rssIncr
  | rssDelta
  | bytesRead
  | readRate
  | writtenBytes
  | writeRate
  | fdsIncrease
  | noOfFds
  | fdsDelta
  deriving DecidableEq, Repr

/-- The metrics in the order in which `process_stats_print_metrics` handles them. -/
def printOrder : List Metric :=
  [.avgCpu, .avgRss, .rssIncr, .rssDelta, .bytesRead, .writtenBytes, .readRate, .writeRate,
    .fdsIncrease, .noOfFds, .fdsDelta]

/-- The flag that a block tests. -/
def MetricsArguments.requested (args : MetricsArguments) : Metric → Bool
  | .avgCpu => args.cpuAverageRequested
  | .avgRss => args.rssAverageRequested
  | .rssIncr => args.rssIncreaseRequested
  | .rssDelta => args.rssDeltaRequested
  | .bytesRead => args.bytesReadRequested
  | .readRate => args.readRateRequested
  | .writtenBytes => args.bytesWriteRequested
  | .writeRate => args.writeRateRequested
  | .fdsIncrease => args.fdsIncreaseRequested
  | .noOfFds => args.openedFdsRequested
  | .fdsDelta => args.fdsDeltaRequested

/-- The limit that a block reads. -/
def MetricsArguments.pidsToDisplay (args : MetricsArguments) : Metric → Int32
  | .avgCpu => args.cpuAveragePidsToDisplay
  | .avgRss => args.rssAveragePidsToDisplay
  | .rssIncr => args.rssIncreasePidsToDisplay
  | .rssDelta => args.rssDeltaPidsToDisplay
  | .bytesRead => args.bytesReadPidsToDisplay
  | .readRate => args.readRatePidsToDisplay
  | .writtenBytes => args.bytesWritePidsToDisplay
  | .writeRate => args.writeRatePidsToDisplay
  | .fdsIncrease => args.fdsIncreasePidsToDisplay
  | .noOfFds => args.openedFdsPidsToDisplay
  | .fdsDelta => args.fdsDeltaPidsToDisplay

/-! ### Comparators -/

/-- `cmp_average_cpu`. -/
def cmpAverageCpu : ProcessState → ProcessState → Int := compareDesc (·.averageCpuUsage)

/-- `cmp_average_rss`. -/
def cmpAverageRss : ProcessState → ProcessState → Int := compareDesc (·.rssAverageKb)

/-- `cmp_rss_variation`. -/
def cmpRssVariation : ProcessState → ProcessState → Int :=
  compareDesc (·.rssVariationSinceStartup)

/-- `cmp_rss_delta`: by `labs`, which wraps at `LONG_MIN`. -/
def cmpRssDelta : ProcessState → ProcessState → Int :=
  compareDesc (·.rssVariationSinceStartup.abs)

/-- `compare_total_read_kbytes`. -/
def compareTotalReadKbytes : ProcessState → ProcessState → Int := compareDesc (·.totalReadKbytes)

/-- `compare_total_write_kbytes`. -/
def compareTotalWriteKbytes : ProcessState → ProcessState → Int :=
  compareDesc (·.totalWriteKbytes)

/-- `compare_avg_read_rate`. -/
def compareAvgReadRate : ProcessState → ProcessState → Int := compareDesc (·.avgReadRateKbS)

/-- `compare_avg_write_rate`. -/
def compareAvgWriteRate : ProcessState → ProcessState → Int := compareDesc (·.avgWriteRateKbS)

/-- `compare_fd_increase`. -/
def compareFdIncrease : ProcessState → ProcessState → Int := compareDesc (·.fdDelta)

/-- `compare_opened_fd`. -/
def compareOpenedFd : ProcessState → ProcessState → Int := compareDesc (·.currentNumOfFds)

/-- `compare_fd_delta`: by `labs`, which wraps at `LONG_MIN`. -/
def compareFdDelta : ProcessState → ProcessState → Int := compareDesc (·.fdDelta.abs)

/-- The comparator that a block passes to `qsort`. -/
def Metric.comparator : Metric → ProcessState → ProcessState → Int
  | .avgCpu => cmpAverageCpu
  | .avgRss => cmpAverageRss
  | .rssIncr => cmpRssVariation
  | .rssDelta => cmpRssDelta
  | .bytesRead => compareTotalReadKbytes
  | .readRate => compareAvgReadRate
  | .writtenBytes => compareTotalWriteKbytes
  | .writeRate => compareAvgWriteRate
  | .fdsIncrease => compareFdIncrease
  | .noOfFds => compareOpenedFd
  | .fdsDelta => compareFdDelta

/-! ### Values and descriptors -/

/-- A printed value: `%.2f`, `%ld` (and `%lld`) or `%lu` (and `%llu`). -/
inductive MetricValue where
  | real (value : ℚ)
  | signed (value : Int64)
  | unsigned (value : UInt64)
  deriving DecidableEq

/-- The value that a console row prints, with the field's own format. -/
def Metric.consoleValue (ps : ProcessState) : Metric → MetricValue
  | .avgCpu => .real ps.averageCpuUsage
  | .avgRss => .signed ps.rssAverageKb
  | .rssIncr => .signed ps.rssVariationSinceStartup
  | .rssDelta => .signed ps.rssVariationSinceStartup
  | .bytesRead => .unsigned ps.totalReadKbytes
  | .readRate => .real ps.avgReadRateKbS
  | .writtenBytes => .unsigned ps.totalWriteKbytes
  | .writeRate => .real ps.avgWriteRateKbS
  | .fdsIncrease => .signed ps.fdDelta
  | .noOfFds => .unsigned ps.currentNumOfFds
  | .fdsDelta => .signed ps.fdDelta

/-- `get_avg_cpu`. -/
def getAvgCpu (ps : ProcessState) : ℚ := ps.averageCpuUsage

/-- `get_avg_rss`. -/
def getAvgRss (ps : ProcessState) : Int64 := ps.rssAverageKb

/-- `get_rss_increase`. -/
def getRssIncrease (ps : ProcessState) : Int64 := ps.rssVariationSinceStartup

/-- `get_total_read`: the unsigned total returned as `int64_t`. -/
def getTotalRead (ps : ProcessState) : Int64 := ps.totalReadKbytes.toInt64

/-- `get_avg_read_rate`. -/
def getAvgReadRate (ps : ProcessState) : ℚ := ps.avgReadRateKbS

/-- `get_total_write`: the unsigned total returned as `int64_t`. -/
def getTotalWrite (ps : ProcessState) : Int64 := ps.totalWriteKbytes.toInt64

/-- `get_avg_write_rate`. -/
def getAvgWriteRate (ps : ProcessState) : ℚ := ps.avgWriteRateKbS

/-- `get_rss_delta`. -/
def getRssDelta (ps : ProcessState) : Int64 := ps.rssVariationSinceStartup

/-- `get_fds_delta`: the `long` field returned as `int32_t`. -/
def getFdsDelta (ps : ProcessState) : Int32 := ps.fdDelta.toInt32

/-- `get_opened_fds`: the unsigned count returned as `int64_t`. -/
def getOpenedFds (ps : ProcessState) : Int64 := ps.currentNumOfFds.toInt64

/-- `metric_value_type_t` together with the getter of that type. -/
inductive MetricGetter where
  | double (get : ProcessState → ℚ)
  | int32 (get : ProcessState → Int32)
  | int64 (get : ProcessState → Int64)

/-- `metric_desc_t`. -/
structure MetricDesc where
  jsonKey : String
  valueKey : String
  getter : MetricGetter

/-- `g_metrics`, indexed by the enumeration. -/
def gMetrics : Metric → MetricDesc
  | .avgCpu => ⟨"cpu_average", "cpu_avg_pct", .double getAvgCpu⟩
  | .avgRss => ⟨"rss_average", "rss_avg_kb", .int64 getAvgRss⟩
  | .rssIncr => ⟨"rss_increase", "rss_incr_kb", .int64 getRssIncrease⟩
  | .rssDelta => ⟨"rss_delta", "rss_delta_kb", .int64 getRssDelta⟩
  | .bytesRead => ⟨"kbytes_read", "bytes_read_kb", .int64 getTotalRead⟩
  | .readRate => ⟨"read_rate", "read_rate_kbps", .double getAvgReadRate⟩
  | .writtenBytes => ⟨"written_kbytes", "written_bytes_kb", .int64 getTotalWrite⟩
  | .writeRate => ⟨"write_rate", "write_rate_kbps", .double getAvgWriteRate⟩
  | .fdsIncrease => ⟨"fds_increase", "no_of_fds_increase", .int32 getFdsDelta⟩
  | .noOfFds => ⟨"opened_fds", "no_of_opened_fds", .int64 getOpenedFds⟩
  | .fdsDelta => ⟨"fds_delta", "fds_delta", .int32 getFdsDelta⟩

/-! ### Console blocks -/

/-- One row of a console block. The name is cut to 20 bytes by `%-20.20s`. -/
structure ConsoleRow where
  pid : Int32
  comm : Bytes
  state : UInt8
  value : MetricValue
  threads : Int32
  records : ℕ
  deriving DecidableEq

/-- One block of the console report: `"\nTop <n> <title>"`, the header line with the
column `column`, and the rows. -/
structure ConsoleBlock where
  title : String
  n : ℕ
  column : String
  rows : List ConsoleRow
  deriving DecidableEq

/-- The text after `Top <n>` in the title line of a block. -/
def Metric.title : Metric → String
  | .avgCpu => "processes by average CPU usage:"
  | .avgRss => "processes by average RSS (KB):"
  | .rssIncr => "processes by RSS increase since startup (KB):"
  | .rssDelta => "processes by RSS delta since startup (KB):"
  | .bytesRead => "processes by bytes read from disk (KB):"
  | .readRate => "processes by disk read rate (KB/s):"
  | .writtenBytes => "processes by bytes written to disk (KB):"
  | .writeRate => "processes by disk write rate (KB/s):"
  | .fdsIncrease => "processes by new file descriptors:"
  | .noOfFds => "processes by currently opened file descriptors:"
  | .fdsDelta => "processes by file descriptors delta"

/-- The name of the value column of a block. -/
def Metric.column : Metric → String
  | .avgCpu => "AVG CPU%"
  | .avgRss => "AVG RSS (KB)"
  | .rssIncr => "RSS increase (KB)"
  | .rssDelta => "RSS delta (KB)"
  | .bytesRead => "Bytes read (KB)"
  | .readRate => "RR(KB/s)"
  | .writtenBytes => "Bytes written (KB)"
  | .writeRate => "WR(KB/s)"
  | .fdsIncrease => "NEW FDs"
  | .noOfFds => "FDs"
  | .fdsDelta => "Delta FDs"

/-- The row that the `printf` in the loop of a block writes for one process. -/
def consoleRow (m : Metric) (ps : ProcessState) : ConsoleRow where
  pid := ps.pid
  comm := ps.comm.take 20
  state := ps.state
  value := m.consoleValue ps
  threads := ps.threads
  records := ps.numberOfRecords

/-- The console output of a block: the first `n` entries of the sorted array. -/
def consoleBlock (m : Metric) (arr : List ProcessState) (n : ℕ) : ConsoleBlock where
  title := m.title
  n := n
  column := m.column
  rows := (arr.take n).map (consoleRow m)

/-! ### The writers of `metrics.json` -/

/-- What one conversion or one literal part of a format string writes. -/
inductive JsonPiece where
  | text (s : String)
  | str (s : Bytes)
  | chr (c : UInt8)
  | int (z : Int)
  | real (q : ℚ) (decimals : ℕ)
  deriving DecidableEq

/-- The run ends here: `fprintf` was called with a null stream. -/
inductive Fault where
  | nullStream
  deriving DecidableEq

/-- `pfJsonOutput` with the text written so far (`none` is the null pointer) and
`boIsFirstJsonMetric`. -/
structure JsonOutput where
  pfJsonOutput : Option (List JsonPiece) := none
  boIsFirstJsonMetric : Bool := true
  deriving DecidableEq

/-- The outcomes of the library calls that `process_stats_print_metrics` makes. -/
structure MetricsEnv where
  /-- `malloc` of the pointer array succeeds -/
  arrMallocOk : Bool
  /-- `malloc` of the path in `open_metrics_file` succeeds -/
  pathMallocOk : Bool
  /-- `fopen` in `open_metrics_file` succeeds -/
  fopenOk : Bool
  /-- `get_hostname_alloc`: the host name, or `none` for the null pointer -/
  hostname : Option Bytes
  deriving DecidableEq

/-- `open_metrics_file`: the stream afterwards and what is printed to `stderr`. -/
def openMetricsFile (config : Config) (env : MetricsEnv) : JsonOutput × List Bytes :=
  if config.configGetMetricsJsonEnabled then
    if env.pathMallocOk = false then
      ({}, [ascii "process_stats_initialize: failed to allocate memory for openfilePath!\n"])
    else
      let openfilePath := config.configGetOutputDir ++ ascii "/" ++ configMetricsJson
      if env.fopenOk then ({ pfJsonOutput := some [] }, [])
      else ({}, [ascii "process_stats_initialize: failed to open " ++ openfilePath ++ ascii "\n"])
  else ({}, [])

/-- The arguments of `metrics_json_begin`. -/
structure MetaFields where
  snapshotCount : UInt64
  intervalMs : UInt32
  version : Bytes
  startTimeIso : Bytes
  endTimeIso : Bytes
  progName : Bytes
  durationSec : ℚ

/-- The header that `metrics_json_begin` writes. -/
def headerPieces (env : MetricsEnv) (f : MetaFields) : List JsonPiece :=
  [.text "\x7b\n\t\"meta\": \x7b\n\t\t\"tool\": \"", .str f.progName,
    .text "\",\n\t\t\"version\": \"", .str f.version,
    .text "\",\n\t\t\"schema_version\": \"", .str (ascii "1.0"),
    .text "\",\n\t\t\"hostname\": \"", .str (env.hostname.getD (ascii "unknown")),
    .text "\",\n\t\t\"interval_ms\": ", .int f.intervalMs.toNat,
    .text ",\n\t\t\"start_time\": \"", .str f.startTimeIso,
    .text "\",\n\t\t\"end_time\": \"", .str f.endTimeIso,
    .text "\",\n\t\t\"duration_sec\": ", .real f.durationSec 3,
    .text ",\n\t\t\"snapshots\": ", .int f.snapshotCount.toNat,
    .text "\n\t\x7d,\n\t\"metrics\": \x7b\n"]

/-- `metrics_json_begin`. There is no test of the stream in front of its `fprintf`. -/
def metricsJsonBegin (env : MetricsEnv) (f : MetaFields) (out : JsonOutput) :
    Except Fault JsonOutput :=
  match out.pfJsonOutput with
  | none => .error .nullStream
  | some written => .ok
      { boIsFirstJsonMetric := true, pfJsonOutput := some (written ++ headerPieces env f) }

/-- The value line of one object in `write_metric_block_json`. -/
def valuePieces (m : MetricDesc) (ps : ProcessState) : List JsonPiece :=
  let head := [.text "\t\t\t\"", .text m.valueKey, .text "\": "]
  match m.getter with
  | .double get => head ++ [.real (get ps) 2, .text ",\n"]
  | .int64 get => head ++ [.int (get ps).toInt, .text ",\n"]
  | .int32 get => head ++ [.int (get ps).toInt, .text ",\n"]

/-- One object of the array that `write_metric_block_json` writes. `last` is the outcome
of the test that leaves the comma out. -/
def processPieces (m : MetricDesc) (last : Bool) (ps : ProcessState) : List JsonPiece :=
  [.text "\t\t\t\x7b\n\t\t\t\"pid\": ", .int ps.pid.toInt, .text ",\n\t\t\t\"comm\": \"",
      .str ps.comm, .text "\",\n\t\t\t\"state\": \"", .chr ps.state, .text "\",\n"]
    ++ valuePieces m ps
    ++ [.text "\t\t\t\"threads\": ", .int ps.threads.toInt, .text ",\n\t\t\t\"records\": ",
      .int ps.numberOfRecords, .text "\n\t\t\t\x7d", .text (if last then "" else ","), .text "\n"]

/-- The loop of `write_metric_block_json` over `arr[0] .. arr[n - 1]`. -/
def processLoop (m : MetricDesc) : List ProcessState → List JsonPiece
  | [] => []
  | ps :: rest => processPieces m rest.isEmpty ps ++ processLoop m rest

/-- What `write_metric_block_json` writes between the separator and the end of the array. -/
def metricBlockPieces (m : MetricDesc) (rows : List ProcessState) : List JsonPiece :=
  [.text "\t\t\"", .text m.jsonKey, .text "\":[\n"] ++ processLoop m rows ++ [.text "\t\t]"]

/-- `write_metric_block_json`. A null stream is skipped. -/
def writeMetricBlockJson (m : MetricDesc) (arr : List ProcessState) (n : ℕ) (out : JsonOutput) :
    JsonOutput :=
  match out.pfJsonOutput with
  | none => out
  | some written =>
      let separator : List JsonPiece := if out.boIsFirstJsonMetric then [] else [.text ",\n"]
      { boIsFirstJsonMetric := false
        pfJsonOutput := some (written ++ separator ++ metricBlockPieces m (arr.take n)) }

/-- The end of the file, as `metrics_json_end` writes it. -/
def footerPieces : List JsonPiece := [.text "\n\t\x7d\n\x7d\n"]

/-- `metrics_json_end`: the complete text of the file that is closed, or `none` when there
is no file. -/
def metricsJsonEnd (out : JsonOutput) : Option (List JsonPiece) :=
  out.pfJsonOutput.map (· ++ footerPieces)

/-! ### The duration in the header -/

/-- `parse_timestamp_to_double`. -/
def parseTimestampToDouble (ts : Bytes) : ℚ :=
  match strptimeDateTime ts with
  | none => -1
  | some tm =>
      let seconds : ℚ := timegm tm
      match ts.dropWhile (· ≠ 46) with
      | [] => seconds
      | _ :: ms => seconds + (atoiDigits ms : ℚ) / 1000

/-- `get_snapshot_duration`. -/
def getSnapshotDuration (hRInitialTimestamp hRLastTimestamp : Bytes) : ℚ :=
  let startTime := parseTimestampToDouble hRInitialTimestamp
  let endTime := parseTimestampToDouble hRLastTimestamp
  if startTime > 0 ∧ endTime > 0 ∧ endTime ≥ startTime then endTime - startTime else 0

/-! ### The report -/

/-- The body of the `HASH_ITER` loop: the averages that were requested, for one entry. The
quotient of `rss_average_kb` is unsigned, because the number of records is. -/
def computeAverages (args : MetricsArguments) (ps : ProcessState) : ProcessState :=
  let ps :=
    if args.cpuAverageRequested ∧ ps.cpuUsageSamples ≠ 0 then
      { ps with averageCpuUsage := ps.cpuUsageSum / ps.cpuUsageSamples }
    else ps
  let ps :=
    if args.rssAverageRequested ∧ ps.numOfRssRecords ≠ 0 then
      { ps with
        rssAverageKb := (UInt64.ofNat (ps.rssSum.toUInt64.toNat / ps.numOfRssRecords)).toInt64 }
    else ps
  let ps :=
    if args.readRateRequested ∧ ps.ioTimeAcc ≠ 0 then
      { ps with avgReadRateKbS := ps.totalReadKbytes.toNat / ps.ioTimeAcc }
    else ps
  if args.writeRateRequested ∧ ps.ioTimeAcc ≠ 0 then
    { ps with avgWriteRateKbS := ps.totalWriteKbytes.toNat / ps.ioTimeAcc }
  else ps

/-- The number of rows of a block: `limit < count ? limit : count`. -/
def rowCount (limit : Int32) (count : ℕ) : ℕ :=
  if limit.toInt < count then limit.toInt.toNat else count

/-- The pointer array, the console blocks printed so far and the JSON stream. -/
structure Report where
  arr : List ProcessState
  console : List ConsoleBlock
  json : JsonOutput

/-- One of the eleven blocks of `process_stats_print_metrics`: sort the array again, print
its first rows to the console and to `metrics.json`. -/
def metricBlock (qsort : Qsort) (config : Config) (args : MetricsArguments) (r : Report)
    (m : Metric) : Report :=
  if args.requested m then
    let arr := qsort.sort m.comparator r.arr
    let n := rowCount (args.pidsToDisplay m) arr.length
    { arr := arr
      console :=
        if config.configGetMetricsConsoleEnabled then r.console ++ [consoleBlock m arr n]
        else r.console
      json := writeMetricBlockJson (gMetrics m) arr n r.json }
  else r

/-- What a call of `process_stats_print_metrics` leaves behind: the console blocks, the
messages on `stderr`, the text of `metrics.json` (when there is one) and the module with
the averages filled in. -/
structure MetricsResult where
  console : List ConsoleBlock
  stderr : List Bytes
  metricsFile : Option (List JsonPiece)
  module : StatsModule

/-- The header fields that `process_stats_print_metrics` passes to `metrics_json_begin`.
`interval_ms` is a 64-bit argument passed to a 32-bit parameter. -/
def metaFields (m : StatsModule) (intervalMs : UInt64) : MetaFields where
  snapshotCount := m.gNumberOfSnapshots
  intervalMs := intervalMs.toUInt32
  version := ascii "process_analyzer V1.3"
  startTimeIso := m.hRInitialTimestamp
  endTimeIso := m.hRLastTimestamp
  progName := m.progName
  durationSec := getSnapshotDuration m.hRInitialTimestamp m.hRLastTimestamp

/-- `process_stats_print_metrics`. -/
def processStatsPrintMetrics (qsort : Qsort) (config : Config) (env : MetricsEnv)
    (args : MetricsArguments) (intervalMs : UInt64) (m : StatsModule) :
    Except Fault MetricsResult :=
  if m.isModuleInitialized = false ∨ m.gProcessTable.length = 0 ∨ env.arrMallocOk = false then
    .ok ⟨[], [], none, m⟩
  else do
    let (out, stderr) := openMetricsFile config env
    let out ← metricsJsonBegin env (metaFields m intervalMs) out
    let table := m.gProcessTable.map (computeAverages args)
    let r := printOrder.foldl (metricBlock qsort config args) ⟨table, [], out⟩
    return ⟨r.console, stderr, metricsJsonEnd r.json, { m with gProcessTable := table }⟩

end ProcessAnalyzer.Stats
