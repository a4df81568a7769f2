import Mathlib.Algebra.Order.Field.Rat
import ProcessAnalyzer.Lib.CText
import ProcessAnalyzer.Lib.Table

/-!
# `ProcessAnalyzer.Model.ProcessStats`: the per-process accumulators

The data model of `code/process_stats/process_stats.c`: the sample
`process_state_input_t` that the snapshot code hands over, the table entry
`process_state_t`, the file-scope variables of the module, and `process_stats_update` with
the functions it calls.

C types keep their width: `unsigned long`, `unsigned long long`, `size_t` and `uint64_t`
are `UInt64`, `long` and `int64_t` are `Int64`, `int` and `pid_t` are `Int32`. Arithmetic
on them wraps as the two's complement machine does. A `double` is an exact rational
number, and a `char` array is the C string in it. The record counters
(`number_of_records`, `cpu_usage_samples`, `num_of_rss_records`) are natural numbers: they
grow by one per call.

The uthash table is a list of entries in the order of `HASH_ADD_INT`, which is the order
in which `HASH_ITER` visits them (`ProcessAnalyzer.Lib.Table`).
-/

set_option autoImplicit false

namespace ProcessAnalyzer.Stats

open ProcessAnalyzer.Lib

/-- `process_state_input_t`: one sample of one process. -/
@[ext]
structure ProcessStateInput where
  pid : Int32
  comm : Bytes
  state : UInt8
  ppid : Int32
  utime : UInt64
  stime : UInt64
  rssKb : Int64
  timestamp : ℚ
  hRTimestamp : Bytes
  threads : Int32
  readKbytes : UInt64
  writeKbytes : UInt64
  boIsRssValid : Bool
  boIsIoValid : Bool
  numberOfFds : UInt64
  boIsFdValid : Bool
  deriving DecidableEq

/-- `process_state_t`: the table entry of one process. The default values are what
`calloc` leaves in it. `UT_hash_handle` is not part of the model. -/
structure ProcessState where
  /-- the key of the table -/
  pid : Int32 := 0
  comm : Bytes := []
  utime : UInt64 := 0
  stime : UInt64 := 0
  rssKb : Int64 := 0
  threads : Int32 := 0
  state : UInt8 := 0
  totalReadKbytes : UInt64 := 0
  totalWriteKbytes : UInt64 := 0
  prevCpuTicks : UInt64 := 0
  prevRssKb : Int64 := 0
  prevTimestamp : ℚ := 0
  initialNumOfFds : UInt64 := 0
  fdDelta : Int64 := 0
  currentNumOfFds : UInt64 := 0
  boIsFdInitialized : Bool := false
  numberOfRecords : ℕ := 0
  cpuUsage : ℚ := 0
  averageCpuUsage : ℚ := 0
  cpuUsageSum : ℚ := 0
  cpuUsageSamples : ℕ := 0
  rssInitialKb : Int64 := 0
  rssAverageKb : Int64 := 0
  rssSum : Int64 := 0
  rssVariationSinceStartup : Int64 := 0
  boIsRssInitialized : Bool := false
  numOfRssRecords : ℕ := 0
  prevReadKbytes : UInt64 := 0
  prevWriteKbytes : UInt64 := 0
  avgReadRateKbS : ℚ := 0
  avgWriteRateKbS : ℚ := 0
  ioTimeAcc : ℚ := 0
  boIsIoInitialized : Bool := false
  seenInSnapshot : Bool := false
  deriving DecidableEq

/-- The file-scope variables of `process_stats.c` that survive between calls. The metrics
stream `pfJsonOutput` and the flag `boIsFirstJsonMetric` are open only inside
`process_stats_print_metrics` and are part of its model. -/
structure StatsModule where
  gProcessTable : List ProcessState := []
  isModuleInitialized : Bool := false
  progName : Bytes := []
  gNumberOfSnapshots : UInt64 := 0
  hRInitialTimestamp : Bytes := []
  hRLastTimestamp : Bytes := []
  gClockTicksPerSecond : Int64 := 100
  gOnlineCpuCount : Int64 := 1

/-- `process_stats_initialize`, with the answers of the two `sysconf` calls. -/
def processStatsInitialize (hz cpus : Int64) (prog : Bytes) (m : StatsModule) : StatsModule :=
  { m with
    gClockTicksPerSecond := if hz > 0 then hz else m.gClockTicksPerSecond
    gOnlineCpuCount := if cpus > 0 then cpus else m.gOnlineCpuCount
    isModuleInitialized := true
    progName := prog }

/-- The entry that `get_or_create_process` fills in before it adds it to the table. -/
def newProcess (input : ProcessStateInput) : ProcessState :=
  { pid := input.pid
    utime := input.utime
    stime := input.stime
    rssKb := input.rssKb
    threads := input.threads
    prevCpuTicks := input.utime + input.stime
    prevRssKb := input.rssKb
    state := input.state }

/-- `get_or_create_process`: the entry of the sample's process and the table that holds
it, or `none` when the entry is new and `calloc` fails. -/
def getOrCreateProcess (callocOk : Bool) (table : List ProcessState) (input : ProcessStateInput) :
    Option (ProcessState × List ProcessState) :=
  match Table.find? ProcessState.pid table input.pid with
  | some ps => some (ps, table)
  | none => if callocOk then some (newProcess input, table ++ [newProcess input]) else none

/-- `compute_cpu_usage`. The first argument pair are the two global divisors. -/
def computeCpuUsage (hz cpus : Int64) (prevTicks currTicks : UInt64) (prevTs currTs : ℚ) : ℚ :=
  let deltaTicks : ℚ := (currTicks - prevTicks).toNat
  let deltaTime := currTs - prevTs
  if deltaTime ≤ 0 then 0
  else deltaTicks / (hz.toInt : ℚ) / deltaTime / (cpus.toInt : ℚ) * 100

/-- `calculate_io_data`. -/
def calculateIoData (input : ProcessStateInput) (ps : ProcessState) : ProcessState :=
  if input.boIsIoValid then
    -- the first valid sample is the baseline
    if ps.boIsIoInitialized = false then
      { ps with
        prevReadKbytes := input.readKbytes
        prevWriteKbytes := input.writeKbytes
        boIsIoInitialized := true }
    else
      let dt := input.timestamp - ps.prevTimestamp
      if dt ≤ 0 then ps
      else
        -- a counter that went down counts as unchanged
        let readDelta :=
          if input.readKbytes ≥ ps.prevReadKbytes then input.readKbytes - ps.prevReadKbytes else 0
        let writeDelta :=
          if input.writeKbytes ≥ ps.prevWriteKbytes then input.writeKbytes - ps.prevWriteKbytes
          else 0
        { ps with
          totalReadKbytes := ps.totalReadKbytes + readDelta
          totalWriteKbytes := ps.totalWriteKbytes + writeDelta
          ioTimeAcc := ps.ioTimeAcc + dt
          prevReadKbytes := input.readKbytes
          prevWriteKbytes := input.writeKbytes }
  else ps

/-- `calculate_rss_data`. The baseline is assigned first, so the variation of the first
valid sample is zero. -/
def calculateRssData (input : ProcessStateInput) (ps : ProcessState) : ProcessState :=
  if input.boIsRssValid then
    let ps :=
      if ps.boIsRssInitialized = false then
        { ps with rssInitialKb := input.rssKb, boIsRssInitialized := true }
      else ps
    { ps with
      prevRssKb := input.rssKb
      rssKb := input.rssKb
      rssSum := ps.rssSum + input.rssKb
      rssVariationSinceStartup := input.rssKb - ps.rssInitialKb
      numOfRssRecords := ps.numOfRssRecords + 1 }
  else ps

/-- `calculate_fds_delta`. The delta is an unsigned difference stored in a `long`. -/
def calculateFdsDelta (input : ProcessStateInput) (ps : ProcessState) : ProcessState :=
  if input.boIsFdValid then
    let ps := { ps with currentNumOfFds := input.numberOfFds }
    if ps.boIsFdInitialized = false then
      { ps with initialNumOfFds := input.numberOfFds, boIsFdInitialized := true }
    else
      { ps with fdDelta := (input.numberOfFds - ps.initialNumOfFds).toInt64 }
  else ps

/-- The CPU part of `process_stats_update`: `cpu_usage` and its running sum. -/
def calculateCpuData (hz cpus : Int64) (input : ProcessStateInput) (ps : ProcessState) :
    ProcessState :=
  let currTicks := input.utime + input.stime
  let prevTicks := ps.prevCpuTicks
  let ps := { ps with cpuUsage := 0 }
  -- the first sample of a process has no interval, and ticks that went down are dropped
  if ps.numberOfRecords > 0 ∧ currTicks ≥ prevTicks ∧ input.timestamp - ps.prevTimestamp > 0 then
    let usage := computeCpuUsage hz cpus prevTicks currTicks ps.prevTimestamp input.timestamp
    { ps with
      cpuUsage := usage
      cpuUsageSum := ps.cpuUsageSum + usage
      cpuUsageSamples := ps.cpuUsageSamples + 1 }
  else ps

/-- What `process_stats_update` does to the entry of the sample's process, in the order of
the source. `prev_timestamp` is assigned after `calculate_io_data` has read it. -/
def updateEntry (hz cpus : Int64) (input : ProcessStateInput) (ps : ProcessState) : ProcessState :=
  let ps := calculateCpuData hz cpus input ps
  let ps :=
    { ps with
      prevCpuTicks := input.utime + input.stime
      utime := input.utime
      stime := input.stime
      threads := input.threads
      comm := input.comm }
  let ps := calculateFdsDelta input ps
  let ps := calculateRssData input ps
  let ps := calculateIoData input ps
  { ps with
    prevTimestamp := input.timestamp
    seenInSnapshot := true
    numberOfRecords := ps.numberOfRecords + 1 }

/-- `process_stats_update`. The human-readable timestamps are kept even when `calloc`
fails. -/
def processStatsUpdate (callocOk : Bool) (m : StatsModule) (input : ProcessStateInput) :
    StatsModule :=
  if m.isModuleInitialized then
    let found := getOrCreateProcess callocOk m.gProcessTable input
    let m :=
      if m.hRInitialTimestamp.length = 0 then
        { m with hRInitialTimestamp := input.hRTimestamp, hRLastTimestamp := input.hRTimestamp }
      else { m with hRLastTimestamp := input.hRTimestamp }
    match found with
    | some (_, table) =>
        { m with
          gProcessTable := Table.modify ProcessState.pid table input.pid
            (updateEntry m.gClockTicksPerSecond m.gOnlineCpuCount input) }
    -- without memory for a new entry the sample is lost
    | none => m
  else m

/-- `process_stats_snapshot_end`. The sweep over unseen processes is compiled out. -/
def processStatsSnapshotEnd (m : StatsModule) : StatsModule :=
  if m.isModuleInitialized then { m with gNumberOfSnapshots := m.gNumberOfSnapshots + 1 } else m

/-- A sequence of `process_stats_update` calls in which every `calloc` succeeds. -/
def updateAll (m : StatsModule) (inputs : List ProcessStateInput) : StatsModule :=
  inputs.foldl (processStatsUpdate true) m

/-- The module after `process_stats_initialize`, before the first sample. -/
def initializedModule (hz cpus : Int64) (prog : Bytes) : StatsModule :=
  processStatsInitialize hz cpus prog {}

end ProcessAnalyzer.Stats
