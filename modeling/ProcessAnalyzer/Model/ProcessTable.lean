import ProcessAnalyzer.Model.Metrics
import ProcessAnalyzer.Model.Uthash

/-!
# `ProcessAnalyzer.Model.ProcessTable`: the accumulators in the memory

The functions of `code/process_stats/process_stats.c` that work on `g_process_table`, with the
table as the uthash table that it is (`ProcessAnalyzer.Model.Uthash`): the entries are blocks
that `calloc` allocates, `process_stats_print_metrics` fills in their averages in place, and
`process_stats_deinit` frees them all.

`ProcessAnalyzer.Model.ProcessStats` and `ProcessAnalyzer.Model.Metrics` have the same functions
on a list of entries. What is new here is the memory: an access to a block that is not allocated,
a write behind the end of an array, a double `free`, a loop over a table that loses its elements
and output to a null stream have no result.
-/

set_option autoImplicit false

namespace ProcessAnalyzer.Stats

open ProcessAnalyzer.Lib
open ProcessAnalyzer.Uthash (Memory UtHashTable)

/-- The hash function of the table. The key is the `pid` of the entry. -/
def pidHash (pid : Int32) : UInt32 := Uthash.hashJen (Uthash.intKey pid)

/-- The file-scope variables of `process_stats.c` with the memory behind `g_process_table`.
`prog_name` is empty for `NULL`. -/
structure StatsMemory where
  gProcessTable : Memory ProcessState := {}
  isModuleInitialized : Bool := false
  progName : Bytes := []
  gNumberOfSnapshots : UInt64 := 0
  hRInitialTimestamp : Bytes := []
  hRLastTimestamp : Bytes := []
  gClockTicksPerSecond : Int64 := 100
  gOnlineCpuCount : Int64 := 1
  json : JsonOutput := {}

/-- What a call of `process_stats_print_metrics` prints and writes. -/
structure MetricsOutput where
  console : List ConsoleBlock := []
  stderr : List Bytes := []
  metricsFile : Option (List JsonPiece) := none

/-- What the call on the list of the entries prints and writes. -/
def MetricsResult.output (r : MetricsResult) : MetricsOutput := ⟨r.console, r.stderr, r.metricsFile⟩

namespace StatsMemory

/-- The variables of the module, with the entries of its table as a list. -/
def withTable (s : StatsMemory) (table : List ProcessState) : StatsModule where
  gProcessTable := table
  isModuleInitialized := s.isModuleInitialized
  progName := s.progName
  gNumberOfSnapshots := s.gNumberOfSnapshots
  hRInitialTimestamp := s.hRInitialTimestamp
  hRLastTimestamp := s.hRLastTimestamp
  gClockTicksPerSecond := s.gClockTicksPerSecond
  gOnlineCpuCount := s.gOnlineCpuCount

/-- `process_stats_initialize`, with the answers of the two `sysconf` calls. -/
def processStatsInitialize (hz cpus : Int64) (prog : Bytes) (s : StatsMemory) : StatsMemory :=
  { s with
    gClockTicksPerSecond := if hz > 0 then hz else s.gClockTicksPerSecond
    gOnlineCpuCount := if cpus > 0 then cpus else s.gOnlineCpuCount
    isModuleInitialized := true
    progName := prog }

/-- `get_or_create_process`: the address of the entry, and the memory afterwards. The answer of
`calloc` is an address, or `none` without memory. -/
def getOrCreateProcess (calloc : Option ℕ) (m : Memory ProcessState) (input : ProcessStateInput) :
    Option (Option ℕ × Memory ProcessState) :=
  (Uthash.hashFind ProcessState.pid pidHash m input.pid).bind fun
    | some ps => some (some ps, m)
    | none =>
        match calloc with
        | none => some (none, m)
        | some ps =>
            let heap := Function.update m.heap ps (some { value := newProcess input })
            (Uthash.hashAdd ProcessState.pid pidHash { m with heap := heap } ps).map fun m =>
              (some ps, m)

/-- `process_stats_update`. -/
def processStatsUpdate (calloc : Option ℕ) (s : StatsMemory) (input : ProcessStateInput) :
    Option StatsMemory :=
  if s.isModuleInitialized then
    (getOrCreateProcess calloc s.gProcessTable input).bind fun found =>
      let m := found.2
      let s := { s with gProcessTable := m }
      let s :=
        if s.hRInitialTimestamp.length = 0 then
          { s with hRInitialTimestamp := input.hRTimestamp, hRLastTimestamp := input.hRTimestamp }
        else { s with hRLastTimestamp := input.hRTimestamp }
      match found.1 with
      | some ps =>
          (m.heap ps).map fun e =>
            let entry := updateEntry s.gClockTicksPerSecond s.gOnlineCpuCount input e.value
            { s with
              gProcessTable :=
                { m with heap := Function.update m.heap ps (some { e with value := entry }) } }
      | none => some s
  else some s

/-- `process_stats_snapshot_end`. -/
def processStatsSnapshotEnd (s : StatsMemory) : StatsMemory :=
  if s.isModuleInitialized then { s with gNumberOfSnapshots := s.gNumberOfSnapshots + 1 } else s

/-- `open_metrics_file`. The stream is assigned when `fopen` is called. -/
def openMetricsFile (config : Config) (env : MetricsEnv) (json : JsonOutput) :
    JsonOutput × List Bytes :=
  let opened := Stats.openMetricsFile config env
  if config.configGetMetricsJsonEnabled ∧ env.pathMallocOk then
    ({ json with pfJsonOutput := opened.1.pfJsonOutput }, opened.2)
  else (json, opened.2)

/-- The body of the `HASH_ITER` loop of `process_stats_print_metrics`, on the memory and the
entries of `arr` written so far. -/
def fillArr (args : MetricsArguments) (count : ℕ) (s : Memory ProcessState × List ℕ) (ps : ℕ) :
    Option (Memory ProcessState × List ℕ) :=
  if s.2.length < count then
    (s.1.heap ps).map fun e =>
      let entry := computeAverages args e.value
      ({ s.1 with heap := Function.update s.1.heap ps (some { e with value := entry }) },
        s.2 ++ [ps])
  else none

/-- `metrics_json_end`, for the two variables of the stream. -/
def closeJson (json : JsonOutput) : JsonOutput :=
  match json.pfJsonOutput with
  | some _ => {}
  | none => json

/-- `process_stats_print_metrics`. The blocks sort the pointers of `arr` and print what they point
to, which does not change any more, and so they are given the entries. -/
def processStatsPrintMetrics (qsort : Qsort) (config : Config) (env : MetricsEnv)
    (args : MetricsArguments) (intervalMs : UInt64) (s : StatsMemory) :
    Option (StatsMemory × MetricsOutput) :=
  if s.isModuleInitialized then do
    let count ← Uthash.hashCount s.gProcessTable
    if count = 0 ∨ env.arrMallocOk = false then some (s, {})
    else do
      let (json, stderr) := openMetricsFile config env s.json
      let json ← (metricsJsonBegin env (metaFields (s.withTable []) intervalMs) json).toOption
      let (m, arr) ← Uthash.hashIter Prod.fst (fillArr args count) (s.gProcessTable, [])
      let entries ← arr.mapM fun ps => (m.heap ps).map Uthash.Element.value
      let r := printOrder.foldl (metricBlock qsort config args) ⟨entries, [], json⟩
      some ({ s with gProcessTable := m, json := closeJson r.json },
        ⟨r.console, stderr, metricsJsonEnd r.json⟩)
  else some (s, {})

/-- The body of the loop of `process_stats_deinit`. `free` of a block that is not allocated is an
error. -/
def freeEntry (m : Memory ProcessState) (cur : ℕ) : Option (Memory ProcessState) := do
  let m ← Uthash.hashDelete m cur
  let _ ← m.heap cur
  some { m with heap := Function.update m.heap cur none }

/-- `process_stats_deinit`. -/
def processStatsDeinit (s : StatsMemory) : Option StatsMemory :=
  (Uthash.hashIter id freeEntry s.gProcessTable).map fun m =>
    { s with
      gProcessTable := { m with head := none }
      json := {}
      isModuleInitialized := false
      progName := []
      gNumberOfSnapshots := 0
      hRInitialTimestamp := []
      hRLastTimestamp := [] }

end StatsMemory

/-! ### Calls of the module -/

/-- A call of a function of the module. A sample comes with the answer of `calloc`, a report with
the outcomes of its library calls. -/
inductive StatsCall where
  | start (hz cpus : Int64) (prog : Bytes)
  | update (calloc : Option ℕ) (input : ProcessStateInput)
  | snapshotEnd
  | printMetrics (config : Config) (env : MetricsEnv) (args : MetricsArguments)
      (intervalMs : UInt64)
  | deinit

/-- One call, on the memory. -/
def StatsMemory.call (qsort : Qsort) (s : StatsMemory) : StatsCall → Option StatsMemory
  | .start hz cpus prog => some (s.processStatsInitialize hz cpus prog)
  | .update calloc input => s.processStatsUpdate calloc input
  | .snapshotEnd => some s.processStatsSnapshotEnd
  | .printMetrics config env args intervalMs =>
      (s.processStatsPrintMetrics qsort config env args intervalMs).map Prod.fst
  | .deinit => s.processStatsDeinit

/-- `process_stats_deinit`, on the list of the entries. -/
def processStatsDeinit (m : StatsModule) : StatsModule :=
  { m with
    gProcessTable := []
    isModuleInitialized := false
    progName := []
    gNumberOfSnapshots := 0
    hRInitialTimestamp := []
    hRLastTimestamp := [] }

/-- One call, on the list of the entries. There is no result when a report has no stream. -/
def StatsModule.call (qsort : Qsort) (m : StatsModule) : StatsCall → Option StatsModule
  | .start hz cpus prog => some (processStatsInitialize hz cpus prog m)
  | .update calloc input => some (processStatsUpdate calloc.isSome m input)
  | .snapshotEnd => some (processStatsSnapshotEnd m)
  | .printMetrics config env args intervalMs =>
      (processStatsPrintMetrics qsort config env args intervalMs m).toOption.map
        MetricsResult.module
  | .deinit => some (processStatsDeinit m)

end ProcessAnalyzer.Stats
