import ProcessAnalyzer.Model.ConfigFile
import ProcessAnalyzer.Model.MainLoop
import ProcessAnalyzer.Model.OldFiles

/-!
# `ProcessAnalyzer.Model.Program`: `main`

`main` of `code/process_analyzer.c` from its first line to its last: the configuration, the
arguments, the deletion for `-j`, the start, the timer loop, the end and the report.

The program starts with empty static variables, so a run depends on the output directory and on
the answers of the system only. A run can also stop in the middle: it may be waiting for the
timer when the answers are used up, and the report may end it.

The worker thread of the compression is not part of this model: `rotate_logs` leaves its jobs in
the queue. Nor are the texts that `main` prints for a reader alone, which are the banner, the
usage, the version and the filters.
-/

set_option autoImplicit false

namespace ProcessAnalyzer

open ProcessAnalyzer.Lib ProcessAnalyzer.Stats

/-- What a run reads from the outside. -/
structure MainEnv where
  config : ConfigEnv
  alloc : FilterAlloc
  /-- the command line, as `getopt_long` returns it -/
  options : List ApOption
  /-- `argv[0]` -/
  progName : Bytes
  /-- `sysconf(_SC_CLK_TCK)` -/
  clockTicks : Int64
  /-- `sysconf(_SC_NPROCESSORS_ONLN)` -/
  onlineCpus : Int64
  delete : DeleteEnv
  init : InitEnv
  timerCreateOk : Bool
  timerSettimeOk : Bool
  wakes : List Wake
  envs : List SnapshotEnv
  qsort : Qsort
  metrics : MetricsEnv

/-- How a run ends. -/
inductive MainEnd where
  | returned (code : Int)
  /-- the program is in the loop, in front of a `read` that has no answer -/
  | waiting
  /-- the report has called `fprintf` with a null stream -/
  | fault (f : Fault)
  deriving DecidableEq

/-- What a run leaves behind. -/
structure MainResult where
  ending : MainEnd
  output : Output
  stats : StatsModule
  report : Option MetricsResult := none

/-- The output with two more texts on the standard streams. -/
def Output.print (o : Output) (stdout stderr : Bytes) : Output :=
  { o with stdout := o.stdout ++ stdout, stderr := o.stderr ++ stderr }

/-- The line that `ap_parse_args` prints to `stderr` for a refused argument. -/
def ParseArgsError.stderr : ParseArgsError → Bytes
  | .invalid text => text
  | _ => []

/-- What `main` prints when the loop ends early. -/
def LoopEnd.print (e : LoopEnd) (o : Output) : Output :=
  match e with
  | .interrupted => o.print (ascii "\nProgram interrupted by user (CTRL+C) or terminated\n") []
  | .readError => o.print [] (ascii "failed to read expirations!")
  | .countReached | .blocked => o

/-- The deletion for `-j` on the files of the output. -/
def deleteForOption (config : Config) (env : DeleteEnv) (o : Output) :
    ProcessSnapshotStatus × Output :=
  let (s, status) :=
    processSnapshotDeleteOldFiles config env fun path => (o.rotation.dir path).map fun _ => ()
  let left := fun path => if (s.dir path).isSome then o.rotation.dir path else none
  (status, (o.withDir left).print s.stdout.flatten s.stderr.flatten)

/-- `main` behind the start: the timer, the loop, the end and the report. -/
def mainRun (env : MainEnv) (config : Config) (args : ApArguments) (stats : StatsModule)
    (o : Output) : MainResult :=
  match getTimeFd env.timerCreateOk env.timerSettimeOk args.intervalMs with
  | .error text => ⟨.returned (-1), processSnapshotDeinit config (o.print [] text), stats, none⟩
  | .ok _ =>
      match mainLoop config args env.wakes ⟨o, stats, env.envs⟩ with
      | (.blocked, s) => ⟨.waiting, s.output, s.stats, none⟩
      | (loopEnd, s) =>
          let o := processSnapshotDeinit config (loopEnd.print s.output)
          match processStatsPrintMetrics env.qsort config env.metrics args.endMetricsArgs
              args.intervalMs s.stats with
          | .error f => ⟨.fault f, o, s.stats, none⟩
          | .ok report => ⟨.returned 0, o, report.module, some report⟩

/-- `main` behind the deletion: the start. -/
def mainStart (env : MainEnv) (config : Config) (args : ApArguments) (stats : StatsModule)
    (o : Output) : MainResult :=
  match processSnapshotInitialize config env.init o with
  | (.success, o) => mainRun env config args stats o
  | (_, o) => ⟨.returned (-1), o, stats, none⟩

/-- `main` behind the arguments: the deletion for `-j`, which can end the run. -/
def mainDelete (env : MainEnv) (config : Config) (args : ApArguments) (stats : StatsModule)
    (o : Output) : MainResult :=
  if args.deleteOldFiles then
    match deleteForOption config env.delete o with
    | (.success, o) => mainStart env config args stats o
    | (_, o) => ⟨.returned (-1), o, stats, none⟩
  else mainStart env config args stats o

/-- The files behind `config_init`. -/
def ConfigResult.filesLeft (r : ConfigResult) (d : Dir Bytes Bytes) : Dir Bytes Bytes :=
  match r.dummyFile with
  | some path => d.unlink path
  | none => d

/-- `main`. The argument is what the output directory has at the start. -/
def main (env : MainEnv) (d : Dir Bytes Bytes) : MainResult :=
  let r := configInit env.config
  let o := Output.print { rotation := { dir := r.filesLeft d } } r.stdout r.stderr
  if r.status ≠ .success then ⟨.returned (-1), o, {}, none⟩
  else
    match apParseArgs r.config env.alloc env.options with
    | .error e => ⟨.returned (-1), o.print [] e.stderr, {}, none⟩
    | .ok (args, keepsStats) =>
        let stats :=
          if keepsStats then processStatsInitialize env.clockTicks env.onlineCpus env.progName {}
          else {}
        mainDelete env r.config args stats o

end ProcessAnalyzer
