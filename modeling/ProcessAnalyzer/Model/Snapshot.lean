import ProcessAnalyzer.Model.ArgsParser
import ProcessAnalyzer.Model.LogFiles
import ProcessAnalyzer.Model.ProcReader

/-!
# `ProcessAnalyzer.Model.Snapshot`: one snapshot and its output

`collect_snapshot` of `code/process_snapshot/process_snapshot.c` with everything it calls:
the rotation check, the timestamp, the loop over `/proc` with the filters, the text line,
the JSONL line, and the flush at the end.

An open output stream is its unwritten buffer. What the buffer cannot hold goes to the
file in whole blocks, and `fflush` writes the rest. A stream belongs to the file behind the
active path: `rotate_and_reopen` closes it before that path is renamed.
-/

set_option autoImplicit false

namespace ProcessAnalyzer

open ProcessAnalyzer.Lib ProcessAnalyzer.Stats

/-! ### Output streams -/

/-- The output side of the program: the files with the rotation state, the streams
`PSN_pfOutputFile` and `PSN_pfOutputJsonlFile` (`none` is the null pointer), and the two
standard streams. -/
structure Output where
  rotation : Rotation Bytes
  streams : LogBase → Option Bytes := fun _ => none
  stdout : Bytes := []
  stderr : Bytes := []

/-- `OUTPUT_STREAM_BUFFER_SIZE`. -/
def outputStreamBufferSize : ℕ := 64 * 1024

/-- The file grows by the text. A stream whose file has lost its name writes to no name. -/
def appendFile (d : Dir Bytes Bytes) (path text : Bytes) : Dir Bytes Bytes :=
  match d path with
  | some content => d.store path (content ++ text)
  | none => d

namespace Output

/-- The output with another directory. -/
def withDir (o : Output) (d : Dir Bytes Bytes) : Output :=
  { o with rotation := { o.rotation with dir := d } }

/-- The output with another stream. -/
def withStream (o : Output) (b : LogBase) (s : Option Bytes) : Output :=
  { o with streams := Function.update o.streams b s }

/-- `fprintf` to an output stream. A null stream is skipped, as all callers do. -/
def write (config : Config) (b : LogBase) (text : Bytes) (o : Output) : Output :=
  match o.streams b with
  | none => o
  | some pending =>
      let all := pending ++ text
      -- whole blocks go to the file, the rest stays in the buffer
      let blocks := all.length / outputStreamBufferSize * outputStreamBufferSize
      (o.withDir (appendFile o.rotation.dir (b.path config) (all.take blocks))).withStream b
        (some (all.drop blocks))

/-- `fflush` of an output stream. -/
def fflush (config : Config) (b : LogBase) (o : Output) : Output :=
  match o.streams b with
  | none => o
  | some pending =>
      (o.withDir (appendFile o.rotation.dir (b.path config) pending)).withStream b (some [])

/-- `fflush`, `fclose` and the null pointer. -/
def fclose (config : Config) (b : LogBase) (o : Output) : Output :=
  (o.fflush config b).withStream b none

/-- A successful `fopen(path, "a")`, which creates a missing file. -/
def fopenAppend (config : Config) (b : LogBase) (o : Output) : Output :=
  let d := o.rotation.dir
  let d := if d (b.path config) = none then d.store (b.path config) [] else d
  (o.withDir d).withStream b (some [])

/-- `log_data`. -/
def logData (config : Config) (text : Bytes) (o : Output) : Output :=
  let o := if config.configGetRawConsoleEnabled then { o with stdout := o.stdout ++ text } else o
  o.write config .log text

/-- `flush_output_files`. -/
def flushOutputFiles (config : Config) (o : Output) : Output :=
  (o.fflush config .log).fflush config .jsonl

end Output

/-! ### The outside of a snapshot -/

/-- `struct tm` and the milliseconds of the wall clock. -/
structure WallClock where
  tmYear : Int
  tmMon : Int
  tmMday : Int
  tmHour : Int
  tmMin : Int
  tmSec : Int
  millis : Int

/-- One entry of `/proc`: `d_name`, and whether `d_type` is `DT_DIR`. -/
structure DirEntry where
  dName : Bytes
  isDir : Bool

/-- What one call of `collect_snapshot` reads from the outside. -/
structure SnapshotEnv where
  entries : List DirEntry
  files : ProcFiles
  /-- the bytes behind the line in the buffer of `read_proc_stat` -/
  stale : Int32 → Bytes
  /-- the uninitialised `process_data` -/
  garbage : ProcessStateInput
  /-- `getpid()` -/
  selfPid : Int32
  wallClock : WallClock
  monotonic : ℚ
  /-- `time(NULL)` in `rotate_logs` -/
  now : LogBase → Int64
  /-- `malloc` in `compression_enqueue_file` succeeds -/
  jobMallocOk : LogBase → Bool
  /-- `fopen` after a rotation succeeds -/
  reopenOk : LogBase → Bool
  /-- `calloc` in `process_stats_update` succeeds for a new process -/
  callocOk : Int32 → Bool
  /-- the page size that `initialize_page_size_kb` has stored -/
  pageSizeKb : Int64

/-! ### Rotation -/

/-- `get_file_size`. -/
def getFileSize (d : Dir Bytes Bytes) (path : Bytes) : Int :=
  match d path with
  | none => -1
  | some content => content.length

/-- `rotate_and_reopen`. -/
def rotateAndReopen (config : Config) (env : SnapshotEnv) (b : LogBase) (o : Output) : Output :=
  let path := b.path config
  let o := o.fclose config b
  let o := { o with rotation := rotateLogs config path (env.now b) (env.jobMallocOk b) o.rotation }
  -- the stream stays closed when the new file cannot be opened
  if env.reopenOk b then o.fopenAppend config b
  else { o with stderr := o.stderr ++ ascii "fopen failed after rotate on " ++ path }

/-- The part of `handle_rotations` for one output. -/
def handleRotation (config : Config) (env : SnapshotEnv) (b : LogBase) (o : Output) : Output :=
  if b.enabled config then
    if getFileSize o.rotation.dir (b.path config) ≥ config.configGetMaxFileSizeBytes.toInt then
      rotateAndReopen config env b o
    else o
  else o

/-- `handle_rotations`. -/
def handleRotations (config : Config) (env : SnapshotEnv) (o : Output) : Output :=
  handleRotation config env .jsonl (handleRotation config env .log o)

/-! ### Texts -/

/-- The text of `print_timestamp`, cut to the buffer of 64 bytes. -/
def hRTimestampText (c : WallClock) : Bytes :=
  (decIntPad 4 (c.tmYear + 1900) ++ ascii "-" ++ decIntPad 2 (c.tmMon + 1) ++ ascii "-"
    ++ decIntPad 2 c.tmMday ++ ascii " " ++ decIntPad 2 c.tmHour ++ ascii ":"
    ++ decIntPad 2 c.tmMin ++ ascii ":" ++ decIntPad 2 c.tmSec ++ ascii "."
    ++ decIntPad 3 c.millis).take 63

/-- The number of descriptors as the outputs print it. -/
def printedFds (p : ProcessStateInput) : Int :=
  if p.boIsFdValid then p.numberOfFds.toInt64.toInt else -1

/-- The line that `collect_snapshot` logs for a process. -/
def logLine (p : ProcessStateInput) : Bytes :=
  ascii "PID=" ++ decInt p.pid.toInt ++ ascii " COMM=" ++ p.comm ++ ascii " STATE=" ++ [p.state]
    ++ ascii " PPID=" ++ decInt p.ppid.toInt ++ ascii " UTIME=" ++ decNat p.utime.toNat
    ++ ascii " STIME=" ++ decNat p.stime.toNat ++ ascii " RSS(KB)=" ++ decInt p.rssKb.toInt
    ++ ascii " IOR(KB)=" ++ decInt p.readKbytes.toInt64.toInt
    ++ ascii " IOW(KB)=" ++ decInt p.writeKbytes.toInt64.toInt
    ++ ascii " THREADS=" ++ decInt p.threads.toInt ++ ascii " FD=" ++ decInt (printedFds p)
    ++ ascii "\n"

/-- The line that `write_output_to_json` writes for a process. -/
def jsonLine (p : ProcessStateInput) : Bytes :=
  ascii "\x7b\"timestamp\":\"" ++ p.hRTimestamp ++ ascii "\",\"pid\":" ++ decInt p.pid.toInt
    ++ ascii ",\"comm\":\"" ++ p.comm ++ ascii "\",\"state\":\"" ++ [p.state]
    ++ ascii "\",\"ppid\":" ++ decInt p.ppid.toInt ++ ascii ",\"utime\":" ++ decNat p.utime.toNat
    ++ ascii ",\"stime\":" ++ decNat p.stime.toNat ++ ascii ",\"rss_kb\":" ++ decInt p.rssKb.toInt
    ++ ascii ",\"io_read_kb\":" ++ decInt p.readKbytes.toInt64.toInt
    ++ ascii ",\"io_write_kb\":" ++ decInt p.writeKbytes.toInt64.toInt
    ++ ascii ",\"threads\":" ++ decInt p.threads.toInt
    ++ ascii ",\"fds\":" ++ decInt (printedFds p) ++ ascii "\x7d\n"

/-! ### Filters -/

/-- `is_pid_in_filter`. -/
def isPidInFilter (pid : Int32) (w : ApPidWhitelist) : Bool := w.filterPids.contains pid

/-- `is_comm_in_filter`. -/
def isCommInFilter (comm : Bytes) (w : ApPidWhitelist) : Bool :=
  if comm = [] then false else w.filterComms.contains comm

/-- `is_filtering_enabled`. -/
def isFilteringEnabled (w : ApPidWhitelist) : Bool :=
  if w.filterComms.length = 0 ∧ w.filterPids.length = 0 then false else true

/-! ### `collect_snapshot` -/

/-- The variables of the loop over `/proc`: the reused record, the output and the
statistics. -/
structure SnapshotLoop where
  processData : ProcessStateInput
  output : Output
  stats : StatsModule

/-- What the loop does with a process that is recorded. -/
def recordProcess (config : Config) (env : SnapshotEnv) (p : ProcessStateInput)
    (s : SnapshotLoop) : SnapshotLoop :=
  let p := readFd env.files p
  let o := s.output.logData config (logLine p)
  let stats := processStatsUpdate (env.callocOk p.pid) s.stats p
  { processData := p, output := o.write config .jsonl (jsonLine p), stats := stats }

/-- The body of the loop over `/proc`. -/
def snapshotEntry (config : Config) (env : SnapshotEnv) (w : ApPidWhitelist) (s : SnapshotLoop)
    (de : DirEntry) : SnapshotLoop :=
  if de.isDir = false then s
  else if isNumeric de.dName = false then s
  else
    let p := { s.processData with pid := atoi de.dName }
    if config.configGetIncludeSelf = false ∧ p.pid = env.selfPid then
      -- the analyzer leaves itself out before it reads anything
      { s with processData := p }
    else
      match readProcStat env.files (env.stale p.pid) env.pageSizeKb p.pid p with
      -- the process is gone, or its line cannot be parsed
      | (p, false) => { s with processData := p }
      | (p, true) =>
          if isFilteringEnabled w = true ∧ isCommInFilter p.comm w = false
              ∧ isPidInFilter p.pid w = false then
            -- with filters, a process that no filter names is left out
            { s with processData := p }
          else recordProcess config env p s

/-- `collect_snapshot`. -/
def collectSnapshot (config : Config) (env : SnapshotEnv) (w : ApPidWhitelist) (o : Output)
    (stats : StatsModule) : Output × StatsModule :=
  let o := handleRotations config env o
  let text := hRTimestampText env.wallClock
  -- the record is one local variable, reused for every process
  let p := { env.garbage with timestamp := env.monotonic, hRTimestamp := text }
  let o := o.logData config (ascii "[" ++ text ++ ascii "] ")
  let o := o.logData config (ascii " SNAPSHOT START ################# \n")
  let s := env.entries.foldl (snapshotEntry config env w) ⟨p, o, stats⟩
  let o := s.output.logData config (ascii "SNAPSHOT END ################# \n")
  (o.flushOutputFiles config, processStatsSnapshotEnd s.stats)

/-- A sequence of calls of `collect_snapshot`. -/
def collectSnapshots (config : Config) (w : ApPidWhitelist) (envs : List SnapshotEnv)
    (s : Output × StatsModule) : Output × StatsModule :=
  envs.foldl (fun s env => collectSnapshot config env w s.1 s.2) s

/-! ### `process_snapshot_initialize` and `process_snapshot_deinit` -/

/-- `process_snapshot_status`. -/
inductive ProcessSnapshotStatus where
  | success
  | error
  | aquireLockFailed
  deriving DecidableEq

/-- What `open` and `flock` answer in `acquire_lock`. -/
inductive LockAnswer where
  | openFailed
  /-- `EWOULDBLOCK`: another instance holds the lock -/
  | wouldBlock
  /-- another error of `flock`, as `perror` prints it -/
  | flockFailed (strerror : Bytes)
  | locked
  deriving DecidableEq

/-- What `acquire_lock` does: its result, the files with the calls that changed them, and what
it prints. -/
structure LockResult (β : Type) where
  status : ProcessSnapshotStatus
  dir : Dir Bytes β
  ops : List FileOp := []
  stdout : Bytes := []
  stderr : Bytes := []

/-- `acquire_lock` on files of any content. The `open` creates the lock file where there is
none, also when the lock is refused after it. -/
def acquireLock {β : Type} (config : Config) (answer : LockAnswer) (empty : β)
    (d : Dir Bytes β) : LockResult β :=
  let (opened, ops) := fopenCall d (lockPath config) empty
  match answer with
  | .openFailed =>
      { status := .aquireLockFailed
        dir := d
        stdout := ascii "acquire_lock: failed to open lock file\n" }
  | .wouldBlock =>
      { status := .aquireLockFailed
        dir := opened
        ops := ops
        stdout := ascii "acquire_lock: process_analyzer is already running\n" }
  | .flockFailed strerror =>
      { status := .aquireLockFailed
        dir := opened
        ops := ops
        stderr := ascii "flock: " ++ strerror ++ ascii "\n" }
  | .locked => { status := .success, dir := opened, ops := ops }

/-- The outcomes of the calls in `process_snapshot_initialize`. -/
structure InitEnv where
  /-- `opendir("/proc")` succeeds -/
  procDirOk : Bool
  lock : LockAnswer
  /-- `fopen` of an output succeeds -/
  fopenOk : LogBase → Bool

/-- The part of `process_snapshot_initialize` that opens one output. -/
def openOutput (config : Config) (env : InitEnv) (b : LogBase) (message : Bytes)
    (r : ProcessSnapshotStatus × Output) : ProcessSnapshotStatus × Output :=
  if b.enabled config then
    if env.fopenOk b then (.success, r.2.fopenAppend config b)
    else (.error, { r.2 with stderr := r.2.stderr ++ message })
  else r

/-- The output behind `acquire_lock`. -/
def Output.lock (config : Config) (answer : LockAnswer) (o : Output) : Output :=
  let r := acquireLock config answer [] o.rotation.dir
  { o.withDir r.dir with stdout := o.stdout ++ r.stdout, stderr := o.stderr ++ r.stderr }

/-- `process_snapshot_initialize`. The lock itself is not part of the output: the model of
several instances has it. -/
def processSnapshotInitialize (config : Config) (env : InitEnv) (o : Output) :
    ProcessSnapshotStatus × Output :=
  if env.procDirOk = false then
    (.error, { o with stderr := o.stderr ++ ascii "failed to open /proc" })
  else if config.configGetRawLogEnabled = false ∧ config.configGetRawJsonlEnabled = false then
    -- without raw outputs there is nothing to lock or open
    (.success, o)
  else if env.lock ≠ .locked then (.aquireLockFailed, o.lock config env.lock)
  else
    openOutput config env .jsonl
      (ascii "process_snapshot_initialize: Failed to open jsonl output file!\n")
      (openOutput config env .log
        (ascii "process_snapshot_initialize: Failed to open output file!\n")
        (.success, o.lock config env.lock))

/-- `process_snapshot_deinit`: the streams that are open are closed. -/
def processSnapshotDeinit (config : Config) (o : Output) : Output :=
  (o.fclose config .log).fclose config .jsonl

end ProcessAnalyzer
