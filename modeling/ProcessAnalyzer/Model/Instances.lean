import ProcessAnalyzer.Model.CompressionWorker
import ProcessAnalyzer.Model.Snapshot

/-!
# `ProcessAnalyzer.Model.Instances`: several instances on one directory

Instances of the program run side by side and share a directory and the `flock` locks on
their lock files. An instance is `main` of `code/process_analyzer.c` with the calls that
touch files: the deletion for `-j`, `acquire_lock`, the `fopen` calls, the rotations and
writes of the snapshots, `process_snapshot_deinit` and `compression_worker_shutdown`, and
beside it the compression worker. Every call is one step, and the steps of all instances
interleave.

What the files hold plays no role for the calls, except for the size of an active file. A
directory here only says which files exist, and the answer of `stat` comes from the outside,
as do the other answers of `CallEnv`. Writes succeed. The end of a process closes its files
and so gives its lock back.
-/

set_option autoImplicit false

namespace ProcessAnalyzer

open ProcessAnalyzer.Lib

/-! ### State -/

/-- How an instance is started: its configuration, and whether `-j` is given. -/
structure Setup where
  config : Config
  deleteOldFiles : Bool

/-- Where the main thread of an instance is. -/
inductive InstancePc where
  /-- at `process_snapshot_delete_old_files`, which is skipped without `-j` -/
  | start
  /-- at `readdir` in `process_snapshot_delete_old_files` -/
  | deleting
  /-- at the beginning of `process_snapshot_initialize` -/
  | preparing
  /-- at `acquire_lock` -/
  | locking
  /-- at the part of `process_snapshot_initialize` for one output, with `retVal` so far -/
  | opening (b : LogBase) (retVal : Bool)
  /-- at `compression_worker_init` and `getTimeFd` -/
  | starting
  /-- in the timer loop, between two snapshots -/
  | waiting
  /-- at the part of `handle_rotations` for one output -/
  | checking (b : LogBase)
  /-- in `rotate_and_reopen`, behind its `fclose` -/
  | rotating (b : LogBase)
  /-- in `collect_snapshot`, at its next output -/
  | writing
  /-- at the `fflush` for one output in `flush_output_files` -/
  | flushing (b : LogBase)
  /-- at the beginning of `process_snapshot_deinit` -/
  | unlocking
  /-- at the `fclose` for one output in `process_snapshot_deinit` -/
  | closing (b : LogBase)
  /-- at `pthread_join` in `compression_worker_shutdown` -/
  | joining
  /-- at `return -1` of `main` -/
  | failing
  /-- ended, because `acquire_lock` failed -/
  | refused
  /-- ended in another way -/
  | ended
  deriving DecidableEq

/-- One instance: its main thread, whether `g_lock_fd` is open, the unwritten text of its
output streams (`none` is the null pointer), and what it shares with its worker. `rotation`
is the place in `rotate_logs`. -/
structure Instance where
  pc : InstancePc := .start
  lockFd : Bool := false
  streams : LogBase → Option Bytes := fun _ => none
  rotationCounter : UInt32 := 0
  jobs : List Bytes := []
  rotation : MainPc := .idle
  worker : WorkerPc := .idle

/-- What the next call of the main thread gets from the outside. -/
structure CallEnv where
  /-- the call succeeds -/
  ok : Bool := true
  /-- a failed `opendir` sets `errno` to `ENOENT` -/
  enoent : Bool := false
  /-- `flock` fails although the lock is free -/
  flockError : Option Bytes := none
  /-- what `readdir` returns -/
  entry : Option Bytes := none
  /-- the loop of `main` ends -/
  stop : Bool := false
  /-- the active file has reached its largest size -/
  tooLarge : Bool := false
  /-- `time(NULL)` -/
  now : Int64 := 0
  /-- `malloc` in `compression_enqueue_file` succeeds -/
  mallocOk : Bool := true
  /-- the next text that `collect_snapshot` prints, if any is left -/
  text : Option (LogBase × Bytes) := none
  deriving DecidableEq

/-- What one instance sees: the files, the locks and itself. -/
structure World (ι : Type) where
  dir : Dir Bytes Unit
  locks : Dir Bytes ι
  self : Instance

/-! ### Streams -/

namespace Instance

/-- The instance with another stream. -/
def withStream (p : Instance) (b : LogBase) (s : Option Bytes) : Instance :=
  { p with streams := Function.update p.streams b s }

/-- `fprintf` to a stream: whole blocks go to the file. -/
def write (config : Config) (b : LogBase) (text : Bytes) (p : Instance) :
    Instance × List FileOp :=
  match p.streams b with
  | none => (p, [])
  | some pending =>
      let all := pending ++ text
      let blocks := all.length / outputStreamBufferSize * outputStreamBufferSize
      (p.withStream b (some (all.drop blocks)),
        if blocks = 0 then [] else [.append (b.path config)])

/-- `fflush` of a stream. -/
def fflush (config : Config) (b : LogBase) (p : Instance) : Instance × List FileOp :=
  match p.streams b with
  | none => (p, [])
  | some [] => (p, [])
  | some (_ :: _) => (p.withStream b (some []), [.append (b.path config)])

/-- `fclose` of a stream. -/
def fclose (config : Config) (b : LogBase) (p : Instance) : Instance × List FileOp :=
  let (p, ops) := p.fflush config b
  (p.withStream b none, ops)

end Instance

/-! ### The main thread -/

/-- The test of `process_snapshot_delete_old_files` on a name. -/
def isOldFile (name : Bytes) : Bool :=
  configLogFile.isPrefixOf name || configJsonFile.isPrefixOf name

/-- The path in `deletefilePath`, cut to its buffer of 512 bytes. -/
def deleteFilePath (config : Config) (name : Bytes) : Bytes :=
  (config.configGetOutputDir ++ ascii "/" ++ name).take 511

/-- The next call after the one for an output in `process_snapshot_initialize`. -/
def afterOpening (b : LogBase) (retVal : Bool) : InstancePc :=
  match b with
  | .log => .opening .jsonl retVal
  | .jsonl => if retVal then .starting else .failing

/-- The next call after the rotation check of an output. -/
def afterChecking : LogBase → InstancePc
  | .log => .checking .jsonl
  | .jsonl => .writing

section Main
variable {ι : Type} (setup : Setup) (i : ι) (env : CallEnv)

/-- The world with another instance. -/
def World.withSelf (w : World ι) (p : Instance) : World ι := { w with self := p }

/-- The world with the main thread at another place. -/
def World.goto (w : World ι) (pc : InstancePc) : World ι := w.withSelf { w.self with pc := pc }

/-- `process_snapshot_delete_old_files`, one entry of the directory. -/
def deleteOldFile (name : Bytes) (w : World ι) : World ι × List FileOp :=
  if isOldFile name then
    let path := deleteFilePath setup.config name
    if (w.dir path).isSome then ({ w with dir := w.dir.unlink path }, [.unlink path])
    -- `unlink` fails, and `main` returns -1
    else (w.goto .failing, [])
  else (w, [])

/-- What `open` and `flock` answer in `acquire_lock`. -/
def lockAnswer (w : World ι) : LockAnswer :=
  if env.ok then
    match w.locks (lockPath setup.config), env.flockError with
    -- `LOCK_NB`: another instance holds the lock
    | some _, _ => .wouldBlock
    | none, some strerror => .flockFailed strerror
    | none, none => .locked
  else .openFailed

/-- `acquire_lock`. -/
def acquireLockCall (w : World ι) : World ι × List FileOp :=
  let r := acquireLock setup.config (lockAnswer setup env w) () w.dir
  let w := { w with dir := r.dir }
  if r.status = .success then
    ({ w with locks := w.locks.store (lockPath setup.config) i }.withSelf
      { w.self with lockFd := true, pc := .opening .log true }, r.ops)
  else (w.goto .refused, r.ops)

/-- `flock(g_lock_fd, LOCK_UN)` and `close`, or the end of the process. -/
def releaseLock (pc : InstancePc) (w : World ι) : World ι :=
  if w.self.lockFd then
    { w with locks := w.locks.unlink (lockPath setup.config) }.withSelf
      { w.self with lockFd := false, pc := pc }
  else w.goto pc

/-- What `rotate_logs` works on. -/
def World.threads (w : World ι) : Threads Unit where
  dir := w.dir
  rotationCounter := w.self.rotationCounter
  jobs := w.self.jobs
  main := w.self.rotation
  worker := w.self.worker

/-- The world after a call of `rotate_logs` or of the worker. -/
def World.withThreads (w : World ι) (t : Threads Unit) : World ι where
  dir := t.dir
  locks := w.locks
  self := { w.self with
    rotationCounter := t.rotationCounter
    jobs := t.jobs
    rotation := t.main
    worker := t.worker }

/-- `fopen` of an output in the mode `"a"`. -/
def openStream (b : LogBase) (w : World ι) : World ι × List FileOp :=
  let (d, ops) := fopenCall w.dir (b.path setup.config) ()
  ({ w with dir := d }.withSelf (w.self.withStream b (some [])), ops)

/-- The next call of `rotate_and_reopen`. -/
def rotateAndReopenCall (b : LogBase) (w : World ι) : Option (World ι × List FileOp) :=
  match w.self.rotation with
  | .reopen =>
      let w := w.withSelf { w.self with rotation := .idle, pc := afterChecking b }
      -- the stream stays closed when `fopen` fails
      some (if env.ok then openStream setup b w else (w, []))
  | _ =>
      (rotationCall setup.config.configGetCompressionEnabled (b.path setup.config)
        setup.config.configGetMaxNumberOfFiles.toInt env.now env.mallocOk w.threads).map
        fun r => (w.withThreads r.1, r.2)

/-- The next call of the main thread. -/
def mainCall (w : World ι) : Option (World ι × List FileOp) :=
  match w.self.pc with
  | .start =>
      if setup.deleteOldFiles then
        if env.ok then some (w.goto .deleting, [])
        -- a missing directory has nothing to delete
        else some (w.goto (if env.enoent then .preparing else .failing), [])
      else some (w.goto .preparing, [])
  | .deleting =>
      match env.entry with
      | some name => some (deleteOldFile setup name w)
      | none => some (w.goto .preparing, [])
  | .preparing =>
      if env.ok then
        if setup.config.configGetRawLogEnabled = false
            ∧ setup.config.configGetRawJsonlEnabled = false then
          -- no raw output at all: the lock is not taken
          some (w.goto .starting, [])
        else some (w.goto .locking, [])
      else some (w.goto .failing, [])
  | .locking => some (acquireLockCall setup i env w)
  | .opening b retVal =>
      if b.enabled setup.config then
        -- the result of the last `fopen` is what counts
        if env.ok then some (openStream setup b (w.goto (afterOpening b true)))
        else some (w.goto (afterOpening b false), [])
      else some (w.goto (afterOpening b retVal), [])
  | .starting => some (w.goto (if env.ok then .waiting else .unlocking), [])
  | .waiting => some (w.goto (if env.stop then .unlocking else .checking .log), [])
  | .checking b =>
      if b.enabled setup.config ∧ env.tooLarge then
        let (p, ops) := w.self.fclose setup.config b
        -- `rotate_and_reopen` closes the stream first
        some (w.withSelf { p with pc := .rotating b, rotation := .unlinkGz }, ops)
      else some (w.goto (afterChecking b), [])
  | .rotating b => rotateAndReopenCall setup env b w
  | .writing =>
      match env.text with
      | some (b, text) =>
          let (p, ops) := w.self.write setup.config b text
          some (w.withSelf p, ops)
      | none => some (w.goto (.flushing .log), [])
  | .flushing b =>
      let (p, ops) := w.self.fflush setup.config b
      some (w.withSelf { p with pc := if b = .log then .flushing .jsonl else .waiting }, ops)
  -- `process_snapshot_deinit` unlocks before it closes the streams
  | .unlocking => some (releaseLock setup (.closing .log) w, [])
  | .closing b =>
      let (p, ops) := w.self.fclose setup.config b
      some (w.withSelf { p with pc := if b = .log then .closing .jsonl else .joining }, ops)
  | .joining =>
      if setup.config.configGetCompressionEnabled then
        -- the worker empties the queue before it ends
        if w.self.jobs = [] ∧ w.self.worker = .idle then some (w.goto .ended, []) else none
      else some (w.goto .ended, [])
  | .failing => some (releaseLock setup .ended w, [])
  | .refused => none
  | .ended => none

/-- The next call of the worker. -/
def workerThreadCall (w : World ι) : Option (World ι × List FileOp) :=
  (workerCall id w.threads).map fun r => (w.withThreads r.1, r.2)

end Main

/-! ### All instances -/

/-- A file operation of an instance, with the holder of its lock file at that moment. -/
structure FileEvent (ι : Type) where
  actor : ι
  op : FileOp
  holder : Option ι
  deriving DecidableEq

/-- The state of all instances. `trace` is not a variable of the program: it collects the
file operations, the latest one first. -/
structure System (ι : Type) where
  dir : Dir Bytes Unit
  locks : Dir Bytes ι := fun _ => none
  instances : ι → Instance := fun _ => {}
  trace : List (FileEvent ι) := []

/-- The two threads of an instance. -/
inductive InstanceAct where
  | main (env : CallEnv)
  | worker
  deriving DecidableEq

section System
variable {ι : Type} [DecidableEq ι] (setup : ι → Setup)

/-- What an instance sees of the system. -/
def System.world (s : System ι) (i : ι) : World ι := ⟨s.dir, s.locks, s.instances i⟩

/-- One call of an instance. -/
def instanceCall (i : ι) (a : InstanceAct) (w : World ι) : Option (World ι × List FileOp) :=
  match a with
  | .main env => mainCall (setup i) i env w
  | .worker => workerThreadCall w

/-- One step of the system: a call of one instance. -/
def systemStep (s : System ι) (a : ι × InstanceAct) : Option (System ι) :=
  (instanceCall setup a.1 a.2 (s.world a.1)).map fun r =>
    { dir := r.1.dir
      locks := r.1.locks
      instances := Function.update s.instances a.1 r.1.self
      trace := (r.2.map fun op => ⟨a.1, op, s.locks (lockPath (setup a.1).config)⟩) ++ s.trace }

end System

end ProcessAnalyzer
