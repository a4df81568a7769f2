import ProcessAnalyzer.Lib.CScan
import ProcessAnalyzer.Lib.Run
import ProcessAnalyzer.Model.LogFiles

/-!
# `ProcessAnalyzer.Model.CompressionWorker`: rotations and the compression thread

Two threads work on the files of the output directory: the main thread, which rotates them
in `rotate_and_reopen`, and the worker of `code/compression/compression_worker.c`. Here both
are transition systems. Every system call on a file is one step, so that the steps of
several threads can interleave in every possible way. A critical section under `job_mutex`
is one step as well.

* `rotationCall`: the steps of `rotate_logs`. These are the two `unlink` calls, the `rename`
  calls of the loop with their fallback, the `rename` of the active file and the enqueueing.
* `workerCall`: the steps of `compression_thread_func`. The worker takes a job from the
  queue, compresses it, renames the result and removes the original.
* `compressionStep`: one output with compression. Between the rotations the main thread
  appends to the active file.

`rename` and `unlink` fail only when their source is missing, and so does a compression. A
step also returns the calls that changed a file (`FileOp`). The content of a compressed file
is given by what it decompresses to (`FileData`).
-/

set_option autoImplicit false

namespace ProcessAnalyzer

open ProcessAnalyzer.Lib

/-! ### Paths of the worker -/

/-- The path without its last extension: cut at the last dot. -/
def cutExtension (path : Bytes) : Option Bytes := (strrchr path 46).map fun i => path.take i

/-- `extract_base_path`: the last three extensions are removed. An empty path is refused.
The path fits its buffer, see `ProcessAnalyzer.Model.LogFiles`. -/
def extractBasePath (rotatedPath : Bytes) : Option Bytes :=
  if rotatedPath = [] then none
  else ((cutExtension rotatedPath).bind cutExtension).bind cutExtension

/-- `GZ_SUFFIX`. -/
def gzSuffix : Bytes := ascii ".gz"

/-! ### The two threads -/

/-- Where the main thread is. -/
inductive MainPc where
  /-- between two rotations, with the active file open -/
  | idle
  /-- at `unlink` of the oldest compressed file -/
  | unlinkGz
  /-- at `unlink` of the oldest plain file -/
  | unlinkPlain
  /-- at `rename` of the compressed file `i` -/
  | shiftGz (i : ℕ)
  /-- at the fallback for the plain file `i` -/
  | shiftPlain (i : ℕ)
  /-- at `rename` of the active file -/
  | renameActive
  /-- at `compression_enqueue_file` -/
  | enqueue (path : Bytes)
  /-- at `fopen` of the new active file -/
  | reopen
  deriving DecidableEq

/-- Where the worker is. -/
inductive WorkerPc where
  /-- waiting for a job -/
  | idle
  /-- at `compress_file_gzip` -/
  | compress (job : Bytes)
  /-- at `rename` of the compressed file -/
  | rename (job : Bytes)
  /-- at `unlink` of the original file -/
  | unlinkOriginal (job : Bytes)
  deriving DecidableEq

/-- What the two threads of the program share, and where they are: the directory, the
`static` counter of `rotate_logs` and the job queue, oldest job first. -/
structure Threads (β : Type) where
  dir : Dir Bytes β
  rotationCounter : UInt32 := 0
  jobs : List Bytes := []
  main : MainPc := .idle
  worker : WorkerPc := .idle

/-! ### The steps of `rotate_logs` -/

section Rotation
variable {β : Type} (compressionEnabled : Bool) (filePath : Bytes) (maxRotations : Int)

/-- The next place in the loop of `rotate_logs` before the round for `i`. -/
def loopHead (i : ℕ) : MainPc :=
  if i ≥ 1 then
    if compressionEnabled then .shiftGz i else .shiftPlain i
  else .renameActive

/-- The next step of `rotate_logs`, with the answers of `time(NULL)` and of the `malloc` in
`compression_enqueue_file`. -/
def rotationCall (now : Int64) (mallocOk : Bool) (s : Threads β) :
    Option (Threads β × List FileOp) :=
  match s.main with
  | .idle => none
  | .unlinkGz =>
      let (d, ops) := unlinkCall s.dir (rotatedGzPath filePath maxRotations)
      some ({ s with dir := d, main := .unlinkPlain }, ops)
  | .unlinkPlain =>
      let (d, ops) := unlinkCall s.dir (rotatedPath filePath maxRotations)
      some ({ s with dir := d, main := loopHead compressionEnabled (maxRotations - 1).toNat }, ops)
  | .shiftGz i =>
      match renameCall s.dir (rotatedGzPath filePath i) (rotatedGzPath filePath (i + 1)) with
      | ((d, true), ops) =>
          some ({ s with dir := d, main := loopHead compressionEnabled (i - 1) }, ops)
      -- a missing compressed file: it may still be under way, so the plain one is tried
      | ((d, false), ops) => some ({ s with dir := d, main := .shiftPlain i }, ops)
  | .shiftPlain i =>
      let ((d, _), ops) :=
        renameCall s.dir (rotatedPath filePath i) (rotatedPath filePath (i + 1))
      some ({ s with dir := d, main := loopHead compressionEnabled (i - 1) }, ops)
  | .renameActive =>
      if compressionEnabled then
        -- the result of this rename is not tested: the path is enqueued either way
        let newPath := uniquePath filePath now s.rotationCounter
        let ((d, _), ops) := renameCall s.dir filePath newPath
        some ({ s with
          dir := d
          rotationCounter := s.rotationCounter + 1
          main := .enqueue newPath }, ops)
      else
        let ((d, _), ops) := renameCall s.dir filePath (rotatedPath filePath 1)
        some ({ s with dir := d, main := .reopen }, ops)
  | .enqueue path =>
      -- without memory for the job the file is never compressed
      some ({ s with jobs := if mallocOk then s.jobs ++ [path] else s.jobs, main := .reopen }, [])
  | .reopen => none

end Rotation

/-! ### The steps of the worker -/

/-- The next step of `compression_thread_func`. `gzip` is the content that
`compress_file_gzip` makes of another one. -/
def workerCall {β : Type} (gzip : β → β) (s : Threads β) : Option (Threads β × List FileOp) :=
  match s.worker with
  | .idle =>
      match s.jobs with
      | [] => none
      | job :: rest => some ({ s with jobs := rest, worker := .compress job }, [])
  | .compress job =>
      match extractBasePath job with
      -- a path that is not of the expected form is skipped
      | none => some ({ s with worker := .idle }, [])
      | some _ =>
          match s.dir job with
          | some data =>
              some ({ s with
                dir := s.dir.store (job ++ gzSuffix) (gzip data)
                worker := .rename job }, [.create (job ++ gzSuffix)])
          -- the compression fails when its source is missing
          | none => some ({ s with worker := .idle }, [])
  | .rename job =>
      match extractBasePath job with
      | none => some ({ s with worker := .idle }, [])
      | some base =>
          match renameCall s.dir (job ++ gzSuffix) (base ++ ascii ".1" ++ gzSuffix) with
          | ((d, true), ops) => some ({ s with dir := d, worker := .unlinkOriginal job }, ops)
          -- the original file stays when the rename fails
          | ((d, false), ops) => some ({ s with dir := d, worker := .idle }, ops)
  | .unlinkOriginal job =>
      let (d, ops) := unlinkCall s.dir job
      some ({ s with dir := d, worker := .idle }, ops)

/-! ### One output with compression -/

/-- The content of a file: bytes as they are, or the output of gzip for some content. -/
inductive FileData where
  | raw (content : Bytes)
  | gzip (content : FileData)
  deriving DecidableEq

/-- One output with the contents of its files. `rotated` is not a variable of the program:
it collects the contents of the active file at its renames, the latest one first. -/
structure Compression extends Threads FileData where
  rotated : List Bytes := []

/-- The actions of the two threads. -/
inductive CompressionAct where
  /-- the main thread appends to the active file -/
  | write (text : Bytes)
  /-- the main thread enters `rotate_and_reopen` -/
  | rotate
  /-- the next step of the rotation in progress, with the answer of `time(NULL)` -/
  | main (now : Int64)
  /-- the next step of the worker -/
  | worker
  deriving DecidableEq

section Step
variable (filePath : Bytes) (M : ℕ)

/-- The generations after a rename of the active file. -/
def addGeneration (active : Option FileData) (rotated : List Bytes) : List Bytes :=
  match active with
  | some (.raw content) => content :: rotated
  | _ => rotated

/-- The next step of a rotation. -/
def rotationStep (now : Int64) (s : Compression) : Option Compression :=
  match s.main with
  | .reopen => some { s with dir := (fopenCall s.dir filePath (.raw [])).1, main := .idle }
  | .renameActive =>
      (rotationCall true filePath M now true s.toThreads).map fun r =>
        { toThreads := r.1, rotated := addGeneration (s.dir filePath) s.rotated }
  | _ => (rotationCall true filePath M now true s.toThreads).map fun r => { s with toThreads := r.1 }

/-- The next step of the worker. -/
def workerStep (s : Compression) : Option Compression :=
  (workerCall .gzip s.toThreads).map fun r => { s with toThreads := r.1 }

/-- One step of the system. -/
def compressionStep (s : Compression) : CompressionAct → Option Compression
  | .write text =>
      match s.main, s.dir filePath with
      | .idle, some (.raw content) =>
          some { s with dir := s.dir.store filePath (.raw (content ++ text)) }
      | _, _ => none
  | .rotate =>
      match s.main with
      | .idle => some { s with main := .unlinkGz }
      | _ => none
  | .main now => rotationStep filePath M now s
  | .worker => workerStep s

end Step

end ProcessAnalyzer
