import ProcessAnalyzer.Lib.Directory
import ProcessAnalyzer.Model.Config

/-!
# `ProcessAnalyzer.Model.LogFiles`: the files of the output directory

The names under which `code/process_snapshot/process_snapshot.c` keeps its output, and
`rotate_logs`, which renames them. A path is the byte string that `snprintf` writes into
the path buffers. It always fits: an output directory comes from a line of the
configuration file of at most 511 bytes, and the buffers have `PATH_MAX` bytes.

A directory maps paths to contents (`ProcessAnalyzer.Lib.Directory`). `rotate_logs` never
looks into a file, so the content type is a parameter here. `rename` fails only when its
source is missing, and `rotate_logs` is silent about that error (`ENOENT`), so it prints
nothing in this model.
-/

set_option autoImplicit false

namespace ProcessAnalyzer

open ProcessAnalyzer.Lib

/-- The two raw outputs of the snapshot code. -/
inductive LogBase where
  | log
  | jsonl
  deriving DecidableEq, Repr

namespace LogBase

/-- The name of the output's active file. -/
def fileName : LogBase → Bytes
  | .log => configLogFile
  | .jsonl => configJsonFile

/-- The getter that enables the output. -/
def enabled (config : Config) : LogBase → Bool
  | .log => config.configGetRawLogEnabled
  | .jsonl => config.configGetRawJsonlEnabled

/-- `snprintf(path, ..., "%s/%s", config_get_output_dir(), file)`. -/
def path (config : Config) (b : LogBase) : Bytes :=
  config.configGetOutputDir ++ ascii "/" ++ b.fileName

end LogBase

/-- The path of the lock file. -/
def lockPath (config : Config) : Bytes :=
  config.configGetOutputDir ++ ascii "/" ++ configLockFile

/-! ### Rotated names -/

/-- `"%s.%d"`. -/
def rotatedPath (filePath : Bytes) (i : Int) : Bytes := filePath ++ ascii "." ++ decInt i

/-- `"%s.%d.gz"`. -/
def rotatedGzPath (filePath : Bytes) (i : Int) : Bytes := rotatedPath filePath i ++ ascii ".gz"

/-- `"%s.1.%ld.%u"`: the unique name of a file that waits for its compression. -/
def uniquePath (filePath : Bytes) (now : Int64) (counter : UInt32) : Bytes :=
  filePath ++ ascii ".1." ++ decInt now.toInt ++ ascii "." ++ decNat counter.toNat

/-! ### Calls -/

/-- A successful call that changes a file of the directory. -/
inductive FileOp where
  | unlink (path : Bytes)
  | rename (source target : Bytes)
  | create (path : Bytes)
  | append (path : Bytes)
  deriving DecidableEq

section Calls
variable {β : Type}

/-- `unlink`. -/
def unlinkCall (d : Dir Bytes β) (path : Bytes) : Dir Bytes β × List FileOp :=
  (d.unlink path, if (d path).isSome then [.unlink path] else [])

/-- `rename`. -/
def renameCall (d : Dir Bytes β) (source target : Bytes) : (Dir Bytes β × Bool) × List FileOp :=
  let r := d.rename source target
  (r, if r.2 then [.rename source target] else [])

/-- A successful `fopen(path, "a")`, which creates a missing file. -/
def fopenCall (d : Dir Bytes β) (path : Bytes) (empty : β) : Dir Bytes β × List FileOp :=
  if (d path).isNone then (d.store path empty, [.create path]) else (d, [])

end Calls

/-! ### `rotate_logs` -/

section Rotate
variable {β : Type}

/-- The body of the loop of `rotate_logs` for the index `i`. With compression the
compressed file is moved, and the plain one only when there is none. -/
def shiftSlot (compressionEnabled : Bool) (filePath : Bytes) (i : ℕ) (d : Dir Bytes β) :
    Dir Bytes β :=
  if compressionEnabled then
    match d.rename (rotatedGzPath filePath i) (rotatedGzPath filePath (i + 1)) with
    | (d, true) => d
    | (d, false) => (d.rename (rotatedPath filePath i) (rotatedPath filePath (i + 1))).1
  else
    (d.rename (rotatedPath filePath i) (rotatedPath filePath (i + 1))).1

/-- The loop `for (int i = max_rotations - 1; i >= 1; i--)`. -/
def shiftSlots (compressionEnabled : Bool) (filePath : Bytes) : ℕ → Dir Bytes β → Dir Bytes β
  | 0, d => d
  | i + 1, d =>
      shiftSlots compressionEnabled filePath i (shiftSlot compressionEnabled filePath (i + 1) d)

/-- What `rotate_logs` works on: the directory, its `static` counter and the job queue of
the compression worker, oldest job first. -/
structure Rotation (β : Type) where
  dir : Dir Bytes β
  rotationCounter : UInt32 := 0
  jobs : List Bytes := []

/-- `compression_enqueue_file`. `mallocOk` is the outcome of its `malloc`. -/
def compressionEnqueueFile (config : Config) (mallocOk : Bool) (path : Bytes)
    (jobs : List Bytes) : List Bytes :=
  if config.configGetCompressionEnabled then
    if mallocOk then jobs ++ [path] else jobs
  else jobs

/-- `rotate_logs`, with the answers of `time(NULL)` and of the `malloc` in
`compression_enqueue_file`. -/
def rotateLogs (config : Config) (filePath : Bytes) (now : Int64) (mallocOk : Bool)
    (r : Rotation β) : Rotation β :=
  let compressionEnabled := config.configGetCompressionEnabled
  let maxRotations := config.configGetMaxNumberOfFiles.toInt
  -- remove oldest (try both)
  let d := r.dir.unlink (rotatedGzPath filePath maxRotations)
  let d := d.unlink (rotatedPath filePath maxRotations)
  let d := shiftSlots compressionEnabled filePath (maxRotations - 1).toNat d
  -- current -> .1
  if compressionEnabled then
    let newPath := uniquePath filePath now r.rotationCounter
    { dir := (d.rename filePath newPath).1
      rotationCounter := r.rotationCounter + 1
      jobs := compressionEnqueueFile config mallocOk newPath r.jobs }
  else
    { r with dir := (d.rename filePath (rotatedPath filePath 1)).1 }

end Rotate

end ProcessAnalyzer
