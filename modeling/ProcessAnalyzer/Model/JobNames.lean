import ProcessAnalyzer.Model.GzipFile
import ProcessAnalyzer.Model.JobQueue

/-!
# `ProcessAnalyzer.Model.JobNames`: the names of a job in their buffers

The name of a rotated file on its way from `rotate_logs` to the worker, with the sizes of the
buffers: `snprintf` cuts it, `strncpy` cuts it, and `extract_base_path` measures it. In
`CompressionWorker` the names are lists of any length.
-/

set_option autoImplicit false

namespace ProcessAnalyzer

open ProcessAnalyzer.Lib

/-- What `snprintf` leaves of a text in a buffer. -/
def snprintfCut (size : ℕ) (text : Bytes) : Bytes := text.take (size - 1)

/-- The path of the job that a rotation enqueues: `new_path` in `rotate_logs`, copied by
`compression_enqueue_file`. -/
def rotatedJob (filePath : Bytes) (now : Int64) (counter : UInt32) : Bytes :=
  jobPath (snprintfCut pathMax (uniquePath filePath now counter))

/-- `strnlen`, on the memory behind the pointer. -/
def strnlen (mem : Bytes) (maxlen : ℕ) : ℕ := (cString (mem.take maxlen)).length

/-- `extract_base_path` with the size of its output, on the memory of the path. -/
def extractBasePathBuffer (rotatedPath : Bytes) (baseOutSize : ℕ) : Option Bytes :=
  if baseOutSize = 0 then none
  else
    let len := strnlen rotatedPath baseOutSize
    if len = 0 ∨ len ≥ baseOutSize then none
    else
      -- remove the last 3 extensions
      (List.range 3).foldlM (fun baseOut _ => cutExtension baseOut) (rotatedPath.take len)

/-- `gz_path` and `final_gz_path` in `compression_thread_func`, or `none` when the job is
skipped. -/
def workerNames (job : Bytes) : Option (Bytes × Bytes) :=
  match extractBasePathBuffer (job ++ [0]) pathMax with
  | none => none
  | some basePath =>
      let gzPath := job ++ gzSuffix
      let finalGzPath := basePath ++ ascii ".1" ++ gzSuffix
      if gzPath.length ≥ pathMax then none
      else if finalGzPath.length ≥ pathMax then none
      else some (gzPath, finalGzPath)

end ProcessAnalyzer
