import ProcessAnalyzer.Model.CompressionWorker
import ProcessAnalyzer.Model.Config

/-!
# `ProcessAnalyzer.Model.GzipFile`: one compression job and its failures

`compress_file_gzip` of `code/compression/compression_worker.c`, block by block, and what
`compression_thread_func` does with one job. `ProcessAnalyzer.Model.CompressionWorker` has
the same job as steps of a thread whose calls succeed. Here the job runs alone, and every
call can fail (`GzipCalls`).

A read error ends an `fread` early, and the bytes before it are still delivered. The next
`fread` goes on behind them. `readLimit i` is what the `i`-th call can deliver, so that `0`
is a call that fails at once, and `bufferSize` or more is a call without an error.

zlib is not part of the sources. Its contract is in the model. `gzwrite` returns zero when it
fails. When no call on the stream fails, the file decompresses to the bytes that were
written, and after a failure it does not decompress. Which bytes it puts on the disk is left
open (`gzBytes`).
-/

set_option autoImplicit false

namespace ProcessAnalyzer

open ProcessAnalyzer.Lib

/-- A file on the disk: its bytes, and what they decompress to. -/
structure DiskFile where
  bytes : Bytes
  inflated : Option Bytes := none
  deriving DecidableEq

/-- `sizeof(buffer)` in `compress_file_gzip`. -/
def bufferSize : ℕ := 8192

/-- How the calls of one job end. -/
structure GzipCalls where
  fopenOk : Bool := true
  gzopenOk : Bool := true
  /-- the bytes that the `i`-th `fread` can deliver -/
  readLimit : ℕ → ℕ := fun _ => bufferSize
  /-- the `i`-th `gzwrite` succeeds -/
  gzwriteOk : ℕ → Bool := fun _ => true
  /-- the text that `gzerror` returns -/
  gzerror : Bytes := []
  /-- the final flush in `gzclose` succeeds -/
  gzcloseOk : Bool := true
  renameOk : Bool := true
  /-- what zlib has put on the disk -/
  gzBytes : Bytes := []

section Job
variable (calls : GzipCalls)

/-- The bytes that the `i`-th `fread` of at most `bufferSize` bytes can deliver. -/
def blockSize (i : ℕ) : ℕ := min bufferSize (calls.readLimit i)

/-- The `while` loop from its `i`-th `fread` on, with `rest` not read yet and `out` written
so far: the return value and what was written. A block of no bytes ends the loop, whether
the file is at its end or not. -/
def copyLoop (i : ℕ) (rest out : Bytes) : Int × Bytes :=
  if rest.take (blockSize calls i) = [] then (0, out)
  else if calls.gzwriteOk i then
    copyLoop (i + 1) (rest.drop (blockSize calls i)) (out ++ rest.take (blockSize calls i))
  else (-3, out)
termination_by rest.length
decreasing_by
  rename_i h _
  simp only [List.take_eq_nil_iff, not_or] at h
  have hlen : rest.length ≠ 0 := by simpa using h.2
  rw [List.length_drop]
  omega

/-- The directory after a call, its return value and what it printed to `stderr`. -/
structure GzipResult where
  dir : Dir Bytes DiskFile
  rc : Int
  stderr : List Bytes := []

/-- `compress_file_gzip`. The result of the last `gzclose` is not tested. -/
def compressFileGzip (src dst : Bytes) (d : Dir Bytes DiskFile) : GzipResult :=
  match d src with
  | none => { dir := d, rc := -1 }
  | some file =>
      if calls.fopenOk = false then { dir := d, rc := -1 }
      else if calls.gzopenOk = false then { dir := d, rc := -2 }
      else
        let (rc, out) := copyLoop calls 0 file.bytes []
        if rc = 0 then
          { dir := d.store dst ⟨calls.gzBytes, if calls.gzcloseOk then some out else none⟩
            rc := 0 }
        else
          { dir := d.store dst ⟨calls.gzBytes, none⟩
            rc := rc
            stderr := [ascii "gzwrite error: " ++ calls.gzerror ++ ascii "\n"] }

/-- What `compression_thread_func` does with a job: the directory afterwards and what was
printed to `stderr`. -/
def compressJob (job : Bytes) (d : Dir Bytes DiskFile) : Dir Bytes DiskFile × List Bytes :=
  match extractBasePath job with
  | none => (d, [ascii "failed to extract base path from " ++ job ++ ascii "\n"])
  | some basePath =>
      let gzPath := job ++ gzSuffix
      let finalGzPath := basePath ++ ascii ".1" ++ gzSuffix
      if gzPath.length ≥ pathMax then
        (d, [ascii "compression_thread_func: path too long for " ++ job ++ ascii "\n"])
      else if finalGzPath.length ≥ pathMax then
        (d, [ascii "compression_thread_func: final path too long for " ++ job ++ ascii "\n"])
      else
        let r := compressFileGzip calls job gzPath d
        if r.rc = 0 then
          match calls.renameOk, r.dir.rename gzPath finalGzPath with
          -- remove original only after success
          | true, (d', true) => (d'.unlink job, r.stderr)
          | _, _ => (r.dir, r.stderr ++ [ascii "compression_thread_func: rename failed " ++ gzPath
              ++ ascii " -> " ++ finalGzPath ++ ascii "\n"])
        else
          (r.dir, r.stderr ++ [ascii "compression_thread_func: compression failed for " ++ job
            ++ ascii "\n"])

end Job

end ProcessAnalyzer
