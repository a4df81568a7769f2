import ProcessAnalyzer.Lib.LinkedQueue
import ProcessAnalyzer.Lib.Run
import ProcessAnalyzer.Model.Config

/-!
# `ProcessAnalyzer.Model.JobQueue`: the job queue of the compression worker

The queue of `code/compression/compression_worker.c` with its pointers `job_head` and
`job_tail`, the flag `worker_running`, the mutex and the condition variable.
`ProcessAnalyzer.Model.CompressionWorker` has a list of paths in this place.

A critical section under `job_mutex` is one step. So is what a thread does on its own
between two sections: filling a new job, working on a job and releasing it. Calls of
`compression_enqueue_file` may overlap, and each one is known by the address of its job.

`pthread_cond_wait` ends after a signal, or spuriously. A signal that finds no thread at
the condition is lost. `malloc` answers with any address that is not in use, or with null.

`compression_worker_shutdown` is called once, when no call of `compression_enqueue_file` is
under way or follows.
-/

set_option autoImplicit false

namespace ProcessAnalyzer

open ProcessAnalyzer.Lib

/-- What `strncpy(job->path, path, PATH_MAX - 1)` leaves in a job. -/
def jobPath (path : Bytes) : Bytes := path.take (pathMax - 1)

/-- Where the worker is, as far as the queue is concerned. -/
inductive QueueWorkerPc where
  /-- not created -/
  | notStarted
  /-- at `pthread_mutex_lock` -/
  | entering
  /-- in `pthread_cond_wait` -/
  | waiting (signaled : Bool)
  /-- outside the mutex with the job at this address -/
  | processing (job : ℕ)
  /-- behind the loop -/
  | left
  deriving DecidableEq

/-- Where `compression_worker_shutdown` is. -/
inductive ShutdownPc where
  | notCalled
  /-- at `pthread_join` -/
  | joining
  /-- in the loop over the remaining jobs -/
  | cleaning
  | done
  deriving DecidableEq

/-- The variables of the file, the places of the threads, and three histories that are no
variables of the program: the paths in the order of their critical sections, the paths that
the worker took, and the paths of the jobs that the loop of the shutdown released. -/
structure JobQueue where
  queue : LinkedQueue ℕ Bytes := { heap := fun _ => none }
  workerRunning : Bool := false
  worker : QueueWorkerPc := .notStarted
  /-- the calls of `compression_enqueue_file` before their critical section -/
  filled : List (ℕ × Bytes) := []
  shutdown : ShutdownPc := .notCalled
  enqueued : List Bytes := []
  taken : List Bytes := []
  released : List Bytes := []

/-- `pthread_cond_signal(&job_cond)`. -/
def QueueWorkerPc.signal : QueueWorkerPc → QueueWorkerPc
  | .waiting _ => .waiting true
  | pc => pc

namespace JobQueue

/-- `compression_worker_init`, with a successful `pthread_create`. -/
def compressionWorkerInit (compressionEnabled : Bool) (s : JobQueue) : JobQueue :=
  if compressionEnabled then { s with workerRunning := true, worker := .entering } else s

/-- `compression_enqueue_file` up to the mutex. -/
def fillJob (path : Option Bytes) (malloc : Option ℕ) (s : JobQueue) : Option JobQueue :=
  match path, malloc with
  | none, _ => some s
  | some _, none => some s
  | some path, some job =>
      if s.queue.heap job = none then
        some { s with
          queue := s.queue.write job ⟨jobPath path, none⟩
          filled := (job, path) :: s.filled }
      else none

/-- The critical section of `compression_enqueue_file`. -/
def linkJob (job : ℕ) (s : JobQueue) : Option JobQueue :=
  match s.filled.lookup job with
  | none => none
  | some path =>
      (s.queue.link job).map fun queue =>
        { s with
          queue := queue
          filled := s.filled.filter fun call => call.1 ≠ job
          worker := s.worker.signal
          enqueued := s.enqueued ++ [path] }

/-- The critical section of `compression_thread_func`, entered through the mutex or after
`pthread_cond_wait`. -/
def takeJob (s : JobQueue) : Option JobQueue :=
  if s.workerRunning = true ∧ s.queue.head = none then some { s with worker := .waiting false }
  else if s.workerRunning = false ∧ s.queue.head = none then some { s with worker := .left }
  else
    match s.queue.head with
    -- `if (!job) continue`
    | none => some { s with queue := { s.queue with tail := none }, worker := .entering }
    | some _ =>
        s.queue.unlinkHead.map fun r =>
          { s with
            queue := r.2
            worker := .processing r.1.1
            taken := s.taken ++ [r.1.2] }

/-- The next step of the worker. -/
def workerStep (spurious : Bool) (s : JobQueue) : Option JobQueue :=
  match s.worker with
  | .notStarted => none
  | .entering => s.takeJob
  | .waiting signaled => if signaled || spurious then s.takeJob else none
  | .processing job =>
      -- every path of the loop body that reads the job ends in `free(job)`
      match s.queue.heap job with
      | none => none
      | some _ => some { s with queue := s.queue.free job, worker := .entering }
  | .left => none

/-- The next step of `compression_worker_shutdown`. -/
def compressionWorkerShutdown (s : JobQueue) : Option JobQueue :=
  match s.shutdown with
  | .notCalled =>
      if s.filled = [] then
        some { s with workerRunning := false, worker := s.worker.signal, shutdown := .joining }
      else none
  | .joining => if s.worker = .left then some { s with shutdown := .cleaning } else none
  | .cleaning =>
      match s.queue.head with
      | some tmp =>
          (s.queue.heap tmp).map fun job =>
            { s with
              queue := { s.queue with head := job.next }.free tmp
              released := s.released ++ [job.value] }
      | none => some { s with queue := { s.queue with tail := none }, shutdown := .done }
  | .done => none

end JobQueue

/-- The actions of the threads. -/
inductive QueueAct where
  /-- a call of `compression_enqueue_file`, with the answer of `malloc` -/
  | fill (path : Option Bytes) (malloc : Option ℕ)
  /-- the critical section of the call with this job -/
  | link (job : ℕ)
  /-- the next step of the worker, which may wake up without a signal -/
  | worker (spurious : Bool)
  /-- the next step of the shutdown -/
  | shutdown
  deriving DecidableEq

/-- One step of the system. Without compression the calls return at once. -/
def queueStep (compressionEnabled : Bool) (s : JobQueue) : QueueAct → Option JobQueue
  | .fill path malloc =>
      if compressionEnabled then
        if s.shutdown = .notCalled then s.fillJob path malloc else none
      else some s
  | .link job => s.linkJob job
  | .worker spurious => s.workerStep spurious
  | .shutdown => if compressionEnabled then s.compressionWorkerShutdown else some s

end ProcessAnalyzer
