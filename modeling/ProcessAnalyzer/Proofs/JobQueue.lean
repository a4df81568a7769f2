import ProcessAnalyzer.Model.CompressionWorker
import ProcessAnalyzer.Model.JobQueue

/-!
# `ProcessAnalyzer.Proofs.JobQueue`: no job is lost or taken twice

`QueueInv s nodes` is the invariant of the system. `nodes` are the jobs in the queue, first
to last, with their addresses. The jobs taken so far, followed by these, are the enqueued
ones in their order (`order`). The places of the threads fit to that:

* a worker that waits without a signal has an empty queue and no shutdown request, so no
  wake-up is lost (`waiting`),
* a worker behind its loop has an empty queue and a shutdown request (`left`),
* the addresses of the queue, of the job in work and of the jobs that are still being
  filled are disjoint, so nobody writes to a job of somebody else.

`queueInv_step` is the step lemma with one lemma per section. `jobQueue_conserves` is the
result for all runs, and `drain` is its progress half: steps of the worker alone, without a
spurious wake-up, take every job that is in the queue.
-/

set_option autoImplicit false

namespace ProcessAnalyzer

open ProcessAnalyzer.Lib

/-- The invariant of the queue and its threads. -/
structure QueueInv (s : JobQueue) (nodes : List (ℕ × Bytes)) : Prop where
  represents : s.queue.Represents nodes
  order : s.taken ++ nodes.map Prod.snd = s.enqueued.map jobPath
  filled_heap : ∀ call ∈ s.filled, s.queue.heap call.1 = some ⟨jobPath call.2, none⟩
  filled_fresh : ∀ call ∈ s.filled, call.1 ∉ nodes.map Prod.fst
  started : s.worker ≠ .notStarted
  processing : ∀ job, s.worker = .processing job → job ∉ nodes.map Prod.fst ∧
    job ∉ s.filled.map Prod.fst ∧
    ∃ path next, s.queue.heap job = some ⟨path, next⟩ ∧ s.taken.getLast? = some path
  waiting : s.worker = .waiting false → nodes = [] ∧ s.workerRunning = true
  left : s.worker = .left → nodes = [] ∧ s.workerRunning = false
  running : s.workerRunning = true ↔ s.shutdown = .notCalled
  closed : s.workerRunning = false → s.filled = []
  joined : s.shutdown = .cleaning ∨ s.shutdown = .done → s.worker = .left
  released : s.released = []

/-- The queue after `compression_worker_init`. -/
theorem queueInv_init : QueueInv (JobQueue.compressionWorkerInit true {}) [] where
  represents := LinkedQueue.represents_empty _
  order := rfl
  filled_heap := by simp [JobQueue.compressionWorkerInit]
  filled_fresh := by simp [JobQueue.compressionWorkerInit]
  started := nofun
  processing := nofun
  waiting := nofun
  left := nofun
  running := by decide
  closed := nofun
  joined := nofun
  released := rfl

/-! ### The signal -/

@[simp] theorem signal_eq_processing_iff (pc : QueueWorkerPc) (job : ℕ) :
    pc.signal = .processing job ↔ pc = .processing job := by
  cases pc <;> simp [QueueWorkerPc.signal]

@[simp] theorem signal_eq_left_iff (pc : QueueWorkerPc) : pc.signal = .left ↔ pc = .left := by
  cases pc <;> simp [QueueWorkerPc.signal]

@[simp] theorem signal_eq_notStarted_iff (pc : QueueWorkerPc) :
    pc.signal = .notStarted ↔ pc = .notStarted := by
  cases pc <;> simp [QueueWorkerPc.signal]

/-- After a signal the worker does not wait without one. -/
@[simp] theorem signal_ne_waiting (pc : QueueWorkerPc) : pc.signal ≠ .waiting false := by
  cases pc <;> simp [QueueWorkerPc.signal]

/-! ### Enqueueing -/

section Steps
variable {s s' : JobQueue} {nodes : List (ℕ × Bytes)}

/-- A new job is at an address that nobody uses. -/
theorem queueInv_fillJob (h : QueueInv s nodes) (hrun : s.shutdown = .notCalled)
    {path : Option Bytes} {malloc : Option ℕ} (hstep : s.fillJob path malloc = some s') :
    QueueInv s' nodes := by
  unfold JobQueue.fillJob at hstep
  split at hstep
  · exact Option.some.inj hstep ▸ h
  · exact Option.some.inj hstep ▸ h
  · rename_i path job
    split at hstep
    · rename_i hfree
      obtain rfl := Option.some.inj hstep
      have hnodes : job ∉ nodes.map Prod.fst :=
        fun hmem => h.represents.chain.heap_ne_none hmem hfree
      have hother : ∀ call ∈ s.filled, call.1 ≠ job := by
        rintro call hmem rfl
        rw [h.filled_heap call hmem] at hfree
        cases hfree
      refine { h with
        represents := ?represents, filled_heap := ?filled_heap, filled_fresh := ?filled_fresh,
        processing := ?processing, closed := ?closed }
      case represents => exact LinkedQueue.represents_write h.represents hnodes _
      case filled_heap =>
        intro call hmem
        rcases List.mem_cons.mp hmem with rfl | hmem
        · simp [LinkedQueue.write]
        · show Function.update s.queue.heap job _ call.1 = _
          rw [Function.update_of_ne (hother call hmem)]
          exact h.filled_heap call hmem
      case filled_fresh =>
        intro call hmem
        rcases List.mem_cons.mp hmem with rfl | hmem
        · exact hnodes
        · exact h.filled_fresh call hmem
      case processing =>
        intro job' hjob'
        obtain ⟨hnot, hfilled, path', next, hheap, hlast⟩ := h.processing job' hjob'
        have hne : job' ≠ job := by
          rintro rfl
          rw [hheap] at hfree
          cases hfree
        refine ⟨hnot, ?_, path', next, ?_, hlast⟩
        · rw [List.map_cons, List.mem_cons, not_or]
          exact ⟨hne, hfilled⟩
        · show Function.update s.queue.heap job _ job' = _
          rw [Function.update_of_ne hne]
          exact hheap
      case closed =>
        intro hstop
        have hrunning : s.workerRunning = true := h.running.mpr hrun
        exact absurd hrunning (by rw [show s.workerRunning = false from hstop]; decide)
    · cases hstep

/-- The tail pointer of the critical section points to a node. -/
theorem linkJob_isSome (h : QueueInv s nodes) {call : ℕ × Bytes} (hcall : call ∈ s.filled) :
    (s.linkJob call.1).isSome = true := by
  obtain ⟨queue, hlink, -⟩ := LinkedQueue.represents_link h.represents (h.filled_heap call hcall)
    (h.filled_fresh call hcall)
  have hlookup : (s.filled.lookup call.1).isSome = true := by
    rw [List.lookup_isSome_iff]
    exact ⟨call, hcall, by simp⟩
  unfold JobQueue.linkJob
  cases hpath : s.filled.lookup call.1 with
  | none => simp [hpath] at hlookup
  | some path => simp [hlink]

/-- The critical section of an enqueueing appends the job of the call. -/
theorem queueInv_linkJob (h : QueueInv s nodes) {job : ℕ} (hstep : s.linkJob job = some s') :
    ∃ path, QueueInv s' (nodes ++ [(job, jobPath path)]) := by
  unfold JobQueue.linkJob at hstep
  split at hstep
  · cases hstep
  · rename_i path hlookup
    have hmem : (job, path) ∈ s.filled := by
      rw [List.lookup_eq_some_iff] at hlookup
      obtain ⟨l₁, l₂, hl, -⟩ := hlookup
      rw [hl]
      simp
    have hfresh := h.filled_fresh _ hmem
    obtain ⟨queue, hlink, hrep, hframe⟩ :=
      LinkedQueue.represents_link h.represents (h.filled_heap _ hmem) hfresh
    rw [hlink] at hstep
    obtain rfl := Option.some.inj hstep
    have hsub : ∀ call ∈ s.filled.filter fun call => call.1 ≠ job,
        call ∈ s.filled ∧ call.1 ≠ job := by
      intro call hcall
      simpa using hcall
    have hmap : (nodes ++ [(job, jobPath path)]).map Prod.fst = nodes.map Prod.fst ++ [job] := by
      simp
    refine ⟨path, { h with
      represents := hrep, order := ?order, filled_heap := ?filled_heap,
      filled_fresh := ?filled_fresh, started := ?started, processing := ?processing,
      waiting := ?waiting, left := ?left, closed := ?closed, joined := ?joined }⟩
    case order =>
      show s.taken ++ (nodes ++ [(job, jobPath path)]).map Prod.snd
        = (s.enqueued ++ [path]).map jobPath
      rw [List.map_append, List.map_append, ← h.order, List.append_assoc]
      rfl
    case filled_heap =>
      intro call hcall
      obtain ⟨hcall, -⟩ := hsub call hcall
      rw [← h.filled_heap call hcall]
      exact hframe call.1 (h.filled_fresh call hcall)
    case filled_fresh =>
      intro call hcall
      obtain ⟨hcall, hne⟩ := hsub call hcall
      rw [hmap, List.mem_append, List.mem_singleton, not_or]
      exact ⟨h.filled_fresh call hcall, hne⟩
    case started =>
      show s.worker.signal ≠ .notStarted
      simpa using h.started
    case processing =>
      intro job' hjob'
      obtain ⟨hnot, hfilled, path', next, hheap, hlast⟩ :=
        h.processing job' ((signal_eq_processing_iff _ _).mp hjob')
      have hne : job' ≠ job := by
        rintro rfl
        exact hfilled (List.mem_map_of_mem hmem)
      refine ⟨?_, ?_, path', next, (hframe job' hnot).trans hheap, hlast⟩
      · rw [hmap, List.mem_append, List.mem_singleton, not_or]
        exact ⟨hnot, hne⟩
      · intro hmem'
        obtain ⟨call, hcall, rfl⟩ := List.mem_map.mp hmem'
        exact hfilled (List.mem_map_of_mem (hsub call hcall).1)
    case waiting =>
      intro hwait
      exact absurd hwait (signal_ne_waiting _)
    case left =>
      intro hleft
      -- After the shutdown request no call is under way.
      have hclosed := h.closed (h.left ((signal_eq_left_iff _).mp hleft)).2
      rw [hclosed] at hmem
      cases hmem
    case closed =>
      intro hstop
      have hclosed : s.filled = [] := h.closed hstop
      rw [hclosed] at hmem
      cases hmem
    case joined =>
      intro hjoined
      show s.worker.signal = .left
      rw [signal_eq_left_iff]
      exact h.joined hjoined

/-! ### The worker -/

/-- What the critical section of the worker does. The branch for a null job is not taken. -/
theorem takeJob_cases (h : QueueInv s nodes) (hstep : s.takeJob = some s') :
    (nodes = [] ∧ s.workerRunning = true ∧ s' = { s with worker := .waiting false }) ∨
    (nodes = [] ∧ s.workerRunning = false ∧ s' = { s with worker := .left }) ∨
    (∃ job path rest queue, nodes = (job, path) :: rest ∧ queue.Represents rest ∧
      queue.heap = s.queue.heap ∧
      s' = { s with
        queue := queue, worker := .processing job, taken := s.taken ++ [path] }) := by
  have hnil := LinkedQueue.eq_nil_iff h.represents
  unfold JobQueue.takeJob at hstep
  split at hstep
  · rename_i hempty
    exact .inl ⟨hnil.mpr hempty.2, hempty.1, (Option.some.inj hstep).symm⟩
  · rename_i hbusy
    split at hstep
    · rename_i hempty
      exact .inr (.inl ⟨hnil.mpr hempty.2, hempty.1, (Option.some.inj hstep).symm⟩)
    · rename_i hbusy'
      have hhead : s.queue.head ≠ none := by
        intro hnone
        cases hr : s.workerRunning
        · exact hbusy' ⟨hr, hnone⟩
        · exact hbusy ⟨hr, hnone⟩
      match nodes, h, hnil with
      | [], _, hnil => exact absurd (hnil.mp rfl) hhead
      | (job, path) :: rest, h, _ =>
          obtain ⟨queue, hunlink, hrep, hheap⟩ := LinkedQueue.represents_unlinkHead h.represents
          have hsome : s.queue.head = some job := h.represents.chain.1
          simp only [hsome, hunlink, Option.map_some, Option.some.injEq] at hstep
          exact .inr (.inr ⟨job, path, rest, queue, rfl, hrep, hheap, hstep.symm⟩)

/-- The critical section of the worker takes the first job off, and waits or leaves only
when there is none. -/
theorem queueInv_takeJob (h : QueueInv s nodes) (hstep : s.takeJob = some s') :
    QueueInv s' nodes.tail := by
  rcases takeJob_cases h hstep with
    ⟨rfl, hrun, rfl⟩ | ⟨rfl, hrun, rfl⟩ | ⟨job, path, rest, queue, rfl, hrep, hheap, rfl⟩
  · refine { h with
      started := nofun, processing := nofun, waiting := fun _ => ⟨rfl, hrun⟩, left := nofun,
      joined := ?_ }
    -- The shutdown is past `pthread_join` only without the running flag.
    intro hjoined
    have hcalled : s.shutdown = .notCalled := h.running.mp hrun
    rw [show s.shutdown = _ from hcalled] at hjoined
    rcases hjoined with hjoined | hjoined <;> cases hjoined
  · exact { h with
      started := nofun, processing := nofun, waiting := nofun, left := fun _ => ⟨rfl, hrun⟩,
      joined := fun _ => rfl }
  · have hnodup := List.nodup_cons.mp h.represents.nodup
    refine { h with
      represents := hrep, order := ?order, filled_heap := ?filled_heap,
      filled_fresh := ?filled_fresh, started := nofun, processing := ?processing,
      waiting := nofun, left := nofun, joined := ?joined }
    case order =>
      show s.taken ++ [path] ++ rest.map Prod.snd = s.enqueued.map jobPath
      rw [← h.order, List.append_assoc]
      rfl
    case filled_heap =>
      intro call hcall
      show queue.heap call.1 = _
      rw [hheap]
      exact h.filled_heap call hcall
    case filled_fresh =>
      intro call hcall hmem
      exact h.filled_fresh call hcall (List.mem_cons_of_mem _ hmem)
    case processing =>
      rintro _ ⟨⟩
      obtain ⟨next, hnext⟩ := h.represents.chain.heap_eq List.mem_cons_self
      refine ⟨hnodup.1, ?_, path, next, ?_, by simp⟩
      · intro hmem
        obtain ⟨call, hcall, rfl⟩ := List.mem_map.mp hmem
        exact h.filled_fresh call hcall List.mem_cons_self
      · show queue.heap job = _
        rw [hheap]
        exact hnext
    case joined =>
      intro hjoined
      cases (h.left (h.joined hjoined)).1

/-- At the end of a job its memory is released. -/
theorem queueInv_freeJob (h : QueueInv s nodes) {job : ℕ} (hpc : s.worker = .processing job) :
    QueueInv { s with queue := s.queue.free job, worker := .entering } nodes := by
  obtain ⟨hnot, hfilled, -⟩ := h.processing job hpc
  refine { h with
    represents := LinkedQueue.represents_free h.represents hnot, filled_heap := ?filled_heap,
    started := nofun, processing := nofun, waiting := nofun, left := nofun, joined := ?joined }
  case filled_heap =>
    intro call hcall
    have hne : call.1 ≠ job := by
      rintro rfl
      exact hfilled (List.mem_map_of_mem hcall)
    show Function.update s.queue.heap job none call.1 = _
    rw [Function.update_of_ne hne]
    exact h.filled_heap call hcall
  case joined =>
    intro hjoined
    have hleft : s.worker = .left := h.joined hjoined
    rw [hpc] at hleft
    cases hleft

/-- A step of the worker. -/
theorem queueInv_workerStep (h : QueueInv s nodes) {spurious : Bool}
    (hstep : s.workerStep spurious = some s') : ∃ nodes', QueueInv s' nodes' := by
  unfold JobQueue.workerStep at hstep
  split at hstep
  · cases hstep
  · exact ⟨_, queueInv_takeJob h hstep⟩
  · split at hstep
    · exact ⟨_, queueInv_takeJob h hstep⟩
    · cases hstep
  · rename_i job hpc
    split at hstep
    · cases hstep
    · exact ⟨_, Option.some.inj hstep ▸ queueInv_freeJob h hpc⟩
  · cases hstep

/-! ### The shutdown -/

/-- A step of the shutdown. Its loop finds no job: the worker has left. -/
theorem queueInv_shutdown (h : QueueInv s nodes) (hstep : s.compressionWorkerShutdown = some s') :
    QueueInv s' nodes := by
  unfold JobQueue.compressionWorkerShutdown at hstep
  split at hstep
  · split at hstep
    · rename_i hcalled hnone
      obtain rfl := Option.some.inj hstep
      refine { h with
        started := ?started, processing := ?processing, waiting := ?waiting, left := ?left,
        running := ?running, closed := fun _ => hnone, joined := nofun }
      case started =>
        show s.worker.signal ≠ .notStarted
        simpa using h.started
      case processing =>
        intro job hjob
        exact h.processing job ((signal_eq_processing_iff _ _).mp hjob)
      case waiting =>
        intro hwait
        exact absurd hwait (signal_ne_waiting _)
      case left =>
        intro hleft
        exact ⟨(h.left ((signal_eq_left_iff _).mp hleft)).1, rfl⟩
      case running =>
        show false = true ↔ ShutdownPc.joining = .notCalled
        simp
    · cases hstep
  · split at hstep
    · rename_i hjoining hleft
      obtain rfl := Option.some.inj hstep
      have hstop : s.workerRunning = false := (h.left hleft).2
      refine { h with running := ?_, joined := fun _ => hleft }
      show s.workerRunning = true ↔ ShutdownPc.cleaning = .notCalled
      simp [hstop]
    · cases hstep
  · rename_i hcleaning
    have hleft : s.worker = .left := h.joined (.inl hcleaning)
    obtain ⟨rfl, hstop⟩ := h.left hleft
    have hhead : s.queue.head = none := (LinkedQueue.eq_nil_iff h.represents).mp rfl
    simp only [hhead, Option.some.injEq] at hstep
    subst hstep
    refine { h with
      represents := ⟨rfl, List.nodup_nil, rfl⟩, running := ?_, joined := fun _ => hleft }
    show s.workerRunning = true ↔ ShutdownPc.done = .notCalled
    simp [hstop]
  · cases hstep

/-- Every step keeps the invariant. -/
theorem queueInv_step {act : QueueAct} (h : ∃ nodes, QueueInv s nodes)
    (hstep : queueStep true s act = some s') : ∃ nodes, QueueInv s' nodes := by
  obtain ⟨nodes, h⟩ := h
  cases act with
  | fill path malloc =>
      simp only [queueStep, if_true] at hstep
      split at hstep
      · rename_i hrun
        exact ⟨nodes, queueInv_fillJob h hrun hstep⟩
      · cases hstep
  | link job =>
      obtain ⟨path, hinv⟩ := queueInv_linkJob h hstep
      exact ⟨_, hinv⟩
  | worker spurious => exact queueInv_workerStep h hstep
  | shutdown => exact ⟨nodes, queueInv_shutdown h hstep⟩

/-! ### The list of jobs

`ProcessAnalyzer.Model.CompressionWorker` has the queue as a list of paths. The sections
that touch the queue do to its nodes what the calls there do to the list. -/

/-- Taking a job is the first step of `workerCall`. -/
theorem takeJob_refines {β : Type} (gzip : β → β) {t : Threads β} (h : QueueInv s nodes)
    (hjobs : t.jobs = nodes.map Prod.snd) (hidle : t.worker = .idle)
    (hstep : s.takeJob = some s') {job : ℕ} (hpc : s'.worker = .processing job) :
    ∃ path, s'.taken = s.taken ++ [path] ∧ workerCall gzip t =
      some ({ t with jobs := nodes.tail.map Prod.snd, worker := .compress path }, []) := by
  rcases takeJob_cases h hstep with
    ⟨-, -, rfl⟩ | ⟨-, -, rfl⟩ | ⟨job', path, rest, queue, rfl, -, -, rfl⟩
  · cases hpc
  · cases hpc
  · refine ⟨path, rfl, ?_⟩
    have hcons : t.jobs = path :: rest.map Prod.snd := hjobs
    simp only [workerCall, hidle, hcons]
    rfl

/-- Enqueueing is the step of `rotationCall` at `compression_enqueue_file`. -/
theorem linkJob_refines {β : Type} (filePath : Bytes) (maxRotations : Int) (now : Int64)
    {t : Threads β} (h : QueueInv s nodes) (hjobs : t.jobs = nodes.map Prod.snd) {job : ℕ}
    {path : Bytes} (hcall : s.filled.lookup job = some path) (hlen : path.length < pathMax)
    (hmain : t.main = .enqueue path) (hstep : s.linkJob job = some s') :
    ∃ nodes', QueueInv s' nodes' ∧ rotationCall true filePath maxRotations now true t =
      some ({ t with jobs := nodes'.map Prod.snd, main := .reopen }, []) := by
  obtain ⟨path', hinv⟩ := queueInv_linkJob h hstep
  refine ⟨_, hinv, ?_⟩
  have hpath : s'.enqueued = s.enqueued ++ [path] := by
    simp only [JobQueue.linkJob, hcall, Option.map_eq_some_iff] at hstep
    obtain ⟨queue, -, rfl⟩ := hstep
    rfl
  have htaken : s'.taken = s.taken := by
    simp only [JobQueue.linkJob, hcall, Option.map_eq_some_iff] at hstep
    obtain ⟨queue, -, rfl⟩ := hstep
    rfl
  have hlast : jobPath path' = path := by
    have horder := hinv.order
    rw [hpath, htaken, List.map_append, List.map_append, ← h.order, List.append_assoc] at horder
    have hsingle := List.append_cancel_left (List.append_cancel_left horder)
    have hjob : jobPath path = path := List.take_of_length_le (by unfold pathMax at *; omega)
    rw [← hjob]
    exact (List.cons.inj hsingle).1
  simp only [rotationCall, hmain, if_true, hjobs, List.map_append, List.map_cons, List.map_nil,
    hlast]

end Steps

/-! ### Progress -/

section Progress
variable {s : JobQueue} {nodes : List (ℕ × Bytes)}

/-- The worker alone, without a spurious wake-up. -/
def workerRuns (s s' : JobQueue) : Prop :=
  ∃ n, Run.exec (queueStep true) s (List.replicate n (.worker false)) = some s'

theorem workerRuns_refl (s : JobQueue) : workerRuns s s := ⟨0, rfl⟩

theorem workerRuns_cons {s s₁ s' : JobQueue} (hstep : s.workerStep false = some s₁)
    (hruns : workerRuns s₁ s') : workerRuns s s' := by
  obtain ⟨n, hn⟩ := hruns
  refine ⟨n + 1, ?_⟩
  show (s.workerStep false).bind _ = some s'
  rw [hstep]
  exact hn

/-- The worker is where its next step is its critical section. -/
def QueueWorkerPc.ready (pc : QueueWorkerPc) : Prop := pc = .entering ∨ pc = .waiting true

/-- A ready worker takes the jobs one by one. Behind the last one it leaves when the
shutdown was requested. -/
theorem drain_of_ready (h : QueueInv s nodes) (hready : s.worker.ready) :
    ∃ s', workerRuns s s' ∧ s'.taken = s.enqueued.map jobPath ∧
      (s.workerRunning = false → s'.worker = .left) := by
  have hsection : ∀ t : JobQueue, t.worker.ready → t.workerStep false = t.takeJob := by
    rintro t (hpc | hpc) <;> simp [JobQueue.workerStep, hpc]
  induction nodes generalizing s with
  | nil =>
      have horder : s.taken = s.enqueued.map jobPath := by simpa using h.order
      have hhead : s.queue.head = none := (LinkedQueue.eq_nil_iff h.represents).mp rfl
      cases hrun : s.workerRunning with
      | true => exact ⟨s, workerRuns_refl s, horder, nofun⟩
      | false =>
          refine ⟨{ s with worker := .left }, workerRuns_cons ?_ (workerRuns_refl _), horder,
            fun _ => rfl⟩
          rw [hsection s hready]
          simp [JobQueue.takeJob, hrun, hhead]
  | cons node rest ih =>
      obtain ⟨job, path⟩ := node
      obtain ⟨queue, hunlink, hrep, hheap⟩ := LinkedQueue.represents_unlinkHead h.represents
      have hhead : s.queue.head = some job := h.represents.chain.1
      -- Two steps: take the job, and finish it.
      have htake : s.takeJob = some { s with
          queue := queue, worker := .processing job, taken := s.taken ++ [path] } := by
        simp [JobQueue.takeJob, hhead, hunlink]
      have hinv := queueInv_takeJob h htake
      have hinv' := queueInv_freeJob hinv rfl
      obtain ⟨-, -, path', next, hjob, -⟩ := hinv.processing job rfl
      obtain ⟨s', hruns, htaken, hleft⟩ := ih hinv' (.inl rfl)
      refine ⟨s', ?_, htaken, hleft⟩
      apply workerRuns_cons ((hsection s hready).trans htake)
      apply workerRuns_cons _ hruns
      simp only [JobQueue.workerStep]
      rw [hjob]

/-- From every state the worker takes all jobs of the queue. -/
theorem drain (h : QueueInv s nodes) :
    ∃ s', workerRuns s s' ∧ s'.taken = s.enqueued.map jobPath ∧
      (s.workerRunning = false → s'.worker = .left) := by
  cases hpc : s.worker with
  | notStarted => exact absurd hpc h.started
  | entering => exact drain_of_ready h (.inl hpc)
  | waiting signaled =>
      cases signaled with
      | true => exact drain_of_ready h (.inr hpc)
      | false =>
          obtain ⟨rfl, hrun⟩ := h.waiting hpc
          refine ⟨s, workerRuns_refl s, by simpa using h.order, ?_⟩
          rw [hrun]
          exact nofun
  | processing job =>
      obtain ⟨-, -, path, next, hjob, -⟩ := h.processing job hpc
      obtain ⟨s', hruns, hrest⟩ := drain_of_ready (queueInv_freeJob h hpc) (.inl rfl)
      refine ⟨s', workerRuns_cons ?_ hruns, hrest⟩
      simp only [JobQueue.workerStep, hpc, hjob]
  | left =>
      obtain ⟨rfl, -⟩ := h.left hpc
      exact ⟨s, workerRuns_refl s, by simpa using h.order, fun _ => hpc⟩

end Progress

/-! ### All runs -/

/-- What the queue promises of a state.

- `head_tail`: the two pointers are null together;
- `tail_last`: the tail is the last node that the pointers reach from the head;
- `in_order`: the worker took the first of the enqueued paths, each once and in order, and
  the one in work is the last of these;
- `no_dangling`: a call that is under way finds a node at the tail pointer;
- `paths`: paths that fit the buffer are not changed on their way;
- `left`: the worker has left its loop only after the shutdown request, with all jobs taken;
- `no_lost_signal`: a worker that waits for a signal has nothing to do;
- `drained`: the steps of the worker alone take all jobs that are enqueued, and end its loop
  after a shutdown request;
- `cleanup`: the loop of the shutdown finds no job and releases none. -/
structure JobsConserved (s : JobQueue) : Prop where
  head_tail : s.queue.head = none ↔ s.queue.tail = none
  tail_last : ∀ t, s.queue.tail = some t → LinkedQueue.IsLast s.queue.heap s.queue.head t
  in_order : s.taken <+: s.enqueued.map jobPath ∧ ∀ job, s.worker = .processing job →
    ∃ path next, s.queue.heap job = some ⟨path, next⟩ ∧ s.taken.getLast? = some path
  no_dangling : ∀ call ∈ s.filled, (s.linkJob call.1).isSome = true
  paths : (∀ path ∈ s.enqueued, path.length < pathMax) → s.enqueued.map jobPath = s.enqueued
  left : s.worker = .left → s.shutdown ≠ .notCalled ∧ s.taken = s.enqueued.map jobPath
  no_lost_signal : s.worker = .waiting false → s.queue.head = none ∧ s.shutdown = .notCalled
  drained : ∃ s', workerRuns s s' ∧ s'.taken = s.enqueued.map jobPath ∧
    (s.shutdown ≠ .notCalled → s'.worker = .left)
  cleanup : (s.shutdown = .cleaning → s.queue.head = none) ∧ s.released = []

/-- The invariant gives the promises. -/
theorem QueueInv.jobsConserved {s : JobQueue} {nodes : List (ℕ × Bytes)} (h : QueueInv s nodes) :
    JobsConserved s := by
  have hstop : s.shutdown ≠ .notCalled ↔ s.workerRunning = false := by
    rw [← Bool.not_eq_true, h.running]
  have hempty : nodes = [] → s.queue.head = none := (LinkedQueue.eq_nil_iff h.represents).mp
  constructor
  case head_tail => exact LinkedQueue.head_eq_none_iff h.represents
  case tail_last => exact fun t ht => LinkedQueue.isLast_of_represents h.represents ht
  case in_order =>
    constructor
    · exact ⟨_, h.order⟩
    · intro job hjob
      exact (h.processing job hjob).2.2
  case no_dangling => exact fun call hcall => linkJob_isSome h hcall
  case paths =>
    intro hlen
    have hjob : ∀ path ∈ s.enqueued, jobPath path = path := by
      intro path hpath
      have hlt := hlen path hpath
      exact List.take_of_length_le (by unfold pathMax at *; omega)
    rw [List.map_congr_left hjob, List.map_id']
  case left =>
    intro hleft
    obtain ⟨rfl, hrun⟩ := h.left hleft
    exact ⟨hstop.mpr hrun, by simpa using h.order⟩
  case no_lost_signal =>
    intro hwait
    obtain ⟨hnil, hrun⟩ := h.waiting hwait
    exact ⟨hempty hnil, h.running.mp hrun⟩
  case drained =>
    obtain ⟨s', hruns, htaken, hleft⟩ := drain h
    exact ⟨s', hruns, htaken, fun hcalled => hleft (hstop.mp hcalled)⟩
  case cleanup =>
    constructor
    · intro hcleaning
      exact hempty (h.left (h.joined (.inl hcleaning))).1
    · exact h.released

/-- In every run of the enqueueing calls, the worker and the shutdown, the queue keeps its
shape, and no job is lost or taken twice. -/
theorem jobQueue_conserves (acts : List QueueAct) (s : JobQueue)
    (hrun : Run.exec (queueStep true) (JobQueue.compressionWorkerInit true {}) acts = some s) :
    JobsConserved s := by
  have hall : Run.Along (queueStep true) (fun _ _ => True)
      (JobQueue.compressionWorkerInit true {}) acts := Run.along_true _ _
  obtain ⟨nodes, h⟩ := Run.exec_invariant (I := fun s => ∃ nodes, QueueInv s nodes)
    (fun _ _ _ hI _ hstep => queueInv_step hI hstep) ⟨[], queueInv_init⟩ hall hrun
  exact h.jobsConserved

/-- A run with two overlapping calls, a job that is enqueued after the queue ran empty, a
spurious wake-up and a shutdown with a job left in the queue. -/
def twoCallsRun : List QueueAct :=
  [.worker false, .worker true, .fill (some [97]) (some 7), .fill (some [98]) (some 3), .link 3,
    .worker false, .link 7, .worker false, .worker false, .worker false,
    .fill (some [99]) (some 7), .link 7, .shutdown, .worker false, .worker false, .worker false,
    .shutdown, .shutdown]

theorem jobQueue_conserves_twoCallsRun :
    ∃ s, Run.exec (queueStep true) (JobQueue.compressionWorkerInit true {}) twoCallsRun = some s ∧
      s.taken = [[98], [97], [99]] ∧ s.shutdown = .done ∧ JobsConserved s := by
  refine ⟨_, rfl, rfl, rfl, jobQueue_conserves twoCallsRun _ rfl⟩

end ProcessAnalyzer
