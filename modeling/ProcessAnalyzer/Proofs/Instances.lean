import ProcessAnalyzer.Model.Instances
import ProcessAnalyzer.Proofs.LogNames

/-!
# `ProcessAnalyzer.Proofs.Instances`: file operations and the lock

Every file operation on the outputs is to happen under the lock. Two steps of an instance
break this: the deletion for `-j`, which comes before `acquire_lock`, and the release of the
lock in `process_snapshot_deinit`, which comes before the worker has done its jobs. In all
runs without such steps the lock protects the files.

* `LocalInv`: what holds of one instance at every place, whatever the others do.
* `CallSpec`: what one call does to the instance, to the locks and to the files.
* `mainCall_spec`, `workerThreadCall_spec`: every call of the two threads meets it.
* `ops_under_lock`: the result for all runs of all instances.
-/

set_option autoImplicit false

namespace ProcessAnalyzer

open ProcessAnalyzer.Lib

/-! ### Files of the outputs -/

/-- The path is named `ptime.log*` or `ptime.jsonl*`. -/
def isOutputPath (config : Config) (path : Bytes) : Bool :=
  (LogBase.log.path config).isPrefixOf path || (LogBase.jsonl.path config).isPrefixOf path

/-- The paths of an operation. -/
def FileOp.paths : FileOp → List Bytes
  | .unlink path => [path]
  | .rename source target => [source, target]
  | .create path => [path]
  | .append path => [path]

/-- The operation is on a file of the outputs. -/
def FileOp.onOutput (config : Config) (op : FileOp) : Bool :=
  op.paths.any (isOutputPath config)

/-- The lock file is no file of the outputs. -/
theorem isOutputPath_lockPath (config : Config) :
    isOutputPath config (lockPath config) = false := by
  have hpath (b : LogBase) : (b.path config).isPrefixOf (lockPath config) = false := by
    rw [Bool.eq_false_iff, ne_eq, List.isPrefixOf_iff_prefix]
    exact not_path_prefix_lockPath config b
  rw [isOutputPath, hpath, hpath]
  rfl

/-! ### One instance -/

/-- The places before the lock is held. -/
def InstancePc.early : InstancePc → Bool
  | .start | .deleting | .preparing | .locking | .refused => true
  | _ => false

/-- The places between `acquire_lock` and the release. -/
def InstancePc.guarded : InstancePc → Bool
  | .opening _ _ | .starting | .waiting | .checking _ | .rotating _ | .writing | .flushing _
  | .unlocking => true
  | _ => false

/-- The places that no rotation comes before. -/
def InstancePc.fresh : InstancePc → Bool
  | .opening _ _ | .starting | .failing => true
  | pc => pc.early

/-- The places where the stream has no unwritten text. -/
def InstancePc.flushed (b : LogBase) : InstancePc → Bool
  | .writing | .flushing .log => false
  | .flushing .jsonl => b = .log
  | _ => true

/-- What holds of one instance at every place. -/
structure LocalInv (config : Config) (p : Instance) : Prop where
  early : p.pc.early = true → p.lockFd = false
  guarded : p.pc.guarded = true → (∃ b : LogBase, b.enabled config = true) → p.lockFd = true
  fresh : p.pc.fresh = true → p.jobs = [] ∧ p.worker = .idle
  busy : p.lockFd = false → p.jobs = [] ∧ p.worker = .idle
  rotating : ∀ b, p.pc = .rotating b → b.enabled config = true
  streams : ∀ b text, p.streams b = some text → b.enabled config = true
  flushed : ∀ b text, p.pc.flushed b = true → p.streams b = some text → text = []

/-- The lock file is left alone, taken or given back. -/
def LockEffect {ι : Type} (path : Bytes) (i : ι) (w w' : World ι) : Prop :=
  (w'.locks = w.locks ∧ w'.self.lockFd = w.self.lockFd) ∨
  (w.locks path = none ∧ w'.locks = w.locks.store path i ∧ w'.self.lockFd = true) ∨
  (w.self.lockFd = true ∧ w'.locks = w.locks.unlink path ∧ w'.self.lockFd = false)

/-- What a call does. -/
structure CallSpec {ι : Type} (config : Config) (i : ι) (w w' : World ι) (ops : List FileOp) :
    Prop where
  inv : LocalInv config w'.self
  locked : ∀ op ∈ ops, op.onOutput config = true → w.self.lockFd = true
  early : w'.self.pc.early = true → w.self.pc.early = true
  locks : LockEffect (lockPath config) i w w'

section Call
variable {ι : Type} {config : Config} {i : ι} {w : World ι}

/-- The main thread goes to a place that asks for no more than the last one. -/
theorem LocalInv.goto {p : Instance} (h : LocalInv config p) {pc pc' : InstancePc}
    (hpc : p.pc = pc) (hearly : pc'.early = true → pc.early = true)
    (hguarded : pc'.guarded = true → (∃ b : LogBase, b.enabled config = true) → p.lockFd = true)
    (hfresh : pc'.fresh = true → pc.fresh = true) (hrotating : ∀ b, pc' ≠ .rotating b)
    (hflushed : ∀ b, pc'.flushed b = true → pc.flushed b = true) :
    LocalInv config { p with pc := pc' } where
  early hpc' := h.early (hpc ▸ hearly hpc')
  guarded := hguarded
  fresh hpc' := h.fresh (hpc ▸ hfresh hpc')
  busy := h.busy
  rotating b hpc' := absurd hpc' (hrotating b)
  streams := h.streams
  flushed b text hpc' := h.flushed b text (hpc ▸ hflushed b hpc')

/-- A call that only goes to another place. -/
theorem CallSpec.goto (h : LocalInv config w.self) {pc pc' : InstancePc} (hpc : w.self.pc = pc)
    (hearly : pc'.early = true → pc.early = true)
    (hguarded : pc'.guarded = true → (∃ b : LogBase, b.enabled config = true) →
      w.self.lockFd = true)
    (hfresh : pc'.fresh = true → pc.fresh = true) (hrotating : ∀ b, pc' ≠ .rotating b)
    (hflushed : ∀ b, pc'.flushed b = true → pc.flushed b = true) :
    CallSpec config i w (w.goto pc') [] where
  inv := h.goto hpc hearly hguarded hfresh hrotating hflushed
  locked := by simp
  early hpc' := hpc ▸ hearly hpc'
  locks := .inl ⟨rfl, rfl⟩

/-- The same for a place that asks for no lock. -/
theorem CallSpec.goto_unguarded (h : LocalInv config w.self) {pc pc' : InstancePc}
    (hpc : w.self.pc = pc) (hearly : pc'.early = true → pc.early = true)
    (hguarded : pc'.guarded = false) (hfresh : pc'.fresh = true → pc.fresh = true)
    (hrotating : ∀ b, pc' ≠ .rotating b)
    (hflushed : ∀ b, pc'.flushed b = true → pc.flushed b = true) :
    CallSpec config i w (w.goto pc') [] := by
  refine .goto h hpc hearly (fun hlock => ?_) hfresh hrotating hflushed
  rw [hguarded] at hlock
  cases hlock

/-! ### Streams -/

/-- A stream that is set to what it is. -/
theorem withStream_eq_self {p : Instance} {b : LogBase} {s : Option Bytes}
    (h : p.streams b = s) : p.withStream b s = p := by
  rw [Instance.withStream, ← h, Function.update_eq_self]

/-- `fflush` empties the stream. -/
theorem fflush_fst (config : Config) (b : LogBase) (p : Instance) :
    (p.fflush config b).1 = p.withStream b ((p.streams b).map fun _ => []) := by
  unfold Instance.fflush
  cases hs : p.streams b with
  | none => exact (withStream_eq_self hs).symm
  | some text =>
      cases text with
      | nil => exact (withStream_eq_self hs).symm
      | cons c cs => rfl

/-- `fflush` writes to the file only when there is unwritten text. -/
theorem fflush_snd {b : LogBase} {p : Instance} {op : FileOp}
    (h : op ∈ (p.fflush config b).2) : ∃ text, p.streams b = some text ∧ text ≠ [] := by
  unfold Instance.fflush at h
  cases hs : p.streams b with
  | none => simp [hs] at h
  | some text =>
      cases text with
      | nil => simp [hs] at h
      | cons c cs => exact ⟨c :: cs, rfl, by simp⟩

/-- `fclose` leaves no stream. -/
theorem fclose_fst (config : Config) (b : LogBase) (p : Instance) :
    (p.fclose config b).1 = p.withStream b none := by
  show (p.fflush config b).1.withStream b none = _
  rw [fflush_fst]
  simp [Instance.withStream]

/-- `fprintf` changes the text of the stream. -/
theorem write_fst (config : Config) (b : LogBase) (text : Bytes) (p : Instance) :
    ∃ f : Bytes → Bytes, (p.write config b text).1 = p.withStream b ((p.streams b).map f) := by
  unfold Instance.write
  cases hs : p.streams b with
  | none => exact ⟨id, (withStream_eq_self hs).symm⟩
  | some pending => exact ⟨fun _ => _, rfl⟩

/-- `fprintf` writes to the file only when the stream is open. -/
theorem write_snd {b : LogBase} {text : Bytes} {p : Instance} {op : FileOp}
    (h : op ∈ (p.write config b text).2) : ∃ pending, p.streams b = some pending := by
  unfold Instance.write at h
  cases hs : p.streams b with
  | none => simp [hs] at h
  | some pending => exact ⟨pending, rfl⟩

@[simp] theorem withStream_streams_self (p : Instance) (b : LogBase) (s : Option Bytes) :
    (p.withStream b s).streams b = s := by
  simp [Instance.withStream]

theorem withStream_streams_of_ne (p : Instance) {b b' : LogBase} (s : Option Bytes) (h : b' ≠ b) :
    (p.withStream b s).streams b' = p.streams b' := by
  simp [Instance.withStream, h]

/-- The instance after a change of one stream and of the place. -/
theorem LocalInv.withStream {p : Instance} (h : LocalInv config p) {b : LogBase}
    {s : Option Bytes} {pc : InstancePc} {m : MainPc}
    (hearly : pc.early = true → p.pc.early = true)
    (hguarded : pc.guarded = true → (∃ b : LogBase, b.enabled config = true) → p.lockFd = true)
    (hfresh : pc.fresh = true → p.pc.fresh = true)
    (hrotating : ∀ b', pc = .rotating b' → b'.enabled config = true)
    (hs : ∀ text, s = some text → b.enabled config = true)
    (hempty : ∀ text, pc.flushed b = true → s = some text → text = [])
    (hflushed : ∀ b', b' ≠ b → pc.flushed b' = true → p.pc.flushed b' = true) :
    LocalInv config { p.withStream b s with pc := pc, rotation := m } where
  early hpc := h.early (hearly hpc)
  guarded := hguarded
  fresh hpc := h.fresh (hfresh hpc)
  busy := h.busy
  rotating := hrotating
  streams b' text htext := by
    by_cases hb : b' = b
    · subst hb
      exact hs text (by simpa using htext)
    · exact h.streams b' text ((withStream_streams_of_ne p s hb).symm.trans htext)
  flushed b' text hpc htext := by
    by_cases hb : b' = b
    · subst hb
      exact hempty text hpc (by simpa using htext)
    · exact h.flushed b' text (hflushed b' hb hpc)
        ((withStream_streams_of_ne p s hb).symm.trans htext)

/-! ### Calls of the main thread -/

variable {setup : Setup} {env : CallEnv}

/-- A call that finds the file only creates it. -/
theorem mem_fopenCall {β : Type} {d : Dir Bytes β} {path : Bytes} {empty : β} {op : FileOp}
    (h : op ∈ (fopenCall d path empty).2) : op = .create path := by
  unfold fopenCall at h
  split at h
  · exact List.mem_singleton.mp h
  · cases h

/-- `acquire_lock` creates the lock file at most. -/
theorem mem_ops_acquireLock {β : Type} {config : Config} {answer : LockAnswer} {empty : β}
    {d : Dir Bytes β} {op : FileOp} (h : op ∈ (acquireLock config answer empty d).ops) :
    op = .create (lockPath config) := by
  cases answer with
  | openFailed => cases h
  | wouldBlock => exact mem_fopenCall h
  | flockFailed _ => exact mem_fopenCall h
  | locked => exact mem_fopenCall h

/-- It succeeds for the answer `locked` only. -/
theorem status_acquireLock_iff {β : Type} (config : Config) (answer : LockAnswer) (empty : β)
    (d : Dir Bytes β) :
    (acquireLock config answer empty d).status = .success ↔ answer = .locked := by
  cases answer <;> simp [acquireLock]

/-- An instance is given the lock only when no one has it. -/
theorem lock_eq_none_of_lockAnswer (h : lockAnswer setup env w = .locked) :
    w.locks (lockPath setup.config) = none := by
  unfold lockAnswer at h
  split at h
  · cases hlock : w.locks (lockPath setup.config) with
    | none => rfl
    | some j => simp [hlock] at h
  · cases h

/-- `acquire_lock` as a call of the main thread. -/
theorem acquireLockCall_spec (h : LocalInv setup.config w.self) (hpc : w.self.pc = .locking) :
    CallSpec setup.config i w (acquireLockCall setup i env w).1
      (acquireLockCall setup i env w).2 := by
  -- A refused instance is where it was, without a lock.
  have hrefused : LocalInv setup.config { w.self with pc := .refused } :=
    h.goto hpc (fun _ => rfl) nofun (fun _ => rfl) nofun (fun _ _ => rfl)
  have hearly : w.self.pc.early = true := by rw [hpc]; rfl
  have hops : (acquireLockCall setup i env w).2
      = (acquireLock setup.config (lockAnswer setup env w) () w.dir).ops := by
    unfold acquireLockCall
    dsimp only
    split <;> rfl
  -- The only operation creates the lock file, which is no file of the outputs.
  have hcreate : ∀ op ∈ (acquireLockCall setup i env w).2,
      op.onOutput setup.config = true → w.self.lockFd = true := by
    intro op hop hout
    rw [hops] at hop
    rw [mem_ops_acquireLock hop] at hout
    simp [FileOp.onOutput, FileOp.paths, isOutputPath_lockPath] at hout
  unfold acquireLockCall at hcreate ⊢
  dsimp only at hcreate ⊢
  split
  · rename_i hstatus
    rw [if_pos hstatus] at hcreate
    have hlock := lock_eq_none_of_lockAnswer ((status_acquireLock_iff ..).mp hstatus)
    refine ⟨?_, hcreate, fun _ => hearly, .inr (.inl ⟨hlock, rfl, rfl⟩)⟩
    -- An instance that takes the lock has had no rotation, so its worker has nothing to do.
    have hidle := h.busy (h.early hearly)
    exact {
      early := fun hpc' => by cases hpc'
      guarded := fun _ _ => rfl
      fresh := fun _ => hidle
      busy := fun _ => hidle
      rotating := fun b hpc' => by cases hpc'
      streams := h.streams
      flushed := fun b text _ => h.flushed b text (by rw [hpc]; rfl) }
  · rename_i hstatus
    rw [if_neg hstatus] at hcreate
    exact ⟨hrefused, hcreate, fun _ => hearly, .inl ⟨rfl, rfl⟩⟩

/-- The release of the lock, when no job is left. -/
theorem releaseLock_spec (h : LocalInv setup.config w.self) {pc : InstancePc}
    (hearly : pc.early = false) (hguarded : pc.guarded = false)
    (hrotating : ∀ b, pc ≠ .rotating b) (hflushed : ∀ b, w.self.pc.flushed b = true)
    (hdone : w.self.jobs = [] ∧ w.self.worker = .idle) :
    CallSpec setup.config i w (releaseLock setup pc w) [] := by
  -- The instance has no job left, so it needs the lock no more.
  have hinv : ∀ fd, LocalInv setup.config { w.self with lockFd := fd, pc := pc } := by
    intro fd
    exact {
      early := fun hpc => by simp [hearly] at hpc
      guarded := fun hpc => by simp [hguarded] at hpc
      fresh := fun _ => hdone
      busy := fun _ => hdone
      rotating := fun b hpc => absurd hpc (hrotating b)
      streams := h.streams
      flushed := fun b text _ => h.flushed b text (hflushed b) }
  unfold releaseLock
  split
  · rename_i hfd
    refine ⟨hinv false, by simp, fun hpc => ?_, .inr (.inr ⟨hfd, rfl, rfl⟩)⟩
    have hpc' : pc.early = true := hpc
    simp [hearly] at hpc'
  · refine ⟨hinv w.self.lockFd, by simp, fun hpc => ?_, .inl ⟨rfl, rfl⟩⟩
    have hpc' : pc.early = true := hpc
    simp [hearly] at hpc'

/-- `fopen` of an output, at a guarded place. -/
theorem openStream_spec (h : LocalInv setup.config w.self) {b : LogBase}
    (hb : b.enabled setup.config = true) (hpc : w.self.pc.guarded = true)
    (hall : ∀ b', w.self.pc.flushed b' = true) {pc : InstancePc} {m : MainPc}
    (hearly : pc.early = false) (hfresh : pc.fresh = true → w.self.pc.fresh = true)
    (hrotating : ∀ b', pc ≠ .rotating b') :
    CallSpec setup.config i w
      (openStream setup b (w.withSelf { w.self with pc := pc, rotation := m })).1
      (openStream setup b (w.withSelf { w.self with pc := pc, rotation := m })).2 := by
  have hlocked : w.self.lockFd = true := h.guarded hpc ⟨b, hb⟩
  have hearly' : pc.early = true → w.self.pc.early = true := by simp [hearly]
  refine ⟨?_, fun _ _ _ => hlocked, hearly', .inl ⟨rfl, rfl⟩⟩
  refine h.withStream hearly' (fun _ _ => hlocked) hfresh
    (fun b' hpc' => absurd hpc' (hrotating b')) (fun _ _ => hb) ?_ (fun b' _ _ => hall b')
  intro text _ htext
  exact (Option.some.inj htext).symm

/-- A call of `rotate_logs` or of the worker, under the lock. -/
theorem CallSpec.withThreads (h : LocalInv config w.self) (hlocked : w.self.lockFd = true)
    (hfresh : w.self.pc.fresh = false) (t : Threads Unit) (ops : List FileOp) :
    CallSpec config i w (w.withThreads t) ops := by
  refine ⟨?_, fun _ _ _ => hlocked, id, .inl ⟨rfl, rfl⟩⟩
  exact {
    early := h.early
    guarded := h.guarded
    fresh := fun hpc => by
      have hpc' : w.self.pc.fresh = true := hpc
      simp [hfresh] at hpc'
    busy := fun hfd => by
      have hfd' : w.self.lockFd = false := hfd
      simp [hlocked] at hfd'
    rotating := h.rotating
    streams := h.streams
    flushed := h.flushed }

/-- The calls of `rotate_and_reopen`. -/
theorem rotateAndReopenCall_spec {b : LogBase} {w' : World ι} {ops : List FileOp}
    (h : LocalInv setup.config w.self) (hpc : w.self.pc = .rotating b)
    (hcall : rotateAndReopenCall setup env b w = some (w', ops)) :
    CallSpec setup.config i w w' ops := by
  have hb := h.rotating b hpc
  have hlocked : w.self.lockFd = true := h.guarded (by rw [hpc]; rfl) ⟨b, hb⟩
  have hdone : (afterChecking b).early = false ∧ (afterChecking b).fresh = false ∧
      ∀ b', afterChecking b ≠ .rotating b' := by
    cases b <;> exact ⟨rfl, rfl, fun _ => by simp [afterChecking]⟩
  -- The rotation was entered for an enabled output, so the lock is held at every call.
  unfold rotateAndReopenCall at hcall
  split at hcall
  · -- The last call opens the new file, or leaves the stream closed.
    split at hcall
    · cases Option.some.inj hcall
      refine openStream_spec h hb (by rw [hpc]; rfl) (fun _ => by rw [hpc]; rfl) hdone.1 ?_
        hdone.2.2
      simp [hdone.2.1]
    · cases Option.some.inj hcall
      have hinv := h.goto hpc (by simp [hdone.1]) (fun _ _ => hlocked) (by simp [hdone.2.1])
        hdone.2.2 (fun _ _ => rfl)
      exact ⟨⟨hinv.early, hinv.guarded, hinv.fresh, hinv.busy, hinv.rotating, hinv.streams,
        hinv.flushed⟩, by simp, by simp [World.withSelf, hdone.1], .inl ⟨rfl, rfl⟩⟩
  · obtain ⟨r, -, hr⟩ := Option.map_eq_some_iff.mp hcall
    cases hr
    exact CallSpec.withThreads h hlocked (by rw [hpc]; rfl) r.1 r.2

/-- The calls of the worker. -/
theorem workerThreadCall_spec {w' : World ι} {ops : List FileOp} (h : LocalInv config w.self)
    (hcall : workerThreadCall w = some (w', ops)) : CallSpec config i w w' ops := by
  obtain ⟨r, hr, heq⟩ := Option.map_eq_some_iff.mp hcall
  cases heq
  -- A worker without a job has no call to make.
  have hbusy : ¬ (w.self.jobs = [] ∧ w.self.worker = .idle) := by
    rintro ⟨hjobs, hworker⟩
    simp [workerCall, World.threads, hjobs, hworker] at hr
  have hlocked : w.self.lockFd = true := by
    cases hfd : w.self.lockFd with
    | true => rfl
    | false => exact absurd (h.busy hfd) hbusy
  have hfresh : w.self.pc.fresh = false := by
    cases hpc : w.self.pc.fresh with
    | false => rfl
    | true => exact absurd (h.fresh hpc) hbusy
  exact CallSpec.withThreads h hlocked hfresh r.1 r.2

/-- The rotation check of an output, which closes the stream of a file that is too large. -/
theorem checking_spec {b : LogBase} {w' : World ι} {ops : List FileOp}
    (h : LocalInv setup.config w.self) (hpc : w.self.pc = .checking b)
    (hcall : mainCall setup i env w = some (w', ops)) : CallSpec setup.config i w w' ops := by
  have hguarded := h.guarded (by rw [hpc]; rfl)
  simp only [mainCall, hpc] at hcall
  split at hcall
  -- The stream is closed, and the rotation begins.
  · rename_i hrotate
    cases hcall
    have hlocked := hguarded ⟨b, hrotate.1⟩
    refine ⟨?_, fun _ _ _ => hlocked, nofun, .inl ⟨rfl, ?_⟩⟩
    · show LocalInv setup.config { (w.self.fclose setup.config b).1 with
        pc := .rotating b, rotation := .unlinkGz }
      rw [fclose_fst]
      refine h.withStream nofun (fun _ _ => hlocked) nofun ?_ nofun nofun ?_
      · intro b' hb'
        cases hb'
        exact hrotate.1
      · intro b' _ _
        rw [hpc]
        rfl
    · show (w.self.fclose setup.config b).1.lockFd = w.self.lockFd
      rw [fclose_fst]
      rfl
  · cases hcall
    cases b <;> exact .goto h hpc nofun (fun _ => hguarded) nofun nofun (fun _ _ => rfl)

/-- The outputs of a snapshot. -/
theorem writing_spec {w' : World ι} {ops : List FileOp} (h : LocalInv setup.config w.self)
    (hpc : w.self.pc = .writing) (hcall : mainCall setup i env w = some (w', ops)) :
    CallSpec setup.config i w w' ops := by
  have hguarded := h.guarded (by rw [hpc]; rfl)
  simp only [mainCall, hpc] at hcall
  split at hcall
  · rename_i b text htext
    cases hcall
    obtain ⟨f, hf⟩ := write_fst setup.config b text w.self
    refine ⟨?_, ?_, ?_, .inl ⟨rfl, ?_⟩⟩
    · show LocalInv setup.config (w.self.write setup.config b text).1
      rw [hf]
      -- An open stream belongs to an enabled output.
      have hopen : ∀ t, (w.self.streams b).map f = some t → b.enabled setup.config = true := by
        intro t ht
        obtain ⟨pending, hpending, -⟩ := Option.map_eq_some_iff.mp ht
        exact h.streams b pending hpending
      have hinv : LocalInv setup.config { w.self.withStream b ((w.self.streams b).map f) with
          pc := .writing, rotation := w.self.rotation } :=
        h.withStream nofun (fun _ => hguarded) nofun nofun hopen nofun nofun
      rw [← hpc] at hinv
      exact hinv
    · intro op hop _
      obtain ⟨pending, hpending⟩ := write_snd hop
      exact hguarded ⟨b, h.streams b pending hpending⟩
    · show (w.self.write setup.config b text).1.pc.early = true → w.self.pc.early = true
      rw [hf]
      exact id
    · show (w.self.write setup.config b text).1.lockFd = w.self.lockFd
      rw [hf]
      rfl
  · cases hcall
    exact .goto h hpc nofun (fun _ => hguarded) nofun nofun (fun _ hflushed => by cases hflushed)

/-- The flush at the end of a snapshot. -/
theorem flushing_spec {b : LogBase} {w' : World ι} {ops : List FileOp}
    (h : LocalInv setup.config w.self) (hpc : w.self.pc = .flushing b)
    (hcall : mainCall setup i env w = some (w', ops)) : CallSpec setup.config i w w' ops := by
  have hguarded := h.guarded (by rw [hpc]; rfl)
  simp only [mainCall, hpc] at hcall
  cases hcall
  have hopen : ∀ t : Bytes, (w.self.streams b).map (fun _ => []) = some t →
      b.enabled setup.config = true ∧ t = [] := by
    intro t ht
    obtain ⟨pending, hpending, rfl⟩ := Option.map_eq_some_iff.mp ht
    exact ⟨h.streams b pending hpending, rfl⟩
  refine ⟨?_, ?_, by cases b <;> nofun, .inl ⟨rfl, ?_⟩⟩
  · show LocalInv setup.config { (w.self.fflush setup.config b).1 with
      pc := if b = .log then .flushing .jsonl else .waiting }
    rw [fflush_fst]
    -- After the second stream both are flushed, because the first one is at this place.
    refine h.withStream (m := w.self.rotation) (by cases b <;> nofun) (fun _ => hguarded)
      (by cases b <;> nofun) (by cases b <;> nofun) (fun t ht => (hopen t ht).1)
      (fun t _ ht => (hopen t ht).2) ?_
    intro b' hb' hflushed
    rw [hpc]
    cases b <;> cases b' <;> first | rfl | exact absurd rfl hb' | exact hflushed
  -- There is nothing left to write at this place.
  · intro op hop _
    obtain ⟨pending, hpending, -⟩ := fflush_snd hop
    exact hguarded ⟨b, h.streams b pending hpending⟩
  · show (w.self.fflush setup.config b).1.lockFd = w.self.lockFd
    rw [fflush_fst]
    rfl

/-- The `fclose` calls behind the release write nothing: every snapshot has flushed its
text. -/
theorem closing_spec {b : LogBase} {w' : World ι} {ops : List FileOp}
    (h : LocalInv setup.config w.self) (hpc : w.self.pc = .closing b)
    (hcall : mainCall setup i env w = some (w', ops)) : CallSpec setup.config i w w' ops := by
  simp only [mainCall, hpc] at hcall
  cases hcall
  refine ⟨?_, ?_, by cases b <;> nofun, .inl ⟨rfl, ?_⟩⟩
  · show LocalInv setup.config { (w.self.fclose setup.config b).1 with
      pc := if b = .log then .closing .jsonl else .joining }
    rw [fclose_fst]
    refine h.withStream (m := w.self.rotation) (by cases b <;> nofun) (by cases b <;> nofun)
      (by cases b <;> nofun) (by cases b <;> nofun) nofun nofun ?_
    intro b' _ _
    rw [hpc]
    rfl
  · intro op hop _
    obtain ⟨text, htext, hne⟩ := fflush_snd hop
    exact absurd (h.flushed b text (by rw [hpc]; rfl) htext) hne
  · show (w.self.fclose setup.config b).1.lockFd = w.self.lockFd
    rw [fclose_fst]
    rfl

/-- The beginning of `process_snapshot_delete_old_files`, which is skipped without `-j`. -/
theorem start_spec {w' : World ι} {ops : List FileOp} (h : LocalInv setup.config w.self)
    (hpc : w.self.pc = .start) (hcall : mainCall setup i env w = some (w', ops)) :
    CallSpec setup.config i w w' ops := by
  simp only [mainCall, hpc] at hcall
  split at hcall
  · split at hcall
    · cases hcall
      exact .goto_unguarded h hpc (fun _ => rfl) rfl (fun _ => rfl) (by simp) (fun _ _ => rfl)
    · cases hcall
      cases env.enoent <;>
        exact .goto_unguarded h hpc (fun _ => rfl) rfl (fun _ => rfl) (by simp) (fun _ _ => rfl)
  · cases hcall
    exact .goto_unguarded h hpc (fun _ => rfl) rfl (fun _ => rfl) (by simp) (fun _ _ => rfl)

/-- The beginning of `process_snapshot_initialize`, which goes on to the lock only if an
output is enabled. -/
theorem preparing_spec {w' : World ι} {ops : List FileOp} (h : LocalInv setup.config w.self)
    (hpc : w.self.pc = .preparing) (hcall : mainCall setup i env w = some (w', ops)) :
    CallSpec setup.config i w w' ops := by
  simp only [mainCall, hpc] at hcall
  split at hcall
  · split at hcall
    · rename_i hdisabled
      cases hcall
      -- Without an output there is nothing that needs the lock.
      refine .goto h hpc (by decide) (fun _ hb => ?_) (fun _ => rfl) (by simp) (fun _ _ => rfl)
      obtain ⟨b, hb⟩ := hb
      cases b
      · exact absurd (hdisabled.1.symm.trans hb) Bool.false_ne_true
      · exact absurd (hdisabled.2.symm.trans hb) Bool.false_ne_true
    · cases hcall
      exact .goto_unguarded h hpc (fun _ => rfl) rfl (fun _ => rfl) (by simp) (fun _ _ => rfl)
  · cases hcall
    exact .goto_unguarded h hpc (by decide) rfl (fun _ => rfl) (by simp) (fun _ _ => rfl)

/-- The opening of an output, with the lock that is there if any output is enabled. -/
theorem opening_spec {w' : World ι} {ops : List FileOp} {b : LogBase} {retVal : Bool}
    (h : LocalInv setup.config w.self) (hpc : w.self.pc = .opening b retVal)
    (hcall : mainCall setup i env w = some (w', ops)) : CallSpec setup.config i w w' ops := by
  have hguarded : (∃ b : LogBase, b.enabled setup.config = true) → w.self.lockFd = true :=
    h.guarded (by rw [hpc]; rfl)
  have hnext : ∀ r, (afterOpening b r).early = false ∧
      (∀ b', afterOpening b r ≠ .rotating b') := by
    intro r
    cases b <;> cases r <;> exact ⟨rfl, by simp [afterOpening]⟩
  have hskip : ∀ r, CallSpec setup.config i w (w.goto (afterOpening b r)) [] := by
    intro r
    have hlate : (afterOpening b r).early ≠ true := by
      rw [(hnext r).1]
      exact Bool.false_ne_true
    exact .goto h hpc (fun hearly => absurd hearly hlate) (fun _ => hguarded) (fun _ => rfl)
      (hnext r).2 (fun _ _ => rfl)
  simp only [mainCall, hpc] at hcall
  split at hcall
  · rename_i hb
    split at hcall
    · cases hcall
      exact openStream_spec h hb (by rw [hpc]; rfl) (fun _ => by rw [hpc]; rfl) (hnext true).1
        (fun _ => by rw [hpc]; rfl) (hnext true).2
    · cases hcall
      exact hskip false
  · cases hcall
    exact hskip retVal

/-- Every call of the main thread, when `-j` finds nothing to delete and the lock is given
back only after the last job. -/
theorem mainCall_spec {w' : World ι} {ops : List FileOp} (h : LocalInv setup.config w.self)
    (hkeep : w.self.pc = .deleting → ∀ name, env.entry = some name → isOldFile name = false)
    (hdone : w.self.pc = .unlocking → w.self.jobs = [] ∧ w.self.worker = .idle)
    (hcall : mainCall setup i env w = some (w', ops)) : CallSpec setup.config i w w' ops := by
  cases hpc : w.self.pc with
  | start => exact start_spec h hpc hcall
  | deleting =>
      simp only [mainCall, hpc] at hcall
      split at hcall
      · rename_i name hentry
        simp only [deleteOldFile, hkeep hpc name hentry] at hcall
        cases hcall
        exact ⟨h, fun _ hop => absurd hop List.not_mem_nil, id, .inl ⟨rfl, rfl⟩⟩
      · cases hcall
        exact .goto_unguarded h hpc (fun _ => rfl) rfl (fun _ => rfl) (by simp) (fun _ _ => rfl)
  | preparing => exact preparing_spec h hpc hcall
  | locking =>
      simp only [mainCall, hpc] at hcall
      have hspec : CallSpec setup.config i w (acquireLockCall setup i env w).1
          (acquireLockCall setup i env w).2 := acquireLockCall_spec h hpc
      rw [Option.some.inj hcall] at hspec
      exact hspec
  | opening b retVal => exact opening_spec h hpc hcall
  | starting =>
      have hguarded : (∃ b : LogBase, b.enabled setup.config = true) → w.self.lockFd = true :=
        h.guarded (by rw [hpc]; rfl)
      simp only [mainCall, hpc] at hcall
      cases hcall
      cases env.ok <;>
        exact .goto h hpc (by decide) (fun _ => hguarded) (fun _ => rfl) (by simp) (fun _ _ => rfl)
  | waiting =>
      have hguarded : (∃ b : LogBase, b.enabled setup.config = true) → w.self.lockFd = true :=
        h.guarded (by rw [hpc]; rfl)
      simp only [mainCall, hpc] at hcall
      cases hcall
      cases env.stop <;>
        exact .goto h hpc (by decide) (fun _ => hguarded) (by decide) (by simp) (fun _ _ => rfl)
  | checking b => exact checking_spec h hpc hcall
  | rotating b =>
      simp only [mainCall, hpc] at hcall
      exact rotateAndReopenCall_spec h hpc hcall
  | writing => exact writing_spec h hpc hcall
  | flushing b => exact flushing_spec h hpc hcall
  | unlocking =>
      simp only [mainCall, hpc] at hcall
      cases hcall
      -- Here the condition on the release is used.
      exact releaseLock_spec h rfl rfl (by simp) (fun _ => by rw [hpc]; rfl) (hdone hpc)
  | closing b => exact closing_spec h hpc hcall
  | joining =>
      simp only [mainCall, hpc] at hcall
      split at hcall
      · split at hcall
        · cases hcall
          exact .goto_unguarded h hpc (by decide) rfl (by decide) (by simp) (fun _ _ => rfl)
        · cases hcall
      · cases hcall
        exact .goto_unguarded h hpc (by decide) rfl (by decide) (by simp) (fun _ _ => rfl)
  | failing =>
      simp only [mainCall, hpc] at hcall
      cases hcall
      exact releaseLock_spec h rfl rfl (by simp) (fun _ => by rw [hpc]; rfl)
        (h.fresh (by rw [hpc]; rfl))
  | refused => simp [mainCall, hpc] at hcall
  | ended => simp [mainCall, hpc] at hcall

end Call

/-! ### Locks -/

section Lock
variable {ι : Type} {w w' : World ι} {i : ι} {path : Bytes}

/-- A call does not touch the lock of another instance. -/
theorem held_of_lockEffect {j : ι} {path' : Bytes} (hne : j ≠ i)
    (h : LockEffect path i w w') (hi : w.self.lockFd = true → w.locks path = some i)
    (hj : w.locks path' = some j) : w'.locks path' = some j := by
  -- The lock that the call touches is free or its own, so it is another one than the lock of `j`.
  have hpath : w.locks path = none ∨ w.locks path = some i → path' ≠ path := by
    rintro hw rfl
    rcases hw with hw | hw
    · rw [hj] at hw
      cases hw
    · exact hne (Option.some.inj (hj.symm.trans hw))
  rcases h with ⟨hlocks, -⟩ | ⟨hfree, hlocks, -⟩ | ⟨hfd, hlocks, -⟩
  · rw [hlocks, hj]
  · rw [hlocks, Dir.store_apply, if_neg (hpath (.inl hfree)), hj]
  · rw [hlocks, Dir.unlink_apply, if_neg (hpath (.inr (hi hfd))), hj]

/-- After its own call an instance with an open lock descriptor holds the lock. -/
theorem held_self_of_lockEffect
    (h : LockEffect path i w w') (hi : w.self.lockFd = true → w.locks path = some i)
    (hfd : w'.self.lockFd = true) : w'.locks path = some i := by
  rcases h with ⟨hlocks, hsame⟩ | ⟨-, hlocks, -⟩ | ⟨-, -, hclosed⟩
  · rw [hlocks]
    exact hi (hsame ▸ hfd)
  · rw [hlocks, Dir.store_apply, if_pos rfl]
  · rw [hfd] at hclosed
    cases hclosed

end Lock

/-! ### All instances -/

section System
variable {ι : Type} [DecidableEq ι] {setup : ι → Setup} {s s' : System ι} {a : ι × InstanceAct}

/-- The scan for `-j` does not meet a file of the outputs. -/
def KeepsOldFiles (s : System ι) (a : ι × InstanceAct) : Prop :=
  ∀ env, a.2 = .main env → (s.instances a.1).pc = .deleting →
    ∀ name, env.entry = some name → isOldFile name = false

/-- The lock is given back only after the last job. -/
def ReleasesWhenDone (s : System ι) (a : ι × InstanceAct) : Prop :=
  ∀ env, a.2 = .main env → (s.instances a.1).pc = .unlocking →
    (s.instances a.1).jobs = [] ∧ (s.instances a.1).worker = .idle

/-- What holds of all instances together. -/
structure SystemInv (setup : ι → Setup) (s : System ι) : Prop where
  locals : ∀ i, LocalInv (setup i).config (s.instances i)
  held : ∀ i, (s.instances i).lockFd = true → s.locks (lockPath (setup i).config) = some i
  trace : ∀ e ∈ s.trace, e.op.onOutput (setup e.actor).config = true → e.holder = some e.actor
  early : ∀ i, (s.instances i).pc.early = true → ∀ e ∈ s.trace, e.actor = i →
    e.op.onOutput (setup i).config = false

omit [DecidableEq ι] in
/-- Every call meets its specification. -/
theorem instanceCall_spec {w' : World ι} {ops : List FileOp} (h : SystemInv setup s)
    (hkeep : KeepsOldFiles s a) (hdone : ReleasesWhenDone s a)
    (hcall : instanceCall setup a.1 a.2 (s.world a.1) = some (w', ops)) :
    CallSpec (setup a.1).config a.1 (s.world a.1) w' ops := by
  have hlocal : LocalInv (setup a.1).config (s.world a.1).self := h.locals a.1
  cases hact : a.2 with
  | main env =>
      rw [hact] at hcall
      exact mainCall_spec hlocal (hkeep env hact) (hdone env hact) hcall
  | worker =>
      rw [hact] at hcall
      exact workerThreadCall_spec hlocal hcall

/-- Every step of the system preserves the invariant when the conditions hold. -/
theorem systemInv_step (h : SystemInv setup s) (hcond : KeepsOldFiles s a ∧ ReleasesWhenDone s a)
    (hstep : systemStep setup s a = some s') : SystemInv setup s' := by
  obtain ⟨⟨w', ops⟩, hcall, rfl⟩ := Option.map_eq_some_iff.mp hstep
  obtain ⟨i, act⟩ := a
  have hspec := instanceCall_spec h hcond.1 hcond.2 hcall
  have hlocked : (s.instances i).lockFd = true → s.locks (lockPath (setup i).config) = some i :=
    h.held i
  have hself : ∀ j, Function.update s.instances i w'.self j
      = if j = i then w'.self else s.instances j := by
    intro j
    rw [Function.update_apply]
  refine ⟨?_, ?_, ?_, ?_⟩
  · intro j
    show LocalInv (setup j).config (Function.update s.instances i w'.self j)
    rw [hself]
    split
    · rename_i hj
      subst hj
      exact hspec.inv
    · exact h.locals j
  -- One lock file has one holder.
  · intro j hfd
    have hfd' : (Function.update s.instances i w'.self j).lockFd = true := hfd
    rw [hself] at hfd'
    split at hfd'
    · rename_i hj
      subst hj
      exact held_self_of_lockEffect hspec.locks hlocked hfd'
    · rename_i hj
      exact held_of_lockEffect hj hspec.locks hlocked (h.held j hfd')
  · intro e he hout
    rcases List.mem_append.mp he with hnew | hold
    · -- An operation of this call: the instance holds its lock.
      obtain ⟨op, hop, rfl⟩ := List.mem_map.mp hnew
      exact hlocked (hspec.locked op hop hout)
    · exact h.trace e hold hout
  · intro j hearly e he hactor
    have hearly' : (Function.update s.instances i w'.self j).pc.early = true := hearly
    rw [hself] at hearly'
    rcases List.mem_append.mp he with hnew | hold
    · obtain ⟨op, hop, rfl⟩ := List.mem_map.mp hnew
      have hij : i = j := hactor
      subst hij
      rw [if_pos rfl] at hearly'
      -- The instance was early before the call as well, so it has no lock.
      by_contra hout
      have hfd : (s.instances i).lockFd = true := hspec.locked op hop (by simpa using hout)
      rw [(h.locals i).early (hspec.early hearly')] at hfd
      cases hfd
    · split at hearly'
      · rename_i hji
        subst hji
        exact h.early j (hspec.early hearly') e hold hactor
      · exact h.early j hearly' e hold hactor

/-- A start: no instance has made a call. The files are arbitrary. -/
structure System.Start (s : System ι) : Prop where
  instances : ∀ i, s.instances i = {}
  locks : ∀ path, s.locks path = none
  trace : s.trace = []

omit [DecidableEq ι] in
/-- The invariant holds at a start. -/
theorem System.Start.inv (h : s.Start) (setup : ι → Setup) : SystemInv setup s := by
  refine ⟨?_, ?_, ?_, ?_⟩
  · intro i
    rw [h.instances i]
    exact ⟨fun _ => rfl, nofun, fun _ => ⟨rfl, rfl⟩, fun _ => ⟨rfl, rfl⟩, nofun, nofun, nofun⟩
  · intro i hfd
    rw [h.instances i] at hfd
    cases hfd
  · simp [h.trace]
  · simp [h.trace]

/-- In every run of any instances in which no scan for `-j` meets a file of the outputs and
every lock is given back after the last job: every deletion, rename, creation or append on
a file of the outputs happens while the instance that performs it holds its lock, and an
instance that could not get the lock has performed none. -/
theorem ops_under_lock (setup : ι → Setup) (s s' : System ι) (acts : List (ι × InstanceAct))
    (hstart : s.Start)
    (hcond : Run.Along (systemStep setup) (fun s a => KeepsOldFiles s a ∧ ReleasesWhenDone s a)
      s acts)
    (hrun : Run.exec (systemStep setup) s acts = some s') :
    (∀ e ∈ s'.trace, e.op.onOutput (setup e.actor).config = true → e.holder = some e.actor) ∧
    ∀ i, (s'.instances i).pc = .refused →
      ∀ e ∈ s'.trace, e.actor = i → e.op.onOutput (setup i).config = false := by
  have hinv : SystemInv setup s' :=
    Run.exec_invariant (fun _ _ _ => systemInv_step) (hstart.inv setup) hcond hrun
  refine ⟨hinv.trace, fun i hpc => hinv.early i ?_⟩
  rw [hpc]
  rfl

instance (s : System ι) (a : ι × InstanceAct) : Decidable (KeepsOldFiles s a) :=
  match hact : a.2 with
  | .main env =>
      match hentry : env.entry with
      | some name =>
          decidable_of_iff ((s.instances a.1).pc = .deleting → isOldFile name = false)
            (by simp [KeepsOldFiles, hact, hentry])
      | none => isTrue (by simp [KeepsOldFiles, hact, hentry])
  | .worker => isTrue (by simp [KeepsOldFiles, hact])

instance (s : System ι) (a : ι × InstanceAct) : Decidable (ReleasesWhenDone s a) :=
  match hact : a.2 with
  | .main _ =>
      decidable_of_iff ((s.instances a.1).pc = .unlocking →
        (s.instances a.1).jobs = [] ∧ (s.instances a.1).worker = .idle)
        (by simp [ReleasesWhenDone, hact])
  | .worker => isTrue (by simp [ReleasesWhenDone, hact])

end System

/-- Two instances with the default configuration. The second one is started with `-j`. -/
def twoInstances (second : Bool) : Setup := { config := configDefault, deleteOldFiles := second }

/-- The first instance starts and waits for its first snapshot. -/
def firstStarts : List (Bool × InstanceAct) := List.replicate 6 (false, .main {})

/-- The second instance starts, and its scan meets these files. It ends at `acquire_lock`. -/
def secondStarts (names : List Bytes) : List (Bool × InstanceAct) :=
  [(true, .main {})] ++ names.map (fun name => (true, .main { entry := some name }))
    ++ List.replicate 3 (true, .main {})

/-- A second instance that is refused and has found nothing to delete. -/
theorem ops_under_lock_refused :
    ∃ s', Run.exec (systemStep twoInstances) { dir := fun _ => none }
        (firstStarts ++ secondStarts [configLockFile]) = some s' ∧
      s'.trace.length = 3 ∧ (s'.instances true).pc = .refused ∧
      (∀ e ∈ s'.trace, e.op.onOutput (twoInstances e.actor).config = true →
        e.holder = some e.actor) ∧
      ∀ i, (s'.instances i).pc = .refused →
        ∀ e ∈ s'.trace, e.actor = i → e.op.onOutput (twoInstances i).config = false := by
  have hend : (Run.exec (systemStep twoInstances) { dir := fun _ => none }
      (firstStarts ++ secondStarts [configLockFile])).map
      (fun s => (s.trace.length, (s.instances true).pc)) = some (3, .refused) := by
    decide +kernel
  obtain ⟨s', hrun, hs'⟩ := Option.map_eq_some_iff.mp hend
  simp only [Prod.mk.injEq] at hs'
  exact ⟨s', hrun, hs'.1, hs'.2, ops_under_lock twoInstances { dir := fun _ => none } s' _
    ⟨fun _ => rfl, fun _ => rfl, rfl⟩ (by decide +kernel) hrun⟩

/-- A second instance with `-j` deletes the active file of the first one, which holds the
lock, and is refused afterwards. -/
theorem not_ops_under_lock_delete :
    ¬ ∀ (setup : Bool → Setup) (s s' : System Bool) (acts : List (Bool × InstanceAct)),
      (setup false).config.configGetOutputDir = (setup true).config.configGetOutputDir →
      (∀ i, (setup i).config.configGetRawLogEnabled = true) → s.Start →
      Run.exec (systemStep setup) s acts = some s' →
      ∀ e ∈ s'.trace, e.op.onOutput (setup e.actor).config = true → e.holder = some e.actor := by
  intro hclaim
  have hend : (Run.exec (systemStep twoInstances) { dir := fun _ => none }
      (firstStarts ++ secondStarts [configLogFile])).map (fun s => s.trace.head?)
      = some (some ⟨true, .unlink (LogBase.log.path configDefault), some false⟩) := by
    decide +kernel
  obtain ⟨s', hrun, hhead⟩ := Option.map_eq_some_iff.mp hend
  have hmem := List.mem_of_head? hhead
  have hholder := hclaim twoInstances { dir := fun _ => none } s' _ rfl (fun _ => rfl)
    ⟨fun _ => rfl, fun _ => rfl, rfl⟩ hrun _ hmem (by decide +kernel)
  cases hholder


-- One instance with compression leaves the loop right after a rotation: it has given its lock
-- back when its worker creates the compressed file.
example :
    (Run.exec (systemStep fun _ : Unit =>
        { config := { configDefault with compressionEnabled := true }, deleteOldFiles := false })
      { dir := fun _ => none }
      ((List.replicate 7 (InstanceAct.main {}) ++ [InstanceAct.main { tooLarge := true }]
        ++ List.replicate 13 (InstanceAct.main {})
        ++ [InstanceAct.main { stop := true }, InstanceAct.main {}]
        ++ List.replicate 2 InstanceAct.worker).map fun act => ((), act))).map
      (fun s => s.trace.head?.map fun e => e.holder)
      = some (some none) := by
  decide +kernel

end ProcessAnalyzer
