import Mathlib.Data.Set.Card
import ProcessAnalyzer.Proofs.CompressionSteps

/-!
# `ProcessAnalyzer.Proofs.MixedRotation`: rotations under changing compression settings

The setting `compression_enabled` can change between two runs of the program, and then
`rotate_logs` finds the files that it left under the other setting. A run here is a sequence
of rotations of one output, each with its own configuration (`MixedRotation`). With
compression the worker finishes its job before the next rotation.

With compression a round of the loop has a fallback for the other form of its slot. So every
slot moves up in its own form, plain or compressed (`shiftSlots_compressed`,
`compressedShift_runWorker`). Without compression the loop renames plain files only. A
compressed file below the limit stays where it is (`Rotated.slots`), and a plain file that
moves up can come to stand beside it.

The invariant has two parts. `InRange` says that only the slots `1` to `M` exist, and every
rotation keeps it. `SingleForm` says that no slot exists in both forms. Together they give the
limit (`encard_slots_le`). `RetainedAfter` asks for the limit at every point after
`rotate_logs`: after any number of steps of the worker.

`retainedAfter_run_iff` is the result: in a run from a directory without rotated files the
limit holds after every rotation exactly when no rotation without compression moves a plain
file beside a compressed one (`MovesApart`).
-/

set_option autoImplicit false

namespace ProcessAnalyzer

open ProcessAnalyzer.Lib

variable {β : Type} {M : ℕ}

/-! ### One rotation, up to the end of its job -/

/-- One rotation under the limit `M`: the configuration in force, the answers of `time(NULL)`
and of the `malloc` for the job, the `static` counter, and the active file (`none` when there
is none). -/
structure MixedRotation (β : Type) (M : ℕ) where
  config : Config
  limit : config.configGetMaxNumberOfFiles.toInt = M
  now : Int64
  mallocOk : Bool
  counter : UInt32
  active : Option β

/-- The worker takes its steps while it has something to do. -/
def runWorker (gzip : β → β) : ℕ → Threads β → Threads β
  | 0, s => s
  | n + 1, s =>
      match workerCall gzip s with
      | none => s
      | some (s', _) => runWorker gzip n s'

/-- What the worker finds after `rotate_logs`. -/
def rotatedThreads (filePath : Bytes) (d : Dir Bytes β) (e : MixedRotation β M) :
    Threads β :=
  let r := rotateLogs e.config filePath e.now e.mallocOk
    ⟨Function.update d filePath e.active, e.counter, []⟩
  { dir := r.dir, rotationCounter := r.rotationCounter, jobs := r.jobs }

/-- A rotation whose job is finished: a job takes the worker four steps at most. -/
def mixedStep (gzip : β → β) (filePath : Bytes) (d : Dir Bytes β) (e : MixedRotation β M) :
    Option (Dir Bytes β) :=
  let t := runWorker gzip 4 (rotatedThreads filePath d e)
  if t.jobs = [] ∧ t.worker = .idle then some t.dir else none

/-! ### The loop with compression -/

section Shift
variable (filePath : Bytes)

/-- A round of the loop with compression whose targets are free and whose slot has one form
at most: both forms move up. -/
theorem shiftSlot_compressed_apply {i : ℕ} {d : Dir Bytes β}
    (hplain : d (FileName.render filePath (.plain (i + 1))) = none)
    (hgz : d (FileName.render filePath (.gz (i + 1))) = none)
    (hsingle : d (FileName.render filePath (.plain i)) = none
      ∨ d (FileName.render filePath (.gz i)) = none) (q : Bytes) :
    shiftSlot true filePath i d q
      = if q = FileName.render filePath (.plain (i + 1)) then
          d (FileName.render filePath (.plain i))
        else if q = FileName.render filePath (.gz (i + 1)) then
          d (FileName.render filePath (.gz i))
        else if q = FileName.render filePath (.plain i) ∨ q = FileName.render filePath (.gz i) then
          none
        else d q := by
  cases hsrc : d (FileName.render filePath (.gz i)) with
  | some x =>
      -- The compressed file moves, and there is no plain one.
      have hnone : d (FileName.render filePath (.plain i)) = none := by
        rcases hsingle with h | h
        · exact h
        · rw [h] at hsrc
          cases hsrc
      have hshift : shiftSlot true filePath i d
          = (d.rename (FileName.render filePath (.gz i))
            (FileName.render filePath (.gz (i + 1)))).1 := by
        have hren : d.rename (rotatedGzPath filePath i) (rotatedGzPath filePath (i + 1)) = _ :=
          Dir.rename_of_some _ hsrc
        unfold shiftSlot
        show _ = (d.rename (rotatedGzPath filePath i) (rotatedGzPath filePath (i + 1))).1
        rw [if_pos rfl, hren]
      rw [hshift, Dir.rename_apply_of_vacant hgz, hsrc, hnone]
      by_cases h₁ : q = FileName.render filePath (.plain (i + 1))
      · rw [if_pos h₁, h₁, if_neg (render_ne (by simp)), if_neg (render_ne (by simp)), hplain]
      · rw [if_neg h₁]
        by_cases h₂ : q = FileName.render filePath (.gz (i + 1))
        · rw [if_pos h₂, if_pos h₂]
        · rw [if_neg h₂, if_neg h₂]
          by_cases h₃ : q = FileName.render filePath (.gz i)
          · rw [if_pos h₃, if_pos (Or.inr h₃)]
          · rw [if_neg h₃]
            by_cases h₄ : q = FileName.render filePath (.plain i)
            · rw [if_pos (Or.inl h₄), h₄, hnone]
            · rw [if_neg (by simp [h₃, h₄])]
  | none =>
      have hshift : shiftSlot true filePath i d
          = (d.rename (FileName.render filePath (.plain i))
            (FileName.render filePath (.plain (i + 1)))).1 := by
        have hren : d.rename (rotatedGzPath filePath i) (rotatedGzPath filePath (i + 1)) = _ :=
          Dir.rename_of_none _ hsrc
        unfold shiftSlot
        rw [if_pos rfl, hren]
        rfl
      rw [hshift, Dir.rename_apply_of_vacant hplain]
      by_cases h₁ : q = FileName.render filePath (.plain (i + 1))
      · rw [if_pos h₁, if_pos h₁]
      · rw [if_neg h₁, if_neg h₁]
        by_cases h₂ : q = FileName.render filePath (.gz (i + 1))
        · rw [if_pos h₂, h₂, if_neg (render_ne (by simp)), hgz]
        · rw [if_neg h₂]
          by_cases h₃ : q = FileName.render filePath (.plain i)
          · rw [if_pos h₃, if_pos (Or.inl h₃)]
          · rw [if_neg h₃]
            by_cases h₄ : q = FileName.render filePath (.gz i)
            · rw [if_pos (Or.inr h₄), h₄, hsrc]
            · rw [if_neg (by simp [h₃, h₄])]

/-- A name that is none of the two forms of the slot and its target stays. -/
theorem shiftSlot_compressed_apply_of_ne {i : ℕ} {d : Dir Bytes β}
    (hplain : d (FileName.render filePath (.plain (i + 1))) = none)
    (hgz : d (FileName.render filePath (.gz (i + 1))) = none)
    (hsingle : d (FileName.render filePath (.plain i)) = none
      ∨ d (FileName.render filePath (.gz i)) = none) {n : FileName} (h₁ : n ≠ .plain (i + 1))
    (h₂ : n ≠ .gz (i + 1)) (h₃ : n ≠ .plain i) (h₄ : n ≠ .gz i) :
    shiftSlot true filePath i d (n.render filePath) = d (n.render filePath) := by
  rw [shiftSlot_compressed_apply filePath hplain hgz hsingle, if_neg (render_ne h₁),
    if_neg (render_ne h₂), if_neg]
  rintro (h | h)
  · exact render_ne h₃ h
  · exact render_ne h₄ h

/-- The loop with compression on slots that have one form at most: both forms of every slot
move up, and nothing else changes. -/
theorem shiftSlots_compressed (m : ℕ) (d : Dir Bytes β)
    (hplain : d (FileName.render filePath (.plain (m + 1))) = none)
    (hgz : d (FileName.render filePath (.gz (m + 1))) = none)
    (hsingle : ∀ i, 1 ≤ i → i ≤ m → d (FileName.render filePath (.plain i)) = none
      ∨ d (FileName.render filePath (.gz i)) = none) :
    let d' := shiftSlots true filePath m d
    d' (FileName.render filePath (.plain 1)) = none ∧ d' (FileName.render filePath (.gz 1)) = none ∧
    (∀ i, 1 ≤ i → i ≤ m →
      d' (FileName.render filePath (.plain (i + 1))) = d (FileName.render filePath (.plain i)) ∧
      d' (FileName.render filePath (.gz (i + 1))) = d (FileName.render filePath (.gz i))) ∧
    (∀ q, (∀ i, 1 ≤ i → i ≤ m + 1 → q ≠ FileName.render filePath (.plain i)
      ∧ q ≠ FileName.render filePath (.gz i)) → d' q = d q) := by
  induction m generalizing d with
  | zero => exact ⟨hplain, hgz, fun i h1 hi => by omega, fun q _ => rfl⟩
  | succ m ih =>
      have hround := shiftSlot_compressed_apply filePath hplain hgz
        (hsingle (m + 1) (by omega) (le_refl _))
      -- The round frees the slot that the rest of the loop moves into, and keeps those below.
      have hbelow : ∀ i, i ≤ m →
          shiftSlot true filePath (m + 1) d (FileName.render filePath (.plain i))
            = d (FileName.render filePath (.plain i)) ∧
          shiftSlot true filePath (m + 1) d (FileName.render filePath (.gz i))
            = d (FileName.render filePath (.gz i)) := by
        intro i hi
        have hkeep : ∀ n : FileName, n ≠ .plain (m + 2) → n ≠ .gz (m + 2) → n ≠ .plain (m + 1) →
            n ≠ .gz (m + 1) →
            shiftSlot true filePath (m + 1) d (n.render filePath) = d (n.render filePath) :=
          fun n => shiftSlot_compressed_apply_of_ne filePath hplain hgz
            (hsingle (m + 1) (by omega) (le_refl _))
        exact ⟨hkeep (.plain i) (by simp; omega) (by simp) (by simp; omega) (by simp),
          hkeep (.gz i) (by simp) (by simp; omega) (by simp) (by simp; omega)⟩
      obtain ⟨hfirst, hfirstGz, hmoved, hother⟩ := ih (shiftSlot true filePath (m + 1) d)
        (by rw [hround, if_neg (render_ne (by simp)), if_neg (render_ne (by simp)),
          if_pos (Or.inl rfl)])
        (by rw [hround, if_neg (render_ne (by simp)), if_neg (render_ne (by simp)),
          if_pos (Or.inr rfl)])
        (by
          intro i h1 hi
          rw [(hbelow i hi).1, (hbelow i hi).2]
          exact hsingle i h1 (by omega))
      have htop : ∀ q, (q = FileName.render filePath (.plain (m + 2))
            ∨ q = FileName.render filePath (.gz (m + 2))) →
          shiftSlots true filePath m (shiftSlot true filePath (m + 1) d) q
            = shiftSlot true filePath (m + 1) d q := by
        intro q hq
        apply hother
        intro i _ hi
        rcases hq with rfl | rfl
        · exact ⟨render_ne (by simp; omega), render_ne (by simp)⟩
        · exact ⟨render_ne (by simp), render_ne (by simp; omega)⟩
      refine ⟨hfirst, hfirstGz, ?_, ?_⟩
      · intro i h1 hi
        rcases Nat.lt_or_ge i (m + 1) with hlt | hge
        · have hmove := hmoved i h1 (by omega)
          rw [(hbelow i (by omega)).1, (hbelow i (by omega)).2] at hmove
          exact hmove
        · obtain rfl : i = m + 1 := by omega
          constructor
          · rw [shiftSlots, htop _ (Or.inl rfl), hround, if_pos rfl]
          · rw [shiftSlots, htop _ (Or.inr rfl), hround, if_neg (render_ne (by simp)), if_pos rfl]
      · intro q hq
        rw [shiftSlots, hother q fun i h1 hi => hq i h1 (by omega), hround,
          if_neg (hq (m + 2) (by omega) (by omega)).1, if_neg (hq (m + 2) (by omega) (by omega)).2,
          if_neg]
        rintro (h | h)
        · exact (hq (m + 1) (by omega) (by omega)).1 h
        · exact (hq (m + 1) (by omega) (by omega)).2 h

end Shift

/-! ### The worker and the slots -/

section Worker
variable (gzip : β → β) (filePath : Bytes)

/-- The job that the worker has taken. -/
def WorkerPc.job? : WorkerPc → Option Bytes
  | .idle => none
  | .compress job => some job
  | .rename job => some job
  | .unlinkOriginal job => some job

/-- The jobs are files of this output that wait for their compression. -/
def UniqueJobs (s : Threads β) : Prop :=
  ∀ job, job ∈ s.jobs ∨ s.worker.job? = some job → ∃ t c, job = uniquePath filePath t c

/-- The worker goes on with a job of its output, or with none. -/
theorem UniqueJobs.next {s : Threads β} (h : UniqueJobs filePath s) (d : Dir Bytes β)
    (w : WorkerPc) (hw : ∀ job, w.job? = some job → ∃ t c, job = uniquePath filePath t c) :
    UniqueJobs filePath { s with dir := d, worker := w } := by
  rintro job (hmem | htaken)
  · exact h job (Or.inl hmem)
  · exact hw job htaken

/-- A slot is no file that waits for its compression. -/
theorem render_ne_uniquePath {n : FileName} (hn : n.IsSlot) (t : Int64) (c : UInt32) :
    n.render filePath ≠ uniquePath filePath t c
      ∧ n.render filePath ≠ uniquePath filePath t c ++ gzSuffix := by
  constructor
  · apply render_ne (n := .unique t c)
    rintro rfl
    exact hn
  · apply render_ne (n := .uniqueGz t c)
    rintro rfl
    exact hn

/-- A step of the worker touches no slot but the first compressed one. -/
theorem workerCall_slot {s s' : Threads β} {ops : List FileOp} (hjobs : UniqueJobs filePath s)
    (h : workerCall gzip s = some (s', ops)) :
    UniqueJobs filePath s' ∧ ∀ n : FileName, n.IsSlot → n ≠ .gz 1 →
      s'.dir (n.render filePath) = s.dir (n.render filePath) := by
  have hidle : ∀ job, WorkerPc.idle.job? = some job → ∃ t c, job = uniquePath filePath t c := by
    intro job hjob
    cases hjob
  have htaken : ∀ t c job, some (uniquePath filePath t c) = some job →
      ∃ t c, job = uniquePath filePath t c := by
    intro t c job hjob
    exact ⟨t, c, (Option.some.inj hjob).symm⟩
  unfold workerCall at h
  cases hworker : s.worker with
  | idle =>
      cases hqueue : s.jobs with
      | nil => simp [hworker, hqueue] at h
      | cons job rest =>
          simp only [hworker, hqueue] at h
          cases h
          refine ⟨?_, fun _ _ _ => rfl⟩
          -- The job that the worker takes was the first one of the queue.
          intro other hother
          apply hjobs
          left
          rw [hqueue]
          rcases hother with hmem | heq
          · exact List.mem_cons_of_mem job hmem
          · rw [← Option.some.inj heq]
            exact List.mem_cons_self
  | compress job =>
      obtain ⟨t, c, rfl⟩ := hjobs job (by simp [hworker, WorkerPc.job?])
      simp only [hworker, extractBasePath_uniquePath] at h
      cases hfile : s.dir (uniquePath filePath t c) with
      | none =>
          simp only [hfile] at h
          cases h
          exact ⟨hjobs.next filePath _ _ hidle, fun _ _ _ => rfl⟩
      | some data =>
          simp only [hfile] at h
          cases h
          refine ⟨hjobs.next filePath _ _ (htaken t c), ?_⟩
          intro n hn _
          show s.dir.store (uniquePath filePath t c ++ gzSuffix) (gzip data) (n.render filePath) = _
          rw [Dir.store_apply, if_neg (render_ne_uniquePath filePath hn t c).2]
  | rename job =>
      obtain ⟨t, c, rfl⟩ := hjobs job (by simp [hworker, WorkerPc.job?])
      simp only [hworker, extractBasePath_uniquePath, renameCall] at h
      have hslot : ∀ n : FileName, n.IsSlot → n ≠ .gz 1 →
          (s.dir.rename (uniquePath filePath t c ++ gzSuffix)
            (filePath ++ ascii ".1" ++ gzSuffix)).1 (n.render filePath)
              = s.dir (n.render filePath) := by
        intro n hn hgz
        apply Dir.rename_apply_of_ne s.dir (render_ne_uniquePath filePath hn t c).2
        rw [finalPath_eq]
        exact fun heq => hgz (render_injective filePath heq)
      rcases hrename : s.dir.rename (uniquePath filePath t c ++ gzSuffix)
        (filePath ++ ascii ".1" ++ gzSuffix) with ⟨d, _ | _⟩
      · simp only [hrename] at h hslot
        cases h
        exact ⟨hjobs.next filePath _ _ hidle, hslot⟩
      · simp only [hrename] at h hslot
        cases h
        exact ⟨hjobs.next filePath _ _ (htaken t c), hslot⟩
  | unlinkOriginal job =>
      obtain ⟨t, c, rfl⟩ := hjobs job (by simp [hworker, WorkerPc.job?])
      simp only [hworker, unlinkCall] at h
      cases h
      refine ⟨hjobs.next filePath _ _ hidle, ?_⟩
      intro n hn _
      show s.dir.unlink (uniquePath filePath t c) (n.render filePath) = _
      rw [Dir.unlink_apply, if_neg (render_ne_uniquePath filePath hn t c).1]

/-- Neither do its steps together. -/
theorem runWorker_slot {s : Threads β} (hjobs : UniqueJobs filePath s) (k : ℕ) {n : FileName}
    (hn : n.IsSlot) (hgz : n ≠ .gz 1) :
    (runWorker gzip k s).dir (n.render filePath) = s.dir (n.render filePath) := by
  induction k generalizing s with
  | zero => rfl
  | succ k ih =>
      rw [runWorker]
      cases hcall : workerCall gzip s with
      | none => rfl
      | some r =>
          obtain ⟨s', ops⟩ := r
          obtain ⟨hjobs', hslot⟩ := workerCall_slot gzip filePath hjobs hcall
          show (runWorker gzip k s').dir (n.render filePath) = _
          rw [ih hjobs', hslot n hn hgz]

/-- A worker without jobs does nothing. -/
theorem runWorker_nil (k : ℕ) {s : Threads β} (hjobs : s.jobs = []) (hidle : s.worker = .idle) :
    runWorker gzip k s = s := by
  cases k with
  | zero => rfl
  | succ k => simp only [runWorker, workerCall, hjobs, hidle]

/-- Four steps finish a job, whether its file is there or not. -/
theorem runWorker_finishes (t : Int64) (c : UInt32) {s : Threads β}
    (hjobs : s.jobs = [uniquePath filePath t c]) (hidle : s.worker = .idle) :
    (runWorker gzip 4 s).jobs = [] ∧ (runWorker gzip 4 s).worker = .idle := by
  have hbase := extractBasePath_uniquePath filePath t c
  cases hfile : s.dir (uniquePath filePath t c) with
  | none => simp only [runWorker, workerCall, hjobs, hidle, hbase, hfile, and_self]
  | some data =>
      -- The rename finds the file that the compression has just written.
      have hstored : s.dir.store (uniquePath filePath t c ++ gzSuffix) (gzip data)
          (uniquePath filePath t c ++ gzSuffix) = some (gzip data) := by
        rw [Dir.store_apply, if_pos rfl]
      have hrename := Dir.rename_of_some (filePath ++ ascii ".1" ++ gzSuffix) hstored
      simp only [runWorker, workerCall, hjobs, hidle, hbase, hfile, renameCall, hrename, unlinkCall,
        and_self]

end Worker

/-! ### What a rotation does to the slots -/

section Slots
variable (gzip : β → β) (filePath : Bytes)

/-- The index of a slot. -/
def FileName.index : FileName → ℕ
  | .plain i => i
  | .gz i => i
  | _ => 0

/-- The slots that exist are those of the limit. -/
def InRange (M : ℕ) (d : Dir Bytes β) : Prop :=
  ∀ n : FileName, n.IsSlot → d (n.render filePath) ≠ none → 1 ≤ n.index ∧ n.index ≤ M

/-- No slot exists in both forms. -/
def SingleForm (d : Dir Bytes β) : Prop :=
  ∀ i, d (FileName.render filePath (.plain i)) = none ∨ d (FileName.render filePath (.gz i)) = none

/-- The slots after a rotation with compression. The worker fills the first one when it likes. -/
structure CompressedShift (M : ℕ) (d d' : Dir Bytes β) : Prop where
  /-- slot `i + 1` is the old slot `i` in the same form, present or absent -/
  shifted : ∀ i, 1 ≤ i → i < M →
    d' (FileName.render filePath (.plain (i + 1))) = d (FileName.render filePath (.plain i)) ∧
    d' (FileName.render filePath (.gz (i + 1))) = d (FileName.render filePath (.gz i))
  /-- there is no plain slot 1 -/
  first : d' (FileName.render filePath (.plain 1)) = none
  /-- the slots outside the limit are as before -/
  outside : ∀ n : FileName, n.IsSlot → ¬ (1 ≤ n.index ∧ n.index ≤ M) →
    d' (n.render filePath) = d (n.render filePath)

/-- The queue after a rotation: the unique name of the active file, or nothing. -/
theorem jobs_rotatedThreads (d : Dir Bytes β) (e : MixedRotation β M) :
    (rotatedThreads filePath d e).jobs
      = if e.config.configGetCompressionEnabled ∧ e.mallocOk then
          [uniquePath filePath e.now e.counter]
        else [] := by
  unfold rotatedThreads rotateLogs compressionEnqueueFile
  cases e.config.configGetCompressionEnabled <;> cases e.mallocOk <;> rfl

/-- So a rotation leaves jobs of its own output only. -/
theorem uniqueJobs_rotatedThreads (d : Dir Bytes β) (e : MixedRotation β M) :
    UniqueJobs filePath (rotatedThreads filePath d e) := by
  rintro job (hmem | htaken)
  · rw [jobs_rotatedThreads] at hmem
    split at hmem
    · exact ⟨e.now, e.counter, List.mem_singleton.mp hmem⟩
    · cases hmem
  · cases htaken

/-- A rotation with compression and any number of steps of the worker: every slot moves up in
its own form. -/
theorem compressedShift_runWorker (hpos : 1 ≤ M) {d : Dir Bytes β} (hsingle : SingleForm filePath d)
    {e : MixedRotation β M} (hon : e.config.configGetCompressionEnabled = true) (k : ℕ) :
    CompressedShift filePath M d (runWorker gzip k (rotatedThreads filePath d e)).dir := by
  -- The directory before the shift: the slot `M` is free in both forms.
  set d₀ : Dir Bytes β := Dir.unlink (Dir.unlink (Function.update d filePath e.active)
    (FileName.render filePath (.gz M))) (FileName.render filePath (.plain M)) with hd₀
  have hd₀_apply : ∀ n : FileName, n.IsSlot → n ≠ .plain M → n ≠ .gz M →
      d₀ (n.render filePath) = d (n.render filePath) := by
    intro n hn hplain hgz
    have hactive : n.render filePath ≠ FileName.render filePath .active :=
      render_ne (by rintro rfl; exact hn)
    rw [hd₀, Dir.unlink_apply, if_neg (render_ne hplain), Dir.unlink_apply, if_neg (render_ne hgz)]
    exact Function.update_of_ne hactive _ _
  have hfreePlain : d₀ (FileName.render filePath (.plain M)) = none := by
    rw [hd₀, Dir.unlink_self]
  have hfreeGz : d₀ (FileName.render filePath (.gz M)) = none := by
    rw [hd₀, Dir.unlink_apply, if_neg (render_ne (by simp)), Dir.unlink_self]
  have hlast : M - 1 + 1 = M := by omega
  obtain ⟨hfirst, -, hmoved, hother⟩ := shiftSlots_compressed filePath (M - 1) d₀
    (by rw [hlast]; exact hfreePlain) (by rw [hlast]; exact hfreeGz)
    (by
      intro i _ hi
      rw [hd₀_apply (.plain i) trivial (by simp; omega) (by simp),
        hd₀_apply (.gz i) trivial (by simp) (by simp; omega)]
      exact hsingle i)
  -- After the shift the slots are left alone, by the main thread and by the worker.
  have hslot : ∀ n : FileName, n.IsSlot → n ≠ .gz 1 →
      (runWorker gzip k (rotatedThreads filePath d e)).dir (n.render filePath)
        = shiftSlots true filePath (M - 1) d₀ (n.render filePath) := by
    intro n hn hgz
    have hactive : n.render filePath ≠ FileName.render filePath .active :=
      render_ne (by rintro rfl; exact hn)
    rw [runWorker_slot gzip filePath (uniqueJobs_rotatedThreads filePath d e) k hn hgz]
    show (rotateLogs e.config filePath e.now e.mallocOk
      ⟨Function.update d filePath e.active, e.counter, []⟩).dir (n.render filePath) = _
    rw [rotateLogs_dir e.config filePath e.now e.mallocOk _ M e.limit, hon, if_pos rfl]
    exact Dir.rename_apply_of_ne (shiftSlots true filePath (M - 1) d₀) hactive
      (render_ne_uniquePath filePath hn e.now e.counter).1
  refine ⟨?_, ?_, ?_⟩
  · intro i h1 hi
    obtain ⟨hplain, hgz⟩ := hmoved i h1 (by omega)
    rw [hslot (.plain (i + 1)) trivial (by simp), hslot (.gz (i + 1)) trivial (by simp; omega),
      hplain, hgz, hd₀_apply (.plain i) trivial (by simp; omega) (by simp),
      hd₀_apply (.gz i) trivial (by simp) (by simp; omega)]
    exact ⟨rfl, rfl⟩
  · rw [hslot (.plain 1) trivial (by simp), hfirst]
  · intro n hn houtside
    have hne : ∀ i, 1 ≤ i → i ≤ M → n ≠ .plain i ∧ n ≠ .gz i := by
      intro i h1 hi
      constructor
      · rintro rfl
        exact houtside ⟨h1, hi⟩
      · rintro rfl
        exact houtside ⟨h1, hi⟩
    have hlimit := hne M hpos le_rfl
    rw [hslot n hn (hne 1 le_rfl hpos).2, hother, hd₀_apply n hn hlimit.1 hlimit.2]
    intro i h1 hi
    exact ⟨render_ne (hne i h1 (by omega)).1, render_ne (hne i h1 (by omega)).2⟩

/-- A rotation without compression leaves no job, and the slots that `Rotated` says. -/
theorem rotated_runWorker (hpos : 1 ≤ M) (d : Dir Bytes β) {e : MixedRotation β M}
    (hoff : e.config.configGetCompressionEnabled = false) (k : ℕ) :
    Rotated M filePath (Function.update d filePath e.active)
      (runWorker gzip k (rotatedThreads filePath d e)).dir := by
  have hjobs : (rotatedThreads filePath d e).jobs = [] := by
    rw [jobs_rotatedThreads, if_neg (by simp [hoff])]
  rw [runWorker_nil gzip k hjobs rfl]
  exact rotateLogs_uncompressed e.config filePath e.now e.mallocOk
    ⟨Function.update d filePath e.active, e.counter, []⟩ M e.limit hpos hoff

/-- Every rotation comes to its end. -/
theorem mixedStep_eq (d : Dir Bytes β) (e : MixedRotation β M) :
    mixedStep gzip filePath d e = some (runWorker gzip 4 (rotatedThreads filePath d e)).dir := by
  unfold mixedStep
  rw [if_pos]
  have hjobs := jobs_rotatedThreads filePath d e
  split at hjobs
  · exact runWorker_finishes gzip filePath e.now e.counter hjobs rfl
  · rw [runWorker_nil gzip 4 hjobs rfl]
    exact ⟨hjobs, rfl⟩

end Slots

/-! ### The retention limit -/

section Retention
variable (gzip : β → β) (filePath : Bytes)

/-- At most `M` rotated files exist, and no index has both a plain and a compressed one. -/
def RetentionHolds (M : ℕ) (d : Dir Bytes β) : Prop :=
  {n : FileName | n.IsSlot ∧ d (n.render filePath) ≠ none}.encard ≤ M ∧ SingleForm filePath d

/-- A rotation comes to its end, and from `rotate_logs` on the limit holds at every point. -/
def RetainedAfter (d : Dir Bytes β) (e : MixedRotation β M) : Prop :=
  mixedStep gzip filePath d e ≠ none ∧
    ∀ k, RetentionHolds filePath M (runWorker gzip k (rotatedThreads filePath d e)).dir

/-- A rotation without compression moves no plain file beside a compressed one: below the
limit, where `base.i.gz` exists, there is no `base.(i - 1)`. In front of slot 1 stands the
active file. -/
def MovesApart (d : Dir Bytes β) (e : MixedRotation β M) : Prop :=
  e.config.configGetCompressionEnabled = false → ∀ i, 1 ≤ i → i < M →
    d (FileName.render filePath (.gz i)) ≠ none →
      (if i = 1 then e.active else d (FileName.render filePath (.plain (i - 1)))) = none

/-- Slots of the limit with one form each are at most as many as the limit. -/
theorem encard_slots_le {d : Dir Bytes β} (hrange : InRange filePath M d)
    (hsingle : SingleForm filePath d) :
    {n : FileName | n.IsSlot ∧ d (n.render filePath) ≠ none}.encard ≤ M := by
  have hmaps : ∀ n ∈ {n : FileName | n.IsSlot ∧ d (n.render filePath) ≠ none},
      n.index ∈ (Finset.Icc 1 M : Set ℕ) := by
    rintro n ⟨hslot, hsome⟩
    rw [Finset.mem_coe, Finset.mem_Icc]
    exact hrange n hslot hsome
  -- Two forms of one index are never both present, so the index tells the slots apart.
  have hinj : Set.InjOn FileName.index
      {n : FileName | n.IsSlot ∧ d (n.render filePath) ≠ none} := by
    rintro m ⟨hm, hmsome⟩ n ⟨hn, hnsome⟩ hindex
    cases m <;> cases n <;> simp only [FileName.IsSlot] at hm hn <;>
      simp only [FileName.index] at hindex <;> subst hindex
    case plain.plain => rfl
    case gz.gz => rfl
    case plain.gz i => exact absurd (hsingle i) (by simp [hmsome, hnsome])
    case gz.plain i => exact absurd (hsingle i) (by simp [hmsome, hnsome])
  calc {n : FileName | n.IsSlot ∧ d (n.render filePath) ≠ none}.encard
      ≤ (Finset.Icc 1 M : Set ℕ).encard := Set.encard_le_encard_of_injOn hmaps hinj
    _ = M := by rw [Set.encard_coe_eq_coe_finsetCard, Nat.card_Icc, Nat.add_sub_cancel]

/-- When the slots outside the limit stay as they are, the others alone exist. -/
theorem InRange.of_outside {d d' : Dir Bytes β} (hrange : InRange filePath M d)
    (houtside : ∀ n : FileName, n.IsSlot → ¬ (1 ≤ n.index ∧ n.index ≤ M) →
      d' (n.render filePath) = d (n.render filePath)) : InRange filePath M d' := by
  intro n hn hsome
  by_contra hnot
  rw [houtside n hn hnot] at hsome
  exact hnot (hrange n hn hsome)

/-- A slot outside the limit does not exist. -/
theorem InRange.eq_none {d : Dir Bytes β} (hrange : InRange filePath M d) {n : FileName}
    (hn : n.IsSlot) (hout : ¬ (1 ≤ n.index ∧ n.index ≤ M)) : d (n.render filePath) = none := by
  by_contra hsome
  exact hout (hrange n hn hsome)

/-- With compression the slots stay in range, each in one form. -/
theorem CompressedShift.retained {d d' : Dir Bytes β} (h : CompressedShift filePath M d d')
    (hrange : InRange filePath M d) (hsingle : SingleForm filePath d) :
    InRange filePath M d' ∧ SingleForm filePath d' := by
  have hrange' := hrange.of_outside filePath h.outside
  refine ⟨hrange', ?_⟩
  intro i
  by_cases hi : 1 ≤ i ∧ i ≤ M
  · rcases Nat.lt_or_ge 1 i with hgt | hle
    · obtain ⟨j, rfl⟩ : ∃ j, i = j + 1 := ⟨i - 1, by omega⟩
      obtain ⟨hplain, hgz⟩ := h.shifted j (by omega) (by omega)
      rw [hplain, hgz]
      exact hsingle j
    · obtain rfl : i = 1 := by omega
      exact Or.inl h.first
  · exact Or.inl (hrange'.eq_none filePath (n := .plain i) trivial hi)

/-- The slots after a rotation without compression. The compressed ones stay where they are,
up to the oldest one. -/
theorem Rotated.slots {d d' : Dir Bytes β} {active : Option β}
    (h : Rotated M filePath (Function.update d filePath active) d') :
    d' (FileName.render filePath (.plain 1)) = active ∧
    (∀ i, 1 ≤ i → i < M →
      d' (FileName.render filePath (.plain (i + 1))) = d (FileName.render filePath (.plain i))) ∧
    (∀ i, i ≠ M → d' (FileName.render filePath (.gz i)) = d (FileName.render filePath (.gz i))) ∧
    (∀ i, ¬ (1 ≤ i ∧ i ≤ M) →
      d' (FileName.render filePath (.plain i)) = d (FileName.render filePath (.plain i))) := by
  -- The slots are not the active file.
  have hslot : ∀ n : FileName, n ≠ .active →
      Function.update d filePath active (n.render filePath) = d (n.render filePath) :=
    fun n hn => Function.update_of_ne (render_ne hn) _ _
  refine ⟨?_, ?_, ?_, ?_⟩
  · rw [h.first]
    exact Function.update_self _ _ _
  · intro i h1 hi
    rw [h.shifted i h1 hi, hslot _ (by simp)]
  · intro i hi
    rw [h.other _ (render_ne (by simp)) (render_ne (by simpa using hi))
      fun j _ _ => render_ne (by simp), hslot _ (by simp)]
  · intro i hout
    rw [h.other _ (render_ne (by simp)) (render_ne (by simp)) ?_, hslot _ (by simp)]
    intro j h1 hj
    apply render_ne
    intro hij
    cases hij
    exact hout ⟨h1, hj⟩

/-- Without compression they stay in range too. -/
theorem Rotated.inRange {d d' : Dir Bytes β} {active : Option β} (hpos : 1 ≤ M)
    (h : Rotated M filePath (Function.update d filePath active) d')
    (hrange : InRange filePath M d) : InRange filePath M d' := by
  obtain ⟨-, -, hgz, hout⟩ := h.slots filePath
  apply hrange.of_outside filePath
  intro n hn hnot
  cases n with
  | plain i => exact hout i hnot
  | gz i =>
      apply hgz i
      rintro rfl
      exact hnot ⟨hpos, le_rfl⟩
  | _ => exact absurd hn id

/-- Without compression each slot keeps one form exactly when no plain file comes to stand
beside a compressed one. -/
theorem Rotated.singleForm_iff {d d' : Dir Bytes β} {e : MixedRotation β M}
    (h : Rotated M filePath (Function.update d filePath e.active) d')
    (hrange : InRange filePath M d) (hoff : e.config.configGetCompressionEnabled = false) :
    SingleForm filePath d' ↔ MovesApart filePath d e := by
  obtain ⟨hfirst, hshifted, hgz, -⟩ := h.slots filePath
  -- Slot `i` holds the plain file that stood in front of it.
  have hplain : ∀ i, 1 ≤ i → i < M → d' (FileName.render filePath (.plain i))
      = if i = 1 then e.active else d (FileName.render filePath (.plain (i - 1))) := by
    intro i h1 hi
    by_cases hone : i = 1
    · rw [if_pos hone, hone, hfirst]
    · rw [if_neg hone, ← hshifted (i - 1) (by omega) (by omega), Nat.sub_add_cancel h1]
  constructor
  · intro hsingle _ i h1 hi hsome
    rcases hsingle i with hnone | hnone
    · rw [← hplain i h1 hi, hnone]
    · rw [hgz i (by omega)] at hnone
      exact absurd hnone hsome
  · intro hapart i
    by_cases hi : 1 ≤ i ∧ i < M
    · by_cases hsome : d (FileName.render filePath (.gz i)) = none
      · right
        rw [hgz i (by omega), hsome]
      · left
        rw [hplain i hi.1 hi.2, hapart hoff i hi.1 hi.2 hsome]
    · -- The oldest compressed file is removed, and there is none outside the limit.
      right
      by_cases hM : i = M
      · rw [hM, h.oldestGz]
      · rw [hgz i hM]
        exact hrange.eq_none filePath (n := .gz i) trivial (by show ¬ (1 ≤ i ∧ i ≤ M); omega)

/-- In range the limit is kept when each slot has one form. -/
theorem InRange.retentionHolds_iff {d : Dir Bytes β} (hrange : InRange filePath M d) :
    RetentionHolds filePath M d ↔ SingleForm filePath d := by
  constructor
  · exact fun h => h.2
  · exact fun h => ⟨encard_slots_le filePath hrange h, h⟩

/-- A rotation keeps the slots in range, at every point. -/
theorem inRange_runWorker (hpos : 1 ≤ M) {d : Dir Bytes β} (hrange : InRange filePath M d)
    (hsingle : SingleForm filePath d) (e : MixedRotation β M) (k : ℕ) :
    InRange filePath M (runWorker gzip k (rotatedThreads filePath d e)).dir := by
  cases hmode : e.config.configGetCompressionEnabled with
  | true =>
      have hshift := compressedShift_runWorker gzip filePath hpos hsingle hmode k
      exact (hshift.retained filePath hrange hsingle).1
  | false => exact (rotated_runWorker gzip filePath hpos d hmode k).inRange filePath hpos hrange

/-- One rotation keeps the limit exactly when it moves no plain file beside a compressed one. -/
theorem retainedAfter_iff (hpos : 1 ≤ M) {d : Dir Bytes β} (hrange : InRange filePath M d)
    (hsingle : SingleForm filePath d) (e : MixedRotation β M) :
    RetainedAfter gzip filePath d e ↔ MovesApart filePath d e := by
  have hends : mixedStep gzip filePath d e ≠ none := by
    rw [mixedStep_eq]
    exact Option.some_ne_none _
  have hlimit := fun k =>
    (inRange_runWorker gzip filePath hpos hrange hsingle e k).retentionHolds_iff filePath
  cases hmode : e.config.configGetCompressionEnabled with
  | true =>
      constructor
      · intro _ hoff
        rw [hmode] at hoff
        cases hoff
      · intro _
        refine ⟨hends, fun k => (hlimit k).mpr ?_⟩
        have hshift := compressedShift_runWorker gzip filePath hpos hsingle hmode k
        exact (hshift.retained filePath hrange hsingle).2
  | false =>
      have hrotated := rotated_runWorker gzip filePath hpos d hmode
      constructor
      · rintro ⟨-, hkept⟩
        exact ((hrotated 0).singleForm_iff filePath hrange hmode).mp ((hlimit 0).mp (hkept 0))
      · intro hapart
        refine ⟨hends, fun k => (hlimit k).mpr ?_⟩
        exact ((hrotated k).singleForm_iff filePath hrange hmode).mpr hapart

/-- Rotations with and without compression, in any order, from a directory without rotated
files: the limit holds after every one of them exactly when none of those without compression
moves a plain file beside a compressed one. -/
theorem retainedAfter_run_iff (hpos : 1 ≤ M) {d : Dir Bytes β}
    (hstart : ∀ n : FileName, n.IsSlot → d (n.render filePath) = none)
    (rotations : List (MixedRotation β M)) :
    Run.Along (mixedStep gzip filePath) (RetainedAfter gzip filePath) d rotations
      ↔ Run.Along (mixedStep gzip filePath) (MovesApart filePath) d rotations := by
  have hinit : InRange filePath M d ∧ SingleForm filePath d :=
    ⟨fun n hn hsome => absurd (hstart n hn) hsome, fun i => Or.inl (hstart (.plain i) trivial)⟩
  apply Run.along_congr (I := fun d => InRange filePath M d ∧ SingleForm filePath d) ?_ ?_ hinit
  · intro d e hinv
    exact retainedAfter_iff gzip filePath hpos hinv.1 hinv.2 e
  · -- A rotation that keeps the limit leaves slots in range, each in one form.
    intro d e d' hinv hkept hstep
    rw [mixedStep_eq] at hstep
    cases hstep
    exact ⟨inRange_runWorker gzip filePath hpos hinv.1 hinv.2 e 4, (hkept.2 4).2⟩

end Retention

/-! ### Two rotations of `ptime.log` -/

/-- A rotation under the limit 2, with an active file. -/
def limitTwoRotation (compressionEnabled : Bool) : MixedRotation ℕ 2 where
  config := { configDefault with
    maxNumberOfFiles := 2
    compressionEnabled := compressionEnabled }
  limit := rfl
  now := 0
  mallocOk := true
  counter := 0
  active := some 7

/-- Compression is switched on: the plain file moves up and the compressed one follows it. -/
theorem retainedAfter_run_compressionOn :
    Run.Along (mixedStep id (LogBase.log.path configDefault))
      (RetainedAfter id (LogBase.log.path configDefault)) (fun _ => none)
      [limitTwoRotation false, limitTwoRotation true] := by
  rw [retainedAfter_run_iff id (LogBase.log.path configDefault) (by decide) (fun _ _ => rfl)]
  refine ⟨fun _ i _ _ hsome => absurd rfl hsome, ?_⟩
  rw [mixedStep_eq]
  refine ⟨?_, ?_⟩
  · intro hoff
    cases hoff
  · rw [mixedStep_eq]
    trivial

/-- Compression is switched off: `ptime.log.1` comes to stand beside `ptime.log.1.gz`. -/
theorem not_retainedAfter_run_compressionOff :
    ¬ Run.Along (mixedStep id (LogBase.log.path configDefault))
      (RetainedAfter id (LogBase.log.path configDefault)) (fun _ => none)
      [limitTwoRotation true, limitTwoRotation false] := by
  rintro ⟨-, hrest⟩
  rw [mixedStep_eq] at hrest
  obtain ⟨⟨-, hkept⟩, -⟩ := hrest
  have hboth := (hkept 0).2 1
  revert hboth
  decide +kernel

end ProcessAnalyzer
